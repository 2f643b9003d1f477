import EngPlatform.Lib.CodePoints
import Mathlib.Algebra.BigOperators.Group.List.Basic
import Mathlib.Data.List.Basic
import Mathlib.Data.Nat.Notation
import Mathlib.Tactic.SplitIfs

/-!
# The text of a worksheet

A text is a list of code points. In a cell it is written with the characters that a worksheet cannot
hold as `_xHHHH_`, and with `_x005F_` for the underscore of what would be read as such an escape; it
is read back by replacing, from left to right, every escape by its character.

A text is read back as it was exactly if no `_xHHHH` in it runs into an escape that is put after it.
-/

set_option linter.dupNamespace false

namespace Xlsx

open CodePoints

inductive Raised
  | resourceExceeded (detail : String)
  | other (detail : String)
  deriving DecidableEq

/-! ## Escapes -/

def isHex (c : ℕ) : Bool := (48 ≤ c ∧ c ≤ 57) ∨ (65 ≤ c ∧ c ≤ 70) ∨ (97 ≤ c ∧ c ≤ 102)

def hexValue (c : ℕ) : ℕ := if c ≤ 57 then c - 48 else if c ≤ 70 then c - 55 else c - 87

def hexValues (a b c d : ℕ) : ℕ :=
  hexValue a * 4096 + hexValue b * 256 + hexValue c * 16 + hexValue d

/-- The code of `xHHHH`, where a text starts with it. -/
def codeOf : Text → Option ℕ
  | x :: a :: b :: c :: d :: _ =>
    if x = 120 ∧ isHex a ∧ isHex b ∧ isHex c ∧ isHex d then some (hexValues a b c d) else none
  | _ => none

/-- `_ESCAPE_TOKEN` matches at the start. -/
def isToken : Text → Bool
  | c :: rest => c = 95 ∧ (codeOf rest).isSome ∧ rest[5]? = some 95
  | [] => false

/-- `_ESCAPE_TOKEN.sub`, with the first `k` characters part of a match. -/
def escapeTokens : ℕ → Text → Text
  | _, [] => []
  | k + 1, c :: rest => c :: escapeTokens k rest
  | 0, c :: rest =>
    if isToken (c :: rest) then text "_x005F_" ++ escapeTokens 6 rest
    else c :: escapeTokens 0 rest

def isControl (c : ℕ) : Bool := c = 13 ∨ (c < 32 ∧ c ∉ [9, 10]) ∨ c ∈ [0xFFFE, 0xFFFF]

/-- `_x{ordinal:04X}_`. -/
def controlCode (c : ℕ) : Text :=
  [95, 120, hexDigit (c / 4096 % 16), hexDigit (c / 256 % 16), hexDigit (c / 16 % 16),
    hexDigit (c % 16), 95]

def encodeCharacter (c : ℕ) : Except Raised Text :=
  if isControl c then .ok (controlCode c)
  else if 0xD800 ≤ c ∧ c ≤ 0xDFFF then .error (.resourceExceeded "Unsupported export character")
  else .ok [c]

/-- `xml.sax.saxutils.escape`. -/
def escape (value : Text) : Text :=
  value.flatMap fun c =>
    if c = 38 then text "&amp;" else if c = 60 then text "&lt;"
    else if c = 62 then text "&gt;" else [c]

def maxCellCharacters : ℕ := 32767
def maxCellLineFeeds : ℕ := 253

/-- `_xstring`. -/
def xstring (value : Text) : Except Raised Text :=
  if value.count 10 > maxCellLineFeeds then
    .error (.resourceExceeded "Export cell line break budget exceeded")
  else if utf16Length value > maxCellCharacters then
    .error (.resourceExceeded "Export cell length budget exceeded")
  else do
    let result ← (escapeTokens 0 value).mapM encodeCharacter
    .ok (escape result.flatten)

/-! ## Cells -/

/-- A value of a row. A float and a document carry what `str` and `json.dumps` make of them; the
latter may raise. -/
inductive Value
  | none
  | bool (b : Bool)
  | int (n : Int)
  | float (finite : Bool) (repr : Text)
  | str (s : Text)
  | document (json : Option Text)

def intText (n : Int) : Text := text (toString n)

def rowText (n : ℕ) : Text := text (toString n)

def textCell (reference value : Text) (header : Bool) : Except Raised Text := do
  let encoded ← xstring value
  let style := if header then text " s=\"1\"" else []
  .ok (text "<c r=\"" ++ reference ++ text "\" t=\"inlineStr\"" ++ style ++
    text "><is><t xml:space=\"preserve\">" ++ encoded ++ text "</t></is></c>")

/-- `str(value)`. -/
def Value.toStr : Value → Text
  | .none => text "None"
  | .bool b => text (if b then "True" else "False")
  | .int n => intText n
  | .float _ repr => repr
  | .str s => s
  | .document json => json.getD []

/-- `json.dumps(value)`. -/
def Value.dumps : Value → Option Text
  | .none => text "null"
  | .bool b => text (if b then "true" else "false")
  | .int n => intText n
  | .float _ repr => repr
  | .str s => s
  | .document json => json

def Value.isDocument : Value → Bool
  | .document _ => true
  | _ => false

/-- The text of a value in a column of documents; `loads` says whether a text is JSON. -/
def documentText (loads : Text → Bool) : Value → Except Raised Text
  | .str s =>
    if loads s then .ok s else .error (.resourceExceeded "Unsupported export value")
  | value =>
    match value.dumps with
    | some json => .ok json
    | Option.none => .error (.resourceExceeded "Unsupported export value")

def isDocumentType (dataType : String) : Bool :=
  dataType ∈ ["json", "jsonb"] ∨ dataType.toList.head? = some '_'

def integerTypes : List String := ["int2", "int4", "int8", "oid"]

/-- The text of a value that is not written as a boolean or a number. -/
def valueText (loads : Text → Bool) (value : Value) (dataType : String) : Except Raised Text :=
  if isDocumentType dataType ∨ value.isDocument then documentText loads value
  else .ok value.toStr

/-- `_cell`. -/
def cell (loads : Text → Bool) (reference : Text) (value : Value) (dataType : String) :
    Except Raised Text :=
  let written : Except Raised Text := do
    let text' ← valueText loads value dataType
    textCell reference (if text'.head? = some 92 then 92 :: text' else text') false
  match value with
  | .none => textCell reference (text "\\N") false
  | .bool b =>
    if dataType ∈ ["bool", "boolean"] then
      .ok (text "<c r=\"" ++ reference ++ text "\" t=\"b\"><v>" ++ rowText b.toNat ++
        text "</v></c>")
    else written
  | .int n =>
    if dataType ∈ integerTypes ∧ (rowText n.natAbs).length ≤ 15 then
      .ok (text "<c r=\"" ++ reference ++ text "\" t=\"n\"><v>" ++ intText n ++ text "</v></c>")
    else written
  | .float finite _ =>
    if finite then written
    else .error (.resourceExceeded "Unsupported export numeric value")
  | _ => written

/-! ## Reading back -/

def entities : List (Text × ℕ) := [(text "&amp;", 38), (text "&lt;", 60), (text "&gt;", 62)]

/-- XML unescaping, with the first `k` characters part of an entity. -/
def unescape : ℕ → Text → Text
  | _, [] => []
  | k + 1, _ :: rest => unescape k rest
  | 0, c :: rest =>
    match entities.find? fun entity => entity.1.isPrefixOf (c :: rest) with
    | some (entity, character) => character :: unescape (entity.length - 1) rest
    | none => c :: unescape 0 rest

/-- Every `_xHHHH_`, from left to right, by its character; the first `k` characters are part of
one. -/
def decode : ℕ → Text → Text
  | _, [] => []
  | k + 1, _ :: rest => decode k rest
  | 0, c :: rest =>
    if isToken (c :: rest) then ((codeOf rest).getD 0) :: decode 6 rest else c :: decode 0 rest

/-- At the start of a text a `_xHHHH` runs into what is escaped after it: a character that is
written as a code, or the underscore of another `_xHHHH_`. -/
def Clash (l : Text) : Prop :=
  ∃ rest, l = 95 :: rest ∧ (codeOf rest).isSome ∧
    ((∃ c ∈ rest[5]?, isControl c) ∨ isToken (rest.drop 5))

/-- Nowhere in a text does a `_xHHHH` run into an escape. -/
def Clean (value : Text) : Prop := ∀ l, l <:+ value → ¬Clash l

/-! ## The blocks of an encoded text -/

def block (c : ℕ) : Text := if isControl c then controlCode c else [c]

/-- What each character of a text is written as, with the first `k` characters part of a match. -/
def blocks : ℕ → Text → List Text
  | _, [] => []
  | k + 1, c :: rest => block c :: blocks k rest
  | 0, c :: rest =>
    if isToken (c :: rest) then text "_x005F_" :: blocks 6 rest else block c :: blocks 0 rest

def encode (k : ℕ) (value : Text) : Text := (blocks k value).flatten

theorem encodeCharacter_ok {c : ℕ} {t : Text} (h : encodeCharacter c = .ok t) : t = block c := by
  unfold encodeCharacter at h
  unfold block
  split_ifs at h ⊢ <;> cases h <;> rfl

theorem mapM_append_ok {f : ℕ → Except Raised Text} : ∀ {l l' : Text} {t : List Text},
    (l ++ l').mapM f = .ok t → ∃ u u', l.mapM f = .ok u ∧ l'.mapM f = .ok u' ∧ t = u ++ u' := by
  intro l l' t h
  rw [List.mapM_append] at h
  cases hl : l.mapM f with
  | error x =>
    rw [hl] at h
    cases h
  | ok u =>
    cases hl' : l'.mapM f with
    | error x =>
      rw [hl, hl'] at h
      cases h
    | ok u' =>
      rw [hl, hl'] at h
      cases h
      exact ⟨u, u', rfl, rfl, rfl⟩

theorem mapM_cons_ok {f : ℕ → Except Raised Text} {c : ℕ} {l : Text} {t : List Text}
    (h : (c :: l).mapM f = .ok t) :
    ∃ u u', f c = .ok u ∧ l.mapM f = .ok u' ∧ t = u :: u' := by
  rw [List.mapM_cons] at h
  cases hc : f c with
  | error x =>
    rw [hc] at h
    cases h
  | ok u =>
    cases hl : l.mapM f with
    | error x =>
      rw [hc, hl] at h
      cases h
    | ok u' =>
      rw [hc, hl] at h
      cases h
      exact ⟨u, u', rfl, rfl, rfl⟩

theorem mapM_marker {t : List Text}
    (h : (text "_x005F_").mapM encodeCharacter = .ok t) : t.flatten = text "_x005F_" := by
  have hmarker : (text "_x005F_").mapM encodeCharacter =
      .ok [[95], [120], [48], [48], [53], [70], [95]] := by rfl
  rw [hmarker] at h
  cases h
  rfl

theorem encoded_blocks : ∀ (k : ℕ) (value : Text) {t : List Text},
    (escapeTokens k value).mapM encodeCharacter = .ok t → t.flatten = encode k value
  | k, [], t, h => by
    have hnil : escapeTokens k [] = [] := by cases k <;> rfl
    rw [hnil] at h
    cases h
    cases k <;> rfl
  | k + 1, c :: rest, t, h => by
    obtain ⟨u, u', hc, hrest, rfl⟩ := mapM_cons_ok h
    rw [List.flatten_cons, encoded_blocks k rest hrest, encodeCharacter_ok hc]
    rfl
  | 0, c :: rest, t, h => by
    rw [escapeTokens] at h
    unfold encode
    rw [blocks]
    split_ifs at h ⊢ with hc
    · obtain ⟨u, u', hm, hrest, rfl⟩ := mapM_append_ok h
      rw [List.flatten_append, mapM_marker hm, encoded_blocks 6 rest hrest]
      rfl
    · obtain ⟨u, u', hu, hrest, rfl⟩ := mapM_cons_ok h
      rw [List.flatten_cons, encoded_blocks 0 rest hrest, encodeCharacter_ok hu]
      rfl

theorem xstring_ok {value e : Text} (h : xstring value = .ok e) :
    e = escape (encode 0 value) := by
  unfold xstring at h
  split_ifs at h
  cases hm : (escapeTokens 0 value).mapM encodeCharacter with
  | error x =>
    rw [hm] at h
    cases h
  | ok t =>
    rw [hm] at h
    cases h
    rw [encoded_blocks 0 value hm]

/-! ## Entities -/

theorem unescape_entity {e : Text} {c : ℕ} (h : (e, c) ∈ entities) (rest : Text) :
    unescape 0 (e ++ rest) = c :: unescape 0 rest := by
  simp only [entities, List.mem_cons, Prod.mk.injEq, List.not_mem_nil, or_false] at h
  rcases h with ⟨rfl, rfl⟩ | ⟨rfl, rfl⟩ | ⟨rfl, rfl⟩ <;> rfl

theorem unescape_plain {c : ℕ} (h : c ≠ 38) (rest : Text) :
    unescape 0 (c :: rest) = c :: unescape 0 rest := by
  have hfind : entities.find? (fun entity => entity.1.isPrefixOf (c :: rest)) = none := by
    have hamp : ∀ tail : Text, (38 :: tail).isPrefixOf (c :: rest) = false := by
      intro tail
      rw [List.isPrefixOf_cons_cons, beq_eq_false_iff_ne.2 (Ne.symm h), Bool.false_and]
    simp only [entities, List.find?_eq_none, List.mem_cons, List.not_mem_nil, or_false]
    rintro _ (rfl | rfl | rfl) <;> exact Bool.eq_false_iff.1 (hamp _)
  rw [unescape, hfind]

/-- What is escaped is unescaped. -/
theorem unescape_escape : ∀ value : Text, unescape 0 (escape value) = value
  | [] => rfl
  | c :: rest => by
    have ih := unescape_escape rest
    have hcons : escape (c :: rest) = (if c = 38 then text "&amp;" else if c = 60 then text "&lt;"
        else if c = 62 then text "&gt;" else [c]) ++ escape rest := List.flatMap_cons
    rw [hcons]
    split_ifs with h38 h60 h62
    · rw [unescape_entity (c := 38) (by simp [entities]), ih, h38]
    · rw [unescape_entity (c := 60) (by simp [entities]), ih, h60]
    · rw [unescape_entity (c := 62) (by simp [entities]), ih, h62]
    · rw [List.singleton_append, unescape_plain h38, ih]

/-! ## Escapes among the blocks -/

theorem codeOf_some {rest : Text} {n : ℕ} (h : codeOf rest = some n) :
    ∃ a b c d r, rest = 120 :: a :: b :: c :: d :: r ∧
      (isHex a ∧ isHex b ∧ isHex c ∧ isHex d) ∧ n = hexValues a b c d := by
  unfold codeOf at h
  split at h
  · split_ifs at h with hc
    cases h
    obtain ⟨rfl, hhex⟩ := hc
    exact ⟨_, _, _, _, _, rfl, hhex, rfl⟩
  · cases h

theorem codeOf_hex {a b c d : ℕ} (h : isHex a ∧ isHex b ∧ isHex c ∧ isHex d) (r : Text) :
    codeOf (120 :: a :: b :: c :: d :: r) = some (hexValues a b c d) :=
  if_pos ⟨rfl, h⟩

theorem isToken_iff {l : Text} : isToken l = true ↔ ∃ a b c d r,
    l = 95 :: 120 :: a :: b :: c :: d :: 95 :: r ∧ (isHex a ∧ isHex b ∧ isHex c ∧ isHex d) := by
  constructor
  · intro h
    cases l with
    | nil => cases h
    | cons u rest =>
      obtain ⟨rfl, hcode, hlast⟩ := of_decide_eq_true h
      obtain ⟨n, hn⟩ := Option.isSome_iff_exists.1 hcode
      obtain ⟨a, b, c, d, r, rfl, hhex, -⟩ := codeOf_some hn
      cases r with
      | nil => cases hlast
      | cons v r =>
        cases (show some v = some 95 from hlast)
        exact ⟨a, b, c, d, r, rfl, hhex⟩
  · rintro ⟨a, b, c, d, r, rfl, hhex⟩
    refine decide_eq_true ⟨rfl, ?_, rfl⟩
    rw [codeOf_hex hhex]
    rfl

theorem isToken_cons_ne {c : ℕ} (h : c ≠ 95) (rest : Text) : isToken (c :: rest) = false :=
  decide_eq_false fun hc => h hc.1

/-- A character that is written as it is and starts no escape. -/
def Plain (c : ℕ) : Prop := c ≠ 95 ∧ isControl c = false

theorem Plain.hex {c : ℕ} (h : isHex c = true) : Plain c := by
  unfold isHex at h
  have hc := of_decide_eq_true h
  constructor
  · omega
  · refine decide_eq_false ?_
    simp only [List.mem_cons, List.not_mem_nil, or_false]
    omega

theorem Plain.x : Plain 120 := ⟨by decide, by decide⟩

theorem encode_plain {c : ℕ} (h : Plain c) (k : ℕ) (rest : Text) :
    encode k (c :: rest) = c :: encode (k - 1) rest := by
  have hblock : block c = [c] := by
    unfold block
    rw [h.2]
    rfl
  cases k with
  | succ k =>
    unfold encode
    rw [blocks, List.flatten_cons, hblock]
    rfl
  | zero =>
    unfold encode
    rw [blocks, isToken_cons_ne h.1, if_neg (by decide), List.flatten_cons, hblock]
    rfl

theorem encode_control {c : ℕ} (h : isControl c = true) (rest : Text) :
    encode 0 (c :: rest) = controlCode c ++ encode 0 rest := by
  have hne : c ≠ 95 := by
    rintro rfl
    revert h
    decide
  have hblock : block c = controlCode c := if_pos h
  unfold encode
  rw [blocks, isToken_cons_ne hne, if_neg (by decide), List.flatten_cons, hblock]

theorem encode_underscore (rest : Text) (k : ℕ) :
    encode (k + 1) (95 :: rest) = 95 :: encode k rest := rfl

theorem encode_single {rest : Text} (h : isToken (95 :: rest) = false) :
    encode 0 (95 :: rest) = 95 :: encode 0 rest := by
  unfold encode
  rw [blocks, h, if_neg (by decide)]
  rfl

theorem encode_token {rest : Text} (h : isToken (95 :: rest) = true) :
    encode 0 (95 :: rest) = text "_x005F_" ++ encode 6 rest := by
  unfold encode
  rw [blocks, h, if_pos rfl]
  rfl

theorem encode_hexes {a b c d : ℕ} (h : isHex a ∧ isHex b ∧ isHex c ∧ isHex d) (k : ℕ)
    (r : Text) : encode k (120 :: a :: b :: c :: d :: r) =
      120 :: a :: b :: c :: d :: encode (k - 5) r := by
  rw [encode_plain .x, encode_plain (.hex h.1), encode_plain (.hex h.2.1),
    encode_plain (.hex h.2.2.1), encode_plain (.hex h.2.2.2)]
  rfl

/-- What is written of a text starts with an underscore, or with its own first character. -/
theorem encode_head (c : ℕ) (rest : Text) :
    (∃ e, encode 0 (c :: rest) = 95 :: e ∧ (c = 95 ∨ isControl c = true)) ∨
      Plain c ∧ encode 0 (c :: rest) = c :: encode 0 rest := by
  by_cases hc : c = 95
  · subst hc
    refine .inl ?_
    cases ht : isToken (95 :: rest) with
    | true => exact ⟨_, encode_token ht, .inl rfl⟩
    | false => exact ⟨_, encode_single ht, .inl rfl⟩
  · cases hctl : isControl c with
    | true => exact .inl ⟨_, encode_control hctl rest, .inr rfl⟩
    | false => exact .inr ⟨⟨hc, hctl⟩, encode_plain ⟨hc, hctl⟩ 0 rest⟩

theorem plain_of_encode {c : ℕ} {rest e : Text} (hc : c ≠ 95) (h : encode 0 rest = c :: e) :
    ∃ r, rest = c :: r ∧ encode 0 r = e := by
  cases rest with
  | nil => cases h
  | cons a r =>
    rcases encode_head a r with ⟨e', he, -⟩ | ⟨-, he⟩
    · rw [he] at h
      exact absurd (List.cons.inj h).1.symm hc
    · rw [he] at h
      obtain ⟨rfl, rfl⟩ := List.cons.inj h
      exact ⟨r, rfl, rfl⟩

/-- The text after an underscore is written so that the underscore starts an escape. -/
def Spoilt (rest : Text) : Prop :=
  (codeOf rest).isSome ∧ ∃ c ∈ rest[5]?, c = 95 ∨ isControl c = true

theorem isToken_encode {rest : Text} : isToken (95 :: encode 0 rest) = true ↔ Spoilt rest := by
  constructor
  · intro h
    obtain ⟨a, b, c, d, r, hl, hhex⟩ := isToken_iff.1 h
    obtain ⟨r₁, rfl, h₁⟩ := plain_of_encode (by decide) (List.cons.inj hl).2
    obtain ⟨r₂, rfl, h₂⟩ := plain_of_encode (Plain.hex hhex.1).1 h₁
    obtain ⟨r₃, rfl, h₃⟩ := plain_of_encode (Plain.hex hhex.2.1).1 h₂
    obtain ⟨r₄, rfl, h₄⟩ := plain_of_encode (Plain.hex hhex.2.2.1).1 h₃
    obtain ⟨r₅, rfl, h₅⟩ := plain_of_encode (Plain.hex hhex.2.2.2).1 h₄
    constructor
    · rw [codeOf_hex hhex]
      rfl
    · cases r₅ with
      | nil => cases h₅
      | cons e r₆ =>
        refine ⟨e, rfl, ?_⟩
        rcases encode_head e r₆ with ⟨_, -, he⟩ | ⟨hp, he⟩
        · exact he
        · rw [he] at h₅
          exact absurd (List.cons.inj h₅).1 hp.1
  · rintro ⟨hcode, e, he, hspoils⟩
    obtain ⟨n, hn⟩ := Option.isSome_iff_exists.1 hcode
    obtain ⟨a, b, c, d, r, rfl, hhex, -⟩ := codeOf_some hn
    cases r with
    | nil => cases he
    | cons e' r =>
      cases (show some e' = some e from he)
      rw [encode_hexes hhex]
      rcases encode_head e r with ⟨t, ht, -⟩ | ⟨hp, -⟩
      · rw [ht]
        exact isToken_iff.2 ⟨a, b, c, d, t, rfl, hhex⟩
      · rcases hspoils with rfl | hctl
        · exact absurd rfl hp.1
        · rw [hp.2] at hctl
          cases hctl

/-! ## Decoding the blocks -/

theorem decode_drop : ∀ (k : ℕ) (e : Text), decode k e = decode 0 (e.drop k)
  | 0, _ => rfl
  | _ + 1, [] => rfl
  | k + 1, _ :: e => decode_drop k e

theorem decode_ne {c : ℕ} (h : c ≠ 95) (e : Text) : decode 0 (c :: e) = c :: decode 0 e := by
  rw [decode, isToken_cons_ne h, if_neg (by decide)]

theorem decode_escape {a b c d : ℕ} (h : isHex a ∧ isHex b ∧ isHex c ∧ isHex d) (e : Text) :
    decode 0 (95 :: 120 :: a :: b :: c :: d :: 95 :: e) = hexValues a b c d :: decode 0 e := by
  rw [decode, if_pos (isToken_iff.2 ⟨a, b, c, d, e, rfl, h⟩), codeOf_hex h]
  rfl

theorem decode_marker (e : Text) : decode 0 (text "_x005F_" ++ e) = 95 :: decode 0 e :=
  decode_escape (by decide) e

theorem hexDigit_hex {d : ℕ} (h : d < 16) : isHex (hexDigit d) ∧ hexValue (hexDigit d) = d := by
  unfold hexDigit hexValue isHex
  split_ifs with h10 h57 h70 <;> refine ⟨decide_eq_true ?_, ?_⟩ <;> omega

theorem isControl_lt {c : ℕ} (h : isControl c = true) : c < 65536 := by
  unfold isControl at h
  have hc := of_decide_eq_true h
  simp only [List.mem_cons, List.not_mem_nil, or_false] at hc
  omega

theorem controlCode_hex {c : ℕ} (h : isControl c = true) : ∃ h₁ h₂ h₃ h₄,
    controlCode c = [95, 120, h₁, h₂, h₃, h₄, 95] ∧
      (isHex h₁ ∧ isHex h₂ ∧ isHex h₃ ∧ isHex h₄) ∧ hexValues h₁ h₂ h₃ h₄ = c := by
  have hlt := isControl_lt h
  have h₁ := hexDigit_hex (d := c / 4096 % 16) (by omega)
  have h₂ := hexDigit_hex (d := c / 256 % 16) (by omega)
  have h₃ := hexDigit_hex (d := c / 16 % 16) (by omega)
  have h₄ := hexDigit_hex (d := c % 16) (by omega)
  refine ⟨_, _, _, _, rfl, ⟨h₁.1, h₂.1, h₃.1, h₄.1⟩, ?_⟩
  unfold hexValues
  rw [h₁.2, h₂.2, h₃.2, h₄.2]
  omega

theorem decode_control {c : ℕ} (h : isControl c = true) (e : Text) :
    decode 0 (controlCode c ++ e) = c :: decode 0 e := by
  obtain ⟨h₁, h₂, h₃, h₄, hcode, hhex, hval⟩ := controlCode_hex h
  rw [hcode]
  exact (decode_escape hhex e).trans (congrArg (· :: decode 0 e) hval)

/-- A block: a character, or an escape. -/
def IsBlock (t : Text) : Prop :=
  (∃ c, t = [c]) ∨ ∃ a b c d, t = [95, 120, a, b, c, d, 95] ∧
    (isHex a ∧ isHex b ∧ isHex c ∧ isHex d)

theorem isBlock_block (c : ℕ) : IsBlock (block c) := by
  unfold block
  split_ifs with h
  · obtain ⟨h₁, h₂, h₃, h₄, hcode, hhex, -⟩ := controlCode_hex h
    exact .inr ⟨h₁, h₂, h₃, h₄, hcode, hhex⟩
  · exact .inl ⟨c, rfl⟩

theorem isBlock_blocks : ∀ (k : ℕ) (value : Text), ∀ t ∈ blocks k value, IsBlock t
  | 0, [], _, h => absurd h List.not_mem_nil
  | _ + 1, [], _, h => absurd h List.not_mem_nil
  | k + 1, c :: rest, t, h => by
    rcases List.mem_cons.1 h with rfl | h
    · exact isBlock_block c
    · exact isBlock_blocks k rest t h
  | 0, c :: rest, t, h => by
    rw [blocks] at h
    split_ifs at h
    · rcases List.mem_cons.1 h with rfl | h
      · exact .inr ⟨48, 48, 53, 70, rfl, by decide⟩
      · exact isBlock_blocks 6 rest t h
    · rcases List.mem_cons.1 h with rfl | h
      · exact isBlock_block c
      · exact isBlock_blocks 0 rest t h

theorem length_blocks : ∀ (k : ℕ) (value : Text), (blocks k value).length = value.length
  | k, [] => by cases k <;> rfl
  | k + 1, c :: rest => congrArg (· + 1) (length_blocks k rest)
  | 0, c :: rest => by
    rw [blocks]
    split_ifs
    · exact congrArg (· + 1) (length_blocks 6 rest)
    · exact congrArg (· + 1) (length_blocks 0 rest)

/-- What is left of an escape that is decoded from its midst. -/
def slack : ℕ → ℕ
  | 0 => 0
  | k + 1 => 5 - k

/-- Decoding makes a text no longer than it has blocks, but for what it starts in the midst of. -/
theorem length_decode_le : ∀ (l : List Text), (∀ t ∈ l, IsBlock t) → ∀ k ≤ 6,
    (decode k l.flatten).length ≤ l.length + slack k
  | [], _, k, _ => by cases k <;> exact Nat.zero_le _
  | t :: l, h, k, hk => by
    have ih := length_decode_le l fun t' ht' => h t' (.tail _ ht')
    have h0 : (decode 0 l.flatten).length ≤ l.length := ih 0 (by omega)
    have h6 : (decode 6 l.flatten).length ≤ l.length := ih 6 (by omega)
    have hhead : ∀ c, (decode 0 (c :: l.flatten)).length ≤ l.length + 1 := by
      intro c
      rw [decode]
      split_ifs
      · exact Nat.succ_le_succ h6
      · exact Nat.succ_le_succ h0
    rw [List.flatten_cons, List.length_cons]
    rcases h t (.head _) with ⟨c, rfl⟩ | ⟨a, b, c, d, rfl, hhex⟩
    · cases k with
      | zero => exact hhead c
      | succ k =>
        have hskip := ih k (by omega)
        have hslack : slack k ≤ slack (k + 1) + 1 := by
          cases k <;> simp only [slack] <;> omega
        have hdrop : decode (k + 1) ([c] ++ l.flatten) = decode k l.flatten := rfl
        rw [hdrop]
        omega
    · have hx : ∀ e, decode 0 (120 :: e) = 120 :: decode 0 e := decode_ne (by decide)
      have ha := decode_ne (Plain.hex hhex.1).1
      have hb := decode_ne (Plain.hex hhex.2.1).1
      have hc := decode_ne (Plain.hex hhex.2.2.1).1
      have hd := decode_ne (Plain.hex hhex.2.2.2).1
      have hlast := hhead 95
      have hk' : k = 0 ∨ k = 1 ∨ k = 2 ∨ k = 3 ∨ k = 4 ∨ k = 5 ∨ k = 6 := by omega
      rw [decode_drop]
      rcases hk' with rfl | rfl | rfl | rfl | rfl | rfl | rfl <;>
        simp only [List.cons_append, List.nil_append, List.drop_zero, List.drop_succ_cons,
          decode_escape hhex, hx, ha, hb, hc, hd, List.length_cons, slack] <;> omega

theorem length_decode_encode (k : ℕ) (value : Text) :
    (decode 0 (encode k value)).length ≤ value.length := by
  have h := length_decode_le (blocks k value) (isBlock_blocks k value) 0 (by omega)
  rwa [length_blocks] at h

/-- Four digits are decoded as they are, and then an underscore. -/
theorem decode_digits {a b c d : ℕ} (h : isHex a ∧ isHex b ∧ isHex c ∧ isHex d) (e : Text) :
    decode 0 (120 :: a :: b :: c :: d :: e) = 120 :: a :: b :: c :: d :: decode 0 e := by
  rw [decode_ne (by decide), decode_ne (Plain.hex h.1).1, decode_ne (Plain.hex h.2.1).1,
    decode_ne (Plain.hex h.2.2.1).1, decode_ne (Plain.hex h.2.2.2).1]

/-- The rest of an escape, after its underscore, does not decode to a `xHHHH` that stands for an
underscore and what follows it. -/
theorem decode_rest_ne {a b c d e : ℕ} {r : Text}
    (h : isHex a ∧ isHex b ∧ isHex c ∧ isHex d) (h95 : hexValues a b c d = 95)
    (he : e = 95 ∨ isControl e = true) :
    decode 1 (encode 0 (e :: r)) ≠ 120 :: a :: b :: c :: d :: e :: r := by
  intro heq
  cases hctl : isControl e with
  | true =>
    -- the digits would be those of the control character, not those of an underscore
    obtain ⟨h₁, h₂, h₃, h₄, hcode, hhex, hval⟩ := controlCode_hex hctl
    rw [encode_control hctl, hcode] at heq
    have hdigits : decode 1 ([95, 120, h₁, h₂, h₃, h₄, 95] ++ encode 0 r) =
        120 :: h₁ :: h₂ :: h₃ :: h₄ :: decode 0 (95 :: encode 0 r) := decode_digits hhex _
    rw [hdigits] at heq
    simp only [List.cons.injEq] at heq
    obtain ⟨-, rfl, rfl, rfl, rfl, -⟩ := heq
    rw [hval] at h95
    subst h95
    revert hctl
    decide
  | false =>
    obtain rfl : e = 95 := by
      rcases he with he | he
      · exact he
      · rw [hctl] at he
        cases he
    cases ht : isToken (95 :: r) with
    | false =>
      have hlen := length_decode_encode 0 r
      rw [encode_single ht, show decode 1 (95 :: encode 0 r) = decode 0 (encode 0 r) from rfl]
        at heq
      rw [heq] at hlen
      simp only [List.length_cons] at hlen
      omega
    | true =>
      obtain ⟨a', b', c', d', r', hr, hhex⟩ := isToken_iff.1 ht
      obtain rfl := (List.cons.inj hr).2
      have hdigits : decode 1 (text "_x005F_" ++ encode 6 (120 :: a' :: b' :: c' :: d' :: 95 :: r'))
          = 120 :: 48 :: 48 :: 53 :: 70 ::
            decode 0 (95 :: encode 6 (120 :: a' :: b' :: c' :: d' :: 95 :: r')) :=
        decode_digits (by decide) _
      rw [encode_token ht, hdigits, encode_hexes hhex, encode_underscore, decode_escape hhex] at heq
      simp only [List.cons.injEq] at heq
      have hlen := length_decode_encode 0 r'
      rw [heq.2.2.2.2.2.2] at hlen
      simp only [List.length_cons] at hlen
      omega

/-- An underscore that starts an escape which is not its own is not read back. -/
theorem decode_spoilt {r : Text} (h : Spoilt r) : decode 0 (95 :: encode 0 r) ≠ 95 :: r := by
  have ht := isToken_encode.2 h
  obtain ⟨hcode, e, he, hspoils⟩ := h
  obtain ⟨n, hn⟩ := Option.isSome_iff_exists.1 hcode
  obtain ⟨a, b, c, d, r, rfl, hhex, -⟩ := codeOf_some hn
  cases r with
  | nil => cases he
  | cons e' r =>
    cases (show some e' = some e from he)
    intro heq
    rw [decode, if_pos ht, encode_hexes hhex, codeOf_hex hhex] at heq
    obtain ⟨h95, hrest⟩ := List.cons.inj heq
    exact decode_rest_ne hhex h95 hspoils hrest

theorem decode_unspoilt {r : Text} (h : ¬Spoilt r) :
    decode 0 (95 :: encode 0 r) = 95 :: decode 0 (encode 0 r) := by
  rw [decode, if_neg (fun ht => h (isToken_encode.1 ht))]

/-! ## Clean texts -/

theorem clash_ne {c : ℕ} {rest : Text} (h : c ≠ 95) : ¬Clash (c :: rest) := by
  rintro ⟨r, heq, -⟩
  exact h (List.cons.inj heq).1

theorem clean_cons {c : ℕ} {rest : Text} :
    Clean (c :: rest) ↔ ¬Clash (c :: rest) ∧ Clean rest := by
  constructor
  · intro h
    exact ⟨h _ (List.suffix_refl _), fun l hl => h l (hl.trans (List.suffix_cons c rest))⟩
  · rintro ⟨hc, h⟩ l hl
    rcases List.suffix_cons_iff.1 hl with rfl | hl
    · exact hc
    · exact h l hl

theorem clean_ne {c : ℕ} {rest : Text} (h : c ≠ 95) : Clean (c :: rest) ↔ Clean rest :=
  clean_cons.trans (and_iff_right (clash_ne h))

theorem clean_nil : Clean [] := by
  rintro l hl ⟨r, rfl, -⟩
  exact absurd (List.suffix_nil.1 hl) (List.cons_ne_nil _ _)

/-- An underscore is spoilt if it starts an escape of its own, or runs into one. -/
theorem spoilt_iff {r : Text} : Spoilt r ↔ isToken (95 :: r) = true ∨ Clash (95 :: r) := by
  constructor
  · rintro ⟨hcode, e, he, rfl | hctl⟩
    · exact .inl (decide_eq_true ⟨rfl, hcode, he⟩)
    · exact .inr ⟨r, rfl, hcode, .inl ⟨e, he, hctl⟩⟩
  · rintro (ht | ⟨r', heq, hcode, hrest⟩)
    · obtain ⟨-, hcode, he⟩ := of_decide_eq_true ht
      exact ⟨hcode, 95, he, .inl rfl⟩
    · obtain rfl := (List.cons.inj heq).2
      refine ⟨hcode, ?_⟩
      rcases hrest with ⟨e, he, hctl⟩ | ht
      · exact ⟨e, he, .inr hctl⟩
      · obtain ⟨a, b, c, d, t, hdrop, -⟩ := isToken_iff.1 ht
        refine ⟨95, ?_, .inl rfl⟩
        rw [← Nat.add_zero 5, ← List.getElem?_drop, hdrop]
        rfl

theorem clash_token {a b c d : ℕ} {r : Text} (h : isHex a ∧ isHex b ∧ isHex c ∧ isHex d) :
    Clash (95 :: 120 :: a :: b :: c :: d :: 95 :: r) ↔ isToken (95 :: r) = true := by
  constructor
  · rintro ⟨r', heq, -, hrest⟩
    obtain rfl := (List.cons.inj heq).2
    rcases hrest with ⟨e, he, hctl⟩ | ht
    · cases (show some 95 = some e from he)
      exact absurd hctl (by decide)
    · exact ht
  · intro ht
    refine ⟨_, rfl, ?_, .inr ht⟩
    rw [codeOf_hex h]
    rfl

/-- A text with an escape of its own at the start is clean if what is after the escape does not
spoil its last underscore. -/
theorem clean_token {a b c d : ℕ} {r : Text} (h : isHex a ∧ isHex b ∧ isHex c ∧ isHex d) :
    Clean (95 :: 120 :: a :: b :: c :: d :: 95 :: r) ↔ ¬Spoilt r ∧ Clean r := by
  rw [clean_cons, clash_token h, clean_ne (by decide), clean_ne (Plain.hex h.1).1,
    clean_ne (Plain.hex h.2.1).1, clean_ne (Plain.hex h.2.2.1).1, clean_ne (Plain.hex h.2.2.2).1,
    clean_cons, spoilt_iff]
  tauto

theorem decode_encode_iff : ∀ (n : ℕ) (value : Text), value.length ≤ n →
    (decode 0 (encode 0 value) = value ↔ Clean value)
  | _, [], _ => iff_of_true rfl clean_nil
  | n + 1, u :: rest, hlen => by
    have hrest := decode_encode_iff n rest (Nat.le_of_succ_le_succ hlen)
    cases ht : isToken (u :: rest) with
    | true =>
      obtain ⟨a, b, c, d, r, heq, hhex⟩ := isToken_iff.1 ht
      obtain ⟨rfl, rfl⟩ := List.cons.inj heq
      have hr := decode_encode_iff n r (by simp only [List.length_cons] at hlen; omega)
      rw [encode_token ht, decode_marker, encode_hexes hhex, encode_underscore,
        decode_digits hhex, clean_token hhex]
      simp only [List.cons.injEq, true_and]
      by_cases hs : Spoilt r
      · exact iff_of_false (decode_spoilt hs) fun h => h.1 hs
      · rw [decode_unspoilt hs, List.cons.injEq, and_iff_right rfl, hr, and_iff_right hs]
    | false =>
      by_cases hu : u = 95
      · subst hu
        rw [encode_single ht, clean_cons]
        have hspoilt : Spoilt rest ↔ Clash (95 :: rest) := by
          rw [spoilt_iff, ht]
          simp
        by_cases hs : Spoilt rest
        · exact iff_of_false (decode_spoilt hs) fun h => h.1 (hspoilt.1 hs)
        · rw [decode_unspoilt hs, List.cons.injEq, and_iff_right rfl, hrest,
            and_iff_right (fun hc => hs (hspoilt.2 hc))]
      · rw [clean_ne hu, ← hrest]
        cases hctl : isControl u with
        | true => rw [encode_control hctl, decode_control hctl, List.cons.injEq, and_iff_right rfl]
        | false =>
          rw [encode_plain ⟨hu, hctl⟩, decode_ne hu, List.cons.injEq, and_iff_right rfl]

/-! ## What is read back -/

/-- An accepted text is read back as it was exactly if it is clean. -/
theorem read_back {value e : Text} (h : xstring value = .ok e) :
    decode 0 (unescape 0 e) = value ↔ Clean value := by
  rw [xstring_ok h, unescape_escape]
  exact decode_encode_iff value.length value (Nat.le_refl _)

/-- A cell of a column of texts: a string, or NULL. -/
def textValue : Option Text → Value
  | none => .none
  | some s => .str s

/-- What is written into such a cell: NULL is `\N`, and a leading backslash of a string is
doubled. -/
def marked : Option Text → Text
  | none => text "\\N"
  | some s => if s.head? = some 92 then 92 :: s else s

theorem marked_injective : ∀ {a b : Option Text}, marked a = marked b → a = b := by
  have hnone : ∀ s : Text, marked (some s) ≠ text "\\N" := by
    intro s h
    simp only [marked] at h
    split_ifs at h with hs
    · obtain rfl := (List.cons.inj h).2
      cases hs
    · exact hs (by rw [h]; rfl)
  rintro (_ | s) (_ | s') h
  · rfl
  · exact absurd h.symm (hnone s')
  · exact absurd h (hnone s)
  · simp only [marked] at h
    split_ifs at h with hs hs' hs'
    · exact congrArg some (List.cons.inj h).2
    · subst h
      exact absurd rfl hs'
    · subst h
      exact absurd rfl hs
    · exact congrArg some h

theorem marked_clean {a : Option Text} (h : ∀ s ∈ a, Clean s) : Clean (marked a) := by
  cases a with
  | none =>
    have hne : ∀ c ∈ text "\\N", c ≠ 95 := by decide
    intro l hl hc
    obtain ⟨r, rfl, -⟩ := hc
    exact hne 95 (hl.subset (.head _)) rfl
  | some s =>
    simp only [marked]
    split_ifs
    · exact (clean_ne (by decide)).2 (h s rfl)
    · exact h s rfl

theorem cell_text {loads : Text → Bool} {reference : Text} {dataType : String}
    (h : isDocumentType dataType = false) (a : Option Text) :
    cell loads reference (textValue a) dataType = textCell reference (marked a) false := by
  cases a with
  | none => rfl
  | some s =>
    have hvalue : valueText loads (.str s) dataType = .ok s := by
      have hplain : ¬(isDocumentType dataType = true ∨ (Value.str s).isDocument = true) := by
        rw [h]
        exact not_or.2 ⟨Bool.false_ne_true, Bool.false_ne_true⟩
      exact if_neg hplain
    have hcell : cell loads reference (.str s) dataType =
        (valueText loads (.str s) dataType >>= fun t =>
          textCell reference (if t.head? = some 92 then 92 :: t else t) false) := rfl
    rw [textValue, hcell, hvalue]
    rfl

theorem textCell_ok {reference value t : Text} (h : textCell reference value false = .ok t) :
    ∃ e, xstring value = .ok e ∧ t = text "<c r=\"" ++ reference ++
      text "\" t=\"inlineStr\"" ++ [] ++ text "><is><t xml:space=\"preserve\">" ++ e ++
        text "</t></is></c>" := by
  unfold textCell at h
  cases he : xstring value with
  | error x =>
    rw [he] at h
    cases h
  | ok e =>
    rw [he] at h
    cases h
    exact ⟨e, rfl, rfl⟩

/-- An accepted text is read back from its cell exactly if it is clean, and cells of clean texts and
of NULL that are written alike are equal. -/
theorem text_lossless (loads : Text → Bool) :
    (∀ value e, xstring value = .ok e → (decode 0 (unescape 0 e) = value ↔ Clean value)) ∧
    ∀ (reference : Text) (dataType : String) (a b : Option Text) (t : Text),
      isDocumentType dataType = false → (∀ s ∈ a, Clean s) → (∀ s ∈ b, Clean s) →
      cell loads reference (textValue a) dataType = .ok t →
      cell loads reference (textValue b) dataType = .ok t → a = b := by
  refine ⟨fun value e h => read_back h, fun reference dataType a b t hd ha hb hat hbt => ?_⟩
  rw [cell_text hd] at hat hbt
  obtain ⟨e, he, rfl⟩ := textCell_ok hat
  obtain ⟨e', he', heq⟩ := textCell_ok hbt
  have hsame : e = e' := List.append_cancel_left (List.append_cancel_right heq)
  subst hsame
  have hreada := (read_back he).2 (marked_clean ha)
  have hreadb := (read_back he').2 (marked_clean hb)
  exact marked_injective (hreada.symm.trans hreadb)

/-- `A1`, and a text in it that looks like an escape. -/
theorem text_lossless_demo :
    decode 0 (unescape 0 (text "a_x005F_x0041_")) = text "a_x0041_" ∧
      some (text "a_x0041_") = some (text "a_x0041_") := by
  have hclean : Clean (text "a_x0041_") :=
    ((text_lossless fun _ => true).1 _ (text "a_x005F_x0041_") (by rfl)).1 (by decide +kernel)
  have hall : ∀ s ∈ some (text "a_x0041_"), Clean s := by
    rintro s ⟨⟩
    exact hclean
  refine ⟨((text_lossless fun _ => true).1 _ _ (by rfl)).2 hclean, ?_⟩
  exact (text_lossless fun _ => true).2 (text "A1") "text" (some (text "a_x0041_"))
    (some (text "a_x0041_")) _ (by decide +kernel) hall hall (by rfl) (by rfl)

/-- Two escapes that share an underscore, and a `_xHHHH` before a carriage return, are read back as
something else; the latter is written like another text. -/
theorem text_lost :
    (¬ ∀ value e, xstring value = .ok e → decode 0 (unescape 0 e) = value) ∧
    ¬ ∀ (a b : Option Text) (t : Text),
      cell (fun _ => true) (text "A1") (textValue a) "text" = .ok t →
      cell (fun _ => true) (text "A1") (textValue b) "text" = .ok t → a = b := by
  constructor
  · intro h
    have hback := h (text "_x0041_x0042_") (text "_x005F_x0041_x0042_") (by rfl)
    exact absurd hback (by decide +kernel)
  · intro h
    have hsame := h (some (text "_x000D_")) (some (text "_x005F" ++ [13])) _ (by rfl) (by rfl)
    exact absurd hsame (by decide +kernel)

end Xlsx
