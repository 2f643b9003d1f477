import EngPlatform.Lib.CodePoints
import Mathlib.Data.List.Basic
import Mathlib.Data.List.Dedup
import Mathlib.Data.Int.Notation

/-!
# JSON texts

Values as they are dumped in ASCII without blanks, and the parser that loads them again. A number
that is no integer is not among the values. What is dumped is loaded as it was, if no string has a
high surrogate right before a low one: these are loaded as the one character that they stand for.
-/

set_option linter.dupNamespace false

namespace JsonText

open CodePoints

inductive Json
  | null
  | bool (b : Bool)
  | int (n : ℤ)
  | str (s : Text)
  | list (items : List Json)
  | dict (members : List (Text × Json))

/-! ## Equality -/

mutual

def same : Json → Json → Bool
  | .null, .null => true
  | .bool b, .bool b' => b == b'
  | .int n, .int n' => n == n'
  | .str s, .str s' => s == s'
  | .list items, .list items' => sameItems items items'
  | .dict members, .dict members' => sameMembers members members'
  | _, _ => false

def sameItems : List Json → List Json → Bool
  | [], [] => true
  | item :: items, item' :: items' => same item item' && sameItems items items'
  | _, _ => false

def sameMembers : List (Text × Json) → List (Text × Json) → Bool
  | [], [] => true
  | (key, value) :: members, (key', value') :: members' =>
    key == key' && same value value' && sameMembers members members'
  | _, _ => false

end

mutual

theorem same_iff : ∀ v v' : Json, same v v' = true ↔ v = v'
  | .null, v' | .bool b, v' | .int n, v' | .str s, v' => by cases v' <;> simp [same]
  | .list items, v' => by
    cases v' <;> simp only [same, Bool.false_eq_true, reduceCtorEq]
    rw [sameItems_iff items, Json.list.injEq]
  | .dict members, v' => by
    cases v' <;> simp only [same, Bool.false_eq_true, reduceCtorEq]
    rw [sameMembers_iff members, Json.dict.injEq]

theorem sameItems_iff : ∀ items items' : List Json, sameItems items items' = true ↔ items = items'
  | [], items' => by cases items' <;> simp [sameItems]
  | item :: items, [] => by simp [sameItems]
  | item :: items, item' :: items' => by
    rw [sameItems, Bool.and_eq_true, same_iff item, sameItems_iff items, List.cons.injEq]

theorem sameMembers_iff : ∀ members members' : List (Text × Json),
    sameMembers members members' = true ↔ members = members'
  | [], members' => by cases members' <;> simp [sameMembers]
  | (key, value) :: members, [] => by simp [sameMembers]
  | (key, value) :: members, (key', value') :: members' => by
    rw [sameMembers, Bool.and_eq_true, Bool.and_eq_true, same_iff value, sameMembers_iff members,
      List.cons.injEq, Prod.mk.injEq, beq_iff_eq]

end

instance decidableEqJson : DecidableEq Json := fun v v' => decidable_of_iff _ (same_iff v v')

/-! ## Dumping -/

/-- A hexadecimal digit, in lower case. -/
def hexLower (d : ℕ) : ℕ := if d < 10 then 48 + d else 87 + d

def hexDigits (c : ℕ) : Text :=
  [hexLower (c / 4096 % 16), hexLower (c / 256 % 16), hexLower (c / 16 % 16), hexLower (c % 16)]

/-- `\uXXXX`. -/
def unicodeEscape (c : ℕ) : Text := 92 :: 117 :: hexDigits c

/-- The characters that are escaped by a letter of their own, and that letter. -/
def letters : List (ℕ × ℕ) :=
  [(34, 34), (92, 92), (10, 110), (13, 114), (9, 116), (12, 102), (8, 98)]

/-- A character in a string, in ASCII. -/
def escape (c : ℕ) : Text :=
  match letters.lookup c with
  | some letter => [92, letter]
  | none =>
    if 32 ≤ c ∧ c ≤ 126 then [c]
    else if c < 0x10000 then unicodeEscape c
    else unicodeEscape (0xD800 + (c - 0x10000) / 1024) ++ unicodeEscape (0xDC00 + (c - 0x10000) % 1024)

def dumpsText (s : Text) : Text := 34 :: (s.flatMap escape ++ [34])

def dumpsInt : ℤ → Text
  | .ofNat n => text (toString n)
  | .negSucc n => 45 :: text (toString (n + 1))

mutual

/-- `json.dumps(value, separators=(",", ":"))`. -/
def dumps : Json → Text
  | .null => text "null"
  | .bool true => text "true"
  | .bool false => text "false"
  | .int n => dumpsInt n
  | .str s => dumpsText s
  | .list [] => text "[]"
  | .list (item :: items) => 91 :: (dumps item ++ dumpsItems items)
  | .dict [] => text "{}"
  | .dict ((key, value) :: members) =>
    123 :: (dumpsText key ++ 58 :: (dumps value ++ dumpsMembers members))

/-- The items after the first, and the bracket. -/
def dumpsItems : List Json → Text
  | [] => [93]
  | item :: items => 44 :: (dumps item ++ dumpsItems items)

/-- The members after the first, and the brace. -/
def dumpsMembers : List (Text × Json) → Text
  | [] => [125]
  | (key, value) :: members =>
    44 :: (dumpsText key ++ 58 :: (dumps value ++ dumpsMembers members))

end

/-! ## Loading -/

/-- The text after the character `c`. -/
def after (c : ℕ) (t : Text) : Option Text := if t.head? = some c then some t.tail else none

def hexValue (c : ℕ) : Option ℕ :=
  if 48 ≤ c ∧ c ≤ 57 then some (c - 48)
  else if 97 ≤ c ∧ c ≤ 102 then some (c - 87)
  else if 65 ≤ c ∧ c ≤ 70 then some (c - 55)
  else none

/-- The four digits after `\u`. -/
def unit : Text → Option (ℕ × Text)
  | a :: b :: c :: d :: t => do
    let a ← hexValue a
    let b ← hexValue b
    let c ← hexValue c
    let d ← hexValue d
    some (((a * 16 + b) * 16 + c) * 16 + d, t)
  | _ => none

def high (u : ℕ) : Bool := 0xD800 ≤ u && u ≤ 0xDBFF

def low (u : ℕ) : Bool := 0xDC00 ≤ u && u ≤ 0xDFFF

/-- A unit, with the one after it if they are a pair. -/
def pair (u : ℕ) (t : Text) : Option (ℕ × Text) :=
  match (after 92 t).bind (after 117) with
  | some next =>
    if high u then
      (unit next).map fun v =>
        if low v.1 then (0x10000 + (u - 0xD800) * 1024 + (v.1 - 0xDC00), v.2) else (u, t)
    else some (u, t)
  | none => some (u, t)

/-- The character that a letter stands for after a backslash. -/
def unescaped (letter : ℕ) : Option ℕ :=
  [(34, 34), (92, 92), (47, 47), (110, 10), (114, 13), (116, 9), (102, 12), (98, 8)].lookup letter

/-- The character after a backslash. -/
def scanEscape : Text → Option (ℕ × Text)
  | [] => none
  | c :: t => if c = 117 then (unit t).bind fun u => pair u.1 u.2 else (unescaped c).map (·, t)

/-- A string after its opening quote, of so many characters at most. -/
def scanString : ℕ → Text → Option (Text × Text)
  | n + 1, c :: t =>
    if c = 34 then some ([], t)
    else if c = 92 then
      (scanEscape t).bind fun c => (scanString n c.2).map fun s => (c.1 :: s.1, s.2)
    else if c < 32 then none
    else (scanString n t).map fun s => (c :: s.1, s.2)
  | _, _ => none

def blank (c : ℕ) : Bool := c = 32 || c = 9 || c = 10 || c = 13

def skip (t : Text) : Text := t.dropWhile blank

def digit (c : ℕ) : Bool := 48 ≤ c && c ≤ 57

/-- The most digits that are read as an integer. -/
def maxDigits : ℕ := 4300

/-- Whether a number goes on with a fraction or an exponent. -/
def fractional (t : Text) : Bool :=
  if t.head? = some 46 then (t.tail.head?.map digit).getD false
  else if t.head? = some 69 ∨ t.head? = some 101 then
    let exponent := if t.tail.head? = some 43 ∨ t.tail.head? = some 45 then t.tail.tail else t.tail
    (exponent.head?.map digit).getD false
  else false

/-- The digits of an integer, after its sign. -/
def parseDigits (t : Text) : Option (ℕ × Text) :=
  let digits := if t.head? = some 48 then [48] else t.takeWhile digit
  let rest := t.drop digits.length
  if digits = [] ∨ maxDigits < digits.length ∨ fractional rest = true then none
  else some (digits.foldl (fun n c => 10 * n + (c - 48)) 0, rest)

def parseNumber (t : Text) : Option (Json × Text) :=
  match after 45 t with
  | some t => (parseDigits t).map fun n => (.int (-n.1), n.2)
  | none => (parseDigits t).map fun n => (.int n.1, n.2)

/-- The words that are values. -/
def words : List (Text × Json) :=
  [(text "null", .null), (text "true", .bool true), (text "false", .bool false)]

def parseWord (t : Text) : Option (Json × Text) :=
  (words.find? fun w => w.1.isPrefixOf t).map fun w => (w.2, t.drop w.1.length)

/-- A dict with one more member; the last value of a key counts. -/
def put (dict : List (Text × Json)) (m : Text × Json) : List (Text × Json) :=
  if dict.any (·.1 = m.1) then dict.map fun m' => if m'.1 = m.1 then m else m' else dict ++ [m]

def ofMembers (members : List (Text × Json)) : List (Text × Json) := members.foldl put []

mutual

/-- A value, nested so many times at most. -/
def parseValue : ℕ → Text → Option (Json × Text)
  | 0, _ => none
  | n + 1, t =>
    if t.head? = some 34 then (scanString t.length t.tail).map fun s => (.str s.1, s.2)
    else if t.head? = some 91 then
      match after 93 (skip t.tail) with
      | some t => some (.list [], t)
      | none => (parseItems n (skip t.tail)).map fun items => (.list items.1, items.2)
    else if t.head? = some 123 then
      match after 125 (skip t.tail) with
      | some t => some (.dict [], t)
      | none =>
        (parseMembers n (skip t.tail)).map fun members => (.dict (ofMembers members.1), members.2)
    else (parseWord t).or (parseNumber t)

def parseItems : ℕ → Text → Option (List Json × Text)
  | 0, _ => none
  | n + 1, t =>
    (parseValue n t).bind fun item =>
      match after 44 (skip item.2) with
      | some t => (parseItems n (skip t)).map fun items => (item.1 :: items.1, items.2)
      | none => (after 93 (skip item.2)).map fun t => ([item.1], t)

def parseMembers : ℕ → Text → Option (List (Text × Json) × Text)
  | 0, _ => none
  | n + 1, t =>
    (after 34 t).bind fun t' => (scanString t.length t').bind fun key =>
      (after 58 (skip key.2)).bind fun t => (parseValue n (skip t)).bind fun value =>
        match after 44 (skip value.2) with
        | some t =>
          (parseMembers n (skip t)).map fun members => ((key.1, value.1) :: members.1, members.2)
        | none => (after 125 (skip value.2)).map fun t => ([(key.1, value.1)], t)

end

/-- `json.loads`. -/
def loads (t : Text) : Option Json :=
  (parseValue (t.length + 1) (skip t)).bind fun v => if skip v.2 = [] then some v.1 else none

/-! ## Strings -/

variable {c d n : ℕ} {s t rest : Text}

theorem hexValue_hexLower (h : d < 16) : hexValue (hexLower d) = some d := by
  unfold hexLower
  split
  · rw [hexValue, if_pos (by omega)]
    congr 1
    omega
  · rw [hexValue, if_neg (by omega), if_pos (by omega)]
    congr 1
    omega

theorem unit_hexDigits (h : c < 0x10000) : unit (hexDigits c ++ t) = some (c, t) := by
  have hmod : ∀ k, k % 16 < 16 := fun k => Nat.mod_lt k (by omega)
  have hsum : ((c / 4096 % 16 * 16 + c / 256 % 16) * 16 + c / 16 % 16) * 16 + c % 16 = c := by omega
  simp only [hexDigits, List.cons_append, List.nil_append, unit, hexValue_hexLower (hmod _),
    Option.bind_eq_bind, Option.bind_some, hsum]

/-- What follows is not the second of a pair. -/
def Alone (t : Text) : Prop :=
  (after 92 t).bind (after 117) = none ∨
    ∃ next v, (after 92 t).bind (after 117) = some next ∧ unit next = some v ∧ low v.1 = false

theorem pair_alone (h : high c = true → Alone t) : pair c t = some (c, t) := by
  unfold pair
  by_cases hc : high c = true
  · rcases h hc with hnone | ⟨next, v, hnext, hunit, hlow⟩
    · rw [hnone]
    · simp [hnext, hc, hunit, hlow]
  · cases hnext : (after 92 t).bind (after 117) with
    | none => rfl
    | some next => simp [hc]

theorem pair_pair (hc : 0x10000 ≤ c) (hc' : c < 0x110000) :
    pair (0xD800 + (c - 0x10000) / 1024) (unicodeEscape (0xDC00 + (c - 0x10000) % 1024) ++ t)
      = some (c, t) := by
  have hnext : (after 92 (unicodeEscape (0xDC00 + (c - 0x10000) % 1024) ++ t)).bind (after 117)
      = some (hexDigits (0xDC00 + (c - 0x10000) % 1024) ++ t) := rfl
  have hhigh : high (0xD800 + (c - 0x10000) / 1024) = true := by
    unfold high
    rw [Bool.and_eq_true, decide_eq_true_eq, decide_eq_true_eq]
    omega
  have hlow : low (0xDC00 + (c - 0x10000) % 1024) = true := by
    unfold low
    rw [Bool.and_eq_true, decide_eq_true_eq, decide_eq_true_eq]
    omega
  unfold pair
  rw [hnext]
  dsimp only
  have hsum : 0x10000 + (0xD800 + (c - 0x10000) / 1024 - 0xD800) * 1024
      + (0xDC00 + (c - 0x10000) % 1024 - 0xDC00) = c := by omega
  rw [if_pos hhigh, unit_hexDigits (by omega), Option.map_some, if_pos hlow, hsum]

theorem escape_cases (c : ℕ) :
    (∃ letter, letters.lookup c = some letter ∧ escape c = [92, letter]) ∨
    (c ≠ 34 ∧ c ≠ 92 ∧ 32 ≤ c ∧ c ≤ 126 ∧ escape c = [c]) ∨
    (c < 0x10000 ∧ escape c = unicodeEscape c) ∨
    (0x10000 ≤ c ∧ escape c = unicodeEscape (0xD800 + (c - 0x10000) / 1024)
      ++ unicodeEscape (0xDC00 + (c - 0x10000) % 1024)) := by
  unfold escape
  cases hl : letters.lookup c with
  | some letter => exact .inl ⟨letter, rfl, rfl⟩
  | none =>
    dsimp only
    by_cases hc : 32 ≤ c ∧ c ≤ 126
    · refine .inr (.inl ⟨?_, ?_, hc.1, hc.2, if_pos hc⟩)
      · rintro rfl
        cases hl
      · rintro rfl
        cases hl
    · rw [if_neg hc]
      by_cases hc' : c < 0x10000
      · exact .inr (.inr (.inl ⟨hc', if_pos hc'⟩))
      · exact .inr (.inr (.inr ⟨by omega, if_neg hc'⟩))

theorem letter_cases {letter : ℕ} (h : letters.lookup c = some letter) :
    letter ≠ 117 ∧ unescaped letter = some c := by
  obtain ⟨l, l', hl, -⟩ := List.lookup_eq_some_iff.1 h
  have hm : (c, letter) ∈ letters := by
    rw [hl]
    exact List.mem_append_right _ List.mem_cons_self
  have hall : ∀ p ∈ letters, p.2 ≠ 117 ∧ unescaped p.2 = some p.1 := by decide
  exact hall _ hm

theorem escape_ne_nil (c : ℕ) : 0 < (escape c).length := by
  obtain ⟨letter, -, h⟩ | ⟨-, -, -, -, h⟩ | ⟨-, h⟩ | ⟨-, h⟩ := escape_cases c <;> rw [h] <;>
    exact Nat.succ_pos _

/-- An escaped character is read back. -/
theorem scanString_escape (hc : c < 0x110000) (h : high c = true → Alone t) :
    scanString (n + 1) (escape c ++ t) = (scanString n t).map fun s => (c :: s.1, s.2) := by
  obtain ⟨letter, hl, heq⟩ | ⟨hquote, hslash, hlow, -, heq⟩ | ⟨hsmall, heq⟩ | ⟨hbig, heq⟩ :=
    escape_cases c
  · obtain ⟨hne, hletter⟩ := letter_cases hl
    have hscan : scanEscape (letter :: t) = some (c, t) := by
      rw [scanEscape, if_neg hne, hletter]
      rfl
    rw [heq, List.cons_append, List.cons_append, List.nil_append, scanString, if_neg (by omega),
      if_pos rfl, hscan, Option.bind_some]
  · rw [heq, List.cons_append, List.nil_append, scanString, if_neg hquote, if_neg hslash,
      if_neg (by omega)]
  · have hscan : scanEscape (117 :: (hexDigits c ++ t)) = some (c, t) := by
      rw [scanEscape, if_pos rfl, unit_hexDigits hsmall, Option.bind_some, pair_alone h]
    rw [heq, unicodeEscape, List.cons_append, List.cons_append, scanString, if_neg (by omega),
      if_pos rfl, hscan, Option.bind_some]
  · have hscan : scanEscape (117 :: (hexDigits (0xD800 + (c - 0x10000) / 1024)
        ++ (unicodeEscape (0xDC00 + (c - 0x10000) % 1024) ++ t))) = some (c, t) := by
      rw [scanEscape, if_pos rfl, unit_hexDigits (by omega), Option.bind_some, pair_pair hbig hc]
    rw [heq, List.append_assoc, unicodeEscape, List.cons_append, List.cons_append, scanString,
      if_neg (by omega), if_pos rfl, hscan, Option.bind_some]

/-- No high surrogate stands right before a low one. -/
def Plain : Text → Prop
  | [] => True
  | c :: s => c < 0x110000 ∧ (high c = true → ∀ d ∈ s.head?, low d = false) ∧ Plain s

/-- A text of small code points is loaded again. -/
theorem plain_of_ascii : ∀ {s : Text}, (∀ c ∈ s, c < 128) → Plain s
  | [], _ => trivial
  | c :: s, h => by
    have hc : c < 128 := h c List.mem_cons_self
    refine ⟨by omega, fun hhigh => ?_, plain_of_ascii fun d hd => h d (List.mem_cons_of_mem _ hd)⟩
    unfold high at hhigh
    rw [Bool.and_eq_true, decide_eq_true_eq] at hhigh
    omega

theorem alone_quote : Alone (34 :: t) := .inl rfl

theorem alone_escape (hc : c < 0x110000) (h : low c = false) : Alone (escape c ++ t) := by
  obtain ⟨letter, hl, heq⟩ | ⟨-, hslash, -, -, heq⟩ | ⟨hsmall, heq⟩ | ⟨hbig, heq⟩ := escape_cases c
  · obtain ⟨hne, -⟩ := letter_cases hl
    rw [heq]
    exact .inl (if_neg fun h => hne (Option.some.inj h))
  · rw [heq]
    refine .inl ?_
    rw [show after 92 ([c] ++ t) = none from if_neg fun h => hslash (Option.some.inj h)]
    rfl
  · rw [heq]
    exact .inr ⟨_, _, rfl, unit_hexDigits hsmall, h⟩
  · rw [heq, List.append_assoc]
    refine .inr ⟨_, _, rfl, unit_hexDigits (by omega), ?_⟩
    unfold low
    rw [Bool.and_eq_false_iff, decide_eq_false_iff_not, decide_eq_false_iff_not]
    omega

theorem scanString_escapes : ∀ {s : Text} {n : ℕ}, Plain s → s.length < n →
    scanString n (s.flatMap escape ++ 34 :: rest) = some (s, rest)
  | [], n + 1, _, _ => by
    rw [List.flatMap_nil, List.nil_append, scanString, if_pos rfl]
  | c :: s, n + 1, ⟨hc, hpair, hs⟩, hn => by
    have halone : high c = true → Alone (s.flatMap escape ++ 34 :: rest) := by
      intro hhigh
      cases s with
      | nil => exact alone_quote
      | cons d s =>
        rw [List.flatMap_cons, List.append_assoc]
        exact alone_escape hs.1 (hpair hhigh d rfl)
    rw [List.flatMap_cons, List.append_assoc, scanString_escape hc halone,
      scanString_escapes hs (Nat.lt_of_succ_lt_succ hn), Option.map_some]

theorem length_escapes (s : Text) : s.length ≤ (s.flatMap escape).length := by
  induction s with
  | nil => exact Nat.le_refl 0
  | cons c s ih =>
    have := escape_ne_nil c
    rw [List.flatMap_cons, List.length_append, List.length_cons]
    omega

theorem scanString_dumpsText (h : Plain s) (hn : (dumpsText s ++ rest).length ≤ n) :
    scanString n ((dumpsText s ++ rest).tail) = some (s, rest) := by
  have hlen := length_escapes s
  have htail : (dumpsText s ++ rest).tail = s.flatMap escape ++ 34 :: rest := by
    simp only [dumpsText, List.cons_append, List.tail_cons, List.append_assoc, List.nil_append]
  rw [htail, scanString_escapes h]
  simp only [dumpsText, List.cons_append, List.length_cons, List.length_append] at hn
  omega

/-! ## Numbers -/

/-- What may follow a number. -/
def Ends (rest : Text) : Prop :=
  ∀ c ∈ rest.head?, digit c = false ∧ c ≠ 46 ∧ c ≠ 69 ∧ c ≠ 101

theorem digit_of_repr (h : c ∈ text (toString n)) : digit c = true := by
  obtain ⟨h₁, h₂⟩ := digits_of_repr h
  unfold digit
  rw [Bool.and_eq_true, decide_eq_true_eq, decide_eq_true_eq]
  exact ⟨h₁, h₂⟩

theorem text_repr (n : ℕ) : text (toString n) = (Nat.toDigits 10 n).map Char.toNat := by
  unfold text
  rw [show toString n = n.repr from rfl, Nat.toList_repr]

theorem head_toDigits : ∀ {n : ℕ}, 0 < n → (Nat.toDigits 10 n).head? ≠ some '0' := by
  intro n
  induction n using Nat.strongRecOn with
  | ind n ih =>
    intro hn
    rw [Nat.toDigits_eq_if (by decide)]
    split
    · rename_i hlt
      have hall : ∀ d < 10, 0 < d → [Nat.digitChar d].head? ≠ some '0' := by decide
      exact hall n hlt hn
    · have hne : Nat.toDigits 10 (n / 10) ≠ [] := Nat.toDigits_ne_nil
      rw [List.head?_append_of_ne_nil _ hne]
      exact ih _ (by omega) (by omega)

theorem head_repr (hn : 0 < n) : (text (toString n) ++ rest).head? ≠ some 48 := by
  have hne : text (toString n) ≠ [] := by
    rw [text_repr]
    exact fun h => Nat.toDigits_ne_nil (List.map_eq_nil_iff.1 h)
  rw [List.head?_append_of_ne_nil _ hne, text_repr, List.head?_map]
  intro h
  obtain ⟨c, hc, hcode⟩ := Option.map_eq_some_iff.1 h
  refine head_toDigits hn (hc.trans (congrArg some (Char.toNat_inj.1 ?_)))
  exact hcode

theorem foldl_repr (n : ℕ) : (text (toString n)).foldl (fun n c => 10 * n + (c - 48)) 0 = n := by
  rw [text_repr, List.foldl_map]
  exact Nat.ofDigitChars_eq_foldl.symm.trans Nat.ofDigitChars_ten_toDigits

theorem fractional_ends (h : Ends rest) : fractional rest = false := by
  cases rest with
  | nil => rfl
  | cons c rest =>
    obtain ⟨-, h₁, h₂, h₃⟩ := h c rfl
    unfold fractional
    rw [List.head?_cons, if_neg fun h => h₁ (Option.some.inj h), if_neg]
    exact fun h => h.elim (fun h => h₂ (Option.some.inj h)) fun h => h₃ (Option.some.inj h)

theorem takeWhile_ends (h : Ends rest) :
    (text (toString n) ++ rest).takeWhile digit = text (toString n) := by
  have hrest : rest.takeWhile digit = [] := by
    cases rest with
    | nil => rfl
    | cons c rest => rw [List.takeWhile_cons, (h c rfl).1, if_neg (by decide)]
  rw [List.takeWhile_append_of_pos fun c hc => digit_of_repr hc, hrest, List.append_nil]

theorem parseDigits_repr (h : Ends rest) (hn : (text (toString n)).length ≤ maxDigits) :
    parseDigits (text (toString n) ++ rest) = some (n, rest) := by
  have hne : text (toString n) ≠ [] := by
    rw [text_repr]
    exact fun h => Nat.toDigits_ne_nil (List.map_eq_nil_iff.1 h)
  have hdigits : (if (text (toString n) ++ rest).head? = some 48 then [48]
      else (text (toString n) ++ rest).takeWhile digit) = text (toString n) := by
    by_cases hz : n = 0
    · subst hz
      rfl
    · rw [if_neg (head_repr (Nat.pos_of_ne_zero hz)), takeWhile_ends h]
  unfold parseDigits
  dsimp only
  rw [hdigits, List.drop_left, fractional_ends h, if_neg, foldl_repr]
  rintro (h | h | h)
  · exact hne h
  · omega
  · cases h

/-- An integer with no more digits than are read. -/
def Short (n : ℤ) : Prop := (text (toString n.natAbs)).length ≤ maxDigits

instance decidableShort (n : ℤ) : Decidable (Short n) := Nat.decLe _ _

theorem repr_head (n : ℕ) (rest : Text) : ∃ c ∈ (text (toString n) ++ rest).head?, digit c = true := by
  cases hl : text (toString n) with
  | nil =>
    rw [text_repr] at hl
    exact absurd (List.map_eq_nil_iff.1 hl) Nat.toDigits_ne_nil
  | cons c l => exact ⟨c, rfl, digit_of_repr (hl ▸ List.mem_cons_self)⟩

theorem dumpsInt_cases (n : ℤ) :
    (∃ k : ℕ, n = k ∧ dumpsInt n = text (toString k)) ∨
    ∃ k : ℕ, n = -k ∧ dumpsInt n = 45 :: text (toString k) := by
  cases n with
  | ofNat k => exact .inl ⟨k, rfl, rfl⟩
  | negSucc k => exact .inr ⟨k + 1, rfl, rfl⟩

theorem parseNumber_dumpsInt {n : ℤ} (h : Ends rest) (hn : Short n) :
    parseNumber (dumpsInt n ++ rest) = some (.int n, rest) := by
  obtain ⟨k, rfl, heq⟩ | ⟨k, rfl, heq⟩ := dumpsInt_cases n
  · obtain ⟨c, hc, hdigit⟩ := repr_head k rest
    have hsign : after 45 (text (toString k) ++ rest) = none := by
      refine if_neg fun h => ?_
      rw [Option.mem_def.1 hc] at h
      cases Option.some.inj h
      cases hdigit
    rw [heq, parseNumber, hsign]
    dsimp only
    rw [parseDigits_repr h (by simpa [Short] using hn), Option.map_some]
  · have hsign : after 45 (45 :: text (toString k) ++ rest) = some (text (toString k) ++ rest) := rfl
    rw [heq, parseNumber, hsign]
    dsimp only
    rw [parseDigits_repr h (by simpa [Short] using hn), Option.map_some]

theorem dumpsInt_head (n : ℤ) (rest : Text) :
    ∃ c ∈ (dumpsInt n ++ rest).head?, digit c = true ∨ c = 45 := by
  obtain ⟨k, rfl, heq⟩ | ⟨k, rfl, heq⟩ := dumpsInt_cases n
  · obtain ⟨c, hc, hdigit⟩ := repr_head k rest
    rw [heq]
    exact ⟨c, hc, .inl hdigit⟩
  · rw [heq]
    exact ⟨45, rfl, .inr rfl⟩

theorem parseWord_none (h : ∃ c ∈ t.head?, digit c = true ∨ c = 45) : parseWord t = none := by
  obtain ⟨c, hc, hdigit⟩ := h
  cases t with
  | nil => cases hc
  | cons c' t =>
    cases hc
    have hne : c ≠ 110 ∧ c ≠ 116 ∧ c ≠ 102 := by
      rcases hdigit with hdigit | rfl
      · unfold digit at hdigit
        rw [Bool.and_eq_true, decide_eq_true_eq, decide_eq_true_eq] at hdigit
        omega
      · decide
    have hnull : (text "null").isPrefixOf (c :: t) = false := by
      rw [show text "null" = [110, 117, 108, 108] from by decide, List.isPrefixOf]
      simp [hne.1.symm]
    have htrue : (text "true").isPrefixOf (c :: t) = false := by
      rw [show text "true" = [116, 114, 117, 101] from by decide, List.isPrefixOf]
      simp [hne.2.1.symm]
    have hfalse : (text "false").isPrefixOf (c :: t) = false := by
      rw [show text "false" = [102, 97, 108, 115, 101] from by decide, List.isPrefixOf]
      simp [hne.2.2.symm]
    simp [parseWord, words, List.find?, hnull, htrue, hfalse]

/-! ## Values -/

mutual

/-- What is loaded again as it was dumped. -/
def Loadable : Json → Prop
  | .int n => Short n
  | .str s => Plain s
  | .list items => LoadableItems items
  | .dict members => (members.map Prod.fst).Nodup ∧ LoadableMembers members
  | _ => True

def LoadableItems : List Json → Prop
  | [] => True
  | item :: items => Loadable item ∧ LoadableItems items

def LoadableMembers : List (Text × Json) → Prop
  | [] => True
  | (key, value) :: members => Plain key ∧ Loadable value ∧ LoadableMembers members

end

/-- The text starts with neither a blank nor a bracket that closes a list. -/
def Opens (t : Text) : Prop := ∃ c ∈ t.head?, blank c = false ∧ c ≠ 93

theorem Opens.skip (h : Opens t) : skip t = t := by
  obtain ⟨c, hc, hblank, -⟩ := h
  cases t with
  | nil => rfl
  | cons c' t =>
    cases hc
    unfold JsonText.skip
    rw [List.dropWhile_cons, hblank, if_neg (by decide)]

theorem Opens.not_after (h : Opens t) : after 93 t = none := by
  obtain ⟨c, hc, -, hne⟩ := h
  refine if_neg fun heq => hne ?_
  rw [Option.mem_def.1 hc] at heq
  exact Option.some.inj heq

theorem opens_dumps (v : Json) (rest : Text) : Opens (dumps v ++ rest) := by
  cases v with
  | null => exact ⟨110, rfl, by decide, by decide⟩
  | bool b => cases b <;> exact ⟨_, rfl, by decide, by decide⟩
  | int n =>
    obtain ⟨c, hc, hdigit⟩ := dumpsInt_head n rest
    refine ⟨c, hc, ?_⟩
    rcases hdigit with hdigit | rfl
    · unfold digit at hdigit
      unfold blank
      simp only [Bool.and_eq_true, decide_eq_true_eq] at hdigit
      simp only [Bool.or_eq_false_iff, decide_eq_false_iff_not]
      omega
    · decide
  | str s => exact ⟨34, rfl, by decide, by decide⟩
  | list items => cases items <;> exact ⟨91, rfl, by decide, by decide⟩
  | dict members => cases members <;> exact ⟨123, rfl, by decide, by decide⟩

theorem put_new {dict : List (Text × Json)} {m : Text × Json} (h : m.1 ∉ dict.map Prod.fst) :
    put dict m = dict ++ [m] := by
  refine if_neg fun hany => h ?_
  obtain ⟨m', hm', heq⟩ := List.any_eq_true.1 hany
  exact List.mem_map.2 ⟨m', hm', of_decide_eq_true heq⟩

theorem foldl_put : ∀ {members dict : List (Text × Json)},
    ((dict ++ members).map Prod.fst).Nodup → members.foldl put dict = dict ++ members
  | [], dict, _ => (List.append_nil dict).symm
  | m :: members, dict, h => by
    have hnew : m.1 ∉ dict.map Prod.fst := by
      rw [List.map_append, List.nodup_append] at h
      exact fun hm => h.2.2 _ hm _ List.mem_cons_self rfl
    rw [List.foldl_cons, put_new hnew, foldl_put (by simpa using h), List.append_assoc]
    rfl

theorem ends_items (items : List Json) (rest : Text) : Ends (dumpsItems items ++ rest) := by
  intro c hc
  cases items <;> cases hc <;> decide

theorem ends_members (members : List (Text × Json)) (rest : Text) :
    Ends (dumpsMembers members ++ rest) := by
  intro c hc
  cases members <;> cases hc <;> decide

mutual

theorem parseValue_dumps : ∀ (v : Json) {n : ℕ} {rest : Text}, Loadable v → Ends rest →
    (dumps v).length < n → parseValue n (dumps v ++ rest) = some (v, rest)
  | .null, n + 1, rest, _, _, _ => rfl
  | .bool true, n + 1, rest, _, _, _ => rfl
  | .bool false, n + 1, rest, _, _, _ => rfl
  | .int k, n + 1, rest, hv, hrest, _ => by
    obtain ⟨c, hc, hdigit⟩ := dumpsInt_head k rest
    have hne : c ≠ 34 ∧ c ≠ 91 ∧ c ≠ 123 := by
      rcases hdigit with hdigit | rfl
      · unfold digit at hdigit
        rw [Bool.and_eq_true, decide_eq_true_eq, decide_eq_true_eq] at hdigit
        omega
      · decide
    rw [dumps, parseValue, Option.mem_def.1 hc, if_neg fun h => hne.1 (Option.some.inj h),
      if_neg fun h => hne.2.1 (Option.some.inj h), if_neg fun h => hne.2.2 (Option.some.inj h),
      parseWord_none ⟨c, hc, hdigit⟩, Option.none_or, parseNumber_dumpsInt hrest hv]
  | .str s, n + 1, rest, hv, _, _ => by
    have hscan := @scanString_dumpsText _ s rest hv (Nat.le_refl _)
    have hhead : (dumpsText s ++ rest).head? = some 34 := rfl
    rw [dumps, parseValue, hhead, if_pos rfl, hscan, Option.map_some]
  | .list [], n + 1, rest, _, _, _ => rfl
  | .list (item :: items), n + 1, rest, hv, _, hn => by
    have hlen : (dumpsItems (item :: items)).length ≤ n := by
      simp only [dumps, dumpsItems, List.length_cons, List.length_append] at hn ⊢
      omega
    have ih := @parseItems_dumps (item :: items) n rest (List.cons_ne_nil _ _) hv hlen
    have htail : (dumps (.list (item :: items)) ++ rest).tail
        = (dumpsItems (item :: items)).tail ++ rest := rfl
    have hopens : Opens ((dumpsItems (item :: items)).tail ++ rest) := by
      rw [dumpsItems, List.tail_cons, List.append_assoc]
      exact opens_dumps item _
    have hhead : (dumps (.list (item :: items)) ++ rest).head? = some 91 := rfl
    rw [parseValue, hhead, if_neg (by decide), if_pos rfl, htail, hopens.skip, hopens.not_after]
    dsimp only
    rw [ih, Option.map_some]
  | .dict [], n + 1, rest, _, _, _ => rfl
  | .dict ((key, value) :: members), n + 1, rest, hv, _, hn => by
    have hlen : (dumpsMembers ((key, value) :: members)).length ≤ n := by
      simp only [dumps, dumpsMembers, List.length_cons, List.length_append] at hn ⊢
      omega
    have ih := @parseMembers_dumps ((key, value) :: members) n rest (List.cons_ne_nil _ _)
      hv.2 hlen
    have htail : skip (dumps (.dict ((key, value) :: members)) ++ rest).tail
        = (dumpsMembers ((key, value) :: members)).tail ++ rest := rfl
    have hafter : after 125 ((dumpsMembers ((key, value) :: members)).tail ++ rest) = none := rfl
    have hhead : (dumps (.dict ((key, value) :: members)) ++ rest).head? = some 123 := rfl
    rw [parseValue, hhead, if_neg (by decide), if_neg (by decide), if_pos rfl, htail, hafter]
    dsimp only
    rw [ih, Option.map_some, ofMembers, foldl_put hv.1, List.nil_append]

theorem parseItems_dumps : ∀ (items : List Json) {n : ℕ} {rest : Text}, items ≠ [] →
    LoadableItems items → (dumpsItems items).length ≤ n →
    parseItems n ((dumpsItems items).tail ++ rest) = some (items, rest)
  | item :: items, n + 1, rest, _, hv, hn => by
    have htail : (dumpsItems (item :: items)).tail ++ rest
        = dumps item ++ (dumpsItems items ++ rest) := List.append_assoc _ _ _
    have hpos : 0 < (dumpsItems items).length := by cases items <;> exact Nat.succ_pos _
    rw [dumpsItems, List.length_cons, List.length_append] at hn
    rw [htail, parseItems, parseValue_dumps item hv.1 (ends_items items rest) (by omega),
      Option.bind_some]
    cases items with
    | nil => rfl
    | cons item' items =>
      have ih := @parseItems_dumps (item' :: items) n rest (List.cons_ne_nil _ _) hv.2
        (by omega)
      have hafter : after 44 (skip (dumpsItems (item' :: items) ++ rest))
          = some ((dumpsItems (item' :: items)).tail ++ rest) := rfl
      have hopens : Opens ((dumpsItems (item' :: items)).tail ++ rest) := by
        rw [dumpsItems, List.tail_cons, List.append_assoc]
        exact opens_dumps item' _
      dsimp only
      rw [hafter]
      dsimp only
      rw [hopens.skip, ih, Option.map_some]

theorem parseMembers_dumps : ∀ (members : List (Text × Json)) {n : ℕ} {rest : Text},
    members ≠ [] → LoadableMembers members → (dumpsMembers members).length ≤ n →
    parseMembers n ((dumpsMembers members).tail ++ rest) = some (members, rest)
  | (key, value) :: members, n + 1, rest, _, hv, hn => by
    have htail : (dumpsMembers ((key, value) :: members)).tail ++ rest
        = dumpsText key ++ 58 :: (dumps value ++ (dumpsMembers members ++ rest)) := by
      simp only [dumpsMembers, List.tail_cons, List.append_assoc, List.cons_append]
    have hpos : 0 < (dumpsMembers members).length := by cases members <;> exact Nat.succ_pos _
    have hquote : after 34 (dumpsText key ++ 58 :: (dumps value ++ (dumpsMembers members ++ rest)))
        = some (dumpsText key ++ 58 :: (dumps value ++ (dumpsMembers members ++ rest))).tail := rfl
    have hcolon : after 58 (skip (58 :: (dumps value ++ (dumpsMembers members ++ rest))))
        = some (dumps value ++ (dumpsMembers members ++ rest)) := rfl
    simp only [dumpsMembers, List.length_cons, List.length_append] at hn
    rw [htail, parseMembers, hquote, Option.bind_some,
      scanString_dumpsText hv.1 (Nat.le_refl _), Option.bind_some, hcolon, Option.bind_some,
      (opens_dumps value _).skip,
      parseValue_dumps value hv.2.1 (ends_members members rest) (by omega), Option.bind_some]
    cases members with
    | nil => rfl
    | cons member members =>
      have ih := @parseMembers_dumps (member :: members) n rest (List.cons_ne_nil _ _)
        hv.2.2 (by omega)
      have hafter : after 44 (skip (dumpsMembers (member :: members) ++ rest))
          = some ((dumpsMembers (member :: members)).tail ++ rest) := rfl
      have hskip : skip ((dumpsMembers (member :: members)).tail ++ rest)
          = (dumpsMembers (member :: members)).tail ++ rest := rfl
      dsimp only
      rw [hafter]
      dsimp only
      rw [hskip, ih, Option.map_some]

end

theorem short_of_lt {n : ℕ} (h : n < 10 ^ maxDigits) : Short n := by
  unfold Short
  rw [Int.natAbs_natCast, text_repr, List.length_map]
  exact (Nat.length_toDigits_le_iff (by decide) (by decide)).2 h

/-! ## ASCII -/

/-- A printable character. -/
def printable (c : ℕ) : Bool := 32 ≤ c && c ≤ 126

theorem printable_hexLower (h : d < 16) : printable (hexLower d) = true := by
  have hall : ∀ d < 16, printable (hexLower d) = true := by decide
  exact hall d h

theorem printable_unicodeEscape (c : ℕ) : (unicodeEscape c).all printable = true := by
  have hmod : ∀ k, printable (hexLower (k % 16)) = true := fun k =>
    printable_hexLower (Nat.mod_lt k (by omega))
  simp only [unicodeEscape, hexDigits, List.all_cons, hmod, List.all_nil]
  decide

theorem printable_escape (c : ℕ) : (escape c).all printable = true := by
  obtain ⟨letter, hl, heq⟩ | ⟨-, -, hlow, hhigh, heq⟩ | ⟨-, heq⟩ | ⟨-, heq⟩ := escape_cases c
  · have hm : ∀ p ∈ letters, [92, p.2].all printable = true := by decide
    obtain ⟨l, l', hl', -⟩ := List.lookup_eq_some_iff.1 hl
    rw [heq]
    exact hm (c, letter) (by rw [hl']; exact List.mem_append_right _ List.mem_cons_self)
  · rw [heq, List.all_cons, List.all_nil, Bool.and_true, printable, Bool.and_eq_true,
      decide_eq_true_eq, decide_eq_true_eq]
    exact ⟨hlow, hhigh⟩
  · rw [heq]
    exact printable_unicodeEscape c
  · rw [heq, List.all_append, printable_unicodeEscape, printable_unicodeEscape]
    rfl

theorem printable_dumpsText (s : Text) : (dumpsText s).all printable = true := by
  have hs : (s.flatMap escape).all printable = true := by
    rw [List.all_flatMap]
    exact List.all_eq_true.2 fun c _ => printable_escape c
  rw [dumpsText, List.all_cons, List.all_append, hs]
  rfl

theorem printable_repr (n : ℕ) : (text (toString n)).all printable = true := by
  refine List.all_eq_true.2 fun c hc => ?_
  obtain ⟨h₁, h₂⟩ := digits_of_repr hc
  rw [printable, Bool.and_eq_true, decide_eq_true_eq, decide_eq_true_eq]
  omega

theorem printable_dumpsInt (n : ℤ) : (dumpsInt n).all printable = true := by
  obtain ⟨k, rfl, heq⟩ | ⟨k, rfl, heq⟩ := dumpsInt_cases n
  · rw [heq]
    exact printable_repr k
  · rw [heq, List.all_cons, printable_repr]
    rfl

mutual

theorem printable_dumps : ∀ v : Json, (dumps v).all printable = true
  | .null => by decide
  | .bool true => by decide
  | .bool false => by decide
  | .int n => printable_dumpsInt n
  | .str s => printable_dumpsText s
  | .list [] => by decide
  | .list (item :: items) => by
    rw [dumps, List.all_cons, List.all_append, printable_dumps item, printable_items items]
    rfl
  | .dict [] => by decide
  | .dict ((key, value) :: members) => by
    rw [dumps, List.all_cons, List.all_append, List.all_cons, List.all_append,
      printable_dumpsText, printable_dumps value, printable_members members]
    rfl

theorem printable_items : ∀ items : List Json, (dumpsItems items).all printable = true
  | [] => by decide
  | item :: items => by
    rw [dumpsItems, List.all_cons, List.all_append, printable_dumps item, printable_items items]
    rfl

theorem printable_members : ∀ members : List (Text × Json),
    (dumpsMembers members).all printable = true
  | [] => by decide
  | (key, value) :: members => by
    rw [dumpsMembers, List.all_cons, List.all_append, List.all_cons, List.all_append,
      printable_dumpsText, printable_dumps value, printable_members members]
    rfl

end

/-- What is dumped is loaded as it was, with blanks after it or none. -/
theorem loads_dumps {v : Json} (hv : Loadable v) {rest : Text} (hrest : Ends rest)
    (hblank : skip rest = []) : loads (dumps v ++ rest) = some v := by
  unfold loads
  rw [(opens_dumps v rest).skip, parseValue_dumps v hv hrest, Option.bind_some]
  · exact if_pos hblank
  · rw [List.length_append]
    omega

end JsonText
