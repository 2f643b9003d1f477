import EngPlatform.Lib.CodePoints
import Mathlib.Data.List.Basic
import Mathlib.Algebra.Order.Ring.Int
import Mathlib.Tactic.SplitIfs

/-!
# The redaction of a payload

A payload is walked once, within three budgets: of the values visited, of the characters scanned and
of the bytes of the copy as JSON. Each step of the walk takes what it needs from a budget before it
goes on, and a value that does not fit is replaced by a marker, for which there must be room.
-/

set_option linter.dupNamespace false

namespace Redaction

open CodePoints

/-! ## Payloads -/

/-- A payload. A float has the text of its `repr` if it is finite, and a key of a dict a text if it
is one. -/
inductive Value
  | none
  | bool (b : Bool)
  | int (n : Int)
  | float (repr : Option Text)
  | str (s : Text)
  | dict (items : List (Option Text × Value))
  | list (items : List Value)
  | tuple (items : List Value)
  | other

/-- The copy of a payload. -/
inductive Json
  | null
  | bool (b : Bool)
  | int (n : Int)
  | float (repr : Text)
  | str (s : Text)
  | dict (items : List (Text × Json))
  | list (items : List Json)

/-! ## JSON texts -/

/-- `\uXXXX`. -/
def unicodeEscape (c : ℕ) : Text :=
  [92, 117, hexDigit (c / 4096 % 16), hexDigit (c / 256 % 16), hexDigit (c / 16 % 16),
    hexDigit (c % 16)]

/-- A character in a JSON string, in ASCII. -/
def escapeCharacter (c : ℕ) : Text :=
  if c = 34 then text "\\\""
  else if c = 92 then text "\\\\"
  else if c = 10 then text "\\n"
  else if c = 13 then text "\\r"
  else if c = 9 then text "\\t"
  else if c = 12 then text "\\f"
  else if c = 8 then text "\\b"
  else if 32 ≤ c ∧ c ≤ 126 then [c]
  else if c < 0x10000 then unicodeEscape c
  else unicodeEscape (0xD800 + (c - 0x10000) / 1024) ++ unicodeEscape (0xDC00 + (c - 0x10000) % 1024)

def dumpsText (s : Text) : Text := 34 :: (s.flatMap escapeCharacter ++ [34])

mutual

/-- `json.dumps(item, ensure_ascii=True)`. -/
def dumps : Json → Text
  | .null => text "null"
  | .bool b => text (if b then "true" else "false")
  | .int n => text (toString n)
  | .float repr => repr
  | .str s => dumpsText s
  | .dict items => 123 :: (dumpsMembers items ++ [125])
  | .list items => 91 :: (dumpsItems items ++ [93])

def dumpsMembers : List (Text × Json) → Text
  | [] => []
  | [(key, value)] => dumpsText key ++ text ": " ++ dumps value
  | (key, value) :: member :: members =>
    dumpsText key ++ text ": " ++ dumps value ++ text ", " ++ dumpsMembers (member :: members)

def dumpsItems : List Json → Text
  | [] => []
  | [item] => dumps item
  | item :: next :: items => dumps item ++ text ", " ++ dumpsItems (next :: items)

end

mutual

/-- How many containers are nested in a payload. -/
def depth : Json → ℕ
  | .dict items => 1 + depthMembers items
  | .list items => 1 + depthItems items
  | _ => 0

def depthMembers : List (Text × Json) → ℕ
  | [] => 0
  | (_, value) :: members => max (depth value) (depthMembers members)

def depthItems : List Json → ℕ
  | [] => 0
  | item :: items => max (depth item) (depthItems items)

end

/-! ## The budgets -/

def maxTextBytes : ℕ := 8 * 1024
def maxPayloadBytes : ℕ := 32 * 1024
def maxDepth : ℕ := 8
def maxNodes : ℕ := 256
def maxCollectionItems : ℕ := 64
def maxKeyChars : ℕ := 256

def redacted : Text := text "[REDACTED]"
def truncated : Text := text "[TRUNCATED]"
def unsupported : Text := text "[UNSUPPORTED]"

/-- `remaining`, `remaining_bytes` and `remaining_scan`. -/
structure Counters where
  nodes : Int
  bytes : Int
  scan : Int

/-- The counters as they are, the values that they had before, and the flags. -/
structure State where
  now : Counters
  past : List Counters
  exhausted : Bool
  truncated : Bool

namespace State

def count (s : State) (counters : Counters) : State :=
  { s with now := counters, past := s.now :: s.past }

def takeNode (s : State) : State := s.count { s.now with nodes := s.now.nodes - 1 }
def takeBytes (s : State) (n : ℕ) : State := s.count { s.now with bytes := s.now.bytes - n }
def takeScan (s : State) (n : ℕ) : State := s.count { s.now with scan := s.now.scan - n }

def truncate (s : State) : State := { s with truncated := true }
def exhaust (s : State) : State := { s with truncated := true, exhausted := true }
def clip (s : State) (clipped : Bool) : State := { s with truncated := s.truncated || clipped }

end State

/-! ## The walk -/

/-- How a text is redacted, with whether it is clipped, and what its names are compared by. -/
structure Names where
  sanitizeText : Text → Text × Bool
  sensitiveKey : Text → Bool
  normalizedKey : Text → Text

variable (names : Names)

/-- `scalar`. -/
def scalar (item : Json) (s : State) : Json × State :=
  let size := (dumps item).length
  if (size : Int) > s.now.bytes then
    (.str truncated, s.exhaust.takeBytes (truncated.length + 2))
  else (item, s.takeBytes size)

/-- `secret_name`. -/
def secretName : Value → Bool
  | .str s => s.length > maxKeyChars ∨ names.sensitiveKey s
  | _ => false

def headerNames : List Text := [text "name", text "key", text "header"]
def valueNames : List Text := [text "value", text "values", text "val"]

/-- Whether a dict carries a name that makes its value a secret, or has too many members to look. -/
def namedSecret (items : List (Option Text × Value)) : Bool :=
  items.length > maxCollectionItems ∨
    (items.take maxCollectionItems).any fun (key, child) =>
      key.any fun key => key.length ≤ maxKeyChars ∧ names.normalizedKey key ∈ headerNames ∧
        secretName names child

/-- `result[key] = value`. -/
def setKey (key : Text) (value : Json) : List (Text × Json) → List (Text × Json)
  | [] => [(key, value)]
  | m :: result => if m.1 = key then (key, value) :: result else m :: setKey key value result

/-- Whether the value of a key is not shown. -/
def hidden (named : Bool) (key : Text) : Bool :=
  key.length > maxKeyChars ∨ names.sensitiveKey key ∨
    (named ∧ names.normalizedKey key ∈ valueNames)

mutual

/-- `visit`, of a payload that does not contain itself. -/
def visit (item : Value) (level : ℕ) (s : State) : Json × State :=
  if s.now.nodes = 0 then scalar (.str truncated) s.truncate
  else
    let s := s.takeNode
    match item with
    | .str t =>
      let scanSize := min t.length maxTextBytes
      if (scanSize : Int) > s.now.scan then scalar (.str truncated) s.exhaust
      else
        let (clean, clipped) := names.sanitizeText t
        scalar (.str clean) ((s.takeScan scanSize).clip clipped)
    | .none => scalar .null s
    | .bool b => scalar (.bool b) s
    | .int n =>
      if n.natAbs ≥ 2 ^ 1024 then scalar (.str truncated) s.truncate else scalar (.int n) s
    | .float repr => scalar (repr.elim .null .float) s
    | .other => scalar (.str unsupported) s
    | .dict items =>
      if level ≥ maxDepth then scalar (.str truncated) s.truncate
      else
        let (members, s) :=
          visitMembers (namedSecret names items) level 0 items [] (s.takeBytes 2)
        (.dict members, s)
    | .list items =>
      if level ≥ maxDepth then scalar (.str truncated) s.truncate
      else
        let named := decide (items.length = 2) && (items.head?.map (secretName names)).getD false
        let (results, s) := visitItems named level 0 items [] (s.takeBytes 2)
        (.list results, s)
    | .tuple items =>
      if level ≥ maxDepth then scalar (.str truncated) s.truncate
      else
        let named := decide (items.length = 2) && (items.head?.map (secretName names)).getD false
        let (results, s) := visitItems named level 0 items [] (s.takeBytes 2)
        (.list results, s)

/-- The loop over the members of a dict. -/
def visitMembers (named : Bool) (level index : ℕ) (items : List (Option Text × Value))
    (result : List (Text × Json)) (s : State) : List (Text × Json) × State :=
  match items with
  | [] => (result, s)
  | (key, child) :: items =>
    if index ≥ maxCollectionItems ∨ s.now.nodes = 0 ∨ s.exhausted then (result, s.truncate)
    else
      match key with
      | none => visitMembers named level (index + 1) items result s
      | some key =>
        let scanSize := min key.length maxKeyChars
        if (scanSize : Int) > s.now.scan then (result, s.exhaust)
        else
          let s := s.takeScan scanSize
          let (cleanKey, clipped) := names.sanitizeText (key.take maxKeyChars)
          let s := s.clip (decide (key.length > maxKeyChars) || clipped)
          let keySize := (dumpsText cleanKey).length + 4
          if s.now.bytes < (keySize + truncated.length + 2 : ℕ) then (result, s.exhaust)
          else
            let s := s.takeBytes keySize
            if hidden names named key then
              let (value, s) := scalar (.str redacted) s.takeNode
              visitMembers named level (index + 1) items (setKey cleanKey value result) s
            else
              let (value, s) := visit child (level + 1) s
              visitMembers named level (index + 1) items (setKey cleanKey value result) s

/-- The loop over the items of a list or a tuple. -/
def visitItems (named : Bool) (level index : ℕ) (items : List Value) (result : List Json)
    (s : State) : List Json × State :=
  match items with
  | [] => (result, s)
  | child :: items =>
    if index ≥ maxCollectionItems ∨ s.now.nodes = 0 ∨ s.exhausted ∨
        s.now.bytes < (truncated.length + 4 : ℕ) then (result, s.truncate)
    else
      let s := s.takeBytes 2
      if named ∧ index = 1 then
        let (value, s) := scalar (.str redacted) s.takeNode
        visitItems named level (index + 1) items (result ++ [value]) s
      else
        let (value, s) := visit child (level + 1) s
        visitItems named level (index + 1) items (result ++ [value]) s

end

def initial : State := ⟨⟨maxNodes, maxPayloadBytes, maxPayloadBytes⟩, [], false, false⟩

/-- `sanitize_payload`, with the state that the walk ends in. -/
def sanitizePayload (value : Value) : Json × State := visit names value 0 initial

/-! ## The size of a copy -/

/-- What a member takes: its key, its value, and the marks between and after them. -/
def memberCost (m : Text × Json) : ℕ := (dumpsText m.1).length + 4 + (dumps m.2).length

def membersCost (members : List (Text × Json)) : ℕ := (members.map memberCost).sum

def itemsCost (items : List Json) : ℕ := (items.map fun item => (dumps item).length + 2).sum

theorem length_dumpsMembers : ∀ members, (dumpsMembers members).length ≤ membersCost members
  | [] => Nat.le_refl 0
  | [(key, value)] => by
    have hcolon : (text ": ").length = 2 := rfl
    simp only [dumpsMembers, membersCost, memberCost, List.length_append, List.map_cons,
      List.map_nil, List.sum_cons, List.sum_nil, hcolon]
    omega
  | (key, value) :: member :: members => by
    have ih := length_dumpsMembers (member :: members)
    have hcolon : (text ": ").length = 2 := rfl
    have hcomma : (text ", ").length = 2 := rfl
    have hcost : membersCost ((key, value) :: member :: members) =
        memberCost (key, value) + membersCost (member :: members) := rfl
    rw [hcost]
    simp only [dumpsMembers, memberCost, List.length_append, hcolon, hcomma] at ih ⊢
    omega

theorem length_dumpsItems : ∀ items, (dumpsItems items).length ≤ itemsCost items
  | [] => Nat.le_refl 0
  | [item] => by
    simp only [dumpsItems, itemsCost, List.map_cons, List.map_nil, List.sum_cons, List.sum_nil]
    omega
  | item :: next :: items => by
    have ih := length_dumpsItems (next :: items)
    have hcomma : (text ", ").length = 2 := rfl
    have hcost : itemsCost (item :: next :: items) =
        (dumps item).length + 2 + itemsCost (next :: items) := rfl
    rw [hcost]
    simp only [dumpsItems, List.length_append, hcomma]
    omega

theorem length_dict (members : List (Text × Json)) :
    (dumps (.dict members)).length ≤ membersCost members + 2 := by
  have := length_dumpsMembers members
  simp only [dumps, List.length_cons, List.length_append, List.length_nil]
  omega

theorem length_list (items : List Json) :
    (dumps (.list items)).length ≤ itemsCost items + 2 := by
  have := length_dumpsItems items
  simp only [dumps, List.length_cons, List.length_append, List.length_nil]
  omega

/-- A member that takes the place of another takes no more than its own cost. -/
theorem setKey_cost (key : Text) (value : Json) : ∀ result,
    membersCost (setKey key value result) ≤ membersCost result + memberCost (key, value)
  | [] => by
    simp only [setKey, membersCost, List.map_cons, List.map_nil, List.sum_cons, List.sum_nil]
    omega
  | m :: result => by
    have ih := setKey_cost key value result
    have hcost : ∀ m result, membersCost (m :: result) = memberCost m + membersCost result :=
      fun _ _ => rfl
    rw [setKey]
    split_ifs <;> rw [hcost, hcost] <;> omega

theorem depthMembers_le {d : ℕ} : ∀ {members : List (Text × Json)},
    depthMembers members ≤ d ↔ ∀ m ∈ members, depth m.2 ≤ d
  | [] => by simp [depthMembers]
  | (key, value) :: members => by
    simp only [depthMembers, List.forall_mem_cons, ← @depthMembers_le d members]
    omega

theorem depthItems_le {d : ℕ} : ∀ {items : List Json},
    depthItems items ≤ d ↔ ∀ item ∈ items, depth item ≤ d
  | [] => by simp [depthItems]
  | item :: items => by
    simp only [depthItems, List.forall_mem_cons, ← @depthItems_le d items]
    omega

theorem setKey_depth {d : ℕ} {key : Text} {value : Json} (hv : depth value ≤ d) :
    ∀ {result : List (Text × Json)}, (∀ m ∈ result, depth m.2 ≤ d) →
      ∀ m ∈ setKey key value result, depth m.2 ≤ d
  | [], _ => by
    intro m hm
    rw [List.mem_singleton.1 hm]
    exact hv
  | m' :: result, h => by
    have htail : ∀ m ∈ result, depth m.2 ≤ d := fun m hm => h m (.tail _ hm)
    rw [setKey]
    split_ifs <;> intro m hm <;> rcases List.mem_cons.1 hm with rfl | hm
    · exact hv
    · exact htail m hm
    · exact h m (.head _)
    · exact setKey_depth hv htail m hm

/-! ## The budgets hold -/

def Counters.Nonneg (c : Counters) : Prop := 0 ≤ c.nodes ∧ 0 ≤ c.bytes ∧ 0 ≤ c.scan

/-- No counter is, or ever was, negative. -/
def State.Sound (s : State) : Prop := s.now.Nonneg ∧ ∀ c ∈ s.past, c.Nonneg

section Walk

variable {names} {s : State}

theorem State.Sound.count (h : s.Sound) {counters : Counters} (hc : counters.Nonneg) :
    (s.count counters).Sound := by
  refine ⟨hc, fun c hm => ?_⟩
  rcases List.mem_cons.1 hm with rfl | hm
  · exact h.1
  · exact h.2 c hm

theorem State.Sound.takeNode (h : s.Sound) (hn : s.now.nodes ≠ 0) : s.takeNode.Sound := by
  obtain ⟨hnodes, hbytes, hscan⟩ := h.1
  exact h.count ⟨by dsimp only; omega, hbytes, hscan⟩

theorem State.Sound.takeBytes (h : s.Sound) {n : ℕ} (hn : n ≤ s.now.bytes) :
    (s.takeBytes n).Sound := by
  obtain ⟨hnodes, hbytes, hscan⟩ := h.1
  exact h.count ⟨hnodes, by dsimp only; omega, hscan⟩

theorem State.Sound.takeScan (h : s.Sound) {n : ℕ} (hn : ¬(n : Int) > s.now.scan) :
    (s.takeScan n).Sound := by
  obtain ⟨hnodes, hbytes, hscan⟩ := h.1
  exact h.count ⟨hnodes, hbytes, by dsimp only; omega⟩

/-- A copy that fits: it has taken its size from the bytes, and is no deeper than `d`. -/
structure Fits (bytes : Int) (d : ℕ) (r : Json × State) : Prop where
  sound : r.2.Sound
  size : (dumps r.1).length + r.2.now.bytes ≤ bytes
  depth : depth r.1 ≤ d

theorem length_truncated : truncated.length = 11 := rfl

theorem length_redacted : redacted.length = 10 := rfl

/-- There is always room for the marker. -/
theorem scalar_fits {item : Json} {d : ℕ} (h : s.Sound) (hroom : 13 ≤ s.now.bytes)
    (hd : Redaction.depth item = 0) : Fits s.now.bytes d (scalar item s) := by
  have hmarker : (dumps (.str truncated)).length = 13 := by rfl
  unfold scalar
  simp only []
  split_ifs with hsize
  · refine ⟨State.Sound.takeBytes (s := s.exhaust) h ?_, ?_, ?_⟩
    · rw [length_truncated]
      exact hroom
    · rw [hmarker, length_truncated]
      simp only [State.takeBytes, State.count, State.exhaust]
      omega
    · exact Nat.zero_le d
  · refine ⟨h.takeBytes (not_lt.1 hsize), ?_, ?_⟩
    · simp only [State.takeBytes, State.count]
      omega
    · rw [hd]
      exact Nat.zero_le d

/-- The members of a copy fit, and are no deeper than `d`. -/
structure MembersFit (bytes : Int) (d : ℕ) (r : List (Text × Json) × State) : Prop where
  sound : r.2.Sound
  size : membersCost r.1 + r.2.now.bytes ≤ bytes
  depth : ∀ m ∈ r.1, Redaction.depth m.2 ≤ d

structure ItemsFit (bytes : Int) (d : ℕ) (r : List Json × State) : Prop where
  sound : r.2.Sound
  size : itemsCost r.1 + r.2.now.bytes ≤ bytes
  depth : ∀ item ∈ r.1, Redaction.depth item ≤ d

theorem MembersFit.trans {bytes : Int} {d : ℕ} {r r' : List (Text × Json) × State}
    (h : MembersFit bytes d r) (h' : MembersFit (membersCost r.1 + r.2.now.bytes) d r') :
    MembersFit bytes d r' :=
  ⟨h'.sound, h'.size.trans h.size, h'.depth⟩

theorem ItemsFit.trans {bytes : Int} {d : ℕ} {r r' : List Json × State}
    (h : ItemsFit bytes d r) (h' : ItemsFit (itemsCost r.1 + r.2.now.bytes) d r') :
    ItemsFit bytes d r' :=
  ⟨h'.sound, h'.size.trans h.size, h'.depth⟩

theorem MembersFit.dict {bytes : Int} {d : ℕ} {r : List (Text × Json) × State}
    (h : MembersFit bytes d r) : Fits (bytes + 2) (d + 1) (.dict r.1, r.2) where
  sound := h.sound
  size := by
    have hsize := h.size
    have hlen := length_dict r.1
    dsimp only
    omega
  depth := by
    have hdepth := depthMembers_le.2 h.depth
    simp only [Redaction.depth]
    omega

theorem ItemsFit.list {bytes : Int} {d : ℕ} {r : List Json × State}
    (h : ItemsFit bytes d r) : Fits (bytes + 2) (d + 1) (.list r.1, r.2) where
  sound := h.sound
  size := by
    have hsize := h.size
    have hlen := length_list r.1
    dsimp only
    omega
  depth := by
    have hdepth := depthItems_le.2 h.depth
    simp only [Redaction.depth]
    omega

/-- A member is added to those before it. -/
theorem Fits.member {bytes cost : Int} {d : ℕ} {r : Json × State} {key : Text}
    {result : List (Text × Json)} (h : Fits bytes d r)
    (hcost : membersCost result + (dumpsText key).length + 4 + bytes ≤ cost)
    (hd : ∀ m ∈ result, Redaction.depth m.2 ≤ d) :
    MembersFit cost d (setKey key r.1 result, r.2) where
  sound := h.sound
  size := by
    have hsize := h.size
    have hset := setKey_cost key r.1 result
    unfold memberCost at hset
    dsimp only at hset ⊢
    omega
  depth := setKey_depth h.depth hd

theorem Fits.item {bytes cost : Int} {d : ℕ} {r : Json × State} {result : List Json}
    (h : Fits bytes d r) (hcost : itemsCost result + 2 + bytes ≤ cost)
    (hd : ∀ item ∈ result, Redaction.depth item ≤ d) :
    ItemsFit cost d (result ++ [r.1], r.2) where
  sound := h.sound
  size := by
    have hsize := h.size
    have happ : itemsCost (result ++ [r.1]) = itemsCost result + ((dumps r.1).length + 2) := by
      simp only [itemsCost, List.map_append, List.sum_append, List.map_cons, List.map_nil,
        List.sum_cons, List.sum_nil, Nat.add_zero]
    dsimp only
    rw [happ]
    omega
  depth item hm := by
    rcases List.mem_append.1 hm with hm | hm
    · exact hd item hm
    · rw [List.mem_singleton.1 hm]
      exact h.depth

/-- What is taken for a key leaves room for the marker of its value. -/
theorem keyed {scan n : ℕ} {clipped : Bool} (h : s.Sound) (hscan : ¬(scan : Int) > s.now.scan)
    (hkey : ¬((s.takeScan scan).clip clipped).now.bytes < (n + truncated.length + 2 : ℕ)) :
    (((s.takeScan scan).clip clipped).takeBytes n).Sound ∧
      (((s.takeScan scan).clip clipped).takeBytes n).now.bytes + n = s.now.bytes ∧
      13 ≤ (((s.takeScan scan).clip clipped).takeBytes n).now.bytes := by
  rw [length_truncated] at hkey
  refine ⟨State.Sound.takeBytes (s := (s.takeScan scan).clip clipped) (h.takeScan hscan) ?_, ?_, ?_⟩
  · omega
  · simp only [State.takeBytes, State.clip, State.takeScan, State.count]
    omega
  · simp only [State.takeBytes, State.clip, State.takeScan, State.count] at hkey ⊢
    omega

mutual

theorem visit_fits (item : Value) (level : ℕ) (s : State) (h : s.Sound)
    (hroom : 13 ≤ s.now.bytes) :
    Fits s.now.bytes (maxDepth - level) (visit names item level s) := by
  rw [visit]
  by_cases hn : s.now.nodes = 0
  · rw [if_pos hn]
    exact scalar_fits (s := s.truncate) h hroom rfl
  · rw [if_neg hn]
    have hs := h.takeNode hn
    -- the size of a container is that of its parts and its delimiters
    have hopen : ((s.takeNode.takeBytes 2).now.bytes : Int) + 2 = s.now.bytes := by
      simp only [State.takeBytes, State.takeNode, State.count]
      omega
    have hsopen : (s.takeNode.takeBytes 2).Sound := by
      refine hs.takeBytes ?_
      simp only [State.takeNode, State.count]
      omega
    have hlift : ∀ r, level < maxDepth →
        Fits ((0 : ℕ) + (s.takeNode.takeBytes 2).now.bytes + 2) (maxDepth - (level + 1) + 1) r →
          Fits s.now.bytes (maxDepth - level) r := by
      intro r hlt hr
      refine ⟨hr.sound, hr.size.trans (by omega), hr.depth.trans (by omega)⟩
    cases item with
    | none => exact scalar_fits hs hroom rfl
    | bool b => exact scalar_fits hs hroom rfl
    | other => exact scalar_fits hs hroom rfl
    | float repr => cases repr <;> exact scalar_fits hs hroom rfl
    | int n =>
      simp only []
      split_ifs
      · exact scalar_fits (s := s.takeNode.truncate) hs hroom rfl
      · exact scalar_fits hs hroom rfl
    | str t =>
      simp only []
      split_ifs with hscan
      · exact scalar_fits (s := s.takeNode.exhaust) hs hroom rfl
      · exact scalar_fits (s := (s.takeNode.takeScan _).clip _) (hs.takeScan hscan) hroom rfl
    | dict items =>
      simp only []
      split_ifs with hlevel
      · exact scalar_fits (s := s.takeNode.truncate) hs hroom rfl
      · have hfit := visitMembers_fits (namedSecret names items) level 0 items [] _
          (not_le.1 hlevel) hsopen (fun _ hm => absurd hm List.not_mem_nil)
        exact hlift _ (not_le.1 hlevel) hfit.dict
    | list items =>
      simp only []
      split_ifs with hlevel
      · exact scalar_fits (s := s.takeNode.truncate) hs hroom rfl
      · have hfit := visitItems_fits
          (decide (items.length = 2) && (items.head?.map (secretName names)).getD false)
          level 0 items [] _ (not_le.1 hlevel) hsopen (fun _ hm => absurd hm List.not_mem_nil)
        exact hlift _ (not_le.1 hlevel) hfit.list
    | tuple items =>
      simp only []
      split_ifs with hlevel
      · exact scalar_fits (s := s.takeNode.truncate) hs hroom rfl
      · have hfit := visitItems_fits
          (decide (items.length = 2) && (items.head?.map (secretName names)).getD false)
          level 0 items [] _ (not_le.1 hlevel) hsopen (fun _ hm => absurd hm List.not_mem_nil)
        exact hlift _ (not_le.1 hlevel) hfit.list

theorem visitMembers_fits (named : Bool) (level index : ℕ) (items : List (Option Text × Value))
    (result : List (Text × Json)) (s : State) (hl : level < maxDepth) (h : s.Sound)
    (hd : ∀ m ∈ result, Redaction.depth m.2 ≤ maxDepth - (level + 1)) :
    MembersFit (membersCost result + s.now.bytes) (maxDepth - (level + 1))
      (visitMembers names named level index items result s) := by
  cases items with
  | nil =>
    rw [visitMembers]
    exact ⟨h, le_rfl, hd⟩
  | cons m items =>
    obtain ⟨_ | key, child⟩ := m
    · rw [visitMembers]
      split_ifs
      · exact ⟨h, le_rfl, hd⟩
      · exact visitMembers_fits named level (index + 1) items result s hl h hd
    · rw [visitMembers]
      by_cases hstop : index ≥ maxCollectionItems ∨ s.now.nodes = 0 ∨ s.exhausted = true
      · rw [if_pos hstop]
        exact ⟨h, le_rfl, hd⟩
      · rw [if_neg hstop]
        have hn : s.now.nodes ≠ 0 := fun hz => hstop (.inr (.inl hz))
        have hcost : ∀ {bytes : Int} {n : ℕ}, bytes + (n + 4 : ℕ) = s.now.bytes →
            membersCost result + n + 4 + bytes ≤ membersCost result + s.now.bytes := by
          intro bytes n hb
          omega
        simp only []
        split_ifs with hscan hkey hhidden
        · exact ⟨h, le_rfl, hd⟩
        · exact ⟨h.takeScan hscan, le_rfl, hd⟩
        · obtain ⟨hkeyed, hbytes, hroom⟩ := keyed h hscan hkey
          have hfit : Fits _ (maxDepth - (level + 1)) (scalar (.str redacted) _) :=
            scalar_fits (hkeyed.takeNode hn) hroom rfl
          have hmember : MembersFit _ _
              (setKey (names.sanitizeText (key.take maxKeyChars)).1 _ result, _) :=
            hfit.member (hcost hbytes) hd
          exact hmember.trans (visitMembers_fits named level (index + 1) items _ _ hl
            hmember.sound hmember.depth)
        · obtain ⟨hkeyed, hbytes, hroom⟩ := keyed h hscan hkey
          have hfit := visit_fits child (level + 1) _ hkeyed hroom
          have hmember : MembersFit _ _
              (setKey (names.sanitizeText (key.take maxKeyChars)).1 _ result, _) :=
            hfit.member (hcost hbytes) hd
          exact hmember.trans (visitMembers_fits named level (index + 1) items _ _ hl
            hmember.sound hmember.depth)

theorem visitItems_fits (named : Bool) (level index : ℕ) (items : List Value)
    (result : List Json) (s : State) (hl : level < maxDepth) (h : s.Sound)
    (hd : ∀ item ∈ result, Redaction.depth item ≤ maxDepth - (level + 1)) :
    ItemsFit (itemsCost result + s.now.bytes) (maxDepth - (level + 1))
      (visitItems names named level index items result s) := by
  cases items with
  | nil =>
    rw [visitItems]
    exact ⟨h, le_rfl, hd⟩
  | cons child items =>
    rw [visitItems]
    by_cases hstop : index ≥ maxCollectionItems ∨ s.now.nodes = 0 ∨ s.exhausted = true ∨
        s.now.bytes < (truncated.length + 4 : ℕ)
    · rw [if_pos hstop]
      exact ⟨h, le_rfl, hd⟩
    · rw [if_neg hstop]
      have hn : s.now.nodes ≠ 0 := fun hz => hstop (.inr (.inl hz))
      have hroom : 15 ≤ s.now.bytes := by
        rw [length_truncated] at hstop
        omega
      have htaken : (s.takeBytes 2).Sound := h.takeBytes (by omega)
      have hbytes : (s.takeBytes 2).now.bytes + 2 = s.now.bytes := by
        simp only [State.takeBytes, State.count]
        omega
      have hcost : (itemsCost result + 2 + (s.takeBytes 2).now.bytes : Int) ≤
          itemsCost result + s.now.bytes := by omega
      simp only []
      split_ifs with hsecret
      · have hleft : 13 ≤ (s.takeBytes 2).takeNode.now.bytes := by
          simp only [State.takeNode, State.count]
          omega
        have hfit : Fits _ (maxDepth - (level + 1)) (scalar (.str redacted) _) :=
          scalar_fits (htaken.takeNode hn) hleft rfl
        have hitem := hfit.item hcost hd
        exact hitem.trans (visitItems_fits named level (index + 1) items _ _ hl hitem.sound
          hitem.depth)
      · have hfit := visit_fits child (level + 1) (s.takeBytes 2) htaken (by omega)
        have hitem := hfit.item hcost hd
        exact hitem.trans (visitItems_fits named level (index + 1) items _ _ hl hitem.sound
          hitem.depth)

end

end Walk

/-- The copy of a payload is no longer than its budget as JSON and nests no more containers than it
may, and no budget is ever overdrawn. -/
theorem payload_bounded (value : Value) :
    (dumps (sanitizePayload names value).1).length ≤ maxPayloadBytes ∧
      depth (sanitizePayload names value).1 ≤ maxDepth ∧
      ∀ c ∈ (sanitizePayload names value).2.now :: (sanitizePayload names value).2.past,
        0 ≤ c.nodes ∧ 0 ≤ c.bytes ∧ 0 ≤ c.scan := by
  have hstart : initial.Sound :=
    ⟨⟨by decide, by decide, by decide⟩, fun _ hc => absurd hc List.not_mem_nil⟩
  have hfit : Fits initial.now.bytes (maxDepth - 0) (sanitizePayload names value) :=
    visit_fits value 0 initial hstart (by decide)
  refine ⟨?_, hfit.depth, List.forall_mem_cons.2 hfit.sound⟩
  have hsize := hfit.size
  have hbytes := hfit.sound.1.2.1
  have hmax : initial.now.bytes = maxPayloadBytes := rfl
  omega

end Redaction
