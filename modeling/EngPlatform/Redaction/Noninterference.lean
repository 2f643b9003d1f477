import EngPlatform.Redaction.Payload
import Mathlib.Data.List.Infix

/-!
# Values under sensitive keys

The value of a sensitive key is never visited: not for the copy, not for the budgets, and not by the
look-ahead for records that carry a name and a value. So it has no influence on the copy.
-/

set_option linter.dupNamespace false

namespace Redaction

open CodePoints

variable (names : Names)

/-- The values of the key are not read: it is sensitive, not too long, and names no record. -/
def protects (key : Text) : Bool :=
  key.length ≤ maxKeyChars && names.sensitiveKey key && decide (names.normalizedKey key ∉ headerNames)

mutual

/-- The payload without the values under protected keys. -/
def mask : Value → Value
  | .none => .none
  | .bool b => .bool b
  | .int n => .int n
  | .float repr => .float repr
  | .str s => .str s
  | .other => .other
  | .dict items => .dict (maskMembers items)
  | .list items => .list (maskItems items)
  | .tuple items => .tuple (maskItems items)

def maskMembers : List (Option Text × Value) → List (Option Text × Value)
  | [] => []
  | (key, child) :: items => (key, if key.any (protects names) then .none else mask child) :: maskMembers items

def maskItems : List Value → List Value
  | [] => []
  | item :: items => mask item :: maskItems items

end

def marker (value : Json) : Prop := value = .str redacted ∨ value = .str truncated

/-- The key of a member as it is shown. -/
def cleanKey (key : Text) : Text := (names.sanitizeText (key.take maxKeyChars)).1

/-- No other member has a key that is shown in the same way. -/
def Alone (key : Text) (others : List (Option Text × Value)) : Prop :=
  ∀ other ∈ others, ∀ key' ∈ other.1, cleanKey names key' ≠ cleanKey names key

def container : Json → Bool
  | .dict _ | .list _ => true
  | _ => false

/-- Wherever a protected key is shown, a marker is shown as its value. -/
inductive Marked : Value → Json → Prop
  | flat {item : Value} {copy : Json} (h : container copy = false) : Marked item copy
  | dict {items : List (Option Text × Value)} {members : List (Text × Json)}
      (hmark : ∀ before key child after value, items = before ++ (some key, child) :: after →
        Alone names key (before ++ after) → members.lookup (cleanKey names key) = some value →
        protects names key = true → marker value)
      (hchild : ∀ before key child after value, items = before ++ (some key, child) :: after →
        Alone names key (before ++ after) → members.lookup (cleanKey names key) = some value → Marked child value) :
      Marked (.dict items) (.dict members)
  | list {items : List Value} {results : List Json}
      (h : ∀ (i : ℕ) (child : Value) (value : Json), items[i]? = some child → results[i]? = some value →
        Marked child value) :
      Marked (.list items) (.list results)
  | tuple {items : List Value} {results : List Json}
      (h : ∀ (i : ℕ) (child : Value) (value : Json), items[i]? = some child → results[i]? = some value →
        Marked child value) :
      Marked (.tuple items) (.list results)

variable {names}

/-! ## The look-ahead -/

theorem secretName_mask (item : Value) : secretName names (mask names item) = secretName names item := by
  cases item <;> simp [mask, secretName]

theorem length_maskMembers : ∀ items, (maskMembers names items).length = items.length
  | [] => by simp [maskMembers]
  | (key, child) :: items => by
    rw [maskMembers, List.length_cons, List.length_cons, length_maskMembers items]

theorem length_maskItems : ∀ items, (maskItems names items).length = items.length
  | [] => by simp [maskItems]
  | item :: items => by
    rw [maskItems, List.length_cons, List.length_cons, length_maskItems items]

/-- A protected key names no record. -/
theorem header_of_protects {key : Text} (h : protects names key = true) : names.normalizedKey key ∉ headerNames := by
  unfold protects at h
  simp only [Bool.and_eq_true, decide_eq_true_eq] at h
  exact h.2

theorem namedSecret_mask (items : List (Option Text × Value)) :
    namedSecret names (maskMembers names items) = namedSecret names items := by
  have hany : ∀ {f : Option Text × Value → Bool}, (∀ key child, f (key, child) =
        key.any fun key => key.length ≤ maxKeyChars ∧ names.normalizedKey key ∈ headerNames ∧
          secretName names child) →
      ∀ (items : List (Option Text × Value)) (n : ℕ),
        ((maskMembers names items).take n).any f = (items.take n).any f := by
    intro f hf items
    induction items with
    | nil =>
      intro n
      simp [maskMembers]
    | cons item items ih =>
      intro n
      obtain ⟨key, child⟩ := item
      cases n with
      | zero => rfl
      | succ n =>
        rw [maskMembers, List.take_succ_cons, List.take_succ_cons, List.any_cons, List.any_cons, ih, hf, hf]
        cases key with
        | none => rfl
        | some key =>
          by_cases hkey : protects names key = true
          · have hheader := header_of_protects hkey
            simp [hheader]
          · simp only [Option.any_some, if_neg hkey, secretName_mask]
  unfold namedSecret
  rw [length_maskMembers, hany fun _ _ => rfl]

theorem head_maskItems (items : List Value) :
    ((maskItems names items).head?.map (secretName names)).getD false =
      (items.head?.map (secretName names)).getD false := by
  cases items with
  | nil => simp [maskItems]
  | cons item items =>
    rw [maskItems, List.head?_cons, List.head?_cons, Option.map_some, Option.map_some, secretName_mask]

/-! ## The walk -/

theorem hidden_of_protects {key : Text} (named : Bool) (h : protects names key = true) :
    hidden names named key = true := by
  unfold protects at h
  simp only [Bool.and_eq_true] at h
  unfold hidden
  rw [decide_eq_true_eq]
  exact .inr (.inl h.1.2)

mutual

/-- The walk is the same without the values of protected keys. -/
theorem visit_mask (item : Value) (level : ℕ) (s : State) :
    visit names (mask names item) level s = visit names item level s := by
  cases item with
  | dict items =>
    rw [mask, visit, visit]
    simp only [namedSecret_mask, visitMembers_mask items]
  | list items =>
    rw [mask, visit, visit]
    simp only [length_maskItems, head_maskItems, visitItems_mask items]
  | tuple items =>
    rw [mask, visit, visit]
    simp only [length_maskItems, head_maskItems, visitItems_mask items]
  | _ => rw [mask]

theorem visitMembers_mask (items : List (Option Text × Value)) (named : Bool) (level index : ℕ)
    (result : List (Text × Json)) (s : State) :
    visitMembers names named level index (maskMembers names items) result s =
      visitMembers names named level index items result s := by
  match items with
  | [] => rw [maskMembers]
  | (none, child) :: items =>
    rw [maskMembers, visitMembers, visitMembers]
    simp only [visitMembers_mask items]
  | (some key, child) :: items =>
    rw [maskMembers, visitMembers, visitMembers]
    simp only [visitMembers_mask items]
    by_cases hkey : protects names key = true
    · simp only [hidden_of_protects named hkey, if_true]
    · simp only [Option.any_some, if_neg hkey, visit_mask child]

theorem visitItems_mask (items : List Value) (named : Bool) (level index : ℕ) (result : List Json) (s : State) :
    visitItems names named level index (maskItems names items) result s =
      visitItems names named level index items result s := by
  match items with
  | [] => rw [maskItems]
  | item :: items =>
    rw [maskItems, visitItems, visitItems]
    simp only [visitItems_mask items, visit_mask item]

end

/-! ## Markers -/

theorem scalar_cases (copy : Json) (s : State) : (scalar copy s).1 = copy ∨ (scalar copy s).1 = .str truncated := by
  unfold scalar
  dsimp only
  by_cases h : ((dumps copy).length : Int) > s.now.bytes
  · rw [if_pos h]
    exact .inr rfl
  · rw [if_neg h]
    exact .inl rfl

theorem scalar_marker (s : State) : marker (scalar (.str redacted) s).1 := scalar_cases _ s

theorem Marked.str (item : Value) (t : Text) : Marked names item (.str t) :=
  .flat rfl

theorem Marked.of_marker {value : Json} (item : Value) (h : marker value) : Marked names item value := by
  rcases h with rfl | rfl
  · exact .str item _
  · exact .str item _

/-- A scalar that is no container is copied as none. -/
theorem Marked.of_scalar (item : Value) {copy : Json} (s : State) (h : container copy = false) :
    Marked names item (Redaction.scalar copy s).1 := by
  rcases scalar_cases copy s with heq | heq
  · rw [heq]
    exact .flat h
  · rw [heq]
    exact .str item _

theorem setKey_self (key : Text) (value : Json) : ∀ result, (setKey key value result).lookup key = some value
  | [] => by simp [setKey]
  | m :: result => by
    rw [setKey]
    by_cases h : m.1 = key
    · rw [if_pos h]
      simp
    · rw [if_neg h, List.lookup_cons, beq_eq_false_iff_ne.mpr (Ne.symm h)]
      exact setKey_self key value result

theorem setKey_other {key other : Text} (h : other ≠ key) (value : Json) :
    ∀ result, (setKey key value result).lookup other = result.lookup other
  | [] => by simp [setKey, h]
  | m :: result => by
    rw [setKey]
    by_cases hm : m.1 = key
    · have hne : (other == m.1) = false := beq_eq_false_iff_ne.mpr (hm ▸ h)
      rw [if_pos hm, List.lookup_cons, List.lookup_cons, hne, beq_eq_false_iff_ne.mpr h]
    · rw [if_neg hm, List.lookup_cons, List.lookup_cons, setKey_other h value result]

/-- What one member does: the loop stops before it, or goes on with a marker or a copy at its key. -/
theorem visitMembers_cons (named : Bool) (level index : ℕ) (key : Text) (child : Value)
    (items : List (Option Text × Value)) (result : List (Text × Json)) (s : State) :
    (visitMembers names named level index ((some key, child) :: items) result s).1 = result ∨
    ∃ value s', (visitMembers names named level index ((some key, child) :: items) result s).1 =
        (visitMembers names named level (index + 1) items (setKey (cleanKey names key) value result) s').1 ∧
      ((hidden names named key = true ∧ marker value) ∨
        (hidden names named key = false ∧ ∃ s'', value = (visit names child (level + 1) s'').1)) := by
  rw [visitMembers]
  by_cases hstop : index ≥ maxCollectionItems ∨ s.now.nodes = 0 ∨ s.exhausted = true
  · rw [if_pos hstop]
    exact .inl rfl
  · rw [if_neg hstop]
    simp only []
    split_ifs with hscan hkey hhidden
    · exact .inl rfl
    · exact .inl rfl
    · exact .inr ⟨_, _, rfl, .inl ⟨hhidden, scalar_marker _⟩⟩
    · exact .inr ⟨_, _, rfl, .inr ⟨Bool.not_eq_true _ |>.mp hhidden, _, rfl⟩⟩

theorem visitMembers_none (named : Bool) (level index : ℕ) (child : Value)
    (items : List (Option Text × Value)) (result : List (Text × Json)) (s : State) :
    (visitMembers names named level index ((none, child) :: items) result s).1 = result ∨
    (visitMembers names named level index ((none, child) :: items) result s).1 =
      (visitMembers names named level (index + 1) items result s).1 := by
  rw [visitMembers]
  by_cases hstop : index ≥ maxCollectionItems ∨ s.now.nodes = 0 ∨ s.exhausted = true
  · rw [if_pos hstop]
    exact .inl rfl
  · rw [if_neg hstop]
    exact .inr rfl

/-- Members that are shown under other keys do not change what is under a key. -/
theorem visitMembers_other {shown : Text} : ∀ {items : List (Option Text × Value)} (named : Bool) (level index : ℕ)
    (result : List (Text × Json)) (s : State), (∀ item ∈ items, ∀ key ∈ item.1, cleanKey names key ≠ shown) →
    (visitMembers names named level index items result s).1.lookup shown = result.lookup shown
  | [], named, level, index, result, s, _ => by rw [visitMembers]
  | (none, child) :: items, named, level, index, result, s, h => by
    rcases visitMembers_none named level index child items result s with heq | heq
    · rw [heq]
    · rw [heq]
      exact visitMembers_other _ _ _ _ _ (List.forall_mem_cons.mp h).2
  | (some key, child) :: items, named, level, index, result, s, h => by
    obtain ⟨hkey, hitems⟩ := List.forall_mem_cons.mp h
    rcases visitMembers_cons named level index key child items result s with heq | ⟨value, s', heq, -⟩
    · rw [heq]
    · rw [heq, visitMembers_other _ _ _ _ _ hitems, setKey_other (hkey key rfl).symm]

mutual

theorem visit_marked (item : Value) (level : ℕ) (s : State) : Marked names item (visit names item level s).1 := by
  rw [visit]
  by_cases hn : s.now.nodes = 0
  · rw [if_pos hn]
    exact .of_scalar _ _ rfl
  · rw [if_neg hn]
    cases item with
    | none => exact .of_scalar _ _ rfl
    | bool b => exact .of_scalar _ _ rfl
    | other => exact .of_scalar _ _ rfl
    | float repr => cases repr <;> exact .of_scalar _ _ rfl
    | int n =>
      simp only []
      split_ifs
      · exact .of_scalar _ _ rfl
      · exact .of_scalar _ _ rfl
    | str t =>
      simp only []
      split_ifs
      · exact .of_scalar _ _ rfl
      · exact .of_scalar _ _ rfl
    | dict items =>
      simp only []
      split_ifs
      · exact .of_scalar _ _ rfl
      · have hmembers := visitMembers_marked items (namedSecret names items) level 0 [] (s.takeNode.takeBytes 2)
        exact .dict (fun before key child after value hitems halone hvalue hkey =>
            (hmembers before key child after value hitems halone rfl hvalue).1 hkey)
          fun before key child after value hitems halone hvalue =>
            (hmembers before key child after value hitems halone rfl hvalue).2
    | list items =>
      simp only []
      split_ifs
      · exact .of_scalar _ _ rfl
      · obtain ⟨results, hresults, hmarked⟩ := visitItems_marked items
          (decide (items.length = 2) && (items.head?.map (secretName names)).getD false) level 0 []
          (s.takeNode.takeBytes 2)
        rw [List.nil_append] at hresults
        exact .list (hresults ▸ hmarked)
    | tuple items =>
      simp only []
      split_ifs
      · exact .of_scalar _ _ rfl
      · obtain ⟨results, hresults, hmarked⟩ := visitItems_marked items
          (decide (items.length = 2) && (items.head?.map (secretName names)).getD false) level 0 []
          (s.takeNode.takeBytes 2)
        rw [List.nil_append] at hresults
        exact .tuple (hresults ▸ hmarked)

/-- The member of a key that is shown for no other member. -/
theorem visitMembers_marked (items : List (Option Text × Value)) (named : Bool) (level index : ℕ)
    (result : List (Text × Json)) (s : State) :
    ∀ before key child after value, items = before ++ (some key, child) :: after →
      Alone names key (before ++ after) → result.lookup (cleanKey names key) = none →
      (visitMembers names named level index items result s).1.lookup (cleanKey names key) = some value →
      (protects names key = true → marker value) ∧ Marked names child value := by
  intro before key child after value hitems halone hnew hvalue
  match items with
  | [] => simp at hitems
  | (none, child₀) :: items =>
    cases before with
    | nil => cases (List.cons.inj hitems).1
    | cons first before =>
      obtain ⟨rfl, htail⟩ := List.cons.inj hitems
      have halone' : Alone names key (before ++ after) := fun other hother => halone other (List.mem_cons_of_mem _ hother)
      rcases visitMembers_none named level index child₀ items result s with heq | heq
      · rw [heq, hnew] at hvalue
        cases hvalue
      · rw [heq] at hvalue
        exact visitMembers_marked items named level (index + 1) result s before key child after value htail halone'
          hnew hvalue
  | (some key₀, child₀) :: items =>
    rcases visitMembers_cons named level index key₀ child₀ items result s with heq | ⟨value₀, s', heq, hcases⟩
    · rw [heq, hnew] at hvalue
      cases hvalue
    · rw [heq] at hvalue
      cases before with
      | nil =>
        obtain ⟨hhead, rfl⟩ := List.cons.inj hitems
        obtain ⟨hkey, rfl⟩ := Prod.mk.inj hhead
        obtain rfl := Option.some.inj hkey
        have halone' : Alone names key₀ items := halone
        rw [visitMembers_other _ _ _ _ _ halone', setKey_self] at hvalue
        obtain rfl := Option.some.inj hvalue
        rcases hcases with ⟨-, hmarker⟩ | ⟨hshown, s'', rfl⟩
        · exact ⟨fun _ => hmarker, .of_marker _ hmarker⟩
        · refine ⟨fun hkey => ?_, visit_marked child₀ (level + 1) s''⟩
          rw [hidden_of_protects named hkey] at hshown
          cases hshown
      | cons first before =>
        obtain ⟨rfl, htail⟩ := List.cons.inj hitems
        have halone' : Alone names key (before ++ after) := fun other hother =>
          halone other (List.mem_cons_of_mem _ hother)
        have hne := halone _ List.mem_cons_self key₀ rfl
        have hnew' : (setKey (cleanKey names key₀) value₀ result).lookup (cleanKey names key) = none := by
          rw [setKey_other hne.symm]
          exact hnew
        exact visitMembers_marked items named level (index + 1) _ s' before key child after value htail halone'
          hnew' hvalue

theorem visitItems_marked (items : List Value) (named : Bool) (level index : ℕ) (result : List Json) (s : State) :
    ∃ results, (visitItems names named level index items result s).1 = result ++ results ∧
      ∀ (i : ℕ) (child : Value) (value : Json), items[i]? = some child → results[i]? = some value →
        Marked names child value := by
  match items with
  | [] =>
    rw [visitItems]
    exact ⟨[], (List.append_nil _).symm, fun i child value h => by cases h⟩
  | item :: items =>
    rw [visitItems]
    by_cases hstop : index ≥ maxCollectionItems ∨ s.now.nodes = 0 ∨ s.exhausted = true ∨
        s.now.bytes < (truncated.length + 4 : ℕ)
    · rw [if_pos hstop]
      exact ⟨[], (List.append_nil _).symm, fun i child value _ h => by cases h⟩
    · rw [if_neg hstop]
      -- the rest of the items, after the copy of the first one
      have hrest : ∀ (value : Json) (s' : State), Marked names item value →
          ∃ results, (visitItems names named level (index + 1) items (result ++ [value]) s').1 = result ++ results ∧
            ∀ (i : ℕ) (child : Value) (value : Json), (item :: items)[i]? = some child → results[i]? = some value →
              Marked names child value := by
        intro value s' hvalue
        obtain ⟨results, hresults, hmarked⟩ := visitItems_marked items named level (index + 1) (result ++ [value]) s'
        refine ⟨value :: results, by rw [hresults, List.append_assoc]; rfl, fun i child v hchild hv => ?_⟩
        cases i with
        | zero =>
          obtain rfl := Option.some.inj hchild
          obtain rfl := Option.some.inj hv
          exact hvalue
        | succ i => exact hmarked i child v hchild hv
      simp only []
      split_ifs
      · exact hrest _ _ (.of_marker _ (scalar_marker _))
      · exact hrest _ _ (visit_marked item (level + 1) _)

end

/-- Structured secrets do not influence the copy, and where their key is shown a marker is. -/
theorem secrets_do_not_influence (a b : Value) (h : mask names a = mask names b) :
    (sanitizePayload names a).1 = (sanitizePayload names b).1 ∧
      (sanitizePayload names a).2.truncated = (sanitizePayload names b).2.truncated ∧
      Marked names a (sanitizePayload names a).1 := by
  have heq : sanitizePayload names a = sanitizePayload names b := by
    unfold sanitizePayload
    rw [← visit_mask a, h, visit_mask b]
  exact ⟨congrArg Prod.fst heq, congrArg (fun r => r.2.truncated) heq, visit_marked a 0 initial⟩

/-! ## Two keys that are shown as one -/

/-- `_SENSITIVE_PARTS`. -/
def sensitiveParts : List Text :=
  ["password", "passwd", "secret", "token", "apikey", "authorization", "authentication", "cookie", "privatekey",
    "credential", "accesskey", "signingkey", "signature", "sessionid", "sessionkey"].map text

/-- `_normalized_key`, of a text in ASCII. -/
def asciiKey (key : Text) : Text :=
  (key.map fun c => if 65 ≤ c ∧ c ≤ 90 then c + 32 else c).filter fun c => (97 ≤ c && c ≤ 122) || (48 ≤ c && c ≤ 57)

/-- `_sensitive_key`, of a text in ASCII. -/
def asciiSensitive (key : Text) : Bool :=
  asciiKey key ∈ ["auth", "pass", "pwd", "key", "sig", "jwt", "session"].map text ||
    (text "pwd").isSuffixOf (asciiKey key) || sensitiveParts.any fun part => part <:+: asciiKey key

/-- An assignment whose name is written with an escape. -/
def escapedKey : Text := 34 :: 92 :: text "u0070assword\":x"

/-- The same assignment as it is shown. -/
def shownKey : Text := text "\"password\":[REDACTED]"

/-- Texts are shown as they are, except for the assignment: its name is decoded and its value redacted. -/
def asciiNames : Names where
  sanitizeText t := (if t = escapedKey then shownKey else t, false)
  sensitiveKey := asciiSensitive
  normalizedKey := asciiKey

theorem secrets_do_not_influence_demo :
    mask asciiNames (.dict [(some (text "password"), .str (text "hunter2")), (some (text "user"), .str (text "ada"))]) =
      mask asciiNames (.dict [(some (text "password"), .list []), (some (text "user"), .str (text "ada"))]) ∧
    (sanitizePayload asciiNames
        (.dict [(some (text "password"), .str (text "hunter2")), (some (text "user"), .str (text "ada"))])).1 =
      (sanitizePayload asciiNames
        (.dict [(some (text "password"), .list []), (some (text "user"), .str (text "ada"))])).1 := by
  have hkey : protects asciiNames (text "password") = true := by decide +kernel
  have hmask : mask asciiNames
        (.dict [(some (text "password"), .str (text "hunter2")), (some (text "user"), .str (text "ada"))]) =
      mask asciiNames (.dict [(some (text "password"), .list []), (some (text "user"), .str (text "ada"))]) := by
    simp only [mask, maskMembers, Option.any_some, hkey, if_true]
  exact ⟨hmask, (secrets_do_not_influence _ _ hmask).1⟩

/-- The text that a copy has under a key. -/
def textAt (key : Text) : Json → Option Text
  | .dict members =>
    match members.lookup key with
    | some (.str value) => some value
    | _ => none
  | _ => none

theorem textAt_some {key value : Text} {copy : Json} (h : textAt key copy = some value) :
    ∃ members, copy = .dict members ∧ members.lookup key = some (.str value) := by
  unfold textAt at h
  split at h
  next members =>
    split at h
    next shown hshown =>
      obtain rfl := Option.some.inj h
      exact ⟨members, rfl, hshown⟩
    · cases h
  · cases h

/-- A key that is protected is in the copy, and its value there is that of another key. -/
theorem shown_key_has_other_value : protects asciiNames shownKey = true ∧ protects asciiNames escapedKey = false ∧
    ∃ members, (sanitizePayload asciiNames
        (.dict [(some shownKey, .str (text "hunter2")), (some escapedKey, .str (text "visible"))])).1 = .dict members ∧
      members.lookup shownKey = some (.str (text "visible")) ∧ ¬marker (.str (text "visible")) := by
  refine ⟨by decide +kernel, by decide +kernel, ?_⟩
  have hshown : textAt shownKey (sanitizePayload asciiNames
      (.dict [(some shownKey, .str (text "hunter2")), (some escapedKey, .str (text "visible"))])).1 =
      some (text "visible") := by decide +kernel
  obtain ⟨members, hmembers, hvalue⟩ := textAt_some hshown
  refine ⟨members, hmembers, hvalue, ?_⟩
  rintro (h | h)
  · exact absurd (Json.str.inj h) (by decide)
  · exact absurd (Json.str.inj h) (by decide)

end Redaction
