import EngPlatform.Quality.Seal
import EngPlatform.Lib.Prog

/-!
# The engine and the API seal the same report

The API's hash of the report that it is sent is the engine's, just if every integer field holds a
JSON integer: the engine hashes what it has, the API what its model has made of it, and a boolean
there is one where the other has `0` or `1`.

Two texts are compared member by member. `Aligned` texts can only begin the same text, up to a
delimiter, if they are equal.
-/

set_option linter.dupNamespace false

namespace Seal

open CodePoints

variable {F : Type} {num : Numbers F}

/-! ## Texts -/

/-- The characters that end a value. -/
def delimiters : Text := [44, 93, 125]

def Aligned (e a : Text) : Prop :=
  ∀ d ∈ delimiters, ∀ r r', e ++ d :: r = a ++ d :: r' → e = a ∧ r = r'

namespace Aligned

theorem rfl {e : Text} : Aligned e e := by
  intro d _ r r' h
  exact ⟨Eq.refl e, (List.cons.inj (List.append_cancel_left h)).2⟩

/-- Texts without a delimiter. -/
theorem of_plain : ∀ {e a : Text}, (∀ c ∈ e, c ∉ delimiters) → (∀ c ∈ a, c ∉ delimiters) → Aligned e a
  | [], [], _, _ => rfl
  | [], c :: a, _, ha => by
    intro d hd r r' h
    obtain rfl : d = c := (List.cons.inj h).1
    exact absurd hd (ha d (List.mem_cons_self ..))
  | c :: e, [], he, _ => by
    intro d hd r r' h
    obtain rfl : c = d := (List.cons.inj h).1
    exact absurd hd (he c (List.mem_cons_self ..))
  | c :: e, c' :: a, he, ha => by
    intro d hd r r' h
    obtain ⟨hc, ht⟩ := List.cons.inj h
    obtain ⟨hrest, hr⟩ := of_plain (fun x hx => he x (List.mem_cons_of_mem _ hx))
      (fun x hx => ha x (List.mem_cons_of_mem _ hx)) d hd r r' ht
    exact ⟨by rw [hc, hrest], hr⟩

theorem append_left {e a : Text} (h : Aligned e a) (p : Text) : Aligned (p ++ e) (p ++ a) := by
  intro d hd r r' heq
  rw [List.append_assoc, List.append_assoc] at heq
  obtain ⟨he, hr⟩ := h d hd r r' (List.append_cancel_left heq)
  exact ⟨by rw [he], hr⟩

theorem joined : ∀ {es as : List Text}, List.Forall₂ Aligned es as → ∀ {close : ℕ}, close ∈ delimiters →
    ∀ {r t : Text}, joined es ++ close :: r = joined as ++ close :: t → es = as ∧ r = t
  | [], [], _, _, _, _, _, h => ⟨Eq.refl [], (List.cons.inj h).2⟩
  | [e], [a], .cons hea _, close, hc, r, t, h => by
    obtain ⟨he, hr⟩ := hea close hc r t h
    exact ⟨by rw [he], hr⟩
  | e :: e' :: es, a :: a' :: as, .cons hea hrest, close, hc, r, t, h => by
    simp only [Seal.joined, List.append_assoc, List.cons_append] at h
    obtain ⟨he, ht⟩ := hea 44 (by decide) _ _ h
    obtain ⟨hes, hr⟩ := joined hrest hc ht
    exact ⟨by rw [he, hes], hr⟩

theorem array {es as : List Text} (h : List.Forall₂ Aligned es as) : Aligned (array es) (array as) := by
  intro d _ r r' heq
  simp only [Seal.array, List.cons_append, List.append_assoc, List.nil_append] at heq
  obtain ⟨hes, hr⟩ := joined h (by decide) (List.cons.inj heq).2
  exact ⟨by rw [hes], (List.cons.inj hr).2⟩

end Aligned

theorem array_inj {es as : List Text} (h : List.Forall₂ Aligned es as) (heq : array es = array as) :
    es = as := by
  simp only [array] at heq
  exact (Aligned.joined (r := []) (t := []) h (by decide) (List.cons.inj heq).2).1

/-- A key with the texts that two dicts have for it. -/
abbrev Pairing : Type := Text × Text × Text

def lefts (z : List Pairing) : List (Text × Text) := z.map fun t => (t.1, t.2.1)

def rights (z : List Pairing) : List (Text × Text) := z.map fun t => (t.1, t.2.2)

def sortPairings (z : List Pairing) : List Pairing := z.insertionSort fun t t' => keyLe t.1 t'.1

theorem sortKeys_lefts (z : List Pairing) : sortKeys (lefts z) = lefts (sortPairings z) :=
  (List.map_insertionSort (fun t t' : Pairing => keyLe t.1 t'.1 = true)
    (fun m m' : Text × Text => keyLe m.1 m'.1 = true) (fun t => (t.1, t.2.1)) z fun _ _ _ _ => Iff.rfl).symm

theorem sortKeys_rights (z : List Pairing) : sortKeys (rights z) = rights (sortPairings z) :=
  (List.map_insertionSort (fun t t' : Pairing => keyLe t.1 t'.1 = true)
    (fun m m' : Text × Text => keyLe m.1 m'.1 = true) (fun t => (t.1, t.2.2)) z fun _ _ _ _ => Iff.rfl).symm

theorem members_aligned {z : List Pairing} (h : ∀ t ∈ z, Aligned t.2.1 t.2.2) :
    List.Forall₂ Aligned ((lefts z).map dumpsMember) ((rights z).map dumpsMember) := by
  induction z with
  | nil => exact .nil
  | cons t z ih =>
    refine .cons ?_ (ih fun t' ht => h t' (List.mem_cons_of_mem _ ht))
    have haligned := (h t (List.mem_cons_self ..)).append_left (dumpsText t.1 ++ [58])
    simpa [dumpsMember] using haligned

theorem members_inj {z : List Pairing}
    (h : (lefts z).map dumpsMember = (rights z).map dumpsMember) : ∀ t ∈ z, t.2.1 = t.2.2 := by
  induction z with
  | nil => simp
  | cons t z ih =>
    obtain ⟨hhead, htail⟩ := List.cons.inj h
    intro t' ht'
    rcases List.mem_cons.mp ht' with rfl | ht'
    · simp only [dumpsMember] at hhead
      exact (List.cons.inj (List.append_cancel_left hhead)).2
    · exact ih htail t' ht'

theorem sorted_aligned {z : List Pairing} (h : ∀ t ∈ z, Aligned t.2.1 t.2.2) :
    List.Forall₂ Aligned ((sortKeys (lefts z)).map dumpsMember) ((sortKeys (rights z)).map dumpsMember) := by
  rw [sortKeys_lefts, sortKeys_rights]
  refine members_aligned fun t ht => h t ?_
  exact (List.perm_insertionSort _ z).mem_iff.mp ht

theorem object_aligned {z : List Pairing} (h : ∀ t ∈ z, Aligned t.2.1 t.2.2) :
    Aligned (object (lefts z)) (object (rights z)) := by
  intro d _ r r' heq
  simp only [object, List.cons_append, List.append_assoc, List.nil_append] at heq
  obtain ⟨hmembers, hr⟩ := Aligned.joined (sorted_aligned h) (by decide) (List.cons.inj heq).2
  exact ⟨by rw [object, object, hmembers], (List.cons.inj hr).2⟩

theorem object_eq_iff {z : List Pairing} (h : ∀ t ∈ z, Aligned t.2.1 t.2.2) :
    object (lefts z) = object (rights z) ↔ ∀ t ∈ z, t.2.1 = t.2.2 := by
  constructor
  · intro heq
    simp only [object] at heq
    have hmembers := (Aligned.joined (r := []) (t := []) (sorted_aligned h) (by decide)
      (List.cons.inj heq).2).1
    rw [sortKeys_lefts, sortKeys_rights] at hmembers
    intro t ht
    exact members_inj hmembers t ((List.perm_insertionSort _ z).mem_iff.mpr ht)
  · intro hall
    have hsame : lefts z = rights z := List.map_congr_left fun t ht => by rw [hall t ht]
    rw [hsame]

/-! ## Values -/

theorem negative_text (n : ℕ) : text (toString (Int.negSucc n)) = 45 :: text (toString (n + 1)) := by
  simp [text, Int.repr, toString]

theorem integer_chars {n : Int} {c : ℕ} (h : c ∈ text (toString n)) : c = 45 ∨ (48 ≤ c ∧ c ≤ 57) := by
  cases n with
  | ofNat n => exact .inr (digits_of_repr h)
  | negSucc n =>
    rw [negative_text] at h
    rcases List.mem_cons.mp h with rfl | h
    · exact .inl rfl
    · exact .inr (digits_of_repr h)

theorem integer_plain (n : Int) : ∀ c ∈ text (toString n), c ∉ delimiters := by
  intro c hc hd
  have := integer_chars hc
  simp only [delimiters, List.mem_cons, List.not_mem_nil, or_false] at hd
  omega

theorem integer_ne_nil (n : Int) : text (toString n) ≠ [] := by
  intro h
  cases n with
  | ofNat n =>
    have hempty : Nat.repr n = "" := String.toList_inj.mp (List.map_eq_nil_iff.mp h)
    exact Nat.repr_ne_empty hempty
  | negSucc n =>
    rw [negative_text] at h
    cases h

/-- What the API has for a value that the engine has. -/
def Reads (num : Numbers F) (v w : Json F) : Prop := v = w ∨ ∃ n, w = .int n ∧ intOf num v = some n

theorem Reads.aligned {v w : Json F} (h : Reads num v w) : Aligned (dumps num v) (dumps num w) := by
  rcases h with rfl | ⟨n, rfl, hn⟩
  · exact .rfl
  simp only [dumps]
  cases v with
  | bool b =>
    refine .of_plain ?_ (integer_plain n)
    cases b <;> simp [dumps, text, delimiters]
  | int m =>
    simp only [dumps]
    exact .of_plain (integer_plain m) (integer_plain n)
  | float x =>
    simp only [dumps]
    exact .of_plain (num.repr_plain x) (integer_plain n)
  | str s =>
    intro d _ r r' heq
    cases htext : text (toString n) with
    | nil => exact absurd htext (integer_ne_nil n)
    | cons c rest =>
      rw [htext] at heq
      have hc : 34 = c := (List.cons.inj heq).1
      have := integer_chars (n := n) (c := c) (by rw [htext]; exact List.mem_cons_self ..)
      omega
  | null => cases hn
  | list items => cases hn
  | dict members => cases hn

/-- The texts are the same just if the values are. -/
theorem Reads.dumps_eq {v w : Json F} (h : Reads num v w) : dumps num v = dumps num w ↔ v = w := by
  refine ⟨fun heq => ?_, fun heq => by rw [heq]⟩
  rcases h with rfl | ⟨n, rfl, hn⟩
  · rfl
  cases v with
  | bool b =>
    have hhead : ∀ c ∈ (dumps num (.bool b : Json F)), ∀ rest, dumps num (.bool b : Json F) = c :: rest →
        c = 45 ∨ (48 ≤ c ∧ c ≤ 57) := by
      intro c hc _ _
      rw [heq] at hc
      exact integer_chars hc
    cases b <;> simp [dumps, text] at hhead
  | int m => rw [Option.some.inj hn]
  | float x => exact absurd heq (num.repr_ne x n)
  | str s =>
    have := integer_chars (n := n) (c := 34) (by
      have hmem : 34 ∈ dumps num (.str s : Json F) := by simp [dumps, dumpsText]
      rw [heq] at hmem
      exact hmem)
    omega
  | null => cases hn
  | list items => cases hn
  | dict members => cases hn

/-! ## What the API reads of a normalized report -/

def integerKeys : List CheckKey := [.findings, .blockingFindings]

def countKeys : List ReportKey := [.changedLines, .coveredChangedLines]

/-- The integer fields of the check hold JSON integers. -/
def IntegerCheck (check : Dict CheckKey F) : Prop :=
  ∀ k ∈ integerKeys, ∀ v, check.get k = some v → ∃ n, v = .int n

/-- The integer fields of the report and of its checks hold JSON integers, or null. -/
structure IntegerReport (report : RawReport F) : Prop where
  counts : ∀ k ∈ countKeys, ∀ v, report.fields.get k = some v → v = .null ∨ ∃ n, v = .int n
  checks : ∀ items, report.checks = some items → ∀ check, some check ∈ items → IntegerCheck check

/-- A value that the API keeps, unless it is for an integer field and is not an integer. -/
structure Kept (num : Numbers F) (integer : Prop) (v w : Json F) : Prop where
  reads : Reads num v w
  same : v = w ↔ integer

theorem strField_kept (num : Numbers F) {value : Option (Json F)} {s : Text} {d : Option Text} (h : strField value d = some s)
    (hd : value = none → d = none) : ∃ v, value = some v ∧ Kept num True v (.str s) := by
  rcases value with _ | v
  · rw [strField, hd rfl] at h
    cases h
  · cases v with
    | str t =>
      obtain rfl := Option.some.inj h
      exact ⟨_, rfl, .inl rfl, by simp⟩
    | _ => cases h

theorem intOf_kept {v : Json F} {n : Int} (h : intOf num v = some n) :
    Kept num (∃ m, v = .int m) v (.int n) := by
  refine ⟨.inr ⟨n, rfl, h⟩, fun heq => ⟨n, heq⟩, ?_⟩
  rintro ⟨m, rfl⟩
  rw [Option.some.inj h]

/-- A check after normalization. -/
structure NormalCheck (check : Dict CheckKey F) : Prop where
  duration : ∃ x, check.get .durationSeconds = some (.float x)
  present : ∀ k ∈ integerKeys ++ [CheckKey.details, .reportPath], (check.get k).isSome = true

theorem statusField_kept {value : Option (Json F)} {status : CheckStatus}
    (h : statusField value = some status) : value = some (.str (text status.text)) := by
  have htext := List.find?_some h
  unfold isText at htext
  split at htext
  · rw [of_decide_eq_true htext]
  · cases htext

theorem parseCheck_some {item : Item F} {p : QualityCheck F} (h : parseCheck num item = some p) :
    ∃ check, item = some check ∧ check.others = [] ∧
      strField (check.get .name) none = some p.name ∧
      strField (check.get .category) none = some p.category ∧
      statusField (check.get .status) = some p.status ∧
      intOf num ((check.get .findings).getD (.int 0)) = some p.findings ∧
      intOf num ((check.get .blockingFindings).getD (.int 0)) = some p.blockingFindings ∧
      floatOf num ((check.get .durationSeconds).getD (.float num.zero)) = some p.durationSeconds ∧
      strField (check.get .details) (some []) = some p.details ∧
      strField (check.get .reportPath) (some []) = some p.reportPath := by
  unfold parseCheck at h
  obtain ⟨check, rfl, h⟩ := Option.bind_eq_some_iff.mp h
  rcases ite_eq_iff.mp h with ⟨-, h⟩ | ⟨hothers, h⟩
  · cases h
  obtain ⟨name, hname, h⟩ := Option.bind_eq_some_iff.mp h
  obtain ⟨category, hcategory, h⟩ := Option.bind_eq_some_iff.mp h
  obtain ⟨status, hstatus, h⟩ := Option.bind_eq_some_iff.mp h
  obtain ⟨findings, hfindings, h⟩ := Option.bind_eq_some_iff.mp h
  obtain ⟨blocking, hblocking, h⟩ := Option.bind_eq_some_iff.mp h
  obtain ⟨duration, hduration, h⟩ := Option.bind_eq_some_iff.mp h
  obtain ⟨details, hdetails, h⟩ := Option.bind_eq_some_iff.mp h
  obtain ⟨reportPath, hpath, h⟩ := Option.bind_eq_some_iff.mp h
  obtain rfl := Option.some.inj h
  exact ⟨check, rfl, by simpa using hothers, hname, hcategory, hstatus, hfindings, hblocking,
    hduration, hdetails, hpath⟩

theorem parseCheck_kept {check : Dict CheckKey F} {p : QualityCheck F} (hn : NormalCheck check)
    (hp : parseCheck num (some check) = some p) : check.others = [] ∧
      ∀ k, ∃ v w, check.get k = some v ∧ (dumpCheck p).get k = some w ∧
        Kept num (k ∈ integerKeys → ∃ m, v = .int m) v w := by
  obtain ⟨check', hcheck, hothers, hname, hcategory, hstatus, hfindings, hblocking, hduration,
    hdetails, hpath⟩ := parseCheck_some hp
  obtain rfl := Option.some.inj hcheck
  refine ⟨hothers, fun k => ?_⟩
  have hsome (k : CheckKey) (hk : k ∈ integerKeys ++ [CheckKey.details, .reportPath]) :
      ∃ v, check.get k = some v := Option.isSome_iff_exists.mp (hn.present k hk)
  have htext {value : Option (Json F)} {s : Text} {d : Option Text} (k : CheckKey) (hk : k ∉ integerKeys)
      (h : strField value d = some s) (hd : value = none → d = none) :
      ∃ v, value = some v ∧ Kept num (k ∈ integerKeys → ∃ m, v = .int m) v (.str s) := by
    obtain ⟨v, hv, hkept⟩ := strField_kept num h hd
    exact ⟨v, hv, hkept.reads, ⟨fun _ hmem => absurd hmem hk, fun _ => hkept.same.mpr trivial⟩⟩
  have hinteger {k : CheckKey} {n : Int} (hk : k ∈ integerKeys)
      (h : intOf num ((check.get k).getD (.int 0)) = some n) :
      ∃ v, check.get k = some v ∧ Kept num (k ∈ integerKeys → ∃ m, v = .int m) v (.int n) := by
    obtain ⟨v, hv⟩ := hsome k (List.mem_append_left _ hk)
    rw [hv] at h
    have hkept := intOf_kept h
    exact ⟨v, hv, hkept.reads, ⟨fun heq _ => hkept.same.mp heq, fun hi => hkept.same.mpr (hi hk)⟩⟩
  cases k with
  | name =>
    obtain ⟨v, hv, hkept⟩ := htext .name (by decide) hname fun _ => rfl
    exact ⟨v, _, hv, rfl, hkept⟩
  | category =>
    obtain ⟨v, hv, hkept⟩ := htext .category (by decide) hcategory fun _ => rfl
    exact ⟨v, _, hv, rfl, hkept⟩
  | status =>
    refine ⟨_, _, statusField_kept hstatus, rfl, .inl rfl, ⟨fun _ hmem => ?_, fun _ => rfl⟩⟩
    exact absurd hmem (by decide)
  | findings =>
    obtain ⟨v, hv, hkept⟩ := hinteger (by decide) hfindings
    exact ⟨v, _, hv, rfl, hkept⟩
  | blockingFindings =>
    obtain ⟨v, hv, hkept⟩ := hinteger (by decide) hblocking
    exact ⟨v, _, hv, rfl, hkept⟩
  | durationSeconds =>
    obtain ⟨x, hx⟩ := hn.duration
    rw [hx] at hduration
    obtain rfl : x = p.durationSeconds := Option.some.inj hduration
    exact ⟨_, _, hx, rfl, .inl rfl, ⟨fun _ hmem => absurd hmem (by decide), fun _ => rfl⟩⟩
  | details =>
    obtain ⟨v₀, hv₀⟩ := hsome .details (by decide)
    obtain ⟨v, hv, hkept⟩ := htext .details (by decide) hdetails fun hnone => by
      rw [hv₀] at hnone
      cases hnone
    exact ⟨v, _, hv, rfl, hkept⟩
  | reportPath =>
    obtain ⟨v₀, hv₀⟩ := hsome .reportPath (by decide)
    obtain ⟨v, hv, hkept⟩ := htext .reportPath (by decide) hpath fun hnone => by
      rw [hv₀] at hnone
      cases hnone
    exact ⟨v, _, hv, rfl, hkept⟩

/-- The texts of a check and of what the API has made of it. -/
theorem check_text {check : Dict CheckKey F} {p : QualityCheck F} (hn : NormalCheck check)
    (hp : parseCheck num (some check) = some p) :
    Aligned (itemText num (some check)) (itemText num (some (dumpCheck p))) ∧
      (itemText num (some check) = itemText num (some (dumpCheck p)) ↔ IntegerCheck check) := by
  obtain ⟨hothers, hkept⟩ := parseCheck_kept hn hp
  choose v w hv hw hk using hkept
  let z : List Pairing := CheckKey.all.map fun k => (text k.text, dumps num (v k), dumps num (w k))
  have hleft : check.members num CheckKey.all CheckKey.text = lefts z := by
    unfold Dict.members
    rw [hothers, dumpsValues, List.append_nil, lefts, List.map_map]
    refine List.filterMap_eq_map_iff_forall_eq_some.mpr fun k _ => ?_
    rw [hv k]
    rfl
  have hright : (dumpCheck p).members num CheckKey.all CheckKey.text = rights z := by
    unfold Dict.members
    rw [show (dumpCheck p).others = [] from rfl, dumpsValues, List.append_nil, rights, List.map_map]
    refine List.filterMap_eq_map_iff_forall_eq_some.mpr fun k _ => ?_
    rw [hw k]
    rfl
  have haligned : ∀ t ∈ z, Aligned t.2.1 t.2.2 := by
    intro t ht
    obtain ⟨k, -, rfl⟩ := List.mem_map.mp ht
    exact (hk k).reads.aligned
  have hall : ∀ k : CheckKey, k ∈ CheckKey.all := by
    intro k
    cases k <;> decide
  unfold itemText
  dsimp only
  rw [hleft, hright, object_eq_iff haligned]
  refine ⟨object_aligned haligned, ?_⟩
  constructor
  · intro heq k hmem u hu
    obtain rfl : v k = u := Option.some.inj ((hv k).symm.trans hu)
    have hdumps := heq _ (List.mem_map.mpr ⟨k, hall k, rfl⟩)
    exact (hk k).same.mp ((hk k).reads.dumps_eq.mp hdumps) hmem
  · intro hint t ht
    obtain ⟨k, -, rfl⟩ := List.mem_map.mp ht
    have hsame := (hk k).same.mpr fun hmem => hint k hmem (v k) (hv k)
    exact (hk k).reads.dumps_eq.mpr hsame

/-- What the fields are after they have been normalized. -/
structure NormalFields (fields : Dict ReportKey F) : Prop where
  percentages : ∀ k, isPercentage k = true → ∃ v, fields.get k = some v ∧ (v = .null ∨ ∃ x, v = .float x)
  present : ∀ k, (reportDefault k : Option (Json F)).isSome = true → (fields.get k).isSome = true

/-- A report after normalization. -/
structure NormalReport (report : RawReport F) : Prop extends NormalFields report.fields where
  checks : ∃ items, report.checks = some items ∧ items ≠ [] ∧
    ∀ item ∈ items, ∃ check, item = some check ∧ NormalCheck check

theorem textMembers_eq : ∀ {members : List (Text × Json F)} {l : List (Text × Text)},
    textMembers members = some l → members = l.map fun m => (m.1, .str m.2)
  | [], _, h => by
    obtain rfl := Option.some.inj h
    rfl
  | (key, v) :: members, l, h => by
    cases v with
    | str s =>
      obtain ⟨rest, hrest, rfl⟩ := Option.map_eq_some_iff.mp h
      rw [textMembers_eq hrest]
      rfl
    | _ => cases h

theorem percentField_kept {v : Json F} {r : Option F} (hv : v = .null ∨ ∃ x, v = .float x)
    (h : percentField num (some v) = some r) : v = orNull .float r := by
  rcases hv with rfl | ⟨x, rfl⟩
  · obtain rfl := Option.some.inj h
    rfl
  · obtain ⟨y, hy, rfl⟩ := Option.map_eq_some_iff.mp h
    obtain rfl : x = y := Option.some.inj (Option.filter_eq_some_iff.mp hy).1
    rfl

theorem countField_kept {v : Json F} {r : Option Int} (h : countField num (some v) = some r) :
    Kept num (v = .null ∨ ∃ n, v = .int n) v (orNull .int r) := by
  by_cases hnull : v = .null
  · subst hnull
    obtain rfl := Option.some.inj h
    exact ⟨.inl rfl, ⟨fun _ => .inl rfl, fun _ => rfl⟩⟩
  · have hsome : countField num (some v) = ((intOf num v).filter fun n => 0 ≤ n).map some := by
      cases v with
      | null => exact absurd rfl hnull
      | _ => rfl
    rw [hsome] at h
    obtain ⟨n, hn, rfl⟩ := Option.map_eq_some_iff.mp h
    have hkept := intOf_kept (Option.filter_eq_some_iff.mp hn).1
    refine ⟨hkept.reads, ⟨fun heq => .inr (hkept.same.mp heq), fun hi => hkept.same.mpr ?_⟩⟩
    exact hi.resolve_left hnull

theorem parseReport_kept {report : RawReport F} {p : QualityReportCreate F} (hn : NormalReport report)
    (hp : parseReport num report = some p) : report.fields.others = [] ∧
      (∀ k, ∃ v w, report.fields.get k = some v ∧ (modelDump p).fields.get k = some w ∧
        Kept num (k ∈ countKeys → v = .null ∨ ∃ n, v = .int n) v w) ∧
      ∃ items, report.checks = some items ∧ items.mapM (parseCheck num) = some p.checks := by
  unfold parseReport at hp
  split at hp
  · cases hp
  next hothers =>
  obtain ⟨serviceName, hservice, hp⟩ := Option.bind_eq_some_iff.mp hp
  obtain ⟨repository, hrepository, hp⟩ := Option.bind_eq_some_iff.mp hp
  obtain ⟨commitSha, hcommit, hp⟩ := Option.bind_eq_some_iff.mp hp
  obtain ⟨branch, hbranch, hp⟩ := Option.bind_eq_some_iff.mp hp
  obtain ⟨profile, hprofile, hp⟩ := Option.bind_eq_some_iff.mp hp
  obtain ⟨url, hurl, hp⟩ := Option.bind_eq_some_iff.mp hp
  obtain ⟨generatedAt, hgenerated, hp⟩ := Option.bind_eq_some_iff.mp hp
  obtain ⟨coverage, hcoverage, hp⟩ := Option.bind_eq_some_iff.mp hp
  obtain ⟨threshold, hthreshold, hp⟩ := Option.bind_eq_some_iff.mp hp
  obtain ⟨version, hversion, hp⟩ := Option.bind_eq_some_iff.mp hp
  obtain ⟨baseSha, hbase, hp⟩ := Option.bind_eq_some_iff.mp hp
  obtain ⟨differential, hdifferential, hp⟩ := Option.bind_eq_some_iff.mp hp
  obtain ⟨differentialThreshold, hdthreshold, hp⟩ := Option.bind_eq_some_iff.mp hp
  obtain ⟨changed, hchanged, hp⟩ := Option.bind_eq_some_iff.mp hp
  obtain ⟨covered, hcovered, hp⟩ := Option.bind_eq_some_iff.mp hp
  obtain ⟨versions, hversions, hp⟩ := Option.bind_eq_some_iff.mp hp
  obtain ⟨items, hitems, hp⟩ := Option.bind_eq_some_iff.mp hp
  obtain ⟨checks, hchecks, hp⟩ := Option.bind_eq_some_iff.mp hp
  split at hp
  · cases hp
  obtain rfl := Option.some.inj hp
  have hothers' : report.fields.others = [] := by simpa using hothers
  refine ⟨hothers', fun k => ?_, items, hitems, hchecks⟩
  have hsome (k : ReportKey) (hk : (reportDefault k : Option (Json F)).isSome = true) :
      ∃ v, report.fields.get k = some v := Option.isSome_iff_exists.mp (hn.present k hk)
  have htext {s : Text} {d : Option Text} (k : ReportKey) (hk : k ∉ countKeys)
      (h : strField (report.fields.get k) d = some s) (hd : report.fields.get k = none → d = none) :
      ∃ v, report.fields.get k = some v ∧
        Kept num (k ∈ countKeys → v = .null ∨ ∃ n, v = .int n) v (.str s) := by
    obtain ⟨v, hv, hkept⟩ := strField_kept num h hd
    exact ⟨v, hv, hkept.reads, ⟨fun _ hmem => absurd hmem hk, fun _ => hkept.same.mpr trivial⟩⟩
  have hdefault {s : Text} {d : Option Text} (k : ReportKey) (hk : k ∉ countKeys)
      (hdef : (reportDefault k : Option (Json F)).isSome = true)
      (h : strField (report.fields.get k) d = some s) :
      ∃ v, report.fields.get k = some v ∧
        Kept num (k ∈ countKeys → v = .null ∨ ∃ n, v = .int n) v (.str s) := by
    refine htext k hk h fun hnone => ?_
    obtain ⟨v, hv⟩ := hsome k hdef
    rw [hv] at hnone
    cases hnone
  have hpercent {r : Option F} (k : ReportKey) (hk : k ∉ countKeys) (hper : isPercentage k = true)
      (h : percentField num (report.fields.get k) = some r) :
      ∃ v, report.fields.get k = some v ∧
        Kept num (k ∈ countKeys → v = .null ∨ ∃ n, v = .int n) v (orNull .float r) := by
    obtain ⟨v, hv, hshape⟩ := hn.percentages k hper
    rw [hv] at h
    have heq := percentField_kept hshape h
    exact ⟨v, hv, .inl heq, ⟨fun _ hmem => absurd hmem hk, fun _ => heq⟩⟩
  have hcount {r : Option Int} (k : ReportKey) (hk : k ∈ countKeys)
      (hdef : (reportDefault k : Option (Json F)).isSome = true)
      (h : countField num (report.fields.get k) = some r) :
      ∃ v, report.fields.get k = some v ∧
        Kept num (k ∈ countKeys → v = .null ∨ ∃ n, v = .int n) v (orNull .int r) := by
    obtain ⟨v, hv⟩ := hsome k hdef
    rw [hv] at h
    have hkept := countField_kept h
    exact ⟨v, hv, hkept.reads, ⟨fun heq _ => hkept.same.mp heq, fun hi => hkept.same.mpr (hi hk)⟩⟩
  cases k with
  | baseSha =>
    obtain ⟨v, hv, hkept⟩ := hdefault .baseSha (by decide) rfl hbase
    exact ⟨v, _, hv, rfl, hkept⟩
  | branch =>
    obtain ⟨v, hv, hkept⟩ := hdefault .branch (by decide) rfl hbranch
    exact ⟨v, _, hv, rfl, hkept⟩
  | changedLines =>
    obtain ⟨v, hv, hkept⟩ := hcount .changedLines (by decide) rfl hchanged
    exact ⟨v, _, hv, rfl, hkept⟩
  | commitSha =>
    obtain ⟨v, hv, hkept⟩ := htext .commitSha (by decide) (Option.filter_eq_some_iff.mp hcommit).1 fun _ => rfl
    exact ⟨v, _, hv, rfl, hkept⟩
  | coverage =>
    obtain ⟨v, hv, hkept⟩ := hpercent .coverage (by decide) rfl hcoverage
    exact ⟨v, _, hv, rfl, hkept⟩
  | coverageThreshold =>
    obtain ⟨v, hv, hkept⟩ := hpercent .coverageThreshold (by decide) rfl hthreshold
    exact ⟨v, _, hv, rfl, hkept⟩
  | coveredChangedLines =>
    obtain ⟨v, hv, hkept⟩ := hcount .coveredChangedLines (by decide) rfl hcovered
    exact ⟨v, _, hv, rfl, hkept⟩
  | differentialCoverage =>
    obtain ⟨v, hv, hkept⟩ := hpercent .differentialCoverage (by decide) rfl hdifferential
    exact ⟨v, _, hv, rfl, hkept⟩
  | differentialThreshold =>
    obtain ⟨v, hv, hkept⟩ := hpercent .differentialThreshold (by decide) rfl hdthreshold
    exact ⟨v, _, hv, rfl, hkept⟩
  | generatedAt =>
    obtain ⟨v, hv, hkept⟩ := htext .generatedAt (by decide) hgenerated fun _ => rfl
    exact ⟨v, _, hv, rfl, hkept⟩
  | policyVersion =>
    obtain ⟨v, hv, hkept⟩ := hdefault .policyVersion (by decide) rfl hversion
    exact ⟨v, _, hv, rfl, hkept⟩
  | profile =>
    obtain ⟨v, hv, hkept⟩ := htext .profile (by decide) (Option.filter_eq_some_iff.mp hprofile).1 fun _ => rfl
    exact ⟨v, _, hv, rfl, hkept⟩
  | repository =>
    obtain ⟨v, hv, hkept⟩ := htext .repository (by decide) (Option.filter_eq_some_iff.mp hrepository).1 fun _ => rfl
    exact ⟨v, _, hv, rfl, hkept⟩
  | serviceName =>
    obtain ⟨v, hv, hkept⟩ := htext .serviceName (by decide) (Option.filter_eq_some_iff.mp hservice).1 fun _ => rfl
    exact ⟨v, _, hv, rfl, hkept⟩
  | toolVersions =>
    obtain ⟨v, hv⟩ := hsome .toolVersions rfl
    rw [hv] at hversions
    cases v with
    | dict members =>
      have heq := textMembers_eq hversions
      refine ⟨_, _, hv, rfl, .inl (congrArg Json.dict heq), ⟨fun _ hmem => absurd hmem (by decide), ?_⟩⟩
      exact fun _ => congrArg Json.dict heq
    | _ => cases hversions
  | workflowRunUrl =>
    obtain ⟨v, hv, hkept⟩ := hdefault .workflowRunUrl (by decide) rfl hurl
    exact ⟨v, _, hv, rfl, hkept⟩

theorem items_text : ∀ {items : List (Item F)} {checks : List (QualityCheck F)},
    (∀ item ∈ items, ∃ check, item = some check ∧ NormalCheck check) →
    items.mapM (parseCheck num) = some checks →
    List.Forall₂ Aligned (items.map (itemText num))
        ((checks.map fun check => some (dumpCheck check)).map (itemText num)) ∧
      (items.map (itemText num) = (checks.map fun check => some (dumpCheck check)).map (itemText num) ↔
        ∀ check, some check ∈ items → IntegerCheck check)
  | [], checks, _, h => by
    obtain rfl : ([] : List (QualityCheck F)) = checks := Option.some.inj h
    exact ⟨.nil, by simp⟩
  | item :: items, checks, hn, h => by
    rw [List.mapM_cons] at h
    obtain ⟨p, hp, h⟩ := Option.bind_eq_some_iff.mp h
    obtain ⟨rest, hrest, h⟩ := Option.bind_eq_some_iff.mp h
    obtain rfl := Option.some.inj h
    obtain ⟨check, rfl, hcheck⟩ := hn item (List.mem_cons_self ..)
    obtain ⟨haligned, htext⟩ := check_text hcheck hp
    obtain ⟨hall, hiff⟩ := items_text (fun i hi => hn i (List.mem_cons_of_mem _ hi)) hrest
    refine ⟨.cons haligned hall, ?_⟩
    simp only [List.map_cons, List.cons.injEq, htext, hiff]
    constructor
    · rintro ⟨hhead, htail⟩ c hc
      rcases List.mem_cons.mp hc with hc | hc
      · obtain rfl := Option.some.inj hc
        exact hhead
      · exact htail c hc
    · intro hint
      exact ⟨hint check (List.mem_cons_self ..), fun c hc => hint c (List.mem_cons_of_mem _ hc)⟩

/-- The text that the engine hashes is the one that the API hashes just if the integer fields hold
integers. -/
theorem report_text {report : RawReport F} {p : QualityReportCreate F} (hn : NormalReport report)
    (hp : parseReport num report = some p) :
    reportText num report = reportText num (modelDump p) ↔ IntegerReport report := by
  obtain ⟨hothers, hkept, items, hitems, hparsed⟩ := parseReport_kept hn hp
  obtain ⟨items', hitems', -, hnormal⟩ := hn.checks
  obtain rfl : items = items' := Option.some.inj (hitems.symm.trans hitems')
  obtain ⟨hchecks, hchecksEq⟩ := items_text hnormal hparsed
  choose v w hv hw hk using hkept
  let z : List Pairing := ReportKey.all.map (fun k => (text k.text, dumps num (v k), dumps num (w k))) ++
    [(text "checks", array (items.map (itemText num)),
      array ((p.checks.map fun check => some (dumpCheck check)).map (itemText num)))]
  have hleft : reportText num report = object (lefts z) := by
    unfold reportText Dict.members
    rw [hothers, dumpsValues, List.append_nil, hitems, lefts, List.map_append, List.map_map]
    refine congrArg (fun l => object (l ++ _)) ?_
    refine List.filterMap_eq_map_iff_forall_eq_some.mpr fun k _ => ?_
    rw [hv k]
    rfl
  have hright : reportText num (modelDump p) = object (rights z) := by
    unfold reportText Dict.members
    rw [show (modelDump p).fields.others = [] from rfl, dumpsValues, List.append_nil, rights,
      List.map_append, List.map_map]
    refine congrArg (fun l => object (l ++ _)) ?_
    refine List.filterMap_eq_map_iff_forall_eq_some.mpr fun k _ => ?_
    rw [hw k]
    rfl
  have haligned : ∀ t ∈ z, Aligned t.2.1 t.2.2 := by
    intro t ht
    rcases List.mem_append.mp ht with ht | ht
    · obtain ⟨k, -, rfl⟩ := List.mem_map.mp ht
      exact (hk k).reads.aligned
    · obtain rfl := List.mem_singleton.mp ht
      exact .array hchecks
  have hall : ∀ k : ReportKey, k ∈ ReportKey.all := by
    intro k
    cases k <;> decide
  rw [hleft, hright, object_eq_iff haligned]
  constructor
  · intro heq
    refine ⟨fun k hmem u hu => ?_, fun items' hi => ?_⟩
    · obtain rfl : v k = u := Option.some.inj ((hv k).symm.trans hu)
      have hdumps := heq _ (List.mem_append_left _ (List.mem_map.mpr ⟨k, hall k, rfl⟩))
      exact (hk k).same.mp ((hk k).reads.dumps_eq.mp hdumps) hmem
    · obtain rfl : items = items' := Option.some.inj (hitems.symm.trans hi)
      have harray := heq _ (List.mem_append_right _ (List.mem_singleton_self _))
      exact hchecksEq.mp (array_inj hchecks harray)
  · intro hint t ht
    rcases List.mem_append.mp ht with ht | ht
    · obtain ⟨k, -, rfl⟩ := List.mem_map.mp ht
      have hsame := (hk k).same.mpr fun hmem => hint.counts k hmem (v k) (hv k)
      exact (hk k).reads.dumps_eq.mpr hsame
    · obtain rfl := List.mem_singleton.mp ht
      exact congrArg array (hchecksEq.mpr (hint.checks items hitems))

/-! ## Normalization -/

theorem mapM_ok {α β : Type} {f : α → Except Raised β} : ∀ {l : List α} {l' : List β},
    l.mapM f = .ok l' ↔ List.Forall₂ (fun a b => f a = .ok b) l l'
  | [], l' => by
    constructor
    · intro h
      obtain rfl : ([] : List β) = l' := Except.ok.inj h
      exact .nil
    · rintro ⟨⟩
      rfl
  | a :: l, l' => by
    rw [List.mapM_cons]
    constructor
    · intro h
      cases ha : f a with
      | error x =>
        rw [ha] at h
        cases h
      | ok b =>
        cases hl : l.mapM f with
        | error x =>
          rw [ha, hl] at h
          cases h
        | ok rest =>
          rw [ha, hl] at h
          obtain rfl : b :: rest = l' := Except.ok.inj h
          exact .cons ha (mapM_ok.mp hl)
    · rintro (_ | ⟨ha, hl⟩)
      rw [ha, mapM_ok.mpr hl]
      rfl

theorem percentage_of_ne {v : Json F} (h : v ≠ .null) : percentage num v = (toFloat num v).map .float := by
  cases v with
  | null => exact absurd rfl h
  | _ => rfl

theorem percentage_spec {v u : Json F} (h : percentage num v = some u) : u = .null ∨ ∃ x, u = .float x := by
  by_cases hnull : v = .null
  · subst hnull
    obtain rfl := Option.some.inj h
    exact .inl rfl
  · rw [percentage_of_ne hnull] at h
    obtain ⟨x, -, rfl⟩ := Option.map_eq_some_iff.mp h
    exact .inr ⟨x, rfl⟩

theorem percentage_normal {u : Json F} (h : u = .null ∨ ∃ x, u = .float x) : percentage num u = some u := by
  rcases h with rfl | ⟨x, rfl⟩
  · rfl
  · rfl

theorem percentage_default {k : ReportKey} (h : isPercentage k = true) :
    (reportDefault k : Option (Json F)) = some .null := by
  cases k <;> first | rfl | cases h

theorem normalizeFields_spec {fields normal : Dict ReportKey F}
    (h : normalizeFields num fields = .ok normal) : NormalFields normal ∧
      (∀ k, isPercentage k = false → normal.get k = (fields.get k).or (reportDefault k)) := by
  unfold normalizeFields at h
  split_ifs at h with hall
  cases h
  have hconvert : ∀ k, isPercentage k = true → ∀ v, fields.get k = some v →
      ∃ u, percentage num v = some u := by
    intro k hk v hv
    have hmem : k ∈ ReportKey.all := by cases k <;> decide
    have hk' := List.all_eq_true.mp hall k hmem
    rw [hk, hv] at hk'
    exact Option.isSome_iff_exists.mp (by simpa using hk')
  refine ⟨⟨fun k hk => ?_, fun k hk => ?_⟩, fun k hk => ?_⟩
  · dsimp only
    rw [percentage_default hk]
    cases hv : fields.get k with
    | none => exact ⟨.null, rfl, .inl rfl⟩
    | some v =>
      obtain ⟨u, hu⟩ := hconvert k hk v hv
      refine ⟨u, ?_, percentage_spec hu⟩
      rw [Option.bind_some, if_pos hk, hu]
      rfl
  · obtain ⟨d, hd⟩ := Option.isSome_iff_exists.mp hk
    dsimp only
    rw [hd]
    cases (fields.get k).bind fun v => if isPercentage k = true then percentage num v else some v <;> rfl
  · dsimp only
    rw [hk]
    cases fields.get k <;> rfl

theorem normalizeFields_normal {fields : Dict ReportKey F} (h : NormalFields fields) :
    normalizeFields num fields = .ok fields := by
  unfold normalizeFields
  have hall : (ReportKey.all.all fun k => !isPercentage k ||
      (fields.get k).all fun v => (percentage num v).isSome) = true := by
    rw [List.all_eq_true]
    intro k _
    cases hk : isPercentage k with
    | false => rfl
    | true =>
      obtain ⟨v, hv, hshape⟩ := h.percentages k hk
      rw [hv]
      simp [percentage_normal hshape]
  rw [if_pos hall]
  have hget : (fun k => ((fields.get k).bind fun v =>
      if isPercentage k then percentage num v else some v).or (reportDefault k)) = fields.get := by
    funext k
    cases hk : isPercentage k with
    | true =>
      obtain ⟨v, hv, hshape⟩ := h.percentages k hk
      rw [hv, Option.bind_some, if_pos rfl, percentage_normal hshape]
      rfl
    | false =>
      cases hv : fields.get k with
      | some v => rfl
      | none =>
        cases hd : (reportDefault k : Option (Json F)) with
        | none => rfl
        | some d =>
          have := h.present k (by rw [hd]; rfl)
          rw [hv] at this
          cases this
  rw [hget]

theorem normalizeCheck_spec {item normal : Item F} (h : normalizeCheck num item = .ok normal) :
    ∃ check check', item = some check ∧ normal = some check' ∧ NormalCheck check' ∧
      ∀ k, k ≠ .durationSeconds → check'.get k = (check.get k).or (checkDefault k) := by
  cases item with
  | none => cases h
  | some check =>
    unfold normalizeCheck at h
    dsimp only at h
    split at h
    · cases h
    next duration _ =>
    obtain rfl := Except.ok.inj h
    refine ⟨check, _, rfl, rfl, ⟨⟨duration, rfl⟩, fun k hk => ?_⟩, fun k hk => if_neg hk⟩
    have hdefault : k ≠ .durationSeconds ∧ (checkDefault k : Option (Json F)).isSome = true := by
      cases k <;> first | exact ⟨by decide, rfl⟩ | exact absurd hk (by decide)
    dsimp only
    rw [if_neg hdefault.1]
    cases check.get k with
    | some v => rfl
    | none => exact hdefault.2

theorem normalizeCheck_normal {check : Dict CheckKey F} (h : NormalCheck check) :
    normalizeCheck num (some check) = .ok (some check) := by
  obtain ⟨x, hx⟩ := h.duration
  have hget : (fun k => if k = .durationSeconds then some (.float x)
      else (check.get k).or (checkDefault k)) = check.get := by
    funext k
    by_cases hk : k = .durationSeconds
    · rw [if_pos hk, hk, hx]
    rw [if_neg hk]
    cases hv : check.get k with
    | some v => rfl
    | none =>
      have habsent : k ∉ integerKeys ++ [CheckKey.details, .reportPath] := by
        intro hmem
        have := h.present k hmem
        rw [hv] at this
        cases this
      cases k <;> first | rfl | exact absurd (by decide) habsent
  unfold normalizeCheck
  dsimp only
  rw [hx]
  dsimp only [Option.getD, toFloat]
  rw [hget]

theorem normal_integerCheck {check check' : Dict CheckKey F}
    (h : ∀ k, k ≠ .durationSeconds → check'.get k = (check.get k).or (checkDefault k)) :
    IntegerCheck check' ↔ IntegerCheck check := by
  have hkey (k : CheckKey) (hk : k ∈ integerKeys) : (∀ v, check'.get k = some v → ∃ n, v = .int n) ↔
      ∀ v, check.get k = some v → ∃ n, v = .int n := by
    have hd : k ≠ .durationSeconds ∧ (checkDefault k : Option (Json F)) = some (.int 0) := by
      cases k <;> first | exact ⟨by decide, rfl⟩ | exact absurd hk (by decide)
    rw [h k hd.1, hd.2]
    cases check.get k with
    | some v => exact Iff.rfl
    | none =>
      refine ⟨fun _ v hv => (by cases hv), fun _ v hv => ⟨0, ?_⟩⟩
      exact (Option.some.inj hv).symm
  exact ⟨fun hi k hk => (hkey k hk).mp (hi k hk), fun hi k hk => (hkey k hk).mpr (hi k hk)⟩

theorem normal_isFailed {item normal : Item F} (h : normalizeCheck num item = .ok normal) :
    isFailed normal = isFailed item := by
  obtain ⟨check, check', rfl, rfl, -, hget⟩ := normalizeCheck_spec h
  have hstatus := hget .status (by decide)
  unfold isFailed
  dsimp only
  rw [hstatus]
  cases check.get .status <;> rfl

theorem normalize_items {items normal : List (Item F)}
    (h : List.Forall₂ (fun item item' => normalizeCheck num item = .ok item') items normal) :
    (∀ item ∈ normal, ∃ check, item = some check ∧ NormalCheck check) ∧
      normal.any isFailed = items.any isFailed ∧
      ((∀ check, some check ∈ normal → IntegerCheck check) ↔ ∀ check, some check ∈ items → IntegerCheck check) := by
  induction h with
  | nil => exact ⟨fun _ h => absurd h List.not_mem_nil, rfl, Iff.rfl⟩
  | @cons item item' items normal hitem _ ih =>
    obtain ⟨hnormal, hfailed, hinteger⟩ := ih
    have hsame := normal_isFailed hitem
    obtain ⟨check, check', rfl, rfl, hcheck, hget⟩ := normalizeCheck_spec hitem
    have hhead := normal_integerCheck hget
    refine ⟨?_, ?_, ?_⟩
    · intro item' hmem
      rcases List.mem_cons.mp hmem with rfl | hmem
      · exact ⟨check', rfl, hcheck⟩
      · exact hnormal item' hmem
    · rw [List.any_cons, List.any_cons, hsame, hfailed]
    · simp only [List.mem_cons, Option.some.injEq, forall_eq_or_imp]
      rw [hhead, hinteger]

theorem normalizeReport_spec {report normal : RawReport F} (h : normalizeReport num report = .ok normal) :
    NormalReport normal ∧ anyFailed normal.checks = anyFailed report.checks ∧
      (IntegerReport normal ↔ IntegerReport report) := by
  unfold normalizeReport at h
  obtain ⟨fields, hfields, h⟩ := Interleave.bind_ok.mp h
  obtain ⟨hnormal, hget⟩ := normalizeFields_spec hfields
  split at h
  · cases h
  · cases h
  next item items hchecks =>
  obtain ⟨checks, hmap, h⟩ := Interleave.bind_ok.mp h
  obtain rfl := Except.ok.inj h
  have hall := mapM_ok.mp hmap
  obtain ⟨hchecked, hfailed, hinteger⟩ := normalize_items hall
  have hne : checks ≠ [] := by
    rintro rfl
    cases hall
  refine ⟨⟨hnormal, checks, rfl, hne, hchecked⟩, ?_, ?_⟩
  · rw [hchecks]
    exact hfailed
  have hcounts : (∀ k ∈ countKeys, ∀ v, fields.get k = some v → v = .null ∨ ∃ n, v = .int n) ↔
      ∀ k ∈ countKeys, ∀ v, report.fields.get k = some v → v = .null ∨ ∃ n, v = .int n := by
    refine forall₂_congr fun k hk => ?_
    have hk' : isPercentage k = false ∧ (reportDefault k : Option (Json F)) = some .null := by
      cases k <;> first | exact ⟨rfl, rfl⟩ | exact absurd hk (by decide)
    rw [hget k hk'.1, hk'.2]
    cases report.fields.get k with
    | some v => exact Iff.rfl
    | none =>
      refine ⟨fun _ v hv => (by cases hv), fun _ v hv => .inl ?_⟩
      exact (Option.some.inj hv).symm
  constructor
  · intro hi
    refine ⟨hcounts.mp hi.counts, fun items' hitems' => ?_⟩
    obtain rfl := Option.some.inj (hchecks.symm.trans hitems')
    exact hinteger.mp (hi.checks checks rfl)
  · intro hi
    refine ⟨hcounts.mpr hi.counts, fun items' hitems' => ?_⟩
    obtain rfl := Option.some.inj hitems'
    exact hinteger.mpr (hi.checks _ hchecks)

theorem normalizeReport_normal {report : RawReport F} (h : NormalReport report) :
    normalizeReport num report = .ok report := by
  obtain ⟨items, hitems, hne, hnormal⟩ := h.checks
  have hmap : items.mapM (normalizeCheck num) = .ok items := by
    refine mapM_ok.mpr (List.forall₂_same.mpr fun item hitem => ?_)
    obtain ⟨check, rfl, hcheck⟩ := hnormal item hitem
    exact normalizeCheck_normal hcheck
  obtain ⟨fields, checks⟩ := report
  obtain rfl : checks = some items := hitems
  unfold normalizeReport
  refine Interleave.bind_ok.mpr ⟨fields, normalizeFields_normal h.toNormalFields, ?_⟩
  cases items with
  | nil => exact absurd rfl hne
  | cons item items => exact Interleave.bind_ok.mpr ⟨_, hmap, rfl⟩

/-! ## The run of the quality step -/

theorem checkOf_integer (name category status : Text) (findings blocking : Int) (duration : F)
    (details : Text) : IntegerCheck (checkOf name category status findings blocking duration details) := by
  intro k hk v hv
  cases k with
  | findings => exact ⟨findings, (Option.some.inj hv).symm⟩
  | blockingFindings => exact ⟨blocking, (Option.some.inj hv).symm⟩
  | _ => exact absurd hk (by decide)

theorem externalCheck_same {file : Option (External F)} {check : Dict CheckKey F}
    (h : externalCheck num file = .ok check) : ∃ value, file = some value ∧ value.check = check := by
  cases file with
  | none => cases h
  | some value =>
    rcases ite_eq_iff.mp h with ⟨-, h⟩ | ⟨-, h⟩
    · cases h
    · exact ⟨value, rfl, Except.ok.inj h⟩

/-- The checks that the container smoke test adds. -/
def Smoke (num : Numbers F) (input : Inputs F) (smoke : List (Item F)) : Prop :=
  (input.profile.containerSmoke = false ∧ smoke = []) ∨
    input.profile.containerSmoke = true ∧ ∃ value, input.external = .ok (some value) ∧
      externalCheck num (some value) = .ok value.check ∧ smoke = [some value.check]

theorem assembled_spec {input : Inputs F} {report : RawReport F} (h : assembled num input = .ok report) :
    ∃ gate items smoke, gateReport num input = .ok gate ∧ gate.checks = some items ∧ Smoke num input smoke ∧
      report = { gate with
        checks := some (items ++
          input.profile.extra.map (fun extra => some (extraCheck extra (input.outcomes extra))) ++ smoke ++
          [some (integrityCheck num input.clean)]) } := by
  unfold assembled at h
  obtain ⟨gate, hgate, h⟩ := Interleave.bind_ok.mp h
  cases hitems : gate.checks with
  | none =>
    rw [hitems] at h
    cases h
  | some items =>
    rw [hitems] at h
    obtain ⟨smoke, hsmoke, h⟩ := Interleave.bind_ok.mp h
    refine ⟨gate, items, smoke, hgate, hitems, ?_, (Except.ok.inj h).symm⟩
    split at hsmoke
    next hc =>
      obtain ⟨file, hfile, hsmoke⟩ := Interleave.bind_ok.mp hsmoke
      obtain ⟨check, hcheck, hsmoke⟩ := Interleave.bind_ok.mp hsmoke
      obtain ⟨value, rfl, rfl⟩ := externalCheck_same hcheck
      exact .inr ⟨hc, value, hfile, hcheck, (Except.ok.inj hsmoke).symm⟩
    next hc =>
      exact .inl ⟨by simpa using hc, (Except.ok.inj hsmoke).symm⟩

/-- The gate's report, and the file of the container smoke test if there is one, hold JSON integers
where the API's model has integers. -/
structure IntegerInput (num : Numbers F) (input : Inputs F) : Prop where
  gate : ∀ report, gateReport num input = .ok report → IntegerReport report
  external : input.profile.containerSmoke = true →
    ∀ value, input.external = .ok (some value) → IntegerCheck value.check

theorem assembled_integer {input : Inputs F} {report : RawReport F} (h : assembled num input = .ok report) :
    IntegerReport report ↔ IntegerInput num input := by
  obtain ⟨gate, items, smoke, hgate, hitems, hsmoke, rfl⟩ := assembled_spec h
  constructor
  · intro hi
    refine ⟨fun gate' hgate' => ?_, fun hc value hvalue => ?_⟩
    · obtain rfl := Except.ok.inj (hgate.symm.trans hgate')
      refine ⟨hi.counts, fun items' hitems' check hmem => ?_⟩
      obtain rfl := Option.some.inj (hitems.symm.trans hitems')
      exact hi.checks _ rfl check (by simp [hmem])
    · rcases hsmoke with ⟨hc', -⟩ | ⟨-, value', hvalue', -, rfl⟩
      · rw [hc] at hc'
        cases hc'
      · obtain rfl := Option.some.inj (Except.ok.inj (hvalue.symm.trans hvalue'))
        exact hi.checks _ rfl value.check (by simp)
  · intro hi
    have hgated := hi.gate gate hgate
    refine ⟨hgated.counts, fun items' hitems' check hmem => ?_⟩
    obtain rfl := Option.some.inj hitems'
    rcases List.mem_append.mp hmem with hmem | hmem
    · rcases List.mem_append.mp hmem with hmem | hmem
      · rcases List.mem_append.mp hmem with hmem | hmem
        · exact hgated.checks items hitems check hmem
        · obtain ⟨extra, -, heq⟩ := List.mem_map.mp hmem
          obtain rfl := Option.some.inj heq
          exact checkOf_integer _ _ _ _ _ _ _
      · rcases hsmoke with ⟨-, rfl⟩ | ⟨hc, value, hvalue, -, rfl⟩
        · cases hmem
        · obtain rfl := Option.some.inj (List.mem_singleton.mp hmem)
          exact hi.external hc value hvalue
    · obtain rfl := Option.some.inj (List.mem_singleton.mp hmem)
      exact checkOf_integer _ _ _ _ _ _ _

/-- If the gate has failed, a check of its report has. -/
theorem gate_failed {input : Inputs F} {report : RawReport F} (h : assembled num input = .ok report)
    (hg : gateReturncode input.gate ≠ 0) : anyFailed report.checks = true := by
  obtain ⟨gate, items, smoke, hgate, hitems, -, rfl⟩ := assembled_spec h
  have hany : items.any isFailed = true := by
    unfold gateReport at hgate
    cases hi : input.gate with
    | timedOut =>
      rw [hi] at hgate
      obtain rfl := Except.ok.inj hgate
      obtain rfl := Option.some.inj hitems
      rfl
    | ended file =>
      rw [hi] at hgate hg
      cases file with
      | none => cases hgate
      | some report =>
        obtain rfl := Except.ok.inj hgate
        by_contra hnone
        refine hg (if_neg ?_)
        rw [Option.bind_some, hitems]
        exact hnone
  obtain ⟨item, hmem, hfailed⟩ := List.any_eq_true.mp hany
  exact List.any_eq_true.mpr ⟨item, by simp [hmem], hfailed⟩

theorem encode_same {s t : Text} (h : encode s = .ok t) : t = s := by
  unfold encode at h
  split at h
  · cases h
  · exact (Except.ok.inj h).symm

theorem engineHash_ok {digest : Text → Text} {report : RawReport F} {hash : Text} (hn : NormalReport report)
    (h : engineHash num digest report = .ok hash) :
    encode (reportText num report) = .ok (reportText num report) ∧ hash = digest (reportText num report) := by
  unfold engineHash at h
  obtain ⟨normal, hnormal, h⟩ := Interleave.bind_ok.mp h
  obtain rfl := Except.ok.inj ((normalizeReport_normal hn).symm.trans hnormal)
  obtain ⟨encoded, hencoded, h⟩ := Interleave.bind_ok.mp h
  have hsame := encode_same hencoded
  rw [hsame] at hencoded h
  exact ⟨hencoded, (Except.ok.inj h).symm⟩

theorem apiHash_ok {digest : Text → Text} {payload : QualityReportCreate F} {hash : Text}
    (h : apiHash num digest payload = .ok hash) :
    encode (reportText num (modelDump payload)) = .ok (reportText num (modelDump payload)) ∧
      hash = digest (reportText num (modelDump payload)) := by
  unfold apiHash at h
  obtain ⟨encoded, hencoded, h⟩ := Interleave.bind_ok.mp h
  have hsame := encode_same hencoded
  rw [hsame] at hencoded h
  exact ⟨hencoded, (Except.ok.inj h).symm⟩

theorem validateReport_hash {digest : Text → Text} {report : RawReport F} {identity : Identity}
    {profile : Profile F} {hash : Text} (h : validateReport num digest report identity profile = .ok hash) :
    ∃ normal, normalizeReport num report = .ok normal ∧ engineHash num digest normal = .ok hash := by
  unfold validateReport at h
  obtain ⟨normal, hnormal, h⟩ := Interleave.bind_ok.mp h
  refine ⟨normal, hnormal, ?_⟩
  dsimp only at h
  split at h
  · cases h
  · obtain ⟨_, -, h⟩ := Interleave.bind_ok.mp h
    obtain ⟨_, -, h⟩ := Interleave.bind_ok.mp h
    obtain ⟨_, -, h⟩ := Interleave.bind_ok.mp h
    exact h

/-- A report is validated as it will be when it has been normalized. -/
theorem validateReport_normal {digest : Text → Text} {report normal : RawReport F} {identity : Identity}
    {profile : Profile F} (h : normalizeReport num report = .ok normal) :
    validateReport num digest normal identity profile = validateReport num digest report identity profile := by
  unfold validateReport
  rw [h, normalizeReport_normal (normalizeReport_spec h).1]

/-- What the run writes. -/
theorem runQuality_spec {digest : Text → Text} {input : Inputs F} {manifest : Manifest F}
    (h : runQuality num digest input = .ok manifest) :
    ∃ report, assembled num input = .ok report ∧
      validateReport num digest report input.identity input.profile = .ok manifest.reportHash ∧
      normalizeReport num report = .ok manifest.report ∧ manifest.schemaVersion = 1 ∧
      manifest.kind = resultKind ∧ manifest.identity = input.identity ∧
      manifest.status = if anyFailed report.checks then "quality_failed" else "quality_passed" := by
  unfold runQuality at h
  obtain ⟨report, hreport, h⟩ := Interleave.bind_ok.mp h
  obtain ⟨hash, hhash, h⟩ := Interleave.bind_ok.mp h
  obtain ⟨normal, hnormal, h⟩ := Interleave.bind_ok.mp h
  obtain rfl := Except.ok.inj h
  refine ⟨report, hreport, hhash, hnormal, rfl, rfl, rfl, ?_⟩
  have hiff : (gateReturncode input.gate ≠ 0 ∨ anyFailed report.checks = true) ↔
      anyFailed report.checks = true := or_iff_right_of_imp (gate_failed hreport)
  exact if_congr hiff rfl rfl

/-! ## The verdicts -/

theorem parseCheck_failed {item : Item F} {p : QualityCheck F} (h : parseCheck num item = some p) :
    isFailed item = decide (p.status = .failed) := by
  obtain ⟨check, rfl, -, -, -, hstatus, -⟩ := parseCheck_some h
  unfold isFailed
  dsimp only
  rw [statusField_kept hstatus]
  change decide (text p.status.text = text "FAILED") = decide (p.status = .failed)
  cases p.status <;> decide

theorem parsed_failed : ∀ {items : List (Item F)} {checks : List (QualityCheck F)},
    items.mapM (parseCheck num) = some checks →
    items.any isFailed = checks.any fun check => check.status = .failed
  | [], checks, h => by
    obtain rfl : ([] : List (QualityCheck F)) = checks := Option.some.inj h
    rfl
  | item :: items, checks, h => by
    rw [List.mapM_cons] at h
    obtain ⟨p, hp, h⟩ := Option.bind_eq_some_iff.mp h
    obtain ⟨rest, hrest, h⟩ := Option.bind_eq_some_iff.mp h
    obtain rfl := Option.some.inj h
    rw [List.any_cons, List.any_cons, parseCheck_failed hp, parsed_failed hrest]

/-- A failed check fails the gate, whatever the catalog has. -/
theorem failed_status (policy : Policy F) (below : F → F → Bool) (catalog : Option CatalogService)
    {payload : QualityReportCreate F} (h : (payload.checks.any fun check => check.status = .failed) = true) :
    apiStatus policy below catalog payload = .failed := by
  have herrors : policyErrors policy payload catalog ≠ [] := by
    have hblocking : (payload.checks.any fun check => check.status = .failed || 0 < check.blockingFindings) =
        true := by
      obtain ⟨check, hmem, hfailed⟩ := List.any_eq_true.mp h
      exact List.any_eq_true.mpr ⟨check, hmem, by simp [of_decide_eq_true hfailed]⟩
    intro hnil
    unfold policyErrors at hnil
    split at hnil
    · cases hnil
    · split at hnil
      · rw [hblocking] at hnil
        simp at hnil
      · cases hnil
  unfold apiStatus
  by_cases hversion : payload.policyVersion ≠ text "oss-v1"
  · rw [if_pos hversion, if_pos herrors]
  · rw [if_neg hversion]
    exact if_pos (.inr h)

/-! ## The seal -/

/-- The API seals what the engine has written as the engine has, `_read_manifest` takes it, and both
give the same verdict on it. -/
structure Agrees (num : Numbers F) (digest : Text → Text) (input : Inputs F) (manifest : Manifest F)
    (payload : QualityReportCreate F) : Prop where
  hash : apiHash num digest payload = .ok manifest.reportHash
  idempotent : normalizeReport num manifest.report = .ok manifest.report
  accepted : readManifest num digest input.identity input.profile manifest = .ok (manifest, manifest.status)
  verdict : manifest.status = "quality_failed" ↔ anyFailed manifest.report.checks = true
  gate : anyFailed manifest.report.checks = true →
    ∀ policy below catalog, apiStatus policy below catalog payload = .failed

theorem readManifest_ok {digest : Text → Text} {input : Inputs F} {manifest : Manifest F}
    (h : runQuality num digest input = .ok manifest) :
    readManifest num digest input.identity input.profile manifest = .ok (manifest, manifest.status) := by
  obtain ⟨report, -, hvalid, hnormal, hversion, hkind, hidentity, hstatus⟩ := runQuality_spec h
  obtain ⟨-, hfailed, -⟩ := normalizeReport_spec hnormal
  unfold readManifest
  rw [if_neg, if_neg, if_neg]
  · refine Interleave.bind_ok.mpr ⟨manifest.reportHash, (validateReport_normal hnormal).trans hvalid, ?_⟩
    rw [if_neg (fun hne => hne rfl), if_neg]
    rw [hfailed, hstatus]
    cases anyFailed report.checks <;> decide
  · rw [hstatus]
    cases anyFailed report.checks <;> decide
  · rw [hidentity]
    exact fun hne => hne rfl
  · rw [hversion, hkind, hidentity]
    rintro (hne | hne | hne) <;> exact hne rfl

theorem run_digests {digest digest' : Text → Text} {input : Inputs F} {manifest manifest' : Manifest F}
    (h : runQuality num digest input = .ok manifest) (h' : runQuality num digest' input = .ok manifest') :
    manifest.report = manifest'.report := by
  obtain ⟨report, hreport, -, hnormal, -⟩ := runQuality_spec h
  obtain ⟨report', hreport', -, hnormal', -⟩ := runQuality_spec h'
  obtain rfl := Except.ok.inj (hreport.symm.trans hreport')
  exact Except.ok.inj (hnormal.symm.trans hnormal')

/-- Whether a report is sealed does not depend on the digest. -/
theorem validateReport_digest {digest : Text → Text} {report : RawReport F} {identity : Identity}
    {profile : Profile F} {hash : Text} (h : validateReport num digest report identity profile = .ok hash)
    (digest' : Text → Text) : ∃ hash', validateReport num digest' report identity profile = .ok hash' := by
  unfold validateReport at h ⊢
  obtain ⟨normal, hnormal, h⟩ := Interleave.bind_ok.mp h
  dsimp only at h
  rcases ite_eq_iff.mp h with ⟨-, h⟩ | ⟨hsame, h⟩
  · cases h
  obtain ⟨_, hux, h⟩ := Interleave.bind_ok.mp h
  obtain ⟨_, hpostgres, h⟩ := Interleave.bind_ok.mp h
  obtain ⟨_, hsmoke, h⟩ := Interleave.bind_ok.mp h
  have hn := (normalizeReport_spec hnormal).1
  obtain ⟨hencode, -⟩ := engineHash_ok hn h
  refine ⟨digest' (reportText num normal), Interleave.bind_ok.mpr ⟨normal, hnormal, ?_⟩⟩
  dsimp only
  rw [if_neg hsame]
  refine Interleave.bind_ok.mpr ⟨_, hux, Interleave.bind_ok.mpr ⟨_, hpostgres, Interleave.bind_ok.mpr ⟨_, hsmoke, ?_⟩⟩⟩
  refine Interleave.bind_ok.mpr ⟨normal, normalizeReport_normal hn, ?_⟩
  exact Interleave.bind_ok.mpr ⟨_, hencode, rfl⟩

theorem runQuality_digest {digest : Text → Text} {input : Inputs F} {manifest : Manifest F}
    (h : runQuality num digest input = .ok manifest) (digest' : Text → Text) :
    ∃ manifest', runQuality num digest' input = .ok manifest' := by
  obtain ⟨report, hreport, hvalid, hnormal, -⟩ := runQuality_spec h
  obtain ⟨hash', hvalid'⟩ := validateReport_digest hvalid digest'
  unfold runQuality
  simp only [bind, hreport, Except.bind, hvalid', hnormal]
  exact ⟨_, rfl⟩

/-- The hash that a run writes. -/
theorem runQuality_hash {digest : Text → Text} {input : Inputs F} {manifest : Manifest F}
    (h : runQuality num digest input = .ok manifest) :
    encode (reportText num manifest.report) = .ok (reportText num manifest.report) ∧
      manifest.reportHash = digest (reportText num manifest.report) := by
  obtain ⟨report, -, hvalid, hnormal, -⟩ := runQuality_spec h
  obtain ⟨normal, hnormal', hhash⟩ := validateReport_hash hvalid
  obtain rfl := Except.ok.inj (hnormal'.symm.trans hnormal)
  exact engineHash_ok (normalizeReport_spec hnormal).1 hhash

/-- The seals of a report that the API takes are the same, with every digest, just if the gate and the
container smoke test have written integers as integers. -/
theorem seals_agree {digest₀ : Text → Text} {input : Inputs F} {manifest₀ : Manifest F}
    {payload : QualityReportCreate F} (hrun : runQuality num digest₀ input = .ok manifest₀)
    (hp : parseReport num manifest₀.report = some payload) :
    (∀ digest manifest, runQuality num digest input = .ok manifest →
      Agrees num digest input manifest payload) ↔ IntegerInput num input := by
  obtain ⟨report, hreport, -, hnormal, -⟩ := runQuality_spec hrun
  obtain ⟨hn, hfailed, hinteger⟩ := normalizeReport_spec hnormal
  have htext := report_text hn hp
  have hinput : IntegerReport manifest₀.report ↔ IntegerInput num input :=
    hinteger.trans (assembled_integer hreport)
  rw [← hinput, ← htext]
  constructor
  · intro hall
    -- with no digest at all, the hash is the text
    obtain ⟨manifest, hrun'⟩ := runQuality_digest hrun id
    obtain ⟨-, hhash⟩ := runQuality_hash hrun'
    obtain ⟨-, hapi⟩ := apiHash_ok (hall id manifest hrun').hash
    rw [run_digests hrun hrun']
    exact hhash.symm.trans hapi
  · intro heq digest manifest hrun'
    obtain ⟨hencode, hhash⟩ := runQuality_hash hrun'
    obtain ⟨report', hreport', -, hnormal', -, -, -, hstatus⟩ := runQuality_spec hrun'
    have hsame := run_digests hrun hrun'
    have hverdict : anyFailed manifest.report.checks = anyFailed report'.checks :=
      (normalizeReport_spec hnormal').2.1
    rw [hsame] at heq hn hp
    refine ⟨?_, normalizeReport_normal hn, readManifest_ok hrun', ?_, fun hany policy below catalog => ?_⟩
    · rw [heq] at hencode hhash
      unfold apiHash
      exact Interleave.bind_ok.mpr ⟨_, hencode, congrArg Except.ok hhash.symm⟩
    · rw [hstatus, hverdict]
      cases anyFailed report'.checks <;> decide
    · obtain ⟨-, -, items, hitems, hparsed⟩ := parseReport_kept hn hp
      rw [hitems] at hany
      refine failed_status policy below catalog ?_
      rw [← parsed_failed hparsed]
      exact hany

/-! ### A run of the container smoke test -/

theorem wholes_repr {n c : ℕ} (h : c ∈ text (toString n ++ ".0")) : c = 46 ∨ (48 ≤ c ∧ c ≤ 57) := by
  have hmem : c ∈ text (toString n) ∨ c ∈ text ".0" := by simpa [text] using h
  rcases hmem with h | h
  · exact .inr (digits_of_repr h)
  · have : c = 46 ∨ c = 48 := by simpa [text] using h
    omega

/-- Floats that have no fraction. -/
def wholes : Numbers ℕ where
  zero := 0
  eighty := 80
  ofInt n := if 0 ≤ n then some n.toNat else none
  ofText _ := none
  repr n := text (toString n ++ ".0")
  percent n := n ≤ 100
  whole n := some n
  parse _ := none
  parseInt _ := none
  shown _ := []
  repr_ne n m heq := by
    have hdot : 46 ∈ text (toString n ++ ".0") := by simp [text]
    rw [heq] at hdot
    have := integer_chars hdot
    omega
  repr_plain n c hc hd := by
    have := wholes_repr hc
    simp only [List.mem_cons, List.not_mem_nil, or_false] at hd
    omega

/-- The gate ran out of time; the smoke test has passed, with what it says it has found. -/
def smokeInput (findings : Json ℕ) : Inputs ℕ where
  identity :=
    { executionId := text "exec", fingerprint := text "print", serviceName := text "smarti-api",
      repository := text "org/smarti", headSha := text "abcdef0", baseSha := [],
      operation := text "main_release", profileHash := text "profile", providerRunId := text "run" }
  profile :=
    { runtime := text "python", coverageThreshold := .float 80, timeoutSeconds := 900, extra := [],
      containerSmoke := true }
  gate := .timedOut
  outcomes _ := ⟨false, 0, []⟩
  external := .ok (some
    { schemaVersion := some (.int 1)
      check :=
        { get := fun
            | .findings => some findings
            | k => (checkOf (text "API container smoke") (text "container_smoke") (text "PASSED") 0 0 3
                []).get k
          others := [] } })
  clean := true
  now := text "2026-01-01T00:00:00Z"

/-- The report of the run, and what the API reads in it. -/
def sealedBoth (digest : Text → Text) (input : Inputs ℕ) : Option (Manifest ℕ × QualityReportCreate ℕ) :=
  match runQuality wholes digest input with
  | .error _ => none
  | .ok manifest => (parseReport wholes manifest.report).map fun payload => (manifest, payload)

theorem sealedBoth_some {digest : Text → Text} {input : Inputs ℕ} {manifest : Manifest ℕ}
    {payload : QualityReportCreate ℕ} (h : sealedBoth digest input = some (manifest, payload)) :
    runQuality wholes digest input = .ok manifest ∧ parseReport wholes manifest.report = some payload := by
  unfold sealedBoth at h
  split at h
  · cases h
  next manifest' hrun =>
  obtain ⟨payload', hp, heq⟩ := Option.map_eq_some_iff.mp h
  cases heq
  exact ⟨hrun, hp⟩

/-- The two runs, evaluated together. -/
theorem sealedBoth_smoke :
    (sealedBoth id (smokeInput (.int 2))).isSome = true ∧
    (sealedBoth id (smokeInput (.bool true))).map (fun both =>
      decide (apiHash wholes id both.2 = .ok both.1.reportHash)) = some false := by
  decide +kernel

theorem seals_agree_demo : ∃ manifest payload, runQuality wholes id (smokeInput (.int 2)) = .ok manifest ∧
    parseReport wholes manifest.report = some payload ∧
    ((∀ digest manifest, runQuality wholes digest (smokeInput (.int 2)) = .ok manifest →
      Agrees wholes digest (smokeInput (.int 2)) manifest payload) ↔
        IntegerInput wholes (smokeInput (.int 2))) := by
  obtain ⟨⟨manifest, payload⟩, h⟩ := Option.isSome_iff_exists.mp sealedBoth_smoke.1
  obtain ⟨hrun, hp⟩ := sealedBoth_some h
  exact ⟨manifest, payload, hrun, hp, seals_agree hrun hp⟩

/-- A boolean number of findings is taken by the engine and by the API, which hash other texts. -/
theorem boolean_findings_break_the_seal : ∃ manifest payload,
    runQuality wholes id (smokeInput (.bool true)) = .ok manifest ∧
      parseReport wholes manifest.report = some payload ∧
      ¬Agrees wholes id (smokeInput (.bool true)) manifest payload := by
  obtain ⟨⟨manifest, payload⟩, h, hne⟩ := Option.map_eq_some_iff.mp sealedBoth_smoke.2
  obtain ⟨hrun, hp⟩ := sealedBoth_some h
  exact ⟨manifest, payload, hrun, hp, fun hagrees => of_decide_eq_false hne hagrees.hash⟩

end Seal
