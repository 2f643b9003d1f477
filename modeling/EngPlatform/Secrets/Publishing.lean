import EngPlatform.Secrets.Store
import EngPlatform.Lib.Asks
import Mathlib.Data.List.Nodup
import Mathlib.Tactic.SplitIfs

/-!
# A secret is published once, and a snapshot is of one generation

An operation is unresolved from its reservation to its `finalize`, and the document names it all that
time, so no other is reserved. Only the call that reserved it adds a version for it, and `finalize`
makes the next manifest. The documents that were saved never change, so what a snapshot has read of
one generation stays what its manifest says.
-/

set_option linter.dupNamespace false

namespace Secrets

open Interleave Discipline

/-! ## The documents -/

def Store.Unresolved (s : Store) (o : OperationId) : Prop :=
  ∃ r, s.operations o = some r ∧ r.status = .publishing

def Store.Saved (s : Store) (o : OperationId) (r : Record) : Prop :=
  s.operations o = some r ∧ r.status = .saved

/-- The versions of a generation; before the first there are none. -/
def Store.versionsAt (s : Store) (generation : ℕ) (key : String) : Option String :=
  (s.manifests generation).bind fun m => m.versions key

/-- The documents after a reservation. -/
def Store.reserved (s : Store) (o : OperationId) (request : Request) : Store :=
  { s with
    document := { s.document with activeOperation := some o }
    operations := Function.update s.operations o
      (some ⟨some (o, request), s.document.generation, .publishing, none⟩) }

def Store.savedRecord (s : Store) (o : OperationId) (version : String) : Record :=
  ⟨(s.operations o).bind Record.request, s.document.generation + 1, .saved, some version⟩

/-- The documents after an operation has been finalized. -/
def Store.finalized (s : Store) (key : String) (o : OperationId) (version : String) : Store where
  document :=
    { s.document with
      versions := Function.update s.document.versions key (some version)
      generation := s.document.generation + 1
      activeOperation := none }
  operations := Function.update s.operations o (some (s.savedRecord o version))
  manifests := Function.update s.manifests (s.document.generation + 1)
    (some ⟨Function.update s.document.versions key (some version), s.document.generation + 1⟩)

/-- A transaction of `reserve` that returns nothing has reserved; every other changes nothing. -/
theorem reserve_cases (s : Store) (o : OperationId) (request : Request) (generation : ℕ) :
    (∃ r, s.reserve o request generation = (s, r) ∧ r ≠ .ok none ∧
      ∀ previous, r = .ok (some previous) → s.Saved o previous) ∨
    s.operations o = none ∧ s.document.activeOperation = none ∧
      s.reserve o request generation = (s.reserved o request, .ok none) := by
  unfold Store.reserve
  cases ho : s.operations o with
  | some previous =>
    refine .inl ?_
    dsimp only
    cases previous.request with
    | none => exact ⟨_, rfl, nofun, by rintro _ ⟨⟩⟩
    | some first =>
      dsimp only
      split_ifs with hother hsaved
      · exact ⟨_, rfl, nofun, by rintro _ ⟨⟩⟩
      · refine ⟨_, rfl, nofun, ?_⟩
        rintro _ ⟨⟩
        exact ⟨ho, hsaved⟩
      · exact ⟨_, rfl, nofun, by rintro _ ⟨⟩⟩
  | none =>
    dsimp only
    split_ifs with hactive hgeneration
    · exact .inl ⟨_, rfl, nofun, by rintro _ ⟨⟩⟩
    · exact .inl ⟨_, rfl, nofun, by rintro _ ⟨⟩⟩
    · refine .inr ⟨rfl, by simpa using hactive, ?_⟩
      rw [Store.reserved, ← not_not.mp hgeneration]

theorem finalize_cases (s : Store) (key : String) (o : OperationId) (version : String) :
    (∃ x, s.finalize key o version = (s, .error x)) ∨
    s.document.activeOperation = some o ∧
      s.finalize key o version = (s.finalized key o version, .ok (s.savedRecord o version)) := by
  unfold Store.finalize
  split_ifs with hactive
  · exact .inl ⟨_, rfl⟩
  · exact .inr ⟨not_not.mp hactive, rfl⟩

/-- What holds of the documents in every state. -/
structure Consistent (s : Store) : Prop where
  active : ∀ o, s.document.activeOperation = some o ↔ s.Unresolved o
  named : ∀ o r, s.operations o = some r → ∃ request, r.request = some (o, request)
  saved : ∀ o r, s.Saved o r → 1 ≤ r.generation ∧ r.generation ≤ s.document.generation ∧
    ∃ request version, r.request = some (o, request) ∧ r.version = some version ∧
      s.versionsAt r.generation =
        Function.update (s.versionsAt (r.generation - 1)) request.key (some version)
  one : ∀ o o' r r', s.Saved o r → s.Saved o' r' → r.generation = r'.generation → o = o'
  each : ∀ g, 1 ≤ g → g ≤ s.document.generation → ∃ o r, s.Saved o r ∧ r.generation = g
  manifests : ∀ g, (s.manifests g).isSome = true ↔ 1 ≤ g ∧ g ≤ s.document.generation
  numbered : ∀ g m, s.manifests g = some m → m.generation = g
  current : s.document.versions = s.versionsAt s.document.generation
  filled : ∀ key version, s.document.versions key = some version → version ≠ ""

namespace Consistent

variable {s : Store} {o : OperationId}

theorem start (appliedVersions : String → Option String) : Consistent (Store.start appliedVersions) where
  active o := ⟨nofun, by rintro ⟨r, ⟨⟩, -⟩⟩
  named o r h := by cases h
  saved o r h := by cases h.1
  one o o' r r' h := by cases h.1
  each g h h' := by
    have h'' : g ≤ 0 := h'
    omega
  manifests g := by
    refine ⟨fun h => (by cases h), fun ⟨h, h'⟩ => ?_⟩
    have h'' : g ≤ 0 := h'
    omega
  numbered g m h := by cases h
  current := rfl
  filled key version h := by cases h

/-- There is at most one unresolved operation. -/
theorem unresolved (hs : Consistent s) {o o' : OperationId} (h : s.Unresolved o) (h' : s.Unresolved o') :
    o = o' :=
  Option.some.inj (((hs.active o).mpr h).symm.trans ((hs.active o').mpr h'))

theorem reserved_saved (ho : s.operations o = none) (request : Request) (o' : OperationId) (r : Record) :
    (s.reserved o request).Saved o' r ↔ s.Saved o' r := by
  by_cases heq : o' = o
  · subst heq
    constructor
    · rintro ⟨h, hr⟩
      simp only [Store.reserved, Function.update_self, Option.some.injEq] at h
      subst h
      cases hr
    · rintro ⟨h, -⟩
      rw [ho] at h
      cases h
  · simp [Store.Saved, Store.reserved, heq]

theorem reserved (hs : Consistent s) (ho : s.operations o = none)
    (ha : s.document.activeOperation = none) (request : Request) : Consistent (s.reserved o request) where
  active o' := by
    by_cases heq : o' = o
    · subst heq
      refine ⟨fun _ => ⟨_, Function.update_self .., rfl⟩, fun _ => rfl⟩
    · have hnone : ¬s.Unresolved o' := fun h => by
        have := (hs.active o').mpr h
        rw [ha] at this
        cases this
      refine ⟨fun h => absurd (Option.some.inj h).symm heq, ?_⟩
      rintro ⟨r, hr, hp⟩
      refine absurd ⟨r, ?_, hp⟩ hnone
      simpa [Store.reserved, heq] using hr
  named o' r h := by
    by_cases heq : o' = o
    · subst heq
      simp only [Store.reserved, Function.update_self, Option.some.injEq] at h
      subst h
      exact ⟨request, rfl⟩
    · simp only [Store.reserved, Function.update_of_ne heq] at h
      exact hs.named o' r h
  saved o' r h := hs.saved o' r ((reserved_saved ho request o' r).mp h)
  one o₁ o₂ r₁ r₂ h₁ h₂ :=
    hs.one o₁ o₂ r₁ r₂ ((reserved_saved ho request o₁ r₁).mp h₁) ((reserved_saved ho request o₂ r₂).mp h₂)
  each g h h' := by
    obtain ⟨o', r, hr, hg⟩ := hs.each g h h'
    exact ⟨o', r, (reserved_saved ho request o' r).mpr hr, hg⟩
  manifests := hs.manifests
  numbered := hs.numbered
  current := hs.current
  filled := hs.filled

theorem saved_ne (h : s.Unresolved o) {o' : OperationId} {r : Record} (hr : s.Saved o' r) : o' ≠ o := by
  rintro rfl
  obtain ⟨r', hr', hp⟩ := h
  obtain rfl := Option.some.inj (hr.1.symm.trans hr')
  rw [hr.2] at hp
  cases hp

theorem finalized_saved (h : s.Unresolved o) (key version : String) (o' : OperationId) (r : Record) :
    (s.finalized key o version).Saved o' r ↔
      s.Saved o' r ∨ o' = o ∧ r = s.savedRecord o version := by
  by_cases heq : o' = o
  · subst heq
    constructor
    · rintro ⟨hr, -⟩
      simp only [Store.finalized, Function.update_self, Option.some.injEq] at hr
      exact .inr ⟨rfl, hr.symm⟩
    · rintro (hr | ⟨-, rfl⟩)
      · exact absurd rfl (saved_ne h hr)
      · exact ⟨Function.update_self .., rfl⟩
  · simp [Store.Saved, Store.finalized, heq]

/-- Only the next generation gets its versions. -/
theorem finalized_versionsAt (key version : String) {g : ℕ} (hg : g ≠ s.document.generation + 1) :
    (s.finalized key o version).versionsAt g = s.versionsAt g := by
  funext key'
  simp [Store.versionsAt, Store.finalized, hg]

theorem finalized_next (key version : String) :
    (s.finalized key o version).versionsAt (s.document.generation + 1) =
      Function.update s.document.versions key (some version) := by
  funext key'
  simp [Store.versionsAt, Store.finalized]

theorem finalized (hs : Consistent s) {record : Record} {request : Request} {version : String}
    (ho : s.operations o = some record) (hp : record.status = .publishing)
    (hr : record.request = some (o, request)) (hv : version ≠ "") :
    Consistent (s.finalized request.key o version) where
  active o' := by
    refine ⟨nofun, ?_⟩
    rintro ⟨r, hr', hp'⟩
    by_cases heq : o' = o
    · subst heq
      simp only [Store.finalized, Function.update_self, Option.some.injEq] at hr'
      subst hr'
      cases hp'
    · simp only [Store.finalized, Function.update_of_ne heq] at hr'
      exact absurd (hs.unresolved ⟨r, hr', hp'⟩ ⟨record, ho, hp⟩) heq
  named o' r h := by
    by_cases heq : o' = o
    · subst heq
      simp only [Store.finalized, Function.update_self, Option.some.injEq] at h
      subst h
      exact ⟨request, by simp [Store.savedRecord, ho, hr]⟩
    · simp only [Store.finalized, Function.update_of_ne heq] at h
      exact hs.named o' r h
  saved o' r h := by
    have hle : (s.finalized request.key o version).document.generation = s.document.generation + 1 := rfl
    rcases (finalized_saved ⟨record, ho, hp⟩ request.key version o' r).mp h with h | ⟨rfl, rfl⟩
    · obtain ⟨hone, htop, request', version', hrequest, hversion, hversions⟩ := hs.saved o' r h
      refine ⟨hone, by omega, request', version', hrequest, hversion, ?_⟩
      rw [finalized_versionsAt _ _ (by omega), finalized_versionsAt _ _ (by omega)]
      exact hversions
    · have hgeneration : (s.savedRecord o' version).generation = s.document.generation + 1 := rfl
      refine ⟨by omega, by omega, request, version, by simp [Store.savedRecord, ho, hr], rfl, ?_⟩
      rw [hgeneration, finalized_next, Nat.add_sub_cancel, finalized_versionsAt _ _ (by omega), ← hs.current]
  one o₁ o₂ r₁ r₂ h₁ h₂ heq := by
    rcases (finalized_saved ⟨record, ho, hp⟩ request.key version o₁ r₁).mp h₁ with old₁ | ⟨rfl, rfl⟩ <;>
      rcases (finalized_saved ⟨record, ho, hp⟩ request.key version o₂ r₂).mp h₂ with old₂ | ⟨rfl, rfl⟩
    · exact hs.one o₁ o₂ r₁ r₂ old₁ old₂ heq
    · have := (hs.saved o₁ r₁ old₁).2.1
      have hnew : (s.savedRecord o₂ version).generation = s.document.generation + 1 := rfl
      omega
    · have := (hs.saved o₂ r₂ old₂).2.1
      have hnew : (s.savedRecord o₁ version).generation = s.document.generation + 1 := rfl
      omega
    · rfl
  each g h h' := by
    have hle : (s.finalized request.key o version).document.generation = s.document.generation + 1 := rfl
    by_cases hg : g = s.document.generation + 1
    · refine ⟨o, s.savedRecord o version, ?_, hg.symm⟩
      exact (finalized_saved ⟨record, ho, hp⟩ request.key version o _).mpr (.inr ⟨rfl, rfl⟩)
    · obtain ⟨o', r, hr', hg'⟩ := hs.each g h (by omega)
      exact ⟨o', r, (finalized_saved ⟨record, ho, hp⟩ request.key version o' r).mpr (.inl hr'), hg'⟩
  manifests g := by
    have hle : (s.finalized request.key o version).document.generation = s.document.generation + 1 := rfl
    rw [hle]
    by_cases hg : g = s.document.generation + 1
    · subst hg
      simp [Store.finalized]
    · have hold : (s.finalized request.key o version).manifests g = s.manifests g :=
        Function.update_of_ne hg ..
      rw [hold, hs.manifests g]
      omega
  numbered g m h := by
    by_cases hg : g = s.document.generation + 1
    · subst hg
      simp only [Store.finalized, Function.update_self, Option.some.injEq] at h
      subst h
      rfl
    · simp only [Store.finalized, Function.update_of_ne hg] at h
      exact hs.numbered g m h
  current := (finalized_next request.key version).symm
  filled key' version' h := by
    by_cases hkey : key' = request.key
    · subst hkey
      simp only [Store.finalized, Function.update_self, Option.some.injEq] at h
      exact h ▸ hv
    · simp only [Store.finalized, Function.update_of_ne hkey] at h
      exact hs.filled key' version' h

end Consistent

/-! ### What a step does -/

/-- Nothing that was saved changes. -/
structure Grown (s s' : Store) : Prop where
  saved : ∀ o r, s.Saved o r → s'.Saved o r
  manifests : ∀ g m, s.manifests g = some m → s'.manifests g = some m
  generation : s.document.generation ≤ s'.document.generation

theorem Grown.refl (s : Store) : Grown s s := ⟨fun _ _ h => h, fun _ _ h => h, Nat.le_refl _⟩

theorem Grown.trans {s s' s'' : Store} (h : Grown s s') (h' : Grown s' s'') : Grown s s'' where
  saved o r hr := h'.saved o r (h.saved o r hr)
  manifests g m hm := h'.manifests g m (h.manifests g m hm)
  generation := Nat.le_trans h.generation h'.generation

/-- Beside an unresolved operation no other changes, and the generation counts the operations that
are saved. -/
structure Advance (s s' : Store) : Prop where
  alone : ∀ o, s.Unresolved o → ∀ o', o' ≠ o → s'.operations o' = s.operations o'
  counted : ∀ o r, s'.Saved o r → ¬s.Saved o r → s'.document.generation = s.document.generation + 1
  single : ∀ o o' r r', s'.Saved o r → ¬s.Saved o r → s'.Saved o' r' → ¬s.Saved o' r' → o = o'
  still : (∀ o r, s'.Saved o r → s.Saved o r) → s'.document.generation = s.document.generation
  grown : Grown s s'

theorem Advance.refl (s : Store) : Advance s s where
  alone _ _ _ _ := rfl
  counted _ _ h h' := absurd h h'
  single _ _ _ _ h h' := absurd h h'
  still _ := rfl
  grown := .refl s

theorem Advance.reserved {s : Store} {o : OperationId} (hs : Consistent s) (ho : s.operations o = none)
    (ha : s.document.activeOperation = none) (request : Request) : Advance s (s.reserved o request) where
  alone o' h := by
    have := (hs.active o').mpr h
    rw [ha] at this
    cases this
  counted o' r h h' := absurd ((Consistent.reserved_saved ho request o' r).mp h) h'
  single o' _ r _ h h' := absurd ((Consistent.reserved_saved ho request o' r).mp h) h'
  still _ := rfl
  grown := ⟨fun o' r h => (Consistent.reserved_saved ho request o' r).mpr h, fun _ _ h => h, Nat.le_refl _⟩

theorem Advance.finalized {s : Store} {o : OperationId} (hs : Consistent s) (ho : s.Unresolved o)
    (key version : String) : Advance s (s.finalized key o version) where
  alone o' h other hne := by
    obtain rfl := hs.unresolved h ho
    exact Function.update_of_ne hne ..
  counted _ _ _ _ := rfl
  single o₁ o₂ r₁ r₂ h₁ hn₁ h₂ hn₂ := by
    have h₁' := ((Consistent.finalized_saved ho key version o₁ r₁).mp h₁).resolve_left hn₁
    have h₂' := ((Consistent.finalized_saved ho key version o₂ r₂).mp h₂).resolve_left hn₂
    exact h₁'.1.trans h₂'.1.symm
  still h := by
    have hnew := h o _ ((Consistent.finalized_saved ho key version o _).mpr (.inr ⟨rfl, rfl⟩))
    exact absurd rfl (Consistent.saved_ne ho hnew)
  grown :=
    { saved := fun o' r h => (Consistent.finalized_saved ho key version o' r).mpr (.inl h)
      manifests := fun g m h => by
        have hg := ((hs.manifests g).mp (by rw [h]; rfl)).2
        have hne : g ≠ s.document.generation + 1 := by omega
        exact (Function.update_of_ne hne ..).trans h
      generation := Nat.le_succ _ }

/-! ## The contract of a call -/

section Contract

variable {ι : Type}

structure Inv (w : World ι) : Prop where
  consistent : Consistent w.store
  owner : ∀ o, w.store.operations o = none → w.owner o = none
  known : ∀ o ∈ w.added, (w.store.operations o).isSome = true
  once : w.added.Nodup
  created : ∀ p ∈ w.created, p.1 ∈ w.added
  published : ∀ o r, w.store.Saved o r → ∃ name, (o, name) ∈ w.created ∧ r.version = some (lastSegment name)

/-- The operation is reserved by `i`, for that key. -/
def Reserved (i : ι) (o : OperationId) (key : String) (w : World ι) : Prop :=
  w.owner o = some i ∧ ∃ r request, w.store.operations o = some r ∧ r.status = .publishing ∧
    r.request = some (o, request) ∧ request.key = key

/-- A version is added for an operation by the call that reserved it, once, and it is finalized with
the number of a version that was made for it. -/
def Allowed (i : ι) (w : World ι) : Ask → Prop
  | .addSecretVersion o _ _ => (∃ key, Reserved i o key w) ∧ o ∉ w.added
  | .finalize o key version => Reserved i o key w ∧ version ≠ "" ∧
    ∃ name, (o, name) ∈ w.created ∧ lastSegment name = version
  | _ => True

/-- What the others leave to `i`. -/
structure Rely (i : ι) (w w' : World ι) : Prop where
  owner : ∀ o, w.owner o = some i → w'.owner o = some i
  operations : ∀ o, w.owner o = some i → w'.store.operations o = w.store.operations o
  added : ∀ o, w.owner o = some i → o ∈ w'.added → o ∈ w.added
  created : ∀ p ∈ w.created, p ∈ w'.created
  reads : w'.reads i = w.reads i
  grown : Grown w.store w'.store

theorem Rely.refl (i : ι) (w : World ι) : Rely i w w :=
  ⟨fun _ h => h, fun _ _ => rfl, fun _ _ h => h, fun _ h => h, rfl, .refl _⟩

theorem Rely.trans {i : ι} {w w' w'' : World ι} (h : Rely i w w') (h' : Rely i w' w'') : Rely i w w'' where
  owner o ho := h'.owner o (h.owner o ho)
  operations o ho := (h'.operations o (h.owner o ho)).trans (h.operations o ho)
  added o ho ha := h.added o ho (h'.added o (h.owner o ho) ha)
  created p hp := h'.created p (h.created p hp)
  reads := h'.reads.trans h.reads
  grown := h.grown.trans h'.grown

variable {i j : ι} {w w' : World ι} {o : OperationId}

theorem Reserved.known (h : Reserved i o key w) : (w.store.operations o).isSome = true := by
  obtain ⟨-, r, request, ho, -⟩ := h
  rw [ho]
  rfl

theorem Inv.added (hI : Inv w) (ho : (w.store.operations o).isSome = true) (hn : o ∉ w.added) :
    Inv (w.add o) where
  consistent := hI.consistent
  owner := hI.owner
  known o' h := by
    rcases List.mem_cons.mp h with rfl | h
    · exact ho
    · exact hI.known o' h
  once := List.nodup_cons.mpr ⟨hn, hI.once⟩
  created p hp := List.mem_cons_of_mem _ (hI.created p hp)
  published := hI.published

variable [DecidableEq ι]

/-- What a request does to the documents and to what is remembered of the operations. -/
inductive Effect (i : ι) (w : World ι) : World ι → Prop
  | idle : Effect i w w
  | reserve (o : OperationId) (request : Request) (ho : w.store.operations o = none)
      (ha : w.store.document.activeOperation = none) :
    Effect i w { w with
      store := w.store.reserved o request
      owner := Function.update w.owner o (some i) }
  | add (o : OperationId) (key : String) (hr : Reserved i o key w) (hn : o ∉ w.added) :
    Effect i w (w.add o)
  | create (o : OperationId) (name key : String) (hr : Reserved i o key w) (hn : o ∉ w.added) :
    Effect i w (w.create o name)
  | finalize (o : OperationId) (key name : String) (hr : Reserved i o key w)
      (hv : lastSegment name ≠ "") (hc : (o, name) ∈ w.created) :
    Effect i w { w with store := w.store.finalized key o (lastSegment name) }
  | read : Effect i w (w.read i)

theorem reserve_effect (w : World ι) (i : ι) (o : OperationId) (request : Request) (generation : ℕ) :
    Effect i w (w.reserve i o request generation) := by
  unfold World.reserve
  rcases reserve_cases w.store o request generation with ⟨r, hr, hne, -⟩ | ⟨ho, ha, hr⟩
  · rw [hr]
    dsimp only
    split
    · exact absurd rfl hne
    · exact .idle
  · rw [hr]
    exact .reserve o request ho ha

/-- Every allowed request has one of these effects. -/
theorem sem_effect {a : Ask} {r : a.Ans} (hal : Allowed i w a) (h : sem i w a w' r) : Effect i w w' := by
  cases a with
  | reserve o request generation =>
    rcases h with ⟨rfl, -⟩ | ⟨rfl, -⟩
    · exact .idle
    · exact reserve_effect w i o request generation
  | addSecretVersion o parent value =>
    obtain ⟨⟨key, hkey⟩, hn⟩ := hal
    rcases h with ⟨rfl, -⟩ | ⟨name, rfl, -⟩
    · exact .add o key hkey hn
    · exact .create o name key hkey hn
  | finalize o key version =>
    obtain ⟨hr, hv, name, hc, rfl⟩ := hal
    rcases h with ⟨rfl, -⟩ | ⟨rfl, -⟩
    · exact .idle
    · unfold World.finalize
      rcases finalize_cases w.store key o (lastSegment name) with ⟨x, hx⟩ | ⟨-, hx⟩
      · rw [hx]
        exact .idle
      · rw [hx]
        exact .finalize o key name hr hv hc
  | state =>
    rcases h with ⟨rfl, -⟩ | ⟨rfl, -⟩
    · exact .idle
    · exact .read
  | managed | writer | database | getSecretVersion name =>
    obtain rfl : w' = w := h
    exact .idle

theorem Effect.advance (hI : Inv w) (h : Effect i w w') : Advance w.store w'.store := by
  cases h with
  | idle | add | create | read => exact .refl _
  | reserve o request ho ha => exact .reserved hI.consistent ho ha request
  | finalize o key name hr hv hc =>
    obtain ⟨-, r, request, ho, hp, -⟩ := hr
    exact .finalized hI.consistent ⟨r, ho, hp⟩ key _

theorem Effect.inv (hI : Inv w) (h : Effect i w w') : Inv w' := by
  cases h with
  | idle => exact hI
  | read => exact ⟨hI.consistent, hI.owner, hI.known, hI.once, hI.created, hI.published⟩
  | reserve o request ho ha =>
    have hother {o' : OperationId} (hne : o' ≠ o) :
        (w.store.reserved o request).operations o' = w.store.operations o' := Function.update_of_ne hne ..
    have hown : (w.store.reserved o request).operations o ≠ none := by simp [Store.reserved]
    refine ⟨hI.consistent.reserved ho ha request, fun o' h => ?_, fun o' h => ?_, hI.once, hI.created, ?_⟩
    · by_cases heq : o' = o
      · subst heq
        exact absurd h hown
      · exact (Function.update_of_ne heq ..).trans (hI.owner o' ((hother heq).symm.trans h))
    · by_cases heq : o' = o
      · subst heq
        exact Option.isSome_iff_ne_none.mpr hown
      · rw [hother heq]
        exact hI.known o' h
    · intro o' r h
      exact hI.published o' r ((Consistent.reserved_saved ho request o' r).mp h)
  | add o key hr hn => exact hI.added hr.known hn
  | create o name key hr hn =>
    have hadded := hI.added hr.known hn
    refine ⟨hI.consistent, hI.owner, hadded.known, hadded.once, fun p hp => ?_, fun o' r h => ?_⟩
    · rcases List.mem_cons.mp hp with rfl | hp
      · exact List.mem_cons_self ..
      · exact hadded.created p hp
    · obtain ⟨name', hc, hv⟩ := hI.published o' r h
      exact ⟨name', List.mem_cons_of_mem _ hc, hv⟩
  | finalize o key name hr hv hc =>
    obtain ⟨hown, r, request, ho, hp, hrequest, rfl⟩ := hr
    have hother {o' : OperationId} (hne : o' ≠ o) :
        (w.store.finalized request.key o (lastSegment name)).operations o' = w.store.operations o' :=
      Function.update_of_ne hne ..
    have hsome : (w.store.finalized request.key o (lastSegment name)).operations o ≠ none := by
      simp [Store.finalized]
    refine ⟨hI.consistent.finalized ho hp hrequest hv, fun o' h => ?_, fun o' h => ?_, hI.once,
      hI.created, fun o' r' h => ?_⟩
    · by_cases heq : o' = o
      · subst heq
        exact absurd h hsome
      · exact hI.owner o' ((hother heq).symm.trans h)
    · by_cases heq : o' = o
      · subst heq
        exact Option.isSome_iff_ne_none.mpr hsome
      · rw [hother heq]
        exact hI.known o' h
    · rcases (Consistent.finalized_saved ⟨r, ho, hp⟩ request.key _ o' r').mp h with h | ⟨rfl, rfl⟩
      · exact hI.published o' r' h
      · exact ⟨name, hc, rfl⟩

theorem Effect.rely (hI : Inv w) (hne : i ≠ j) (h : Effect i w w') : Rely j w w' := by
  have hgrown := (h.advance hI).grown
  cases h with
  | idle => exact .refl j w
  | read =>
    refine ⟨fun _ h => h, fun _ _ => rfl, fun _ _ h => h, fun _ h => h, ?_, hgrown⟩
    exact Function.update_of_ne hne.symm ..
  | reserve o request ho ha =>
    have hnone := hI.owner o ho
    have hother {o' : OperationId} (h : w.owner o' = some j) : o' ≠ o := by
      rintro rfl
      rw [hnone] at h
      cases h
    refine ⟨fun o' h => ?_, fun o' h => ?_, fun _ _ h => h, fun _ h => h, rfl, hgrown⟩
    · exact (Function.update_of_ne (hother h) ..).trans h
    · exact Function.update_of_ne (hother h) ..
  | add o key hr hn | create o name key hr hn =>
    have hother {o' : OperationId} (h : w.owner o' = some j) : o' ≠ o := by
      rintro rfl
      exact hne (Option.some.inj (hr.1.symm.trans h))
    refine ⟨fun _ h => h, fun _ _ => rfl, fun o' h hmem => ?_, fun p hp => ?_, rfl, hgrown⟩
    · exact (List.mem_cons.mp hmem).resolve_left (hother h)
    · first
        | exact hp
        | exact List.mem_cons_of_mem _ hp
  | finalize o key name hr hv hc =>
    have hother {o' : OperationId} (h : w.owner o' = some j) : o' ≠ o := by
      rintro rfl
      exact hne (Option.some.inj (hr.1.symm.trans h))
    refine ⟨fun _ h => h, fun o' h => ?_, fun _ _ h => h, fun _ h => h, rfl, hgrown⟩
    exact Function.update_of_ne (hother h) ..

def discipline (ι : Type) [DecidableEq ι] : Discipline ι (World ι) Ask.Ans where
  toSystem := system ι
  Inv := Inv
  Allowed := Allowed
  Rely := Rely
  rely_refl := Rely.refl
  rely_trans _ _ _ _ := Rely.trans
  inv_sem _ _ _ _ _ hI hal h := (sem_effect hal h).inv hI
  rely_sem _ _ _ _ _ _ hne hI hal h := (sem_effect hal h).rely hI hne
  inv_env _ _ _ h := h.elim
  rely_env _ _ _ _ h := h.elim

/-! ## Publishing -/

variable {K : World ι → Prop}

theorem perform_yields {a : Ask} {P : a.Val → World ι → Prop} (h : ∀ w₁, Rely i w w₁ → Inv w₁ →
      Allowed i w₁ a ∧ ∀ w₂ v, sem i w₁ a w₂ (.ok v) → Inv w₂ → P v w₂) :
    (discipline ι).Yields i (perform a) P w := by
  refine Yields.ask fun w₁ hr hI => ⟨(h w₁ hr hI).1, fun w₂ r hs hI₂ => Yields.lift fun v hv => ?_⟩
  subst hv
  exact (h w₁ hr hI).2 w₂ v hs hI₂

/-- The requests that neither write nor read a document. -/
def Aside : Ask → Prop
  | .managed | .writer | .database | .getSecretVersion _ => True
  | _ => False

theorem aside_yields {a : Ask} (ha : Aside a) (hK : (discipline ι).Stable i K) (h : K w) :
    (discipline ι).Yields i (perform a) (fun _ w' => K w') w := by
  refine perform_yields fun w₁ hr _ => ?_
  cases a with
  | managed | writer | database | getSecretVersion name =>
    refine ⟨trivial, fun w₂ v hs _ => ?_⟩
    obtain rfl : w₂ = w₁ := hs
    exact hK _ _ hr h
  | _ => exact ha.elim

theorem reserved_stable (o : OperationId) (key : String) :
    (discipline ι).Stable i (Reserved i o key) := by
  rintro w w' hr ⟨hown, r, request, ho, hrest⟩
  exact ⟨hr.owner o hown, r, request, (hr.operations o hown).trans ho, hrest⟩

/-- Reserved by `i`, which has not asked for a version. -/
def Pending (i : ι) (o : OperationId) (key : String) (w : World ι) : Prop :=
  Reserved i o key w ∧ o ∉ w.added

theorem pending_stable (o : OperationId) (key : String) : (discipline ι).Stable i (Pending i o key) := by
  rintro w w' hr ⟨hres, hn⟩
  exact ⟨reserved_stable o key w w' hr hres, fun h => hn (hr.added o hres.1 h)⟩

/-- Reserved by `i`, for which the version of that name was made. -/
def Made (i : ι) (o : OperationId) (key name : String) (w : World ι) : Prop :=
  Reserved i o key w ∧ (o, name) ∈ w.created

theorem made_stable (o : OperationId) (key name : String) :
    (discipline ι).Stable i (Made i o key name) := by
  rintro w w' hr ⟨hres, hc⟩
  exact ⟨reserved_stable o key w w' hr hres, hr.created _ hc⟩

theorem saved_stable (o : OperationId) (r : Record) :
    (discipline ι).Stable i fun w => w.store.Saved o r :=
  fun _ _ hr h => hr.grown.saved o r h

theorem reserve_yields (o : OperationId) (request : Request) (generation : ℕ) :
    (discipline ι).Yields i (reserve o request generation) (fun previous w' => match previous with
      | some r => w'.store.Saved o r ∧ ∃ request, r.request = some (o, request)
      | none => Pending i o request.key w') w := by
  refine Yields.bind (aside_yields (K := fun _ => True) trivial (fun _ _ _ h => h) trivial) fun _ w₀ _ => ?_
  refine perform_yields fun w₁ _ hI => ⟨trivial, fun w₂ previous hs _ => ?_⟩
  rcases hs with ⟨-, x, hx⟩ | ⟨rfl, hx | ⟨x, hx⟩⟩
  · cases hx
  · rcases reserve_cases w₁.store o request generation with ⟨r, hr, hne, hsaved⟩ | ⟨ho, ha, hr⟩
    · rw [hr] at hx
      cases previous with
      | none => exact absurd hx.symm hne
      | some previous =>
        unfold World.reserve
        rw [hr]
        have hprevious := hsaved previous hx.symm
        exact ⟨hprevious, hI.consistent.named o previous hprevious.1⟩
    · rw [hr] at hx
      obtain rfl : previous = none := Except.ok.inj hx
      unfold World.reserve Pending Reserved
      rw [hr]
      refine ⟨⟨Function.update_self .., _, request, Function.update_self .., rfl, rfl, rfl⟩, fun hmem => ?_⟩
      have := hI.known o hmem
      rw [ho] at this
      cases this
  · cases hx

theorem finalize_yields {o : OperationId} {key name : String} (hv : lastSegment name ≠ "")
    (h : Made i o key name w) : (discipline ι).Yields i (finalize o key (lastSegment name))
      (fun r w' => w'.store.Saved o r ∧ ∃ request, r.request = some (o, request)) w := by
  refine Yields.bind (aside_yields trivial (made_stable o key name) h) fun _ w₀ h₀ => ?_
  refine perform_yields fun w₁ hr _ => ?_
  obtain ⟨hres, hc⟩ := made_stable o key name _ _ hr h₀
  refine ⟨⟨hres, hv, name, hc, rfl⟩, fun w₂ r hs _ => ?_⟩
  rcases hs with ⟨-, x, hx⟩ | ⟨rfl, hx | ⟨x, hx⟩⟩
  · cases hx
  · rcases finalize_cases w₁.store key o (lastSegment name) with ⟨x, hx'⟩ | ⟨-, hx'⟩
    · rw [hx'] at hx
      cases hx
    · rw [hx'] at hx
      obtain rfl := Except.ok.inj hx
      obtain ⟨-, r, request, ho, -, hrequest, -⟩ := hres
      unfold World.finalize
      rw [hx']
      refine ⟨⟨Function.update_self .., rfl⟩, request, ?_⟩
      rw [Store.savedRecord, ho]
      exact hrequest
  · cases hx

/-- What a call of `publish` returns is a saved operation. -/
def Finished (p : Published) (w : World ι) : Prop :=
  ∃ r, w.store.Saved p.operationId r ∧ r.shown = .ok p

theorem finished_stable (p : Published) : (discipline ι).Stable i (Finished p) := by
  rintro w w' hr ⟨r, h, hp⟩
  exact ⟨r, hr.grown.saved _ r h, hp⟩

theorem shown_finished {o : OperationId} {r : Record} (h : w.store.Saved o r) {request : Request}
    (hr : r.request = some (o, request)) :
    (discipline ι).Yields i (Prog.lift r.shown) Finished w := by
  refine Yields.lift fun p hp => ⟨r, ?_, hp⟩
  unfold Record.shown at hp
  rw [hr] at hp
  cases hv : r.version with
  | none =>
    rw [hv] at hp
    cases hp
  | some version =>
    rw [hv] at hp
    obtain rfl := Except.ok.inj hp
    exact h

variable (decimal : Char → Bool)

omit [DecidableEq ι] in
theorem ne_empty_of_isDecimal {s : String} (h : isDecimal decimal s = true) : s ≠ "" := by
  unfold isDecimal at h
  simp only [Bool.and_eq_true, decide_eq_true_eq] at h
  exact h.1

theorem publish_yields (service : Service) (secret : OperationalSecret) (value : String)
    (o : OperationId) (generation : ℕ) (requestedBy createdAt : String) :
    (discipline ι).Yields i (publish decimal service secret value o generation requestedBy createdAt)
      Finished w := by
  unfold publish
  have haside (a : Ask) (ha : Aside a) (w : World ι) :
      (discipline ι).Yields i (perform a) (fun _ _ => True) w :=
    aside_yields ha (fun _ _ _ h => h) trivial
  refine (haside .managed trivial w).bind fun _ w₁ _ => ?_
  refine (haside .writer trivial w₁).bind fun _ w₂ _ => ?_
  refine (haside .database trivial w₂).bind fun _ w₃ _ => ?_
  refine (reserve_yields o _ generation).bind fun previous w₄ h₄ => ?_
  cases previous with
  | some previous =>
    obtain ⟨hsaved, first, hfirst⟩ := h₄
    exact shown_finished hsaved hfirst
  | none =>
    have hadd : (discipline ι).Yields i (perform (.addSecretVersion o (resource service secret) value))
        (fun name w' => Made i o secret.key name w') w₄ := by
      refine perform_yields fun w₁ hr _ => ?_
      obtain ⟨hres, hn⟩ := pending_stable o secret.key _ _ hr h₄
      refine ⟨⟨⟨_, hres⟩, hn⟩, fun w₂ name hs _ => ?_⟩
      rcases hs with ⟨-, x, hx⟩ | ⟨name', rfl, hx | ⟨x, hx⟩⟩
      · cases hx
      · obtain rfl := Except.ok.inj hx
        exact ⟨hres, List.mem_cons_self ..⟩
      · cases hx
    refine hadd.bind fun name w₅ h₅ => ?_
    apply Yields.ite
    case hq => exact fun _ => .raise _
    intro hdecimal
    refine (finalize_yields (ne_empty_of_isDecimal decimal hdecimal) h₅).bind fun r w₆ h₆ => ?_
    obtain ⟨hsaved, request, hrequest⟩ := h₆
    exact shown_finished hsaved hrequest

/-! ## Snapshots -/

/-- What a call has read first, and that what was saved then is still there. -/
def First (i : ι) (first : Store) (w : World ι) : Prop :=
  (∃ rest, w.reads i = first :: rest) ∧ Consistent first ∧ Grown first w.store

theorem first_stable (first : Store) : (discipline ι).Stable i (First i first) := by
  rintro w w' hr ⟨⟨rest, hreads⟩, hc, hg⟩
  exact ⟨⟨rest, hr.reads.trans hreads⟩, hc, hg.trans hr.grown⟩

/-- The requests of a snapshot. -/
def Looks (a : Ask) : Prop := a = .state ∨ Aside a

theorem aside_sem {a : Ask} {r : a.Ans} (ha : Aside a) (h : sem i w a w' r) : w' = w := by
  cases a with
  | managed | writer | database | getSecretVersion name => exact h
  | _ => exact ha.elim

theorem looks_sem {a : Ask} {r : a.Ans} (ha : Looks a) (h : sem i w a w' r) : w' = w ∨ w' = w.read i := by
  rcases ha with rfl | ha
  · rcases h with ⟨rfl, -⟩ | ⟨rfl, -⟩
    · exact .inl rfl
    · exact .inr rfl
  · exact .inl (aside_sem ha h)

omit [DecidableEq ι] in
theorem looks_allowed {a : Ask} (ha : Looks a) : Allowed i w a := by
  rcases ha with rfl | ha
  · trivial
  · cases a <;> first | exact ha.elim | exact trivial

theorem first_kept (first : Store) : (discipline ι).Kept i Looks (First i first) where
  stable := first_stable first
  own w a w' r ha _ _ hs h := by
    rcases looks_sem ha hs with rfl | rfl
    · exact h
    · obtain ⟨⟨rest, hreads⟩, hc, hg⟩ := h
      exact ⟨⟨rest ++ [w.store], by simp [World.read, hreads]⟩, hc, hg⟩

theorem perform_asks {a : Ask} (ha : Looks a) : (perform a).Asks Looks :=
  ⟨ha, fun r => Prog.Asks.lift r⟩

theorem state_asks : state.Asks Looks := by
  unfold state
  refine Prog.Asks.bind (fun _ => ?_) (perform_asks (a := .managed) (.inr trivial))
  exact Prog.Asks.bind (fun _ => perform_asks (.inl rfl)) (perform_asks (a := .database) (.inr trivial))

theorem metadataItems_asks (service : Service) (current : Document) :
    ∀ secrets : List OperationalSecret, (metadataItems service current secrets).Asks Looks
  | [] => trivial
  | secret :: secrets => by
    unfold metadataItems
    refine Prog.Asks.bind (fun item => ?_) ?_
    · exact Prog.Asks.bind (fun _ => .pure _) (metadataItems_asks service current secrets)
    · unfold metadataItem
      dsimp only
      cases given (current.versions secret.key) with
      | none => exact .pure _
      | some number =>
        exact Prog.Asks.bind (fun _ => .pure _)
          (perform_asks (a := .getSecretVersion (resource service secret ++ "/versions/" ++ number)) (.inr trivial))

theorem metadata_asks (service : Service) : (metadata service).Asks Looks := by
  unfold metadata
  refine Prog.Asks.bind (fun _ => ?_) (perform_asks (a := .managed) (.inr trivial))
  refine Prog.Asks.bind (fun current => ?_) state_asks
  have hitems := metadataItems_asks service current service.operationalSecrets
  refine Prog.Asks.ite (fun _ => Prog.Asks.bind (fun _ => .pure _) hitems) fun _ => ?_
  refine Prog.Asks.bind (fun _ => ?_) (perform_asks (a := .writer) (.inr trivial))
  exact Prog.Asks.bind (fun _ => .pure _) hitems

/-- What a snapshot has been made of. -/
def Taken (i : ι) (service : Service) (taken : Snapshot) (w : World ι) : Prop :=
  ∃ first, First i first w ∧ first.document.activeOperation = none ∧
    taken = ⟨first.document.generation, references service first.document⟩

theorem taken_stable (service : Service) (taken : Snapshot) :
    (discipline ι).Stable i (Taken i service taken) := by
  rintro w w' hr ⟨first, h, hrest⟩
  exact ⟨first, first_stable first w w' hr h, hrest⟩

/-- A call that has read nothing. -/
def Unread (i : ι) (w : World ι) : Prop := w.reads i = []

theorem unread_stable : (discipline ι).Stable i (Unread i) := fun _ _ hr h => hr.reads.trans h

theorem state_yields (h : Unread i w) : (discipline ι).Yields i state
    (fun current w' => ∃ first, First i first w' ∧ first.document = current) w := by
  refine (aside_yields (a := .managed) trivial unread_stable h).bind fun _ w₁ h₁ => ?_
  refine (aside_yields (a := .database) trivial unread_stable h₁).bind fun _ w₂ h₂ => ?_
  refine perform_yields fun w₃ hr hI => ⟨trivial, fun w₄ current hs _ => ?_⟩
  have h₃ : w₃.reads i = [] := unread_stable _ _ hr h₂
  rcases hs with ⟨-, x, hx⟩ | ⟨rfl, hx⟩
  · cases hx
  · obtain rfl := Except.ok.inj hx
    exact ⟨w₃.store, ⟨⟨[], by simp [World.read, h₃]⟩, hI.consistent, .refl _⟩, rfl⟩

theorem snapshot_yields (service : Service) (h : Unread i w) :
    (discipline ι).Yields i (snapshot service) (Taken i service) w := by
  unfold snapshot
  refine (aside_yields (a := .managed) trivial unread_stable h).bind fun _ w₁ h₁ => ?_
  refine (state_yields h₁).bind fun current w₂ ⟨first, hfirst, hcurrent⟩ => ?_
  refine Yields.ite (fun _ => .raise _) fun hactive => ?_
  have hmetadata : (discipline ι).Yields i (metadata service) (fun _ _ => True) w₂ :=
    Yields.of_asks (fun w a ha _ => looks_allowed ha) (metadata_asks service)
  refine Yields.bind_kept (first_kept first) (metadata_asks service) hmetadata hfirst
    fun available w₃ _ h₃ => ?_
  refine Yields.ite (fun _ => .raise _) fun _ => ?_
  refine Yields.ite (fun _ => .raise _) fun _ => .pure ?_
  subst hcurrent
  exact ⟨first, h₃, by simpa using hactive, rfl⟩

/-! ### What a snapshot holds -/

/-- The declared secret of a key; of two the last. -/
def declared (service : Service) (key : String) : Option OperationalSecret :=
  service.operationalSecrets.reverse.find? fun secret => secret.key = key

theorem given_filled {value : Option String} (h : ∀ text, value = some text → text ≠ "") :
    given value = value := by
  cases value with
  | none => rfl
  | some text => simp [given, h text rfl]

theorem references_fold (service : Service) {current : Document}
    (h : ∀ key version, current.versions key = some version → version ≠ "") (key : String) :
    ∀ (secrets : List OperationalSecret) (d : String → Option String),
      secrets.foldl (addReference service current) d key =
      ((secrets.reverse.find? fun secret => secret.key = key).bind fun secret =>
        (current.versions key).map (reference service secret)).or (d key)
  | [], d => rfl
  | secret :: secrets, d => by
    rw [List.foldl_cons, references_fold service h key secrets, List.reverse_cons, List.find?_append,
      addReference, given_filled (h secret.key)]
    cases hfind : secrets.reverse.find? fun secret => secret.key = key with
    | some last =>
      cases hversion : current.versions key with
      | some version => rfl
      | none =>
        cases hown : current.versions secret.key with
        | none => rfl
        | some version =>
          have hne : key ≠ secret.key := by
            rintro rfl
            rw [hversion] at hown
            cases hown
          simp [Function.update_of_ne hne]
    | none =>
      by_cases hkey : secret.key = key
      · subst hkey
        cases current.versions secret.key <;> simp
      · cases current.versions secret.key <;> simp [hkey, Function.update_of_ne (Ne.symm hkey)]

theorem references_spec (service : Service) {current : Document}
    (h : ∀ key version, current.versions key = some version → version ≠ "") (key : String) :
    references service current key =
      (declared service key).bind fun secret => (current.versions key).map (reference service secret) := by
  unfold references declared
  rw [references_fold service h key]
  cases (service.operationalSecrets.reverse.find? fun secret => secret.key = key).bind fun secret =>
    (current.versions key).map (reference service secret) <;> rfl

theorem Grown.versionsAt {s s' : Store} (h : Grown s s') (hs : Consistent s) (hs' : Consistent s') {g : ℕ}
    (hg : g ≤ s.document.generation) : s'.versionsAt g = s.versionsAt g := by
  unfold Store.versionsAt
  by_cases h0 : g = 0
  · subst h0
    have hnone {t : Store} (ht : Consistent t) : t.manifests 0 = none := by
      cases hm : t.manifests 0 with
      | none => rfl
      | some m =>
        have := ((ht.manifests 0).mp (by rw [hm]; rfl)).1
        omega
    rw [hnone hs, hnone hs']
  · obtain ⟨m, hm⟩ := Option.isSome_iff_exists.mp ((hs.manifests g).mpr ⟨by omega, hg⟩)
    rw [hm, h.manifests g m hm]

/-- The snapshot is of one generation, at which nothing was being published. -/
structure Exact (i : ι) (service : Service) (taken : Snapshot) (w : World ι) : Prop where
  first : ∃ first rest, w.reads i = first :: rest ∧ (∀ o, ¬first.Unresolved o) ∧
    taken.generation = first.document.generation
  secrets : ∀ key, taken.secrets key = (declared service key).bind fun secret =>
    (w.store.versionsAt taken.generation key).map (reference service secret)
  initial : taken.generation = 0 → ∀ key, taken.secrets key = none

omit [DecidableEq ι] in
theorem Taken.exact {service : Service} {taken : Snapshot} (hI : Inv w) (h : Taken i service taken w) :
    Exact i service taken w := by
  obtain ⟨first, ⟨⟨rest, hreads⟩, hfirst, hgrown⟩, hactive, rfl⟩ := h
  have hversions : w.store.versionsAt first.document.generation = first.document.versions :=
    (hgrown.versionsAt hfirst hI.consistent (Nat.le_refl _)).trans hfirst.current.symm
  have hsecrets (key : String) := references_spec service hfirst.filled key
  refine ⟨⟨first, rest, hreads, fun o ho => ?_, rfl⟩, fun key => ?_, fun hzero key => ?_⟩
  · have := (hfirst.active o).mpr ho
    rw [hactive] at this
    cases this
  · rw [hversions]
    exact hsecrets key
  · have hnone : first.document.versions key = none := by
      rw [hfirst.current, show first.document.generation = 0 from hzero]
      cases hm : first.manifests 0 with
      | none => rw [Store.versionsAt, hm, Option.bind_none]
      | some m =>
        have := ((hfirst.manifests 0).mp (by rw [hm]; rfl)).1
        omega
    dsimp only
    rw [hsecrets key, hnone]
    cases declared service key <;> rfl

/-! ## Any calls -/

/-- How a call ends. -/
def Ends (i : ι) : Call → Except Raised Result → World ι → Prop
  | _, .error _, _ => True
  | .publish .., .ok (.published published), w => Finished published w
  | .snapshot service, .ok (.snapshot taken), w => Taken i service taken w
  | _, _, _ => False

theorem ends_stable (call : Call) (o : Except Raised Result) :
    (discipline ι).Stable i (Ends i call o) := by
  rcases o with x | result
  · exact fun _ _ _ _ => by cases call <;> trivial
  · cases call with
    | publish =>
      cases result with
      | published published => exact finished_stable published
      | snapshot taken => exact fun _ _ _ h => h
    | snapshot service =>
      cases result with
      | published published => exact fun _ _ _ h => h
      | snapshot taken => exact taken_stable service taken

omit [DecidableEq ι] in
theorem Inv.start (appliedVersions : String → Option String) : Inv (World.start appliedVersions : World ι) where
  consistent := .start appliedVersions
  owner _ _ := rfl
  known _ h := by cases h
  once := .nil
  created _ h := by cases h
  published _ _ h := by cases h.1

theorem call_obeys (call : Call) (h : Unread i w) :
    (discipline ι).Obeys i (call.code decimal) (Ends i call) w := by
  have hends {p : Code Result} (hp : (discipline ι).Yields i p (fun result w' => Ends i call (.ok result) w') w) :
      (discipline ι).Obeys i p (Ends i call) w := by
    refine Obeys.mono (fun o w' ho => ?_) p hp
    rcases o with x | result
    · cases call <;> trivial
    · exact ho result rfl
  cases call with
  | publish service secret value o generation requestedBy createdAt =>
    refine hends ((publish_yields decimal service secret value o generation requestedBy createdAt).bind ?_)
    exact fun p w' hp => .pure hp
  | snapshot service =>
    refine hends ((snapshot_yields service h).bind ?_)
    exact fun taken w' ht => .pure ht

variable {decimal}

theorem begin_good (appliedVersions : String → Option String) (calls : ι → Call) :
    Good (discipline ι) (fun i => Ends i (calls i)) (begin decimal appliedVersions calls) :=
  ⟨Inv.start appliedVersions, fun i => call_obeys decimal (calls i) rfl⟩

/-- What holds of the documents, and of the calls of `add_secret_version`, in every state. -/
structure Settled (w : World ι) : Prop where
  once : ∀ o, w.added.count o ≤ 1
  unresolved : ∀ o o', w.store.Unresolved o → w.store.Unresolved o' → o = o'
  saved : ∀ o r, w.store.Saved o r → 1 ≤ r.generation ∧ r.generation ≤ w.store.document.generation ∧
    ∃ request version, r.request = some (o, request) ∧ r.version = some version ∧
      w.store.versionsAt r.generation =
        Function.update (w.store.versionsAt (r.generation - 1)) request.key (some version)
  numbered : ∀ g, 1 ≤ g → g ≤ w.store.document.generation →
    ∃ o, (∃ r, w.store.Saved o r ∧ r.generation = g) ∧
      ∀ o' r', w.store.Saved o' r' → r'.generation = g → o' = o
  manifests : ∀ g, (w.store.manifests g).isSome = true ↔ 1 ≤ g ∧ g ≤ w.store.document.generation

omit [DecidableEq ι] in
theorem Inv.settled (hI : Inv w) : Settled w where
  once o := List.nodup_iff_count_le_one.mp hI.once o
  unresolved _ _ h h' := hI.consistent.unresolved h h'
  saved := hI.consistent.saved
  numbered g h h' := by
    obtain ⟨o, r, hr, hg⟩ := hI.consistent.each g h h'
    exact ⟨o, ⟨r, hr, hg⟩, fun o' r' hr' hg' => hI.consistent.one o' o r' r hr' hr (hg'.trans hg.symm)⟩
  manifests := hI.consistent.manifests

/-- In every state that any calls reach, in any order and however often they stop. -/
theorem secrets_published_once {appliedVersions : String → Option String} {calls : ι → Call}
    {c c' : Conf ι (World ι) Ask.Ans Raised Result}
    (h : Reach (system ι) (always _ _ _) (begin decimal appliedVersions calls) c)
    (h' : Reach (system ι) (always _ _ _) c c') :
    Settled c.state ∧
      (∀ c₁, Step (system ι) (always _ _ _) c c₁ → Advance c.state.store c₁.state.store) ∧
      Grown c.state.store c'.state.store ∧
      ∀ i service taken, calls i = .snapshot service → c.pool i = .done (.snapshot taken) →
        Exact i service taken c.state := by
  have hstable (i : ι) (o : Except Raised Result) :
      (discipline ι).Stable i (Ends i (calls i) o) := ends_stable (calls i) o
  have hgood : Good (discipline ι) (fun i => Ends i (calls i)) c :=
    good_reach (D := discipline ι) hstable (begin_good appliedVersions calls) h
  refine ⟨hgood.1.settled, fun c₁ hs => ?_, ?_, fun i service taken hcall hdone => ?_⟩
  · rcases step_cases (D := discipline ι) hgood hs with ⟨i, a, r, hal, -, hsem⟩ | henv
    · exact (sem_effect hal hsem).advance hgood.1
    · exact henv.elim
  · refine reach_relation (D := discipline ι) (R := fun w w' => Grown w.store w'.store) hstable
      (fun w => .refl _) (fun _ _ _ h h' => h.trans h') (fun i w a w' r hI hal _ hs => ?_)
      (fun _ _ _ h => h.elim) hgood h'
    exact ((sem_effect hal hs).advance hI).grown
  · have hobeys : (discipline ι).Obeys i (c.pool i) (Ends i (calls i)) c.state := hgood.2 i
    rw [hdone, hcall] at hobeys
    exact Taken.exact hgood.1 hobeys

/-- The answer of a request that does not fail. -/
def serve (name : String) (i : ι) (w : World ι) : (a : Ask) → World ι × a.Ans
  | .managed | .writer | .database => (w, .ok ())
  | .reserve o request generation =>
    (w.reserve i o request generation, (w.store.reserve o request generation).2)
  | .addSecretVersion o _ _ => (w.create o name, .ok name)
  | .finalize o key version => (w.finalize o key version, (w.store.finalize key o version).2)
  | .state => (w.read i, .ok w.store.document)
  | .getSecretVersion _ => (w, .ok true)

theorem serve_sem (name : String) (i : ι) (w : World ι) (a : Ask) :
    sem i w a (serve name i w a).1 (serve name i w a).2 := by
  cases a with
  | managed | writer | database | getSecretVersion name => exact rfl
  | reserve | finalize => exact .inr ⟨rfl, .inl rfl⟩
  | addSecretVersion => exact .inr ⟨name, rfl, .inl rfl⟩
  | state => exact .inr ⟨rfl, rfl⟩

end Contract

section Demo

def demoSecret : OperationalSecret := ⟨"API_KEY", "api-key", "", true, true⟩

def demoService : Service := ⟨"project", [demoSecret]⟩

def demoOperation : OperationId := ⟨"c4f0", by decide⟩

def demoCalls : Fin 2 → Call
  | 0 => .publish demoService demoSecret "value" demoOperation 0 "octocat" "now"
  | 1 => .snapshot demoService

/-- A version is published, and a snapshot taken. -/
def demoScript : List (Turn (Fin 2) (World (Fin 2)) Ask.Ans) :=
  List.replicate 8 (Turn.run 0 (serve "projects/project/secrets/api-key/versions/7" 0)) ++
    List.replicate 10 (Turn.run 1 (serve "" 1))

def demoRun : Conf (Fin 2) (World (Fin 2)) Ask.Ans Raised Result :=
  (begin Char.isDigit (fun _ => none) demoCalls).play demoScript

/-- The secrets of a snapshot that was taken. -/
def takenSecret (key : String) : Code Result → Option String
  | .done (.snapshot taken) => taken.secrets key
  | _ => none

theorem secrets_published_once_demo : demoRun.state.store.document.generation = 1 ∧
    takenSecret "API_KEY" (demoRun.pool 1) = some "projects/project/secrets/api-key/versions/7" ∧
    Settled demoRun.state ∧ Grown demoRun.state.store demoRun.state.store := by
  have hrun : Reach (system (Fin 2)) (always _ _ _) (begin Char.isDigit (fun _ => none) demoCalls) demoRun := by
    refine reach_play (fun t ht => ?_) _ (meets_always _ _)
    rcases List.mem_append.mp ht with ht | ht <;> obtain ⟨-, rfl⟩ := List.mem_replicate.mp ht <;>
      exact fun w a => serve_sem _ _ w a
  obtain ⟨hsettled, -, hgrown, -⟩ := secrets_published_once hrun .refl
  exact ⟨by decide +kernel, by decide +kernel, hsettled, hgrown⟩

end Demo

end Secrets
