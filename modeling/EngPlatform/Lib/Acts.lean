import Mathlib.Data.Option.Basic
import Mathlib.Logic.Relation

/-!
# Machines that take one act after the other

A machine gives the state after an act, or refuses the act. A run is a list of acts that are all
accepted, and a state is reached when some run ends in it.
-/

set_option linter.dupNamespace false

namespace Acts

variable {σ α : Type*} (step : σ → α → Option σ)

def run (s : σ) (acts : List α) : Option σ := acts.foldlM step s

/-- Every act of a run meets `C` in the state that it is taken from. -/
def Each (C : σ → α → Prop) : σ → List α → Prop
  | _, [] => True
  | s, a :: acts => C s a ∧ ∀ s', step s a = some s' → Each C s' acts

/-- The states of a run all satisfy `P`. -/
def Along (P : σ → Prop) : σ → List α → Prop
  | s, [] => P s
  | s, a :: acts => P s ∧ ∀ s', step s a = some s' → Along P s' acts

/-- Some run leads from the first state to the second. -/
def Reaches (s s' : σ) : Prop := ∃ acts, run step s acts = some s'

variable {step} {s s' s'' : σ} {a : α} {P : σ → Prop}

theorem run_cons (s : σ) (a : α) (acts : List α) :
    run step s (a :: acts) = (step s a).bind fun s' => run step s' acts := rfl

theorem run_append (s : σ) (acts acts' : List α) :
    run step s (acts ++ acts') = (run step s acts).bind fun s' => run step s' acts' := by
  simp [run, List.foldlM_append]

theorem each_cons {C : σ → α → Prop} {acts : List α} (h : step s a = some s') :
    Each step C s (a :: acts) ↔ C s a ∧ Each step C s' acts := by
  show C s a ∧ (∀ t, step s a = some t → Each step C t acts) ↔ _
  simp only [h, Option.some.injEq, forall_eq']

theorem each_append {C : σ → α → Prop} {acts acts' : List α} (h : run step s acts = some s') :
    Each step C s (acts ++ acts') ↔ Each step C s acts ∧ Each step C s' acts' := by
  induction acts generalizing s with
  | nil =>
    cases h
    exact (and_iff_right trivial).symm
  | cons a acts ih =>
    rw [run_cons] at h
    obtain ⟨s₁, h₁, h⟩ := Option.bind_eq_some_iff.1 h
    rw [List.cons_append, each_cons h₁, each_cons h₁, ih h, and_assoc]

theorem along_cons {acts : List α} (h : step s a = some s') :
    Along step P s (a :: acts) ↔ P s ∧ Along step P s' acts := by
  show P s ∧ (∀ t, step s a = some t → Along step P t acts) ↔ _
  simp only [h, Option.some.injEq, forall_eq']

theorem Along.head {acts : List α} (h : Along step P s acts) : P s := by
  cases acts with
  | nil => exact h
  | cons a acts => exact h.1

theorem Along.last {acts : List α} (h : Along step P s acts) (hr : run step s acts = some s') :
    P s' := by
  induction acts generalizing s with
  | nil =>
    cases hr
    exact h
  | cons a acts ih =>
    rw [run_cons] at hr
    obtain ⟨s₁, h₁, hr⟩ := Option.bind_eq_some_iff.1 hr
    exact ih (h.2 s₁ h₁) hr

/-- Where a condition on the act is exactly what keeps `P` in a step, it is exactly what keeps
`P` along a run. -/
theorem along_iff_each {I : σ → Prop} {C : σ → α → Prop} {acts : List α}
    (h : run step s acts = some s') (hI : I s) (hP : P s)
    (hstep : ∀ s a s', I s → step s a = some s' → I s')
    (hiff : ∀ s a s', I s → P s → step s a = some s' → (P s' ↔ C s a)) :
    Along step P s acts ↔ Each step C s acts := by
  induction acts generalizing s with
  | nil => exact iff_of_true hP trivial
  | cons a acts ih =>
    rw [run_cons] at h
    obtain ⟨s₁, h₁, h⟩ := Option.bind_eq_some_iff.1 h
    rw [along_cons h₁, each_cons h₁, and_iff_right hP, ← hiff s a s₁ hI hP h₁]
    by_cases hP₁ : P s₁
    · rw [and_iff_right hP₁]
      exact ih h (hstep s a s₁ hI h₁) hP₁
    · exact iff_of_false (fun ha => hP₁ ha.head) fun he => hP₁ he.1

/-- An invariant that the acts keep under a condition holds along every run that meets it. -/
theorem along_of_each {J : σ → Prop} {C : σ → α → Prop} {acts : List α} (hJ : J s)
    (hstep : ∀ s a s', J s → C s a → step s a = some s' → J s') (hP : ∀ s, J s → P s)
    (h : Each step C s acts) : Along step P s acts := by
  induction acts generalizing s with
  | nil => exact hP s hJ
  | cons a acts ih =>
    exact ⟨hP s hJ, fun s' hs => ih (hstep s a s' hJ h.1 hs) (h.2 s' hs)⟩

/-- Two conditions on the acts of a run agree where they agree in every state that the second one
lets the run come to. -/
theorem each_congr {J : σ → Prop} {C D : σ → α → Prop} {acts : List α} (hJ : J s)
    (hstep : ∀ s a s', J s → D s a → step s a = some s' → J s')
    (hiff : ∀ s a, J s → (C s a ↔ D s a)) : Each step C s acts ↔ Each step D s acts := by
  induction acts generalizing s with
  | nil => exact Iff.rfl
  | cons a acts ih =>
    show C s a ∧ _ ↔ D s a ∧ _
    rw [hiff s a hJ]
    refine and_congr_right fun hD => forall_congr' fun s' => imp_congr_right fun h => ?_
    exact ih (hstep s a s' hJ hD h)

theorem Reaches.refl (s : σ) : Reaches step s s := ⟨[], rfl⟩

theorem Reaches.trans (h : Reaches step s s') (h' : Reaches step s' s'') : Reaches step s s'' := by
  obtain ⟨acts, h⟩ := h
  obtain ⟨acts', h'⟩ := h'
  exact ⟨acts ++ acts', by rw [run_append, h, Option.bind_some, h']⟩

theorem Reaches.single (h : step s a = some s') : Reaches step s s' :=
  ⟨[a], by rw [run_cons, h]; rfl⟩

/-- What every accepted act preserves holds of every state that is reached. -/
theorem Reaches.invariant (h : Reaches step s s') (hs : P s)
    (hstep : ∀ s a s', P s → step s a = some s' → P s') : P s' := by
  obtain ⟨acts, h⟩ := h
  induction acts generalizing s with
  | nil =>
    cases h
    exact hs
  | cons a acts ih =>
    rw [run_cons] at h
    obtain ⟨s₁, h₁, h⟩ := Option.bind_eq_some_iff.1 h
    exact ih (hstep s a s₁ hs h₁) h

/-- What relates the states around an act, under an invariant, relates those around a run. -/
theorem Reaches.relation {R : σ → σ → Prop} (h : Reaches step s s') (hs : P s)
    (hstep : ∀ s a s', P s → step s a = some s' → P s')
    (hR : ∀ s a s', P s → step s a = some s' → R s s')
    (hrefl : ∀ s, R s s) (htrans : ∀ s s' s'', R s s' → R s' s'' → R s s'') : R s s' :=
  (h.invariant (P := fun t => P t ∧ R s t) ⟨hs, hrefl s⟩ fun t a t' ht ha =>
    ⟨hstep t a t' ht.1 ha, htrans s t t' ht.2 (hR t a t' ht.1 ha)⟩).2

end Acts
