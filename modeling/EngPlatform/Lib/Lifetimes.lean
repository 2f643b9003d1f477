import Mathlib.Data.List.Nodup
import Mathlib.Data.List.Perm.Basic

/-!
# Lifetimes of resources

A resource is taken, used and dropped. A history, newest first, is proper when no resource is taken
twice and only held ones are used and dropped. What is dropped is then never used again, and when
nothing is held all that was taken has been dropped, each once.
-/

set_option linter.dupNamespace false

namespace Lifetimes

inductive Step (ρ : Type)
  | take (r : ρ)
  | use (r : ρ)
  | drop (r : ρ)

variable {ρ : Type} [DecidableEq ρ]

def taken : List (Step ρ) → List ρ
  | [] => []
  | .take r :: h => r :: taken h
  | .use _ :: h => taken h
  | .drop _ :: h => taken h

def dropped : List (Step ρ) → List ρ
  | [] => []
  | .take _ :: h => dropped h
  | .use _ :: h => dropped h
  | .drop r :: h => r :: dropped h

def held : List (Step ρ) → List ρ
  | [] => []
  | .take r :: h => r :: held h
  | .use _ :: h => held h
  | .drop r :: h => (held h).erase r

def Proper : List (Step ρ) → Prop
  | [] => True
  | .take r :: h => r ∉ taken h ∧ Proper h
  | .use r :: h => r ∈ held h ∧ Proper h
  | .drop r :: h => r ∈ held h ∧ Proper h

theorem Proper.of_append : ∀ {l h : List (Step ρ)}, Proper (l ++ h) → Proper h
  | [], _, hp => hp
  | .take _ :: _, _, hp => of_append hp.2
  | .use _ :: _, _, hp => of_append hp.2
  | .drop _ :: _, _, hp => of_append hp.2

theorem taken_perm : ∀ {h : List (Step ρ)}, Proper h → (taken h).Perm (held h ++ dropped h)
  | [], _ => .refl _
  | .take r :: _, hp => (taken_perm hp.2).cons r
  | .use _ :: h, hp => taken_perm (h := h) hp.2
  | .drop r :: h, hp => by
    have hback : (held h).Perm (r :: (held h).erase r) := List.perm_cons_erase hp.1
    refine (taken_perm hp.2).trans ?_
    refine (hback.append_right _).trans ?_
    exact List.perm_middle.symm

theorem taken_nodup : ∀ {h : List (Step ρ)}, Proper h → (taken h).Nodup
  | [], _ => List.nodup_nil
  | .take _ :: _, hp => (taken_nodup hp.2).cons hp.1
  | .use _ :: h, hp => taken_nodup (h := h) hp.2
  | .drop _ :: h, hp => taken_nodup (h := h) hp.2

theorem held_append_dropped {h : List (Step ρ)} (hp : Proper h) : (held h ++ dropped h).Nodup :=
  (taken_perm hp).nodup_iff.mp (taken_nodup hp)

/-- What is held is what was taken and not yet dropped. -/
theorem held_perm {h : List (Step ρ)} (hp : Proper h) :
    (held h).Perm ((taken h).filter fun r => r ∉ dropped h) := by
  have hnodup := held_append_dropped hp
  refine (List.perm_ext_iff_of_nodup hnodup.of_append_left ((taken_nodup hp).filter _)).mpr ?_
  intro r
  have hmem : r ∈ taken h ↔ r ∈ held h ++ dropped h := (taken_perm hp).mem_iff
  have hdisjoint : r ∈ held h → r ∉ dropped h := fun hr hd => List.disjoint_of_nodup_append hnodup hr hd
  simp only [List.mem_filter, decide_eq_true_eq, hmem, List.mem_append]
  constructor
  · intro hr
    exact ⟨.inl hr, hdisjoint hr⟩
  · rintro ⟨hr | hr, hd⟩
    · exact hr
    · exact absurd hr hd

omit [DecidableEq ρ] in
theorem dropped_append (l h : List (Step ρ)) : dropped (l ++ h) = dropped l ++ dropped h := by
  induction l with
  | nil => rfl
  | cons e l ih => cases e <;> simp [dropped, ih]

/-- What has been dropped is never used again. -/
theorem not_used_after {l h : List (Step ρ)} {r : ρ} (hp : Proper (l ++ .drop r :: h)) :
    .use r ∉ l := by
  intro hmem
  obtain ⟨newer, older, rfl⟩ := List.append_of_mem hmem
  have hused : Proper (.use r :: (older ++ .drop r :: h)) := by
    have happ : newer ++ .use r :: older ++ .drop r :: h = newer ++ (.use r :: (older ++ .drop r :: h)) := by
      simp
    rw [happ] at hp
    exact hp.of_append
  have hdropped : r ∈ dropped (older ++ .drop r :: h) := by
    rw [dropped_append]
    exact List.mem_append_right _ (List.mem_cons_self ..)
  exact List.disjoint_of_nodup_append (held_append_dropped hused.2) hused.1 hdropped

theorem dropped_perm_taken {h : List (Step ρ)} (hp : Proper h) (hnone : held h = []) :
    (dropped h).Perm (taken h) := by
  have hall := taken_perm hp
  rw [hnone, List.nil_append] at hall
  exact hall.symm

end Lifetimes
