import Mathlib.Algebra.Order.BigOperators.Group.Finset
import Mathlib.Data.Finset.Max

/-!
# Water-filling

Amounts are cut one unit at a time, always from one of the largest. However often that is done, what
is left is a max-min fair cut: below some level nothing is lost, and all that is above it is brought
down to it, or to one more.
-/

set_option linter.dupNamespace false

namespace Waterfill

variable {ι : Type*} {S : Finset ι} {orig now : ι → ℕ}

/-- Whatever was cut is at most one below all others. -/
structure Cut (S : Finset ι) (orig now : ι → ℕ) : Prop where
  le : ∀ i ∈ S, now i ≤ orig i
  level : ∀ i ∈ S, now i < orig i → ∀ j ∈ S, now j ≤ now i + 1

theorem Cut.refl (S : Finset ι) (orig : ι → ℕ) : Cut S orig orig :=
  ⟨fun _ _ => Nat.le_refl _, fun _ _ h => absurd h (Nat.lt_irrefl _)⟩

/-- A unit is taken from one of the largest. -/
theorem Cut.step (h : Cut S orig now) {now' : ι → ℕ} {k : ι} (hmax : ∀ j ∈ S, now j ≤ now k)
    (hk : now' k + 1 = now k) (hothers : ∀ j, j ≠ k → now' j = now j) : Cut S orig now' := by
  classical
  have hless (j : ι) : now' j ≤ now j := by
    by_cases hj : j = k
    · subst hj
      omega
    · exact (hothers j hj).le
  refine ⟨fun i hi => (hless i).trans (h.le i hi), fun i hi hlost j hj => ?_⟩
  by_cases hik : i = k
  · subst hik
    have := hmax j hj
    have := hless j
    omega
  · rw [hothers i hik] at hlost ⊢
    exact (hless j).trans (h.level i hi hlost j hj)

theorem Cut.exists_level (h : Cut S orig now) :
    ∃ level, ∀ i ∈ S, min (orig i) level ≤ now i ∧ now i ≤ min (orig i) (level + 1) := by
  by_cases hlost : (S.filter fun i => now i < orig i).Nonempty
  · obtain ⟨k, hk, hmin⟩ := Finset.exists_min_image _ now hlost
    obtain ⟨hkS, hklost⟩ := Finset.mem_filter.mp hk
    refine ⟨now k, fun i hi => ⟨?_, le_min (h.le i hi) (h.level k hkS hklost i hi)⟩⟩
    by_cases hi' : now i < orig i
    · exact (min_le_right _ _).trans (hmin i (Finset.mem_filter.mpr ⟨hi, hi'⟩))
    · exact (min_le_left _ _).trans (not_lt.mp hi')
  · refine ⟨S.sup orig, fun i hi => ⟨?_, le_min (h.le i hi) ?_⟩⟩
    · refine (min_le_left _ _).trans (not_lt.mp fun hi' => hlost ⟨i, Finset.mem_filter.mpr ⟨hi, hi'⟩⟩)
    · exact (h.le i hi).trans ((Finset.le_sup hi).trans (Nat.le_succ _))

/-- No other division of as much gives one of them more without lowering another to what that one had. -/
theorem Cut.fair (h : Cut S orig now) {other : ι → ℕ} (hother : ∀ i ∈ S, other i ≤ orig i)
    (hsum : ∑ i ∈ S, other i ≤ ∑ i ∈ S, now i) {i : ι} (hi : i ∈ S) (hmore : now i < other i) :
    ∃ j ∈ S, other j < now j ∧ other j ≤ now i := by
  by_contra hnone
  have hall (j : ι) (hj : j ∈ S) : now j ≤ other j := by
    by_contra hlt
    have hlevel := h.level i hi (hmore.trans_le (hother i hi)) j hj
    exact hnone ⟨j, hj, by omega, by omega⟩
  exact absurd (Finset.sum_lt_sum hall ⟨i, hi, hmore⟩) hsum.not_gt

end Waterfill
