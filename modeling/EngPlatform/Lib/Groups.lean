import Mathlib.Data.List.Dedup
import Mathlib.Algebra.BigOperators.Group.List.Basic

/-!
# Groups of a list

The elements of a list by a key: every group has the elements with its key, and a sum over the list
is the sum over its groups.
-/

set_option linter.dupNamespace false

namespace Groups

variable {α κ M : Type*} [DecidableEq κ]

/-- The elements with a key. -/
def withKey (key : α → κ) (k : κ) (l : List α) : List α := l.filter fun a => key a = k

/-- Every key with its elements. -/
def groupBy (key : α → κ) (l : List α) : List (κ × List α) := (l.map key).dedup.map fun k => (k, withKey key k l)

/-- The last element with a key. -/
def lastWith (key : α → κ) (k : κ) (l : List α) : Option α := l.reverse.find? fun a => key a = k

variable {key : α → κ} {l : List α}

theorem mem_withKey {k : κ} {a : α} : a ∈ withKey key k l ↔ a ∈ l ∧ key a = k := by simp [withKey]

theorem mem_groupBy {g : κ × List α} : g ∈ groupBy key l ↔ ∃ a ∈ l, g = (key a, withKey key (key a) l) := by
  unfold groupBy
  simp only [List.mem_map, List.mem_dedup]
  constructor
  · rintro ⟨k, ⟨a, ha, rfl⟩, rfl⟩
    exact ⟨a, ha, rfl⟩
  · rintro ⟨a, ha, rfl⟩
    exact ⟨key a, ⟨a, ha, rfl⟩, rfl⟩

theorem groupBy_keys (key : α → κ) (l : List α) : (groupBy key l).map Prod.fst = (l.map key).dedup := by
  unfold groupBy
  rw [List.map_map]
  exact List.map_id _

theorem lastWith_some {k : κ} {a : α} (h : lastWith key k l = some a) : a ∈ l ∧ key a = k := by
  unfold lastWith at h
  exact ⟨List.mem_reverse.mp (List.mem_of_find?_eq_some h), by simpa using List.find?_some h⟩

theorem lastWith_none {k : κ} (h : lastWith key k l = none) : ∀ a ∈ l, key a ≠ k := by
  intro a ha
  unfold lastWith at h
  have hnone := List.find?_eq_none.mp h a (List.mem_reverse.mpr ha)
  simpa using hnone

variable [AddCommMonoid M]

theorem sum_single (k : κ) (x : M) : ∀ {ks : List κ}, ks.Nodup → k ∈ ks → (ks.map fun k' => if k = k' then x else 0).sum = x
  | [], _, h => by cases h
  | k' :: ks, hnodup, h => by
    obtain ⟨hnew, hnodup⟩ := List.nodup_cons.mp hnodup
    rw [List.map_cons, List.sum_cons]
    by_cases hk : k = k'
    · subst hk
      have hzero : (ks.map fun k' => if k = k' then x else 0).sum = 0 := by
        refine List.sum_eq_zero fun y hy => ?_
        obtain ⟨k', hk', rfl⟩ := List.mem_map.mp hy
        exact if_neg fun heq : k = k' => hnew (heq ▸ hk')
      rw [if_pos rfl, hzero, add_zero]
    · rw [if_neg hk, zero_add]
      exact sum_single k x hnodup ((List.mem_cons.mp h).resolve_left hk)

/-- A sum over the list is the sum over all keys of the sums over their elements. -/
theorem sum_withKey (key : α → κ) (f : α → M) {ks : List κ} (hnodup : ks.Nodup) (h : ∀ a ∈ l, key a ∈ ks) :
    (ks.map fun k => ((withKey key k l).map f).sum).sum = (l.map f).sum := by
  induction l with
  | nil => simp [withKey]
  | cons a l ih =>
    obtain ⟨ha, h⟩ := List.forall_mem_cons.mp h
    have hsplit : ∀ k, ((withKey key k (a :: l)).map f).sum =
        (if key a = k then f a else 0) + ((withKey key k l).map f).sum := by
      intro k
      unfold withKey
      by_cases hk : key a = k
      · rw [if_pos hk, List.filter_cons_of_pos (by simpa using hk), List.map_cons, List.sum_cons]
      · rw [if_neg hk, List.filter_cons_of_neg (by simpa using hk), zero_add]
    rw [funext hsplit, List.sum_map_add, sum_single _ _ hnodup ha, ih h, List.map_cons, List.sum_cons]

/-- A sum over the list is the sum over its groups. -/
theorem sum_groupBy (key : α → κ) (f : α → M) (l : List α) :
    ((groupBy key l).map fun g => (g.2.map f).sum).sum = (l.map f).sum := by
  have hsum := sum_withKey key f (List.nodup_dedup (l.map key)) fun a ha =>
    List.mem_dedup.mpr (List.mem_map_of_mem ha)
  unfold groupBy
  rw [List.map_map]
  exact hsum

end Groups
