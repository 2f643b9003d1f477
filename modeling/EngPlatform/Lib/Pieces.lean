import Mathlib.Algebra.Order.Group.Abs
import Mathlib.Algebra.Order.Group.Int
import Mathlib.Algebra.BigOperators.Group.List.Basic
import Mathlib.Order.Monotone.Basic
import Mathlib.Data.Int.ConditionallyCompleteOrder
import Mathlib.Order.ConditionallyCompleteLattice.Basic

/-!
# Cutting an interval at marks

Strictly increasing marks cut a line into cells, each from its mark up to the next one. A half-open
interval is cut into the pieces that lie in one cell each.
-/

set_option linter.dupNamespace false

namespace Pieces

variable {α : Type*} [AddCommGroup α] [LinearOrder α] [IsOrderedAddMonoid α]

/-- How much of the interval from `s` to `e` lies in a cell. -/
def overlap (mark : ℤ → α) (s e : α) (n : ℤ) : α := max 0 (min e (mark (n + 1)) - max s (mark n))

/-- The pieces of the interval from `s` to `e`, each with its cell and its length, in order. -/
inductive Cut (mark : ℤ → α) : List (ℤ × α) → α → α → Prop
  | nil (e : α) : Cut mark [] e e
  | cons {n : ℤ} {s e : α} {l : List (ℤ × α)} (hs : mark n ≤ s) (hlt : s < min e (mark (n + 1)))
      (rest : Cut mark l (min e (mark (n + 1))) e) : Cut mark ((n, min e (mark (n + 1)) - s) :: l) s e

variable {mark : ℤ → α} {s e : α} {l : List (ℤ × α)}

omit [IsOrderedAddMonoid α] in
theorem Cut.le (h : Cut mark l s e) : s ≤ e := by
  cases h with
  | nil => exact le_rfl
  | cons hs hlt rest => exact (hlt.trans_le (min_le_left _ _)).le

omit [IsOrderedAddMonoid α] in
theorem Cut.sum (h : Cut mark l s e) : (l.map (·.2)).sum = e - s := by
  induction h with
  | nil e => simp
  | cons hs hlt rest ih =>
    rw [List.map_cons, List.sum_cons, ih]
    exact sub_add_sub_cancel' _ _ _

theorem overlap_of_le {n : ℤ} (h : min e (mark (n + 1)) ≤ max s (mark n)) : overlap mark s e n = 0 :=
  max_eq_left (sub_nonpos.mpr h)

theorem overlap_pos {n : ℤ} : 0 < overlap mark s e n ↔ max s (mark n) < min e (mark (n + 1)) := by
  unfold overlap
  rw [lt_max_iff, sub_pos]
  simp

/-- A cell has a part of the interval when they meet. -/
theorem overlap_pos_iff {n : ℤ} :
    0 < overlap mark s e n ↔ ∃ t, (s ≤ t ∧ t < e) ∧ mark n ≤ t ∧ t < mark (n + 1) := by
  rw [overlap_pos]
  constructor
  · intro h
    obtain ⟨he, hn⟩ := lt_min_iff.mp h
    exact ⟨_, ⟨le_max_left _ _, he⟩, le_max_right _ _, hn⟩
  · rintro ⟨t, ⟨hs, he⟩, hn, hn'⟩
    exact (max_le hs hn).trans_lt (lt_min he hn')

section Cells

variable (hmark : StrictMono mark)

include hmark

omit [IsOrderedAddMonoid α] in
theorem Cut.cell_le (h : Cut mark l s e) {n : ℤ} (hn : mark n ≤ s) : ∀ p ∈ l, n ≤ p.1 := by
  induction h with
  | nil => simp
  | @cons m s e l hs hlt rest ih =>
    have hcell : n ≤ m := by
      by_contra hgt
      have hlast : mark (m + 1) ≤ mark n := hmark.monotone (by omega)
      exact absurd (hlt.trans_le (min_le_right _ _)) (not_lt.mpr (hlast.trans hn))
    intro p hp
    rcases List.mem_cons.mp hp with rfl | hp
    · exact hcell
    · refine ih ?_ p hp
      exact hn.trans hlt.le

omit [IsOrderedAddMonoid α] in
/-- The rest of an interval lies in later cells. -/
theorem Cut.rest_lt {n : ℤ} (rest : Cut mark l (min e (mark (n + 1))) e) : ∀ p ∈ l, n < p.1 := by
  intro p hp
  by_cases hlt : e ≤ mark (n + 1)
  · rw [min_eq_left hlt] at rest
    cases rest with
    | nil => cases hp
    | cons hs hlt rest => exact absurd (hlt.trans_le (min_le_left _ _)) (lt_irrefl _)
  · have hmin : min e (mark (n + 1)) = mark (n + 1) := min_eq_right (not_le.mp hlt).le
    have := rest.cell_le hmark (n := n + 1) hmin.ge p hp
    omega

omit [IsOrderedAddMonoid α] in
theorem Cut.pairwise (h : Cut mark l s e) : (l.map (·.1)).Pairwise (· < ·) := by
  induction h with
  | nil => simp
  | cons hs hlt rest ih =>
    refine List.pairwise_cons.mpr ⟨fun n hn => ?_, ih⟩
    obtain ⟨p, hp, rfl⟩ := List.mem_map.mp hn
    exact rest.rest_lt hmark p hp

/-- The first piece is all that its cell has, and the later cells have as much of the rest. -/
theorem overlap_first {n : ℤ} (hs : mark n ≤ s) (hlt : s < min e (mark (n + 1))) :
    overlap mark s e n = min e (mark (n + 1)) - s ∧
      (∀ m, n < m → overlap mark (min e (mark (n + 1))) e m = overlap mark s e m) ∧
      ∀ m, m < n → overlap mark s e m = 0 := by
  refine ⟨?_, fun m hm => ?_, fun m hm => ?_⟩
  · unfold overlap
    rw [max_eq_left hs]
    exact max_eq_right (sub_nonneg.mpr hlt.le)
  · have hle : mark (n + 1) ≤ mark m := hmark.monotone (by omega)
    unfold overlap
    rw [max_eq_right ((min_le_right _ _).trans hle), max_eq_right ((hlt.le.trans (min_le_right _ _)).trans hle)]
  · have hle : mark (m + 1) ≤ mark n := hmark.monotone (by omega)
    exact overlap_of_le ((min_le_right _ _).trans (hle.trans (hs.trans (le_max_left _ _))))

/-- The pieces are the overlaps that are not empty. -/
theorem Cut.mem_iff (h : Cut mark l s e) {n : ℤ} {d : α} :
    (n, d) ∈ l ↔ 0 < overlap mark s e n ∧ d = overlap mark s e n := by
  induction h with
  | nil e =>
    have hnone : overlap mark e e n = 0 := overlap_of_le ((min_le_left _ _).trans (le_max_left _ _))
    simp [hnone]
  | @cons m s e l hs hlt rest ih =>
    obtain ⟨hown, hlater, hearlier⟩ := overlap_first hmark hs hlt
    rw [List.mem_cons]
    rcases lt_trichotomy n m with hnm | rfl | hmn
    · have hnot : (n, d) ∉ l := fun hmem => absurd (rest.rest_lt hmark _ hmem) (by dsimp only; omega)
      rw [hearlier n hnm]
      simp [hnot, hnm.ne]
    · have hnot : (n, d) ∉ l := fun hmem => absurd (rest.rest_lt hmark _ hmem) (lt_irrefl _)
      rw [hown]
      simp only [hnot, or_false, Prod.mk.injEq, true_and]
      exact ⟨fun hd => ⟨sub_pos.mpr hlt, hd⟩, fun hd => hd.2⟩
    · rw [ih, hlater n hmn]
      simp [hmn.ne']

end Cells

end Pieces
