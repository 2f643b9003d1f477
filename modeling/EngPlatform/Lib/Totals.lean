import Mathlib.Data.List.AList
import Mathlib.Algebra.Order.BigOperators.Group.List
import Mathlib.Algebra.GroupWithZero.Nat

/-!
# Sums over the rows of a map

The sum of a weight over all rows, and how insertion, removal and replacement of one row change it.
The number of rows is the sum of the weight one.
-/

set_option linter.dupNamespace false

namespace Totals

variable {κ β : Type*} [DecidableEq κ]

/-- The sum of a weight over the rows of a list. -/
def weigh (f : β → ℕ) (l : List (Sigma fun _ : κ => β)) : ℕ := (l.map fun e => f e.2).sum

/-- The sum of a weight over the rows of a map. -/
def total (f : β → ℕ) (m : AList fun _ : κ => β) : ℕ := weigh f m.entries

variable {f : β → ℕ} {m : AList fun _ : κ => β} {k : κ} {v v' : β}

omit [DecidableEq κ] in
@[simp]
theorem weigh_cons (e : Sigma fun _ : κ => β) (l : List (Sigma fun _ : κ => β)) :
    weigh f (e :: l) = f e.2 + weigh f l := by
  simp [weigh]

theorem weigh_kerase {l : List (Sigma fun _ : κ => β)} (h : l.dlookup k = some v) :
    f v + weigh f (l.kerase k) = weigh f l := by
  induction l with
  | nil => cases h
  | cons e l ih =>
    obtain ⟨k', b⟩ := e
    by_cases hk : k = k'
    · subst hk
      rw [List.dlookup_cons_eq] at h
      cases h
      have he : (⟨k, v⟩ :: l : List (Sigma fun _ : κ => β)).kerase k = l := List.kerase_cons_eq rfl
      rw [he, weigh_cons]
    · rw [List.dlookup_cons_ne _ _ hk] at h
      rw [List.kerase_cons_ne hk, weigh_cons, weigh_cons, ← ih h]
      omega

theorem filter_ne {l : List (Sigma fun _ : κ => β)} (h : l.NodupKeys) :
    l.filter (fun e => e.1 ≠ k) = l.kerase k := by
  induction l with
  | nil => rfl
  | cons e l ih =>
    obtain ⟨k', b⟩ := e
    obtain ⟨hn, hl⟩ := List.nodupKeys_cons.1 h
    by_cases hk : k = k'
    · subst hk
      have he : (⟨k, b⟩ :: l : List (Sigma fun _ : κ => β)).kerase k = l := List.kerase_cons_eq rfl
      rw [he, List.filter_cons_of_neg (by simp)]
      refine List.filter_eq_self.2 fun e hm => ?_
      simp only [ne_eq, decide_not, Bool.not_eq_true', decide_eq_false_iff_not]
      rintro rfl
      exact hn (List.mem_keys_of_mem (s := e) hm)
    · rw [List.kerase_cons_ne hk, List.filter_cons_of_pos (by simpa using Ne.symm hk), ih hl]

theorem total_insert : total f (m.insert k v) = f v + total f (m.erase k) := rfl

theorem total_erase (h : m.lookup k = some v) : f v + total f (m.erase k) = total f m :=
  weigh_kerase h

theorem total_erase_le : total f (m.erase k) ≤ total f m := by
  rcases h : m.lookup k with _ | v
  · have : m.erase k = m := by
      refine AList.ext ?_
      exact List.kerase_of_notMem_keys (AList.lookup_eq_none.1 h)
    rw [this]
  · have := total_erase (f := f) h
    omega

/-- A row that is replaced by a lighter one. -/
theorem total_insert_le (h : m.lookup k = some v) (hv : f v' ≤ f v) :
    total f (m.insert k v') ≤ total f m := by
  rw [total_insert, ← total_erase h]
  omega

theorem total_others : weigh f (m.entries.filter fun e => e.1 ≠ k) = total f (m.erase k) := by
  rw [filter_ne m.nodupKeys]
  rfl

omit [DecidableEq κ] in
theorem total_one : total (fun _ : β => 1) m = m.entries.length := by
  simp [total, weigh]

end Totals
