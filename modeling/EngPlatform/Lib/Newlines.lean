import EngPlatform.Lib.CodePoints
import Mathlib.Data.List.DropRight

/-!
# Lines of a text

Universal newlines: a carriage return, alone or with the line feed after it, is read as a line feed.
Something is looked for in every line that is read, and is never found in an empty line.
-/

set_option linter.dupNamespace false

namespace CodePoints

/-- Universal newlines. -/
def universal : Text → Text
  | 13 :: 10 :: t => 10 :: universal t
  | 13 :: t => 10 :: universal t
  | c :: t => c :: universal t
  | [] => []

/-- What ends a line for universal newlines. -/
def breaks (c : ℕ) : Bool := c = 10 || c = 13

/-- Whitespace at both ends is left out. -/
def strip (space : ℕ → Bool) (t : Text) : Text := (t.dropWhile space).rdropWhile space

/-- The first line is that up to the first break; the lines after it may differ in empty ones. -/
theorem lines_universal (t : Text) : ∃ h l l', (universal t).splitOn 10 = h :: l ∧ t.splitOnP breaks = h :: l' ∧
    l.filter (!·.isEmpty) = l'.filter (!·.isEmpty) := by
  fun_induction universal t with
  | case1 t ih =>
    obtain ⟨h, l, l', hl, hl', heq⟩ := ih
    refine ⟨[], h :: l, [] :: h :: l', ?_, ?_, ?_⟩
    · simp [List.splitOn_cons_eq_if_modifyHead, hl]
    · simp [List.splitOnP_cons_eq_if_modifyHead, breaks, hl']
    · simp [List.filter_cons, heq]
  | case2 t _ ih =>
    obtain ⟨h, l, l', hl, hl', heq⟩ := ih
    refine ⟨[], h :: l, h :: l', ?_, ?_, ?_⟩
    · simp [List.splitOn_cons_eq_if_modifyHead, hl]
    · simp [List.splitOnP_cons_eq_if_modifyHead, breaks, hl']
    · simp [List.filter_cons, heq]
  | case3 c t _ hc ih =>
    obtain ⟨h, l, l', hl, hl', heq⟩ := ih
    have hreturn : c ≠ 13 := hc
    by_cases hfeed : c = 10
    · refine ⟨[], h :: l, h :: l', ?_, ?_, ?_⟩
      · simp [List.splitOn_cons_eq_if_modifyHead, hl, hfeed]
      · simp [List.splitOnP_cons_eq_if_modifyHead, breaks, hl', hfeed]
      · simp [List.filter_cons, heq]
    · refine ⟨c :: h, l, l', ?_, ?_, heq⟩
      · simp [List.splitOn_cons_eq_if_modifyHead, hl, hfeed]
      · simp [List.splitOnP_cons_eq_if_modifyHead, breaks, hl', hfeed, hreturn]
  | case4 => exact ⟨[], [], [], rfl, rfl, rfl⟩

section Found

variable {β : Type*} {f : Text → Option β}

theorem filterMap_written (hf : f [] = none) (l : List Text) :
    (l.filter (!·.isEmpty)).filterMap f = l.filterMap f := by
  induction l with
  | nil => rfl
  | cons t l ih =>
    cases t with
    | nil => simpa [hf] using ih
    | cons c t => simp [List.filterMap_cons, ih]

/-- What is found in the lines of a text that is read with universal newlines. -/
theorem found_universal (hf : f [] = none) (t : Text) :
    ((universal t).splitOn 10).filterMap f = (t.splitOnP breaks).filterMap f := by
  obtain ⟨h, l, l', hl, hl', heq⟩ := lines_universal t
  rw [hl, hl', List.filterMap_cons, List.filterMap_cons, ← filterMap_written hf l, heq,
    filterMap_written hf l']

/-- What is found in lines that each end with a line feed. -/
theorem found_lines (hf : f [] = none) (lines : List Text) :
    ((lines.flatMap (· ++ [10])).splitOnP breaks).filterMap f =
      lines.flatMap fun l => (l.splitOnP breaks).filterMap f := by
  induction lines with
  | nil => simp [hf]
  | cons l lines ih =>
    rw [List.flatMap_cons, List.append_assoc, List.singleton_append,
      List.splitOnP_append_cons l _ (by rfl), List.filterMap_append, ih, List.flatMap_cons]

theorem mem_of_mem_splitOn {t line : Text} (h : line ∈ t.splitOn 10) {c : ℕ} (hc : c ∈ line) : c ∈ t := by
  induction t generalizing line with
  | nil =>
    obtain rfl : line = [] := by simpa using h
    cases hc
  | cons x t ih =>
    rw [List.splitOn_cons_eq_if_modifyHead] at h
    by_cases hx : (x == 10) = true
    · rw [if_pos hx] at h
      rcases List.mem_cons.mp h with rfl | h
      · cases hc
      · exact List.mem_cons_of_mem _ (ih h hc)
    · rw [if_neg hx] at h
      cases hsplit : t.splitOn 10 with
      | nil => exact absurd hsplit (List.splitOn_ne_nil 10 t)
      | cons first rest =>
        rw [hsplit, List.modifyHead_cons] at h
        rcases List.mem_cons.mp h with rfl | h
        · rcases List.mem_cons.mp hc with rfl | hc
          · exact List.mem_cons_self
          · exact List.mem_cons_of_mem _ (ih (by rw [hsplit]; exact List.mem_cons_self) hc)
        · exact List.mem_cons_of_mem _ (ih (by rw [hsplit]; exact List.mem_cons_of_mem _ h) hc)

/-- What is found does not change with what is put after the text, if it does not change in a line. -/
theorem found_append {u : Text} (hf : f [] = none) (hu : ∀ l u', (∀ c ∈ u', c ∈ u) → f (l ++ u') = f l) (t : Text) :
    ((t ++ u).splitOn 10).filterMap f = (t.splitOn 10).filterMap f := by
  -- with a beginning of the first line
  suffices h : ∀ before : Text, (((t ++ u).splitOn 10).modifyHead (before ++ ·)).filterMap f =
      ((t.splitOn 10).modifyHead (before ++ ·)).filterMap f by
    have hnil : ∀ l : List Text, l.modifyHead (([] : Text) ++ ·) = l := by
      intro l
      cases l <;> rfl
    simpa only [hnil] using h []
  induction t with
  | nil =>
    intro before
    have hnone : ∀ line ∈ u.splitOn 10, f line = none := by
      intro line hline
      rw [← List.nil_append line, hu [] line fun c hc => mem_of_mem_splitOn hline hc, hf]
    rw [List.nil_append, List.splitOn_nil]
    cases hsplit : u.splitOn 10 with
    | nil => exact absurd hsplit (List.splitOn_ne_nil 10 u)
    | cons first rest =>
      have hfirst : ∀ c ∈ first, c ∈ u := fun c hc =>
        mem_of_mem_splitOn (by rw [hsplit]; exact List.mem_cons_self) hc
      have hrest : rest.filterMap f = [] := List.filterMap_eq_nil_iff.mpr fun line hline =>
        hnone line (by rw [hsplit]; exact List.mem_cons_of_mem _ hline)
      rw [List.modifyHead_cons, List.modifyHead_cons, List.filterMap_cons, List.filterMap_cons, hu before first hfirst,
        List.append_nil, hrest, List.filterMap_nil]
  | cons c t ih =>
    intro before
    rw [List.cons_append, List.splitOn_cons_eq_if_modifyHead, List.splitOn_cons_eq_if_modifyHead]
    by_cases hc : (c == 10) = true
    · rw [if_pos hc, if_pos hc, List.modifyHead_cons, List.modifyHead_cons, List.filterMap_cons, List.filterMap_cons]
      have hnil : ∀ l : List Text, l.modifyHead (([] : Text) ++ ·) = l := by
        intro l
        cases l <;> rfl
      have hrest := ih []
      rw [hnil, hnil] at hrest
      rw [hrest]
    · rw [if_neg hc, if_neg hc, List.modifyHead_modifyHead, List.modifyHead_modifyHead]
      have hrest := ih (before ++ [c])
      simpa [Function.comp_def] using hrest

/-- What is found in a text that is stripped. -/
theorem found_strip {space : ℕ → Bool} (hf : f [] = none)
    (hspace : ∀ l u, (∀ c ∈ u, space c = true) → f (l ++ u) = f l) {c : ℕ} {t : Text} (hc : space c = false) :
    ((strip space (c :: t)).splitOn 10).filterMap f = ((c :: t).splitOn 10).filterMap f := by
  have hdrop : (c :: t).dropWhile space = c :: t := by simp [hc]
  have hright : (c :: t).rdropWhile space ++ (c :: t).rtakeWhile space = c :: t :=
    List.rdropWhile_append_rtakeWhile
  unfold strip
  rw [hdrop]
  conv_rhs => rw [← hright]
  refine (found_append hf (fun l u hu => hspace l u fun c hc => ?_) _).symm
  exact List.mem_rtakeWhile_imp (hu c hc)

end Found

end CodePoints
