import EngPlatform.Quality.ChangedLines
import Mathlib.Data.Finset.Card

/-!
# Differential coverage

Of the lines that a change adds to the files in scope, those that the coverage report has as
executable are counted, and those that it has as executed.
-/

set_option linter.dupNamespace false

namespace Coverage

open CodePoints

/-- For every line that is executable whether it was executed. -/
abbrev FileCoverage : Type := List (ℕ × Bool)

/-- A component and its coverage report. `cwd` has the parts of its path from the root on. -/
structure Component where
  profile : Text
  cwd : List Text
  roots : List Text
  exclude : List Text
  coverage : Except Raised (List (Text × FileCoverage))
  fnmatch : Text → Text → Bool
  typeOnly : Text → Except Raised Bool

/-- The parts of `root / name` after the root. -/
def parts (name : Text) : List Text := (name.splitOn 47).filter fun part => part ≠ [] ∧ part ≠ [46]

/-- `Path.suffix`. -/
def suffix (name : Text) : Text :=
  let file := ((parts name).getLast?.getD []).reverse
  let extension := file.takeWhile (· ≠ 46)
  if extension ≠ [] ∧ extension.length + 1 < file.length then 46 :: extension.reverse else []

def suffixes (profile : Text) : List Text :=
  if profile = text "python" then [text ".py"]
  else if profile = text "go" then [text ".go"]
  else [text ".js", text ".jsx", text ".ts", text ".tsx"]

namespace Component

variable (p : Component)

/-- `path.relative_to(cwd).as_posix()`. -/
def localName (name : Text) : Option Text :=
  if p.cwd <+: parts name then
    some (if (parts name).length = p.cwd.length then [46] else [47].intercalate ((parts name).drop p.cwd.length))
  else none

/-- `local == p or local.startswith(p.rstrip("/") + "/")`. -/
def underRoot (file root : Text) : Bool := file = root || (root.rdropWhile (· = 47) ++ [47]).isPrefixOf file

/-- The checks on the name of a changed file. -/
def inScope (name : Text) : Bool :=
  match p.localName name with
  | none => false
  | some file =>
    suffix name ∈ suffixes p.profile && p.roots.any (underRoot file) && !p.exclude.any fun pattern => p.fnmatch file pattern

/-- `profile == "node" and type_only(path, cwd)`. -/
def erased (name : Text) : Except Raised Bool :=
  if p.profile = text "node" then p.typeOnly name else .ok false

end Component

def executable (file : FileCoverage) (lines : Finset ℕ) : Finset ℕ := lines.filter fun n => (file.lookup n).isSome

def executed (file : FileCoverage) (lines : Finset ℕ) : Finset ℕ := lines.filter fun n => file.lookup n = some true

/-- `total` and `covered`. -/
abbrev Counts : Type := ℕ × ℕ

/-- The loop over the changed files. -/
def count (p : Component) (coverage : List (Text × FileCoverage)) : Dict → Counts → Except Raised Counts
  | [], counts => .ok counts
  | (name, lines) :: changed, counts =>
    if p.inScope name then do
      let erased ← p.erased name
      if erased then count p coverage changed counts
      else
        match coverage.lookup name with
        | none => .error .value
        | some file =>
          count p coverage changed (counts.1 + (executable file lines).card, counts.2 + (executed file lines).card)
    else count p coverage changed counts

/-- `differential`. -/
def differential (chars : Characters) (git : Git) (p : Component) : Except Raised Counts :=
  if p.roots = [] then .error .value
  else do
    let coverage ← p.coverage
    let changed ← changedLines chars git
    count p coverage changed (0, 0)

/-! ## What is counted -/

/-- The change is of a file in scope that is not erased. -/
def Component.counts (p : Component) (c : Change) : Bool := p.inScope c.name && decide (p.erased c.name = .ok false)

def fileOf (coverage : List (Text × FileCoverage)) (c : Change) : FileCoverage := (coverage.lookup c.name).getD []

/-- The executable and the executed lines among those that the counted changes add. -/
def countsOf (p : Component) (coverage : List (Text × FileCoverage)) (changes : List Change) : Counts :=
  (((changes.filter p.counts).map fun c => (executable (fileOf coverage c) c.addedLines).card).sum,
    ((changes.filter p.counts).map fun c => (executed (fileOf coverage c) c.addedLines).card).sum)

def exactLines (changes : List Change) : Dict := changes.map fun c => (c.name, c.addedLines)

theorem executed_card_le (file : FileCoverage) (lines : Finset ℕ) :
    (executed file lines).card ≤ (executable file lines).card := by
  refine Finset.card_le_card fun n hn => ?_
  obtain ⟨hmem, hlookup⟩ := Finset.mem_filter.mp hn
  refine Finset.mem_filter.mpr ⟨hmem, ?_⟩
  rw [hlookup]
  rfl

section Count

variable {p : Component} {coverage : List (Text × FileCoverage)}

/-- One step of the loop. -/
theorem count_cons {name : Text} {lines : Finset ℕ} {changed : Dict} {counts out : Counts}
    (h : count p coverage ((name, lines) :: changed) counts = .ok out) :
    ∃ next, count p coverage changed next = .ok out ∧
      (next = counts ∨ ∃ file, coverage.lookup name = some file ∧
        next = (counts.1 + (executable file lines).card, counts.2 + (executed file lines).card)) := by
  rw [count] at h
  by_cases hscope : p.inScope name = true
  · rw [if_pos hscope] at h
    obtain ⟨erased, -, h⟩ := Interleave.bind_ok.mp h
    cases erased with
    | true => exact ⟨counts, h, .inl rfl⟩
    | false =>
      rw [if_neg Bool.false_ne_true] at h
      cases hfile : coverage.lookup name with
      | none =>
        rw [hfile] at h
        cases h
      | some file =>
        rw [hfile] at h
        exact ⟨_, h, .inr ⟨file, rfl, rfl⟩⟩
  · rw [if_neg hscope] at h
    exact ⟨counts, h, .inl rfl⟩

theorem count_le : ∀ {changed : Dict} {counts out : Counts}, counts.2 ≤ counts.1 →
    count p coverage changed counts = .ok out → out.2 ≤ out.1
  | [], counts, out, hle, h => by
    obtain rfl := Except.ok.inj h
    exact hle
  | (name, lines) :: changed, counts, out, hle, h => by
    obtain ⟨next, hnext, rfl | ⟨file, -, rfl⟩⟩ := count_cons h
    · exact count_le hle hnext
    · exact count_le (Nat.add_le_add hle (executed_card_le file lines)) hnext

theorem count_exact : ∀ {changes : List Change} (counts : Counts),
    (∀ c ∈ changes, p.inScope c.name = true → ∃ b, p.erased c.name = .ok b) →
    (∀ c ∈ changes, p.counts c = true → (coverage.lookup c.name).isSome = true) →
    count p coverage (exactLines changes) counts =
      .ok (counts.1 + (countsOf p coverage changes).1, counts.2 + (countsOf p coverage changes).2)
  | [], counts, _, _ => rfl
  | c :: changes, counts, herased, hcovered => by
    obtain ⟨hc, herased⟩ := List.forall_mem_cons.mp herased
    obtain ⟨hfile, hcovered⟩ := List.forall_mem_cons.mp hcovered
    have ih := fun counts => count_exact counts herased hcovered
    have hskip (h : p.counts c = false) : countsOf p coverage (c :: changes) = countsOf p coverage changes := by
      unfold countsOf
      rw [List.filter_cons_of_neg (by rw [h]; exact Bool.false_ne_true)]
    unfold exactLines at ih ⊢
    rw [List.map_cons, count]
    by_cases hscope : p.inScope c.name = true
    · rw [if_pos hscope]
      obtain ⟨b, hb⟩ := hc hscope
      rw [hb]
      cases b with
      | true =>
        have hcounts : p.counts c = false := by
          unfold Component.counts
          rw [hb]
          simp
        rw [hskip hcounts]
        exact ih counts
      | false =>
        have hcounts : p.counts c = true := by
          unfold Component.counts
          rw [hscope, hb]
          rfl
        obtain ⟨file, hlookup⟩ := Option.isSome_iff_exists.mp (hfile hcounts)
        have hof : fileOf coverage c = file := by
          unfold fileOf
          rw [hlookup]
          rfl
        change (match coverage.lookup c.name with
          | none => Except.error Raised.value
          | some file => count p coverage _ (counts.1 + (executable file c.addedLines).card,
              counts.2 + (executed file c.addedLines).card)) = _
        rw [hlookup]
        dsimp only
        rw [ih]
        unfold countsOf
        rw [List.filter_cons_of_pos hcounts, List.map_cons, List.map_cons, List.sum_cons, List.sum_cons, hof,
          Nat.add_assoc, Nat.add_assoc]
    · have hcounts : p.counts c = false := by
        unfold Component.counts
        rw [Bool.not_eq_true _ |>.mp hscope, Bool.false_and]
      rw [if_neg hscope, hskip hcounts]
      exact ih counts

/-- A counted change whose file is not in the report makes the loop fail. -/
theorem count_missing : ∀ {changes : List Change} {counts : Counts},
    (∃ c ∈ changes, p.counts c = true ∧ coverage.lookup c.name = none) →
    ∀ out, count p coverage (exactLines changes) counts ≠ .ok out
  | [], _, ⟨c, hc, _⟩, _, _ => by cases hc
  | c :: changes, counts, ⟨c', hc', hcounts, hnone⟩, out, h => by
    rcases List.mem_cons.mp hc' with rfl | hc'
    · unfold Component.counts at hcounts
      simp only [Bool.and_eq_true, decide_eq_true_eq] at hcounts
      unfold exactLines at h
      rw [List.map_cons, count, if_pos hcounts.1, hcounts.2] at h
      change (match coverage.lookup c'.name with
        | none => Except.error Raised.value
        | some file => count p coverage _ (counts.1 + (executable file c'.addedLines).card,
            counts.2 + (executed file c'.addedLines).card)) = _ at h
      rw [hnone] at h
      cases h
    · obtain ⟨next, hnext, -⟩ := count_cons h
      exact count_missing ⟨c', hc', hcounts, hnone⟩ out hnext

end Count

/-! ## Content -/

/-- The hunk with every line empty. -/
def Hunk.blank (h : Hunk) : Hunk :=
  { h with before := h.before.map fun _ => [], removed := h.removed.map fun _ => [], added := h.added.map fun _ => [],
           heading := [] }

/-- The change with every line of the file empty. -/
def Change.blank (c : Change) : Change := { c with hunks := c.hunks.map Hunk.blank, after := c.after.map fun _ => [] }

theorem hunkRanges_blank : ∀ (hunks : List Hunk) (new : ℕ), hunkRanges new (hunks.map Hunk.blank) = hunkRanges new hunks
  | [], _ => rfl
  | h :: hunks, new => by
    have hbefore : h.blank.before.length = h.before.length := List.length_map ..
    have hadded : h.blank.added.length = h.added.length := List.length_map ..
    rw [List.map_cons, hunkRanges, hunkRanges, hbefore, hadded, hunkRanges_blank]

theorem Change.addedLines_blank (c : Change) : c.blank.addedLines = c.addedLines := by
  ext n
  rw [Change.mem_addedLines, Change.mem_addedLines]
  unfold Change.blank
  rw [hunkRanges_blank]

theorem Hunk.fragments_blank (h : Hunk) : ∀ s ∈ h.blank.fragments, False := by
  intro s hs
  rcases List.mem_append.mp hs with hs | hs
  · cases hs
  · obtain ⟨line, hline, hs⟩ := List.mem_flatMap.mp hs
    have hempty : line = [] := by
      rcases List.mem_append.mp hline with hline | hline
      · obtain ⟨_, -, rfl⟩ := List.mem_map.mp hline
        rfl
      · obtain ⟨_, -, rfl⟩ := List.mem_map.mp hline
        rfl
    subst hempty
    cases hs

theorem Change.Unclaimed.blank {chars : Characters} {c : Change} (h : c.Unclaimed chars) : c.blank.Unclaimed chars where
  legible := by
    unfold Change.blank
    rw [hunkRanges_blank]
    exact h.legible
  fragments hunk hh s hs := by
    obtain ⟨hunk, -, rfl⟩ := List.mem_map.mp hh
    exact (hunk.fragments_blank s hs).elim

/-! ## Exactness -/

/-- The lines of every file are those that git reports, the counts are those of the counted changes'
lines, and no content of a line changes which lines are counted. -/
structure Exact (chars : Characters) (git : Git) (changes : List Change) : Prop where
  lines : changedLines chars git = .ok (exactLines changes)
  counts : ∀ p coverage, p.roots ≠ [] → p.coverage = .ok coverage →
    (∀ c ∈ changes, p.inScope c.name = true → ∃ b, p.erased c.name = .ok b) →
    (∀ c ∈ changes, p.counts c = true → (coverage.lookup c.name).isSome = true) →
    differential chars git p = .ok (countsOf p coverage changes)
  missing : ∀ p coverage, p.coverage = .ok coverage →
    (∃ c ∈ changes, p.counts c = true ∧ coverage.lookup c.name = none) → ∃ e, differential chars git p = .error e
  covered : ∀ p out, differential chars git p = .ok out → out.2 ≤ out.1
  content : ∀ blank, Prints blank (changes.map Change.blank) → changedLines chars blank = changedLines chars git

theorem differential_le {chars : Characters} {git : Git} {p : Component} {out : Counts}
    (h : differential chars git p = .ok out) : out.2 ≤ out.1 := by
  unfold differential at h
  split_ifs at h
  obtain ⟨coverage, -, h⟩ := Interleave.bind_ok.mp h
  obtain ⟨changed, -, h⟩ := Interleave.bind_ok.mp h
  exact count_le le_rfl h

theorem Exact.of_lines {chars : Characters} {git : Git} {changes : List Change}
    (h : changedLines chars git = .ok (exactLines changes)) (hunclaimed : ∀ c ∈ changes, c.Unclaimed chars) :
    Exact chars git changes where
  lines := h
  counts p coverage hroots hcoverage herased hcovered := by
    have hcount := count_exact (0, 0) herased hcovered
    unfold differential
    rw [if_neg hroots, hcoverage, h]
    change count p coverage (exactLines changes) (0, 0) = _
    rw [hcount, Nat.zero_add, Nat.zero_add]
  missing p coverage hcoverage hmissing := by
    cases hout : differential chars git p with
    | error e => exact ⟨e, rfl⟩
    | ok out =>
      unfold differential at hout
      split_ifs at hout
      rw [hcoverage, h] at hout
      exact (count_missing hmissing out hout).elim
  covered p out := differential_le
  content blank hblank := by
    have hexact := (changedLines_iff hblank).mpr fun c hc => by
      obtain ⟨c', hc', rfl⟩ := List.mem_map.mp hc
      exact (hunclaimed c' hc').blank
    rw [hexact, h]
    unfold exactLines
    rw [List.map_map]
    refine congrArg _ (List.map_congr_left fun c _ => ?_)
    exact congrArg _ c.addedLines_blank

/-- Changed lines are exact if and only if no text after a line break in a line of a file reads as a
hunk header that claims other lines. -/
theorem changed_lines_exact_iff {chars : Characters} {git : Git} {changes : List Change} (h : Prints git changes) :
    Exact chars git changes ↔ ∀ c ∈ changes, c.Unclaimed chars :=
  ⟨fun hexact => (changedLines_iff h).mp hexact.lines,
    fun hunclaimed => .of_lines ((changedLines_iff h).mpr hunclaimed) hunclaimed⟩

/-- The digits and the whitespace of ASCII. -/
def ascii : Characters where
  value c := if 48 ≤ c ∧ c ≤ 57 then some (c - 48) else none
  value_ascii _ _ := rfl
  space c := c = 32 || (9 ≤ c && c ≤ 13) || (28 ≤ c && c ≤ 31)
  space_ascii c _ := by simp [or_assoc]

/-- A file with a line that is added after its first one. -/
def demoChange (added : Text) : Change where
  status := text "M"
  source := none
  name := text "api/app.py"
  header := [text "diff --git a/api/app.py b/api/app.py", text "index 3be9c81..a1b2c3d 100644",
    text "--- a/api/app.py", text "+++ b/api/app.py"]
  hunks := [⟨[text "import os"], [], [added], [], false, false⟩]
  after := [text "main()"]

def demoGit (added : Text) : Git := ⟨nameStatus [demoChange added], fun _ => (demoChange added).diffText⟩

theorem demoChange_prints {added : Text} (h : 10 ∉ added) : Prints (demoGit added) [demoChange added] where
  plain c hc := by
    obtain rfl := List.mem_singleton.mp hc
    exact
      { status := by
          change 0 ∉ text "M" ∧ text "M" ≠ []
          decide +kernel
        twoNames := rfl
        names := by
          change ∀ name ∈ [text "api/app.py"], 0 ∉ name
          decide +kernel
        first := ⟨text "a/api/app.py b/api/app.py", _, rfl⟩
        header := by
          change ∀ line ∈ [text "diff --git a/api/app.py b/api/app.py", text "index 3be9c81..a1b2c3d 100644",
            text "--- a/api/app.py", text "+++ b/api/app.py"], line.head? ≠ some 64 ∧ ∀ x ∈ line, breaks x = false
          decide +kernel
        heading := by
          intro hunk hh
          obtain rfl := List.mem_singleton.mp hh
          exact List.not_mem_nil
        content := by
          intro hunk hh line hline
          obtain rfl := List.mem_singleton.mp hh
          obtain rfl := List.mem_singleton.mp hline
          exact h }
  distinct := List.nodup_singleton _
  status := rfl
  diff c hc := by
    obtain rfl := List.mem_singleton.mp hc
    rfl

theorem changed_lines_exact_iff_demo : Exact ascii (demoGit (text "run(1)")) [demoChange (text "run(1)")] ↔
    ∀ c ∈ [demoChange (text "run(1)")], c.Unclaimed ascii :=
  changed_lines_exact_iff (demoChange_prints (by decide))

/-- A line with a carriage return, and then what looks like a hunk header. -/
def crafted : Text := text "run(1)\r@@ -1 +70,9 @@"

/-- The lines from 70 on are counted as changed, though git does not report them. -/
theorem crafted_line_is_counted : Prints (demoGit crafted) [demoChange crafted] ∧
    ¬Exact ascii (demoGit crafted) [demoChange crafted] := by
  have hprints : Prints (demoGit crafted) [demoChange crafted] := demoChange_prints (by decide)
  refine ⟨hprints, fun h => ?_⟩
  have hunclaimed := (changedLines_iff hprints).mp h.lines _ (List.mem_singleton_self _)
  obtain ⟨a, ha, hsub⟩ := hunclaimed.fragments ⟨[text "import os"], [], [crafted], [], false, false⟩
    (List.mem_singleton_self _) (text "@@ -1 +70,9 @@") (by decide +kernel) (text "70", some (text "9"))
    (by decide +kernel)
  obtain rfl : (Finset.range 9).image (70 + ·) = a := Option.some.inj (Eq.trans (by decide +kernel) ha)
  have hmem := hsub (show 70 ∈ (Finset.range 9).image (70 + ·) by decide)
  revert hmem
  decide +kernel

end Coverage
