import EngPlatform.Lib.Newlines
import EngPlatform.Lib.Prog
import Mathlib.Data.Finset.Image
import Mathlib.Algebra.GroupWithZero.Nat

/-!
# Lines that a change adds

`git diff` is asked for one file at a time; the numbers of the added lines are read off the hunk
headers that a regular expression finds in its text.
-/

set_option linter.dupNamespace false

namespace Coverage

open CodePoints

/-- Unicode's decimal digits and whitespace. -/
structure Characters where
  value : ℕ → Option ℕ
  value_ascii : ∀ c < 128, value c = if 48 ≤ c ∧ c ≤ 57 then some (c - 48) else none
  space : ℕ → Bool
  space_ascii : ∀ c < 128, space c = true ↔ c = 32 ∨ (9 ≤ c ∧ c ≤ 13) ∨ (28 ≤ c ∧ c ≤ 31)

inductive Raised
  | value
  | index
  | key
  | called
  deriving DecidableEq

variable (chars : Characters)

/-! ## The regular expression -/

/-- The groups of a match; the second one is optional. -/
abbrev Groups : Type := Text × Option Text

/-- `\d`. -/
def isDigit (c : ℕ) : Bool := (chars.value c).isSome

/-- `\d+`, and what is after it. -/
def digits (s : Text) : Option (Text × Text) :=
  if s.takeWhile (isDigit chars) = [] then none
  else some (s.takeWhile (isDigit chars), s.dropWhile (isDigit chars))

/-- ` @@`. -/
def closes (r : Groups) (s : Text) : Option Groups := if text " @@" <+: s then some r else none

/-- `(?:,(\d+))? @@`, after the first group. -/
def countAt (first : Text) : Text → Option Groups
  | 44 :: s => do
    let (count, rest) ← digits chars s
    closes (first, some count) rest
  | s => closes (first, none) s

/-- ` \+(\d+)(?:,(\d+))? @@` at the beginning of a text. -/
def rangeAt : Text → Option Groups
  | 32 :: 43 :: s => do
    let (first, rest) ← digits chars s
    countAt chars first rest
  | _ => none

/-- The regular expression, on a line. -/
def hunkHeader (line : Text) : Option Groups :=
  if text "@@ " <+: line then (line.drop 3).tails.findSome? (rangeAt chars) else none

/-- `re.findall`, with `re.M`. -/
def findall (diff : Text) : List Groups := (diff.splitOn 10).filterMap (hunkHeader chars)

/-! ## The code -/

/-- `int`, of digits. -/
def int (s : Text) : Option ℕ :=
  if s.length ≤ 4300 then some (s.foldl (fun n c => 10 * n + (chars.value c).getD 0) 0) else none

/-- The lines of a match. -/
def claimed (r : Groups) : Option (Finset ℕ) := do
  let first ← int chars r.1
  let count ← int chars (r.2.getD (text "1"))
  some ((Finset.range count).image (first + ·))

/-- `lines.update`, for every match. -/
def update (lines : Finset ℕ) : List Groups → Option (Finset ℕ)
  | [] => some lines
  | r :: matched => do
    let more ← claimed chars r
    update (lines ∪ more) matched

/-- What the commands print. -/
structure Git where
  nameStatus : Text
  diff : List Text → Text

/-- `git`, in text mode. -/
def Git.text (git : Git) (paths : List Text) : Text := strip chars.space (universal (git.diff paths))

def fileLines (git : Git) (paths : List Text) : Except Raised (Finset ℕ) :=
  match update chars ∅ (findall chars (git.text chars paths)) with
  | none => .error .value
  | some lines => .ok lines

abbrev Dict : Type := List (Text × Finset ℕ)

/-- `result[name] = lines`. -/
def Dict.set (name : Text) (lines : Finset ℕ) : Dict → Dict
  | [] => [(name, lines)]
  | item :: result => if item.1 = name then (name, lines) :: result else item :: Dict.set name lines result

/-- `status.startswith(("R", "C"))`. -/
def hasTwoNames (status : Text) : Bool := status.head? = some 82 || status.head? = some 67

/-- The loop over the entries from the cursor on. -/
def loop (git : Git) : List Text → Dict → Except Raised Dict
  | [], result => .ok result
  | [status], result => if status = [] then .ok result else .error .value
  | [status, name], result =>
    if status = [] then .ok result
    else if hasTwoNames status then .error .index
    else do
      let lines ← fileLines chars git [name]
      .ok (result.set name lines)
  | status :: name :: other :: entries, result =>
    if status = [] then .ok result
    else if hasTwoNames status then do
      let lines ← fileLines chars git [name, other]
      loop git entries (result.set other lines)
    else do
      let lines ← fileLines chars git [name]
      loop git (other :: entries) (result.set name lines)

/-- `changed_lines`. -/
def changedLines (git : Git) : Except Raised Dict := loop chars git (git.nameStatus.splitOn 0) []

/-! ## What git prints -/

/-- Lines that a hunk removes and adds, after lines that are in both versions. -/
structure Hunk where
  before : List Text
  removed : List Text
  added : List Text
  heading : Text
  removedNote : Bool
  addedNote : Bool

/-- A file that is added, modified, renamed or copied. -/
structure Change where
  status : Text
  source : Option Text
  name : Text
  header : List Text
  hunks : List Hunk
  after : List Text

/-- A number of git's. -/
def number (n : ℕ) : Text := text (toString n)

/-- One side of a hunk header: the first line, and how many. -/
def side (passed count : ℕ) : Groups :=
  if count = 0 then (number passed, some (number 0))
  else if count = 1 then (number (passed + 1), none)
  else (number (passed + 1), some (number count))

def sideText (r : Groups) : Text := r.1 ++ (r.2.map (44 :: ·)).getD []

def note (b : Bool) : List Text := if b then [text "\\ No newline at end of file"] else []

/-- A hunk, after so many lines of the two versions. -/
def Hunk.lines (h : Hunk) (old new : ℕ) : List Text :=
  (text "@@ -" ++ sideText (side old h.removed.length) ++ text " +" ++ sideText (side new h.added.length) ++
      text " @@" ++ h.heading) ::
    (h.removed.map (45 :: ·) ++ note h.removedNote ++ h.added.map (43 :: ·) ++ note h.addedNote)

def hunkLines (old new : ℕ) : List Hunk → List Text
  | [] => []
  | h :: hunks =>
    h.lines (old + h.before.length) (new + h.before.length) ++
      hunkLines (old + h.before.length + h.removed.length) (new + h.before.length + h.added.length) hunks

/-- The lines of the new version, and whether they are added. -/
def headLines (hunks : List Hunk) (after : List Text) : List (Text × Bool) :=
  hunks.flatMap (fun h => h.before.map (·, false) ++ h.added.map (·, true)) ++ after.map (·, false)

namespace Change

variable (c : Change)

def diffText : Text := (c.header ++ hunkLines 0 0 c.hunks).flatMap (· ++ [10])

/-- The numbers of the lines that are added. -/
def addedLines : Finset ℕ :=
  (Finset.range (headLines c.hunks c.after).length).filter
    (fun i => ((headLines c.hunks c.after)[i]?.map Prod.snd) = some true) |>.image (· + 1)

def paths : List Text := c.source.toList ++ [c.name]

/-- The entries of `--name-status -z`. -/
def entries : List Text := c.status :: c.paths

end Change

def nameStatus (changes : List Change) : Text := (changes.flatMap Change.entries).flatMap (· ++ [0])

/-- A change as git prints it: every header line starts with a keyword, and quotes the names in it. -/
structure Change.Plain (c : Change) : Prop where
  status : 0 ∉ c.status ∧ c.status ≠ []
  twoNames : hasTwoNames c.status = c.source.isSome
  names : ∀ name ∈ c.paths, 0 ∉ name
  first : ∃ names rest, c.header = (text "diff --git " ++ names) :: rest
  header : ∀ line ∈ c.header, line.head? ≠ some 64 ∧ ∀ x ∈ line, breaks x = false
  heading : ∀ h ∈ c.hunks, 10 ∉ h.heading
  content : ∀ h ∈ c.hunks, ∀ line ∈ h.removed ++ h.added, 10 ∉ line

/-- Git prints the changes. -/
structure Prints (git : Git) (changes : List Change) : Prop where
  plain : ∀ c ∈ changes, c.Plain
  distinct : (changes.map Change.name).Nodup
  status : git.nameStatus = nameStatus changes
  diff : ∀ c ∈ changes, git.diff c.paths = c.diffText

/-! ## The regular expression, by its matches -/

variable {chars}

/-- The text of a match from the last blank before the plus sign on. -/
def rangeText (r : Groups) : Text := text " +" ++ sideText r ++ text " @@"

def IsNumber (chars : Characters) (s : Text) : Prop := s ≠ [] ∧ ∀ c ∈ s, isDigit chars c = true

/-- Digits, at least one, in the groups. -/
structure IsRange (chars : Characters) (r : Groups) : Prop where
  first : IsNumber chars r.1
  count : ∀ s ∈ r.2, IsNumber chars s

theorem isDigit_ascii {c : ℕ} (h : c < 128) : isDigit chars c = decide (48 ≤ c ∧ c ≤ 57) := by
  unfold isDigit
  rw [chars.value_ascii c h]
  by_cases hc : 48 ≤ c ∧ c ≤ 57
  · rw [if_pos hc, decide_eq_true hc]
    rfl
  · rw [if_neg hc, decide_eq_false hc]
    rfl

/-- Digits are taken up to the first character that is none. -/
theorem digits_append {s t : Text} {c : ℕ} (hs : IsNumber chars s) (hc : isDigit chars c = false) :
    digits chars (s ++ c :: t) = some (s, c :: t) := by
  have htake : (s ++ c :: t).takeWhile (isDigit chars) = s := by
    rw [List.takeWhile_append_of_pos hs.2]
    simp [hc]
  have hdrop : (s ++ c :: t).dropWhile (isDigit chars) = c :: t := by
    rw [List.dropWhile_append_of_pos hs.2]
    simp [hc]
  unfold digits
  rw [htake, hdrop, if_neg hs.1]

theorem digits_some {s d t : Text} (h : digits chars s = some (d, t)) : IsNumber chars d ∧ s = d ++ t := by
  unfold digits at h
  by_cases hnone : s.takeWhile (isDigit chars) = []
  · rw [if_pos hnone] at h
    cases h
  · rw [if_neg hnone] at h
    obtain ⟨rfl, rfl⟩ := Prod.mk.inj (Option.some.inj h)
    exact ⟨⟨hnone, fun c hc => List.mem_takeWhile_imp hc⟩, List.takeWhile_append_dropWhile.symm⟩

theorem closes_some {r r' : Groups} {s : Text} (h : closes r s = some r') : r' = r ∧ ∃ rest, s = text " @@" ++ rest := by
  unfold closes at h
  split_ifs at h with hbegins
  obtain ⟨rest, hrest⟩ := hbegins
  exact ⟨(Option.some.inj h).symm, rest, hrest.symm⟩

theorem rangeAt_rangeText {r : Groups} (h : IsRange chars r) (rest : Text) :
    rangeAt chars (rangeText r ++ rest) = some r := by
  obtain ⟨first, count⟩ := r
  have hblank : isDigit chars 32 = false := by
    rw [isDigit_ascii (by decide)]
    rfl
  have hcomma : isDigit chars 44 = false := by
    rw [isDigit_ascii (by decide)]
    rfl
  have hclose : ∀ r' : Groups, closes r' (32 :: 64 :: 64 :: rest) = some r' := fun r' => if_pos ⟨rest, rfl⟩
  cases count with
  | none =>
    have heq : rangeText (first, none) ++ rest = 32 :: 43 :: (first ++ 32 :: 64 :: 64 :: rest) := by
      simp [rangeText, sideText, text]
    rw [heq, rangeAt, digits_append h.first hblank]
    exact hclose _
  | some count =>
    have heq : rangeText (first, some count) ++ rest =
        32 :: 43 :: (first ++ 44 :: (count ++ 32 :: 64 :: 64 :: rest)) := by
      simp [rangeText, sideText, text]
    rw [heq, rangeAt, digits_append h.first hcomma]
    change (digits chars (count ++ 32 :: 64 :: 64 :: rest)).bind _ = _
    rw [digits_append (h.count count rfl) hblank]
    exact hclose _

theorem countAt_some {first s : Text} {r : Groups} (h : countAt chars first s = some r) :
    r.1 = first ∧ (∀ count ∈ r.2, IsNumber chars count) ∧
      ∃ rest, s = (r.2.map (44 :: ·)).getD [] ++ text " @@" ++ rest := by
  unfold countAt at h
  split at h
  next s =>
    obtain ⟨⟨count, t⟩, hcount, hclose⟩ := Option.bind_eq_some_iff.mp h
    obtain ⟨hnumber, rfl⟩ := digits_some hcount
    obtain ⟨rfl, rest, rfl⟩ := closes_some hclose
    refine ⟨rfl, ?_, rest, by simp⟩
    rintro s ⟨⟩
    exact hnumber
  next s _ =>
    obtain ⟨rfl, rest, rfl⟩ := closes_some h
    exact ⟨rfl, by rintro s ⟨⟩, rest, rfl⟩

/-- A match is its text, and what is after it. -/
theorem rangeAt_some {s : Text} {r : Groups} (h : rangeAt chars s = some r) :
    IsRange chars r ∧ ∃ rest, s = rangeText r ++ rest := by
  unfold rangeAt at h
  split at h
  next s =>
    obtain ⟨⟨first, t⟩, hfirst, hcounted⟩ := Option.bind_eq_some_iff.mp h
    obtain ⟨hnumber, rfl⟩ := digits_some hfirst
    obtain ⟨rfl, hcount, rest, hrest⟩ := countAt_some hcounted
    refine ⟨⟨hnumber, hcount⟩, rest, ?_⟩
    rw [hrest]
    simp [rangeText, sideText, text]
  next => cases h

/-- Text without the at sign after a text changes no match in it. -/
theorem rangeAt_append {u : Text} (hu : 64 ∉ u) (s : Text) : rangeAt chars (s ++ u) = rangeAt chars s := by
  have hclosed : ∀ r : Groups, ∃ before, rangeText r = before ++ [64] := fun r => ⟨text " +" ++ sideText r ++ [32, 64], by
    simp [rangeText, text]⟩
  cases h : rangeAt chars (s ++ u) with
  | none =>
    cases h' : rangeAt chars s with
    | none => rfl
    | some r =>
      obtain ⟨hr, rest, rfl⟩ := rangeAt_some h'
      rw [List.append_assoc, rangeAt_rangeText hr] at h
      cases h
  | some r =>
    obtain ⟨hr, rest, hrest⟩ := rangeAt_some h
    rcases List.append_eq_append_iff.mp hrest with ⟨t, ht, hut⟩ | ⟨t, rfl, -⟩
    · -- the match would end in what is put after
      obtain ⟨before, hbefore⟩ := hclosed r
      rcases List.eq_nil_or_concat t with rfl | ⟨t, c, rfl⟩
      · rw [List.append_nil] at ht
        subst ht
        have h' := rangeAt_rangeText hr []
        rw [List.append_nil] at h'
        exact h'.symm
      · rw [hbefore, List.concat_eq_append, ← List.append_assoc] at ht
        obtain rfl : (64 : ℕ) = c := by simpa using (List.append_inj_right' ht rfl)
        rw [hut] at hu
        simp at hu
    · exact (rangeAt_rangeText hr t).symm

theorem rangeAt_none {s : Text} (h : 64 ∉ s) : rangeAt chars s = none := by
  rw [← List.nil_append s, rangeAt_append h]
  rfl

theorem tails_none {u : Text} (hu : 64 ∉ u) : u.tails.findSome? (rangeAt chars) = none := by
  rw [List.findSome?_eq_none_iff]
  intro t ht
  exact rangeAt_none fun h => hu (((List.mem_tails _ _).mp ht).subset h)

theorem tails_append {u : Text} (hu : 64 ∉ u) (s : Text) :
    (s ++ u).tails.findSome? (rangeAt chars) = s.tails.findSome? (rangeAt chars) := by
  induction s with
  | nil => exact tails_none hu
  | cons c s ih =>
    rw [List.cons_append, List.tails_cons, List.tails_cons, List.findSome?_cons, List.findSome?_cons, ih,
      ← List.cons_append, rangeAt_append hu]

theorem hunkHeader_none {line : Text} (h : line.head? ≠ some 64) : hunkHeader chars line = none := by
  unfold hunkHeader
  refine if_neg ?_
  rintro ⟨rest, rfl⟩
  exact h rfl

/-- Text without the at sign after a line changes no match in it. -/
theorem hunkHeader_append {u : Text} (hu : 64 ∉ u) (line : Text) :
    hunkHeader chars (line ++ u) = hunkHeader chars line := by
  have hbegins : text "@@ " = [64, 64, 32] := rfl
  unfold hunkHeader
  rw [hbegins]
  match line with
  | a :: b :: c :: line =>
    simp only [List.cons_append, List.cons_prefix_cons, List.nil_prefix, List.drop_succ_cons, List.drop_zero,
      tails_append hu]
  | [] =>
    rw [if_neg, if_neg]
    · simp
    · rintro ⟨rest, rfl⟩
      simp at hu
  | [a] =>
    have hne : ¬[64, 64, 32] <+: [a] := fun h => by simpa using h.length_le
    rw [if_neg hne]
    refine if_neg ?_
    rintro ⟨rest, hrest⟩
    obtain ⟨-, rfl⟩ := List.cons.inj hrest
    simp at hu
  | [a, b] =>
    have hne : ¬[64, 64, 32] <+: [a, b] := fun h => by simpa using h.length_le
    rw [if_neg hne]
    by_cases h : [64, 64, 32] <+: [a, b] ++ u
    · rw [if_pos h]
      exact tails_none fun hmem => hu (List.mem_of_mem_drop hmem)
    · rw [if_neg h]

/-- The match in a hunk header is that after the first blank. -/
theorem hunkHeader_header {old : Text} {r : Groups} (hold : 32 ∉ old) (hr : IsRange chars r) (rest : Text) :
    hunkHeader chars (text "@@ " ++ (old ++ (rangeText r ++ rest))) = some r := by
  have htails : (old ++ (rangeText r ++ rest)).tails.findSome? (rangeAt chars) = some r := by
    induction old with
    | nil =>
      cases hs : rangeText r ++ rest with
      | nil =>
        have hlength := congrArg List.length hs
        simp [rangeText, text] at hlength
      | cons c s =>
        rw [List.nil_append, List.tails_cons, List.findSome?_cons, ← hs, rangeAt_rangeText hr]
    | cons c old ih =>
      have hc : c ≠ 32 := fun h => hold (h ▸ List.mem_cons_self)
      have hnone : rangeAt chars (c :: (old ++ (rangeText r ++ rest))) = none := by
        unfold rangeAt
        split
        next heq => exact absurd (List.cons.inj heq).1 hc
        next => rfl
      rw [List.cons_append, List.tails_cons, List.findSome?_cons, hnone]
      exact ih fun h => hold (List.mem_cons_of_mem _ h)
  unfold hunkHeader
  rw [if_pos (List.prefix_append ..)]
  exact htails

/-! ## The numbers of git -/

theorem number_isNumber (n : ℕ) : IsNumber chars (number n) := by
  refine ⟨fun h => ?_, fun c hc => ?_⟩
  · have hempty : Nat.repr n = "" := String.toList_inj.mp (List.map_eq_nil_iff.mp h)
    exact Nat.repr_ne_empty hempty
  · have hdigit := digits_of_repr hc
    rw [isDigit_ascii (by omega)]
    exact decide_eq_true hdigit

theorem side_isRange (passed count : ℕ) : IsRange chars (side passed count) := by
  have hsome : ∀ n, ∀ s ∈ some (number n), IsNumber chars s := by
    intro n s hs
    rw [← Option.some.inj hs]
    exact number_isNumber n
  have hrange : ∀ n o, (∀ s ∈ o, IsNumber chars s) → IsRange chars (number n, o) :=
    fun n o ho => ⟨number_isNumber n, ho⟩
  unfold side
  split_ifs
  · exact hrange passed _ (hsome 0)
  · exact hrange (passed + 1) _ fun s hs => by cases hs
  · exact hrange (passed + 1) _ (hsome count)

theorem sideText_chars (passed count : ℕ) : ∀ c ∈ sideText (side passed count), c = 44 ∨ (48 ≤ c ∧ c ≤ 57) := by
  have hnumber : ∀ n, ∀ c ∈ number n, c = 44 ∨ (48 ≤ c ∧ c ≤ 57) := fun n c hc => .inr (digits_of_repr hc)
  have hpair : ∀ n k, ∀ c ∈ sideText (number n, some (number k)), c = 44 ∨ (48 ≤ c ∧ c ≤ 57) := by
    intro n k c hc
    rcases List.mem_append.mp hc with hc | hc
    · exact hnumber n c hc
    · rcases List.mem_cons.mp hc with rfl | hc
      · exact .inl rfl
      · exact hnumber k c hc
  unfold side
  split_ifs
  · exact hpair passed 0
  · intro c hc
    rw [sideText, Option.map_none, Option.getD_none, List.append_nil] at hc
    exact hnumber (passed + 1) c hc
  · exact hpair (passed + 1) count

/-- `int` reads a number of git's as it is, unless it has too many digits. -/
theorem int_number {n m : ℕ} (h : int chars (number n) = some m) : m = n := by
  unfold int at h
  split_ifs at h
  obtain rfl := Option.some.inj h
  have hfold : ∀ (l : List Char) (a : ℕ), (∀ x ∈ l, 48 ≤ x.toNat ∧ x.toNat ≤ 57) →
      (l.map Char.toNat).foldl (fun n c => 10 * n + (chars.value c).getD 0) a = Nat.ofDigitChars 10 l a := by
    intro l
    induction l with
    | nil => exact fun a _ => rfl
    | cons x l ih =>
      intro a hl
      have hx := hl x List.mem_cons_self
      rw [List.map_cons, List.foldl_cons, chars.value_ascii _ (by omega), if_pos hx,
        ih _ fun y hy => hl y (List.mem_cons_of_mem _ hy)]
      rfl
  have hdigits : ∀ x ∈ Nat.toDigits 10 n, 48 ≤ x.toNat ∧ x.toNat ≤ 57 := by
    intro x hx
    have hdigit := Nat.isDigit_of_mem_toDigits (by decide) (by decide) hx
    simp only [Char.isDigit, Bool.and_eq_true, decide_eq_true_eq] at hdigit
    exact hdigit
  have htext : number n = (Nat.toDigits 10 n).map Char.toNat := by simp [number, text, Nat.repr]
  rw [htext, hfold _ 0 hdigits, Nat.ofDigitChars_ten_toDigits]

/-! ## What is found in the text of a change -/

/-- The texts after a line break in what git prints of the files' lines. -/
def Hunk.fragments (h : Hunk) : List Text :=
  (h.heading.splitOnP breaks).tail ++ (h.removed ++ h.added).flatMap fun line => (line.splitOnP breaks).tail

theorem hunkHeader_nil : hunkHeader chars [] = none := rfl

theorem splitOnP_append_left {s : Text} (hs : ∀ c ∈ s, breaks c = false) (t : Text) :
    (s ++ t).splitOnP breaks = (t.splitOnP breaks).modifyHead (s ++ ·) := by
  induction s with
  | nil => cases h : t.splitOnP breaks <;> simp [h]
  | cons c s ih =>
    have hc := hs c List.mem_cons_self
    rw [List.cons_append, List.splitOnP_cons_eq_if_modifyHead, hc, if_neg Bool.false_ne_true,
      ih fun x hx => hs x (List.mem_cons_of_mem _ hx), List.modifyHead_modifyHead]
    rfl

/-- In a line of a file only what is after a line break can match. -/
theorem found_content {x : ℕ} (hx : x ≠ 64) (hbreak : breaks x = false) (line : Text) :
    ((x :: line).splitOnP breaks).filterMap (hunkHeader chars) =
      (line.splitOnP breaks).tail.filterMap (hunkHeader chars) := by
  rw [List.splitOnP_cons_eq_if_modifyHead, hbreak, if_neg Bool.false_ne_true]
  cases line.splitOnP breaks with
  | nil => rfl
  | cons first rest =>
    have hnone : hunkHeader chars (x :: first) = none := hunkHeader_none fun h => hx (Option.some.inj h)
    rw [List.modifyHead_cons, List.filterMap_cons, hnone, List.tail_cons]

theorem found_plain {line : Text} (hline : line.head? ≠ some 64) (hbreaks : ∀ x ∈ line, breaks x = false) :
    (line.splitOnP breaks).filterMap (hunkHeader chars) = [] := by
  rw [List.splitOnP_eq_singleton hbreaks, List.filterMap_cons, hunkHeader_none hline]
  rfl

theorem found_note (b : Bool) :
    (note b).flatMap (fun line => (line.splitOnP breaks).filterMap (hunkHeader chars)) = [] := by
  cases b with
  | false => rfl
  | true =>
    unfold note
    rw [if_pos rfl, List.flatMap_cons, found_plain (by decide) (by decide)]
    rfl

theorem found_contents {x : ℕ} (hx : x ≠ 64) (hbreak : breaks x = false) (lines : List Text) :
    (lines.map (x :: ·)).flatMap (fun line => (line.splitOnP breaks).filterMap (hunkHeader chars)) =
      (lines.flatMap fun line => (line.splitOnP breaks).tail).filterMap (hunkHeader chars) := by
  induction lines with
  | nil => rfl
  | cons line lines ih =>
    rw [List.map_cons, List.flatMap_cons, List.flatMap_cons, List.filterMap_append, ih, found_content hx hbreak]

theorem sideText_breaks (passed count : ℕ) : ∀ c ∈ sideText (side passed count), breaks c = false := by
  intro c hc
  have := sideText_chars passed count c hc
  unfold breaks
  simp only [Bool.or_eq_false_iff, decide_eq_false_iff_not]
  omega

/-- In a hunk header its own range is found, and what its heading has after a line break. -/
theorem found_header {old new : Groups} (hnew : IsRange chars new) (hblank : 32 ∉ sideText old)
    (hold : ∀ c ∈ sideText old, breaks c = false) (hside : ∀ c ∈ sideText new, breaks c = false) (heading : Text) :
    ((text "@@ -" ++ sideText old ++ text " +" ++ sideText new ++ text " @@" ++ heading).splitOnP breaks).filterMap
        (hunkHeader chars) = new :: (heading.splitOnP breaks).tail.filterMap (hunkHeader chars) := by
  have hbreaks : ∀ c ∈ text "@@ -" ++ sideText old ++ text " +" ++ sideText new ++ text " @@", breaks c = false := by
    intro c hc
    simp only [List.mem_append] at hc
    rcases hc with (((hc | hc) | hc) | hc) | hc
    · revert c
      decide
    · exact hold c hc
    · revert c
      decide
    · exact hside c hc
    · revert c
      decide
  rw [splitOnP_append_left hbreaks]
  cases hsplit : heading.splitOnP breaks with
  | nil => exact absurd hsplit (List.splitOnP_ne_nil _ _)
  | cons first rest =>
    have heq : text "@@ -" ++ sideText old ++ text " +" ++ sideText new ++ text " @@" ++ first =
        text "@@ " ++ ((45 :: sideText old) ++ (rangeText new ++ first)) := by
      simp [rangeText, text]
    have hmatch : hunkHeader chars (text "@@ " ++ ((45 :: sideText old) ++ (rangeText new ++ first))) = some new :=
      hunkHeader_header (by simpa using hblank) hnew first
    rw [List.modifyHead_cons, List.filterMap_cons, heq, hmatch, List.tail_cons]

theorem found_hunk (h : Hunk) (old new : ℕ) :
    (h.lines old new).flatMap (fun line => (line.splitOnP breaks).filterMap (hunkHeader chars)) =
      side new h.added.length :: h.fragments.filterMap (hunkHeader chars) := by
  have hblank : 32 ∉ sideText (side old h.removed.length) := by
    intro hc
    have := sideText_chars _ _ _ hc
    omega
  unfold Hunk.lines Hunk.fragments
  rw [List.flatMap_cons, found_header (side_isRange _ _) hblank (sideText_breaks _ _) (sideText_breaks _ _),
    List.flatMap_append, List.flatMap_append, List.flatMap_append, found_note, found_note,
    found_contents (by decide) (by decide), found_contents (by decide) (by decide)]
  simp

/-- The ranges that are found in the hunks, after so many lines of the new version. -/
def matched (chars : Characters) (new : ℕ) : List Hunk → List Groups
  | [] => []
  | h :: hunks =>
    side (new + h.before.length) h.added.length :: (h.fragments.filterMap (hunkHeader chars) ++
      matched chars (new + h.before.length + h.added.length) hunks)

theorem found_hunks : ∀ (hunks : List Hunk) (old new : ℕ),
    (hunkLines old new hunks).flatMap (fun line => (line.splitOnP breaks).filterMap (hunkHeader chars)) =
      matched chars new hunks
  | [], _, _ => rfl
  | h :: hunks, old, new => by
    rw [hunkLines, List.flatMap_append, found_hunk, found_hunks hunks, matched]
    rfl

theorem findall_change {git : Git} {c : Change} (hplain : c.Plain) (hdiff : git.diff c.paths = c.diffText) :
    findall chars (git.text chars c.paths) = matched chars 0 c.hunks := by
  have hspace : ∀ l u, (∀ x ∈ u, chars.space x = true) → hunkHeader chars (l ++ u) = hunkHeader chars l := by
    intro l u hu
    refine hunkHeader_append (fun h => ?_) l
    have := (chars.space_ascii 64 (by decide)).mp (hu 64 h)
    omega
  have hd : chars.space 100 = false := by
    rw [← Bool.not_eq_true, chars.space_ascii 100 (by decide)]
    omega
  obtain ⟨names, rest, hfirst⟩ := hplain.first
  obtain ⟨t, ht⟩ : ∃ t, c.diffText = 100 :: t := by
    unfold Change.diffText
    rw [hfirst]
    exact ⟨_, rfl⟩
  have huniversal : universal (100 :: t) = 100 :: universal t := by simp [universal]
  have hheader : c.header.flatMap (fun line => (line.splitOnP breaks).filterMap (hunkHeader chars)) = [] := by
    rw [List.flatMap_eq_nil_iff]
    exact fun line hline => found_plain (hplain.header line hline).1 (hplain.header line hline).2
  unfold findall Git.text
  rw [hdiff, ht, huniversal, found_strip hunkHeader_nil hspace hd, ← huniversal, found_universal hunkHeader_nil, ← ht]
  unfold Change.diffText
  rw [found_lines hunkHeader_nil, List.flatMap_append, hheader, found_hunks, List.nil_append]

/-! ## The lines that are added -/

/-- For every hunk the lines of the new version before its own, and how many it adds. -/
def hunkRanges (new : ℕ) : List Hunk → List (ℕ × ℕ)
  | [] => []
  | h :: hunks => (new + h.before.length, h.added.length) ::
      hunkRanges (new + h.before.length + h.added.length) hunks

theorem hunkRanges_le : ∀ {hunks : List Hunk} {new : ℕ}, ∀ r ∈ hunkRanges new hunks, new ≤ r.1
  | [], _, r, hr => by cases hr
  | h :: hunks, new, r, hr => by
    rcases List.mem_cons.mp hr with rfl | hr
    · exact Nat.le_add_right _ _
    · have := hunkRanges_le r hr
      omega

theorem headLines_cons (h : Hunk) (hunks : List Hunk) (after : List Text) :
    headLines (h :: hunks) after = h.before.map (·, false) ++ (h.added.map (·, true) ++ headLines hunks after) := by
  unfold headLines
  rw [List.flatMap_cons, List.append_assoc, List.append_assoc]

/-- A line is added if and only if it is in the range of a hunk. -/
theorem headLines_added : ∀ (hunks : List Hunk) (after : List Text) (new i : ℕ),
    (headLines hunks after)[i]?.map Prod.snd = some true ↔
      ∃ r ∈ hunkRanges new hunks, r.1 ≤ new + i ∧ new + i < r.1 + r.2
  | [], after, new, i => by
    simp [headLines, hunkRanges]
  | h :: hunks, after, new, i => by
    have ih := headLines_added hunks after (new + h.before.length + h.added.length)
      (i - h.before.length - h.added.length)
    rw [headLines_cons, hunkRanges, List.exists_mem_cons_iff]
    by_cases hbefore : i < h.before.length
    · rw [List.getElem?_append_left (by simpa using hbefore)]
      constructor
      · intro hadded
        simp [hbefore] at hadded
      · rintro (hr | ⟨r, hr, hle, -⟩)
        · omega
        · have := hunkRanges_le r hr
          omega
    · rw [List.getElem?_append_right (by simpa using not_lt.mp hbefore), List.length_map]
      by_cases hadded : i - h.before.length < h.added.length
      · rw [List.getElem?_append_left (by simpa using hadded)]
        constructor
        · intro _
          exact .inl ⟨by omega, by omega⟩
        · intro _
          simp [hadded]
      · rw [List.getElem?_append_right (by simpa using not_lt.mp hadded), List.length_map, ih]
        have hi : new + h.before.length + h.added.length + (i - h.before.length - h.added.length) = new + i := by omega
        rw [hi]
        constructor
        · exact .inr
        · rintro (hr | hr)
          · omega
          · exact hr

theorem Change.mem_addedLines {c : Change} {n : ℕ} :
    n ∈ c.addedLines ↔ ∃ r ∈ hunkRanges 0 c.hunks, r.1 < n ∧ n ≤ r.1 + r.2 := by
  unfold Change.addedLines
  rw [Finset.mem_image]
  constructor
  · rintro ⟨i, hi, rfl⟩
    obtain ⟨r, hr, hle, hlt⟩ := (headLines_added c.hunks c.after 0 i).mp (Finset.mem_filter.mp hi).2
    exact ⟨r, hr, by omega, by omega⟩
  · rintro ⟨r, hr, hlt, hle⟩
    have hadded := (headLines_added c.hunks c.after 0 (n - 1)).mpr ⟨r, hr, by omega, by omega⟩
    refine ⟨n - 1, Finset.mem_filter.mpr ⟨Finset.mem_range.mpr ?_, hadded⟩, by omega⟩
    by_contra hout
    rw [List.getElem?_eq_none (not_lt.mp hout)] at hadded
    cases hadded

/-! ## Exactness for a file -/

theorem claimed_some {r : Groups} {a : Finset ℕ} (h : claimed chars r = some a) :
    ∃ first count, int chars r.1 = some first ∧ int chars (r.2.getD (text "1")) = some count ∧
      ∀ n, n ∈ a ↔ first ≤ n ∧ n < first + count := by
  unfold claimed at h
  obtain ⟨first, hfirst, h⟩ := Option.bind_eq_some_iff.mp h
  obtain ⟨count, hcount, h⟩ := Option.bind_eq_some_iff.mp h
  obtain rfl := Option.some.inj h
  refine ⟨first, count, hfirst, hcount, fun n => ?_⟩
  rw [Finset.mem_image]
  constructor
  · rintro ⟨k, hk, rfl⟩
    have := Finset.mem_range.mp hk
    omega
  · intro hn
    exact ⟨n - first, Finset.mem_range.mpr (by omega), by omega⟩

/-- What a hunk claims are its own lines. -/
theorem claimed_side {passed count : ℕ} {a : Finset ℕ} (h : claimed chars (side passed count) = some a) (n : ℕ) :
    n ∈ a ↔ passed < n ∧ n ≤ passed + count := by
  obtain ⟨first, k, hfirst, hk, hmem⟩ := claimed_some h
  rw [hmem]
  unfold side at hfirst hk
  split_ifs at hfirst hk with hzero hone <;> dsimp only [Option.getD] at hfirst hk
  · obtain rfl := int_number hfirst
    obtain rfl : k = 0 := int_number hk
    omega
  · obtain rfl := int_number hfirst
    obtain rfl : k = 1 := int_number hk
    omega
  · obtain rfl := int_number hfirst
    obtain rfl := int_number hk
    omega

theorem update_some : ∀ {matched : List Groups} {lines out : Finset ℕ}, update chars lines matched = some out →
    (∀ r ∈ matched, ∃ a, claimed chars r = some a) ∧
      ∀ n, n ∈ out ↔ n ∈ lines ∨ ∃ r ∈ matched, ∃ a, claimed chars r = some a ∧ n ∈ a
  | [], lines, out, h => by
    obtain rfl := Option.some.inj h
    simp
  | r :: matched, lines, out, h => by
    obtain ⟨more, hmore, h⟩ := Option.bind_eq_some_iff.mp h
    obtain ⟨hall, hmem⟩ := update_some h
    refine ⟨List.forall_mem_cons.mpr ⟨⟨more, hmore⟩, hall⟩, fun n => ?_⟩
    rw [hmem, Finset.mem_union, List.exists_mem_cons_iff, or_assoc]
    simp [hmore]

theorem update_exists : ∀ {matched : List Groups} (lines : Finset ℕ),
    (∀ r ∈ matched, ∃ a, claimed chars r = some a) → ∃ out, update chars lines matched = some out
  | [], lines, _ => ⟨lines, rfl⟩
  | r :: matched, lines, h => by
    obtain ⟨⟨more, hmore⟩, hall⟩ := List.forall_mem_cons.mp h
    obtain ⟨out, hout⟩ := update_exists (lines ∪ more) hall
    exact ⟨out, Option.bind_eq_some_iff.mpr ⟨more, hmore, hout⟩⟩

theorem mem_matched {r : Groups} : ∀ {hunks : List Hunk} {new : ℕ}, r ∈ matched chars new hunks ↔
    (∃ own ∈ hunkRanges new hunks, r = side own.1 own.2) ∨
      ∃ h ∈ hunks, ∃ s ∈ h.fragments, hunkHeader chars s = some r
  | [], new => by simp [matched, hunkRanges]
  | h :: hunks, new => by
    rw [matched, hunkRanges, List.mem_cons, List.mem_append, mem_matched, List.exists_mem_cons_iff,
      List.exists_mem_cons_iff, List.mem_filterMap, ← or_assoc, or_or_or_comm]

/-- Git's numbers can be read, and no text after a line break in a line of the file reads as a hunk
header, unless it claims lines that are added anyway. -/
structure Change.Unclaimed (chars : Characters) (c : Change) : Prop where
  legible : ∀ r ∈ hunkRanges 0 c.hunks, (claimed chars (side r.1 r.2)).isSome = true
  fragments : ∀ h ∈ c.hunks, ∀ s ∈ h.fragments, ∀ r, hunkHeader chars s = some r →
    ∃ a, claimed chars r = some a ∧ a ⊆ c.addedLines

/-- The lines that are found are those that are added if and only if no other line is claimed. -/
theorem fileLines_iff {git : Git} {c : Change} (hplain : c.Plain) (hdiff : git.diff c.paths = c.diffText) :
    fileLines chars git c.paths = .ok c.addedLines ↔ c.Unclaimed chars := by
  unfold fileLines
  rw [findall_change hplain hdiff]
  constructor
  · intro h
    split at h
    · cases h
    next out hout =>
    obtain rfl := Except.ok.inj h
    obtain ⟨hall, hmem⟩ := update_some hout
    refine ⟨fun r hr => ?_, fun h hh s hs r hr => ?_⟩
    · obtain ⟨a, ha⟩ := hall _ (mem_matched.mpr (.inl ⟨r, hr, rfl⟩))
      rw [ha]
      rfl
    · have hmatched : r ∈ matched chars 0 c.hunks := mem_matched.mpr (.inr ⟨h, hh, s, hs, hr⟩)
      obtain ⟨a, ha⟩ := hall r hmatched
      exact ⟨a, ha, fun n hn => (hmem n).mpr (.inr ⟨r, hmatched, a, ha, hn⟩)⟩
  · intro h
    have hall : ∀ r ∈ matched chars 0 c.hunks, ∃ a, claimed chars r = some a := by
      intro r hr
      rcases mem_matched.mp hr with ⟨own, hown, rfl⟩ | ⟨hunk, hh, s, hs, hr⟩
      · exact Option.isSome_iff_exists.mp (h.legible own hown)
      · obtain ⟨a, ha, -⟩ := h.fragments hunk hh s hs r hr
        exact ⟨a, ha⟩
    obtain ⟨out, hout⟩ := update_exists ∅ hall
    rw [hout]
    refine congrArg _ (Finset.ext fun n => ?_)
    rw [(update_some hout).2, Change.mem_addedLines]
    constructor
    · rintro (hn | ⟨r, hr, a, ha, hn⟩)
      · cases hn
      · rcases mem_matched.mp hr with ⟨own, hown, rfl⟩ | ⟨hunk, hh, s, hs, hr⟩
        · exact ⟨own, hown, (claimed_side ha n).mp hn⟩
        · obtain ⟨a', ha', hsub⟩ := h.fragments hunk hh s hs r hr
          obtain rfl := Option.some.inj (ha.symm.trans ha')
          exact Change.mem_addedLines.mp (hsub hn)
    · rintro ⟨own, hown, hn⟩
      obtain ⟨a, ha⟩ := Option.isSome_iff_exists.mp (h.legible own hown)
      exact .inr ⟨_, mem_matched.mpr (.inl ⟨own, hown, rfl⟩), a, ha, (claimed_side ha n).mpr hn⟩

/-! ## The loop -/

/-- The changes, one after the other. -/
def collect (chars : Characters) (git : Git) : List Change → Dict → Except Raised Dict
  | [], result => .ok result
  | c :: changes, result => do
    let lines ← fileLines chars git c.paths
    collect chars git changes (result.set c.name lines)

theorem splitOn_entries {entries : List Text} (h : ∀ entry ∈ entries, 0 ∉ entry) :
    (entries.flatMap (· ++ [0])).splitOn 0 = entries ++ [[]] := by
  induction entries with
  | nil => rfl
  | cons entry entries ih =>
    rw [List.flatMap_cons, List.append_assoc, List.singleton_append,
      List.splitOn_append_cons_self_of_not_mem (h entry List.mem_cons_self),
      ih fun e he => h e (List.mem_cons_of_mem _ he), List.cons_append]

theorem loop_changes {git : Git} : ∀ {changes : List Change}, (∀ c ∈ changes, c.Plain) → ∀ result,
    loop chars git (changes.flatMap Change.entries ++ [[]]) result = collect chars git changes result
  | [], _, result => by simp [loop, collect]
  | c :: changes, hplain, result => by
    obtain ⟨hc, hplain⟩ := List.forall_mem_cons.mp hplain
    have ih : ∀ result, loop chars git (changes.flatMap Change.entries ++ [[]]) result =
        collect chars git changes result := loop_changes hplain
    have htwo := hc.twoNames
    rw [List.flatMap_cons, List.append_assoc, collect]
    unfold Change.entries Change.paths
    cases hsource : c.source with
    | none =>
      rw [hsource] at htwo
      -- the last entry is empty, so there is an entry after the name
      obtain ⟨other, entries, hentries⟩ : ∃ other entries, changes.flatMap Change.entries ++ [[]] = other :: entries := by
        cases changes.flatMap Change.entries with
        | nil => exact ⟨[], [], rfl⟩
        | cons other entries => exact ⟨other, entries ++ [[]], rfl⟩
      unfold Change.entries Change.paths at hentries
      simp only [Option.toList_none, List.nil_append, List.cons_append, hentries]
      rw [loop, if_neg hc.status.2, htwo, Option.isSome_none, if_neg Bool.false_ne_true]
      refine congrArg _ (funext fun lines => ?_)
      rw [← hentries]
      exact ih _
    | some source =>
      rw [hsource] at htwo
      simp only [Option.toList_some, List.cons_append, List.nil_append]
      rw [loop, if_neg hc.status.2, htwo, Option.isSome_some, if_pos rfl]
      exact congrArg _ (funext fun lines => ih _)

theorem changedLines_eq {git : Git} {changes : List Change} (h : Prints git changes) :
    changedLines chars git = collect chars git changes [] := by
  have hentries : ∀ entry ∈ changes.flatMap Change.entries, 0 ∉ entry := by
    intro entry hentry
    obtain ⟨c, hc, hentry⟩ := List.mem_flatMap.mp hentry
    rcases List.mem_cons.mp hentry with rfl | hentry
    · exact (h.plain c hc).status.1
    · exact (h.plain c hc).names entry hentry
  unfold changedLines
  rw [h.status, nameStatus, splitOn_entries hentries]
  exact loop_changes h.plain []

theorem Dict.set_new {name : Text} {lines : Finset ℕ} : ∀ {result : Dict}, name ∉ result.map Prod.fst →
    Dict.set name lines result = result ++ [(name, lines)]
  | [], _ => rfl
  | item :: result, h => by
    obtain ⟨hne, hnew⟩ := not_or.mp (fun hmem => h (List.mem_cons.mpr hmem))
    rw [Dict.set, if_neg fun heq => hne heq.symm, Dict.set_new hnew]
    rfl

theorem fresh_set {c : Change} {changes : List Change} {result : Dict} (lines : Finset ℕ)
    (h : (result.map Prod.fst ++ (c :: changes).map Change.name).Nodup) :
    result.set c.name lines = result ++ [(c.name, lines)] ∧
      ((result ++ [(c.name, lines)]).map Prod.fst ++ changes.map Change.name).Nodup := by
  have hnew : c.name ∉ result.map Prod.fst := fun hmem =>
    List.disjoint_of_nodup_append h hmem (List.mem_cons_self ..)
  refine ⟨Dict.set_new hnew, ?_⟩
  rw [List.map_append, List.append_assoc]
  exact h

theorem collect_extends {git : Git} : ∀ {changes : List Change} {result out : Dict},
    (result.map Prod.fst ++ changes.map Change.name).Nodup → collect chars git changes result = .ok out →
    result <+: out
  | [], result, out, _, h => by
    obtain rfl := Except.ok.inj h
    exact List.prefix_refl _
  | c :: changes, result, out, hnodup, h => by
    obtain ⟨lines, -, h⟩ := Interleave.bind_ok.mp h
    obtain ⟨hset, hnodup⟩ := fresh_set lines hnodup
    rw [hset] at h
    exact (List.prefix_append ..).trans (collect_extends hnodup h)

/-- Every file has the lines that are added if and only if each file has. -/
theorem collect_iff {git : Git} : ∀ {changes : List Change} {result : Dict},
    (result.map Prod.fst ++ changes.map Change.name).Nodup →
    (collect chars git changes result = .ok (result ++ changes.map fun c => (c.name, c.addedLines)) ↔
      ∀ c ∈ changes, fileLines chars git c.paths = .ok c.addedLines)
  | [], result, _ => by simp [collect]
  | c :: changes, result, hnodup => by
    rw [List.forall_mem_cons]
    constructor
    · intro h
      obtain ⟨lines, hlines, h⟩ := Interleave.bind_ok.mp h
      obtain ⟨hset, hnodup⟩ := fresh_set lines hnodup
      rw [hset] at h
      obtain ⟨rest, hrest⟩ := collect_extends hnodup h
      rw [List.append_assoc, List.map_cons] at hrest
      obtain ⟨heq, -⟩ := List.cons.inj (List.append_cancel_left hrest)
      obtain rfl : lines = c.addedLines := congrArg Prod.snd heq
      refine ⟨hlines, (collect_iff hnodup).mp ?_⟩
      rw [h, List.append_assoc, List.map_cons]
      rfl
    · rintro ⟨hlines, hall⟩
      obtain ⟨hset, hnodup⟩ := fresh_set c.addedLines hnodup
      have ih := (collect_iff hnodup).mpr hall
      rw [collect, hlines]
      change collect chars git changes (result.set c.name c.addedLines) = _
      rw [hset, ih, List.append_assoc, List.map_cons]
      rfl

/-- The lines of every file are exact if and only if no other line is claimed. -/
theorem changedLines_iff {git : Git} {changes : List Change} (h : Prints git changes) :
    changedLines chars git = .ok (changes.map fun c => (c.name, c.addedLines)) ↔ ∀ c ∈ changes, c.Unclaimed chars := by
  have hiff : collect chars git changes [] = .ok (changes.map fun c => (c.name, c.addedLines)) ↔
      ∀ c ∈ changes, fileLines chars git c.paths = .ok c.addedLines := collect_iff h.distinct
  rw [changedLines_eq h, hiff]
  exact forall₂_congr fun c hc => fileLines_iff (h.plain c hc) (h.diff c hc)

end Coverage
