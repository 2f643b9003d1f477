import EngPlatform.RuntimeLogs.Revocation
import EngPlatform.Lib.Waterfill
import Mathlib.Data.Prod.Lex
import Mathlib.Data.String.Basic
import Mathlib.Data.List.Nodup
import Mathlib.Algebra.BigOperators.Ring.Finset

/-!
# The bound on all retained logs

`_bound_locked` stages what the caches keep and only then writes them. Its totals are kept up to date
entry by entry; the loop that recomputes them removes the same entries.
-/

set_option linter.dupNamespace false

namespace RuntimeLogs

open Interleave

variable {ω : Type} (site : Site ω)

/-! ## The section -/

/-- What the section does: look at its deadline and at the caches, and write one of them. -/
inductive Hold
  | remaining
  | caches
  | keep (row : Row)

abbrev Hold.Ans : Hold → Type
  | .remaining => Except Raised Unit
  | .caches => State
  | .keep _ => Unit

abbrev Held (α : Type) : Type := Prog Hold.Ans Raised α

def hold (a : Hold) : Held a.Ans := .call a

/-- `deadline.remaining()`. -/
def remaining : Held Unit := do
  let answer ← hold .remaining
  Prog.lift answer

/-- The sizes of the caches, and of the entries by their ids. -/
structure Sizes where
  sizes : ℕ → Int
  rowSizes : String → Int

def Sizes.add (m : Sizes) (cache : ℕ) (entry : LogEntry) : Sizes where
  sizes := Function.update m.sizes cache (m.sizes cache + site.size entry)
  rowSizes := Function.update m.rowSizes entry.id (site.size entry)

def measure (cache : ℕ) : List LogEntry → Sizes → Held Sizes
  | [], m => pure m
  | entry :: entries, m => do
    remaining
    measure cache entries (m.add site cache entry)

def measureAll : List Row → Sizes → Held Sizes
  | [], m => pure m
  | row :: rows, m => do
    let m ← measure site row.cache row.entries { m with sizes := Function.update m.sizes row.cache 0 }
    measureAll rows m

/-- The entries that are to be retained, and their totals. -/
structure Staged extends Sizes where
  retained : List Row
  count : Int
  size : Int

def Staged.over (st : Staged) : Prop := (site.bufferEntries : Int) < st.count ∨ (site.bufferBytes : Int) < st.size

instance (st : Staged) : Decidable (st.over site) := inferInstanceAs (Decidable (_ ∨ _))

/-- The first of the heaviest rows; of two equal ones the one that was touched less recently. -/
def State.heaviest (s : State) (weight : Row → Int) : List Row → Option Row
  | [] => none
  | row :: rows =>
    match s.heaviest weight rows with
    | none => some row
    | some best =>
      some (if weight row < weight best ∨ weight row = weight best ∧
          (s.caches best.cache).fields.touched < (s.caches row.cache).fields.touched then best else row)

def Staged.weight (st : Staged) (row : Row) : Int :=
  if (site.bufferEntries : Int) < st.count then row.entries.length else st.sizes row.cache

/-- `del entries[oldest]`. -/
def Row.remove (row : Row) (id : String) : Row :=
  { row with entries := row.entries.filter fun entry => entry.id ≠ id, evicted := true }

/-- A turn of the loop, that ends where there is nothing to remove. -/
def Staged.evictOldest (st : Staged) (s : State) : Option Staged :=
  match s.heaviest (st.weight site) (st.retained.filter fun row => !row.entries.isEmpty) with
  | none => none
  | some best =>
    match oldestEntry best.entries with
    | none => none
    | some oldest =>
      let removed := st.rowSizes oldest.id
      some { st with
        retained := st.retained.map fun row => if row.cache = best.cache then row.remove oldest.id else row
        sizes := Function.update st.sizes best.cache (st.sizes best.cache - removed)
        size := st.size - removed
        count := st.count - 1 }

def total (rows : List Row) : ℕ := (rows.map fun row => row.entries.length).sum

theorem heaviest_mem {s : State} {weight : Row → Int} : ∀ {rows : List Row} {best : Row},
    s.heaviest weight rows = some best → best ∈ rows
  | [], _, h => by cases h
  | row :: rows, best, h => by
    unfold State.heaviest at h
    cases hbest : s.heaviest weight rows with
    | none =>
      rw [hbest] at h
      obtain rfl := Option.some.inj h
      exact List.mem_cons_self ..
    | some best' =>
      rw [hbest] at h
      dsimp only at h
      split_ifs at h
      · obtain rfl := Option.some.inj h
        exact List.mem_cons_of_mem _ (heaviest_mem hbest)
      · obtain rfl := Option.some.inj h
        exact List.mem_cons_self ..

theorem length_remove (row : Row) (id : String) : (row.remove id).entries.length ≤ row.entries.length :=
  List.length_filter_le ..

theorem length_remove_lt {row : Row} {entry : LogEntry} (h : entry ∈ row.entries) :
    (row.remove entry.id).entries.length < row.entries.length := by
  refine List.length_filter_lt_length_iff_exists.mpr ⟨entry, h, ?_⟩
  simp

variable {site}

theorem evictOldest_lt {st st' : Staged} {s : State} (h : st.evictOldest site s = some st') :
    total st'.retained < total st.retained := by
  unfold Staged.evictOldest at h
  cases hbest : s.heaviest (st.weight site) (st.retained.filter fun row => !row.entries.isEmpty) with
  | none =>
    rw [hbest] at h
    cases h
  | some best =>
    cases holdest : oldestEntry best.entries with
    | none =>
      rw [hbest] at h
      dsimp only at h
      rw [holdest] at h
      cases h
    | some oldest =>
      rw [hbest] at h
      dsimp only at h
      rw [holdest] at h
      obtain rfl := Option.some.inj h
      have hmem : best ∈ st.retained := (List.mem_filter.mp (heaviest_mem hbest)).1
      unfold total
      dsimp only
      rw [List.map_map]
      refine List.sum_lt_sum _ _ (fun row _ => ?_) ⟨best, hmem, ?_⟩
      · dsimp only [Function.comp]
        split_ifs
        · exact length_remove row oldest.id
        · exact Nat.le_refl _
      · dsimp only [Function.comp]
        rw [if_pos rfl]
        exact length_remove_lt (oldestEntry_mem holdest)

variable (site)

/-- The loop. Every turn removes an entry. -/
def evict (st : Staged) : Held Staged :=
  if st.over site then do
    remaining
    let s ← hold .caches
    match _h : st.evictOldest site s with
    | none => .raise (.outside "max() iterable argument is empty")
    | some st' => evict st'
  else pure st
termination_by total st.retained
decreasing_by exact evictOldest_lt _h

def keepAll : List Row → Held Unit
  | [] => pure ()
  | row :: rows => do
    hold (.keep row)
    keepAll rows

/-- What the caches have, and the target is to have. -/
def State.retained (s : State) (target : ℕ) (updated : List LogEntry) : List Row :=
  s.registry.map fun row => ⟨row.2, if row.2 = target then updated else (s.caches row.2).entries, false⟩

/-- What is retained, until it is published. -/
def stage (target : ℕ) (updated : List LogEntry) : Held (List Row) := do
  let s ← hold .caches
  let retained := s.retained target updated
  let sizes ← measureAll site retained ⟨fun _ => 0, fun _ => 0⟩
  let staged ← evict site
    { sizes with
      retained
      count := total retained
      size := (retained.map fun row => sizes.sizes row.cache).sum }
  remaining
  pure staged.retained

/-- `_bound_locked`, on a target that is registered. -/
def boundLocked (target : ℕ) (updated : List LogEntry) : Held Unit := do
  let retained ← stage site target updated
  keepAll retained

/-- How often the deadline was looked at, and the caches. -/
structure Section where
  checks : ℕ
  state : State

/-- The deadline expires at any of the checks. -/
def Section.answer (expires : ℕ → Bool) (w : Section) : (a : Hold) → Section × a.Ans
  | .remaining => ({ w with checks := w.checks + 1 }, if expires w.checks then .error .expired else .ok ())
  | .caches => (w, w.state)
  | .keep row => ({ w with state := w.state.modify row.cache fun cache => cache.keep row }, ())

/-! ## What the loop takes away -/

/-- The place of an entry in the order of timestamps and ids. -/
def LogEntry.place (entry : LogEntry) : ℤ ×ₗ String := toLex (entry.timestamp, entry.id)

theorem place_lt {a b : LogEntry} :
    a.place < b.place ↔ a.timestamp < b.timestamp ∨ a.timestamp = b.timestamp ∧ a.id < b.id :=
  Prod.Lex.toLex_lt_toLex

theorem oldestEntry_le : ∀ {entries : List LogEntry} {oldest : LogEntry}, oldestEntry entries = some oldest →
    ∀ entry ∈ entries, oldest.place ≤ entry.place
  | [], _, h => by cases h
  | entry :: entries, oldest, h => by
    unfold oldestEntry at h
    cases hbest : oldestEntry entries with
    | none =>
      rw [hbest] at h
      obtain rfl := Option.some.inj h
      cases entries with
      | nil => simp
      | cons entry' entries =>
        unfold oldestEntry at hbest
        split at hbest <;> cases hbest
    | some best =>
      have hle := oldestEntry_le hbest
      rw [hbest] at h
      simp only [← place_lt] at h
      obtain rfl := Option.some.inj h
      intro entry' hentry'
      rcases List.mem_cons.mp hentry' with rfl | hentry'
      · split_ifs with hlt
        · exact hlt.le
        · exact le_rfl
      · split_ifs with hlt
        · exact hle entry' hentry'
        · exact (not_lt.mp hlt).trans (hle entry' hentry')

theorem oldestEntry_ne_none {entries : List LogEntry} (h : entries ≠ []) : oldestEntry entries ≠ none := by
  cases entries with
  | nil => exact absurd rfl h
  | cons entry entries =>
    unfold oldestEntry
    split <;> simp

def Row.Distinct (row : Row) : Prop := (row.entries.map (·.id)).Nodup

/-- A row that has lost the oldest of its entries, if any. -/
structure Row.Cut (row row' : Row) : Prop where
  cache : row'.cache = row.cache
  sublist : row'.entries.Sublist row.entries
  older : ∀ entry ∈ row.entries, entry ∉ row'.entries → ∀ kept ∈ row'.entries, entry.place < kept.place
  evicted : row'.evicted = true ↔ row.evicted = true ∨ row'.entries.length < row.entries.length

theorem Row.Cut.refl (row : Row) : row.Cut row :=
  ⟨rfl, List.Sublist.refl _, fun _ h h' => absurd h h', by simp⟩

theorem Row.Cut.trans {row row' row'' : Row} (h : row.Cut row') (h' : row'.Cut row'') : row.Cut row'' where
  cache := h'.cache.trans h.cache
  sublist := h'.sublist.trans h.sublist
  older entry hentry hlost kept hkept := by
    by_cases hin : entry ∈ row'.entries
    · exact h'.older entry hin hlost kept hkept
    · exact h.older entry hentry hin kept (h'.sublist.subset hkept)
  evicted := by
    have hle := h.sublist.length_le
    have hle' := h'.sublist.length_le
    rw [h'.evicted, h.evicted]
    constructor
    · rintro ((h | h) | h)
      · exact .inl h
      · exact .inr (by omega)
      · exact .inr (by omega)
    · rintro (h | h)
      · exact .inl (.inl h)
      · by_cases hlt : row'.entries.length < row.entries.length
        · exact .inl (.inr hlt)
        · exact .inr (by omega)

theorem Row.Cut.distinct {row row' : Row} (h : row.Cut row') (hd : row.Distinct) : row'.Distinct :=
  (h.sublist.map _).nodup hd

/-- Of distinct entries, only the one with the id is removed. -/
theorem filter_id {entries : List LogEntry} (hd : (entries.map (·.id)).Nodup) {entry : LogEntry}
    (h : entry ∈ entries) : entries.filter (fun e => e.id ≠ entry.id) = entries.erase entry := by
  have hnodup : entries.Nodup := hd.of_map _
  rw [hnodup.erase_eq_filter]
  refine List.filter_congr fun e he => ?_
  have hiff : e.id = entry.id ↔ e = entry := ⟨fun hid => List.inj_on_of_nodup_map hd he h hid, fun heq => heq ▸ rfl⟩
  simp [hiff, bne, beq_eq_decide]

theorem Row.drop_of_oldest {row : Row} {oldest : LogEntry} (hd : row.Distinct)
    (h : oldestEntry row.entries = some oldest) : row.drop = row.remove oldest.id := by
  unfold Row.drop Row.remove
  rw [h, filter_id hd (oldestEntry_mem h)]

theorem Row.drop_length {row : Row} (h : row.entries ≠ []) :
    row.drop.entries.length + 1 = row.entries.length := by
  cases holdest : oldestEntry row.entries with
  | none => exact absurd holdest (oldestEntry_ne_none h)
  | some oldest =>
    have hmem := oldestEntry_mem holdest
    have hpos := List.length_pos_of_mem hmem
    unfold Row.drop
    rw [holdest]
    dsimp only
    rw [List.length_erase_of_mem hmem]
    omega

theorem Row.drop_cut {row : Row} (hd : row.Distinct) (h : row.entries ≠ []) : row.Cut row.drop := by
  have hlength := Row.drop_length h
  cases holdest : oldestEntry row.entries with
  | none => exact absurd holdest (oldestEntry_ne_none h)
  | some oldest =>
    have hmem := oldestEntry_mem holdest
    have hnodup : row.entries.Nodup := hd.of_map _
    have hdrop : row.drop = { row with entries := row.entries.erase oldest, evicted := true } := by
      unfold Row.drop
      rw [holdest]
    rw [hdrop] at hlength ⊢
    refine ⟨rfl, List.erase_sublist, fun entry hentry hlost kept hkept => ?_, ?_⟩
    · obtain rfl : entry = oldest := by
        by_contra hne
        exact hlost ((List.mem_erase_of_ne hne).mpr hentry)
      obtain ⟨hne, hin⟩ := hnodup.mem_erase_iff.mp hkept
      refine lt_of_le_of_ne (oldestEntry_le holdest kept hin) fun heq => hne ?_
      have hid : entry.id = kept.id := congrArg Prod.snd (toLex.injective heq)
      exact List.inj_on_of_nodup_map hd hin hmem hid.symm
    · dsimp only at hlength ⊢
      simp only [true_iff]
      exact .inr (by omega)

/-- One row for each cache, and no id twice in a row. -/
structure Rows (rows : List Row) : Prop where
  caches : (rows.map (·.cache)).Nodup
  distinct : ∀ row ∈ rows, row.Distinct

/-- Row by row. -/
structure Trimmed (rows rows' : List Row) : Prop where
  caches : rows'.map (·.cache) = rows.map (·.cache)
  cut : ∀ row ∈ rows, ∃ row' ∈ rows', row.Cut row'

theorem Trimmed.refl (rows : List Row) : Trimmed rows rows := ⟨rfl, fun row h => ⟨row, h, .refl row⟩⟩

theorem Trimmed.trans {rows rows' rows'' : List Row} (h : Trimmed rows rows') (h' : Trimmed rows' rows'') :
    Trimmed rows rows'' := by
  refine ⟨h'.caches.trans h.caches, fun row hrow => ?_⟩
  obtain ⟨row', hrow', hcut⟩ := h.cut row hrow
  obtain ⟨row'', hrow'', hcut'⟩ := h'.cut row' hrow'
  exact ⟨row'', hrow'', hcut.trans hcut'⟩

theorem Rows.eq {rows : List Row} (h : Rows rows) {row row' : Row} (hrow : row ∈ rows) (hrow' : row' ∈ rows)
    (hcache : row.cache = row'.cache) : row = row' :=
  List.inj_on_of_nodup_map h.caches hrow hrow' hcache

def bytes (rows : List Row) : ℕ := (rows.map (Row.bytes site)).sum

/-- The rows after a turn that removes from this one. -/
def turn (rows : List Row) (best : Row) : List Row :=
  rows.map fun row => if row.cache = best.cache then row.drop else row

variable {site}

theorem Rows.turn {rows : List Row} (h : Rows rows) {best : Row} (hbest : best ∈ rows)
    (hne : best.entries ≠ []) : Rows (turn rows best) ∧ Trimmed rows (turn rows best) := by
  have hcut (row : Row) (hrow : row ∈ rows) : row.Cut (if row.cache = best.cache then row.drop else row) := by
    split_ifs with hcache
    · obtain rfl := h.eq hrow hbest hcache
      exact Row.drop_cut (h.distinct row hrow) hne
    · exact .refl row
  have hcaches : (RuntimeLogs.turn rows best).map (·.cache) = rows.map (·.cache) := by
    unfold RuntimeLogs.turn
    rw [List.map_map]
    exact List.map_congr_left fun row hrow => (hcut row hrow).cache
  refine ⟨⟨hcaches ▸ h.caches, fun row' hrow' => ?_⟩, ⟨hcaches, fun row hrow => ?_⟩⟩
  · obtain ⟨row, hrow, rfl⟩ := List.mem_map.mp hrow'
    exact (hcut row hrow).distinct (h.distinct row hrow)
  · exact ⟨_, List.mem_map_of_mem hrow, hcut row hrow⟩

/-- Only the row of that cache changes. -/
theorem sum_turn {rows : List Row} (h : Rows rows) {best : Row} (hbest : best ∈ rows) (f : Row → ℕ) {n : ℕ}
    (hdrop : f best.drop + n = f best) :
    ((turn rows best).map f).sum + n = (rows.map f).sum := by
  obtain ⟨before, after, hsplit⟩ := List.append_of_mem hbest
  have hother (row : Row) (hrow : row ∈ before ∨ row ∈ after) : row.cache ≠ best.cache := by
    have hnodup := h.caches
    rw [hsplit] at hnodup
    simp only [List.map_append, List.map_cons, List.nodup_append, List.nodup_cons, List.mem_map] at hnodup
    rcases hrow with hrow | hrow
    · exact hnodup.2.2 _ ⟨row, hrow, rfl⟩ _ (List.mem_cons_self ..)
    · exact fun heq => hnodup.2.1.1 ⟨row, hrow, heq⟩
  have hsame (part : List Row) (hpart : ∀ row ∈ part, row ∈ before ∨ row ∈ after) :
      turn part best = part :=
    (List.map_congr_left fun row hrow => if_neg (hother row (hpart row hrow))).trans (List.map_id' part)
  have hturn : turn rows best = before ++ best.drop :: after := by
    rw [hsplit]
    unfold turn at hsame ⊢
    rw [List.map_append, List.map_cons, if_pos rfl, hsame before fun row h => .inl h, hsame after fun row h => .inr h]
  rw [hturn, hsplit]
  simp only [List.map_append, List.map_cons, List.sum_append, List.sum_cons]
  omega

theorem largest_mem {s : State} {weight : Row → ℕ} : ∀ {rows : List Row} {best : Row},
    s.largest weight rows = some best → best ∈ rows ∧ ∀ row ∈ rows, weight row ≤ weight best
  | [], _, h => by cases h
  | row :: rows, best, h => by
    unfold State.largest at h
    cases hbest : s.largest weight rows with
    | none =>
      rw [hbest] at h
      obtain rfl := Option.some.inj h
      cases rows with
      | nil => simp
      | cons row' rows =>
        unfold State.largest at hbest
        split at hbest <;> cases hbest
    | some best' =>
      obtain ⟨hmem, hle⟩ := largest_mem hbest
      rw [hbest] at h
      dsimp only at h
      split_ifs at h with hlt
      · obtain rfl := Option.some.inj h
        refine ⟨List.mem_cons_of_mem _ hmem, fun row' hrow' => ?_⟩
        rcases List.mem_cons.mp hrow' with rfl | hrow'
        · omega
        · exact hle row' hrow'
      · obtain rfl := Option.some.inj h
        refine ⟨List.mem_cons_self .., fun row' hrow' => ?_⟩
        rcases List.mem_cons.mp hrow' with rfl | hrow'
        · exact Nat.le_refl _
        · have := hle row' hrow'
          omega

theorem largest_isSome (s : State) (weight : Row → ℕ) {rows : List Row} (h : rows ≠ []) :
    ∃ best, s.largest weight rows = some best := by
  cases rows with
  | nil => exact absurd rfl h
  | cons row rows =>
    unfold State.largest
    split
    · exact ⟨_, rfl⟩
    · exact ⟨_, rfl⟩

def Over (site : Site ω) (rows : List Row) : Prop :=
  site.bufferEntries < total rows ∨ site.bufferBytes < bytes site rows

/-- The weight of a row in the next turn. -/
def weightOf (site : Site ω) (rows : List Row) (row : Row) : ℕ :=
  if site.bufferEntries < total rows then row.entries.length else Row.bytes site row

theorem Over.nonempty {rows : List Row} (h : Over site rows) :
    (rows.filter fun row => !row.entries.isEmpty) ≠ [] := by
  intro hnone
  have hempty (row : Row) (hrow : row ∈ rows) : row.entries = [] := by
    simpa using List.filter_eq_nil_iff.mp hnone row hrow
  have htotal : total rows = 0 := List.sum_eq_zero fun n hn => by
    obtain ⟨row, hrow, rfl⟩ := List.mem_map.mp hn
    rw [hempty row hrow]
    rfl
  have hbytes : bytes site rows = 0 := List.sum_eq_zero fun n hn => by
    obtain ⟨row, hrow, rfl⟩ := List.mem_map.mp hn
    unfold Row.bytes
    rw [hempty row hrow]
    rfl
  unfold Over at h
  omega

/-- A turn of the loop takes the oldest entry of a row that has the most. -/
theorem drain_succ (s : State) (fuel : ℕ) {rows : List Row} (h : Over site rows) :
    ∃ best ∈ rows, best.entries ≠ [] ∧
      s.largest (weightOf site rows) (rows.filter fun row => !row.entries.isEmpty) = some best ∧
      (∀ row ∈ rows, row.entries ≠ [] → weightOf site rows row ≤ weightOf site rows best) ∧
      s.drain site (fuel + 1) rows = s.drain site fuel (turn rows best) := by
  obtain ⟨best, hbest⟩ := largest_isSome s (weightOf site rows) h.nonempty
  obtain ⟨hmem, hmax⟩ := largest_mem hbest
  obtain ⟨hrow, hne⟩ := List.mem_filter.mp hmem
  have hne : best.entries ≠ [] := by simpa using hne
  refine ⟨best, hrow, hne, hbest, fun row hrow hentries => ?_, ?_⟩
  · exact hmax row (List.mem_filter.mpr ⟨hrow, by simpa using hentries⟩)
  · conv_lhs => unfold State.drain
    dsimp only
    have hover := h
    unfold Over total bytes at hover
    unfold weightOf total at hbest
    rw [if_pos hover, hbest]
    rfl

theorem drain_of_not_over (s : State) (fuel : ℕ) {rows : List Row} (h : ¬Over site rows) :
    s.drain site fuel rows = rows := by
  cases fuel with
  | zero => rfl
  | succ fuel =>
    unfold State.drain
    exact if_neg h

theorem total_turn {rows : List Row} (h : Rows rows) {best : Row} (hbest : best ∈ rows)
    (hne : best.entries ≠ []) : total (turn rows best) + 1 = total rows :=
  sum_turn h hbest _ (Row.drop_length hne)

theorem bytes_drop_le (site : Site ω) (row : Row) : Row.bytes site row.drop ≤ Row.bytes site row := by
  have hsub : row.drop.entries.Sublist row.entries := by
    unfold Row.drop
    split
    · exact List.Sublist.refl _
    · exact List.erase_sublist
  exact (hsub.map site.size).sum_le_sum fun _ _ => Nat.zero_le _

theorem bytes_turn_le (rows : List Row) (best : Row) : bytes site (turn rows best) ≤ bytes site rows := by
  unfold bytes turn
  rw [List.map_map]
  refine List.sum_le_sum fun row _ => ?_
  dsimp only [Function.comp]
  split_ifs
  · exact bytes_drop_le site row
  · exact Nat.le_refl _

/-- The loop comes to an end within its bounds. -/
theorem drain_spec (s : State) : ∀ (fuel : ℕ) {rows : List Row}, Rows rows → total rows ≤ fuel →
    Rows (s.drain site fuel rows) ∧ Trimmed rows (s.drain site fuel rows) ∧ ¬Over site (s.drain site fuel rows)
  | 0, rows, hrows, hfuel => by
    refine ⟨hrows, .refl rows, fun hover => ?_⟩
    obtain ⟨best, hbest, hne, -⟩ := drain_succ s 0 hover
    have := total_turn hrows hbest hne
    omega
  | fuel + 1, rows, hrows, hfuel => by
    by_cases hover : Over site rows
    · obtain ⟨best, hbest, hne, -, -, heq⟩ := drain_succ s fuel hover
      obtain ⟨hturn, htrimmed⟩ := hrows.turn hbest hne
      have htotal := total_turn hrows hbest hne
      rw [heq]
      obtain ⟨hdrain, htrimmed', hin⟩ := drain_spec s fuel hturn (by omega)
      exact ⟨hdrain, htrimmed.trans htrimmed', hin⟩
    · rw [drain_of_not_over s _ hover]
      exact ⟨hrows, .refl rows, hover⟩

/-! ## The cut -/

def rowOf (rows : List Row) (cache : ℕ) : Option Row := rows.find? fun row => row.cache = cache

def lengthOf (rows : List Row) (cache : ℕ) : ℕ := (rowOf rows cache).elim 0 fun row => row.entries.length

theorem Rows.rowOf_eq {rows : List Row} (h : Rows rows) {row : Row} (hrow : row ∈ rows) :
    rowOf rows row.cache = some row := by
  unfold rowOf
  cases hfind : rows.find? fun row' => row'.cache = row.cache with
  | none => simpa using List.find?_eq_none.mp hfind row hrow
  | some row' =>
    have hcache := List.find?_some hfind
    exact congrArg some (h.eq (List.mem_of_find?_eq_some hfind) hrow (of_decide_eq_true hcache))

theorem Rows.lengthOf_eq {rows : List Row} (h : Rows rows) {row : Row} (hrow : row ∈ rows) :
    lengthOf rows row.cache = row.entries.length := by
  unfold lengthOf
  rw [h.rowOf_eq hrow]
  rfl

theorem rowOf_mem {rows : List Row} {cache : ℕ} {row : Row} (h : rowOf rows cache = some row) :
    row ∈ rows ∧ row.cache = cache := by
  have hcache := List.find?_some h
  exact ⟨List.mem_of_find?_eq_some h, of_decide_eq_true hcache⟩

theorem rowOf_isSome {rows : List Row} {cache : ℕ} (h : cache ∈ rows.map (·.cache)) :
    ∃ row ∈ rows, row.cache = cache := List.mem_map.mp h

theorem drop_cache (row : Row) : row.drop.cache = row.cache := (drop_entries row).1

theorem rowOf_turn (rows : List Row) (best : Row) {cache : ℕ} (h : cache ≠ best.cache) :
    rowOf (turn rows best) cache = rowOf rows cache := by
  unfold rowOf turn
  rw [List.find?_map]
  have hsame : ((fun row : Row => decide (row.cache = cache)) ∘
      fun row => if row.cache = best.cache then row.drop else row) = fun row => decide (row.cache = cache) := by
    funext row
    dsimp only [Function.comp]
    split_ifs
    · rw [drop_cache]
    · rfl
  rw [hsame]
  cases hfind : rows.find? fun row => row.cache = cache with
  | none => rfl
  | some row =>
    have hcache := List.find?_some hfind
    have hne : row.cache ≠ best.cache := fun heq => h ((of_decide_eq_true hcache).symm.trans heq)
    rw [Option.map_some, if_neg hne]

/-- The caches of the rows. -/
def cachesOf (rows : List Row) : Finset ℕ := (rows.map (·.cache)).toFinset

theorem Rows.sum_lengthOf {rows : List Row} (h : Rows rows) :
    ∑ cache ∈ cachesOf rows, lengthOf rows cache = total rows := by
  unfold cachesOf
  rw [List.sum_toFinset _ h.caches, List.map_map]
  exact congrArg List.sum (List.map_congr_left fun row hrow => h.lengthOf_eq hrow)

/-- While the bytes are within their bound, each turn takes from one of the longest rows. -/
theorem turn_fair {rows : List Row} (h : Rows rows) (hbytes : bytes site rows ≤ site.bufferBytes)
    {orig : ℕ → ℕ} (hcut : Waterfill.Cut (cachesOf rows) orig (lengthOf rows)) {best : Row}
    (hbest : best ∈ rows) (hne : best.entries ≠ []) (hover : Over site rows)
    (hmax : ∀ row ∈ rows, row.entries ≠ [] → weightOf site rows row ≤ weightOf site rows best) :
    Waterfill.Cut (cachesOf rows) orig (lengthOf (turn rows best)) := by
  obtain ⟨hturn, -⟩ := h.turn hbest hne
  have hcount : site.bufferEntries < total rows := hover.resolve_right (by omega)
  refine hcut.step (k := best.cache) (fun cache hcache => ?_) ?_ fun cache hother => ?_
  · obtain ⟨row, hrow, rfl⟩ := rowOf_isSome (List.mem_toFinset.mp hcache)
    rw [h.lengthOf_eq hrow, h.lengthOf_eq hbest]
    by_cases hentries : row.entries = []
    · rw [hentries]
      exact Nat.zero_le _
    · have hle := hmax row hrow hentries
      unfold weightOf at hle
      rwa [if_pos hcount, if_pos hcount] at hle
  · have hmem : best.drop ∈ turn rows best := List.mem_map.mpr ⟨best, hbest, if_pos rfl⟩
    have hdrop := hturn.lengthOf_eq hmem
    rw [drop_cache] at hdrop
    rw [hdrop, h.lengthOf_eq hbest]
    exact Row.drop_length hne
  · unfold lengthOf
    rw [rowOf_turn rows best hother]

theorem drain_fair (s : State) {orig : ℕ → ℕ} : ∀ (fuel : ℕ) {rows : List Row}, Rows rows →
    bytes site rows ≤ site.bufferBytes → Waterfill.Cut (cachesOf rows) orig (lengthOf rows) →
    site.bufferEntries ≤ total rows →
    Waterfill.Cut (cachesOf rows) orig (lengthOf (s.drain site fuel rows)) ∧
      site.bufferEntries ≤ total (s.drain site fuel rows)
  | 0, _, _, _, hcut, hcount => ⟨hcut, hcount⟩
  | fuel + 1, rows, hrows, hbytes, hcut, hcount => by
    by_cases hover : Over site rows
    · obtain ⟨best, hbest, hne, -, hmax, heq⟩ := drain_succ s fuel hover
      obtain ⟨hturn, htrimmed⟩ := hrows.turn hbest hne
      have htotal := total_turn hrows hbest hne
      have hless := hover.resolve_right (by omega)
      have hcaches : cachesOf (turn rows best) = cachesOf rows := congrArg List.toFinset htrimmed.caches
      rw [heq, ← hcaches]
      refine drain_fair s fuel hturn ((bytes_turn_le rows best).trans hbytes) ?_ (by omega)
      rw [hcaches]
      exact turn_fair hrows hbytes hcut hbest hne hover hmax
    · rw [drain_of_not_over s _ hover]
      exact ⟨hcut, hcount⟩

/-! ## The bound -/

/-- What a cache has before the bound: what it is given, if it is the target. -/
def State.given (s : State) (target : ℕ) (updated : List LogEntry) (cache : ℕ) : List LogEntry :=
  if cache = target then updated else (s.caches cache).entries

/-- Each key has its own cache, the target is registered, and no two entries have the same id. -/
structure Admissible (s : State) (target : ℕ) (updated : List LogEntry) : Prop where
  caches : (s.registry.map (·.2)).Nodup
  registered : target ∈ s.registry.map (·.2)
  ids : (s.registry.flatMap fun row => (s.given target updated row.2).map (·.id)).Nodup

def sorted (entries : List LogEntry) : List LogEntry := entries.mergeSort fun a b => a.place ≤ b.place

/-- A max-min fair division of `bound`: the registered caches are cut down to a level, and nothing is
given to one of them in another division without another falling to what that one had. -/
structure Fair (caches : List ℕ) (before after : ℕ → ℕ) (bound : ℕ) : Prop where
  total : (caches.map after).sum = bound
  level : ∃ level, ∀ cache ∈ caches,
    min (before cache) level ≤ after cache ∧ after cache ≤ min (before cache) (level + 1)
  maxmin : ∀ other : ℕ → ℕ, (∀ cache ∈ caches, other cache ≤ before cache) → (caches.map other).sum ≤ bound →
    ∀ cache ∈ caches, after cache < other cache →
      ∃ cache' ∈ caches, other cache' < after cache' ∧ other cache' ≤ after cache

/-- The caches after the bound. -/
structure Bounded (site : Site ω) (s : State) (target : ℕ) (updated : List LogEntry) (s' : State) : Prop where
  registry : s'.registry = s.registry
  entries : (s.registry.map fun row => (s'.caches row.2).entries.length).sum ≤ site.bufferEntries
  bytes : (s.registry.map fun row => ((s'.caches row.2).entries.map site.size).sum).sum ≤ site.bufferBytes
  suffix : ∀ row ∈ s.registry, sorted (s'.caches row.2).entries <:+ sorted (s.given target updated row.2)
  fair : site.bufferEntries < (s.registry.map fun row => (s.given target updated row.2).length).sum →
    (s.registry.map fun row => ((s.given target updated row.2).map site.size).sum).sum ≤ site.bufferBytes →
    Fair (s.registry.map (·.2)) (fun cache => (s.given target updated cache).length)
      (fun cache => (s'.caches cache).entries.length) site.bufferEntries
  untouched : ∀ row ∈ s.registry, (s'.caches row.2).entries.length = (s.given target updated row.2).length →
    s'.caches row.2 = { s.caches row.2 with entries := s.given target updated row.2 }
  evicted : ∀ row ∈ s.registry, (s'.caches row.2).entries.length ≠ (s.given target updated row.2).length →
    (s'.caches row.2).fields.truncated = true ∧ (s'.caches row.2).fields.cacheEvicted = true ∧
      (s'.caches row.2).fields.status =
        (if (s.caches row.2).fields.status = .fresh then .stale else (s.caches row.2).fields.status)
  others : ∀ cache, cache ∉ s.registry.map (·.2) → s'.caches cache = s.caches cache

theorem sorted_suffix {row row' : Row} (h : row.Cut row') (hd : row.Distinct) :
    sorted row'.entries <:+ sorted row.entries := by
  have hnodup : row.entries.Nodup := hd.of_map _
  have htrans : ∀ a b c : LogEntry, decide (a.place ≤ b.place) = true → decide (b.place ≤ c.place) = true →
      decide (a.place ≤ c.place) = true := by
    intro a b c hab hbc
    exact decide_eq_true ((of_decide_eq_true hab).trans (of_decide_eq_true hbc))
  have htotal : ∀ a b : LogEntry, (decide (a.place ≤ b.place) || decide (b.place ≤ a.place)) = true := by
    intro a b
    rcases le_total a.place b.place with h | h <;> simp [h]
  have hpairwise (entries : List LogEntry) :
      (sorted entries).Pairwise fun a b => decide (a.place ≤ b.place) = true :=
    List.pairwise_mergeSort htrans htotal entries
  have hkept : (row.entries.filter fun e => e ∈ row'.entries).Perm row'.entries := by
    refine (List.perm_ext_iff_of_nodup (hnodup.filter _) (h.sublist.nodup hnodup)).mpr fun e => ?_
    simpa using fun he => h.sublist.subset he
  have hperm : (sorted row.entries).Perm
      (sorted (row.entries.filter fun e => e ∉ row'.entries) ++ sorted row'.entries) := by
    refine (List.mergeSort_perm _ _).trans ?_
    refine (List.filter_append_perm (fun e => e ∈ row'.entries) row.entries).symm.trans ?_
    refine List.perm_append_comm.trans (List.Perm.append ?_ (hkept.trans (List.mergeSort_perm _ _).symm))
    have hnot : (row.entries.filter fun e => !decide (e ∈ row'.entries)) =
        row.entries.filter fun e => e ∉ row'.entries := List.filter_congr fun e _ => by simp
    rw [hnot]
    exact (List.mergeSort_perm _ _).symm
  refine ⟨sorted (row.entries.filter fun e => e ∉ row'.entries), ?_⟩
  refine (List.Perm.eq_of_pairwise ?_ (hpairwise _) (List.pairwise_append.mpr ⟨hpairwise _, hpairwise _, ?_⟩) hperm).symm
  · intro a b ha hb hab hba
    have heq : a.place = b.place := le_antisymm (of_decide_eq_true hab) (of_decide_eq_true hba)
    have hid : a.id = b.id := congrArg Prod.snd (toLex.injective heq)
    have hb' : b ∈ row.entries := List.mem_mergeSort.mp (hperm.mem_iff.mpr hb)
    exact List.inj_on_of_nodup_map hd (List.mem_mergeSort.mp ha) hb' hid
  · intro a ha b hb
    obtain ⟨hin, hlost⟩ := List.mem_filter.mp (List.mem_mergeSort.mp ha)
    exact decide_eq_true (h.older a hin (of_decide_eq_true hlost) b (List.mem_mergeSort.mp hb)).le

section Bound

variable {s : State} {target : ℕ} {updated : List LogEntry}

theorem retained_eq (s : State) (target : ℕ) (updated : List LogEntry) : s.retained target updated =
    s.registry.map fun row => ⟨row.2, s.given target updated row.2, false⟩ := rfl

theorem Admissible.rows (h : Admissible s target updated) : Rows (s.retained target updated) := by
  rw [retained_eq]
  refine ⟨?_, fun row hrow => ?_⟩
  · rw [List.map_map]
    exact h.caches
  · obtain ⟨entry, hentry, rfl⟩ := List.mem_map.mp hrow
    exact (List.nodup_flatMap.mp h.ids).1 entry hentry

/-- The rows that the loop leaves. -/
def drained (site : Site ω) (s : State) (target : ℕ) (updated : List LogEntry) : List Row :=
  s.drain site (total (s.retained target updated)) (s.retained target updated)

theorem bound_caches (site : Site ω) (s : State) (target : ℕ) (updated : List LogEntry) (cache : ℕ) :
    (s.bound site target updated).caches cache =
      match rowOf (drained site s target updated) cache with
      | none => s.caches cache
      | some row => (s.caches cache).keep row := rfl

theorem drained_spec (site : Site ω) (h : Admissible s target updated) :
    Rows (drained site s target updated) ∧ Trimmed (s.retained target updated) (drained site s target updated) ∧
      ¬Over site (drained site s target updated) :=
  drain_spec s _ h.rows (Nat.le_refl _)

/-- A registered cache keeps what its row has left. -/
theorem bound_row (site : Site ω) (h : Admissible s target updated) {entry : CacheKey × ℕ}
    (hentry : entry ∈ s.registry) : ∃ row ∈ drained site s target updated,
      (⟨entry.2, s.given target updated entry.2, false⟩ : Row).Cut row ∧
        rowOf (drained site s target updated) entry.2 = some row ∧
        (s.bound site target updated).caches entry.2 = (s.caches entry.2).keep row := by
  obtain ⟨hrows, htrimmed, -⟩ := drained_spec site h
  obtain ⟨row, hrow, hcut⟩ := htrimmed.cut _ (List.mem_map_of_mem hentry)
  have hfound := hrows.rowOf_eq hrow
  rw [hcut.cache] at hfound
  refine ⟨row, hrow, hcut, hfound, ?_⟩
  rw [bound_caches]
  simp only at hfound
  rw [hfound]

theorem drained_registry (site : Site ω) (h : Admissible s target updated) :
    (drained site s target updated).map (·.cache) = s.registry.map (·.2) := by
  rw [(drained_spec site h).2.1.caches, retained_eq, List.map_map]
  rfl

/-- What is summed over the rows is summed over the registry. -/
theorem sum_drained (site : Site ω) (h : Admissible s target updated) (f : List LogEntry → ℕ) :
    ((drained site s target updated).map fun row => f row.entries).sum =
      (s.registry.map fun row => f ((s.bound site target updated).caches row.2).entries).sum := by
  have hrows := (drained_spec site h).1
  have hrow (row : Row) (hrow : row ∈ drained site s target updated) :
      f row.entries = f ((s.bound site target updated).caches row.cache).entries := by
    rw [bound_caches, hrows.rowOf_eq hrow]
    rfl
  rw [List.map_congr_left hrow]
  have hmap (g : ℕ → ℕ) : (drained site s target updated).map (fun row => g row.cache) =
      s.registry.map fun row => g row.2 := by
    have heq := congrArg (List.map g) (drained_registry site h)
    rwa [List.map_map, List.map_map] at heq
  exact congrArg List.sum (hmap fun cache => f ((s.bound site target updated).caches cache).entries)

theorem sum_retained (s : State) (target : ℕ) (updated : List LogEntry) (f : List LogEntry → ℕ) :
    ((s.retained target updated).map fun row => f row.entries).sum =
      (s.registry.map fun row => f (s.given target updated row.2)).sum := by
  rw [retained_eq, List.map_map]
  rfl

theorem lengths (site : Site ω) (h : Admissible s target updated) {cache : ℕ}
    (hcache : cache ∈ s.registry.map (·.2)) :
    lengthOf (s.retained target updated) cache = (s.given target updated cache).length ∧
      lengthOf (drained site s target updated) cache =
        ((s.bound site target updated).caches cache).entries.length := by
  obtain ⟨entry, hentry, rfl⟩ := List.mem_map.mp hcache
  obtain ⟨row, hrow, -, hfound, hbound⟩ := bound_row site h hentry
  refine ⟨h.rows.lengthOf_eq (List.mem_map_of_mem hentry), ?_⟩
  unfold lengthOf
  rw [hfound, hbound]
  rfl

theorem bound_fair (site : Site ω) (h : Admissible s target updated)
    (hcount : site.bufferEntries < (s.registry.map fun row => (s.given target updated row.2).length).sum)
    (hbytes : (s.registry.map fun row => ((s.given target updated row.2).map site.size).sum).sum ≤
      site.bufferBytes) :
    Fair (s.registry.map (·.2)) (fun cache => (s.given target updated cache).length)
      (fun cache => ((s.bound site target updated).caches cache).entries.length) site.bufferEntries := by
  obtain ⟨hrows, htrimmed, hin⟩ := drained_spec site h
  have hover : site.bufferEntries ≤ total (s.retained target updated) := by
    have hsum := sum_retained s target updated List.length
    unfold total
    omega
  have hsize : bytes site (s.retained target updated) ≤ site.bufferBytes :=
    (sum_retained s target updated fun entries => (entries.map site.size).sum).trans_le hbytes
  obtain ⟨hcut, hleast⟩ := drain_fair s _ h.rows hsize (.refl _ (lengthOf (s.retained target updated))) hover
  have hcaches : cachesOf (s.retained target updated) = (s.registry.map (·.2)).toFinset := by
    unfold cachesOf
    rw [← htrimmed.caches, drained_registry site h]
  have hmem {cache : ℕ} (hcache : cache ∈ s.registry.map (·.2)) :
      cache ∈ cachesOf (s.retained target updated) := by
    rw [hcaches]
    exact List.mem_toFinset.mpr hcache
  have htotal : total (drained site s target updated) = site.bufferEntries := by
    have hleast : site.bufferEntries ≤ total (drained site s target updated) := hleast
    unfold Over at hin
    omega
  have hsum (f : ℕ → ℕ) : ((s.registry.map (·.2)).map f).sum = ∑ cache ∈ cachesOf (s.retained target updated), f cache := by
    rw [hcaches, List.sum_toFinset _ h.caches]
  have hdrained : ∑ cache ∈ cachesOf (s.retained target updated), lengthOf (drained site s target updated) cache =
      site.bufferEntries := by
    have hsame : cachesOf (s.retained target updated) = cachesOf (drained site s target updated) :=
      congrArg List.toFinset htrimmed.caches.symm
    rw [hsame, hrows.sum_lengthOf, htotal]
  refine ⟨?_, ?_, fun other hother hbound cache hcache hmore => ?_⟩
  · rw [← htotal, List.map_map]
    exact (sum_drained site h List.length).symm
  · obtain ⟨level, hlevel⟩ := hcut.exists_level
    refine ⟨level, fun cache hcache => ?_⟩
    obtain ⟨hbefore, hafter⟩ := lengths site h hcache
    have hcut := hlevel cache (hmem hcache)
    rw [hbefore] at hcut
    rwa [← hafter]
  · rw [hsum] at hbound
    have hless : ∀ i ∈ cachesOf (s.retained target updated), other i ≤ lengthOf (s.retained target updated) i := by
      intro i hi
      rw [hcaches] at hi
      have hi := List.mem_toFinset.mp hi
      rw [(lengths site h hi).1]
      exact hother i hi
    rw [← (lengths site h hcache).2] at hmore
    obtain ⟨cache', hcache', hlost, hle⟩ :=
      hcut.fair hless (hbound.trans hdrained.ge) (hmem hcache) hmore
    rw [hcaches] at hcache'
    have hcache' := List.mem_toFinset.mp hcache'
    refine ⟨cache', hcache', ?_, ?_⟩
    · rw [← (lengths site h hcache').2]
      exact hlost
    · rw [← (lengths site h hcache).2]
      exact hle

theorem bound_bounded (site : Site ω) (h : Admissible s target updated) :
    Bounded site s target updated (s.bound site target updated) := by
  obtain ⟨hrows, htrimmed, hin⟩ := drained_spec site h
  have hin := not_or.mp hin
  refine
    { registry := rfl
      entries := ?_
      bytes := ?_
      suffix := fun entry hentry => ?_
      fair := bound_fair site h
      untouched := fun entry hentry hsame => ?_
      evicted := fun entry hentry hlost => ?_
      others := fun cache hcache => ?_ }
  · rw [← sum_drained site h List.length]
    exact not_lt.mp hin.1
  · rw [← sum_drained site h fun entries => (entries.map site.size).sum]
    exact not_lt.mp hin.2
  · obtain ⟨row, -, hcut, -, hbound⟩ := bound_row site h hentry
    rw [hbound]
    exact sorted_suffix hcut ((List.nodup_flatMap.mp h.ids).1 entry hentry)
  · obtain ⟨row, -, hcut, -, hbound⟩ := bound_row site h hentry
    rw [hbound] at hsame ⊢
    have hentries : row.entries = s.given target updated entry.2 := hcut.sublist.eq_of_length hsame
    have hevicted : ¬row.evicted = true := by
      rw [hcut.evicted, hentries]
      simp
    unfold Cache.keep
    rw [if_neg hevicted, hentries]
  · obtain ⟨row, -, hcut, -, hbound⟩ := bound_row site h hentry
    rw [hbound] at hlost ⊢
    have hevicted : row.evicted = true :=
      hcut.evicted.mpr (.inr (lt_of_le_of_ne hcut.sublist.length_le hlost))
    unfold Cache.keep
    rw [if_pos hevicted]
    exact ⟨rfl, rfl, rfl⟩
  · rw [bound_caches]
    cases hfound : rowOf (drained site s target updated) cache with
    | none => rfl
    | some row =>
      obtain ⟨hmem, rfl⟩ := rowOf_mem hfound
      refine absurd ?_ hcache
      rw [← drained_registry site h]
      exact List.mem_map_of_mem hmem

end Bound

/-! ## The totals -/

section Totals

variable {α β : Type} {expires : ℕ → Bool} {w : Section}

/-- The program ends in time with such a value, or it is out of time; it writes no cache. -/
def Timed (expires : ℕ → Bool) (p : Held α) (P : α → Prop) (w : Section) : Prop :=
  (p.run (Section.answer expires) w).1.state = w.state ∧
    ((p.run (Section.answer expires) w).2 = .error .expired ∧ (∃ n, expires n = true) ∨
      ∃ a, (p.run (Section.answer expires) w).2 = .ok a ∧ P a)

theorem Timed.pure {P : α → Prop} {a : α} (h : P a) : Timed expires (Pure.pure a) P w :=
  ⟨rfl, .inr ⟨a, rfl, h⟩⟩

theorem Timed.bind {p : Held α} {f : α → Held β} {P : α → Prop} {Q : β → Prop} (h : Timed expires p P w)
    (hf : ∀ a w', w'.state = w.state → P a → Timed expires (f a) Q w') : Timed expires (p >>= f) Q w := by
  unfold Timed at h ⊢
  rw [Prog.run_bind]
  rcases hrun : p.run (Section.answer expires) w with ⟨w', result⟩
  rw [hrun] at h
  obtain ⟨hstate, ⟨rfl, hlate⟩ | ⟨a, rfl, ha⟩⟩ := h
  · exact ⟨hstate, .inl ⟨rfl, hlate⟩⟩
  · obtain ⟨hstate', hresult'⟩ := hf a w' hstate ha
    exact ⟨hstate'.trans hstate, hresult'⟩

theorem remaining_timed : Timed expires remaining (fun _ => True) w := by
  unfold Timed remaining
  rw [Prog.run_bind]
  cases hlate : expires w.checks with
  | true =>
    refine ⟨?_, .inl ⟨?_, w.checks, hlate⟩⟩ <;> simp [hold, Prog.call, Prog.run, Section.answer, hlate]
  | false =>
    refine ⟨?_, .inr ⟨(), ?_, trivial⟩⟩ <;> simp [hold, Prog.call, Prog.run, Section.answer, hlate]

theorem caches_timed : Timed expires (hold .caches) (· = w.state) w := ⟨rfl, .inr ⟨_, rfl, rfl⟩⟩

theorem measure_timed (cache : ℕ) : ∀ (entries : List LogEntry) (m : Sizes) (w : Section),
    Timed expires (measure site cache entries m) (· = entries.foldl (fun m e => m.add site cache e) m) w
  | [], _, _ => .pure rfl
  | _ :: entries, _, _ => remaining_timed.bind fun _ w' _ _ => measure_timed cache entries _ w'

theorem foldl_add (cache : ℕ) : ∀ (entries : List LogEntry) (m : Sizes), (entries.map (·.id)).Nodup →
    (entries.foldl (fun m e => m.add site cache e) m).sizes =
        Function.update m.sizes cache (m.sizes cache + ((entries.map site.size).sum : ℕ)) ∧
      (∀ e ∈ entries, (entries.foldl (fun m e => m.add site cache e) m).rowSizes e.id = site.size e) ∧
      ∀ id, id ∉ entries.map (·.id) → (entries.foldl (fun m e => m.add site cache e) m).rowSizes id = m.rowSizes id
  | [], m, _ => by simp
  | entry :: entries, m, hd => by
    obtain ⟨hnot, hd⟩ := List.nodup_cons.mp hd
    obtain ⟨hsizes, hrows, hothers⟩ := foldl_add cache entries (m.add site cache entry) hd
    rw [List.foldl_cons]
    refine ⟨?_, fun e he => ?_, fun id hid => ?_⟩
    · rw [hsizes]
      simp only [Sizes.add, Function.update_self, Function.update_idem, List.map_cons, List.sum_cons, Int.natCast_add,
        add_assoc]
    · rcases List.mem_cons.mp he with rfl | he
      · rw [hothers _ hnot]
        exact Function.update_self ..
      · exact hrows e he
    · obtain ⟨hne, hid⟩ := not_or.mp (mt List.mem_cons.mpr hid)
      rw [hothers id hid]
      exact Function.update_of_ne hne ..

/-- The sizes of the rows, and of their entries. -/
structure Measured (site : Site ω) (rows : List Row) (m : Sizes) : Prop where
  sizes : ∀ row ∈ rows, m.sizes row.cache = Row.bytes site row
  rowSizes : ∀ row ∈ rows, ∀ e ∈ row.entries, m.rowSizes e.id = site.size e

theorem measureAll_timed : ∀ (rows : List Row) (m : Sizes) (w : Section), Rows rows →
    (rows.flatMap fun row => row.entries.map (·.id)).Nodup →
    Timed expires (measureAll site rows m) (fun m' => Measured site rows m' ∧
      (∀ cache, cache ∉ rows.map (·.cache) → m'.sizes cache = m.sizes cache) ∧
      ∀ id, id ∉ rows.flatMap (fun row => row.entries.map (·.id)) → m'.rowSizes id = m.rowSizes id) w
  | [], _, _, _, _ => .pure ⟨⟨nofun, nofun⟩, fun _ _ => rfl, fun _ _ => rfl⟩
  | row :: rows, m, w, hrows, hids => by
    obtain ⟨hcache, hcaches⟩ := List.nodup_cons.mp hrows.caches
    have hrest : Rows rows := ⟨hcaches, fun row' hrow' => hrows.distinct row' (List.mem_cons_of_mem _ hrow')⟩
    rw [List.flatMap_cons] at hids
    obtain ⟨hown, hids, hdisjoint⟩ := List.nodup_append.mp hids
    refine (measure_timed row.cache row.entries _ w).bind fun m' w' _ hm' => ?_
    obtain ⟨hsizes, hrowSizes, hothers⟩ := foldl_add row.cache row.entries _ hown
    rw [← hm'] at hsizes hrowSizes hothers
    obtain ⟨hstate, hresult⟩ := measureAll_timed rows m' w' hrest hids
    refine ⟨hstate, hresult.imp_right ?_⟩
    rintro ⟨m'', hok, ⟨hmeasured, hmeasured'⟩, hsizes', hrowSizes'⟩
    refine ⟨m'', hok, ⟨fun row' hrow' => ?_, fun row' hrow' e he => ?_⟩, fun cache hnot => ?_, fun id hnot => ?_⟩
    · rcases List.mem_cons.mp hrow' with rfl | hrow'
      · rw [hsizes' _ hcache, hsizes]
        simp [Row.bytes]
      · exact hmeasured row' hrow'
    · rcases List.mem_cons.mp hrow' with rfl | hrow'
      · rw [hrowSizes' e.id fun hin => hdisjoint _ (List.mem_map_of_mem he) _ hin rfl]
        exact hrowSizes e he
      · exact hmeasured' row' hrow' e he
    · obtain ⟨hne, hnot⟩ := not_or.mp (mt List.mem_cons.mpr hnot)
      rw [hsizes' cache hnot, hsizes, Function.update_of_ne hne]
      exact Function.update_of_ne hne ..
    · rw [List.flatMap_cons] at hnot
      obtain ⟨hnot', hnot⟩ := not_or.mp (mt List.mem_append.mpr hnot)
      rw [hrowSizes' id hnot, hothers id hnot']

/-- The totals are those of what is retained. -/
structure Exact (site : Site ω) (st : Staged) : Prop extends Measured site st.retained st.toSizes where
  count : st.count = total st.retained
  size : st.size = bytes site st.retained

theorem Exact.over {st : Staged} (h : Exact site st) : st.over site ↔ Over site st.retained := by
  unfold Staged.over Over
  rw [h.count, h.size]
  omega

theorem heaviest_eq (s : State) {weight : Row → Int} {weight' : Row → ℕ} : ∀ {rows : List Row},
    (∀ row ∈ rows, weight row = weight' row) → s.heaviest weight rows = s.largest weight' rows
  | [], _ => rfl
  | row :: rows, h => by
    unfold State.heaviest State.largest
    rw [heaviest_eq s fun row' hrow' => h row' (List.mem_cons_of_mem _ hrow')]
    cases hbest : s.largest weight' rows with
    | none => rfl
    | some best =>
      dsimp only
      rw [h row (List.mem_cons_self ..), h best (List.mem_cons_of_mem _ (largest_mem hbest).1)]
      norm_cast

/-- The turn of the loop that keeps its totals is that of the one that recomputes them. -/
theorem Exact.evictOldest {st : Staged} (h : Exact site st) (hrows : Rows st.retained) (s : State)
    (hover : Over site st.retained) (fuel : ℕ) : ∃ st', st.evictOldest site s = some st' ∧ Exact site st' ∧
      Rows st'.retained ∧ total st'.retained < total st.retained ∧
      s.drain site (fuel + 1) st.retained = s.drain site fuel st'.retained := by
  obtain ⟨best, hbest, hne, hlargest, -, hdrain⟩ := drain_succ s fuel hover
  obtain ⟨hturn, -⟩ := hrows.turn hbest hne
  have hweight (row : Row) (hrow : row ∈ st.retained) : st.weight site row = weightOf site st.retained row := by
    unfold Staged.weight weightOf
    rw [h.count, h.sizes row hrow]
    split_ifs <;> first | rfl | omega
  have hheaviest : s.heaviest (st.weight site) (st.retained.filter fun row => !row.entries.isEmpty) = some best := by
    rw [heaviest_eq s fun row hrow => hweight row (List.mem_filter.mp hrow).1]
    exact hlargest
  cases holdest : oldestEntry best.entries with
  | none => exact absurd holdest (oldestEntry_ne_none hne)
  | some oldest =>
    have hdistinct := hrows.distinct best hbest
    have hmem := oldestEntry_mem holdest
    have hremoved : st.rowSizes oldest.id = site.size oldest := h.rowSizes best hbest oldest hmem
    have hsame : (st.retained.map fun row => if row.cache = best.cache then row.remove oldest.id else row) =
        turn st.retained best := by
      refine List.map_congr_left fun row hrow => ?_
      split_ifs with hcache
      · obtain rfl := hrows.eq hrow hbest hcache
        exact (Row.drop_of_oldest hdistinct holdest).symm
      · rfl
    have hbytes : Row.bytes site best.drop + site.size oldest = Row.bytes site best := by
      unfold Row.bytes Row.drop
      rw [holdest, Nat.add_comm]
      exact List.sum_map_erase site.size hmem
    have htotal := total_turn hrows hbest hne
    have hsize : bytes site (turn st.retained best) + site.size oldest = bytes site st.retained :=
      sum_turn hrows hbest _ hbytes
    refine ⟨{ st with
      retained := turn st.retained best
      sizes := Function.update st.sizes best.cache (st.sizes best.cache - st.rowSizes oldest.id)
      size := st.size - st.rowSizes oldest.id
      count := st.count - 1 }, ?_, ⟨⟨fun row' hrow' => ?_, fun row' hrow' e he => ?_⟩, ?_, ?_⟩, hturn, ?_, hdrain⟩
    · unfold Staged.evictOldest
      rw [hheaviest]
      dsimp only
      rw [holdest]
      dsimp only
      rw [hsame]
    · obtain ⟨row, hrow, rfl⟩ := List.mem_map.mp hrow'
      dsimp only
      split_ifs with hcache
      · obtain rfl := hrows.eq hrow hbest hcache
        rw [drop_cache, Function.update_self, h.sizes row hrow, hremoved]
        omega
      · rw [Function.update_of_ne hcache]
        exact h.sizes row hrow
    · obtain ⟨row, hrow, rfl⟩ := List.mem_map.mp hrow'
      refine h.rowSizes row hrow e ?_
      split_ifs at he
      · exact (drop_entries row).2 e he
      · exact he
    · dsimp only
      rw [h.count]
      omega
    · dsimp only
      rw [h.size, hremoved]
      omega
    · dsimp only
      omega

/-- The loop keeps its totals exact, and ends with the rows of the loop that recomputes them. -/
theorem evict_timed : ∀ (fuel : ℕ) (st : Staged) (w : Section), Exact site st → Rows st.retained →
    total st.retained ≤ fuel →
    Timed expires (evict site st) (fun st' => st'.retained = w.state.drain site fuel st.retained) w := by
  intro fuel
  induction fuel with
  | zero =>
    intro st w hexact hrows hfuel
    have hover : ¬st.over site := by
      rw [hexact.over]
      intro hover
      obtain ⟨st', -, -, -, hlt, -⟩ := hexact.evictOldest hrows w.state hover 0
      omega
    rw [evict, if_neg hover]
    exact .pure rfl
  | succ fuel ih =>
    intro st w hexact hrows hfuel
    rw [evict]
    split_ifs with hover
    · have hover := hexact.over.mp hover
      refine remaining_timed.bind fun _ w₁ h₁ _ => caches_timed.bind fun s w₂ h₂ hs => ?_
      obtain rfl : s = w.state := hs.trans h₁
      obtain ⟨st', hst', hexact', hrows', hlt, hdrain⟩ := hexact.evictOldest hrows w.state hover fuel
      have hstate : w₂.state = w.state := h₂.trans h₁
      have hrest := ih st' w₂ hexact' hrows' (by omega)
      rw [hstate, ← hdrain] at hrest
      split
      next hnone =>
        rw [hst'] at hnone
        cases hnone
      next st'' hsome =>
        rw [hst'] at hsome
        obtain rfl := Option.some.inj hsome
        exact hrest
    · refine .pure ?_
      rw [drain_of_not_over w.state _ fun h => hover (hexact.over.mpr h)]

theorem keepAll_run : ∀ (rows : List Row) (w : Section), (rows.map (·.cache)).Nodup →
    (keepAll rows).run (Section.answer expires) w = ({ w with state := { w.state with
      caches := fun cache =>
        match rowOf rows cache with
        | none => w.state.caches cache
        | some row => (w.state.caches cache).keep row } }, .ok ())
  | [], _, _ => rfl
  | row :: rows, w, h => by
    obtain ⟨hnot, hrest⟩ := List.nodup_cons.mp h
    refine (keepAll_run rows { w with state := w.state.modify row.cache fun cache => cache.keep row } hrest).trans ?_
    refine congrArg (fun caches => ({ w with state := { w.state with caches } }, Except.ok ())) (funext fun cache => ?_)
    unfold State.modify
    dsimp only
    by_cases hcache : row.cache = cache
    · subst hcache
      have hfound : rowOf (row :: rows) row.cache = some row := List.find?_cons_of_pos (by simp)
      have hnone : rowOf rows row.cache = none := by
        refine List.find?_eq_none.mpr fun row' hrow' heq => hnot ?_
        exact List.mem_map.mpr ⟨row', hrow', of_decide_eq_true heq⟩
      rw [hfound, hnone]
      exact Function.update_self ..
    · have hfound : rowOf (row :: rows) cache = rowOf rows cache := List.find?_cons_of_neg (by simpa using hcache)
      rw [hfound, Function.update_of_ne fun heq => hcache heq.symm]

end Totals

/-! ## The section as a whole -/

theorem stage_timed (site : Site ω) {s : State} {target : ℕ} {updated : List LogEntry}
    (h : Admissible s target updated) (expires : ℕ → Bool) (checks : ℕ) :
    Timed expires (stage site target updated) (· = drained site s target updated) ⟨checks, s⟩ := by
  have hids : ((s.retained target updated).flatMap fun row => row.entries.map (·.id)).Nodup := by
    rw [retained_eq, List.flatMap_map]
    exact h.ids
  refine caches_timed.bind fun s' w₁ h₁ hs => ?_
  have hs : s = s' := hs.symm
  subst hs
  refine (measureAll_timed _ _ w₁ h.rows hids).bind fun sizes w₂ h₂ hsizes => ?_
  have hexact : Exact site
      { sizes with
        retained := s.retained target updated
        count := total (s.retained target updated)
        size := ((s.retained target updated).map fun row => sizes.sizes row.cache).sum } := by
    refine ⟨hsizes.1, rfl, ?_⟩
    dsimp only
    rw [List.map_congr_left hsizes.1.sizes]
    unfold bytes
    rw [Nat.cast_list_sum, List.map_map]
    rfl
  refine (evict_timed _ _ w₂ hexact h.rows (Nat.le_refl _)).bind fun staged w₃ h₃ hstaged => ?_
  refine remaining_timed.bind fun _ w₄ h₄ _ => .pure (hstaged.trans ?_)
  have hstate : w₂.state = s := h₂.trans h₁
  rw [hstate]
  rfl

/-- The section ends with the caches brought down to the bound, or it runs out of time and leaves them all. -/
theorem boundLocked_run (site : Site ω) {s : State} {target : ℕ} {updated : List LogEntry}
    (h : Admissible s target updated) (expires : ℕ → Bool) (checks : ℕ) {w : Section} {result : Except Raised Unit}
    (hrun : (boundLocked site target updated).run (Section.answer expires) ⟨checks, s⟩ = (w, result)) :
    (result = .error .expired ∧ (∃ n, expires n = true) ∧ w.state = s) ∨
      (result = .ok () ∧ w.state = s.bound site target updated) := by
  have hstage := stage_timed site h expires checks
  unfold Timed at hstage
  unfold boundLocked at hrun
  rw [Prog.run_bind] at hrun
  rcases hstaged : (stage site target updated).run (Section.answer expires) ⟨checks, s⟩ with ⟨w', staged⟩
  rw [hstaged] at hstage hrun
  obtain ⟨hstate, ⟨herror, hlate⟩ | ⟨retained, hok, hretained⟩⟩ := hstage
  · dsimp only at herror hstate
    subst herror
    obtain ⟨rfl, rfl⟩ := Prod.mk.inj hrun
    exact .inl ⟨rfl, hlate, hstate⟩
  · dsimp only at hok hstate
    subst hok hretained
    dsimp only at hrun
    rw [keepAll_run _ _ (drained_spec site h).1.caches, hstate] at hrun
    obtain ⟨rfl, rfl⟩ := Prod.mk.inj hrun
    exact .inr ⟨rfl, rfl⟩

/-- Whenever the deadline expires, no cache has changed; else all of them are as they should be. -/
theorem retained_logs_bounded (site : Site ω) {s : State} {target : ℕ} {updated : List LogEntry}
    (h : Admissible s target updated) (expires : ℕ → Bool) (checks : ℕ) {w : Section} {result : Except Raised Unit}
    (hrun : (boundLocked site target updated).run (Section.answer expires) ⟨checks, s⟩ = (w, result)) :
    (result = .error .expired ∧ (∃ n, expires n = true) ∧ w.state = s) ∨
      (result = .ok () ∧ Bounded site s target updated w.state) := by
  rcases boundLocked_run site h expires checks hrun with hlate | ⟨hok, hstate⟩
  · exact .inl hlate
  · refine .inr ⟨hok, ?_⟩
    rw [hstate]
    exact bound_bounded site h

section BoundDemo

def smallSite : Site Unit := { demoSite with bufferEntries := 3 }

def entryAt (id : String) (timestamp : Int) : LogEntry := { demoEntry with id, timestamp }

def demoUpdated : List LogEntry := [entryAt "d" 1, entryAt "e" 0]

/-- Cache 0 has three entries, and cache 1 one. -/
def demoCaches : State where
  registry := [((("project", "region", "service", "orders"), "policy"), 0),
    ((("project", "region", "service", "users"), "policy"), 1)]
  caches cache := { Cache.new demoResource with
    entries := if cache = 0 then [entryAt "b" 2, entryAt "a" 2, entryAt "c" 3] else [entryAt "d" 1] }
  next := 2

example : ((demoCaches.bound smallSite 1 demoUpdated).caches 0).entries = [entryAt "c" 3] ∧
    ((demoCaches.bound smallSite 1 demoUpdated).caches 1).entries = demoUpdated := by decide +kernel

theorem retained_logs_bounded_demo :
    ∃ w, (boundLocked smallSite 1 demoUpdated).run (Section.answer fun _ => false) ⟨0, demoCaches⟩ = (w, .ok ()) ∧
      Bounded smallSite demoCaches 1 demoUpdated w.state := by
  have hadmissible : Admissible demoCaches 1 demoUpdated := ⟨by decide, by decide, by decide +kernel⟩
  rcases hrun : (boundLocked smallSite 1 demoUpdated).run (Section.answer fun _ => false) ⟨0, demoCaches⟩
    with ⟨w, result⟩
  rcases retained_logs_bounded smallSite hadmissible (fun _ => false) 0 hrun with ⟨-, ⟨n, hn⟩, -⟩ | ⟨rfl, hbounded⟩
  · cases hn
  · exact ⟨w, rfl, hbounded⟩

end BoundDemo

end RuntimeLogs
