import EngPlatform.Billing.Coverage
import Mathlib.Data.List.Sort
import Mathlib.Logic.Function.Basic

/-!
# Daily costs

The rows of two periods are split by day. Comparisons compare like with like, of exports in which no
services are merged.
-/

set_option linter.dupNamespace false

namespace Costs

open Gregorian Groups

/-! ## The daily series -/

/-- `CostPeriod`, a period of dates by their ordinals. -/
structure Period where
  start : ℤ
  finish : ℤ

/-- `_period`: the dates of the first and of the last time of a window. -/
def period (start finish : ℤ) : Period := ⟨start / day, (if finish > start then finish - 1 else finish) / day⟩

def Period.has (p : Period) (date : ℤ) : Bool := p.start ≤ date && date ≤ p.finish

/-- `date.max`. -/
def lastDate : ℤ := 3652059

example : ordinal.count ⟨9999, 12, 31, by decide, by decide, by decide⟩ = lastDate := by decide +kernel

/-- What a day cost. -/
structure DailyRow where
  date : ℤ
  cost : ℚ
  credits : ℚ

def DailyRow.net (r : DailyRow) : ℚ := r.cost + r.credits

/-- `DailyCost`. -/
structure DailyCost where
  date : ℤ
  hasData : Bool
  cost : Option ℚ
  credits : Option ℚ
  net : Option ℚ

/-- The entry of a day with these values. -/
def dailyCost (date : ℤ) (values : Option (ℚ × ℚ)) : DailyCost :=
  ⟨date, values.isSome, values.map Prod.fst, values.map Prod.snd, values.map fun v => v.1 + v.2⟩

/-- A row is of the current period, of the previous one or of neither. -/
def tally (current previous : Period) (acc : (ℤ → Option (ℚ × ℚ)) × List ℚ) (row : DailyRow) :
    (ℤ → Option (ℚ × ℚ)) × List ℚ :=
  if current.has row.date then
    let old := (acc.1 row.date).getD (0, 0)
    (Function.update acc.1 row.date (some (old.1 + row.cost, old.2 + row.credits)), acc.2)
  else if previous.has row.date then (acc.1, acc.2 ++ [row.cost + row.credits])
  else acc

/-- The days up to the end of the period. No date follows the last one. -/
def series (byDay : ℤ → Option (ℚ × ℚ)) (finish date : ℤ) : Except Raised (List DailyCost) :=
  if date ≤ finish then
    if date = lastDate then .error .overflowError
    else (series byDay finish (date + 1)).map (dailyCost date (byDay date) :: ·)
  else .ok []
termination_by (finish + 1 - date).toNat

/-- The sum of values, if there are any. -/
def totalOf (values : List ℚ) : Option ℚ := if values = [] then none else some values.sum

/-- `_split_daily_rows`. -/
def splitDailyRows (rows : List DailyRow) (current previous : Period) :
    Except Raised (List DailyCost × Option ℚ) :=
  let split := rows.foldl (tally current previous) (fun _ => none, [])
  (series split.1 current.finish current.start).map fun days => (days, totalOf split.2)

/-- The sums of rows, if there are any. -/
def sums (rows : List DailyRow) : Option (ℚ × ℚ) :=
  if rows = [] then none else some ((rows.map DailyRow.cost).sum, (rows.map DailyRow.credits).sum)

/-- The rows of a period. -/
def Period.rows (p : Period) (rows : List DailyRow) : List DailyRow := rows.filter fun r => p.has r.date

theorem sums_concat (rows : List DailyRow) (row : DailyRow) : sums (rows ++ [row]) =
    some (((sums rows).getD (0, 0)).1 + row.cost, ((sums rows).getD (0, 0)).2 + row.credits) := by
  unfold sums
  rw [if_neg (by simp)]
  by_cases hnil : rows = []
  · rw [if_pos hnil, hnil]
    simp
  · rw [if_neg hnil]
    simp

/-- What is counted for a day, and for the previous period. -/
theorem tally_run {current previous : Period} (hapart : ∀ d, ¬(current.has d = true ∧ previous.has d = true)) :
    ∀ rows : List DailyRow, rows.foldl (tally current previous) (fun _ => none, []) =
      (fun d => if current.has d then sums (withKey DailyRow.date d rows) else none,
        (previous.rows rows).map DailyRow.net) := by
  intro rows
  induction rows using List.reverseRecOn with
  | nil => simp [withKey, sums, Period.rows]
  | append_singleton rows row ih =>
    rw [List.foldl_append, ih, List.foldl_cons, List.foldl_nil]
    unfold tally
    dsimp only
    have hprevious : previous.rows (rows ++ [row]) =
        previous.rows rows ++ if previous.has row.date then [row] else [] := by
      unfold Period.rows
      rw [List.filter_append, List.filter_singleton, Bool.cond_eq_ite]
    have hday : ∀ d, withKey DailyRow.date d (rows ++ [row]) =
        withKey DailyRow.date d rows ++ if row.date = d then [row] else [] := by
      intro d
      unfold withKey
      rw [List.filter_append, List.filter_singleton]
      simp
    by_cases hcurrent : current.has row.date = true
    · have hnot : ¬previous.has row.date = true := fun h => hapart _ ⟨hcurrent, h⟩
      rw [if_pos hcurrent, hprevious, if_neg hnot, List.append_nil]
      congr 1
      funext d
      by_cases hd : d = row.date
      · subst hd
        rw [Function.update_self, if_pos hcurrent, if_pos hcurrent, hday, if_pos rfl, sums_concat]
      · rw [Function.update_of_ne hd, hday, if_neg (Ne.symm hd), List.append_nil]
    · rw [if_neg hcurrent]
      have hsame : (fun d => if current.has d then sums (withKey DailyRow.date d (rows ++ [row])) else none) =
          fun d => if current.has d then sums (withKey DailyRow.date d rows) else none := by
        funext d
        by_cases hd : row.date = d
        · subst hd
          rw [if_neg hcurrent, if_neg hcurrent]
        · rw [hday, if_neg hd, List.append_nil]
      rw [hsame, hprevious]
      by_cases hin : previous.has row.date = true
      · rw [if_pos hin, if_pos hin, List.map_append]
        rfl
      · rw [if_neg hin, if_neg hin, List.append_nil]

/-- Each day once, in order. -/
theorem series_dates (byDay : ℤ → Option (ℚ × ℚ)) {finish : ℤ} (hfinish : finish < lastDate) :
    ∀ (n : ℕ) (date : ℤ), (finish + 1 - date).toNat = n →
      series byDay finish date = .ok ((List.range n).map fun i : ℕ => dailyCost (date + i) (byDay (date + i)))
  | 0, date, hn => by
    unfold series
    rw [if_neg (by omega)]
    rfl
  | n + 1, date, hn => by
    have ih := series_dates byDay hfinish n (date + 1) (by omega)
    unfold series
    rw [if_pos (by omega), if_neg (by omega), ih, List.range_succ_eq_map, List.map_cons, List.map_map]
    change Except.ok (_ :: _) = Except.ok (_ :: _)
    rw [Int.natCast_zero, add_zero]
    congr 2
    refine List.map_congr_left fun i _ => ?_
    have hnext : date + 1 + (i : ℤ) = date + ((i + 1 : ℕ) : ℤ) := by push_cast; ring
    rw [hnext]
    rfl

/-- Every row of the current period is counted once, every day of it is there once and in order, and the
previous total is that of the rows of the previous period. -/
structure Daily (rows : List DailyRow) (current previous : Period) (days : List DailyCost) (total : Option ℚ) :
    Prop where
  dates : days.map DailyCost.date =
    (List.range (current.finish + 1 - current.start).toNat).map fun i : ℕ => current.start + i
  values : ∀ d ∈ days, d = dailyCost d.date (sums (withKey DailyRow.date d.date rows))
  counted : (days.map fun d => d.net.getD 0).sum = ((current.rows rows).map DailyRow.net).sum
  previous : total = totalOf ((previous.rows rows).map DailyRow.net)

theorem sums_net (date : ℤ) (rows : List DailyRow) : (dailyCost date (sums rows)).net.getD 0 = (rows.map DailyRow.net).sum := by
  unfold sums
  by_cases hnil : rows = []
  · rw [if_pos hnil, hnil]
    rfl
  · rw [if_neg hnil]
    change (rows.map DailyRow.cost).sum + (rows.map DailyRow.credits).sum = _
    rw [← List.sum_map_add]
    rfl

theorem splitDailyRows_daily {current previous : Period} (rows : List DailyRow)
    (hapart : ∀ d, ¬(current.has d = true ∧ previous.has d = true)) (hfinish : current.finish < lastDate) :
    ∃ days total, splitDailyRows rows current previous = .ok (days, total) ∧
      Daily rows current previous days total := by
  let dates := (List.range (current.finish + 1 - current.start).toNat).map fun i : ℕ => current.start + i
  have hdates : ∀ d, d ∈ dates ↔ current.has d = true := by
    intro d
    unfold dates Period.has
    simp only [List.mem_map, List.mem_range, Bool.and_eq_true, decide_eq_true_eq]
    constructor
    · rintro ⟨i, hi, rfl⟩
      omega
    · rintro ⟨hle, hlt⟩
      exact ⟨(d - current.start).toNat, by omega, by omega⟩
  have hnodup : dates.Nodup := List.nodup_range.map fun i j (hij : current.start + (i : ℤ) = current.start + j) => by
    omega
  have hrun := tally_run hapart rows
  have hseries := series_dates (fun d => if current.has d then sums (withKey DailyRow.date d rows) else none) hfinish _
    current.start rfl
  have hdays : (List.range (current.finish + 1 - current.start).toNat).map (fun i : ℕ =>
      dailyCost (current.start + i) (if current.has (current.start + i) then
        sums (withKey DailyRow.date (current.start + i) rows) else none)) =
      dates.map fun d => dailyCost d (sums (withKey DailyRow.date d rows)) := by
    unfold dates
    rw [List.map_map]
    refine List.map_congr_left fun i hi => ?_
    have hin := (hdates (current.start + i)).mp (List.mem_map.mpr ⟨i, hi, rfl⟩)
    rw [if_pos hin]
    rfl
  refine ⟨dates.map fun d => dailyCost d (sums (withKey DailyRow.date d rows)), _, ?_, ?_, ?_, ?_, rfl⟩
  · unfold splitDailyRows
    rw [hrun]
    change (series _ current.finish current.start).map _ = _
    rw [hseries, hdays]
    rfl
  · rw [List.map_map]
    exact List.map_id _
  · intro d hd
    obtain ⟨date, -, rfl⟩ := List.mem_map.mp hd
    rfl
  · have hsame : ∀ d ∈ dates, withKey DailyRow.date d (current.rows rows) = withKey DailyRow.date d rows := by
      intro d hd
      unfold withKey Period.rows
      rw [List.filter_filter]
      refine List.filter_congr fun r _ => ?_
      by_cases hr : r.date = d
      · simp [hr, (hdates d).mp hd]
      · simp [hr]
    have hnets : (dates.map fun d => dailyCost d (sums (withKey DailyRow.date d rows))).map (fun d => d.net.getD 0) =
        dates.map fun d => ((withKey DailyRow.date d (current.rows rows)).map DailyRow.net).sum := by
      rw [List.map_map]
      refine List.map_congr_left fun d hd => ?_
      rw [hsame d hd]
      exact sums_net d _
    rw [hnets]
    exact sum_withKey DailyRow.date DailyRow.net hnodup fun r hr => (hdates _).mpr (List.mem_filter.mp hr).2

theorem period_apart {w : Windows} (h : w.Sound) (d : ℤ) :
    ¬((period w.start w.finish).has d = true ∧ (period w.prevStart w.prevFinish).has d = true) := by
  have hday : (0 : ℤ) < day := by decide
  rintro ⟨hcurrent, hprevious⟩
  unfold Period.has at hcurrent hprevious
  simp only [Bool.and_eq_true, decide_eq_true_eq] at hcurrent hprevious
  have hstart : w.start / day ≤ d := hcurrent.1
  have hfinish : d ≤ (if w.prevFinish > w.prevStart then w.prevFinish - 1 else w.prevFinish) / day := hprevious.2
  have hlast : (if w.prevFinish > w.prevStart then w.prevFinish - 1 else w.prevFinish) < w.start := by
    have happart := h.apart
    have hbefore := h.before
    have hprev := h.previous
    split_ifs <;> omega
  obtain ⟨q, hq⟩ := h.start
  have hlt := (Int.ediv_lt_iff_lt_mul hday).mpr (hlast.trans_eq (hq.trans (mul_comm _ _)))
  rw [hq, Int.mul_ediv_cancel_left q hday.ne'] at hstart
  omega

/-! ## Like with like -/

/-- Two windows compared within those asked for: equally long and apart, and comparable only if they match. -/
structure LikeWithLike (site : Site Item) (rows : List Row) (g : GroupBy) (asOf : ℤ) (w : Windows) (c : Comparison) :
    Prop where
  cut : c.windows.Cut w
  within : w.prevFinish ≤ w.start
  equal : utc site.offset c.windows.finish - utc site.offset c.windows.start =
    utc site.offset c.windows.prevFinish - utc site.offset c.windows.prevStart
  contained : utc site.offset c.windows.finish ≤ utc site.offset w.finish ∧
    utc site.offset c.windows.prevFinish ≤ utc site.offset w.prevFinish
  apart : utc site.offset c.windows.prevFinish ≤ utc site.offset c.windows.start
  once : ∀ r, ¬(r ∈ site.selected rows asOf c.windows.start c.windows.finish ∧
    r ∈ site.selected rows asOf c.windows.prevStart c.windows.prevFinish)
  matched : c.comparable = true → Matched g site.offset c.windows
    (site.selected rows asOf c.windows.start c.windows.finish)
    (site.selected rows asOf c.windows.prevStart c.windows.prevFinish)
  netChange : c.comparable = true → ∃ total prevTotal, c.netChange = some (total - prevTotal) ∧
    c.current.totalNet = some total ∧ c.previous.totalNet = some prevTotal ∧
    total = ((site.selected rows asOf c.windows.start c.windows.finish).map Row.net).sum ∧
    prevTotal = ((site.selected rows asOf c.windows.prevStart c.windows.prevFinish).map Row.net).sum

theorem comparison_sound {site : Site Item} {rows : List Row} {g : GroupBy} {days : ℤ} {monthToDate : Bool}
    {now : DateTime} {w : Windows} {c : Comparison} (hwindows : windows days monthToDate now = .ok w)
    (h : comparison site rows g days monthToDate now = .ok c) (hsteady : Steady site.offset w)
    (hunmerged : Unmerged g (site.selected rows (utc site.offset now.wall) w.start w.finish))
    (hunmerged' : Unmerged g (site.selected rows (utc site.offset now.wall) w.prevStart w.prevFinish)) :
    LikeWithLike site rows g (utc site.offset now.wall) w c := by
  obtain ⟨w', v, n, hw, hcut, rfl⟩ := comparison_result h
  obtain rfl := Except.ok.inj (hwindows.symm.trans hw)
  obtain ⟨hsound, -⟩ := windows_sound hwindows
  obtain ⟨o, ho, hutc⟩ := hsteady.utc
  have hcurrent := hsound.current
  have hprevious := hsound.previous
  have happart := hsound.apart
  have hbefore := hsound.before
  obtain ⟨hstart, hprevStart, hnonneg, hequal, hfinish, hprevFinish⟩ := id hcut
  have hs : utc site.offset v.start = v.start - o := hutc _ (by omega) (by omega)
  have hf : utc site.offset v.finish = v.finish - o := hutc _ (by omega) (by omega)
  have hps : utc site.offset v.prevStart = v.prevStart - o := hutc _ (by omega) (by omega)
  have hpf : utc site.offset v.prevFinish = v.prevFinish - o := hutc _ (by omega) (by omega)
  have hwf : utc site.offset w.finish = w.finish - o := hutc _ (by omega) (by omega)
  have hwpf : utc site.offset w.prevFinish = w.prevFinish - o := hutc _ (by omega) (by omega)
  have hfewer : utc site.offset v.finish ≤ utc site.offset w.finish := by omega
  have hfewer' : utc site.offset v.prevFinish ≤ utc site.offset w.prevFinish := by omega
  have hdvd : hour ∣ utc site.offset v.start := by
    rw [hs, hstart]
    exact Int.dvd_sub (hour_dvd_day.trans hsound.start) ho
  have hdvd' : hour ∣ utc site.offset v.prevStart := by
    rw [hps, hprevStart]
    exact Int.dvd_sub (hour_dvd_day.trans hsound.prevStart) ho
  have hlength : hoursIn (utc site.offset v.start) (utc site.offset v.finish) = hoursIn v.start v.finish := by
    rw [hs, hf, hoursIn_shift]
  have hlength' : hoursIn (utc site.offset v.prevStart) (utc site.offset v.prevFinish) =
      hoursIn v.prevStart v.prevFinish := by
    rw [hps, hpf, hoursIn_shift]
  rw [← hstart] at hunmerged
  rw [← hprevStart] at hunmerged'
  have hkept := hunmerged.of_subset (site.selected_subset rows _ hfewer)
  have hkept' := hunmerged'.of_subset (site.selected_subset rows _ hfewer')
  refine ⟨hcut, happart, ?_, ⟨hfewer, hfewer'⟩, ?_, ?_, fun hc => ?_, fun hc => ?_⟩
  · change utc site.offset v.finish - utc site.offset v.start = utc site.offset v.prevFinish - utc site.offset v.prevStart
    omega
  · change utc site.offset v.prevFinish ≤ utc site.offset v.start
    omega
  · rintro r ⟨hr, hr'⟩
    have hlow : utc site.offset v.start ≤ r.start := (Site.mem_selected hr).2.1
    have hhigh : r.start < utc site.offset v.prevFinish := (Site.mem_selected hr').2.2.1
    omega
  · exact result_matched hc hkept hkept' hdvd hdvd' hlength hlength'
  · obtain ⟨hstatus, hstatus', -⟩ := result_comparable hc
    obtain ⟨-, -, -, htotal, -⟩ := summary_partial hstatus
    obtain ⟨-, -, -, htotal', -⟩ := summary_partial hstatus'
    exact ⟨_, _, result_netChange hc hkept hkept', htotal, htotal', rfl, rfl⟩

theorem comparison_ok (site : Site Item) (rows : List Row) (g : GroupBy) {days : ℤ} {monthToDate : Bool}
    {now : DateTime} {w : Windows} (h : windows days monthToDate now = .ok w) :
    ∃ c, comparison site rows g days monthToDate now = .ok c := by
  unfold comparison
  rw [h]
  change ∃ c, Except.bind (.ok w) _ = .ok c
  dsimp only [Except.bind]
  split
  · split_ifs
    · exact ⟨_, rfl⟩
    · exact ⟨_, rfl⟩
  · exact ⟨_, rfl⟩

/-- Five hours west of Greenwich, with answers ordered by net cost. -/
def bogota : Site Item where
  table := true
  answers _ := true
  visible := none
  offset _ := -5 * hour
  order := List.insertionSort fun a b => a.net ≥ b.net
  order_perm := List.perm_insertionSort _

/-- An hour after midnight on the second of January 2026. -/
def secondOfJanuary : DateTime := ⟨⟨2026, 1, 2, by decide, by decide, by decide⟩, hour, by decide⟩

/-- A row of the hour after midnight. -/
def usage (service : Option String) (day' : Date) (cost : ℚ) : Row where
  project := some projectId
  costType := some "regular"
  service := service
  resource := some "api"
  globalName := some "//run.googleapis.com/api"
  skuId := some "6F81-5844-456A"
  skuDescription := some "CPU"
  currency := some "USD"
  start := midnight day' + 5 * hour
  finish := midnight day' + 6 * hour
  exported := midnight day' + 6 * hour
  cost := cost
  credits := 0

def merged : List Row :=
  [usage (some "") ⟨2026, 1, 1, by decide, by decide, by decide⟩ 10,
    usage none ⟨2026, 1, 1, by decide, by decide, by decide⟩ 5,
    usage (some "") ⟨2026, 1, 2, by decide, by decide, by decide⟩ 20,
    usage none ⟨2026, 1, 2, by decide, by decide, by decide⟩ 5]

/-- The rows of one of the services. -/
def unmerged : List Row := merged.filter fun r => r.service = some ""

example : (comparison bogota unmerged .service 1 false secondOfJanuary).toOption.map
    (fun c => (c.comparable, c.netChange)) = some (true, some 10) := by decide +kernel

end Costs
