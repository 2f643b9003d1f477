import Mathlib.Algebra.Order.Ring.Int
import Mathlib.Tactic.SplitIfs
import Mathlib.Tactic.IntervalCases

/-!
# The proleptic Gregorian calendar

The dates of the calendar, each with the one after it. A day count numbers them one after another:
any two of them differ by a constant, and each is in the order of year, month and day.
-/

set_option linter.dupNamespace false

namespace Gregorian

/-- Years are numbered astronomically: 1 BC is year 0. -/
def IsLeap (y : Int) : Prop := y % 4 = 0 ∧ (y % 100 ≠ 0 ∨ y % 400 = 0)

instance (y : Int) : Decidable (IsLeap y) := inferInstanceAs (Decidable (_ ∧ _))

def monthLength (y : Int) (m : ℕ) : ℕ :=
  if m = 2 then if IsLeap y then 29 else 28
  else if m = 4 ∨ m = 6 ∨ m = 9 ∨ m = 11 then 30 else 31

theorem monthLength_pos (y : Int) (m : ℕ) : 1 ≤ monthLength y m := by
  unfold monthLength
  split_ifs <;> omega

@[ext]
structure Date where
  year : Int
  month : ℕ
  day : ℕ
  month_mem : 1 ≤ month ∧ month ≤ 12
  day_mem : 1 ≤ day ∧ day ≤ monthLength year month

namespace Date

def next (d : Date) : Date :=
  if h : d.day < monthLength d.year d.month then
    { d with day := d.day + 1, day_mem := ⟨by omega, h⟩ }
  else if h : d.month < 12 then
    { year := d.year, month := d.month + 1, day := 1, month_mem := ⟨by omega, h⟩
      day_mem := ⟨le_rfl, monthLength_pos _ _⟩ }
  else
    { year := d.year + 1, month := 1, day := 1, month_mem := ⟨le_rfl, by omega⟩
      day_mem := ⟨le_rfl, monthLength_pos _ _⟩ }

/-- In the order of year, month and day. -/
instance : LT Date where
  lt d e := d.year < e.year ∨ d.year = e.year ∧
    (d.month < e.month ∨ d.month = e.month ∧ d.day < e.day)

theorem lt_def {d e : Date} : d < e ↔ d.year < e.year ∨ d.year = e.year ∧
    (d.month < e.month ∨ d.month = e.month ∧ d.day < e.day) := .rfl

theorem lt_or_eq_or_gt (d e : Date) : d < e ∨ d = e ∨ e < d := by
  simp only [lt_def, Date.ext_iff]
  omega

/-- The first day of a month. -/
def first (y : Int) (m : ℕ) (h : 1 ≤ m ∧ m ≤ 12) : Date := ⟨y, m, 1, h, le_rfl, monthLength_pos y m⟩

end Date

/-- A numbering of the days, one after another. -/
structure DayCount where
  count : Date → Int
  count_next : ∀ d, count d.next = count d + 1

namespace DayCount

variable (f g : DayCount)

theorem count_succ {y : Int} {m a : ℕ} (hm : 1 ≤ m ∧ m ≤ 12) (ha : 1 ≤ a ∧ a ≤ monthLength y m)
    (hs : 1 ≤ a + 1 ∧ a + 1 ≤ monthLength y m) :
    f.count ⟨y, m, a + 1, hm, hs⟩ = f.count ⟨y, m, a, hm, ha⟩ + 1 := by
  rw [← f.count_next ⟨y, m, a, hm, ha⟩]
  congr 1
  unfold Date.next
  rw [dif_pos (show a < monthLength y m by omega)]

/-- A day is counted on from the first of its month. -/
theorem count_eq_first {y : Int} {m : ℕ} (hm : 1 ≤ m ∧ m ≤ 12) : ∀ (a : ℕ)
    (ha : 1 ≤ a ∧ a ≤ monthLength y m),
    f.count ⟨y, m, a, hm, ha⟩ = f.count (Date.first y m hm) + a - 1
  | 0, ha => absurd ha.1 (by omega)
  | 1, _ => by
    simp only [Date.first]
    omega
  | a + 2, ha => by
    have hprev : 1 ≤ a + 1 ∧ a + 1 ≤ monthLength y m := ⟨by omega, by omega⟩
    rw [count_succ f hm hprev ha, count_eq_first hm (a + 1) hprev]
    omega

theorem count_nextMonth {y : Int} {m : ℕ} (hm : 1 ≤ m ∧ m ≤ 12) (hs : 1 ≤ m + 1 ∧ m + 1 ≤ 12) :
    f.count (Date.first y (m + 1) hs) = f.count (Date.first y m hm) + monthLength y m := by
  have hlast : 1 ≤ monthLength y m ∧ monthLength y m ≤ monthLength y m :=
    ⟨monthLength_pos y m, le_rfl⟩
  have hnext : Date.first y (m + 1) hs = Date.next ⟨y, m, monthLength y m, hm, hlast⟩ := by
    unfold Date.next
    rw [dif_neg (lt_irrefl _), dif_pos (show m < 12 by omega)]
    rfl
  rw [hnext, f.count_next, count_eq_first f hm _ hlast]
  omega

theorem count_nextYear (y : Int) :
    f.count (Date.first (y + 1) 1 ⟨le_rfl, by omega⟩) =
      f.count (Date.first y 12 ⟨by omega, le_rfl⟩) + monthLength y 12 := by
  have hlast : 1 ≤ monthLength y 12 ∧ monthLength y 12 ≤ monthLength y 12 :=
    ⟨monthLength_pos y 12, le_rfl⟩
  have hnext : Date.first (y + 1) 1 ⟨le_rfl, by omega⟩ =
      Date.next ⟨y, 12, monthLength y 12, ⟨by omega, le_rfl⟩, hlast⟩ := by
    unfold Date.next
    rw [dif_neg (lt_irrefl _), dif_neg (lt_irrefl _)]
    rfl
  rw [hnext, f.count_next, count_eq_first f _ _ hlast]
  omega

/-! ## The order -/

theorem first_month_le {y : Int} {m m' : ℕ} (hm : 1 ≤ m ∧ m ≤ 12) (hm' : 1 ≤ m' ∧ m' ≤ 12)
    (h : m < m') :
    f.count (Date.first y m hm) + monthLength y m ≤ f.count (Date.first y m' hm') := by
  induction m' with
  | zero => omega
  | succ m' ih =>
    obtain rfl | hlt : m = m' ∨ m < m' := by omega
    · exact (f.count_nextMonth hm hm').ge
    · have hprev : 1 ≤ m' ∧ m' ≤ 12 := ⟨by omega, by omega⟩
      have hle := ih hprev hlt
      have hstep := f.count_nextMonth (y := y) hprev hm'
      omega

theorem first_month_self_le {y : Int} {m : ℕ} (hm : 1 ≤ m ∧ m ≤ 12) :
    f.count (Date.first y 1 ⟨le_rfl, by omega⟩) ≤ f.count (Date.first y m hm) := by
  obtain rfl | hlt : m = 1 ∨ 1 < m := by omega
  · rfl
  · have := f.first_month_le (y := y) ⟨le_rfl, by omega⟩ hm hlt
    omega

theorem month_le_year {y : Int} {m : ℕ} (hm : 1 ≤ m ∧ m ≤ 12) :
    f.count (Date.first y m hm) + monthLength y m ≤
      f.count (Date.first (y + 1) 1 ⟨le_rfl, by omega⟩) := by
  rw [f.count_nextYear]
  obtain rfl | hlt : m = 12 ∨ m < 12 := by omega
  · rfl
  · have := f.first_month_le (y := y) hm ⟨by omega, le_rfl⟩ hlt
    omega

theorem first_year_le (y : Int) : ∀ k : ℕ,
    f.count (Date.first y 1 ⟨le_rfl, by omega⟩) ≤
      f.count (Date.first (y + k) 1 ⟨le_rfl, by omega⟩)
  | 0 => by simp
  | k + 1 => by
    have ih := first_year_le y k
    have hstep := f.month_le_year (y := y + k) (m := 1) ⟨le_rfl, by omega⟩
    have hcast : y + ((k + 1 : ℕ) : Int) = y + k + 1 := by omega
    simp only [hcast]
    omega

theorem count_lt {d e : Date} (h : d < e) : f.count d < f.count e := by
  obtain ⟨y, m, a, hm, ha⟩ := d
  obtain ⟨y', m', a', hm', ha'⟩ := e
  rw [f.count_eq_first hm a ha, f.count_eq_first hm' a' ha']
  rcases Date.lt_def.1 h with hy | ⟨hy, hmonth | ⟨hmonth, hday⟩⟩
  · dsimp only at hy
    obtain ⟨k, rfl⟩ : ∃ k : ℕ, y' = y + 1 + k := ⟨(y' - y - 1).toNat, by omega⟩
    have hend := f.month_le_year (y := y) hm
    have hyears := f.first_year_le (y + 1) k
    have hmonths : f.count (Date.first (y + 1 + k) 1 ⟨le_rfl, by omega⟩) ≤
        f.count (Date.first (y + 1 + k) m' hm') := f.first_month_self_le hm'
    omega
  · dsimp only at hy hmonth
    subst hy
    have := f.first_month_le (y := y) hm hm' hmonth
    omega
  · dsimp only at hy hmonth hday
    subst hy hmonth
    omega

theorem count_lt_iff {d e : Date} : f.count d < f.count e ↔ d < e := by
  refine ⟨fun h => ?_, f.count_lt⟩
  rcases d.lt_or_eq_or_gt e with hlt | rfl | hgt
  · exact hlt
  · omega
  · have := f.count_lt hgt
    omega

theorem count_injective {d e : Date} (h : f.count d = f.count e) : d = e := by
  rcases d.lt_or_eq_or_gt e with hlt | heq | hgt
  · have := f.count_lt hlt
    omega
  · exact heq
  · have := f.count_lt hgt
    omega

/-! ## Two counts -/

theorem first_sub_const (y : Int) : ∀ (m : ℕ) (hm : 1 ≤ m ∧ m ≤ 12),
    f.count (Date.first y m hm) - g.count (Date.first y m hm) =
      f.count (Date.first y 1 ⟨le_rfl, by omega⟩) - g.count (Date.first y 1 ⟨le_rfl, by omega⟩)
  | 0, hm => absurd hm.1 (by omega)
  | 1, _ => rfl
  | m + 2, hm => by
    have hprev : 1 ≤ m + 1 ∧ m + 1 ≤ 12 := ⟨by omega, by omega⟩
    have ih := first_sub_const y (m + 1) hprev
    rw [f.count_nextMonth hprev hm, g.count_nextMonth hprev hm]
    omega

theorem year_sub_const (y : Int) : ∀ k : ℕ,
    f.count (Date.first (y + k) 1 ⟨le_rfl, by omega⟩) -
        g.count (Date.first (y + k) 1 ⟨le_rfl, by omega⟩) =
      f.count (Date.first y 1 ⟨le_rfl, by omega⟩) - g.count (Date.first y 1 ⟨le_rfl, by omega⟩)
  | 0 => by simp
  | k + 1 => by
    have ih := year_sub_const y k
    have hlast := first_sub_const f g (y + k) 12 ⟨by omega, le_rfl⟩
    have hcast : y + ((k + 1 : ℕ) : Int) = y + k + 1 := by omega
    simp only [hcast]
    rw [f.count_nextYear, g.count_nextYear]
    omega

/-- Two counts differ by the same on all days. -/
theorem sub_const : ∃ c : Int, ∀ d, f.count d = g.count d + c := by
  refine ⟨f.count (Date.first 0 1 ⟨le_rfl, by omega⟩) - g.count (Date.first 0 1 ⟨le_rfl, by omega⟩),
    ?_⟩
  rintro ⟨y, m, a, hm, ha⟩
  rw [f.count_eq_first hm a ha, g.count_eq_first hm a ha]
  have hmonth := first_sub_const f g y m hm
  have hyear : f.count (Date.first y 1 ⟨le_rfl, by omega⟩) -
        g.count (Date.first y 1 ⟨le_rfl, by omega⟩) =
      f.count (Date.first 0 1 ⟨le_rfl, by omega⟩) - g.count (Date.first 0 1 ⟨le_rfl, by omega⟩) := by
    rcases le_or_gt 0 y with hy | hy
    · obtain ⟨k, rfl⟩ : ∃ k : ℕ, y = 0 + k := ⟨y.toNat, by omega⟩
      exact year_sub_const f g 0 k
    · obtain ⟨k, hk⟩ : ∃ k : ℕ, 0 = y + k := ⟨(-y).toNat, by omega⟩
      have := year_sub_const f g y k
      simp only [← hk] at this
      exact this.symm
  omega

end DayCount

/-! ## Ordinals -/

/-- The days of a year before a month. -/
def daysBeforeMonth (y : Int) (m : ℕ) : ℕ :=
  match m with
  | 0 | 1 => 0
  | m + 2 => daysBeforeMonth y (m + 1) + monthLength y (m + 1)

def daysBeforeYear (y : Int) : Int := (y - 1) * 365 + (y - 1) / 4 - (y - 1) / 100 + (y - 1) / 400

/-- The first of January of the year 1 is day 1. -/
def toOrdinal (d : Date) : Int := daysBeforeYear d.year + daysBeforeMonth d.year d.month + d.day

/-- A leap year adds a day to the leap days before it. -/
theorem leapDays_succ (y : Int) : y / 4 - y / 100 + y / 400 =
    (y - 1) / 4 - (y - 1) / 100 + (y - 1) / 400 + if IsLeap y then 1 else 0 := by
  by_cases hleap : IsLeap y
  · rw [if_pos hleap]
    unfold IsLeap at hleap
    omega
  · rw [if_neg hleap]
    unfold IsLeap at hleap
    omega

theorem daysBeforeYear_succ (y : Int) :
    daysBeforeYear (y + 1) = daysBeforeYear y + daysBeforeMonth y 12 + monthLength y 12 := by
  have hdays := leapDays_succ y
  unfold daysBeforeYear
  rw [Int.add_sub_cancel]
  by_cases hleap : IsLeap y
  · rw [if_pos hleap] at hdays
    simp [daysBeforeMonth, monthLength, hleap]
    omega
  · rw [if_neg hleap] at hdays
    simp [daysBeforeMonth, monthLength, hleap]
    omega

def ordinal : DayCount where
  count := toOrdinal
  count_next := by
    rintro ⟨y, m, a, hm, ha⟩
    unfold Date.next toOrdinal
    split_ifs with hday hmonth
    · dsimp only at hday ⊢
      omega
    · dsimp only at hday hmonth ⊢
      obtain ⟨m, rfl⟩ : ∃ k, m = k + 1 := ⟨m - 1, by omega⟩
      have hstep : daysBeforeMonth y (m + 1 + 1) = daysBeforeMonth y (m + 1) + monthLength y (m + 1) := rfl
      rw [hstep]
      omega
    · dsimp only at hday hmonth ⊢
      obtain rfl : m = 12 := by omega
      have hfirst : daysBeforeMonth (y + 1) 1 = 0 := rfl
      rw [daysBeforeYear_succ, hfirst]
      omega

namespace Date

/-- So many days later. -/
def plus (d : Date) : ℕ → Date
  | 0 => d
  | k + 1 => (d.plus k).next

theorem plus_within {y : Int} {m a : ℕ} (hm : 1 ≤ m ∧ m ≤ 12) (ha : 1 ≤ a ∧ a ≤ monthLength y m) :
    ∀ (k : ℕ) (hk : 1 ≤ a + k ∧ a + k ≤ monthLength y m),
      (⟨y, m, a, hm, ha⟩ : Date).plus k = ⟨y, m, a + k, hm, hk⟩
  | 0, _ => rfl
  | k + 1, hk => by
    have hprev : 1 ≤ a + k ∧ a + k ≤ monthLength y m := by omega
    unfold plus
    rw [plus_within hm ha k hprev]
    unfold next
    rw [dif_pos (show a + k < monthLength y m by omega)]
    rfl

theorem plus_add (d : Date) (j : ℕ) : ∀ k, d.plus (j + k) = (d.plus j).plus k
  | 0 => rfl
  | k + 1 => congrArg next (plus_add d j k)

/-- The first day of the month after. -/
def nextFirst (y : Int) (m : ℕ) (hm : 1 ≤ m ∧ m ≤ 12) : Date :=
  if h : m < 12 then first y (m + 1) ⟨by omega, h⟩ else first (y + 1) 1 ⟨le_rfl, by omega⟩

theorem next_last {y : Int} {m : ℕ} (hm : 1 ≤ m ∧ m ≤ 12) (hl : 1 ≤ monthLength y m ∧ monthLength y m ≤ monthLength y m) :
    (⟨y, m, monthLength y m, hm, hl⟩ : Date).next = nextFirst y m hm := by
  unfold next nextFirst
  rw [dif_neg (lt_irrefl _)]
  split_ifs
  · rfl
  · rfl

theorem monthLength_mem (y : Int) (m : ℕ) : 28 ≤ monthLength y m ∧ monthLength y m ≤ 31 := by
  unfold monthLength
  split_ifs <;> omega

/-- Four days after the 28th is in the month after. -/
theorem plus_four {y : Int} {m : ℕ} (hm : 1 ≤ m ∧ m ≤ 12) (ha : 1 ≤ 28 ∧ 28 ≤ monthLength y m) :
    ((⟨y, m, 28, hm, ha⟩ : Date).plus 4).year = (nextFirst y m hm).year ∧
      ((⟨y, m, 28, hm, ha⟩ : Date).plus 4).month = (nextFirst y m hm).month := by
  have hlen := monthLength_mem y m
  have hlast : 1 ≤ 28 + (monthLength y m - 28) ∧ 28 + (monthLength y m - 28) ≤ monthLength y m := by omega
  have hsplit : 4 = monthLength y m - 28 + (1 + (31 - monthLength y m)) := by omega
  have hstep : ∀ (d : Date) (k : ℕ), d.day = 1 → k ≤ 3 → (d.plus k).year = d.year ∧ (d.plus k).month = d.month := by
    rintro ⟨y', m', a', hm', ha'⟩ k hday hk
    dsimp only at hday
    subst hday
    have hlen' := monthLength_mem y' m'
    rw [plus_within hm' ha' k ⟨by omega, by omega⟩]
    exact ⟨rfl, rfl⟩
  have hfour : (⟨y, m, 28, hm, ha⟩ : Date).plus 4 = (nextFirst y m hm).plus (31 - monthLength y m) := by
    rw [hsplit, plus_add, plus_add, plus_within hm ha _ hlast]
    have hday : 28 + (monthLength y m - 28) = monthLength y m := by omega
    refine congrArg (fun d : Date => d.plus (31 - monthLength y m)) ?_
    rw [← next_last hm ⟨monthLength_pos y m, le_rfl⟩]
    unfold plus plus
    refine congrArg next ?_
    ext <;> first | rfl | exact hday
  rw [hfour]
  refine hstep _ _ ?_ (by omega)
  unfold nextFirst
  split_ifs <;> rfl

end Date

end Gregorian
