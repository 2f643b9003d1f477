import EngPlatform.Lib.Gregorian
import Mathlib.Algebra.BigOperators.Group.List.Basic
import Mathlib.Data.Prod.Lex
import Mathlib.Data.List.TakeWhile
import Mathlib.Tactic.IntervalCases
import Mathlib.Data.Nat.Notation
import Mathlib.Order.WithBot
import Mathlib.Data.Int.ConditionallyCompleteOrder
import Mathlib.Order.ConditionallyCompleteLattice.Basic

/-!
# Temporal sort keys

A stored date or time is sorted by the instant that its text denotes. `temporalKey` reads the text
as the code does, with its patterns written out; `TemporalText` is what PostgreSQL writes, with the
instant that it means, whatever day the days are counted from.
-/

set_option linter.dupNamespace false

namespace Sorting

inductive Raised
  | resourceExceeded (detail : String)
  | unavailable (detail : String)
  deriving DecidableEq

/-- `_TEMPORAL`. -/
inductive TemporalType
  | date
  | time
  | timetz
  | timestamp
  | timestamptz
  deriving DecidableEq

/-- `int(part)`, of digits. -/
def int (part : List Char) : ℕ := Nat.ofDigitChars 10 part 0

/-- Two digits. -/
def field (a b : Char) : Option ℕ := if a.isDigit ∧ b.isDigit then some (int [a, b]) else none

/-! ## Days -/

/-- `_DATE.fullmatch`. -/
def matchDate (value : List Char) : Option (ℕ × ℕ × ℕ) :=
  let year := value.takeWhile Char.isDigit
  match value.dropWhile Char.isDigit with
  | ['-', m, m', '-', d, d'] => do
    if 4 ≤ year.length ∧ year.length ≤ 9 then
      let month ← field m m'
      let day ← field d d'
      some (int year, month, day)
    else none
  | _ => none

def months (leap : Bool) : List ℕ :=
  [31, if leap then 29 else 28, 31, 30, 31, 30, 31, 31, 30, 31, 30, 31]

def isLeap (year : Int) : Bool := year % 4 = 0 ∧ (year % 100 ≠ 0 ∨ year % 400 = 0)

def dayNumber (year : Int) (month day : ℕ) : Int :=
  let previous := year - 1
  previous * 365 + previous / 4 - previous / 100 + previous / 400 +
    ((months (isLeap year)).take (month - 1)).sum + day

/-- `_civil_day`. -/
def civilDay (value : List Char) (bce : Bool) : Option Int := do
  let (year, month, day) ← matchDate value
  if year = 0 ∨ ¬(1 ≤ month ∧ month ≤ 12) then none
  else
    let year : Int := if bce then 1 - year else year
    if 1 ≤ day ∧ day ≤ (months (isLeap year)).getD (month - 1) 0 then
      some (dayNumber year month day)
    else none

/-! ## Times of day -/

/-- The digits of a fraction, if there is one, and what follows. -/
def matchFraction : List Char → Option (List Char × List Char)
  | '.' :: rest =>
    let digits := rest.takeWhile Char.isDigit
    if 1 ≤ digits.length ∧ digits.length ≤ 6 then some (digits, rest.dropWhile Char.isDigit)
    else none
  | rest => some ([], rest)

/-- The sign of an offset, and its hours, minutes and seconds. -/
structure Offset where
  negative : Bool
  hour : ℕ
  minute : ℕ
  second : ℕ

/-- The hours, minutes and seconds of an offset, of which only the hours must be there. -/
def matchOffset (negative : Bool) : List Char → Option Offset
  | [h, h'] => do some ⟨negative, ← field h h', 0, 0⟩
  | [h, h', ':', m, m'] => do some ⟨negative, ← field h h', ← field m m', 0⟩
  | [h, h', ':', m, m', ':', s, s'] => do
    some ⟨negative, ← field h h', ← field m m', ← field s s'⟩
  | _ => none

/-- The zone, if there is one; `Z` is an offset of nothing. -/
def matchZone : List Char → Option (Option Offset)
  | [] => some none
  | ['Z'] => some (some ⟨false, 0, 0, 0⟩)
  | '+' :: rest => (matchOffset false rest).map some
  | '-' :: rest => (matchOffset true rest).map some
  | _ => none

structure Clock where
  hour : ℕ
  minute : ℕ
  second : ℕ
  fraction : List Char
  zone : Option Offset

/-- `_TIME.fullmatch`. -/
def matchTime : List Char → Option Clock
  | h :: h' :: ':' :: m :: m' :: ':' :: s :: s' :: rest => do
    let hour ← field h h'
    let minute ← field m m'
    let second ← field s s'
    let (fraction, rest) ← matchFraction rest
    let zone ← matchZone rest
    some ⟨hour, minute, second, fraction, zone⟩
  | _ => none

def offsetTicks (offset : Offset) : Option Int :=
  if offset.hour > 23 ∨ offset.minute > 59 ∨ offset.second > 59 then none
  else
    let ticks : Int := (offset.hour * 3600 + offset.minute * 60 + offset.second) * 1000000
    some (if offset.negative then -ticks else ticks)

/-- `_clock_ticks`. -/
def clockTicks (value : List Char) : Option (Int × Option Int) := do
  let clock ← matchTime value
  let microsecond := int (clock.fraction ++ List.replicate (6 - clock.fraction.length) '0')
  if clock.hour > 24 ∨ clock.minute > 59 ∨ clock.second > 59 ∨
      (clock.hour = 24 ∧ (clock.minute ≠ 0 ∨ clock.second ≠ 0 ∨ microsecond ≠ 0)) then none
  else
    let ticks : Int :=
      (clock.hour * 3600 + clock.minute * 60 + clock.second) * 1000000 + microsecond
    match clock.zone with
    | none => some (ticks, none)
    | some offset => do some (ticks, some (← offsetTicks offset))

/-! ## Keys -/

abbrev Key := ℕ ×ₗ Int

/-- The ticks, brought to UTC where the type has a zone. -/
def zoned (dataType : TemporalType) (ticks : Int) (offset : Option Int) : Option Int :=
  if dataType ∈ [.timestamptz, .timetz] ∧ offset = none then none
  else if dataType = .timestamp ∧ offset ≠ none then none
  else some (ticks - offset.getD 0)

/-- The key of a text without its era. -/
def eraKey (value : List Char) (bce : Bool) (dataType : TemporalType) : Option Int :=
  match dataType with
  | .date => civilDay value bce
  | .time | .timetz =>
    if bce then none
    else do
      let (ticks, offset) ← clockTicks value
      zoned dataType ticks offset
  | .timestamp | .timestamptz =>
    match value.splitOnP fun c => c = 'T' ∨ c = ' ' with
    | [day, clock] => do
      let (ticks, offset) ← clockTicks clock
      let day ← civilDay day bce
      zoned dataType (ticks + day * 86400000000) offset
    | _ => none

def finiteKey (value : List Char) (dataType : TemporalType) : Option Int :=
  let bce := " BC".toList.isSuffixOf value
  eraKey (if bce then value.take (value.length - 3) else value) bce dataType

/-- `_temporal_key`. -/
def temporalKey (value : String) (dataType : TemporalType) : Except Raised Key :=
  let value := value.toList
  let lowered := value.map Char.toLower
  if lowered ∈ ["-infinity".toList, "infinity".toList, "+infinity".toList] then
    .ok (toLex (if lowered.head? = some '-' then 0 else 2, 0))
  else
    match finiteKey value dataType with
    | some ticks => .ok (toLex (1, ticks))
    | none => .error (.resourceExceeded "Unsupported database sort temporal value")

/-! ## Digits -/

/-- The last `w` digits of a number. -/
def padded : ℕ → ℕ → List Char
  | 0, _ => []
  | w + 1, n => padded w (n / 10) ++ [Nat.digitChar (n % 10)]

theorem length_padded : ∀ w n : ℕ, (padded w n).length = w
  | 0, _ => rfl
  | w + 1, n => by
    rw [padded, List.length_append, length_padded w]
    rfl

theorem isDigit_padded : ∀ (w n : ℕ) (c : Char), c ∈ padded w n → c.isDigit = true
  | 0, _, _, h => absurd h List.not_mem_nil
  | w + 1, n, c, h => by
    rw [padded, List.mem_append, List.mem_singleton] at h
    rcases h with h | rfl
    · exact isDigit_padded w (n / 10) c h
    · rw [Nat.isDigit_digitChar]
      exact decide_eq_true (Nat.mod_lt n (by omega))

theorem int_padded : ∀ (w n : ℕ), n < 10 ^ w → int (padded w n) = n
  | 0, n, h => by
    rw [padded, int, Nat.ofDigitChars_nil]
    omega
  | w + 1, n, h => by
    have hmod : n % 10 < 10 := Nat.mod_lt n (by omega)
    have hdiv : n / 10 < 10 ^ w := by
      rw [pow_succ] at h
      omega
    have ih := int_padded w (n / 10) hdiv
    unfold int at ih ⊢
    rw [padded, Nat.ofDigitChars_append, ih, Nat.ofDigitChars_cons_digitChar_of_lt_ten hmod,
      Nat.ofDigitChars_nil]
    omega

theorem int_fraction {w n : ℕ} (h : n < 10 ^ w) (k : ℕ) :
    int (padded w n ++ List.replicate k '0') = 10 ^ k * n := by
  have hint := int_padded w n h
  unfold int at hint ⊢
  rw [Nat.ofDigitChars_append, hint, Nat.ofDigitChars_replicate_zero]

/-- Two digits as a field. -/
theorem padded_two {n : ℕ} (h : n < 100) :
    ∃ a b, padded 2 n = [a, b] ∧ field a b = some n := by
  have hint := int_padded 2 n h
  have hdigit := isDigit_padded 2 n
  refine ⟨Nat.digitChar (n / 10 % 10), Nat.digitChar (n % 10), rfl, ?_⟩
  unfold field
  rw [if_pos ⟨hdigit _ (.head _), hdigit _ (.tail _ (.head _))⟩]
  exact congrArg some hint

theorem takeWhile_padded {w n : ℕ} {c : Char} (hc : c.isDigit = false) (rest : List Char) :
    (padded w n ++ c :: rest).takeWhile Char.isDigit = padded w n := by
  rw [List.takeWhile_append_of_pos (isDigit_padded w n), List.takeWhile_cons_of_neg (by simp [hc]),
    List.append_nil]

theorem dropWhile_padded {w n : ℕ} {c : Char} (hc : c.isDigit = false) (rest : List Char) :
    (padded w n ++ c :: rest).dropWhile Char.isDigit = c :: rest := by
  rw [List.dropWhile_append_of_pos (isDigit_padded w n), List.dropWhile_cons_of_neg (by simp [hc])]

/-! ## What PostgreSQL writes -/

/-- A year of four digits or more, in its era, with a month and a day. -/
structure DateText where
  width : ℕ
  year : ℕ
  bc : Bool
  month : ℕ
  day : ℕ
  width_mem : 4 ≤ width ∧ width ≤ 9
  year_mem : 1 ≤ year ∧ year < 10 ^ width
  month_mem : 1 ≤ month ∧ month ≤ 12
  day_mem : 1 ≤ day ∧ day ≤ Gregorian.monthLength (if bc then 1 - year else year) month

/-- A time of day, or midnight at its end, with as many digits of a second as are written. -/
structure ClockText where
  hour : ℕ
  minute : ℕ
  second : ℕ
  width : ℕ
  fraction : ℕ
  minute_lt : minute < 60
  second_lt : second < 60
  width_le : width ≤ 6
  fraction_lt : fraction < 10 ^ width
  hour_mem : hour < 24 ∨ hour = 24 ∧ minute = 0 ∧ second = 0 ∧ fraction = 0

/-- An offset, with the minutes and the seconds left out or written. -/
inductive ZoneText
  | utc
  | hours (negative : Bool) (hour : Fin 24)
  | minutes (negative : Bool) (hour : Fin 24) (minute : Fin 60)
  | seconds (negative : Bool) (hour : Fin 24) (minute second : Fin 60)

/-- The texts of a type; `t` stands between a day and a time, or else a space. -/
inductive TemporalText : TemporalType → Type
  | date (day : DateText) : TemporalText .date
  | time (clock : ClockText) : TemporalText .time
  | timetz (clock : ClockText) (zone : ZoneText) : TemporalText .timetz
  | timestamp (day : DateText) (t : Bool) (clock : ClockText) : TemporalText .timestamp
  | timestamptz (day : DateText) (t : Bool) (clock : ClockText) (zone : ZoneText) :
    TemporalText .timestamptz
  | infinity {dataType : TemporalType} (sign : Option Bool) (word : List Char)
    (h : word.map Char.toLower = "infinity".toList) : TemporalText dataType

namespace DateText

def text (d : DateText) : List Char :=
  padded d.width d.year ++ '-' :: (padded 2 d.month ++ '-' :: padded 2 d.day)

def era (d : DateText) : List Char := if d.bc then " BC".toList else []

def date (d : DateText) : Gregorian.Date where
  year := if d.bc then 1 - d.year else d.year
  month := d.month
  day := d.day
  month_mem := d.month_mem
  day_mem := d.day_mem

end DateText

namespace ClockText

def text (c : ClockText) : List Char :=
  padded 2 c.hour ++ ':' :: (padded 2 c.minute ++ ':' :: (padded 2 c.second ++
    if c.width = 0 then [] else '.' :: padded c.width c.fraction))

/-- In microseconds. -/
def micros (c : ClockText) : Int :=
  (c.hour * 3600 + c.minute * 60 + c.second) * 1000000 + c.fraction * 10 ^ (6 - c.width)

end ClockText

namespace ZoneText

def sign (negative : Bool) : Char := if negative then '-' else '+'

def text : ZoneText → List Char
  | utc => ['Z']
  | hours negative h => sign negative :: padded 2 h
  | minutes negative h m => sign negative :: (padded 2 h ++ ':' :: padded 2 m)
  | seconds negative h m s =>
    sign negative :: (padded 2 h ++ ':' :: (padded 2 m ++ ':' :: padded 2 s))

def signed (negative : Bool) (h m s : ℕ) : Int :=
  if negative then -((h * 3600 + m * 60 + s) * 1000000) else (h * 3600 + m * 60 + s) * 1000000

/-- East of UTC, in microseconds. -/
def micros : ZoneText → Int
  | utc => 0
  | hours negative h => signed negative h 0 0
  | minutes negative h m => signed negative h m 0
  | seconds negative h m s => signed negative h m s

end ZoneText

namespace TemporalText

variable {dataType : TemporalType}

def separator (t : Bool) : Char := if t then 'T' else ' '

def chars : TemporalText dataType → List Char
  | date d => d.text ++ d.era
  | time c => c.text
  | timetz c z => c.text ++ z.text
  | timestamp d t c => d.text ++ separator t :: (c.text ++ d.era)
  | timestamptz d t c z => d.text ++ separator t :: (c.text ++ z.text ++ d.era)
  | infinity sign word _ => (sign.map ZoneText.sign).toList ++ word

def text (v : TemporalText dataType) : String := String.ofList v.chars

/-- The instant of a text, in days for a date and in microseconds else, from where `days` counts
from. -/
def instant (days : Gregorian.DayCount) : TemporalText dataType → WithBot (WithTop Int)
  | date d => ((days.count d.date : WithTop Int) : WithBot (WithTop Int))
  | time c => ((c.micros : WithTop Int) : WithBot (WithTop Int))
  | timetz c z => ((c.micros - z.micros : Int) : WithTop Int)
  | timestamp d _ c => ((days.count d.date * 86400000000 + c.micros : Int) : WithTop Int)
  | timestamptz d _ c z =>
    ((days.count d.date * 86400000000 + c.micros - z.micros : Int) : WithTop Int)
  | infinity sign _ _ => if sign = some true then ⊥ else ((⊤ : WithTop Int) : WithBot (WithTop Int))

end TemporalText

/-! ## Day numbers -/

theorem months_getD {year : Int} {month : ℕ} (h : 1 ≤ month ∧ month ≤ 12) :
    (months (isLeap year)).getD (month - 1) 0 = Gregorian.monthLength year month := by
  have hleap : isLeap year = decide (Gregorian.IsLeap year) := rfl
  obtain ⟨h1, h12⟩ := h
  rw [hleap]
  interval_cases month <;> by_cases hl : Gregorian.IsLeap year <;>
    simp [months, Gregorian.monthLength, hl]

theorem sum_months (year : Int) {month : ℕ} (h : 1 ≤ month ∧ month ≤ 12) :
    ((months (isLeap year)).take month).sum =
      ((months (isLeap year)).take (month - 1)).sum + Gregorian.monthLength year month := by
  have hlen : month - 1 < (months (isLeap year)).length := by
    simp only [months, List.length_cons, List.length_nil]
    omega
  rw [← months_getD h, List.getD_eq_getElem?_getD, List.getElem?_eq_getElem hlen, Option.getD_some,
    ← List.sum_take_succ _ _ hlen, Nat.sub_add_cancel h.1]

theorem sum_year (year : Int) :
    ((months (isLeap year)).sum : Int) = if Gregorian.IsLeap year then 366 else 365 := by
  have hleap : isLeap year = decide (Gregorian.IsLeap year) := rfl
  rw [hleap]
  by_cases hl : Gregorian.IsLeap year <;> simp [months, hl]

theorem dayNumber_nextYear (year : Int) :
    dayNumber (year + 1) 1 1 = dayNumber year 12 31 + 1 := by
  have hsum := sum_year year
  have hdays := Gregorian.leapDays_succ year
  have hlast := sum_months year (show 1 ≤ 12 ∧ 12 ≤ 12 by omega)
  have hdec : Gregorian.monthLength year 12 = 31 := by simp [Gregorian.monthLength]
  have htake : (months (isLeap year)).take 12 = months (isLeap year) := rfl
  rw [htake, hdec] at hlast
  unfold dayNumber
  simp only [show (12 : ℕ) - 1 = 11 from rfl] at hlast ⊢
  have hfirst : ((months (isLeap (year + 1))).take (1 - 1)).sum = 0 := rfl
  rw [hfirst]
  generalize (months (isLeap year)).sum = whole at hsum hlast
  generalize ((months (isLeap year)).take 11).sum = before at hlast ⊢
  rw [Int.add_sub_cancel]
  by_cases hleap : Gregorian.IsLeap year
  · rw [if_pos hleap] at hsum hdays
    push_cast
    omega
  · rw [if_neg hleap] at hsum hdays
    push_cast
    omega

/-- The day numbers of the code count the days of the calendar. -/
def civil : Gregorian.DayCount where
  count d := dayNumber d.year d.month d.day
  count_next d := by
    obtain ⟨year, month, day, hmonth, hday⟩ := d
    unfold Gregorian.Date.next
    split_ifs with hin hyear
    · simp only [dayNumber]
      push_cast
      omega
    · have hend : day = Gregorian.monthLength year month := by
        dsimp only at hin hday
        omega
      have hsum := sum_months year hmonth
      simp only [dayNumber, Nat.add_sub_cancel] at hsum ⊢
      generalize ((months (isLeap year)).take month).sum = past at hsum ⊢
      generalize ((months (isLeap year)).take (month - 1)).sum = before at hsum ⊢
      push_cast
      omega
    · obtain rfl : month = 12 := by
        dsimp only at hyear hmonth
        omega
      have hdec : Gregorian.monthLength year 12 = 31 := by simp [Gregorian.monthLength]
      obtain rfl : day = 31 := by
        dsimp only at hin hday
        omega
      exact dayNumber_nextYear year

theorem matchDate_text (d : DateText) : matchDate d.text = some (d.year, d.month, d.day) := by
  have hlen : Gregorian.monthLength (if d.bc then 1 - d.year else d.year) d.month ≤ 31 := by
    unfold Gregorian.monthLength
    split_ifs <;> omega
  obtain ⟨m, m', hm, hfm⟩ := padded_two (n := d.month) (by have := d.month_mem; omega)
  obtain ⟨a, a', ha, hfa⟩ := padded_two (n := d.day) (by have := d.day_mem; omega)
  unfold matchDate DateText.text
  rw [takeWhile_padded (by decide), dropWhile_padded (by decide), hm, ha]
  simp only [List.cons_append, List.nil_append, length_padded, hfm, hfa]
  rw [if_pos d.width_mem, int_padded _ _ d.year_mem.2]
  rfl

theorem civilDay_text (d : DateText) : civilDay d.text d.bc = some (civil.count d.date) := by
  unfold civilDay
  rw [matchDate_text]
  simp only [Option.bind_eq_bind, Option.bind_some]
  have hyear : ¬(d.year = 0 ∨ ¬(1 ≤ d.month ∧ d.month ≤ 12)) := by
    have := d.year_mem
    have := d.month_mem
    omega
  rw [if_neg hyear, months_getD d.month_mem, if_pos d.day_mem]
  rfl

/-! ## Clocks -/

theorem int_ticks (c : ClockText) :
    int (padded c.width c.fraction ++ List.replicate (6 - (padded c.width c.fraction).length) '0') =
      c.fraction * 10 ^ (6 - c.width) := by
  rw [int_fraction c.fraction_lt, length_padded, Nat.mul_comm]

/-- What follows the seconds of a time. -/
theorem matchFraction_text (c : ClockText) {zone : List Char}
    (hz : ∀ a ∈ zone.head?, a.isDigit = false ∧ a ≠ '.') :
    matchFraction ((if c.width = 0 then [] else '.' :: padded c.width c.fraction) ++ zone) =
      some (padded c.width c.fraction, zone) := by
  by_cases hw : c.width = 0
  · rw [if_pos hw, hw, List.nil_append]
    cases zone with
    | nil => rfl
    | cons a zone =>
      unfold matchFraction
      split
      · rename_i heq
        cases heq
        exact absurd rfl (hz '.' rfl).2
      · rfl
  · rw [if_neg hw, List.cons_append]
    have hdigits : (padded c.width c.fraction ++ zone).takeWhile Char.isDigit =
          padded c.width c.fraction ∧
        (padded c.width c.fraction ++ zone).dropWhile Char.isDigit = zone := by
      cases zone with
      | nil =>
        rw [List.append_nil]
        exact ⟨List.takeWhile_eq_self_iff.2 (isDigit_padded _ _),
          List.dropWhile_eq_nil_iff.2 (isDigit_padded _ _)⟩
      | cons a zone => exact ⟨takeWhile_padded (hz a rfl).1 zone, dropWhile_padded (hz a rfl).1 zone⟩
    unfold matchFraction
    simp only [hdigits.1, hdigits.2, length_padded]
    rw [if_pos ⟨by omega, c.width_le⟩]

theorem matchTime_text (c : ClockText) {zone : List Char} {offset : Option Offset}
    (hz : ∀ a ∈ zone.head?, a.isDigit = false ∧ a ≠ '.') (ho : matchZone zone = some offset) :
    matchTime (c.text ++ zone) =
      some ⟨c.hour, c.minute, c.second, padded c.width c.fraction, offset⟩ := by
  obtain ⟨h, h', hh, hfh⟩ := padded_two (n := c.hour) (by have := c.hour_mem; omega)
  obtain ⟨m, m', hm, hfm⟩ := padded_two (n := c.minute) (by have := c.minute_lt; omega)
  obtain ⟨s, s', hs, hfs⟩ := padded_two (n := c.second) (by have := c.second_lt; omega)
  have hfraction := matchFraction_text c hz
  unfold ClockText.text
  rw [hh, hm, hs]
  simp only [List.cons_append, List.nil_append, matchTime, hfh, hfm, hfs, hfraction, ho,
    Option.bind_eq_bind, Option.bind_some]

theorem clockTicks_text (c : ClockText) {zone : List Char} {offset : Option Offset}
    (hz : ∀ a ∈ zone.head?, a.isDigit = false ∧ a ≠ '.') (ho : matchZone zone = some offset) :
    clockTicks (c.text ++ zone) =
      (offset.elim (some none) fun offset => (offsetTicks offset).map some).map (c.micros, ·) := by
  unfold clockTicks
  rw [matchTime_text c hz ho]
  simp only [Option.bind_eq_bind, Option.bind_some, int_ticks]
  have hvalid : ¬(c.hour > 24 ∨ c.minute > 59 ∨ c.second > 59 ∨
      (c.hour = 24 ∧ (c.minute ≠ 0 ∨ c.second ≠ 0 ∨ c.fraction * 10 ^ (6 - c.width) ≠ 0))) := by
    have := c.minute_lt
    have := c.second_lt
    rcases c.hour_mem with hlt | ⟨hh, hm, hs, hf⟩
    · omega
    · rw [hf, Nat.zero_mul]
      omega
  rw [if_neg hvalid]
  have hticks : ((c.hour * 3600 + c.minute * 60 + c.second) * 1000000 +
      ((c.fraction * 10 ^ (6 - c.width) : ℕ) : Int) : Int) = c.micros := by
    unfold ClockText.micros
    push_cast
    rfl
  rw [hticks]
  rcases offset with _ | offset
  · rfl
  · simp only [Option.elim]
    cases offsetTicks offset <;> rfl

/-- A zone is not read as a digit of the time before it, and is read as its offset. -/
theorem zone_text (z : ZoneText) : (∀ a ∈ z.text.head?, a.isDigit = false ∧ a ≠ '.') ∧
    ∃ offset, matchZone z.text = some (some offset) ∧ offsetTicks offset = some z.micros := by
  have hsign : ∀ b, (ZoneText.sign b).isDigit = false ∧ ZoneText.sign b ≠ '.' := by decide
  have hzone : ∀ b rest, matchZone (ZoneText.sign b :: rest) = (matchOffset b rest).map some := by
    rintro (_ | _) rest <;> rfl
  cases z with
  | utc =>
    refine ⟨?_, ⟨false, 0, 0, 0⟩, rfl, rfl⟩
    rintro a ⟨⟩
    decide
  | hours negative h =>
    obtain ⟨a, a', hh, hfh⟩ := padded_two (n := h) (by omega)
    refine ⟨?_, ⟨negative, h, 0, 0⟩, ?_, ?_⟩
    · rintro a ⟨⟩
      exact hsign negative
    · rw [ZoneText.text, hzone, hh]
      simp only [matchOffset, hfh]
      rfl
    · unfold offsetTicks
      rw [if_neg (by dsimp only; omega)]
      rfl
  | minutes negative h m =>
    obtain ⟨a, a', hh, hfh⟩ := padded_two (n := h) (by omega)
    obtain ⟨b, b', hm, hfm⟩ := padded_two (n := m) (by omega)
    refine ⟨?_, ⟨negative, h, m, 0⟩, ?_, ?_⟩
    · rintro a ⟨⟩
      exact hsign negative
    · rw [ZoneText.text, hzone, hh, hm]
      simp only [List.cons_append, List.nil_append, matchOffset, hfh, hfm]
      rfl
    · unfold offsetTicks
      rw [if_neg (by dsimp only; omega)]
      rfl
  | seconds negative h m s =>
    obtain ⟨a, a', hh, hfh⟩ := padded_two (n := h) (by omega)
    obtain ⟨b, b', hm, hfm⟩ := padded_two (n := m) (by omega)
    obtain ⟨c, c', hs, hfs⟩ := padded_two (n := s) (by omega)
    refine ⟨?_, ⟨negative, h, m, s⟩, ?_, ?_⟩
    · rintro a ⟨⟩
      exact hsign negative
    · rw [ZoneText.text, hzone, hh, hm, hs]
      simp only [List.cons_append, List.nil_append, matchOffset, hfh, hfm, hfs]
      rfl
    · unfold offsetTicks
      rw [if_neg (by dsimp only; omega)]
      rfl

/-! ## Texts -/

/-- What a finite text starts and ends with. -/
structure Framed (l : List Char) : Prop where
  head : ∃ c ∈ l.head?, c.isDigit = true
  last : l.getLast? ≠ some 'C'

/-- A day or a time has no mark in it that they are split at. -/
structure Shape (l : List Char) : Prop extends Framed l where
  whole : ∀ c ∈ l, c ≠ 'T' ∧ c ≠ ' '

theorem digit_ne {c : Char} (h : c.isDigit = true) :
    (c ≠ 'T' ∧ c ≠ ' ' ∧ c ≠ 'C') ∧ c ≠ '-' ∧ c ≠ 'i' ∧ c ≠ '+' := by
  refine ⟨⟨?_, ?_, ?_⟩, ?_, ?_, ?_⟩ <;> rintro rfl <;> revert h <;> decide

theorem Shape.padded (w n : ℕ) : Shape (padded (w + 1) n) where
  head := by
    cases hl : Sorting.padded (w + 1) n with
    | nil =>
      have := length_padded (w + 1) n
      rw [hl] at this
      cases this
    | cons c l =>
      refine ⟨c, rfl, isDigit_padded (w + 1) n c ?_⟩
      rw [hl]
      exact .head _
  last h := by
    have hm := List.mem_of_getLast? h
    exact (digit_ne (isDigit_padded _ _ _ hm)).1.2.2 rfl
  whole c hc := by
    have := digit_ne (isDigit_padded _ _ _ hc)
    exact ⟨this.1.1, this.1.2.1⟩

/-- Two parts with a mark between them. -/
theorem Framed.append {l l' : List Char} (h : Framed l) (h' : Framed l') (c : Char) :
    Framed (l ++ c :: l') where
  head := by
    obtain ⟨a, ha, hd⟩ := h.head
    refine ⟨a, ?_, hd⟩
    rw [List.head?_append, Option.mem_def.1 ha]
    rfl
  last := by
    obtain ⟨a, ha, -⟩ := h'.head
    have hne : l' ≠ [] := by
      rintro rfl
      cases ha
    rw [List.getLast?_append, List.getLast?_cons_of_ne_nil hne]
    intro hl
    cases hlast : l'.getLast? with
    | none => exact hne (List.getLast?_eq_none_iff.1 hlast)
    | some b =>
      rw [hlast] at hl
      exact h'.last (hlast.trans hl)

theorem Shape.append {l l' : List Char} (h : Shape l) (h' : Shape l') {c : Char}
    (hc : c ≠ 'T' ∧ c ≠ ' ') : Shape (l ++ c :: l') where
  toFramed := h.toFramed.append h'.toFramed c
  whole a ha := by
    rcases List.mem_append.1 ha with ha | ha
    · exact h.whole a ha
    · rcases List.mem_cons.1 ha with rfl | ha
      · exact hc
      · exact h'.whole a ha

theorem DateText.shape (d : DateText) : Shape d.text := by
  have hmark : '-' ≠ 'T' ∧ '-' ≠ ' ' := by decide
  obtain ⟨w, hw⟩ : ∃ w, d.width = w + 1 := ⟨d.width - 1, by have := d.width_mem; omega⟩
  unfold DateText.text
  rw [hw]
  exact (Shape.padded _ _).append ((Shape.padded 1 _).append (Shape.padded 1 _) hmark) hmark

theorem ClockText.shape (c : ClockText) : Shape c.text := by
  have hcolon : ':' ≠ 'T' ∧ ':' ≠ ' ' := by decide
  have hseconds : Shape (padded 2 c.second ++
      if c.width = 0 then [] else '.' :: padded c.width c.fraction) := by
    by_cases hw : c.width = 0
    · rw [if_pos hw, List.append_nil]
      exact Shape.padded 1 _
    · obtain ⟨w, he⟩ : ∃ w, c.width = w + 1 := ⟨c.width - 1, by omega⟩
      rw [if_neg hw, he]
      exact (Shape.padded 1 _).append (Shape.padded w _) (by decide)
  exact (Shape.padded 1 _).append ((Shape.padded 1 _).append hseconds hcolon) hcolon

theorem ZoneText.shape (z : ZoneText) {l : List Char} (h : Shape l) : Shape (l ++ z.text) := by
  have hsign : ∀ b, ZoneText.sign b ≠ 'T' ∧ ZoneText.sign b ≠ ' ' := by decide
  have hcolon : ':' ≠ 'T' ∧ ':' ≠ ' ' := by decide
  cases z with
  | utc =>
    refine ⟨⟨?_, ?_⟩, fun c hc => ?_⟩
    · obtain ⟨a, ha, hd⟩ := h.head
      refine ⟨a, ?_, hd⟩
      rw [List.head?_append, Option.mem_def.1 ha]
      rfl
    · rw [ZoneText.text, List.getLast?_concat]
      decide
    · rcases List.mem_append.1 hc with hc | hc
      · exact h.whole c hc
      · rw [List.mem_singleton.1 hc]
        decide
  | hours negative hour => exact h.append (Shape.padded 1 _) (hsign negative)
  | minutes negative hour minute =>
    exact h.append ((Shape.padded 1 _).append (Shape.padded 1 _) hcolon) (hsign negative)
  | seconds negative hour minute second =>
    exact h.append ((Shape.padded 1 _).append ((Shape.padded 1 _).append (Shape.padded 1 _) hcolon)
      hcolon) (hsign negative)

def eraOf (bce : Bool) : List Char := if bce then " BC".toList else []

/-- The era is told from the end of the text. -/
theorem finiteKey_era {l : List Char} (h : Framed l) (bce : Bool) (dataType : TemporalType) :
    finiteKey (l ++ eraOf bce) dataType = eraKey l bce dataType := by
  unfold finiteKey
  cases bce with
  | true =>
    have hsuffix : " BC".toList.isSuffixOf (l ++ eraOf true) = true :=
      List.isSuffixOf_iff_suffix.2 ⟨l, rfl⟩
    have hlen : (l ++ eraOf true).length - 3 = l.length := by
      simp [eraOf]
    simp only [hsuffix, if_true, hlen]
    rw [List.take_left]
  | false =>
    have hsuffix : " BC".toList.isSuffixOf (l ++ eraOf false) = false := by
      rw [Bool.eq_false_iff]
      intro hs
      obtain ⟨t, ht⟩ := List.isSuffixOf_iff_suffix.1 hs
      apply h.last
      have hl : l = t ++ [' ', 'B'] ++ ['C'] := by
        rw [eraOf, if_neg (by decide), List.append_nil] at ht
        rw [← ht, List.append_assoc]
        rfl
      rw [hl, List.getLast?_concat]
    simp only [hsuffix, Bool.false_eq_true, if_false]
    rw [eraOf, if_neg (by decide), List.append_nil]

theorem DateText.era_eq (d : DateText) : d.era = eraOf d.bc := rfl

theorem temporalKey_finite {l : List Char} (h : Framed l) {bce : Bool} {dataType : TemporalType}
    {ticks : Int} (hk : eraKey l bce dataType = some ticks) :
    temporalKey (String.ofList (l ++ eraOf bce)) dataType = .ok (toLex (1, ticks)) := by
  obtain ⟨c, hc, hd⟩ := h.head
  obtain ⟨rest, rfl⟩ : ∃ rest, l = c :: rest := by
    cases l with
    | nil => cases hc
    | cons a rest =>
      cases hc
      exact ⟨rest, rfl⟩
  have hlower : c.toLower = c := by
    unfold Char.toLower
    rw [dif_neg]
    intro hu
    unfold Char.isDigit at hd
    simp only [ge_iff_le, Bool.and_eq_true, decide_eq_true_eq, UInt32.le_iff_toNat_le] at hd hu
    have h57 : ('9'.val).toNat = 57 := rfl
    have h65 : ('A'.val).toNat = 65 := rfl
    omega
  have hne := (digit_ne hd).2
  unfold temporalKey
  simp only [String.toList_ofList]
  rw [if_neg, finiteKey_era h bce dataType, hk]
  intro hm
  simp only [List.cons_append, List.map_cons, hlower, List.mem_cons, List.not_mem_nil,
    or_false] at hm
  rcases hm with hm | hm | hm
  · exact hne.1 (List.cons.inj hm).1
  · exact hne.2.1 (List.cons.inj hm).1
  · exact hne.2.2 (List.cons.inj hm).1

/-- What a key is for an instant, for a count of days that is `shift` behind. -/
def keyOf (shift : Int) : WithBot (WithTop Int) → Key
  | none => toLex (0, 0)
  | some (some ticks) => toLex (1, ticks + shift)
  | some none => toLex (2, 0)

theorem keyOf_strictMono (shift : Int) : StrictMono (keyOf shift) := by
  intro a b hab
  rcases a with _ | _ | a <;> rcases b with _ | _ | b
  · exact absurd hab (lt_irrefl _)
  · exact Prod.Lex.toLex_lt_toLex.2 (.inl Nat.two_pos)
  · exact Prod.Lex.toLex_lt_toLex.2 (.inl Nat.one_pos)
  · exact absurd hab not_lt_bot
  · exact absurd hab (lt_irrefl _)
  · exact absurd (WithBot.coe_lt_coe.1 hab) not_top_lt
  · exact absurd hab not_lt_bot
  · exact Prod.Lex.toLex_lt_toLex.2 (.inl Nat.one_lt_two)
  · have hlt : a < b := WithTop.coe_lt_coe.1 (WithBot.coe_lt_coe.1 hab)
    exact Prod.Lex.toLex_lt_toLex.2 (.inr ⟨rfl, by dsimp only; omega⟩)

/-- How far the ticks of a type are ahead when its days are. -/
def shiftOf (c : Int) : TemporalType → Int
  | .date => c
  | .time | .timetz => 0
  | .timestamp | .timestamptz => c * 86400000000

theorem splitOnP_text {l l' : List Char} (h : Shape l) (h' : Shape l') (t : Bool) :
    (l ++ TemporalText.separator t :: l').splitOnP (fun c => decide (c = 'T' ∨ c = ' ')) =
      [l, l'] := by
  have hwhole : ∀ {l : List Char}, Shape l → ∀ c ∈ l, decide (c = 'T' ∨ c = ' ') = false := by
    intro l h c hc
    have := h.whole c hc
    exact decide_eq_false (by tauto)
  have hsep : decide (TemporalText.separator t = 'T' ∨ TemporalText.separator t = ' ') = true := by
    cases t <;> decide
  rw [List.splitOnP_append_cons_of_forall_mem (hwhole h) _ hsep,
    List.splitOnP_eq_singleton (hwhole h')]

theorem clockTicks_plain (c : ClockText) : clockTicks c.text = some (c.micros, none) := by
  have hnone : ∀ a ∈ ([] : List Char).head?, a.isDigit = false ∧ a ≠ '.' := by
    rintro a ⟨⟩
  have h := clockTicks_text c hnone rfl
  rwa [List.append_nil] at h

theorem clockTicks_zone (c : ClockText) (z : ZoneText) :
    clockTicks (c.text ++ z.text) = some (c.micros, some z.micros) := by
  obtain ⟨hz, offset, hm, ho⟩ := zone_text z
  rw [clockTicks_text c hz hm]
  simp only [Option.elim, ho]
  rfl

variable {dataType : TemporalType}

/-- The key of a text without an era is not changed by looking for one. -/
theorem temporalKey_plain {l : List Char} (h : Framed l) {ticks : Int}
    (hk : eraKey l false dataType = some ticks) :
    temporalKey (String.ofList l) dataType = .ok (toLex (1, ticks)) := by
  have hkey := temporalKey_finite h hk
  rwa [show l ++ eraOf false = l from List.append_nil l] at hkey

theorem temporalKey_infinity (sign : Option Bool) {word : List Char}
    (h : word.map Char.toLower = "infinity".toList) :
    temporalKey (String.ofList ((sign.map ZoneText.sign).toList ++ word)) dataType =
      .ok (toLex (if sign = some true then 0 else 2, 0)) := by
  unfold temporalKey
  simp only [String.toList_ofList, List.map_append, h]
  rcases sign with _ | _ | _ <;> rfl

/-- The key of a text is that of its instant. -/
theorem temporalKey_text (v : TemporalText dataType) {days : Gregorian.DayCount} {c : Int}
    (hc : ∀ d, civil.count d = days.count d + c) :
    temporalKey v.text dataType = .ok (keyOf (shiftOf c dataType) (v.instant days)) := by
  cases v with
  | date d =>
    refine temporalKey_finite d.shape.toFramed ?_
    rw [eraKey, civilDay_text, hc]
    rfl
  | time k =>
    refine temporalKey_plain k.shape.toFramed ?_
    simp only [eraKey, clockTicks_plain]
    exact congrArg some ((sub_zero _).trans (add_zero _).symm)
  | timetz k z =>
    refine temporalKey_plain (z.shape k.shape).toFramed ?_
    simp only [eraKey, clockTicks_zone]
    exact congrArg some (add_zero _).symm
  | timestamp d t k =>
    have hframed := d.shape.toFramed.append k.shape.toFramed (TemporalText.separator t)
    have hkey : eraKey (d.text ++ TemporalText.separator t :: k.text) d.bc .timestamp =
        some (days.count d.date * 86400000000 + k.micros + c * 86400000000) := by
      simp only [eraKey, splitOnP_text d.shape k.shape, clockTicks_plain, civilDay_text, hc]
      exact congrArg some (by simp only [Option.getD_none]; omega)
    have hfinite := temporalKey_finite hframed hkey
    rwa [List.append_assoc, List.cons_append] at hfinite
  | timestamptz d t k z =>
    have hzone := z.shape k.shape
    have hframed := d.shape.toFramed.append hzone.toFramed (TemporalText.separator t)
    have hkey : eraKey (d.text ++ TemporalText.separator t :: (k.text ++ z.text)) d.bc
        .timestamptz =
        some (days.count d.date * 86400000000 + k.micros - z.micros + c * 86400000000) := by
      simp only [eraKey, splitOnP_text d.shape hzone, clockTicks_zone, civilDay_text, hc]
      exact congrArg some (by simp only [Option.getD_some]; omega)
    have hfinite := temporalKey_finite hframed hkey
    rwa [List.append_assoc, List.cons_append] at hfinite
  | infinity sign word h =>
    refine (temporalKey_infinity sign h).trans ?_
    rcases sign with _ | _ | _ <;> rfl

/-- The days of the code are in the order of the calendar and follow one another, and the keys of a
type are in the order of the instants, from whatever day they are counted. -/
theorem temporal_keys_ordered :
    (∀ d e : DateText, ∃ m n, civilDay d.text d.bc = some m ∧ civilDay e.text e.bc = some n ∧
      (m < n ↔ d.date < e.date) ∧ (m = n ↔ d.date = e.date) ∧ (e.date = d.date.next → n = m + 1)) ∧
    ∀ (days : Gregorian.DayCount) (dataType : TemporalType) (v w : TemporalText dataType),
      ∃ k l, temporalKey v.text dataType = .ok k ∧ temporalKey w.text dataType = .ok l ∧
        (k < l ↔ v.instant days < w.instant days) ∧ (k = l ↔ v.instant days = w.instant days) := by
  constructor
  · intro d e
    refine ⟨_, _, civilDay_text d, civilDay_text e, civil.count_lt_iff,
      ⟨civil.count_injective, congrArg _⟩, ?_⟩
    intro h
    rw [h, civil.count_next]
  · intro days dataType v w
    obtain ⟨c, hc⟩ := civil.sub_const days
    have hmono := keyOf_strictMono (shiftOf c dataType)
    exact ⟨_, _, temporalKey_text v hc, temporalKey_text w hc, hmono.lt_iff_lt,
      hmono.injective.eq_iff⟩

end Sorting
