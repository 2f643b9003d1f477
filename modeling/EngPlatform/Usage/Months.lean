import EngPlatform.Lib.Gregorian
import EngPlatform.Lib.Pieces
import EngPlatform.Usage.Ledger
import Mathlib.Algebra.Order.Field.Rat
import Mathlib.Data.Rat.Cast.Order
import Mathlib.Algebra.BigOperators.Group.Finset.Piecewise
import Mathlib.Order.Interval.Finset.Basic
import Mathlib.Data.Int.Interval
import Mathlib.Tactic.Ring
import Mathlib.Tactic.Linarith

/-!
# Build minutes by month

The minutes of a build are allocated to the calendar months that it ran in, in UTC, and the ledger's
rows are summed up month by month. Times are exact.
-/

set_option linter.dupNamespace false

namespace Usage

open Gregorian

/-! ## Datetimes -/

/-- A datetime in UTC, with the seconds of its day. -/
structure DateTime where
  date : Date
  time : ℚ
  year_mem : 1 ≤ date.year ∧ date.year ≤ 9999
  time_mem : 0 ≤ time ∧ time < 86400

/-- The seconds that datetimes are compared and subtracted by. -/
def DateTime.instant (d : DateTime) : ℚ := ordinal.count d.date * 86400 + d.time

def digit (n : ℕ) : Char := Char.ofNat (48 + n % 10)

def digitOf (c : Char) : Option ℕ := if c.isDigit then some (c.toNat - 48) else none

/-- `strftime("%Y-%m")` of a year and a month. -/
def monthText (year month : ℕ) : String :=
  String.ofList [digit (year / 1000), digit (year / 100), digit (year / 10), digit year, '-', digit (month / 10),
    digit month]

def DateTime.strftime (d : DateTime) : String := monthText d.date.year.toNat d.date.month

/-- The first instant of a month; none for what is no month of a datetime. -/
def firstInstant (year month : ℕ) : Option DateTime :=
  if h : (1 ≤ year ∧ year ≤ 9999) ∧ 1 ≤ month ∧ month ≤ 12 then
    some ⟨Date.first year month h.2, 0, by
      change 1 ≤ (year : Int) ∧ (year : Int) ≤ 9999
      omega, by norm_num⟩
  else none

/-- `strptime(text, "%Y-%m")`. -/
def strptime (text : String) : Option DateTime :=
  match text.toList with
  | [a, b, c, d, '-', e, f] => do
    let year := 1000 * (← digitOf a) + 100 * (← digitOf b) + 10 * (← digitOf c) + (← digitOf d)
    firstInstant year (10 * (← digitOf e) + (← digitOf f))
  | [a, b, c, d, '-', f] => do
    let year := 1000 * (← digitOf a) + 100 * (← digitOf b) + 10 * (← digitOf c) + (← digitOf d)
    firstInstant year (← digitOf f)
  | _ => none

inductive Raised
  | valueError (text : String)
  | overflowError
  deriving DecidableEq

/-- `start.replace(day=28)`. -/
def Date.replace28 (d : Date) : Date :=
  { d with day := 28, day_mem := ⟨by omega, (Date.monthLength_mem d.year d.month).1⟩ }

/-- The datetime moved to a date, and then to the first day of its month. -/
def DateTime.firstDay (d : DateTime) (date : Date) (h : 1 ≤ date.year ∧ date.year ≤ 9999) : DateTime :=
  ⟨Date.first date.year date.month date.month_mem, d.time, h, d.time_mem⟩

/-- `month_bounds`. No datetime is after the year 9999. -/
def monthBounds (month : String) : Except Raised (DateTime × DateTime) :=
  match strptime month with
  | none => .error (.valueError "time data does not match format")
  | some start =>
    let later := (Date.replace28 start.date).plus 4
    if h : 1 ≤ later.year ∧ later.year ≤ 9999 then
      .ok (start, start.firstDay later h)
    else .error .overflowError

/-! ## Months in a row -/

def DateTime.index (d : DateTime) : Int := 12 * d.date.year + d.date.month - 1

theorem month_of (n : Int) : 1 ≤ (n % 12).toNat + 1 ∧ (n % 12).toNat + 1 ≤ 12 := by omega

def firstOf (n : Int) : Date := Date.first (n / 12) ((n % 12).toNat + 1) (month_of n)

/-- The first instant of a month. -/
def mark (n : Int) : ℚ := (ordinal.count (firstOf n) : ℚ) * 86400

def label (n : Int) : String := monthText (n / 12).toNat ((n % 12).toNat + 1)

/-- The months that datetimes have. -/
def Valid (n : Int) : Prop := 12 ≤ n ∧ n < 120000

instance (n : Int) : Decidable (Valid n) := inferInstanceAs (Decidable (_ ∧ _))

theorem firstOf_next (n : Int) :
    firstOf (n + 1) = Date.nextFirst (n / 12) ((n % 12).toNat + 1) (month_of n) := by
  unfold Date.nextFirst firstOf
  split_ifs with h
  · ext
    · exact (show (n + 1) / 12 = n / 12 by omega)
    · exact (show ((n + 1) % 12).toNat + 1 = (n % 12).toNat + 1 + 1 by omega)
    · rfl
  · ext
    · exact (show (n + 1) / 12 = n / 12 + 1 by omega)
    · exact (show ((n + 1) % 12).toNat + 1 = 1 by omega)
    · rfl

theorem count_nextFirst (y : Int) {m : ℕ} (hm : 1 ≤ m ∧ m ≤ 12) :
    ordinal.count (Date.nextFirst y m hm) = ordinal.count (Date.first y m hm) + monthLength y m := by
  unfold Date.nextFirst
  split_ifs with h
  · exact ordinal.count_nextMonth hm _
  · obtain rfl : m = 12 := by omega
    exact ordinal.count_nextYear y

theorem mark_succ (n : Int) :
    mark (n + 1) = mark n + (monthLength (n / 12) ((n % 12).toNat + 1) : ℚ) * 86400 := by
  unfold mark
  rw [firstOf_next, count_nextFirst]
  push_cast
  exact add_mul _ _ _

theorem mark_strictMono : StrictMono mark := by
  refine strictMono_int_of_lt_succ fun n => ?_
  rw [mark_succ]
  have hlen : (1 : ℚ) ≤ (monthLength (n / 12) ((n % 12).toNat + 1) : ℚ) := by
    exact_mod_cast monthLength_pos _ _
  linarith

/-! ## Texts of months -/

theorem digitOf_digit (n : ℕ) : digitOf (digit n) = some (n % 10) := by
  have hall : ∀ k < 10, digitOf (Char.ofNat (48 + k)) = some k := by decide
  exact hall (n % 10) (Nat.mod_lt n (by omega))

theorem strptime_monthText {year month : ℕ} (hyear : year ≤ 9999) (hmonth : month ≤ 12) :
    strptime (monthText year month) = firstInstant year month := by
  unfold strptime monthText
  rw [String.toList_ofList]
  simp only [digitOf_digit, Option.bind_eq_bind, Option.bind_some]
  have hy : 1000 * (year / 1000 % 10) + 100 * (year / 100 % 10) + 10 * (year / 10 % 10) + year % 10 = year := by
    omega
  have hm : 10 * (month / 10 % 10) + month % 10 = month := by omega
  rw [hy, hm]

variable {n : Int}

theorem valid_month (h : Valid n) :
    (1 ≤ (n / 12).toNat ∧ (n / 12).toNat ≤ 9999) ∧ 1 ≤ (n % 12).toNat + 1 ∧ (n % 12).toNat + 1 ≤ 12 := by
  unfold Valid at h
  omega

/-- The first instant of a month that datetimes have. -/
def firstDateTime (n : Int) (h : Valid n) : DateTime :=
  ⟨firstOf n, 0, by
    change 1 ≤ n / 12 ∧ n / 12 ≤ 9999
    unfold Valid at h
    omega, by norm_num⟩

theorem firstDateTime_instant (h : Valid n) : (firstDateTime n h).instant = mark n := by
  unfold DateTime.instant mark firstDateTime
  simp

theorem firstInstant_eq (h : Valid n) :
    firstInstant (n / 12).toNat ((n % 12).toNat + 1) = some (firstDateTime n h) := by
  unfold firstInstant
  rw [dif_pos (valid_month h)]
  have hyear : ((n / 12).toNat : Int) = n / 12 := by
    unfold Valid at h
    omega
  have hdate : Date.first ((n / 12).toNat : Int) ((n % 12).toNat + 1) (month_of n) = firstOf n := by
    unfold firstOf
    congr 1
  unfold firstDateTime
  congr 2

theorem strptime_label (h : Valid n) : strptime (label n) = some (firstDateTime n h) := by
  obtain ⟨hyear, hmonth⟩ := valid_month h
  unfold label
  rw [strptime_monthText hyear.2 hmonth.2, firstInstant_eq h]

theorem label_injective {n' : Int} (h : Valid n) (h' : Valid n') (heq : label n = label n') : n = n' := by
  have hsame := strptime_label h
  rw [heq, strptime_label h'] at hsame
  have hmark : mark n' = mark n := by
    rw [← firstDateTime_instant h, ← firstDateTime_instant h', Option.some.inj hsame]
  exact (mark_strictMono.injective hmark).symm

theorem DateTime.index_valid (d : DateTime) : Valid d.index := by
  have hyear := d.year_mem
  have hmonth := d.date.month_mem
  unfold Valid DateTime.index
  omega

theorem DateTime.index_parts (d : DateTime) : d.index / 12 = d.date.year ∧ (d.index % 12).toNat + 1 = d.date.month := by
  have hmonth := d.date.month_mem
  unfold DateTime.index
  omega

theorem DateTime.strftime_eq (d : DateTime) : d.strftime = label d.index := by
  unfold DateTime.strftime label
  rw [d.index_parts.1, d.index_parts.2]

/-- A datetime is in its month. -/
theorem DateTime.mark_le (d : DateTime) : mark d.index ≤ d.instant ∧ d.instant < mark (d.index + 1) := by
  obtain ⟨⟨y, m, a, hm, ha⟩, time, hyear, htime⟩ := d
  have hcount := ordinal.count_eq_first hm a ha
  obtain ⟨hy, hmonth⟩ := DateTime.index_parts ⟨⟨y, m, a, hm, ha⟩, time, hyear, htime⟩
  have hfirst : firstOf (DateTime.index ⟨⟨y, m, a, hm, ha⟩, time, hyear, htime⟩) = Date.first y m hm := by
    unfold firstOf
    congr 1
  have hlen : monthLength (DateTime.index ⟨⟨y, m, a, hm, ha⟩, time, hyear, htime⟩ / 12)
      ((DateTime.index ⟨⟨y, m, a, hm, ha⟩, time, hyear, htime⟩ % 12).toNat + 1) = monthLength y m := by
    rw [hy, hmonth]
  rw [mark_succ, hlen]
  unfold mark DateTime.instant
  rw [hfirst, hcount]
  obtain ⟨hge, hle⟩ := ha
  have hge : (1 : ℚ) ≤ (a : ℚ) := by exact_mod_cast hge
  have hle : (a : ℚ) ≤ (monthLength y m : ℚ) := by exact_mod_cast hle
  push_cast
  constructor <;> linarith [htime.1, htime.2]

theorem later_eq (n : Int) : ((Date.replace28 (firstOf n)).plus 4).year = (n + 1) / 12 ∧
    ((Date.replace28 (firstOf n)).plus 4).month = ((n + 1) % 12).toNat + 1 := by
  have hfour := Date.plus_four (month_of n) (y := n / 12) ⟨by omega, (Date.monthLength_mem _ _).1⟩
  rw [← firstOf_next] at hfour
  exact hfour

theorem firstDay_eq (d : DateTime) (date : Date) (hdate : 1 ≤ date.year ∧ date.year ≤ 9999) (h : Valid n)
    (htime : d.time = 0) (hyear : date.year = n / 12) (hmonth : date.month = (n % 12).toNat + 1) :
    d.firstDay date hdate = firstDateTime n h := by
  have hfirst : Date.first date.year date.month date.month_mem = firstOf n := by
    unfold firstOf
    congr 1
  unfold DateTime.firstDay firstDateTime
  congr 1

theorem monthBounds_label (h : Valid n) (h' : Valid (n + 1)) :
    monthBounds (label n) = .ok (firstDateTime n h, firstDateTime (n + 1) h') := by
  obtain ⟨hyear, hmonth⟩ := later_eq n
  have hmem : 1 ≤ ((Date.replace28 (firstDateTime n h).date).plus 4).year ∧
      ((Date.replace28 (firstDateTime n h).date).plus 4).year ≤ 9999 := by
    change 1 ≤ ((Date.replace28 (firstOf n)).plus 4).year ∧ ((Date.replace28 (firstOf n)).plus 4).year ≤ 9999
    unfold Valid at h'
    omega
  unfold monthBounds
  rw [strptime_label h]
  dsimp only
  rw [dif_pos hmem]
  exact congrArg (fun next => Except.ok (firstDateTime n h, next)) (firstDay_eq _ _ hmem h' rfl hyear hmonth)

/-- After December 9999 there is no month. -/
theorem monthBounds_last (h : Valid n) (h' : ¬Valid (n + 1)) : monthBounds (label n) = .error .overflowError := by
  have hyear := (later_eq n).1
  have hnot : ¬(1 ≤ ((Date.replace28 (firstDateTime n h).date).plus 4).year ∧
      ((Date.replace28 (firstDateTime n h).date).plus 4).year ≤ 9999) := by
    change ¬(1 ≤ ((Date.replace28 (firstOf n)).plus 4).year ∧ ((Date.replace28 (firstOf n)).plus 4).year ≤ 9999)
    unfold Valid at h h'
    omega
  unfold monthBounds
  rw [strptime_label h]
  dsimp only
  rw [dif_neg hnot]

/-! ## Allocation -/

/-- `allocations[month] = minutes`. -/
def assign (allocations : List (String × ℚ)) (month : String) (minutes : ℚ) : List (String × ℚ) :=
  if allocations.any fun row => row.1 = month then
    allocations.map fun row => if row.1 = month then (month, minutes) else row
  else allocations ++ [(month, minutes)]

theorem monthBounds_cursor (cursor : DateTime) {bounds : DateTime × DateTime}
    (h : monthBounds cursor.strftime = .ok bounds) :
    Valid (cursor.index + 1) ∧ bounds.2.index = cursor.index + 1 ∧ bounds.2.instant = mark (cursor.index + 1) := by
  by_cases hvalid : Valid (cursor.index + 1)
  · rw [cursor.strftime_eq, monthBounds_label cursor.index_valid hvalid] at h
    obtain rfl := Except.ok.inj h
    refine ⟨hvalid, ?_, firstDateTime_instant hvalid⟩
    unfold DateTime.index firstDateTime firstOf Date.first
    dsimp only
    omega
  · rw [cursor.strftime_eq, monthBounds_last cursor.index_valid hvalid] at h
    cases h

/-- `min(a, b)`. -/
def DateTime.min (a b : DateTime) : DateTime := if b.instant < a.instant then b else a

theorem DateTime.min_instant (a b : DateTime) : (a.min b).instant = Min.min a.instant b.instant := by
  unfold DateTime.min
  split_ifs with h
  · exact (min_eq_right h.le).symm
  · exact (min_eq_left (not_lt.mp h)).symm

/-- The loop that splits a build at the ends of the months. -/
def allocate (cursor finish : DateTime) (allocations : List (String × ℚ)) :
    Except Raised (List (String × ℚ)) :=
  if _hlt : cursor.instant < finish.instant then
    match _hbounds : monthBounds cursor.strftime with
    | .error x => .error x
    | .ok bounds =>
      allocate (finish.min bounds.2) finish
        (assign allocations cursor.strftime (((finish.min bounds.2).instant - cursor.instant) / 60))
  else .ok allocations
termination_by if cursor.instant < finish.instant then (120001 - cursor.index).toNat else 0
decreasing_by
  obtain ⟨hvalid, hindex, -⟩ := monthBounds_cursor cursor _hbounds
  rw [if_pos _hlt]
  unfold Valid at hvalid
  unfold DateTime.min
  by_cases hnext : bounds.2.instant < finish.instant
  · rw [if_pos hnext, if_pos hnext, hindex]
    omega
  · rw [if_neg hnext, if_neg (lt_irrefl _)]
    omega

theorem allocate_self (finish : DateTime) (allocations : List (String × ℚ)) :
    allocate finish finish allocations = .ok allocations := by
  rw [allocate, dif_neg (lt_irrefl _)]

theorem allocate_step {cursor finish : DateTime} (hlt : cursor.instant < finish.instant)
    (h : Valid (cursor.index + 1)) (allocations : List (String × ℚ)) :
    allocate cursor finish allocations =
      allocate (finish.min (firstDateTime (cursor.index + 1) h)) finish
        (assign allocations (label cursor.index)
          ((min finish.instant (mark (cursor.index + 1)) - cursor.instant) / 60)) := by
  have hbounds : monthBounds cursor.strftime =
      .ok (firstDateTime cursor.index cursor.index_valid, firstDateTime (cursor.index + 1) h) := by
    rw [cursor.strftime_eq]
    exact monthBounds_label cursor.index_valid h
  rw [allocate, dif_pos hlt]
  split
  next x herror =>
    rw [hbounds] at herror
    cases herror
  next bounds hok =>
    rw [hbounds] at hok
    obtain rfl := Except.ok.inj hok
    rw [cursor.strftime_eq, DateTime.min_instant, firstDateTime_instant]

theorem assign_new {allocations : List (String × ℚ)} {month : String}
    (h : ∀ row ∈ allocations, row.1 ≠ month) (minutes : ℚ) :
    assign allocations month minutes = allocations ++ [(month, minutes)] := by
  refine if_neg fun hany => ?_
  obtain ⟨row, hrow, heq⟩ := List.any_eq_true.mp hany
  exact h row hrow (of_decide_eq_true heq)

/-- The minutes of a piece, under the text of its month. -/
def piece (p : ℤ × ℚ) : String × ℚ := (label p.1, p.2 / 60)

/-- The loop allocates the pieces of what is left. -/
theorem allocate_pieces (finish : DateTime) : ∀ (k : ℕ) (cursor : DateTime) (allocations : List (String × ℚ)),
    (120000 - cursor.index).toNat ≤ k → cursor.instant ≤ finish.instant →
    (cursor.instant = finish.instant ∨ finish.instant ≤ mark 119999) →
    (∀ row ∈ allocations, ∃ m, Valid m ∧ m < cursor.index ∧ row.1 = label m) →
    ∃ l, Pieces.Cut mark l cursor.instant finish.instant ∧ (∀ p ∈ l, Valid p.1) ∧
      allocate cursor finish allocations = .ok (allocations ++ l.map piece) := by
  intro k
  induction k with
  | zero =>
    intro cursor allocations hk
    have := cursor.index_valid
    unfold Valid at this
    omega
  | succ k ih =>
    intro cursor allocations hk hle hend hbefore
    rcases hle.eq_or_lt with heq | hlt
    · refine ⟨[], heq ▸ .nil _, by simp, ?_⟩
      rw [allocate, dif_neg (by rw [heq]; exact lt_irrefl _)]
      simp
    · have hend := hend.resolve_left hlt.ne
      have hvalid := cursor.index_valid
      obtain ⟨hmark, hmark'⟩ := cursor.mark_le
      have hindex : cursor.index < 119999 := mark_strictMono.lt_iff_lt.mp (hmark.trans_lt (hlt.trans_le hend))
      have hnext : Valid (cursor.index + 1) := by
        unfold Valid at hvalid ⊢
        omega
      have hnew : ∀ row ∈ allocations, row.1 ≠ label cursor.index := by
        rintro row hrow hsame
        obtain ⟨m, hm, hless, hlabel⟩ := hbefore row hrow
        have := label_injective hm hvalid (hlabel.symm.trans hsame)
        omega
      rw [allocate_step hlt hnext, assign_new hnew]
      have hstop : cursor.instant < min finish.instant (mark (cursor.index + 1)) := lt_min hlt hmark'
      by_cases hlast : finish.instant ≤ mark (cursor.index + 1)
      · have hmin : finish.min (firstDateTime (cursor.index + 1) hnext) = finish := by
          unfold DateTime.min
          rw [firstDateTime_instant, if_neg (not_lt.mpr hlast)]
        have hfinish : min finish.instant (mark (cursor.index + 1)) = finish.instant := min_eq_left hlast
        refine ⟨[(cursor.index, min finish.instant (mark (cursor.index + 1)) - cursor.instant)], ?_, ?_, ?_⟩
        · refine .cons hmark hstop ?_
          rw [hfinish]
          exact .nil _
        · rintro p hp
          rw [List.mem_singleton.mp hp]
          exact hvalid
        · rw [hmin, allocate_self]
          rfl
      · have hmin : finish.min (firstDateTime (cursor.index + 1) hnext) =
            firstDateTime (cursor.index + 1) hnext := by
          unfold DateTime.min
          rw [firstDateTime_instant, if_pos (not_le.mp hlast)]
        have hfinish : min finish.instant (mark (cursor.index + 1)) = mark (cursor.index + 1) :=
          min_eq_right (not_le.mp hlast).le
        have hindex' : (firstDateTime (cursor.index + 1) hnext).index = cursor.index + 1 := by
          unfold DateTime.index firstDateTime firstOf Date.first
          dsimp only
          omega
        rw [hmin]
        obtain ⟨l, hcut, hmonths, hrest⟩ := ih (firstDateTime (cursor.index + 1) hnext)
          (allocations ++ [(label cursor.index,
            (min finish.instant (mark (cursor.index + 1)) - cursor.instant) / 60)])
          (by omega) (by rw [firstDateTime_instant]; exact (not_le.mp hlast).le) (.inr hend) (by
            intro row hrow
            rw [hindex']
            rcases List.mem_append.mp hrow with hrow | hrow
            · obtain ⟨m, hm, hless, hlabel⟩ := hbefore row hrow
              exact ⟨m, hm, by omega, hlabel⟩
            · rw [List.mem_singleton.mp hrow]
              exact ⟨cursor.index, hvalid, by omega, rfl⟩)
        rw [firstDateTime_instant] at hcut
        refine ⟨(cursor.index, min finish.instant (mark (cursor.index + 1)) - cursor.instant) :: l, ?_, ?_, ?_⟩
        · refine .cons hmark hstop ?_
          rw [hfinish]
          exact hcut
        · rintro p hp
          rcases List.mem_cons.mp hp with rfl | hp
          · exact hvalid
          · exact hmonths p hp
        · rw [hrest]
          simp [piece]

/-- A build that runs into December 9999 raises. -/
theorem allocate_late (finish : DateTime) (hlate : mark 119999 < finish.instant) : ∀ (k : ℕ) (cursor : DateTime)
    (allocations : List (String × ℚ)), (120000 - cursor.index).toNat ≤ k → cursor.instant < finish.instant →
    allocate cursor finish allocations = .error .overflowError := by
  intro k
  induction k with
  | zero =>
    intro cursor allocations hk
    have := cursor.index_valid
    unfold Valid at this
    omega
  | succ k ih =>
    intro cursor allocations hk hlt
    by_cases hnext : Valid (cursor.index + 1)
    · have hle : mark (cursor.index + 1) ≤ mark 119999 := by
        refine mark_strictMono.monotone ?_
        unfold Valid at hnext
        omega
      have hmin : finish.min (firstDateTime (cursor.index + 1) hnext) = firstDateTime (cursor.index + 1) hnext := by
        unfold DateTime.min
        rw [firstDateTime_instant, if_pos (hle.trans_lt hlate)]
      have hindex : (firstDateTime (cursor.index + 1) hnext).index = cursor.index + 1 := by
        unfold DateTime.index firstDateTime firstOf Date.first
        dsimp only
        omega
      rw [allocate_step hlt hnext, hmin]
      refine ih _ _ (by omega) ?_
      rw [firstDateTime_instant]
      exact hle.trans_lt hlate
    · have hbounds : monthBounds cursor.strftime = .error .overflowError := by
        rw [cursor.strftime_eq]
        exact monthBounds_last cursor.index_valid hnext
      rw [allocate, dif_pos hlt]
      split
      next x herror =>
        rw [hbounds] at herror
        exact congrArg Except.error (Except.error.inj herror).symm
      next bounds hok =>
        rw [hbounds] at hok
        cases hok

/-- The minutes of the months that a build has run in. -/
structure Allocated (start finish : DateTime) (allocations : List (String × ℚ)) : Prop where
  nodup : (allocations.map (·.1)).Nodup
  keys : ∀ month, month ∈ allocations.map (·.1) ↔ ∃ n, month = label n ∧
    ∃ t, (start.instant ≤ t ∧ t < finish.instant) ∧ mark n ≤ t ∧ t < mark (n + 1)
  minutes : ∀ row ∈ allocations, 0 < row.2 ∧ ∃ n, Valid n ∧ row.1 = label n ∧
    row.2 = Pieces.overlap mark start.instant finish.instant n / 60
  sum : (allocations.map (·.2)).sum = (finish.instant - start.instant) / 60

theorem sum_div (l : List ℚ) (d : ℚ) : (l.map (· / d)).sum = l.sum / d := by
  induction l with
  | nil => simp
  | cons a l ih => rw [List.map_cons, List.sum_cons, ih, List.sum_cons, add_div]

theorem allocated (start finish : DateTime) (hle : start.instant ≤ finish.instant)
    (hend : start.instant = finish.instant ∨ finish.instant ≤ mark 119999) :
    ∃ allocations, allocate start finish [] = .ok allocations ∧ Allocated start finish allocations := by
  obtain ⟨l, hcut, hvalid, hallocate⟩ := allocate_pieces finish _ start [] le_rfl hle hend (by simp)
  refine ⟨l.map piece, hallocate, ?_, fun month => ?_, fun row hrow => ?_, ?_⟩
  · rw [List.map_map]
    have hnodup : (l.map (·.1)).Nodup := (hcut.pairwise mark_strictMono).imp fun h => h.ne
    rw [List.nodup_map_iff_inj_on (List.Nodup.of_map _ hnodup)]
    intro p hp q hq hlabel
    exact List.inj_on_of_nodup_map hnodup hp hq (label_injective (hvalid p hp) (hvalid q hq) hlabel)
  · rw [List.map_map]
    constructor
    · intro hmonth
      obtain ⟨p, hp, rfl⟩ := List.mem_map.mp hmonth
      exact ⟨p.1, rfl, Pieces.overlap_pos_iff.mp ((hcut.mem_iff mark_strictMono).mp hp).1⟩
    · rintro ⟨n, rfl, hmeets⟩
      have hmem := (hcut.mem_iff mark_strictMono).mpr ⟨Pieces.overlap_pos_iff.mpr hmeets, rfl⟩
      exact List.mem_map.mpr ⟨_, hmem, rfl⟩
  · obtain ⟨p, hp, rfl⟩ := List.mem_map.mp hrow
    obtain ⟨hpos, hd⟩ := (hcut.mem_iff mark_strictMono).mp hp
    exact ⟨div_pos (hd ▸ hpos) (by norm_num), p.1, hvalid p hp, rfl, congrArg (· / 60) hd⟩
  · rw [← hcut.sum, ← sum_div, List.map_map, List.map_map]
    rfl

/-! ## The rows of the ledger -/

structure Timing where
  complete : Bool
  durationSeconds : ℚ
  monthlyMinutes : List (String × ℚ)

/-- The part of `normalize` that is about the times of a build. A build without minutes stays visible
in the month of its creation. -/
def timing (status : String) (startTime finishTime : Option DateTime) (createTime : DateTime) :
    Except Raised Timing := do
  let ended := terminal.contains status
  let complete := ended && (finishTime.isSome || startTime.isNone)
  let (seconds, allocations) ← match startTime, finishTime with
    | some start, some finish =>
      if finish.instant < start.instant then .error (.valueError "Build finish precedes start")
      else do
        let allocations ← allocate start finish []
        pure (finish.instant - start.instant, allocations)
    | _, _ => pure (0, [])
  pure ⟨complete, seconds, if allocations.isEmpty then [(createTime.strftime, 0)] else allocations⟩

/-- What a summary reads of a row. -/
structure MonthlyRow extends Timing where
  category : Category
  policyViolation : Bool
  minutePrice : Option ℚ

structure Sums where
  minutes : Category → ℚ
  estimates : Category → ℚ
  buildCount : ℕ
  pendingBuildCount : ℕ
  policyViolationCount : ℕ
  unpricedBuildCount : ℕ

def Sums.zero : Sums := ⟨fun _ => 0, fun _ => 0, 0, 0, 0, 0⟩

/-- The loop of `aggregate`. -/
def Sums.add (month : String) (sums : Sums) (row : MonthlyRow) : Sums :=
  match row.monthlyMinutes.lookup month with
  | none => sums
  | some value =>
    let sums := { sums with
      buildCount := sums.buildCount + 1
      policyViolationCount := sums.policyViolationCount + if row.policyViolation then 1 else 0 }
    if row.complete then
      let sums := { sums with
        minutes := fun c => if c = row.category then sums.minutes c + value else sums.minutes c }
      match row.minutePrice with
      | none => { sums with unpricedBuildCount := sums.unpricedBuildCount + 1 }
      | some rate => { sums with
        estimates := fun c => if c = row.category then sums.estimates c + value * rate else sums.estimates c }
    else { sums with pendingBuildCount := sums.pendingBuildCount + 1 }

def Sums.of (month : String) (rows : List MonthlyRow) : Sums := rows.foldl (Sums.add month) .zero

def total (f : Category → ℚ) : ℚ := f .deployment + f .releaseQuality + f .other

structure Summary where
  month : String
  releaseMinutes : ℚ
  deploymentMinutes : ℚ
  totalMinutes : ℚ
  otherMinutes : ℚ
  projectMinutes : ℚ
  estimatedCost : ℚ
  projectEstimatedCost : ℚ
  alertThresholdsReached : List ℚ
  sums : Sums

/-- `aggregate`; the rounding of its numbers is a parameter. -/
def aggregate (round : ℚ → ℕ → ℚ) (thresholds : List ℚ) (month : String) (rows : List MonthlyRow) : Summary :=
  let sums := Sums.of month rows
  { month
    releaseMinutes := round (sums.minutes .releaseQuality) 3
    deploymentMinutes := round (sums.minutes .deployment) 3
    totalMinutes := round (sums.minutes .deployment + sums.minutes .releaseQuality) 3
    otherMinutes := round (sums.minutes .other) 3
    projectMinutes := round (total sums.minutes) 3
    estimatedCost := round (sums.estimates .deployment + sums.estimates .releaseQuality) 6
    projectEstimatedCost := round (total sums.estimates) 6
    alertThresholdsReached := thresholds.filter (· ≤ total sums.minutes)
    sums }

def MonthlyRow.minutesIn (row : MonthlyRow) (month : String) : ℚ :=
  if row.complete then (row.monthlyMinutes.lookup month).getD 0 else 0

theorem total_update (f : Category → ℚ) (category : Category) (value : ℚ) :
    total (fun c => if c = category then f c + value else f c) = total f + value := by
  unfold total
  cases category <;> simp <;> ring

theorem add_minutes (month : String) (sums : Sums) (row : MonthlyRow) :
    total (sums.add month row).minutes = total sums.minutes + row.minutesIn month := by
  unfold Sums.add MonthlyRow.minutesIn
  cases hlookup : row.monthlyMinutes.lookup month with
  | none => simp
  | some value =>
    dsimp only
    cases hcomplete : row.complete with
    | false => simp
    | true =>
      simp only [if_true, Option.getD_some]
      rw [← total_update]
      cases row.minutePrice <;> rfl

/-- The project's minutes of a month are those of its complete rows. -/
theorem projectMinutes_eq (month : String) (rows : List MonthlyRow) :
    total (Sums.of month rows).minutes = (rows.map fun row => row.minutesIn month).sum := by
  have hfold : ∀ (rows : List MonthlyRow) (sums : Sums), total (rows.foldl (Sums.add month) sums).minutes =
      total sums.minutes + (rows.map fun row => row.minutesIn month).sum := by
    intro rows
    induction rows with
    | nil => simp
    | cons row rows ih =>
      intro sums
      rw [List.foldl_cons, ih, add_minutes, List.map_cons, List.sum_cons, add_assoc]
  unfold Sums.of
  rw [hfold]
  simp [Sums.zero, total]

/-- All months that datetimes have. -/
def months : Finset ℤ := (Finset.range 119988).image fun k : ℕ => (k : ℤ) + 12

theorem mem_months {n : ℤ} : n ∈ months ↔ Valid n := by
  unfold months Valid
  rw [Finset.mem_image]
  constructor
  · rintro ⟨k, hk, rfl⟩
    have hlt := Finset.mem_range.mp hk
    omega
  · intro h
    refine ⟨(n - 12).toNat, Finset.mem_range.mpr ?_, ?_⟩
    · omega
    · omega

/-- Over all months, everything under the key of a month is found once. -/
theorem sum_lookup {s : Finset ℤ} (hs : ∀ {n}, n ∈ s ↔ Valid n) : ∀ (l : List (String × ℚ)), (l.map (·.1)).Nodup →
    (∀ row ∈ l, ∃ n, Valid n ∧ row.1 = label n) →
    ∑ n ∈ s, (l.lookup (label n)).getD 0 = (l.map (·.2)).sum
  | [], _, _ => by simp
  | (month, minutes) :: l, hnodup, hkeys => by
    obtain ⟨hnew, hnodup⟩ := List.nodup_cons.mp hnodup
    obtain ⟨n, hn, hmonth⟩ := hkeys _ (List.mem_cons_self ..)
    dsimp only at hmonth
    have hrest := sum_lookup hs l hnodup fun row hrow => hkeys row (List.mem_cons_of_mem _ hrow)
    have hnone : l.lookup month = none := by
      rw [List.lookup_eq_none_iff]
      intro row hrow
      have hne : month ≠ row.1 := fun heq => hnew (List.mem_map.mpr ⟨row, hrow, heq.symm⟩)
      simpa using hne
    have hsplit : ∀ k ∈ s, (((month, minutes) :: l).lookup (label k)).getD 0 =
        (if k = n then minutes else 0) + (l.lookup (label k)).getD 0 := by
      intro k hk
      by_cases hkn : k = n
      · subst hkn
        rw [if_pos rfl, ← hmonth, hnone]
        simp
      · have hne : label k ≠ month := fun heq =>
          hkn (label_injective (hs.mp hk) hn (heq.trans hmonth))
        have hbeq : (label k == month) = false := beq_eq_false_iff_ne.mpr hne
        rw [if_neg hkn, List.lookup_cons, hbeq, zero_add]
    rw [Finset.sum_congr rfl hsplit, Finset.sum_add_distrib, Finset.sum_ite_eq' s n, if_pos (hs.mpr hn),
      hrest, List.map_cons, List.sum_cons]

/-- What the times of a build give. -/
theorem timing_minutes {status : String} {startTime finishTime : Option DateTime} {createTime : DateTime}
    {t : Timing} (h : timing status startTime finishTime createTime = .ok t) :
    (t.monthlyMinutes.map (·.1)).Nodup ∧ (∀ row ∈ t.monthlyMinutes, ∃ n, Valid n ∧ row.1 = label n) ∧
      (t.monthlyMinutes.map (·.2)).sum = t.durationSeconds / 60 := by
  have hnone : ([(createTime.strftime, (0 : ℚ))].map (·.1)).Nodup ∧
      (∀ row ∈ [(createTime.strftime, (0 : ℚ))], ∃ n, Valid n ∧ row.1 = label n) ∧
      ([(createTime.strftime, (0 : ℚ))].map (·.2)).sum = 0 / 60 := by
    refine ⟨List.nodup_singleton _, fun row hrow => ?_, by simp⟩
    rw [List.mem_singleton.mp hrow]
    exact ⟨createTime.index, createTime.index_valid, createTime.strftime_eq⟩
  unfold timing at h
  rcases startTime with - | start
  · obtain rfl := Except.ok.inj h
    exact hnone
  rcases finishTime with - | finish
  · obtain rfl := Except.ok.inj h
    exact hnone
  dsimp only at h
  by_cases hlt : finish.instant < start.instant
  · rw [if_pos hlt] at h
    cases h
  · rw [if_neg hlt] at h
    have hle := not_lt.mp hlt
    by_cases hend : start.instant = finish.instant ∨ finish.instant ≤ mark 119999
    · obtain ⟨allocations, hok, hallocated⟩ := allocated start finish hle hend
      rw [hok] at h
      obtain rfl := Except.ok.inj h
      dsimp only
      cases hempty : allocations.isEmpty with
      | false =>
        refine ⟨hallocated.nodup, fun row hrow => ?_, hallocated.sum⟩
        obtain ⟨-, n, hn, hlabel, -⟩ := hallocated.minutes row hrow
        exact ⟨n, hn, hlabel⟩
      | true =>
        have hsum := hallocated.sum
        rw [List.isEmpty_iff.mp hempty] at hsum
        rw [if_pos rfl]
        refine ⟨hnone.1, hnone.2.1, ?_⟩
        rw [hnone.2.2, ← hsum]
        simp
    · obtain ⟨hne, hlate⟩ := not_or.mp hend
      rw [allocate_late finish (not_le.mp hlate) _ start [] le_rfl (lt_of_le_of_ne hle hne)] at h
      cases h

/-- Over all months, the minutes of the project are those of its complete builds. -/
theorem months_total {s : Finset ℤ} (hs : ∀ {n}, n ∈ s ↔ Valid n) {rows : List MonthlyRow}
    (h : ∀ row ∈ rows, ∃ status startTime finishTime createTime,
      timing status startTime finishTime createTime = .ok row.toTiming) :
    ∑ n ∈ s, total (Sums.of (label n) rows).minutes =
      ((rows.filter (·.complete)).map fun row => row.durationSeconds / 60).sum := by
  have hrow : ∀ row ∈ rows, ∑ n ∈ s, row.minutesIn (label n) =
      if row.complete then row.durationSeconds / 60 else 0 := by
    intro row hrow
    obtain ⟨status, startTime, finishTime, createTime, htiming⟩ := h row hrow
    obtain ⟨hnodup, hkeys, hsum⟩ := timing_minutes htiming
    unfold MonthlyRow.minutesIn
    cases row.complete with
    | false => simp
    | true =>
      simp only [if_true]
      rw [sum_lookup hs row.monthlyMinutes hnodup hkeys, hsum]
  have hsplit : ∑ n ∈ s, total (Sums.of (label n) rows).minutes =
      (rows.map fun row => ∑ n ∈ s, row.minutesIn (label n)).sum := by
    rw [Finset.sum_congr rfl fun n _ => projectMinutes_eq (label n) rows]
    clear h hrow
    induction rows with
    | nil => simp
    | cons row rows ih => simp only [List.map_cons, List.sum_cons, Finset.sum_add_distrib, ih]
  rw [hsplit, List.map_congr_left hrow]
  clear h hrow hsplit
  induction rows with
  | nil => rfl
  | cons row rows ih =>
    rw [List.map_cons, List.sum_cons, ih]
    cases hcomplete : row.complete with
    | false => simp [hcomplete]
    | true => simp [hcomplete]

/-- The minutes of builds, up to December 9999. -/
theorem build_minutes_conserved :
    (∀ start finish : DateTime, start.instant ≤ finish.instant →
      (start.instant = finish.instant ∨ finish.instant ≤ mark 119999) →
      ∃ allocations, allocate start finish [] = .ok allocations ∧ Allocated start finish allocations) ∧
    (∀ n, Valid n → Valid (n + 1) → ∃ first next, monthBounds (label n) = .ok (first, next) ∧
      first.instant = mark n ∧ next.instant = mark (n + 1)) ∧
    (∀ n n' t, mark n ≤ t ∧ t < mark (n + 1) → mark n' ≤ t ∧ t < mark (n' + 1) → n = n') ∧
    ∀ rows : List MonthlyRow, (∀ row ∈ rows, ∃ status startTime finishTime createTime,
        timing status startTime finishTime createTime = .ok row.toTiming) →
      ∑ n ∈ months, total (Sums.of (label n) rows).minutes =
        ((rows.filter (·.complete)).map fun row => row.durationSeconds / 60).sum := by
  refine ⟨allocated, fun n h h' => ?_, fun n n' t h h' => ?_, fun rows h => months_total mem_months h⟩
  · exact ⟨_, _, monthBounds_label h h', firstDateTime_instant h, firstDateTime_instant h'⟩
  · have hle : n < n' + 1 := mark_strictMono.lt_iff_lt.mp (h.1.trans_lt h'.2)
    have hge : n' < n + 1 := mark_strictMono.lt_iff_lt.mp (h'.1.trans_lt h.2)
    omega

section Demo

def demoStart : DateTime := ⟨⟨2023, 12, 31, by decide, by decide⟩, 86340, by decide, by norm_num⟩

def demoFinish : DateTime := ⟨⟨2024, 3, 1, by decide, by decide⟩, 60, by decide, by norm_num⟩

theorem build_minutes_conserved_demo :
    (∃ allocations, allocate demoStart demoFinish [] = .ok allocations ∧
      Allocated demoStart demoFinish allocations) ∧
    (∃ first next, monthBounds "2024-02" = .ok (first, next) ∧ next.instant = mark (12 * 2024 + 2)) ∧
    ∑ n ∈ months, total (Sums.of (label n) [⟨⟨true, 0, [(demoStart.strftime, 0)]⟩, .other, false, none⟩]).minutes = 0 := by
  obtain ⟨hallocated, hbounds, -, htotal⟩ := build_minutes_conserved
  refine ⟨hallocated demoStart demoFinish (by decide +kernel) (.inr (by decide +kernel)), ?_, ?_⟩
  · obtain ⟨first, next, hok, -, hnext⟩ := hbounds (12 * 2024 + 1) (by decide) (by decide)
    exact ⟨first, next, hok, hnext⟩
  · refine (htotal _ fun row hrow => ⟨"SUCCESS", none, some demoStart, demoStart, ?_⟩).trans (by simp)
    rw [List.mem_singleton.mp hrow]
    rfl

def lateStart : DateTime := ⟨⟨9999, 12, 1, by decide, by decide⟩, 0, by decide, by norm_num⟩

def lateFinish : DateTime := ⟨⟨9999, 12, 2, by decide, by decide⟩, 0, by decide, by norm_num⟩

theorem last_month_has_no_end : monthBounds "9999-12" = .error .overflowError ∧
    lateStart.instant ≤ lateFinish.instant ∧ allocate lateStart lateFinish [] = .error .overflowError := by
  have hlabel : label 119999 = "9999-12" := by decide +kernel
  refine ⟨?_, by decide +kernel, ?_⟩
  · rw [← hlabel]
    exact monthBounds_last (by decide) (by decide)
  · exact allocate_late lateFinish (by decide +kernel) _ lateStart [] le_rfl (by decide +kernel)

end Demo

end Usage
