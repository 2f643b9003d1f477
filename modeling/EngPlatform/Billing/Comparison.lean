import EngPlatform.Billing.Export

/-!
# Cost comparisons

Two windows of equal length are compared item by item: both must be covered by rows in every hour,
component by component.
-/

set_option linter.dupNamespace false

namespace Costs

open Gregorian Groups

/-! ## The comparison of an item -/

/-- `CostChange`. -/
structure Change where
  key : Key
  comparable : Bool
  reason : String
  netChange : Option ℚ

/-- `math.ceil((stop - begin).total_seconds() / 3600)`. -/
def hoursIn (start finish : ℤ) : ℤ := -(-(finish - start) / hour)

/-- Something is observed from the beginning to the end, and in so many hours. -/
def observes (first latest : Option ℤ) (hours : ℕ) (offset : ℤ → ℤ) (start finish : ℤ) : Bool :=
  match first, latest with
  | some first, some latest =>
    first ≤ utc offset start && utc offset finish ≤ latest && hoursIn start finish ≤ hours
  | _, _ => false

def Item.component (item : Item) (id : String × String) : Option Component := lastWith Component.id id item.components

def Item.ids (item : Item) : List (String × String) := item.components.map Component.id

/-- Every component is attributed and observed. -/
def Item.covered (item : Item) (offset : ℤ → ℤ) (start finish : ℤ) : Bool :=
  item.ids.all fun id => (item.component id).any fun c =>
    c.attributed && observes c.first c.latest c.hours offset start finish

/-- `_matched_item`, of a key that one of the two has. -/
def matchedItem (offset : ℤ → ℤ) (key : Key) (w : Windows) : Option Item → Option Item → Change
  | some current, some previous =>
    if current.key.currency ≠ previous.key.currency then ⟨key, false, "currency_mismatch", none⟩
    else if !(observes current.first current.latest current.hours offset w.start w.finish &&
        observes previous.first previous.latest previous.hours offset w.prevStart w.prevFinish) then
      ⟨key, false, "incomplete_resource_coverage", none⟩
    else if current.ids = [] ∨ ¬(current.ids ⊆ previous.ids ∧ previous.ids ⊆ current.ids) then
      ⟨key, false, "missing_or_changed_component_coverage", none⟩
    else if !(current.covered offset w.start w.finish && previous.covered offset w.prevStart w.prevFinish) then
      ⟨key, false, "incomplete_component_coverage", none⟩
    else ⟨key, true, "equivalent_exported_windows_provisional", some (current.net - previous.net)⟩
  | _, _ => ⟨key, false, "missing_data", none⟩

/-! ## The comparison of two windows -/

/-- `CostComparison`. -/
structure Comparison where
  current : Summary
  previous : Summary
  windows : Windows
  items : List Change
  comparable : Bool
  netChange : Option ℚ

section

variable (site : Site Item) (rows : List Row) (g : GroupBy)

/-- The two windows cut to the shorter one. -/
def equalized (w : Windows) : Windows :=
  let duration := min (w.finish - w.start) (w.prevFinish - w.prevStart)
  ⟨w.start, w.start + duration, w.prevStart, w.prevStart + duration⟩

/-- The two windows cut to the usage that both have. -/
def bounded (offset : ℤ → ℤ) (w : Windows) (latest prevLatest : ℤ) : Windows :=
  let duration := max 0 (min (min (w.finish - w.start) (w.prevFinish - w.prevStart))
    (min (latest - utc offset w.start) (prevLatest - utc offset w.prevStart)))
  ⟨w.start, w.start + duration, w.prevStart, w.prevStart + duration⟩

/-- The keys of both; nothing depends on their order. -/
def keys (current previous : Summary) : List Key := ((current.items ++ previous.items).map Item.key).dedup

/-- The result, of the windows and their summaries. -/
def result (w : Windows) (current previous : Summary) : Comparison :=
  let items := (keys current previous).map fun key =>
    matchedItem site.offset key w (lastWith Item.key key current.items) (lastWith Item.key key previous.items)
  let comparable := items ≠ [] && items.all Change.comparable && current.status = .partialData &&
    previous.status = .partialData
  ⟨current, previous, w, items, comparable,
    if comparable then some (items.map fun item => item.netChange.getD 0).sum else none⟩

/-- The summaries of both windows. -/
def summaries (asOf : ℤ) (n : ℕ) (w : Windows) : Summary × Summary :=
  (summary site rows g asOf n w.start w.finish, summary site rows g asOf (n + 1) w.prevStart w.prevFinish)

/-- `_comparison`. -/
def comparison (days : ℤ) (monthToDate : Bool) (now : DateTime) : Except Raised Comparison := do
  let w := equalized (← windows days monthToDate now)
  let asOf := utc site.offset now.wall
  let s := summaries site rows g asOf 0 w
  match s.1.latestUsage, s.2.latestUsage with
  | some latest, some prevLatest =>
    let w' := bounded site.offset w latest prevLatest
    if w'.finish ≠ w.finish ∨ w'.prevFinish ≠ w.prevFinish then
      let s' := summaries site rows g asOf 2 w'
      .ok (result site w' s'.1 s'.2)
    else .ok (result site w s.1 s.2)
  | _, _ => .ok (result site w s.1 s.2)

end

/-! ## The windows -/

theorem count_dayBefore {y : Int} {m : ℕ} (hm : 1 ≤ m ∧ m ≤ 12) :
    ordinal.count (dayBefore (Date.first y m hm)) + 1 = ordinal.count (Date.first y m hm) := by
  unfold dayBefore
  split_ifs with h
  · have hm' : 1 < m := h
    have hprev : 1 ≤ m - 1 ∧ m - 1 ≤ 12 := by omega
    have hnext : 1 ≤ m - 1 + 1 ∧ m - 1 + 1 ≤ 12 := by omega
    have hfirst : Date.first y m hm = Date.first y (m - 1 + 1) hnext := by
      have heq : m = m - 1 + 1 := by omega
      unfold Date.first
      congr 1
    have hlast := ordinal.count_eq_first hprev (monthLength y (m - 1)) ⟨monthLength_pos _ _, le_rfl⟩
    have hmonth := ordinal.count_nextMonth (y := y) hprev hnext
    rw [← hfirst] at hmonth
    change ordinal.count ⟨y, m - 1, monthLength y (m - 1), _, _⟩ + 1 = ordinal.count (Date.first y m hm)
    rw [hlast, hmonth]
    omega
  · have hm' : ¬1 < m := h
    obtain rfl : m = 1 := by omega
    have hyear := ordinal.count_nextYear (y - 1)
    have hlast := ordinal.count_eq_first (y := y - 1) (m := 12) (by omega) (monthLength (y - 1) 12)
      ⟨monthLength_pos _ _, le_rfl⟩
    have hy : y - 1 + 1 = y := by omega
    rw [hy] at hyear
    change ordinal.count ⟨y - 1, 12, monthLength (y - 1) 12, _, _⟩ + 1 = _
    rw [hlast, hyear]
    omega

theorem firstOfMonth_le (d : Date) : ordinal.count (firstOfMonth d) ≤ ordinal.count d := by
  have hfirst := ordinal.count_eq_first d.month_mem d.day d.day_mem
  change ordinal.count d = _ at hfirst
  have := d.day_mem
  unfold firstOfMonth
  omega

/-- What is known of the two windows. -/
structure Windows.Sound (w : Windows) : Prop where
  current : w.start ≤ w.finish
  previous : w.prevStart ≤ w.prevFinish
  apart : w.prevFinish ≤ w.start
  before : w.prevStart < w.start
  start : day ∣ w.start
  prevStart : day ∣ w.prevStart

theorem midnight_dvd (d : Date) : day ∣ midnight d := ⟨ordinal.count d, by unfold midnight; rw [mul_comm]⟩

theorem windows_sound {days : ℤ} {monthToDate : Bool} {now : DateTime} {w : Windows}
    (h : windows days monthToDate now = .ok w) : w.Sound ∧ w.finish = now.wall := by
  have htime := now.time_mem
  have hday : (0 : ℤ) < day := by decide
  have hmonth := firstOfMonth_le now.date
  have hbefore := count_dayBefore now.date.month_mem (y := now.date.year)
  have hprevious := firstOfMonth_le (dayBefore (firstOfMonth now.date))
  unfold windows at h
  by_cases hdays : ¬(1 ≤ days ∧ days ≤ 365)
  · rw [if_pos hdays] at h
    cases h
  rw [if_neg hdays] at h
  cases monthToDate with
  | true =>
    simp only [if_true] at h
    split_ifs at h
    obtain rfl := Except.ok.inj h
    have hstart : midnight (firstOfMonth now.date) ≤ midnight now.date := mul_le_mul_of_nonneg_right hmonth hday.le
    have hprev : midnight (firstOfMonth (dayBefore (firstOfMonth now.date))) < midnight (firstOfMonth now.date) := by
      refine mul_lt_mul_of_pos_right (lt_of_le_of_lt hprevious ?_) hday
      change _ < ordinal.count (Date.first now.date.year now.date.month now.date.month_mem)
      rw [← hbefore]
      exact Int.lt_add_one_of_le le_rfl
    refine ⟨⟨?_, ?_, ?_, hprev, midnight_dvd _, midnight_dvd _⟩, rfl⟩
    · unfold DateTime.wall
      dsimp only
      omega
    · unfold DateTime.wall
      dsimp only
      omega
    · dsimp only
      omega
  | false =>
    simp only [Bool.false_eq_true, if_false] at h
    split_ifs at h
    obtain rfl := Except.ok.inj h
    have hback : 0 ≤ (days - 1) * day := mul_nonneg (by omega) hday.le
    have hlong : 0 < days * day := mul_pos (by omega) hday
    refine ⟨⟨?_, ?_, ?_, ?_, ?_, ?_⟩, rfl⟩
    · unfold DateTime.wall
      dsimp only
      omega
    · unfold DateTime.wall
      dsimp only
      omega
    · dsimp only
      omega
    · dsimp only
      omega
    · exact Int.dvd_sub (midnight_dvd _) (Dvd.intro_left _ rfl)
    · exact Int.dvd_sub (Int.dvd_sub (midnight_dvd _) (Dvd.intro_left _ rfl)) (Dvd.intro_left _ rfl)

/-- The windows `v` are cuts of `w` that begin with them and are equally long. -/
structure Windows.Cut (v w : Windows) : Prop where
  start : v.start = w.start
  prevStart : v.prevStart = w.prevStart
  nonneg : v.start ≤ v.finish
  equal : v.finish - v.start = v.prevFinish - v.prevStart
  finish : v.finish ≤ w.finish
  prevFinish : v.prevFinish ≤ w.prevFinish

theorem equalized_cut {w : Windows} (h : w.Sound) : (equalized w).Cut w := by
  have hcurrent := h.current
  have hprevious := h.previous
  unfold equalized
  constructor <;> dsimp only <;> omega

theorem bounded_cut {v w : Windows} (h : v.Cut w) (offset : ℤ → ℤ) (latest prevLatest : ℤ) :
    (bounded offset v latest prevLatest).Cut w := by
  obtain ⟨hstart, hprevStart, hnonneg, hequal, hfinish, hprevFinish⟩ := h
  unfold bounded
  constructor <;> dsimp only <;> omega

/-- The windows that are compared in the end, and the answers for them. -/
theorem comparison_result {site : Site Item} {rows : List Row} {g : GroupBy} {days : ℤ} {monthToDate : Bool}
    {now : DateTime} {c : Comparison} (h : comparison site rows g days monthToDate now = .ok c) :
    ∃ w v n, windows days monthToDate now = .ok w ∧ v.Cut w ∧
      c = result site v (summaries site rows g (utc site.offset now.wall) n v).1
        (summaries site rows g (utc site.offset now.wall) n v).2 := by
  unfold comparison at h
  cases hw : windows days monthToDate now with
  | error e =>
    rw [hw] at h
    cases h
  | ok w =>
    rw [hw] at h
    have hcut := equalized_cut (windows_sound hw).1
    change (match (summaries site rows g (utc site.offset now.wall) 0 (equalized w)).1.latestUsage,
        (summaries site rows g (utc site.offset now.wall) 0 (equalized w)).2.latestUsage with
      | some latest, some prevLatest => _
      | _, _ => _) = _ at h
    split at h
    next latest prevLatest _ _ =>
      dsimp only at h
      split_ifs at h
      · obtain rfl := Except.ok.inj h
        exact ⟨w, _, 2, rfl, bounded_cut hcut site.offset latest prevLatest, rfl⟩
      · obtain rfl := Except.ok.inj h
        exact ⟨w, _, 0, rfl, hcut, rfl⟩
    next =>
      obtain rfl := Except.ok.inj h
      exact ⟨w, _, 0, rfl, hcut, rfl⟩

/-! ## The items of a window -/

/-- The key that the row's item has. -/
def Row.key (g : GroupBy) (r : Row) : Option Key := r.currency.map (r.dimensions g).key

/-- No row without a service shares project, name and currency with one whose service is empty. -/
def Unmerged (g : GroupBy) (rows : List Row) : Prop :=
  ∀ r ∈ rows, ∀ r' ∈ rows, r.service = none → r'.service = some "" →
    ¬(g.serviceName r = g.serviceName r' ∧ r.currency = r'.currency)

theorem Row.key_some {g : GroupBy} {r : Row} {k : Key} (h : r.key g = some k) :
    r.currency = some k.currency ∧ k.project = r.project.getD projectId ∧ k.service = r.service.getD "" ∧
      k.name = g.serviceName r := by
  obtain ⟨c, hc, rfl⟩ := Option.map_eq_some_iff.mp h
  exact ⟨hc, rfl, rfl, rfl⟩

/-- Where no services are merged, the rows of one item are of one group. -/
theorem Unmerged.dimensions {g : GroupBy} {rows : List Row} (h : Unmerged g rows) {r r' : Row} {k : Key}
    (hr : r ∈ rows) (hr' : r' ∈ rows) (hproject : r.project = r'.project) (hk : r.key g = some k)
    (hk' : r'.key g = some k) : r.dimensions g = r'.dimensions g := by
  obtain ⟨hcurrency, -, hservice, hname⟩ := Row.key_some hk
  obtain ⟨hcurrency', -, hservice', hname'⟩ := Row.key_some hk'
  have hsame : g.serviceName r = g.serviceName r' ∧ r.currency = r'.currency :=
    ⟨hname.symm.trans hname', hcurrency.trans hcurrency'.symm⟩
  have hservices : r.service = r'.service := by
    rw [hservice] at hservice'
    cases hr₁ : r.service with
    | none =>
      cases hr₂ : r'.service with
      | none => rfl
      | some s =>
        rw [hr₁, hr₂] at hservice'
        exact absurd hsame (h r hr r' hr' hr₁ (hr₂.trans (congrArg some hservice'.symm)))
    | some s =>
      cases hr₂ : r'.service with
      | none =>
        rw [hr₁, hr₂] at hservice'
        exact absurd ⟨hsame.1.symm, hsame.2.symm⟩ (h r' hr' r hr hr₂ (hr₁.trans (congrArg some hservice')))
      | some s' =>
        rw [hr₁, hr₂] at hservice'
        exact congrArg some hservice'
  unfold Row.dimensions
  rw [hproject, hservices, hsame.1, hsame.2]

theorem mapM_some {α β : Type} {f : α → Option β} : ∀ {l : List α} {out : List β}, l.mapM f = some out →
    (∀ a ∈ l, ∃ b ∈ out, f a = some b) ∧ ∀ b ∈ out, ∃ a ∈ l, f a = some b
  | [], out, h => by
    obtain rfl := Option.some.inj h
    simp
  | a :: l, out, h => by
    rw [List.mapM_cons] at h
    obtain ⟨b, hb, h⟩ := Option.bind_eq_some_iff.mp h
    obtain ⟨rest, hrest, h⟩ := Option.bind_eq_some_iff.mp h
    obtain rfl := Option.some.inj h
    obtain ⟨hall, hfrom⟩ := mapM_some hrest
    refine ⟨List.forall_mem_cons.mpr ⟨⟨b, List.mem_cons_self, hb⟩, fun a' ha' => ?_⟩,
      List.forall_mem_cons.mpr ⟨⟨a, List.mem_cons_self, hb⟩, fun b' hb' => ?_⟩⟩
    · obtain ⟨b', hb', hf⟩ := hall a' ha'
      exact ⟨b', List.mem_cons_of_mem _ hb', hf⟩
    · obtain ⟨a', ha', hf⟩ := hfrom b' hb'
      exact ⟨a', List.mem_cons_of_mem _ ha', hf⟩

section Items

variable {order : List Item → List Item} {g : GroupBy} {rows : List Row} {items : List Item}
  (horder : ∀ l, (order l).Perm l) (h : itemsOf order g rows = some items)

include horder h

/-- Every row has an item. -/
theorem itemsOf_row {r : Row} (hr : r ∈ rows) : ∃ k, r.key g = some k ∧
    itemOf k (withKey (Row.dimensions g) (r.dimensions g) rows) ∈ items := by
  obtain ⟨l, hl, rfl⟩ := Option.map_eq_some_iff.mp h
  obtain ⟨item, hitem, hgroup⟩ := (mapM_some hl).1 _ (mem_groupBy.mpr ⟨r, hr, rfl⟩)
  obtain ⟨c, hc, rfl⟩ := Option.map_eq_some_iff.mp hgroup
  have hcurrency : r.currency = some c := hc
  refine ⟨(r.dimensions g).key c, ?_, (horder l).mem_iff.mpr hitem⟩
  unfold Row.key
  rw [hcurrency]
  rfl

/-- Every item is of the group of a row. -/
theorem itemsOf_item {item : Item} (hitem : item ∈ items) : ∃ r ∈ rows, ∃ k, r.key g = some k ∧
    item = itemOf k (withKey (Row.dimensions g) (r.dimensions g) rows) := by
  obtain ⟨l, hl, rfl⟩ := Option.map_eq_some_iff.mp h
  obtain ⟨group, hgroup, hitem⟩ := (mapM_some hl).2 item ((horder l).mem_iff.mp hitem)
  obtain ⟨r, hr, rfl⟩ := mem_groupBy.mp hgroup
  obtain ⟨c, hc, rfl⟩ := Option.map_eq_some_iff.mp hitem
  have hcurrency : r.currency = some c := hc
  refine ⟨r, hr, (r.dimensions g).key c, ?_, rfl⟩
  unfold Row.key
  rw [hcurrency]
  rfl

/-- The item of a key is that of all rows with the key. -/
theorem lastWith_item (hunmerged : Unmerged g rows) (hproject : ∀ r ∈ rows, r.project = some projectId) {k : Key}
    {item : Item} (hitem : lastWith Item.key k items = some item) :
    item = itemOf k (withKey (Row.key g) (some k) rows) ∧ ∃ r ∈ rows, r.key g = some k := by
  obtain ⟨hmem, hkey⟩ := lastWith_some hitem
  obtain ⟨r, hr, k', hk', rfl⟩ := itemsOf_item horder h hmem
  obtain rfl : k' = k := hkey
  refine ⟨?_, r, hr, hk'⟩
  have hrows : withKey (Row.dimensions g) (r.dimensions g) rows = withKey (Row.key g) (some k') rows := by
    refine List.filter_congr fun r' hr' => ?_
    rw [decide_eq_decide]
    constructor
    · intro heq
      have hcurrency : r'.currency = r.currency := congrArg Dimensions.currency heq
      unfold Row.key at hk' ⊢
      rw [heq, hcurrency]
      exact hk'
    · intro hk
      exact hunmerged.dimensions hr' hr ((hproject r' hr').trans (hproject r hr).symm) hk hk'
  rw [hrows]

theorem lastWith_exists {r : Row} {k : Key} (hr : r ∈ rows) (hk : r.key g = some k) :
    ∃ item, lastWith Item.key k items = some item := by
  obtain ⟨k', hk', hitem⟩ := itemsOf_row horder h hr
  obtain rfl := Option.some.inj (hk.symm.trans hk')
  cases hlast : lastWith Item.key k items with
  | none => exact absurd rfl (lastWith_none hlast _ hitem)
  | some item => exact ⟨item, rfl⟩

theorem mem_keys {k : Key} : k ∈ items.map Item.key ↔ ∃ r ∈ rows, r.key g = some k := by
  rw [List.mem_map]
  constructor
  · rintro ⟨item, hitem, rfl⟩
    obtain ⟨r, hr, k, hk, rfl⟩ := itemsOf_item horder h hitem
    exact ⟨r, hr, hk⟩
  · rintro ⟨r, hr, hk⟩
    obtain ⟨k', hk', hitem⟩ := itemsOf_row horder h hr
    obtain rfl := Option.some.inj (hk.symm.trans hk')
    exact ⟨_, hitem, rfl⟩

end Items

theorem itemOf_net (k : Key) (rows : List Row) : (itemOf k rows).net = (rows.map Row.net).sum := by
  have hcost : ((componentsOf rows).map Component.cost).sum = (rows.map Row.cost).sum := by
    rw [← sum_groupBy Row.componentId Row.cost rows]
    unfold componentsOf
    rw [List.map_map]
    rfl
  have hcredits : ((componentsOf rows).map Component.credits).sum = (rows.map Row.credits).sum := by
    rw [← sum_groupBy Row.componentId Row.credits rows]
    unfold componentsOf
    rw [List.map_map]
    rfl
  change ((componentsOf rows).map Component.cost).sum + ((componentsOf rows).map Component.credits).sum = _
  rw [hcost, hcredits, ← List.sum_map_add]
  rfl

theorem itemOf_component {k : Key} {rows : List Row} {id : String × String} {c : Component}
    (h : (itemOf k rows).component id = some c) : c = componentOf id (withKey Row.componentId id rows) := by
  obtain ⟨hmem, hid⟩ := lastWith_some h
  obtain ⟨group, hgroup, rfl⟩ := List.mem_map.mp hmem
  obtain ⟨r, -, rfl⟩ := mem_groupBy.mp hgroup
  obtain rfl : r.componentId = id := hid
  rfl

theorem mem_ids {k : Key} {rows : List Row} {id : String × String} :
    id ∈ (itemOf k rows).ids ↔ ∃ r ∈ rows, r.componentId = id := by
  have hids : (itemOf k rows).ids = (rows.map Row.componentId).dedup := by
    unfold Item.ids
    change (componentsOf rows).map Component.id = _
    unfold componentsOf
    rw [List.map_map]
    exact groupBy_keys Row.componentId rows
  rw [hids, List.mem_dedup, List.mem_map]

end Costs
