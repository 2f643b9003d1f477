import EngPlatform.Billing.Comparison
import Mathlib.Tactic.Ring

/-!
# What a comparison covers

A comparable result is of windows in which every component with a row in either of them has a row in
every hour of both, and its net change is the difference of all their rows.
-/

set_option linter.dupNamespace false

namespace Costs

open Gregorian Groups

/-! ## Hours -/

/-- A list of so many different numbers has all numbers of the range they are in. -/
theorem mem_of_dedup_length {l : List ℤ} {q : ℤ} {n : ℕ} (hmem : ∀ x ∈ l, q ≤ x ∧ x < q + n)
    (hlength : n ≤ l.dedup.length) {x : ℤ} (hx : q ≤ x ∧ x < q + n) : x ∈ l := by
  have hsubset : l.toFinset ⊆ (Finset.range n).image fun i : ℕ => q + i := by
    intro y hy
    obtain ⟨hle, hlt⟩ := hmem y (List.mem_toFinset.mp hy)
    refine Finset.mem_image.mpr ⟨(y - q).toNat, Finset.mem_range.mpr (by omega), by omega⟩
  have hcard : ((Finset.range n).image fun i : ℕ => q + i).card ≤ l.toFinset.card := by
    refine Finset.card_image_le.trans ?_
    rw [Finset.card_range, List.card_toFinset]
    exact hlength
  have hfull := Finset.eq_of_subset_of_card_le hsubset hcard
  rw [← List.mem_toFinset, hfull]
  exact Finset.mem_image.mpr ⟨(x - q).toNat, Finset.mem_range.mpr (by omega), by omega⟩

theorem hour_pos : (0 : ℤ) < hour := by decide

theorem hour_dvd_day : hour ∣ day := ⟨24, by decide⟩

/-- Times of a window that begins with an hour are in so many hours. -/
theorem hour_bounds {a b t : ℤ} (ha : hour ∣ a) (hle : a ≤ t) (hlt : t < b) :
    a / hour ≤ t / hour ∧ t / hour < a / hour + hoursIn a b := by
  have hhour := hour_pos
  refine ⟨Int.ediv_le_ediv hhour hle, ?_⟩
  obtain ⟨q, rfl⟩ := ha
  have hq : hour * q / hour = q := Int.mul_ediv_cancel_left q hhour.ne'
  rw [hq, Int.ediv_lt_iff_lt_mul hhour]
  have hceil : -(b - hour * q) / hour * hour ≤ -(b - hour * q) := Int.ediv_mul_le _ hhour.ne'
  have hsplit : (q + hoursIn (hour * q) b) * hour = hour * q - -(b - hour * q) / hour * hour := by
    unfold hoursIn
    ring
  rw [hsplit]
  omega

/-! ## Clocks -/

/-- The clock keeps one offset of whole hours from the beginning of the previous window on. -/
def Steady (offset : ℤ → ℤ) (w : Windows) : Prop :=
  ∃ o, hour ∣ o ∧ ∀ t, w.prevStart ≤ t → t ≤ w.finish → offset t = o

theorem hoursIn_shift (a b o : ℤ) : hoursIn (a - o) (b - o) = hoursIn a b := by
  have hlength : b - o - (a - o) = b - a := by omega
  unfold hoursIn
  rw [hlength]

/-- A window in instants. -/
theorem Steady.utc {offset : ℤ → ℤ} {w : Windows} (h : Steady offset w) : ∃ o, hour ∣ o ∧
    ∀ t, w.prevStart ≤ t → t ≤ w.finish → utc offset t = t - o := by
  obtain ⟨o, ho, h⟩ := h
  refine ⟨o, ho, fun t hle hlt => ?_⟩
  unfold Costs.utc
  rw [h t hle hlt]

/-! ## Selected rows -/

theorem selects_bounds {visible : Option (List String)} {start finish asOf : ℤ} {r : Row}
    (h : selects visible start finish asOf r = true) :
    r.project = some projectId ∧ start ≤ r.start ∧ r.start < finish ∧ r.finish ≤ finish := by
  unfold selects at h
  simp only [Bool.and_eq_true, decide_eq_true_eq] at h
  obtain ⟨⟨⟨⟨⟨⟨hproject, -⟩, hstart⟩, hbefore⟩, hfinish⟩, -⟩, -⟩ := h
  exact ⟨hproject, hstart, hbefore, hfinish⟩

theorem Site.mem_selected {site : Site Item} {rows : List Row} {asOf start finish : ℤ} {r : Row}
    (h : r ∈ site.selected rows asOf start finish) : r.project = some projectId ∧
      utc site.offset start ≤ r.start ∧ r.start < utc site.offset finish ∧ r.finish ≤ utc site.offset finish :=
  selects_bounds (List.mem_filter.mp h).2

theorem summaryOf_partial {selected : List Row} {answer : Option (List Item)}
    (h : (summaryOf selected answer).status = .partialData) : ∃ items, answer = some items ∧
      (summaryOf selected answer).items = items ∧
      (summaryOf selected answer).totalNet = some (selected.map Row.net).sum ∧
      ∃ currency, ∀ r ∈ selected, ∀ c, r.currency = some c → c = currency := by
  cases answer with
  | none => cases h
  | some items =>
    refine ⟨items, rfl, ?_⟩
    unfold summaryOf at h ⊢
    dsimp only at h ⊢
    by_cases hnil : selected = []
    · rw [if_pos hnil] at h
      cases h
    rw [if_neg hnil] at h ⊢
    split at h
    next currency hcurrency =>
      refine ⟨rfl, rfl, currency, fun r hr c hc => ?_⟩
      have hmem := List.mem_dedup.mpr (List.mem_filterMap.mpr ⟨r, hr, hc⟩)
      rw [hcurrency] at hmem
      exact List.mem_singleton.mp hmem
    · cases h

/-- A summary with totals is of rows that all have an item, in one currency. -/
theorem summary_partial {site : Site Item} {rows : List Row} {g : GroupBy} {asOf start finish : ℤ} {n : ℕ}
    (h : (summary site rows g asOf n start finish).status = .partialData) : ∃ items,
      itemsOf site.order g (site.selected rows asOf start finish) = some items ∧
      (summary site rows g asOf n start finish).items = items ∧
      (summary site rows g asOf n start finish).totalNet =
        some ((site.selected rows asOf start finish).map Row.net).sum ∧
      ∃ currency, ∀ r ∈ site.selected rows asOf start finish, ∀ c, r.currency = some c → c = currency := by
  obtain ⟨items, hitems, hrest⟩ := summaryOf_partial h
  refine ⟨items, ?_, hrest⟩
  by_cases hanswers : (site.table && site.answers n) = true
  · rwa [if_pos hanswers] at hitems
  · rw [if_neg hanswers] at hitems
    cases hitems

/-! ## Components -/

/-- The rows of the component that a row is of. -/
def Row.siblings (g : GroupBy) (r : Row) (rows : List Row) : List Row :=
  rows.filter fun r' => r'.key g = r.key g ∧ r'.componentId = r.componentId

/-- A row's component is attributed and observed in every hour of a window. -/
structure Covered (g : GroupBy) (rows : List Row) (r : Row) (start finish : ℤ) : Prop where
  attributed : ∀ r' ∈ r.siblings g rows, r'.attributed = true
  begins : ∃ r' ∈ r.siblings g rows, r'.start = start
  ends : ∃ r' ∈ r.siblings g rows, r'.finish = finish
  hours : ∀ t, start ≤ t → t < finish → ∃ r' ∈ r.siblings g rows, r'.start / hour = t / hour

theorem observes_some {first latest : Option ℤ} {hours : ℕ} {offset : ℤ → ℤ} {start finish : ℤ}
    (h : observes first latest hours offset start finish = true) : ∃ a b, first = some a ∧ latest = some b ∧
      a ≤ utc offset start ∧ utc offset finish ≤ b ∧ hoursIn start finish ≤ hours := by
  unfold observes at h
  cases first with
  | none => cases h
  | some a =>
    cases latest with
    | none => cases h
    | some b =>
      simp only [Bool.and_eq_true, decide_eq_true_eq] at h
      exact ⟨a, b, rfl, rfl, h.1.1, h.1.2, h.2⟩

/-- A group of rows in a window that is observed has a row in every hour. -/
theorem observed_hours {rows : List Row} {id : String × String} {offset : ℤ → ℤ} {start finish : ℤ}
    (h : observes (componentOf id rows).first (componentOf id rows).latest (componentOf id rows).hours offset start
      finish = true)
    (hdvd : hour ∣ utc offset start) (hlength : hoursIn (utc offset start) (utc offset finish) = hoursIn start finish)
    (hrows : ∀ r ∈ rows, utc offset start ≤ r.start ∧ r.start < utc offset finish ∧ r.finish ≤ utc offset finish) :
    (∃ r ∈ rows, r.start = utc offset start) ∧ (∃ r ∈ rows, r.finish = utc offset finish) ∧
      ∀ t, utc offset start ≤ t → t < utc offset finish → ∃ r ∈ rows, r.start / hour = t / hour := by
  obtain ⟨a, b, hfirst, hlatest, ha, hb, hhours⟩ := observes_some h
  obtain ⟨r, hr, rfl⟩ := List.mem_map.mp (List.min?_mem hfirst)
  obtain ⟨r', hr', rfl⟩ := List.mem_map.mp (List.max?_mem hlatest)
  refine ⟨⟨r, hr, le_antisymm ha (hrows r hr).1⟩, ⟨r', hr', le_antisymm (hrows r' hr').2.2 hb⟩, fun t hle hlt => ?_⟩
  have hnonneg : 0 ≤ hoursIn (utc offset start) (utc offset finish) := by
    have := hour_bounds hdvd hle hlt
    omega
  obtain ⟨n, hn⟩ := Int.eq_ofNat_of_zero_le hnonneg
  have hbounds : ∀ x ∈ rows.map fun r => r.start / hour, utc offset start / hour ≤ x ∧
      x < utc offset start / hour + n := by
    intro x hx
    obtain ⟨r, hr, rfl⟩ := List.mem_map.mp hx
    rw [← hn]
    exact hour_bounds hdvd (hrows r hr).1 (hrows r hr).2.1
  have hmany : n ≤ (rows.map fun r => r.start / hour).dedup.length := by
    change hoursIn start finish ≤ ((rows.map fun r => r.start / hour).dedup.length : ℤ) at hhours
    omega
  have ht := hour_bounds hdvd hle hlt
  rw [hn] at ht
  exact List.mem_map.mp (mem_of_dedup_length hbounds hmany ht)

/-- A covered item's components are covered. -/
theorem Item.covered_component {item : Item} {offset : ℤ → ℤ} {start finish : ℤ}
    (h : item.covered offset start finish = true) {id : String × String} (hid : id ∈ item.ids) :
    ∃ c, item.component id = some c ∧ c.attributed = true ∧
      observes c.first c.latest c.hours offset start finish = true := by
  unfold Item.covered at h
  have hany := List.all_eq_true.mp h id hid
  obtain ⟨c, hc, hboth⟩ := (Option.any_eq_true _ _).mp hany
  rw [Bool.and_eq_true] at hboth
  exact ⟨c, hc, hboth⟩

/-- What a comparable item has. -/
theorem matchedItem_comparable {offset : ℤ → ℤ} {key : Key} {w : Windows} {current previous : Option Item}
    (h : (matchedItem offset key w current previous).comparable = true) : ∃ item item', current = some item ∧
      previous = some item' ∧ (∀ id, id ∈ item.ids ↔ id ∈ item'.ids) ∧ item.covered offset w.start w.finish = true ∧
      item'.covered offset w.prevStart w.prevFinish = true ∧
      (matchedItem offset key w current previous).netChange = some (item.net - item'.net) := by
  unfold matchedItem at h ⊢
  cases current with
  | none => cases h
  | some item =>
    cases previous with
    | none => cases h
    | some item' =>
      dsimp only at h ⊢
      split_ifs at h ⊢ with hcurrency hobserved hids hcovered
      rw [Bool.not_eq_true', Bool.and_eq_false_iff, not_or, Bool.not_eq_false, Bool.not_eq_false] at hcovered
      rw [not_or, not_not] at hids
      exact ⟨item, item', rfl, rfl, fun id => ⟨fun hid => hids.2.1 hid, fun hid => hids.2.2 hid⟩, hcovered.1,
        hcovered.2, rfl⟩

/-! ## Comparable results -/

/-- Windows of which every component with a row in either is covered in both, in one currency. -/
structure Matched (g : GroupBy) (offset : ℤ → ℤ) (w : Windows) (current previous : List Row) : Prop where
  currency : ∃ currency, ∀ r ∈ current ++ previous, r.currency = some currency
  inCurrent : ∀ r ∈ current ++ previous, Covered g current r (utc offset w.start) (utc offset w.finish)
  inPrevious : ∀ r ∈ current ++ previous, Covered g previous r (utc offset w.prevStart) (utc offset w.prevFinish)

theorem siblings_eq {g : GroupBy} {r : Row} {rows : List Row} :
    r.siblings g rows = withKey Row.componentId r.componentId (withKey (Row.key g) (r.key g) rows) := by
  unfold Row.siblings withKey
  rw [List.filter_filter]
  refine List.filter_congr fun r' _ => ?_
  rw [Bool.decide_and, Bool.and_comm]

/-- The component of a row of an item that is covered. -/
theorem covered_of_item {g : GroupBy} {offset : ℤ → ℤ} {start finish : ℤ} {rows : List Row} {r : Row} {k : Key}
    (hk : r.key g = some k)
    (hcovered : (itemOf k (withKey (Row.key g) (some k) rows)).covered offset start finish = true)
    (hid : r.componentId ∈ (itemOf k (withKey (Row.key g) (some k) rows)).ids)
    (hdvd : hour ∣ utc offset start) (hlength : hoursIn (utc offset start) (utc offset finish) = hoursIn start finish)
    (hrows : ∀ r ∈ rows, utc offset start ≤ r.start ∧ r.start < utc offset finish ∧ r.finish ≤ utc offset finish) :
    Covered g rows r (utc offset start) (utc offset finish) := by
  obtain ⟨c, hc, hattributed, hobserved⟩ := Item.covered_component hcovered hid
  obtain rfl := itemOf_component hc
  rw [← hk, ← siblings_eq] at hattributed hobserved
  obtain ⟨hbegins, hends, hhours⟩ := observed_hours hobserved hdvd hlength fun r' hr' =>
    hrows r' (List.mem_filter.mp hr').1
  exact ⟨List.all_eq_true.mp hattributed, hbegins, hends, hhours⟩

theorem sum_differences {κ : Type} (f f' : κ → ℚ) :
    ∀ ks : List κ, (ks.map fun k => f k - f' k).sum = (ks.map f).sum - (ks.map f').sum
  | [] => by simp
  | k :: ks => by
    rw [List.map_cons, List.sum_cons, sum_differences f f' ks, List.map_cons, List.sum_cons, List.map_cons,
      List.sum_cons]
    ring

section

variable {site : Site Item} {g : GroupBy} {w : Windows} {current previous : Summary} {rows rows' : List Row}
  (hcurrent : itemsOf site.order g rows = some current.items)
  (hprevious : itemsOf site.order g rows' = some previous.items)

include hcurrent hprevious

theorem mem_keys_iff {k : Key} : k ∈ keys current previous ↔ ∃ r ∈ rows ++ rows', r.key g = some k := by
  unfold keys
  rw [List.mem_dedup, List.map_append, List.mem_append, mem_keys site.order_perm hcurrent,
    mem_keys site.order_perm hprevious]
  simp only [List.mem_append, or_and_right, exists_or]

/-- Every row has a key that is compared. -/
theorem key_compared {r : Row} (hr : r ∈ rows ++ rows') : ∃ k ∈ keys current previous, r.key g = some k := by
  have hk : ∃ k, r.key g = some k := by
    rcases List.mem_append.mp hr with hr | hr
    · obtain ⟨k, hk, -⟩ := itemsOf_row site.order_perm hcurrent hr
      exact ⟨k, hk⟩
    · obtain ⟨k, hk, -⟩ := itemsOf_row site.order_perm hprevious hr
      exact ⟨k, hk⟩
  obtain ⟨k, hk⟩ := hk
  exact ⟨k, (mem_keys_iff hcurrent hprevious).mpr ⟨r, hr, hk⟩, hk⟩

end

theorem result_comparable {site : Site Item} {w : Windows} {current previous : Summary}
    (h : (result site w current previous).comparable = true) :
    current.status = .partialData ∧ previous.status = .partialData ∧ ∀ k ∈ keys current previous,
      (matchedItem site.offset k w (lastWith Item.key k current.items) (lastWith Item.key k previous.items)).comparable =
        true := by
  unfold result at h
  simp only [Bool.and_eq_true, decide_eq_true_eq] at h
  obtain ⟨⟨⟨-, hall⟩, hcurrent⟩, hprevious⟩ := h
  exact ⟨hcurrent, hprevious, fun k hk => List.all_eq_true.mp hall _ (List.mem_map_of_mem hk)⟩

section

variable {site : Site Item} {rows : List Row} {g : GroupBy} {asOf : ℤ} {n : ℕ} {w : Windows}
  (h : (result site w (summaries site rows g asOf n w).1 (summaries site rows g asOf n w).2).comparable = true)
  (hunmerged : Unmerged g (site.selected rows asOf w.start w.finish))
  (hunmerged' : Unmerged g (site.selected rows asOf w.prevStart w.prevFinish))

include h hunmerged hunmerged'

/-- Both items of a key, of all rows with the key. -/
theorem items_of_key {k : Key} (hk : k ∈ keys (summaries site rows g asOf n w).1 (summaries site rows g asOf n w).2) :
    let item := itemOf k (withKey (Row.key g) (some k) (site.selected rows asOf w.start w.finish))
    let item' := itemOf k (withKey (Row.key g) (some k) (site.selected rows asOf w.prevStart w.prevFinish))
    (∃ r ∈ site.selected rows asOf w.start w.finish, r.key g = some k) ∧ (∀ id, id ∈ item.ids ↔ id ∈ item'.ids) ∧
      item.covered site.offset w.start w.finish = true ∧ item'.covered site.offset w.prevStart w.prevFinish = true ∧
      (matchedItem site.offset k w (lastWith Item.key k (summaries site rows g asOf n w).1.items)
        (lastWith Item.key k (summaries site rows g asOf n w).2.items)).netChange = some (item.net - item'.net) := by
  obtain ⟨hstatus, hstatus', hall⟩ := result_comparable h
  obtain ⟨items, hitems, heq, -⟩ := summary_partial hstatus
  obtain ⟨items', hitems', heq', -⟩ := summary_partial hstatus'
  have hproject : ∀ r ∈ site.selected rows asOf w.start w.finish, r.project = some projectId := fun r hr =>
    (Site.mem_selected hr).1
  have hproject' : ∀ r ∈ site.selected rows asOf w.prevStart w.prevFinish, r.project = some projectId := fun r hr =>
    (Site.mem_selected hr).1
  obtain ⟨item, item', hitem, hitem', hids, hcovered, hcovered', hnet⟩ := matchedItem_comparable (hall k hk)
  unfold summaries at hitem hitem'
  rw [heq] at hitem
  rw [heq'] at hitem'
  obtain ⟨rfl, hrow⟩ := lastWith_item site.order_perm hitems hunmerged hproject hitem
  obtain ⟨rfl, -⟩ := lastWith_item site.order_perm hitems' hunmerged' hproject' hitem'
  exact ⟨hrow, hids, hcovered, hcovered', hnet⟩

/-- The net change is the difference of all rows. -/
theorem result_netChange :
    (result site w (summaries site rows g asOf n w).1 (summaries site rows g asOf n w).2).netChange =
      some (((site.selected rows asOf w.start w.finish).map Row.net).sum -
        ((site.selected rows asOf w.prevStart w.prevFinish).map Row.net).sum) := by
  obtain ⟨hstatus, hstatus', -⟩ := result_comparable h
  obtain ⟨items, hitems, heq, -⟩ := summary_partial hstatus
  obtain ⟨items', hitems', heq', -⟩ := summary_partial hstatus'
  obtain rfl := heq
  obtain rfl := heq'
  have hnodup : ((keys (summaries site rows g asOf n w).1 (summaries site rows g asOf n w).2).map some).Nodup :=
    (List.nodup_dedup _).map (Option.some_injective Key)
  have hkey : ∀ r ∈ site.selected rows asOf w.start w.finish ++ site.selected rows asOf w.prevStart w.prevFinish,
      r.key g ∈ (keys (summaries site rows g asOf n w).1 (summaries site rows g asOf n w).2).map some := by
    intro r hr
    obtain ⟨k, hk, hr⟩ := key_compared hitems hitems' hr
    exact List.mem_map.mpr ⟨k, hk, hr.symm⟩
  have hsum := sum_withKey (Row.key g) Row.net hnodup fun r hr => hkey r (List.mem_append_left _ hr)
  have hsum' := sum_withKey (Row.key g) Row.net hnodup fun r hr => hkey r (List.mem_append_right _ hr)
  rw [List.map_map] at hsum hsum'
  change (if (result site w _ _).comparable = true then some _ else none) = _
  rw [if_pos h, ← hsum, ← hsum', ← sum_differences]
  congr 2
  rw [List.map_map]
  refine List.map_congr_left fun k hk => ?_
  obtain ⟨-, -, -, -, hnet⟩ := items_of_key h hunmerged hunmerged' hk
  rw [Function.comp_apply, hnet, itemOf_net, itemOf_net]
  rfl

/-- Every component is covered in both windows, in one currency. -/
theorem result_matched
    (hdvd : hour ∣ utc site.offset w.start) (hdvd' : hour ∣ utc site.offset w.prevStart)
    (hlength : hoursIn (utc site.offset w.start) (utc site.offset w.finish) = hoursIn w.start w.finish)
    (hlength' : hoursIn (utc site.offset w.prevStart) (utc site.offset w.prevFinish) =
      hoursIn w.prevStart w.prevFinish) :
    Matched g site.offset w (site.selected rows asOf w.start w.finish)
      (site.selected rows asOf w.prevStart w.prevFinish) := by
  obtain ⟨hstatus, hstatus', -⟩ := result_comparable h
  obtain ⟨items, hitems, heq, -, currency, hcurrency⟩ := summary_partial hstatus
  obtain ⟨items', hitems', heq', -⟩ := summary_partial hstatus'
  obtain rfl := heq
  obtain rfl := heq'
  -- the key of a row of either window, whose items have the row's component
  have hrow : ∀ r ∈ site.selected rows asOf w.start w.finish ++ site.selected rows asOf w.prevStart w.prevFinish,
      ∃ k ∈ keys (summaries site rows g asOf n w).1 (summaries site rows g asOf n w).2, r.key g = some k ∧
        r.componentId ∈ (itemOf k (withKey (Row.key g) (some k) (site.selected rows asOf w.start w.finish))).ids ∧
        r.componentId ∈
          (itemOf k (withKey (Row.key g) (some k) (site.selected rows asOf w.prevStart w.prevFinish))).ids := by
    intro r hr
    obtain ⟨k, hk, hkey⟩ := key_compared hitems hitems' hr
    obtain ⟨-, hids, -⟩ := items_of_key h hunmerged hunmerged' hk
    refine ⟨k, hk, hkey, ?_⟩
    rcases List.mem_append.mp hr with hr | hr
    · have hid := (mem_ids (k := k)).mpr ⟨r, mem_withKey.mpr ⟨hr, hkey⟩, rfl⟩
      exact ⟨hid, (hids _).mp hid⟩
    · have hid := (mem_ids (k := k)).mpr ⟨r, mem_withKey.mpr ⟨hr, hkey⟩, rfl⟩
      exact ⟨(hids _).mpr hid, hid⟩
  refine ⟨⟨currency, fun r hr => ?_⟩, fun r hr => ?_, fun r hr => ?_⟩
  · obtain ⟨k, hk, hkey, -⟩ := hrow r hr
    obtain ⟨⟨r', hr', hkey'⟩, -⟩ := items_of_key h hunmerged hunmerged' hk
    obtain rfl := hcurrency r' hr' _ (Row.key_some hkey').1
    exact (Row.key_some hkey).1
  · obtain ⟨k, hk, hkey, hid, -⟩ := hrow r hr
    obtain ⟨-, -, hcovered, -⟩ := items_of_key h hunmerged hunmerged' hk
    exact covered_of_item hkey hcovered hid hdvd hlength fun r' hr' => (Site.mem_selected hr').2
  · obtain ⟨k, hk, hkey, -, hid⟩ := hrow r hr
    obtain ⟨-, -, -, hcovered, -⟩ := items_of_key h hunmerged hunmerged' hk
    exact covered_of_item hkey hcovered hid hdvd' hlength' fun r' hr' => (Site.mem_selected hr').2

end

/-! ## Comparisons -/

theorem Unmerged.of_subset {g : GroupBy} {rows rows' : List Row} (h : Unmerged g rows) (hsub : rows' ⊆ rows) :
    Unmerged g rows' := fun r hr r' hr' => h r (hsub hr) r' (hsub hr')

/-- A shorter window has fewer rows. -/
theorem Site.selected_subset (site : Site Item) (rows : List Row) (asOf : ℤ) {start finish finish' : ℤ}
    (h : utc site.offset finish' ≤ utc site.offset finish) :
    site.selected rows asOf start finish' ⊆ site.selected rows asOf start finish := by
  intro r hr
  obtain ⟨hmem, hselects⟩ := List.mem_filter.mp hr
  refine List.mem_filter.mpr ⟨hmem, ?_⟩
  unfold selects at hselects ⊢
  simp only [Bool.and_eq_true, decide_eq_true_eq] at hselects ⊢
  obtain ⟨⟨⟨⟨⟨⟨hproject, htype⟩, hstart⟩, hbefore⟩, hfinish⟩, hexported⟩, hvisible⟩ := hselects
  exact ⟨⟨⟨⟨⟨⟨hproject, htype⟩, hstart⟩, hbefore.trans_le h⟩, hfinish.trans h⟩, hexported⟩, hvisible⟩

end Costs
