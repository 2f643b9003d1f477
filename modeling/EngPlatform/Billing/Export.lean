import EngPlatform.Lib.Gregorian
import EngPlatform.Lib.Groups
import Mathlib.Data.Rat.Defs
import Mathlib.Data.Finset.Image
import Mathlib.Data.Finset.Card
import Mathlib.Algebra.Order.Ring.Int
import Mathlib.Algebra.Field.Rat

/-!
# The billing export

Rows of exported usage, the windows that are compared, and what a query says of the rows in a window.
Times are in microseconds; those of a window are by the clock of Bogota.
-/

set_option linter.dupNamespace false

namespace Costs

open Gregorian Groups

def hour : ℤ := 3600000000
def day : ℤ := 86400000000

def projectId : String := "cgm-assistant-prod"

/-- A row of the export. Columns of texts may have no value. -/
structure Row where
  project : Option String
  costType : Option String
  service : Option String
  resource : Option String
  globalName : Option String
  skuId : Option String
  skuDescription : Option String
  currency : Option String
  start : ℤ
  finish : ℤ
  exported : ℤ
  cost : ℚ
  credits : ℚ

def Row.net (r : Row) : ℚ := r.cost + r.credits

/-! ## Windows -/

/-- A time of a day in Bogota. -/
structure DateTime where
  date : Date
  time : ℤ
  time_mem : 0 ≤ time ∧ time < day

/-- Midnight of a date. -/
def midnight (d : Date) : ℤ := ordinal.count d * day

def DateTime.wall (d : DateTime) : ℤ := midnight d.date + d.time

/-- `replace(day=1)`. -/
def firstOfMonth (d : Date) : Date := Date.first d.year d.month d.month_mem

/-- The last day of the month before, of the first day of a month. -/
def dayBefore (d : Date) : Date :=
  if h : 1 < d.month then
    ⟨d.year, d.month - 1, monthLength d.year (d.month - 1), by have := d.month_mem; omega, monthLength_pos _ _, le_rfl⟩
  else ⟨d.year - 1, 12, monthLength (d.year - 1) 12, by omega, monthLength_pos _ _, le_rfl⟩

inductive Raised
  | valueError
  | overflowError
  deriving DecidableEq

/-- Two windows, the current one and that before it. -/
structure Windows where
  start : ℤ
  finish : ℤ
  prevStart : ℤ
  prevFinish : ℤ

/-- `_windows`. No date is before the year 1. -/
def windows (days : ℤ) (monthToDate : Bool) (now : DateTime) : Except Raised Windows :=
  if ¬(1 ≤ days ∧ days ≤ 365) then .error .valueError
  else
    let start := if monthToDate then midnight (firstOfMonth now.date) else midnight now.date - (days - 1) * day
    let previous := if monthToDate then midnight (firstOfMonth (dayBefore (firstOfMonth now.date)))
      else start - days * day
    if previous < day then .error .overflowError
    else .ok ⟨start, now.wall, previous, previous + min (now.wall - start) (start - previous)⟩

/-! ## Queries -/

/-- What is outside: the table, whether a query is answered, whose resources are visible, the offset of
Bogota's clock at a time by it, and how the answer of a query is ordered. -/
structure Site (ε : Type) where
  table : Bool
  answers : ℕ → Bool
  visible : Option (List String)
  offset : ℤ → ℤ
  order : List ε → List ε
  order_perm : ∀ l, (order l).Perm l

/-- The instant of a time by the clock. -/
def utc (offset : ℤ → ℤ) (wall : ℤ) : ℤ := wall - offset wall

/-- `_where`. -/
def selects (visible : Option (List String)) (start finish asOf : ℤ) (r : Row) : Bool :=
  r.project = some projectId && r.costType = some "regular" && decide (start ≤ r.start) && decide (r.start < finish) &&
    decide (r.finish ≤ finish) && decide (r.exported ≤ asOf) &&
    match visible with
    | none => true
    | some names => r.globalName.any (· ∈ names)

inductive GroupBy
  | resource
  | service
  | sku

/-- `service_name` of `_ITEMS_DIMENSIONS`. -/
def GroupBy.serviceName : GroupBy → Row → String
  | .resource, r => r.resource.getD ""
  | .service, _ => ""
  | .sku, r => r.skuDescription.getD ""

/-- What rows are grouped by. -/
structure Dimensions where
  project : Option String
  service : Option String
  name : String
  currency : Option String
  deriving DecidableEq

def Row.dimensions (g : GroupBy) (r : Row) : Dimensions := ⟨r.project, r.service, g.serviceName r, r.currency⟩

/-- `component_id`. -/
def Row.componentId (r : Row) : String × String := (r.resource.getD "", r.skuId.getD "")

def Row.attributed (r : Row) : Bool := r.resource.getD "" ≠ "" && r.skuId.getD "" ≠ ""

/-- The observed coverage of a component. -/
structure Component where
  id : String × String
  attributed : Bool
  cost : ℚ
  credits : ℚ
  first : Option ℤ
  latest : Option ℤ
  hours : ℕ

/-- The row of `components` for a group of rows. -/
def componentOf (id : String × String) (rows : List Row) : Component where
  id := id
  attributed := rows.all Row.attributed
  cost := (rows.map Row.cost).sum
  credits := (rows.map Row.credits).sum
  first := (rows.map Row.start).min?
  latest := (rows.map Row.finish).max?
  hours := (rows.map fun r => r.start / hour).dedup.length

structure Key where
  project : String
  service : String
  name : String
  currency : String
  deriving DecidableEq

/-- `CostItem`. -/
structure Item where
  key : Key
  cost : ℚ
  credits : ℚ
  net : ℚ
  first : Option ℤ
  latest : Option ℤ
  hours : ℕ
  components : List Component

/-- The key of an item; there is no item without a currency. -/
def Dimensions.key (d : Dimensions) (currency : String) : Key :=
  ⟨d.project.getD projectId, d.service.getD "", d.name, currency⟩

/-- The components of a group of rows. -/
def componentsOf (rows : List Row) : List Component := (groupBy Row.componentId rows).map fun g => componentOf g.1 g.2

/-- The item of a group of rows. -/
def itemOf (key : Key) (rows : List Row) : Item :=
  let components := componentsOf rows
  { key := key
    cost := (components.map Component.cost).sum
    credits := (components.map Component.credits).sum
    net := (components.map Component.cost).sum + (components.map Component.credits).sum
    first := (components.filterMap Component.first).min?
    latest := (components.filterMap Component.latest).max?
    hours := (components.map Component.hours).foldl max 0
    components := components }

/-- The items that the rows of a window are grouped to. -/
def itemsOf (order : List Item → List Item) (g : GroupBy) (rows : List Row) : Option (List Item) :=
  ((groupBy (Row.dimensions g) rows).mapM fun group : Dimensions × List Row =>
    group.1.currency.map fun currency => itemOf (group.1.key currency) group.2).map order

inductive Status
  | partialData
  | noData
  | unavailable
  | mixedCurrency
  deriving DecidableEq

/-- `CostSummary`. -/
structure Summary where
  status : Status
  latestUsage : Option ℤ
  items : List Item
  currency : String
  totalNet : Option ℚ

/-- The rows of a window. -/
def Site.selected (site : Site Item) (rows : List Row) (asOf start finish : ℤ) : List Row :=
  rows.filter (selects site.visible (utc site.offset start) (utc site.offset finish) asOf)

/-- The summary of the rows of a window, with their items if the queries are answered. -/
def summaryOf (selected : List Row) : Option (List Item) → Summary
  | none => ⟨.unavailable, none, [], "USD", none⟩
  | some items =>
    if selected = [] then ⟨.noData, none, items, "USD", none⟩
    else
      match (selected.filterMap Row.currency).dedup with
      | [currency] =>
        ⟨.partialData, (selected.map Row.finish).max?, items, currency, some (selected.map Row.net).sum⟩
      | _ => ⟨.mixedCurrency, (selected.map Row.finish).max?, items, "mixed", none⟩

/-- `_summary`, as the `n`-th query. -/
def summary (site : Site Item) (rows : List Row) (g : GroupBy) (asOf : ℤ) (n : ℕ) (start finish : ℤ) : Summary :=
  let selected := site.selected rows asOf start finish
  summaryOf selected (if site.table && site.answers n then itemsOf site.order g selected else none)

end Costs
