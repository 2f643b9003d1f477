import EngPlatform.Lib.Queries
import Mathlib.Data.List.MinMax
import Mathlib.Order.Lex

/-!
# The deployment store in Firestore and in the local file

A record is a deployment item with its idempotency key; a legacy record may miss its status or its
time of creation, and reads as the model's defaults. `save` writes the record of an item and takes
its key from the record that had it. The Firestore side reads by queries, counts and pages, and
the local side scans a list.
-/

set_option linter.dupNamespace false

namespace Deployment

open Queries

inductive Status
  | queued
  | verifyingRelease
  | building
  | deployingCandidate
  | validatingCandidate
  | promoting
  | validatingProduction
  | succeeded
  | failed
  | rollingBack
  | rolledBack
  | rollbackFailed
  | unknown
  deriving DecidableEq

def Status.text : Status → String
  | .queued => "QUEUED"
  | .verifyingRelease => "VERIFYING_RELEASE"
  | .building => "BUILDING"
  | .deployingCandidate => "DEPLOYING_CANDIDATE"
  | .validatingCandidate => "VALIDATING_CANDIDATE"
  | .promoting => "PROMOTING"
  | .validatingProduction => "VALIDATING_PRODUCTION"
  | .succeeded => "SUCCEEDED"
  | .failed => "FAILED"
  | .rollingBack => "ROLLING_BACK"
  | .rolledBack => "ROLLED_BACK"
  | .rollbackFailed => "ROLLBACK_FAILED"
  | .unknown => "UNKNOWN"

/-- `_TERMINAL_STORE_STATUSES`. -/
def terminalStatuses : List Status := [.succeeded, .failed, .rolledBack, .rollbackFailed]

variable {ρ : Type}

/-- `rest` is every field that the store only carries. -/
structure Item (ρ : Type) where
  id : String
  serviceName : String
  status : Status
  createdAt : String
  rest : ρ

structure Record (ρ : Type) where
  id : String
  serviceName : String
  status : Option Status
  createdAt : Option String
  idempotencyKey : Option String
  rest : ρ

/-- `DeploymentItem(**record)`, with the defaults of the model. -/
def Record.item (r : Record ρ) : Item ρ where
  id := r.id
  serviceName := r.serviceName
  status := r.status.getD .queued
  createdAt := r.createdAt.getD ""
  rest := r.rest

/-- `item.model_dump()` with a key. -/
def Item.record (item : Item ρ) (key : String) : Record ρ where
  id := item.id
  serviceName := item.serviceName
  status := some item.status
  createdAt := some item.createdAt
  idempotencyKey := some key
  rest := item.rest

def Record.key (r : Record ρ) : String := r.idempotencyKey.getD ""

def Record.unfinished (r : Record ρ) : Bool := r.status.all (· ∉ terminalStatuses)

instance : Document (Record ρ) where
  name := Record.id
  field f r :=
    match f with
    | "service_name" => some (.text r.serviceName)
    | "status" => r.status.map (.text ·.text)
    | "created_at" => r.createdAt.map .text
    | "idempotency_key" => r.idempotencyKey.map .text
    | _ => none

/-- The key of the sorts, by time of creation and then by id. -/
def Item.age (item : Item ρ) : String ×ₗ String := toLex (item.createdAt, item.id)

/-- `items.sort(key=…, reverse=True)`. -/
def newestFirst (items : List (Item ρ)) : List (Item ρ) :=
  sortBy (fun item => OrderDual.toDual item.age) items

/-! ## Firestore -/

namespace Firestore

variable (docs : List (Record ρ))

/-- The collection after a document has been set. -/
def put (record : Record ρ) : List (Record ρ) := record :: docs.filter (·.id ≠ record.id)

def delete (id : String) : List (Record ρ) := docs.filter (·.id ≠ id)

def document (id : String) : Option (Record ρ) := docs.find? (·.id = id)

def recordOfKey (key : String) : Option (Record ρ) :=
  if key = "" then none
  else ((Query.all.whereEq "idempotency_key" (.text key)).run docs |>.take 1).head?

def save (item : Item ρ) (key : String) : List (Record ρ) :=
  let previousIntent := recordOfKey docs key
  let previousKey := ((document docs item.id).map (·.key)).getD ""
  let saved := put docs (item.record (if key = "" then previousKey else key))
  match previousIntent with
  | some intent => if intent.id = item.id then saved else delete saved intent.id
  | none => saved

def get (id : String) : Option (Item ρ) := (document docs id).map (·.item)

def idempotencyKeyFor (id : String) : String := ((document docs id).map (·.key)).getD ""

def findByIdempotencyKey (key : String) : Option (Item ρ) := (recordOfKey docs key).map (·.item)

def ofService (service : String) : Query (Record ρ) :=
  Query.all.whereEq "service_name" (.text service)

def newest (service : String) : Query (Record ρ) := (ofService service).orderBy "created_at" true

def listForServiceWithTotal (service : String) (limit : ℕ) : List (Item ρ) × ℕ :=
  let total := (ofService service).count docs
  if (newest service).count docs ≠ total then
    let items := ((ofService service).iterPages docs 200).map (·.item)
    ((newestFirst items).take limit, total)
  else (((newest service).run docs |>.take limit).map (·.item), total)

def latestForService (hasLegacy : Bool) (service : String) : Option (Item ρ) :=
  if hasLegacy ∧ (ofService service).count docs ≠ (newest service).count docs then
    (((ofService service).iterPages docs 200).map (·.item)).argmax Item.age
  else ((newest service).run docs |>.take 1).head?.map (·.item)

def latestForServices (services : List String) : List (String × Item ρ) :=
  let hasLegacy := Query.all.count docs ≠ (Query.all.orderBy "created_at" false).count docs
  services.eraseDups.filterMap fun service =>
    (latestForService docs hasLegacy service).map (service, ·)

def countForService (service : String) : ℕ := (ofService service).count docs

def iterUnfinished (pageSize : ℕ) : List (Item ρ) :=
  let query :=
    if (Query.all.whereNotNull "status").count docs ≠ Query.all.count docs then Query.all
    else Query.all.whereNotIn "status" (terminalStatuses.map (.text ·.text))
  let records := query.iterPages docs pageSize
  sortBy Item.age ((records.filter (·.unfinished)).map (·.item))

end Firestore

/-! ## The local file -/

namespace LocalFile

variable (records : List (Record ρ))

def record (id : String) : Option (Record ρ) := records.find? (·.id = id)

def save (item : Item ρ) (key : String) : List (Record ρ) :=
  let previousKey := ((record records item.id).map (·.key)).getD ""
  records.filter (fun r => r.id ≠ item.id ∧ (key = "" ∨ r.idempotencyKey ≠ some key))
    ++ [item.record (if key = "" then previousKey else key)]

def get (id : String) : Option (Item ρ) := (record records id).map (·.item)

def idempotencyKeyFor (id : String) : String := ((record records id).map (·.key)).getD ""

def findByIdempotencyKey (key : String) : Option (Item ρ) :=
  if key = "" then none else (records.find? (·.idempotencyKey = some key)).map (·.item)

def listForServiceWithTotal (service : String) (limit : ℕ) : List (Item ρ) × ℕ :=
  let items := (records.filter (·.serviceName = service)).map (·.item)
  ((newestFirst items).take limit, items.length)

def latestForServices (services : List String) : List (String × Item ρ) :=
  let items := (records.filter (·.serviceName ∈ services)).map (·.item)
  (newestFirst items).foldl (fun latest item =>
    if (latest.lookup item.serviceName).isSome then latest
    else latest ++ [(item.serviceName, item)]) []

def countForService (service : String) : ℕ := records.countP (·.serviceName = service)

def iterUnfinished : List (Item ρ) :=
  sortBy Item.age ((records.filter (·.unfinished)).map (·.item))

end LocalFile

end Deployment
