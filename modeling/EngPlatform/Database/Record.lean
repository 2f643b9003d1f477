import Mathlib.Data.List.AList
import Mathlib.Data.Finset.Attr
import Mathlib.Tactic.SplitIfs
import Mathlib.Algebra.GroupWithZero.Nat

/-!
# The control rows and the objects of a database execution

The rows of the control store (workspaces, sessions, the active policy, requests, executions,
exports and the result budget), the private objects that a capture consists of, and the
transactions on the rows. A transaction reads the rows it names and writes some of them, or raises
and writes nothing.
-/

set_option linter.dupNamespace false

namespace Database

/-- `time.time()`, in microseconds. -/
abbrev Time := ℕ

def seconds (n : ℕ) : Time := n * 1000000

def wallSeconds : Time := seconds 240
def workerSeconds : Time := seconds 270
def dispatchSeconds : Time := seconds 300
def ttlSeconds : Time := seconds 3600
def userBytes : ℕ := 536870912
def globalBytes : ℕ := 2147483648
def chunkBytes : ℕ := 1048576
def snapshotBytes : ℕ := 268435456
def cellBytes : ℕ := 16384
def rowBytes : ℕ := 65536

/-- What is raised: an `HTTPException`, a `DatabaseUnavailable`, or another exception by its class
name. -/
inductive Raised
  | http (code : ℕ) (detail : String)
  | unavailable (detail : String)
  | other (name : String)
  deriving DecidableEq, Repr

inductive State
  | queued
  | running
  | completed
  | failed
  | cancelled
  | expired
  | purged
  deriving DecidableEq, Repr

inductive WorkspaceState
  | active
  | purged
  deriving DecidableEq, Repr

inductive Folder
  | inputs
  | results
  deriving DecidableEq, Repr

/-- The names of objects: `query.json`, `chunk-{index:06d}.ndjson`, `manifest.json` and
`export-{id}.xlsx`. -/
inductive Name
  | query
  | chunk (index : ℕ)
  | manifest
  | exported (id : String)
  deriving DecidableEq, Repr

def Name.folder : Name → Folder
  | .query => .inputs
  | _ => .results

/-- `{folder}/{execution}/{name}`. -/
structure Path where
  execution : String
  name : Name
  deriving DecidableEq, Repr

/-- An object by its exact generation and hash. -/
structure Reference where
  object : Path
  generation : ℕ
  sha256 : String
  bytes : ℕ
  deriving DecidableEq, Repr

structure Chunk where
  reference : Reference
  rowStart : ℕ
  rowCount : ℕ
  deriving DecidableEq, Repr

structure Column where
  key : String
  name : String
  dataType : String
  deriving DecidableEq, Repr

structure Manifest where
  executionId : String
  columns : List Column
  chunks : List Chunk
  rowCount : ℕ
  bytes : ℕ
  deriving DecidableEq, Repr

/-- A row, by the JSON texts of its cells. -/
abbrev Row := List String

inductive Blob
  | sql (statement : String)
  | rows (rows : List Row)
  | manifest (m : Manifest)
  | other (text : String)
  deriving DecidableEq, Repr

structure Object where
  path : Path
  generation : ℕ
  blob : Blob
  deriving DecidableEq, Repr

structure Workspace where
  workspaceId : String
  databaseId : String
  sessionId : String
  policyVersion : String
  state : WorkspaceState
  expiresAt : Time
  executionId : Option String
  executionCount : ℕ
  cleanupDone : Bool
  deriving DecidableEq, Repr

structure Session where
  sessionId : String
  revoked : Bool
  expiresAt : Time
  fromMcp : Bool
  workspaceIds : List String
  deriving DecidableEq, Repr

structure Policy where
  enabled : Bool
  version : String
  fingerprint : String
  deriving DecidableEq, Repr

structure RequestRow where
  requestId : String
  workspaceId : String
  executionId : String
  fingerprint : String
  expiresAt : Time
  deriving DecidableEq, Repr

structure Execution where
  executionId : String
  workspaceId : String
  databaseId : String
  sessionId : String
  login : String
  policyVersion : String
  state : State
  createdAt : Time
  dispatchDeadline : Time
  expiresAt : Time
  input : Option Reference
  columns : List Column
  rowCount : Option ℕ
  elapsedMs : Option ℕ
  manifest : Option Reference
  errorCode : Option String
  claim : Option String
  startedAt : Time
  workerDeadline : Time
  bytes : ℕ
  cleanupDone : Bool
  deriving DecidableEq, Repr

structure Export where
  exportId : String
  executionId : String
  state : State
  file : Option Reference
  workerDeadline : Time
  expiresAt : Time
  cleanupDone : Bool
  deriving DecidableEq, Repr

structure Reservation where
  owner : String
  bytes : ℕ
  deriving DecidableEq, Repr

/-- A collection of rows by their identities. -/
abbrev Rows (α : Type) := AList (fun _ : String => α)

/-- The rows of the control store, the objects, the next generation, and the clock. A budget that
was never written reads as an empty one. -/
structure Store where
  workspaces : Rows Workspace
  sessions : Rows Session
  policy : Option Policy
  requests : Rows RequestRow
  executions : Rows Execution
  exports : Rows Export
  reservations : Rows Reservation
  objects : List Object
  generation : ℕ
  now : Time
  deriving DecidableEq

/-- The deployment: `policy_fingerprint()`, whether MCP sessions are served, the SHA-256 of a text
and of an object, and the lengths of the JSON that `_encode` gives. -/
structure Settings where
  fingerprint : String
  mcpEnabled : Bool
  sha256 : String → String
  objectSha256 : Blob → String
  textBytes : String → ℕ
  sqlBytes : String → ℕ
  columnsBytes : List Column → ℕ
  manifestBytes : Manifest → ℕ

/-- The length of `_encode(row)`, a list of cells without blanks between them. -/
def Row.bytes (row : Row) : ℕ :=
  2 + (row.map String.utf8ByteSize).sum + (row.length - 1)

/-- A change of one row, if it exists. -/
def Rows.modify {α : Type} (rows : Rows α) (key : String) (f : α → α) : Rows α :=
  match rows.lookup key with
  | some a => rows.insert key (f a)
  | none => rows

theorem Rows.lookup_modify {α : Type} (rows : Rows α) (key id : String) (f : α → α) :
    (rows.modify key f).lookup id = if id = key then (rows.lookup key).map f else rows.lookup id := by
  unfold Rows.modify
  by_cases h : id = key
  · subst h
    rw [if_pos rfl]
    rcases hr : rows.lookup id with _ | a
    · exact hr
    · exact AList.lookup_insert rows
  · rw [if_neg h]
    rcases rows.lookup key with _ | a
    · rfl
    · exact AList.lookup_insert_ne h

/-- `_reserve`. -/
def reserve (control : Rows Reservation) (identity owner : String) (size : ℕ) :
    Except Raised (Rows Reservation) :=
  let others := ((control.entries.filter (·.1 ≠ identity)).map (·.2))
  if identity ∉ control ∧ 128 ≤ control.entries.length then
    .error (.http 429 "Database result budget is full")
  else if globalBytes < (others.map (·.bytes)).sum + size ∨
      userBytes < ((others.filter (·.owner = owner)).map (·.bytes)).sum + size then
    .error (.http 429 "Database result storage budget is full")
  else
    .ok (control.insert identity ⟨owner, size⟩)

/-- What `run_query` publishes. -/
structure Capture where
  manifest : Reference
  columns : List Column
  rowCount : ℕ
  bytes : ℕ
  elapsedMs : ℕ
  deriving DecidableEq, Repr

/-- The transactions, with the values that their closures capture. -/
inductive Txn
  | reserveStaging (identity owner : String)
  | insert (value : Execution) (requestId fingerprint : String) (expiresAt : Time)
  | claim (identity token : String)
  | finish (identity : String) (claim : Option String) (state : State) (error : Option String)
      (changes : Option Capture)
  | release (identity : String)
  | close (identity : String) (claim : Option String)
  | purgeWorkspace (workspaceId : String)
  | invalidate (identity : String)
  | removeExport (exportId : String)
  | expire (identity : String)
  | cleaned (identity : String) (exports : List String)
  | tombstone (workspaceId : String)
  | forgetRequest (requestId : String)
  | forgetSession (sessionId : String)
  | forgetWorkspace (workspaceId sessionId : String)
  | forgetExecution (identity : String)
  deriving DecidableEq, Repr

/-- What the closure leaves in its captured variables. -/
@[reducible] def Txn.Reply : Txn → Type
  | .insert _ _ _ _ => String
  | .claim _ _ => Option Execution
  | _ => Unit

section

variable (cfg : Settings) (s : Store)

/-- The session and the policy still admit the execution. -/
def permitted (value : Execution) : Bool :=
  match s.sessions.lookup value.sessionId, s.policy with
  | some session, some policy =>
    !session.revoked && s.now < session.expiresAt && policy.enabled &&
      policy.version = value.policyVersion && policy.fingerprint = cfg.fingerprint
  | _, _ => false

/-- The conditions of a publication, read in the transaction that makes it. -/
def publishable (value : Execution) : Bool :=
  match s.workspaces.lookup value.workspaceId, s.sessions.lookup value.sessionId with
  | some place, some session =>
    place.state = .active && s.now < place.expiresAt && permitted cfg s value &&
      !(session.fromMcp && !cfg.mcpEnabled)
  | _, _ => false

/-- `_claim`'s change of a queued row. -/
def Execution.claimed (e : Execution) (token : String) (now : Time) : Execution :=
  if e.expiresAt ≤ now then
    { e with state := .expired, errorCode := some "RESULT_EXPIRED" }
  else if e.dispatchDeadline ≤ now then
    { e with state := .failed, errorCode := some "DISPATCH_FAILED" }
  else
    { e with
      state := .running
      claim := some token
      startedAt := now
      workerDeadline := now + workerSeconds }

/-- `_finish` leaves a settled row alone, and the row of another claim. -/
def Execution.finishable (e : Execution) (claim : Option String) (state : State) : Bool :=
  (e.state = .queued || e.state = .running) &&
    !(claim.isNone && e.state = .running && state = .failed) &&
    (claim.isNone || e.claim = claim)

/-- What `_finish` settles a row to. -/
def settledState (e : Execution) (state : State) : State :=
  if e.expiresAt ≤ s.now then .expired
  else if state = .completed ∧ publishable cfg s e = false then .cancelled
  else state

def Execution.capture (e : Execution) : Option Capture → Execution
  | some c =>
    { e with
      manifest := some c.manifest
      columns := c.columns
      rowCount := some c.rowCount
      bytes := c.bytes
      elapsedMs := some c.elapsedMs }
  | none => e

def Execution.settled (e : Execution) (state : State) (error : Option String)
    (changes : Option Capture) (now : Time) : Execution :=
  let e := { e.capture changes with state := state, errorCode := error, input := none }
  if state = .completed then { e with expiresAt := now + ttlSeconds }
  else { e with manifest := none, columns := [] }

def Execution.emptied (e : Execution) (state : State) : Execution :=
  { e with state := state, manifest := none, input := none, columns := [] }

/-- `purged` stays, and everything else is expired. -/
def State.retired (state : State) : State := if state = .purged then .purged else .expired

/-- The change of `create_execution`: the row of the request that was seen before, or a new one. -/
def insertExecution (value : Execution) (requestId fingerprint : String) (expiresAt : Time) :
    Except Raised (Store × String) :=
  match s.workspaces.lookup value.workspaceId with
  | none => .error (.http 410 "Database workspace is unavailable")
  | some place =>
    if place.state ≠ .active ∨ place.expiresAt ≤ s.now then
      .error (.http 410 "Database workspace is unavailable")
    else if permitted cfg s value = false then
      .error (.http 403 "Database permission changed")
    else
      match s.requests.lookup requestId with
      | some record =>
        if record.fingerprint ≠ fingerprint then
          .error (.http 409 "Database request identity conflicts")
        else .ok (s, record.executionId)
      | none =>
        if 256 ≤ place.executionCount then
          .error (.http 429 "Database workspace execution budget is full")
        else
          (reserve s.reservations value.executionId value.login snapshotBytes).map fun control =>
            ({ s with
              reservations := control
              executions := s.executions.insert value.executionId value
              workspaces := s.workspaces.insert value.workspaceId
                { place with
                  executionId := some value.executionId
                  executionCount := place.executionCount + 1 }
              requests := s.requests.insert requestId
                ⟨requestId, value.workspaceId, value.executionId, fingerprint, expiresAt⟩ },
              value.executionId)

/-- The change of `_claim`. -/
def claimExecution (identity token : String) : Store × Option Execution :=
  match s.executions.lookup identity with
  | none => (s, none)
  | some value =>
    if value.state ≠ .queued then (s, none)
    else
      ({ s with executions := s.executions.insert identity (value.claimed token s.now) },
        if (value.claimed token s.now).state = .running then some (value.claimed token s.now)
        else none)

/-- The change of `_finish`. -/
def finishExecution (identity : String) (claim : Option String) (state : State)
    (error : Option String) (changes : Option Capture) : Store :=
  match s.executions.lookup identity with
  | none => s
  | some value =>
    if value.finishable claim state = false then s
    else
      let state := settledState cfg s value state
      let value := value.settled state error changes s.now
      { s with
        executions := s.executions.insert identity value
        reservations :=
          if state = .completed then
            s.reservations.modify identity fun r => { r with bytes := value.bytes }
          else s.reservations }

def Txn.run : (t : Txn) → Except Raised (Store × t.Reply)
  | .reserveStaging identity owner =>
    (reserve s.reservations identity owner snapshotBytes).map fun control =>
      ({ s with reservations := control }, ())
  | .insert value requestId fingerprint expiresAt =>
    insertExecution cfg s value requestId fingerprint expiresAt
  | .claim identity token => .ok (claimExecution s identity token)
  | .finish identity token state error changes =>
    .ok (finishExecution cfg s identity token state error changes, ())
  | .release identity => .ok ({ s with reservations := s.reservations.erase identity }, ())
  | .close identity token =>
    .ok ({ s with
      executions := s.executions.modify identity fun e =>
        if e.claim = token then { e with workerDeadline := 0 } else e }, ())
  | .purgeWorkspace workspaceId =>
    .ok ({ s with
      workspaces := s.workspaces.modify workspaceId fun w =>
        { w with state := .purged, expiresAt := min w.expiresAt s.now } }, ())
  | .invalidate identity =>
    .ok ({ s with executions := s.executions.modify identity fun e => e.emptied .purged }, ())
  | .removeExport exportId =>
    .ok ({ s with
      exports := s.exports.modify exportId fun x => { x with state := .purged, file := none } }, ())
  | .expire identity =>
    .ok ({ s with
      executions := s.executions.modify identity fun e => e.emptied e.state.retired }, ())
  | .cleaned identity exports =>
    .ok ({ s with
      executions := s.executions.modify identity fun e =>
        { e.emptied e.state.retired with cleanupDone := true, expiresAt := s.now + ttlSeconds }
      exports := exports.foldl (fun rows x => rows.modify x fun v =>
        { v with
          state := v.state.retired
          file := none
          cleanupDone := true
          expiresAt := s.now + ttlSeconds }) s.exports }, ())
  | .tombstone workspaceId =>
    .ok ({ s with
      workspaces := s.workspaces.modify workspaceId fun w =>
        { w with cleanupDone := true, expiresAt := s.now + ttlSeconds } }, ())
  | .forgetRequest requestId => .ok ({ s with requests := s.requests.erase requestId }, ())
  | .forgetSession sessionId => .ok ({ s with sessions := s.sessions.erase sessionId }, ())
  | .forgetWorkspace workspaceId sessionId =>
    .ok ({ s with
      workspaces := s.workspaces.erase workspaceId
      sessions := s.sessions.modify sessionId fun v =>
        { v with workspaceIds := v.workspaceIds.filter (· ≠ workspaceId) } }, ())
  | .forgetExecution identity => .ok ({ s with executions := s.executions.erase identity }, ())

end

/-- The object at a path, if there is one. -/
def Store.object (s : Store) (path : Path) : Option Object :=
  s.objects.find? fun o => o.path = path

/-- An upload with `if_generation_match=0` creates the object, and never replaces one. -/
def Store.put (s : Store) (path : Path) (blob : Blob) : Option Store :=
  if (s.object path).isSome then none
  else some { s with
    objects := s.objects ++ [⟨path, s.generation, blob⟩]
    generation := s.generation + 1 }

/-- A deletion of one generation of an object. -/
def Store.remove (s : Store) (path : Path) (generation : ℕ) : Store :=
  { s with objects := s.objects.filter fun o => ¬(o.path = path ∧ o.generation = generation) }

/-- The objects of a folder of an execution, `max_results` at most. -/
def Store.listing (s : Store) (folder : Folder) (execution : String) (limit : ℕ) : List Object :=
  (s.objects.filter fun o => o.path.name.folder = folder ∧ o.path.execution = execution).take limit

def State.isTerminal : State → Bool
  | .queued | .running => false
  | _ => true

end Database
