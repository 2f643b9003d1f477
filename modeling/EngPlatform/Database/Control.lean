import EngPlatform.Database.Record

/-!
# The control store of the database jobs

The rows of executions, exports and sorted views, by kind and identity, the budget document with
its permits and reservations, and the transactions of `database_jobs` and `database_views` on them.
A transaction reads the documents it names and writes some of them, or raises and writes nothing.
-/

set_option linter.dupNamespace false

namespace Control

open Database

def exportBytes : ℕ := 268435456
def permitSeconds : Time := seconds 330
def maxViews : ℕ := 16

inductive Kind
  | execution
  | exported
  | view
  deriving DecidableEq, Repr

/-- A row of any of the three kinds. An execution is its own `executionId`, and a field that a kind
does not have keeps its default. -/
structure Job where
  executionId : String
  sourceViewId : Option String
  workspaceId : String
  databaseId : String
  sessionId : String
  login : String
  policyVersion : String
  state : State
  createdAt : Time
  dispatchDeadline : Time
  expiresAt : Time
  input : Option Reference
  columns : List Column
  rowCount : Option ℕ
  elapsedMs : Option ℕ
  manifest : Option Reference
  file : Option Reference
  errorCode : Option String
  claim : Option String
  startedAt : Time
  workerDeadline : Time
  bytes : ℕ
  exportId : Option String
  viewIds : List String
  artifactCleaned : Bool
  cleanupDone : Bool
  deriving DecidableEq, Repr

/-- What the creation of a row takes from the request and from the documents it has read. -/
structure Draft where
  executionId : String
  sourceViewId : Option String
  workspaceId : String
  databaseId : String
  sessionId : String
  login : String
  policyVersion : String
  createdAt : Time
  expiresAt : Time
  input : Option Reference
  columns : List Column
  deriving DecidableEq, Repr

/-- The row of a draft, with the fields that all three kinds start with. -/
def Draft.queued (d : Draft) : Job where
  executionId := d.executionId
  sourceViewId := none
  workspaceId := d.workspaceId
  databaseId := d.databaseId
  sessionId := d.sessionId
  login := d.login
  policyVersion := d.policyVersion
  state := .queued
  createdAt := d.createdAt
  dispatchDeadline := d.createdAt + dispatchSeconds
  expiresAt := d.expiresAt
  input := none
  columns := []
  rowCount := none
  elapsedMs := none
  manifest := none
  file := none
  errorCode := none
  claim := none
  startedAt := 0
  workerDeadline := 0
  bytes := 0
  exportId := none
  viewIds := []
  artifactCleaned := false
  cleanupDone := false

/-- The row of `create_execution`; the draft expires with the workspace. -/
def Draft.execution (d : Draft) : Job :=
  { d.queued with
    input := d.input
    expiresAt := min d.expiresAt (d.createdAt + ttlSeconds) }

/-- The row of `create_export`; the draft expires with its source. -/
def Draft.exported (d : Draft) : Job :=
  { d.queued with sourceViewId := d.sourceViewId }

/-- The row of `create_view`; the draft has its source's expiry and columns. -/
def Draft.view (d : Draft) : Job :=
  { d.queued with columns := d.columns }

inductive Operation
  | query
  | metadata
  | read
  | exports
  deriving DecidableEq, Repr

def Operation.maximum : Operation → ℕ
  | .query | .metadata | .read => 2
  | .exports => 1

structure Permit where
  kind : Operation
  owner : String
  role : String
  expiresAt : Time
  deriving DecidableEq, Repr

/-- A request row names an execution or a view. -/
structure Request where
  fingerprint : String
  executionId : Option String
  viewId : Option String
  expiresAt : Time
  deriving DecidableEq, Repr

/-- What the transactions read of the deployment. -/
structure Config where
  fingerprint : String
  mcpEnabled : Bool
  deriving DecidableEq, Repr

structure Store where
  jobs : AList fun _ : Kind × String => Job
  workspaces : Rows Workspace
  sessions : Rows Session
  policy : Option Policy
  requests : Rows Request
  permits : Rows Permit
  reservations : Rows Reservation
  now : Time
  deriving DecidableEq

def Store.job (s : Store) (k : Kind) (identity : String) : Option Job := s.jobs.lookup (k, identity)

def Store.insert (s : Store) (k : Kind) (identity : String) (value : Job) : Store :=
  { s with jobs := s.jobs.insert (k, identity) value }

/-- A change of one row, if it exists. -/
def Store.modify (s : Store) (k : Kind) (identity : String) (f : Job → Job) : Store :=
  match s.job k identity with
  | some value => s.insert k identity (f value)
  | none => s

/-! ## The changes of a row -/

/-- `_claim`'s change of a queued row. -/
def Job.claimed (j : Job) (token : String) (now : Time) : Job :=
  if j.expiresAt ≤ now then
    { j with state := .expired, errorCode := some "RESULT_EXPIRED" }
  else if j.dispatchDeadline ≤ now then
    { j with state := .failed, errorCode := some "DISPATCH_FAILED" }
  else
    { j with
      state := .running
      claim := some token
      startedAt := now
      workerDeadline := now + workerSeconds }

/-- `_finish` leaves a settled row alone, and the row of another claim. -/
def Job.finishable (j : Job) (claim : Option String) (state : State) : Bool :=
  (j.state = .queued || j.state = .running) &&
    !(claim.isNone && j.state = .running && state = .failed) &&
    (claim.isNone || j.claim = claim)

/-- The changes that `run_query`, `run_export` and `run_sort` publish. -/
inductive Changes
  | captured (manifest : Reference) (columns : List Column) (rowCount bytes elapsedMs : ℕ)
  | exported (file : Reference)
  | sorted (manifest : Reference) (bytes rowCount elapsedMs : ℕ)
  deriving DecidableEq, Repr

def Changes.apply (j : Job) : Changes → Job
  | .captured manifest columns rowCount bytes elapsedMs =>
    { j with
      manifest := some manifest
      columns := columns
      rowCount := some rowCount
      bytes := bytes
      elapsedMs := some elapsedMs }
  | .exported file => { j with file := some file, bytes := file.bytes }
  | .sorted manifest bytes rowCount elapsedMs =>
    { j with
      manifest := some manifest
      bytes := bytes
      rowCount := some rowCount
      elapsedMs := some elapsedMs }

def Job.changed (j : Job) : Option Changes → Job
  | some changes => changes.apply j
  | none => j

/-- `_finish`'s change of a row that it settles to a state. -/
def Job.settled (j : Job) (k : Kind) (state : State) (error : Option String)
    (changes : Option Changes) (now : Time) : Job :=
  let j := { j.changed changes with state := state, errorCode := error, input := none }
  if state = .completed then
    if k = .execution then { j with expiresAt := now + ttlSeconds } else j
  else { j with manifest := none, file := none, columns := [] }

/-- `purge_workspace_id.invalidate`. -/
def Job.purged (j : Job) : Job :=
  { j with state := .purged, columns := [], manifest := none, input := none }

/-- `purge_workspace_id.remove`, and what `cleanup_view` does to a pending export of its view. -/
def Job.removed (j : Job) : Job := { j with state := .purged, file := none }

/-- `cleanup.expire`. -/
def Job.expire (j : Job) : Job :=
  { j with state := j.state.retired, manifest := none, input := none, columns := [] }

/-- `_cleaned_execution`. -/
def Job.cleaned (j : Job) (now : Time) : Job :=
  { j with
    cleanupDone := true
    expiresAt := now + ttlSeconds
    manifest := none
    input := none
    columns := []
    file := none
    state := j.state.retired }

/-- `_cleanup_export.cleaned`. -/
def Job.artifactsCleaned (j : Job) (now : Time) : Job :=
  let j := { j with file := none, artifactCleaned := true, workerDeadline := 0 }
  if j.expiresAt ≤ now ∨ j.state = .expired ∨ j.state = .purged then
    { j with state := .expired, cleanupDone := true, expiresAt := now + ttlSeconds }
  else j

/-- `delete_view.invalidate`. -/
def Job.deleted (j : Job) (now : Time) : Job :=
  { j with state := .purged, manifest := none, expiresAt := min j.expiresAt now }

/-- `cleanup_view.invalidate`. -/
def Job.invalidated (j : Job) (force : Bool) (now : Time) : Job :=
  { j with
    state :=
      if force = true ∨ j.state = .purged then .purged
      else if j.expiresAt ≤ now then .expired
      else j.state
    manifest := none }

/-- `cleanup_view.cleaned`. -/
def Job.viewCleaned (j : Job) (now : Time) : Job :=
  { j with
    cleanupDone := true
    expiresAt :=
      if j.state = .purged ∨ j.state = .expired then now + ttlSeconds else j.expiresAt
    manifest := none
    file := none
    columns := [] }

/-! ## The transactions -/

section

variable (cfg : Config) (s : Store)

/-- The workspace, the session and the policy admit a job. -/
def permitted (value : Job) : Bool :=
  match s.workspaces.lookup value.workspaceId, s.sessions.lookup value.sessionId, s.policy with
  | some place, some session, some policy =>
    place.state = .active && s.now < place.expiresAt && !session.revoked &&
      s.now < session.expiresAt && policy.enabled && policy.version = value.policyVersion &&
      policy.fingerprint = cfg.fingerprint
  | _, _, _ => false

/-- The row is completed and has not expired. -/
def ready (k : Kind) (identity : String) : Bool :=
  match s.job k identity with
  | some source => source.state = .completed && s.now < source.expiresAt
  | none => false

/-- The change of `create_execution`: nothing when the request was seen before. -/
def createExecution (identity : String) (value : Job) (requestId fingerprint : String)
    (expiresAt : Time) : Except Raised Store :=
  match s.workspaces.lookup value.workspaceId with
  | none => .error (.http 410 "Database workspace is unavailable")
  | some place =>
    if place.state ≠ .active ∨ place.expiresAt ≤ s.now then
      .error (.http 410 "Database workspace is unavailable")
    else if permitted cfg s value = false then
      .error (.http 403 "Database permission changed")
    else
      match s.requests.lookup requestId with
      | some record =>
        if record.fingerprint ≠ fingerprint then
          .error (.http 409 "Database request identity conflicts")
        else .ok s
      | none =>
        if 256 ≤ place.executionCount then
          .error (.http 429 "Database workspace execution budget is full")
        else
          (reserve s.reservations identity value.login snapshotBytes).map fun control =>
            { s.insert .execution identity value with
              reservations := control
              workspaces := s.workspaces.insert value.workspaceId
                { place with
                  executionId := some identity
                  executionCount := place.executionCount + 1 }
              requests := s.requests.insert requestId ⟨fingerprint, some identity, none, expiresAt⟩ }

/-- What an export is made from. -/
def Job.source (value : Job) : Kind × String :=
  match value.sourceViewId with
  | some v => (.view, v)
  | none => (.execution, value.executionId)

/-- The change of `create_export`: nothing when the source has another export than the one read. -/
def createExport (identity : String) (value : Job) (seen : Option String) : Except Raised Store :=
  match s.job value.source.1 value.source.2 with
  | none => .error (.http 409 "Database result is unavailable")
  | some current =>
    if current.state ≠ .completed ∨ current.expiresAt ≤ s.now then
      .error (.http 409 "Database result is unavailable")
    else if current.exportId ≠ none ∧ current.exportId ≠ seen then .ok s
    else if permitted cfg s value = false then
      .error (.http 403 "Database permission changed")
    else
      (reserve s.reservations identity value.login exportBytes).map fun control =>
        { (s.insert value.source.1 value.source.2 { current with exportId := some identity }).insert
            .exported identity value with reservations := control }

/-- The change of `create_view`: nothing when the request was seen before. -/
def createView (identity : String) (value : Job) (requestId fingerprint : String)
    (expiresAt : Time) : Except Raised Store :=
  match s.requests.lookup requestId with
  | some previous =>
    if previous.fingerprint ≠ fingerprint ∨ previous.viewId = none then
      .error (.http 409 "Database request identity conflicts")
    else .ok s
  | none =>
    match s.job .execution value.executionId with
    | none => .error (.http 403 "Database permission changed")
    | some current =>
      if current.state ≠ .completed ∨ current.expiresAt ≤ s.now ∨ permitted cfg s value = false then
        .error (.http 403 "Database permission changed")
      else if maxViews ≤ current.viewIds.length then
        .error (.http 429 "Database view budget is full")
      else
        (reserve s.reservations identity value.login 0).map fun control =>
          { (s.insert .execution value.executionId
                { current with viewIds := current.viewIds ++ [identity] }).insert
              .view identity value with
            reservations := control
            requests := s.requests.insert requestId ⟨fingerprint, none, some identity, expiresAt⟩ }

/-- `_claim`. -/
def claimJob (k : Kind) (identity token : String) : Store × Option Job :=
  match s.job k identity with
  | none => (s, none)
  | some value =>
    if value.state ≠ .queued then (s, none)
    else
      (s.insert k identity (value.claimed token s.now),
        if (value.claimed token s.now).state = .running then some (value.claimed token s.now)
        else none)

/-- The conditions of a publication, read in the transaction that makes it. -/
def publishable (k : Kind) (value : Job) : Bool :=
  permitted cfg s value &&
    !((s.sessions.lookup value.sessionId).any (·.fromMcp) && !cfg.mcpEnabled) &&
    (k = .execution || ready s .execution value.executionId) &&
    (k ≠ .exported || value.sourceViewId.all (ready s .view))

/-- What `_finish` settles a row to. -/
def settledState (k : Kind) (value : Job) (state : State) : State :=
  if value.expiresAt ≤ s.now then .expired
  else if state = .completed ∧ publishable cfg s k value = false then .cancelled
  else state

/-- The change of `_finish`. -/
def finishJob (k : Kind) (identity : String) (claim : Option String) (state : State)
    (error : Option String) (changes : Option Changes) : Store :=
  match s.job k identity with
  | none => s
  | some value =>
    if value.finishable claim state = false then s
    else
      let state := settledState cfg s k value state
      let value := value.settled k state error changes s.now
      { s.insert k identity value with
        reservations :=
          if state = .completed then
            s.reservations.modify identity fun r => { r with bytes := value.bytes }
          else s.reservations }

/-- `_worker_closed`. -/
def closeJob (k : Kind) (identity token : String) : Store :=
  s.modify k identity fun j => if j.claim = some token then { j with workerDeadline := 0 } else j

/-- `_cleaned_execution`. -/
def cleanedExecution (identity : String) (exports : List String) : Store :=
  exports.foldl (fun s x => s.modify .exported x fun j => j.cleaned s.now)
    (s.modify .execution identity fun j => j.cleaned s.now)

/-- `cleanup_view.cleaned`. -/
def cleanedView (identity executionId : String) (exports : List String) : Store :=
  (exports.foldl (fun s x => s.modify .exported x fun j => j.viewCleaned s.now)
    (s.modify .view identity fun j => j.viewCleaned s.now)).modify .execution executionId
      fun j => { j with viewIds := j.viewIds.filter (· ≠ identity) }

/-- The budget transaction of `SortObjects.resize`. -/
def resize (identity login : String) (delta : ℤ) : Except Raised Store :=
  match s.reservations.lookup identity with
  | none => .error (.unavailable "Database view reservation is unavailable")
  | some existing =>
    if existing.bytes + delta < 0 then .error (.unavailable "Invalid database view accounting")
    else
      (reserve s.reservations identity login (existing.bytes + delta).toNat).map fun control =>
        { s with reservations := control }

/-- The permits that have not expired. -/
def unexpired (permits : Rows Permit) (now : Time) : Rows Permit :=
  ⟨permits.entries.filter fun e => now < e.2.expiresAt,
    List.NodupKeys.sublist List.filter_sublist permits.nodupKeys⟩

def permitsOf (permits : Rows Permit) (kind : Operation) : List Permit :=
  (permits.entries.map fun e => e.2).filter fun p => p.kind = kind

/-- `_permit.take`. -/
def takePermit (token : String) (kind : Operation) (owner role : String) : Except Raised Store :=
  let permits := unexpired s.permits s.now
  let same := permitsOf permits kind
  if kind.maximum ≤ same.length ∨
      (kind = .query ∧ owner ≠ "" ∧ ∃ p ∈ same, p.owner = owner) ∨
      (role ≠ "" ∧ ∃ p ∈ same, p.role = role) then
    .error (.http 429 "Database operation budget is busy")
  else
    .ok { s with permits := permits.insert token ⟨kind, owner, role, s.now + permitSeconds⟩ }

end

end Control
