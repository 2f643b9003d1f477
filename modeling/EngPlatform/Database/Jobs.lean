import EngPlatform.Database.Requests

/-!
# The jobs of database executions

`run_query` streams a result into chunks and publishes their manifest; `create_execution` stages
the statement, reserves storage and inserts the row; `cancel`, `cleanup` and `sweep` end executions
and erase what they left.
-/

set_option linter.dupNamespace false

namespace Database

open Interleave

/-- `ResultWriter`. -/
structure Writer where
  columns : List Column
  chunks : List Chunk
  buffer : List Row
  rowCount : ℕ
  byteCount : ℕ
  storedBytes : ℕ
  deriving DecidableEq, Repr

def Writer.empty : Writer := ⟨[], [], [], 0, 0, 0⟩

/-- The length of the encoded rows, each with its line break. -/
def encodedBytes (rows : List Row) : ℕ := (rows.map fun row => row.bytes + 1).sum

/-- `_columns`. -/
def validColumns (cfg : Settings) (columns : List Column) : Bool :=
  1 ≤ columns.length && columns.length ≤ 100 &&
    columns.all (fun c => cfg.textBytes c.key ≤ cellBytes && cfg.textBytes c.name ≤ cellBytes &&
      cfg.textBytes c.dataType ≤ cellBytes) &&
    decide (columns.map Column.key).Nodup

section Writer

variable (cfg : Settings) (value : Execution)

def Writer.onColumns (w : Writer) (columns : List Column) : Program Writer := do
  refuse (!validColumns cfg columns) (.unavailable "Invalid database result columns")
  return { w with columns := columns, byteCount := cfg.columnsBytes columns }

def Writer.flush (w : Writer) : Program Writer := do
  authorize value false
  if w.buffer = [] then
    return w
  else
    let reference ← putObject cfg ⟨value.executionId, .chunk w.chunks.length⟩ (.rows w.buffer)
      (encodedBytes w.buffer)
    return { w with
      chunks := w.chunks ++ [⟨reference, w.rowCount - w.buffer.length, w.buffer.length⟩]
      buffer := [] }

/-- `_flush` when the row would not fit into the chunk. -/
def Writer.makeRoom (w : Writer) (bytes : ℕ) : Program Writer :=
  if w.buffer ≠ [] ∧ chunkBytes < encodedBytes w.buffer + bytes then w.flush cfg value
  else pure w

def Writer.onRow (w : Writer) (row : Row) : Program Writer := do
  refuse (row.length ≠ w.columns.length) (.unavailable "Invalid database result row")
  refuse (rowBytes < row.bytes + 1 ∨ (row.any fun cell => cellBytes < cell.utf8ByteSize) ∨
    snapshotBytes < w.byteCount + (row.bytes + 1))
    (.http 422 "Database result exceeds the resource budget")
  let w ← w.makeRoom cfg value (row.bytes + 1)
  return { w with
    buffer := w.buffer ++ [row]
    rowCount := w.rowCount + 1
    byteCount := w.byteCount + (row.bytes + 1) }

def Writer.addRows : Writer → List Row → Program Writer
  | w, [] => pure w
  | w, row :: rows => do
    let w ← w.onRow cfg value row
    w.addRows rows

def Writer.onRows (w : Writer) (rows : List Row) : Program Writer := do
  authorize value false
  w.addRows cfg value rows

/-- The callbacks of `stream_query`, in their order. -/
def Writer.onEvents : Writer → List Event → Program Writer
  | w, [] => pure w
  | w, .columns columns :: events => do
    let w ← w.onColumns cfg columns
    w.onEvents events
  | w, .rows rows :: events => do
    let w ← w.onRows cfg value rows
    w.onEvents events
  | w, .authorize :: events => do
    authorize value false
    w.onEvents events

def Writer.manifest (w : Writer) : Manifest :=
  ⟨value.executionId, w.columns, w.chunks, w.rowCount, w.byteCount⟩

/-- `ResultWriter.finish`. -/
def Writer.finish (w : Writer) : Program (Reference × Writer) := do
  let w ← w.flush cfg value
  authorize value false
  let size := cfg.manifestBytes (w.manifest value)
  refuse (chunkBytes < size) (.unavailable "Database result manifest exceeds the budget")
  let stored := w.byteCount - cfg.columnsBytes w.columns + size
  refuse (snapshotBytes < stored) (.http 422 "Database result exceeds the resource budget")
  let reference ← putObject cfg ⟨value.executionId, .manifest⟩ (.manifest (w.manifest value)) size
  return (reference, { w with storedBytes := stored })

end Writer

section RunQuery

variable (cfg : Settings)

/-- `results.purge` and `_release_storage`, unless the execution was published. -/
def discardUnpublished (identity : String) : Option Execution → Program Unit
  | some final =>
    if final.state = .completed then pure ()
    else do
      purge identity
      releaseStorage identity
  | none => do
    purge identity
    releaseStorage identity

/-- The body of `run_query`'s `try`. -/
def capture (identity : String) (value : Execution) : Program Unit := do
  authorize value true
  let _ ← perform .session
  perform .database
  let statement ← takeSql value.input
  let stream ← perform (.stream statement)
  let w ← Writer.empty.onEvents cfg value stream.events
  let elapsed ← .lift stream.outcome
  let (reference, w) ← w.finish cfg value
  authorize value true
  finish identity value.claim .completed none
    (some ⟨reference, w.columns, w.rowCount, w.storedBytes, elapsed⟩)
  let final ← perform (.execution identity .plain)
  discardUnpublished identity final

def errorCode : Raised → Program String
  | .other "QueryRejected" => pure "QUERY_REJECTED"
  | .http 429 _ => pure "RESOURCE_BUSY"
  | .http 422 _ => pure "RESOURCE_EXCEEDED"
  | .other "DatabaseResourceExceeded" => pure "RESOURCE_EXCEEDED"
  | _ => do
    let stopped ← perform .stopped
    return if stopped then "QUERY_STOPPED" else "QUERY_FAILED"

/-- The `except` of `run_query`. -/
def captureFailed (identity : String) (value : Execution) (x : Raised) : Program Unit := do
  let error ← errorCode x
  finish identity value.claim .failed (some error) none
  purge identity
  releaseStorage identity

/-- `_worker_closed`. -/
def workerClosed (identity : String) (claim : Option String) : Program Unit :=
  perform (.mutate (.close identity claim))

def runQuery (identity : String) : Program Unit := do
  let token ← perform .token
  match ← perform (.mutate (.claim identity token)) with
  | none => return ()
  | some value => do
    ((capture cfg identity value).handle (captureFailed identity value)).after
      (workerClosed identity value.claim)
    match ← perform (.execution identity .plain) with
    | some final =>
      if final.state = .completed then perform (.enqueue .cleanup identity (some final.expiresAt))
      else pure ()
    | none => pure ()

end RunQuery

section Cleanup

def anyOpen (now : Time) (exports : List Export) : Bool :=
  exports.any fun x => now < x.workerDeadline

/-- `_release_storage` of exports, each under the deadline. -/
def releaseExports (exports : List Export) : Program Unit :=
  each exports fun x => do
    checkDeadline
    releaseStorage x.exportId

/-- One execution of `purge_workspace_id`. -/
def purgeExecution (value : Execution) : Program Unit := do
  checkDeadline
  if value.cleanupDone then
    return ()
  else
    let identity := value.executionId
    perform (.mutate (.invalidate identity))
    checkDeadline
    let exports ← perform (.findExports identity 8)
    each exports fun x => do
      checkDeadline
      perform (.mutate (.removeExport x.exportId))
    checkDeadline
    let current ← perform (.execution identity .plain)
    checkDeadline
    let exports ← perform (.findExports identity 8)
    let now ← perform .now
    refuse ((current.any fun e => now < e.workerDeadline) || anyOpen now exports)
      (.unavailable "Database worker cleanup is pending")
    perform (.sideline "cleanup_children")
    purge identity
    checkDeadline
    releaseStorage identity
    releaseExports exports
    checkDeadline
    perform (.mutate (.cleaned identity (exports.map Export.exportId)))

def purgeWorkspaceId (workspaceId : String) : Program Unit := do
  checkDeadline
  perform (.mutate (.purgeWorkspace workspaceId))
  checkDeadline
  let values ← perform (.findExecutions (.workspace workspaceId) 256)
  each values purgeExecution
  checkDeadline
  perform (.mutate (.tombstone workspaceId))

/-- The end of `cleanup`, for an execution that is over. -/
def cleanupEnded (identity : String) (value : Execution) : Program Unit := do
  let now ← perform .now
  refuse (now < value.workerDeadline) (.unavailable "Database worker cleanup is pending")
  checkDeadline
  let exports ← perform (.findExports identity 8)
  let now ← perform .now
  refuse (anyOpen now exports) (.unavailable "Database export cleanup is pending")
  checkDeadline
  perform (.mutate (.expire identity))
  perform (.sideline "cleanup_children")
  purge identity
  checkDeadline
  releaseStorage identity
  releaseExports exports
  checkDeadline
  perform (.mutate (.cleaned identity (exports.map Export.exportId)))

/-- An execution of `cleanup` whose result is no longer to be kept. -/
def Execution.isOver (e : Execution) (now : Time) : Bool :=
  e.expiresAt ≤ now || e.state = .failed || e.state = .cancelled || e.state = .expired ||
    e.state = .purged

/-- `cleanup` of an identity that is not a workspace's. -/
def cleanupExecution (identity : String) : Program Unit := do
  checkDeadline
  match ← perform (.execution identity .cleanup) with
  | none => do
    if ← perform (.hasView identity) then
      perform (.sideline "cleanup_view")
    else
      purge identity
      checkDeadline
      releaseStorage identity
  | some value => do
    let now ← perform .now
    if value.isOver now then cleanupEnded identity value
    else pure ()

def cleanup (identity : String) : Program Unit := do
  checkDeadline
  match ← perform (.workspace identity) with
  | some value => do
    let now ← perform .now
    if value.state = .purged ∨ value.expiresAt ≤ now then purgeWorkspaceId identity
    else pure ()
  | none => cleanupExecution identity

/-- `_ensure_dispatch` of an execution. -/
def ensureDispatch (identity : String) : Program Unit := do
  match ← perform (.execution identity .plain) with
  | none => return ()
  | some value =>
    if value.state ≠ .queued then
      return ()
    else
      let now ← perform .now
      if value.dispatchDeadline ≤ now then do
        finish identity none .failed (some "DISPATCH_FAILED") none
        cleanup identity
      else
        perform (.enqueue .query identity none)

end Cleanup

section Create

variable (cfg : Settings)

/-- The arguments of `create_execution`. -/
structure Creation where
  databaseId : String
  workspaceId : String
  statement : String
  clientRequestId : String
  deriving DecidableEq, Repr

def Creation.requestId (c : Creation) : String :=
  cfg.sha256 (c.workspaceId ++ ":" ++ c.clientRequestId)

def Creation.fingerprint (c : Creation) : String := cfg.sha256 c.statement

/-- The row of a new execution. -/
def Creation.row (c : Creation) (identity : String) (reader : Reader) (place : Workspace)
    (input : Reference) (now : Time) : Execution where
  executionId := identity
  workspaceId := c.workspaceId
  databaseId := c.databaseId
  sessionId := reader.sessionId
  login := reader.login
  policyVersion := place.policyVersion
  state := .queued
  createdAt := now
  dispatchDeadline := now + dispatchSeconds
  expiresAt := min place.expiresAt (now + ttlSeconds)
  input := some input
  columns := []
  rowCount := none
  elapsedMs := none
  manifest := none
  errorCode := none
  claim := none
  startedAt := 0
  workerDeadline := 0
  bytes := 0
  cleanupDone := false

/-- A staging that failed leaves nothing. -/
def stagingFailed (identity : String) (x : Raised) : Program Reference := do
  purge identity
  releaseStorage identity
  .raise x

/-- An insertion that raised may have happened; the input and the reservation are given up only if
it did not. -/
def insertFailed (identity : String) (input : Reference) (x : Raised) : Program String := do
  match ← perform (.execution identity .plain) with
  | none => do
    deleteObject input
    releaseStorage identity
    .raise x
  | some _ => .raise x

/-- A dispatch that failed fails the execution. -/
def dispatchFailed (identity : String) : Raised → Program Unit
  | .unavailable detail => do
    finish identity none .failed (some "DISPATCH_FAILED") none
    match ← perform (.execution identity .undispatched) with
    | some current =>
      if current.state ≠ .running then do
        purge identity
        releaseStorage identity
        .raise (.unavailable detail)
      else .raise (.unavailable detail)
    | none => .raise (.unavailable detail)
  | x => .raise x

/-- `create_execution` of a request that was not seen before. -/
def createNew (c : Creation) (reader : Reader) (place : Workspace) : Program Execution := do
  let identity ← perform .token
  let now ← perform .now
  perform (.enqueue .cleanup identity (some (now + ttlSeconds)))
  perform (.mutate (.reserveStaging identity reader.login))
  let input ← (stageSql cfg identity c.statement).handle (stagingFailed identity)
  let now ← perform .now
  let value := c.row identity reader place input now
  let selected ← (perform (.mutate (.insert value (c.requestId cfg) (c.fingerprint cfg)
    place.expiresAt))).handle (insertFailed identity input)
  if selected ≠ identity then do
    deleteObject input
    releaseStorage identity
    findExecution c.databaseId c.workspaceId selected
  else do
    (perform (.enqueue .query identity none)).handle (dispatchFailed identity)
    findExecution c.databaseId c.workspaceId identity

def createExecution (c : Creation) : Program Execution := do
  let reader ← perform .session
  let place ← findWorkspace c.workspaceId reader c.databaseId
  perform .database
  match ← perform (.request (c.requestId cfg)) with
  | some existing => do
    refuse (existing.fingerprint ≠ c.fingerprint cfg)
      (.http 409 "Database request identity conflicts")
    ensureDispatch existing.executionId
    findExecution c.databaseId c.workspaceId existing.executionId
  | none => createNew cfg c reader place

def cancel (databaseId workspaceId executionId : String) : Program Execution := do
  let value ← findExecution databaseId workspaceId executionId
  finish executionId value.claim .cancelled (some "QUERY_CANCELLED") none
  perform (.enqueue .cleanup executionId none)
  findExecution databaseId workspaceId executionId

end Create

section Sweep

/-- A loop of `sweep`, which ends the sweep once the deadline is over. -/
def eachInTime {α : Type} : List α → (α → Program Unit) → Program Bool
  | [], _ => pure true
  | a :: l, f => do
    if ← perform .overdue then
      return false
    else
      f a
      eachInTime l f

/-- `except DatabaseUnavailable: continue`. -/
def orContinue (p : Program Unit) : Program Unit :=
  p.handle fun
    | .unavailable _ => pure ()
    | x => .raise x

def sweepWorkspace (value : Workspace) : Program Unit :=
  if value.cleanupDone then
    perform (.mutate (.forgetWorkspace value.workspaceId value.sessionId))
  else orContinue (purgeWorkspaceId value.workspaceId)

def sweepExpired (value : Execution) : Program Unit :=
  if value.cleanupDone then perform (.mutate (.forgetExecution value.executionId))
  else orContinue (cleanup value.executionId)

/-- A worker that is lost: its deadline is over, and the execution reads as running. -/
def sweepRunning (value : Execution) : Program Unit := do
  let now ← perform .now
  if value.workerDeadline < now then do
    finish value.executionId value.claim .failed (some "WORKER_LOST") none
    purge value.executionId
    releaseStorage value.executionId
  else pure ()

/-- The loops of `sweep` one after the other; each may end it. -/
def whileInTime : List (Program Bool) → Program Unit
  | [] => pure ()
  | p :: ps => do
    if ← p then whileInTime ps
    else pure ()

/-- `sweep`; what it does for views and exports is between its loops. -/
def sweep : Program Unit := do
  perform (.sideline "sweep_views")
  whileInTime
    [ do
        let values ← perform (.findExecutions (.state .queued) 64)
        eachInTime values fun value => orContinue (ensureDispatch value.executionId),
      do
        perform (.sideline "queued exports and views")
        let values ← perform (.findRequests (← perform .now) 64)
        eachInTime values fun value => perform (.mutate (.forgetRequest value.requestId)),
      do
        let values ← perform (.findSessions (← perform .now) 64)
        eachInTime values fun value => perform (.mutate (.forgetSession value.sessionId)),
      do
        let values ← perform (.findWorkspaces (← perform .now) 64)
        eachInTime values sweepWorkspace,
      do
        let values ← perform (.findExecutions (.expired (← perform .now)) 64)
        eachInTime values sweepExpired,
      do
        let values ← perform (.findExecutions (.state .running) 64)
        eachInTime values sweepRunning,
      do
        perform (.sideline "running and expired exports")
        return true ]

end Sweep

/-- A call of one of the jobs. -/
inductive Job
  | create (c : Creation)
  | runQuery (identity : String)
  | cancel (databaseId workspaceId executionId : String)
  | cleanup (identity : String)
  | sweep
  deriving DecidableEq, Repr

/-- A program whose result is not looked at. -/
def discard {α : Type} (p : Program α) : Program Unit := do
  let _ ← p
  return ()

def Job.program (cfg : Settings) : Job → Program Unit
  | .create c => discard (createExecution cfg c)
  | .runQuery identity => Database.runQuery cfg identity
  | .cancel databaseId workspaceId executionId =>
    discard (Database.cancel databaseId workspaceId executionId)
  | .cleanup identity => Database.cleanup identity
  | .sweep => Database.sweep

end Database
