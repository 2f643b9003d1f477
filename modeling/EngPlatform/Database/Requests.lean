import EngPlatform.Lib.Asks
import EngPlatform.Database.Record

/-!
# What the jobs of database executions ask for

Single reads, transactions and object operations, and the functions that every job is built from.
Each request may raise, and one that raises may have taken effect. What a program learns from
outside (the session, the policy, the rows that PostgreSQL streams, the deadlines of
`time.monotonic()`) may be anything.
-/

set_option linter.dupNamespace false

namespace Database

open Interleave

/-- Where an execution's row is read: after a dispatch that failed, by a cleanup that found no
workspace of that identity, or elsewhere. -/
inductive Reading
  | plain
  | undispatched
  | cleanup
  deriving DecidableEq, Repr

/-- The lookups of `store.find` on executions. -/
inductive Query
  | state (s : State)
  | expired (before : Time)
  | workspace (id : String)
  deriving DecidableEq, Repr

def Query.finds : Query → Execution → Bool
  | .state s, e => e.state = s
  | .expired before, e => e.expiresAt ≤ before
  | .workspace id, e => e.workspaceId = id

inductive Task
  | query
  | cleanup
  deriving DecidableEq, Repr

/-- A callback of `stream_query`. -/
inductive Event
  | columns (columns : List Column)
  | rows (rows : List Row)
  | authorize
  deriving DecidableEq, Repr

/-- What `stream_query` calls back, and how it ends: with `elapsed_ms`, or raising. -/
structure Stream where
  events : List Event
  outcome : Except Raised ℕ

/-- The session of a request. -/
structure Reader where
  sessionId : String
  login : String
  deriving DecidableEq, Repr

/-- A request. `sideline` is the work on views and exports, on rows, reservations and objects of
their own. -/
inductive Call
  | workspace (id : String)
  | request (id : String)
  | execution (id : String) (reading : Reading)
  | hasView (id : String)
  | findExecutions (q : Query) (limit : ℕ)
  | findWorkspaces (before : Time) (limit : ℕ)
  | findRequests (before : Time) (limit : ℕ)
  | findSessions (before : Time) (limit : ℕ)
  | findExports (executionId : String) (limit : ℕ)
  | mutate (t : Txn)
  | put (path : Path) (blob : Blob)
  | read (path : Path) (generation : ℕ)
  | delete (path : Path) (generation : ℕ)
  | list (folder : Folder) (execution : String) (limit : ℕ)
  | enqueue (task : Task) (id : String) (schedule : Option Time)
  | token
  | now
  | session
  | policy
  | database
  | stream (statement : String)
  | overdue
  | stopped
  | fresh
  | sideline (part : String)

@[reducible] def Call.Val : Call → Type
  | .workspace _ => Option Workspace
  | .request _ => Option RequestRow
  | .execution _ _ => Option Execution
  | .findExecutions _ _ => List Execution
  | .findWorkspaces _ _ => List Workspace
  | .findRequests _ _ => List RequestRow
  | .findSessions _ _ => List Session
  | .findExports _ _ => List Export
  | .mutate t => t.Reply
  | .put _ _ => ℕ
  | .read _ _ => Blob
  | .list _ _ _ => List Object
  | .token | .policy => String
  | .now => Time
  | .session => Reader
  | .stream _ => Stream
  | .hasView _ | .overdue | .stopped | .fresh => Bool
  | _ => Unit

abbrev Call.Ans (c : Call) : Type := Except Raised c.Val

abbrev Program (α : Type) := Prog Call.Ans Raised α

def perform (c : Call) : Program c.Val := .ask c .lift

def refuse (b : Prop) [Decidable b] (x : Raised) : Program Unit :=
  if b then .raise x else .done ()

/-- `for a in l: f a`. -/
def each {α : Type} : List α → (α → Program Unit) → Program Unit
  | [], _ => pure ()
  | a :: l, f => do
    f a
    each l f

/-- `_check_cleanup_deadline`. -/
def checkDeadline : Program Unit := do
  let overdue ← perform .overdue
  refuse overdue (.unavailable "Database cleanup is pending")

/-- `_workspace`. -/
def findWorkspace (workspaceId : String) (reader : Reader) (databaseId : String) :
    Program Workspace := do
  match ← perform (.workspace workspaceId) with
  | none => .raise (.http 404 "Database workspace not found")
  | some value =>
    refuse (value.sessionId ≠ reader.sessionId ∨ value.databaseId ≠ databaseId)
      (.http 404 "Database workspace not found")
    let now ← perform .now
    refuse (value.state ≠ .active ∨ value.expiresAt ≤ now)
      (.http 410 "Database workspace is unavailable")
    let policy ← perform .policy
    refuse (value.policyVersion ≠ policy) (.http 403 "Database permission changed")
    perform .database
    return value

/-- `_execution`. -/
def findExecution (databaseId workspaceId executionId : String) : Program Execution := do
  let reader ← perform .session
  let _ ← findWorkspace workspaceId reader databaseId
  match ← perform (.execution executionId .plain) with
  | none => .raise (.http 404 "Database execution not found")
  | some value =>
    refuse (value.sessionId ≠ reader.sessionId ∨ value.workspaceId ≠ workspaceId ∨
      value.databaseId ≠ databaseId) (.http 404 "Database execution not found")
    let now ← perform .now
    refuse (value.expiresAt ≤ now ∨ value.state = .purged ∨ value.state = .expired)
      (.http 410 "Database result is unavailable")
    let policy ← perform .policy
    refuse (value.policyVersion ≠ policy) (.http 403 "Database permission changed")
    return value

/-- `RunContext.authorize`. -/
def authorize (value : Execution) (force : Bool) : Program Unit := do
  let stopped ← perform .stopped
  refuse stopped (.http 409 "Database execution stopped")
  let fresh ← perform .fresh
  if !force && fresh then
    return ()
  else
    let policy ← perform .policy
    refuse (policy ≠ value.policyVersion) (.http 403 "Database permission changed")
    let reader ← perform .session
    let _ ← findWorkspace value.workspaceId reader value.databaseId
    match ← perform (.execution value.executionId .plain) with
    | none => .raise (.http 409 "Database execution stopped")
    | some current =>
      let now ← perform .now
      refuse (current.state ≠ .running ∨ current.claim ≠ value.claim ∨ current.expiresAt ≤ now)
        (.http 409 "Database execution stopped")

/-- `_finish`. -/
def finish (identity : String) (claim : Option String) (state : State) (error : Option String)
    (changes : Option Capture) : Program Unit := do
  match ← perform (.execution identity .plain) with
  | none => return ()
  | some _ => perform (.mutate (.finish identity claim state error changes))

/-- The pattern of `_path`, for an identity. -/
def isIdentity (id : String) : Bool :=
  id.toList.length = 32 && id.toList.all fun c => c.isDigit || ('a' ≤ c && c ≤ 'f')

def putObject (cfg : Settings) (path : Path) (blob : Blob) (bytes : ℕ) : Program Reference := do
  refuse (!isIdentity path.execution) (.unavailable "Invalid database object identity")
  let generation ← perform (.put path blob)
  return ⟨path, generation, cfg.objectSha256 blob, bytes⟩

def deleteObject (reference : Reference) : Program Unit :=
  perform (.delete reference.object reference.generation)

/-- One folder of `purge`: the objects that are listed are deleted. -/
def purgeFolder (identity : String) (folder : Folder) : Program Unit := do
  checkDeadline
  let objects ← perform (.list folder identity 600)
  each objects fun o => do
    checkDeadline
    perform (.delete o.path o.generation)

/-- The second listing of `purge` finds the folder empty. -/
def confirmEmpty (identity : String) (folder : Folder) : Program Unit := do
  checkDeadline
  let objects ← perform (.list folder identity 1)
  refuse (objects ≠ []) (.unavailable "Database result cleanup is pending")

def purge (identity : String) : Program Unit := do
  refuse (!isIdentity identity) (.unavailable "Invalid database object identity")
  checkDeadline
  purgeFolder identity .inputs
  purgeFolder identity .results
  confirmEmpty identity .inputs
  confirmEmpty identity .results

/-- `_release_storage`. -/
def releaseStorage (identity : String) : Program Unit :=
  perform (.mutate (.release identity))

def stageSql (cfg : Settings) (identity statement : String) : Program Reference := do
  refuse (131072 < cfg.sqlBytes statement) (.http 413 "Database request exceeds the size limit")
  putObject cfg ⟨identity, .query⟩ (.sql statement) (cfg.sqlBytes statement)

/-- `take_sql`; a row without an input has nothing to take. -/
def takeSql : Option Reference → Program String
  | none => .raise (.unavailable "Invalid database object metadata")
  | some reference => do
    match ← perform (.read reference.object reference.generation) with
    | .sql statement =>
      refuse (statement.length = 0 ∨ 30000 < statement.length)
        (.unavailable "Database input is unavailable")
      deleteObject reference
      return statement
    | _ => .raise (.unavailable "Database input is unavailable")

end Database
