import EngPlatform.Database.Control
import EngPlatform.Lib.Acts

/-!
# The runs of the database jobs

Requests, task deliveries, workers and sweeps, one transaction at a time and in any order. A claim
that succeeds starts a worker, which knows the row that it claimed; every other act may come at any
time. The workspaces, the sessions, the policy, the requests and the clock move on their own.
-/

set_option linter.dupNamespace false

namespace Control

open Database

/-- `run_query`, `run_export` or `run_sort` after its claim. A sort reserves the bytes of every
chunk before its upload: `held` are the chunks of runs that it has not given back, and `stored` is
the sum over the objects of the result. -/
structure Worker where
  kind : Kind
  identity : String
  login : String
  held : List ℕ
  stored : ℕ
  deriving DecidableEq, Repr

/-- What the worker may publish: `ResultWriter.finish` and `export_reference` check their bounds,
and the writer of a sort counts what it has stored. -/
def Worker.publishes (w : Worker) : Changes → Bool
  | .captured _ _ _ bytes _ => w.kind = .execution && bytes ≤ snapshotBytes
  | .exported file => w.kind = .exported && file.bytes ≤ exportBytes
  | .sorted _ bytes _ _ => w.kind = .view && bytes = w.stored

/-- The workers by their claims, the identities that were drawn, and the executions that
`create_execution` is still staging. -/
structure Conf where
  store : Store
  workers : AList fun _ : String => Worker
  used : List String
  staging : List String
  deriving DecidableEq

def Conf.start (store : Store) : Conf := ⟨store, ∅, [], []⟩

inductive Act
  | stage (identity owner : String)
  | createExecution (identity : String) (d : Draft) (requestId fingerprint : String)
      (expiresAt : Time)
  | createExport (identity : String) (d : Draft) (seen : Option String)
  | createView (identity : String) (d : Draft) (requestId fingerprint : String) (expiresAt : Time)
  | claim (k : Kind) (identity token : String)
  | complete (token : String) (changes : Changes)
  | abandon (token error : String)
  | close (token : String)
  | charge (token : String) (bytes : ℕ) (result : Bool)
  | credit (token : String) (bytes : ℕ)
  | cancel (identity : String) (claim : Option String)
  | dispatchFailed (k : Kind) (identity : String)
  | lost (k : Kind) (identity : String) (claim : Option String)
  | release (identity : String)
  | take (token : String) (kind : Operation) (owner role : String)
  | give (token : String)
  | purge (identity : String)
  | remove (identity : String)
  | expire (identity : String)
  | cleaned (identity : String) (exports : List String)
  | cleanExport (identity : String)
  | deleteView (identity : String)
  | invalidateView (identity : String) (force : Bool)
  | cleanView (identity executionId : String) (exports : List String)
  | forget (k : Kind) (identity : String)
  | documents (workspaces : Rows Workspace) (sessions : Rows Session) (policy : Option Policy)
      (requests : Rows Request) (now : Time)
  deriving DecidableEq

def Conf.put (c : Conf) (s : Store) : Conf := { c with store := s }

/-- The state after an act, when the act is possible and does not raise. -/
def Conf.step (cfg : Config) (c : Conf) : Act → Option Conf
  | .stage identity owner =>
    if identity ∈ c.used then none
    else
      (reserve c.store.reservations identity owner snapshotBytes).toOption.map fun control =>
        { c with
          store := { c.store with reservations := control }
          used := identity :: c.used
          staging := identity :: c.staging }
  | .createExecution identity d requestId fingerprint expiresAt =>
    if identity ∈ c.staging then
      (createExecution cfg c.store identity { d with executionId := identity }.execution requestId
          fingerprint expiresAt).toOption.map fun s =>
        { c with store := s, staging := c.staging.filter (· ≠ identity) }
    else none
  | .createExport identity d seen =>
    if identity ∈ c.used then none
    else
      (createExport cfg c.store identity d.exported seen).toOption.map fun s =>
        { c with store := s, used := identity :: c.used }
  | .createView identity d requestId fingerprint expiresAt =>
    if identity ∈ c.used then none
    else
      (createView cfg c.store identity d.view requestId fingerprint expiresAt).toOption.map fun s =>
        { c with store := s, used := identity :: c.used }
  | .claim k identity token =>
    if token ∈ c.workers then none
    else
      match claimJob c.store k identity token with
      | (s, some j) =>
        some { c with store := s, workers := c.workers.insert token ⟨k, identity, j.login, [], 0⟩ }
      | (s, none) => some (c.put s)
  | .complete token changes =>
    match c.workers.lookup token with
    | some w =>
      if w.publishes changes then
        some (c.put (finishJob cfg c.store w.kind w.identity (some token) .completed none
          (some changes)))
      else none
    | none => none
  | .abandon token error =>
    (c.workers.lookup token).map fun w =>
      c.put (finishJob cfg c.store w.kind w.identity (some token) .failed (some error) none)
  | .close token =>
    (c.workers.lookup token).map fun w => c.put (closeJob c.store w.kind w.identity token)
  | .charge token bytes result =>
    match c.workers.lookup token with
    | some w =>
      if w.kind = .view then
        (resize c.store w.identity w.login bytes).toOption.map fun s =>
          { c with
            store := s
            workers := c.workers.insert token
              (if result then { w with stored := w.stored + bytes }
              else { w with held := bytes :: w.held }) }
      else none
    | none => none
  | .credit token bytes =>
    match c.workers.lookup token with
    | some w =>
      if w.kind = .view ∧ bytes ∈ w.held then
        (resize c.store w.identity w.login (-bytes)).toOption.map fun s =>
          { c with
            store := s
            workers := c.workers.insert token { w with held := w.held.erase bytes } }
      else none
    | none => none
  | .cancel identity claim =>
    some (c.put (finishJob cfg c.store .execution identity claim .cancelled
      (some "QUERY_CANCELLED") none))
  | .dispatchFailed k identity =>
    some (c.put (finishJob cfg c.store k identity none .failed (some "DISPATCH_FAILED") none))
  | .lost k identity claim =>
    some (c.put (finishJob cfg c.store k identity claim .failed (some "WORKER_LOST") none))
  | .release identity =>
    some (c.put { c.store with reservations := c.store.reservations.erase identity })
  | .take token kind owner role => (takePermit c.store token kind owner role).toOption.map c.put
  | .give token => some (c.put { c.store with permits := c.store.permits.erase token })
  | .purge identity => some (c.put (c.store.modify .execution identity Job.purged))
  | .remove identity => some (c.put (c.store.modify .exported identity Job.removed))
  | .expire identity => some (c.put (c.store.modify .execution identity Job.expire))
  | .cleaned identity exports => some (c.put (cleanedExecution c.store identity exports))
  | .cleanExport identity =>
    some (c.put (c.store.modify .exported identity fun j => j.artifactsCleaned c.store.now))
  | .deleteView identity =>
    some (c.put (c.store.modify .view identity fun j => j.deleted c.store.now))
  | .invalidateView identity force =>
    some (c.put (c.store.modify .view identity fun j => j.invalidated force c.store.now))
  | .cleanView identity executionId exports =>
    some (c.put (cleanedView c.store identity executionId exports))
  | .forget k identity =>
    some (c.put { c.store with jobs := c.store.jobs.erase (k, identity) })
  | .documents workspaces sessions policy requests now =>
    if c.store.now ≤ now then
      some (c.put { c.store with
        workspaces := workspaces
        sessions := sessions
        policy := policy
        requests := requests
        now := now })
    else none

/-- A state that some run reaches from an empty store. -/
def Reached (cfg : Config) (c : Conf) : Prop :=
  ∃ s : Store, s.jobs = ∅ ∧ s.permits = ∅ ∧ s.reservations = ∅ ∧
    Acts.Reaches (Conf.step cfg) (Conf.start s) c

end Control
