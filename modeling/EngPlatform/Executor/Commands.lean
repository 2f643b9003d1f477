import EngPlatform.Lib.Solo
import Mathlib.Data.Nat.Notation
import Mathlib.Algebra.GroupWithZero.Nat

/-!
# The release executor

The deployments and the runtime rollback of the release executor, as programs over the external
commands they run: `gcloud`, `docker`, hooks, HTTP probes, storage copies and event callbacks.
A command either answers or raises.
-/

set_option linter.dupNamespace false

namespace Executor

open Interleave

/-- What is raised: by a failed command or request, as a `RuntimeError`, or as an
`AutomaticRollback`. -/
inductive Error
  | command (text : String)
  | runtime (message : String)
  | rollback (message : String)
  deriving DecidableEq, Repr

def Error.isRollback : Error → Bool
  | .rollback _ => true
  | _ => false

/-- An exception, and the one that was being handled when it was raised. -/
structure Raised where
  error : Error
  context : Option Error
  deriving DecidableEq, Repr

inductive Action
  | authorize
  | retire
  | revoke
  deriving DecidableEq, Repr

/-- A traffic map: the rows of `sorted(traffic.items())`. -/
abbrev Traffic := List (String × ℕ)

/-- What is read of a revision: its `APP_RELEASE_*` variables, its labels, its image, its readiness
and the hash of its specification. -/
structure Revision where
  sha : Option String
  scope : Option String
  resource : Option String
  serviceLabel : String
  commitLabel : String
  image : String
  imageDigest : String
  isReady : Bool
  specSha256 : String
  deriving DecidableEq, Repr

/-- A row of the traffic status that carries a tag. -/
structure Tag where
  tag : String
  revision : String
  url : String
  deriving DecidableEq, Repr

inductive Command
  | traffic (service : String)
  | tags
  | setTraffic (traffic : Traffic)
  | revision (name : String)
  | commitLabel (revision : String)
  | updateService (image suffix : String)
  | latestRevision
  | tagRevision (tag revision : String)
  | serviceUrl
  | grant (action : Action) (sha : String)
  | identityToken
  | ready (url sha : String) (candidate : Bool)
  | smoke (url : String)
  | sleep
  | boundary (name url : String)
  | hook (name : String)
  | check (name : String)
  | docker (step : String)
  | upload (destination : String)
  | emit (stage status : String)
  deriving DecidableEq, Repr

@[reducible] def Command.Answer : Command → Type
  | .traffic _ => Traffic
  | .tags => List Tag
  | .revision _ => Revision
  | .commitLabel _ | .latestRevision | .serviceUrl | .identityToken | .docker _ => String
  | .smoke _ => Bool
  | _ => Unit

@[reducible] def Command.Reply (c : Command) : Type := Except Error c.Answer

abbrev Exec (α : Type) := Prog Command.Reply Raised α

def exec (c : Command) : Exec c.Answer :=
  .ask c fun
    | .ok a => .done a
    | .error e => .raise ⟨e, none⟩

/-- `raise RuntimeError(...)`. -/
def refuse {α : Type} (message : String) : Exec α := .raise ⟨.runtime message, none⟩

/-- A callback that is lost is only printed. -/
def emit (stage status : String) : Exec Unit := .ask (.emit stage status) fun _ => .done ()

/-- The part of an exception handler that may raise on its own. -/
def during {α : Type} (x : Raised) (p : Exec α) : Exec α :=
  p.handle fun y => .raise ⟨y.error, some x.error⟩

def each {α : Type} : List α → (α → Exec Unit) → Exec Unit
  | [], _ => pure ()
  | a :: as, f => f a >>= fun _ => each as f

def collect {α β : Type} : List α → (α → Exec β) → Exec (List β)
  | [], _ => pure []
  | a :: as, f => f a >>= fun b => collect as f >>= fun bs => pure (b :: bs)

structure Profile where
  name : String
  preCandidateHooks : List String
  candidateHooks : List String
  prePromoteHooks : List String
  postPromoteHooks : List String
  recoveryHook : String
  deriving DecidableEq, Repr

/-- A row of `_previous_runtime`. -/
structure RuntimeRow where
  sha : String
  scope : String
  resource : String
  specSha256 : String
  deriving DecidableEq, Repr

/-- The candidate continuation, checked by its checksum, identity and configuration. -/
structure Continuation where
  imageDigest : String
  candidateRevision : String
  candidateUrl : String
  candidateSpecSha256 : String
  previousTraffic : Traffic
  previousRuntime : List (String × RuntimeRow)
  deriving DecidableEq, Repr

inductive Phase
  | full
  | promote
  deriving DecidableEq, Repr

/-- The environment of a run. `continuation` is what `_load_continuation` finds: a file that it
rejects is none. -/
structure Env where
  phase : Phase
  service : String
  releaseSha : String
  fingerprint : String
  profile : Profile
  privateRuntime : Bool
  pairedWebSha : String
  targetRevision : String
  evidenceBucket : String
  deploymentId : String
  imageName : String
  continuation : Option Continuation
  deriving DecidableEq, Repr

structure Result where
  candidateRevision : String
  candidateUrl : String
  productionRevision : String
  productionUrl : String
  imageDigest : String
  deriving DecidableEq, Repr

def isHex (c : Char) : Bool := c.isDigit || ('a' ≤ c && c ≤ 'f')

/-- `re.fullmatch(r"[0-9a-f]{40}", sha)`. -/
def exactCommit (sha : String) : Bool := sha.toList.length = 40 && sha.toList.all isHex

def runtimeScope : String := "runtime-v1"

section

variable (e : Env)

def independentRuntime : Bool :=
  "cgm-artemis-".toList.isPrefixOf e.service.toList && e.service ≠ "cgm-artemis-web"

/-- `_traffic`. -/
def traffic (service : String) : Exec Traffic := do
  let rows ← exec (.traffic service)
  let result := rows.filter (0 < ·.2)
  if (result.map (·.2)).sum ≠ 100 then refuse "production traffic snapshot is not complete"
  else pure result

def runtimeGrant (action : Action) (sha : String) : Exec Unit :=
  if exactCommit sha then exec (.grant action sha)
  else refuse "runtime grant requires an exact commit"

/-- `_runtime_ready_once`: one probe, which accepts only the expected identity. -/
def runtimeReadyOnce (url sha : String) (candidate : Bool) : Exec Unit := do
  if e.privateRuntime then
    let _ ← exec .serviceUrl
    let _ ← exec .identityToken
    exec (.ready url sha candidate)
  else exec (.ready url sha candidate)

def Error.isRuntime : Error → Bool
  | .command _ => false
  | _ => true

/-- The attempts of `runtime_ready` that are left after the next one. -/
def runtimeReadyAttempts (url sha : String) (candidate : Bool) : ℕ → Exec Unit
  | 0 => runtimeReadyOnce e url sha candidate
  | n + 1 => (runtimeReadyOnce e url sha candidate).handle fun x =>
    if x.error.isRuntime && !candidate then runtimeReadyAttempts url sha candidate n else .raise x

def runtimeReady (url sha : String) (candidate : Bool) : Exec Unit :=
  runtimeReadyAttempts e url sha candidate 5

/-- The attempts of `_smoke`. -/
def smokeAttempts (url : String) : ℕ → Exec Unit
  | 0 => pure ()
  | n + 1 => do
    let passed ← (exec (.smoke url)).handle fun _ =>
      if n = 0 then refuse "release smoke failed"
      else exec .sleep >>= fun _ => pure false
    if passed then pure () else smokeAttempts url n

/-- `_smoke`. -/
def smoke (url : String) : Exec Unit := do
  if e.privateRuntime then
    let _ ← exec .serviceUrl
    let _ ← exec .identityToken
    smokeAttempts url 5
  else smokeAttempts url 5

def runHooks (names : List String) : Exec Unit := each names fun name => exec (.hook name)

def verifyArtemisWeb : Exec Unit :=
  if e.service ≠ "cgm-artemis-api" then pure ()
  else do
    let rows ← traffic "cgm-artemis-web"
    each rows fun row => do
      let sha ← exec (.commitLabel row.1)
      if sha ≠ e.pairedWebSha then
        refuse "API paired web commit does not match serving revision"
      else pure ()

/-- `_verify_private_boundary`: the service, its policy, and an anonymous request. -/
def verifyPrivateBoundary (url : String) : Exec Unit :=
  if e.privateRuntime then do
    exec (.boundary "service" url)
    exec (.boundary "policy" url)
    exec (.boundary "anonymous" url)
  else pure ()

/-- The tag of the candidate. -/
def candidateTag : String := "c-" ++ (e.fingerprint.take 12).toString

/-- `_deploy_candidate`. -/
def deployCandidate (image : String) : Exec (String × String) := do
  emit "deploy-candidate" "running"
  exec (.check "candidate_env_args")
  exec (.updateService image ("ep-" ++ (e.fingerprint.take 10).toString))
  let candidate ← exec .latestRevision
  exec (.tagRevision (candidateTag e) candidate)
  let rows ← exec .tags
  match rows.find? (·.tag = candidateTag e) with
  | some row =>
    if row.url = "" then refuse "candidate URL was not created"
    else do
      emit "deploy-candidate" "succeeded"
      pure (candidate, row.url)
  | none => refuse "candidate URL was not created"

end

end Executor
