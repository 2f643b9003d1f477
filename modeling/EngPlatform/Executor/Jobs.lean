import EngPlatform.Executor.Commands
import Mathlib.Data.List.Infix

/-!
# The releases of a Job

`deploy_job` and `rollback_job` of the release executor. A Job has a definition and schedules that
start it. The schedules that are enabled are paused, the definition is replaced by one that can only
check its runtime and then by the one to be released, and the schedules are resumed.
-/

set_option linter.dupNamespace false

namespace Executor.Jobs

open Interleave

/-! ## The definition of a Job -/

structure Container where
  image : String
  args : List String
  env : List (String × String)
  rest : String
  deriving DecidableEq

/-- The annotations and the labels are those of the template; `rest` is all else. -/
structure Spec where
  annotations : List (String × String)
  labels : List (String × String)
  containers : List Container
  rest : String
  deriving DecidableEq

/-- A definition as YAML; `layout` is what its text has beside the values that are loaded. -/
structure Definition where
  layout : String
  kind : String
  name : String
  spec : Option Spec
  deriving DecidableEq

/-- `volatile` -/
def volatileKeys : List String :=
  ["run.googleapis.com/client-name", "run.googleapis.com/client-version", "client.knative.dev/nonce"]

def stableValues (values : List (String × String)) : List (String × String) :=
  values.filter (·.1 ∉ volatileKeys)

def Spec.stable (s : Spec) : Spec :=
  { s with annotations := stableValues s.annotations, labels := stableValues s.labels }

@[simp] theorem Spec.stable_containers (s : Spec) : s.stable.containers = s.containers := rfl

@[simp] theorem Spec.stable_stable (s : Spec) : s.stable.stable = s.stable := by
  simp [Spec.stable, stableValues, List.filter_filter]

/-- The values of a container's variables; of two with one name the last counts. -/
def Container.value (c : Container) (name : String) : Option String := c.env.reverse.lookup name

/-! ## Commands -/

inductive Command
  | describe
  | image
  | save (revision : String)
  | fetch (revision : String)
  | schedule (name : String)
  | pause (name : String)
  | resume (name : String)
  | update (flags : List String)
  | replace (definition : Definition)
  | check
  | grant (action : Action) (sha : String)
  | emit (stage status : String)
  deriving DecidableEq

@[reducible] def Command.Answer : Command → Type
  | .describe | .fetch _ => Definition
  | .image => List String
  | .schedule _ => String
  | _ => Unit

@[reducible] def Command.Reply (c : Command) : Type := Except Error c.Answer

abbrev Exec (α : Type) := Prog Command.Reply Raised α

def exec (c : Command) : Exec c.Answer :=
  .ask c fun
    | .ok a => .done a
    | .error e => .raise ⟨e, none⟩

def refuse {α : Type} (message : String) : Exec α := .raise ⟨.runtime message, none⟩

def emit (stage status : String) : Exec Unit := .ask (.emit stage status) fun _ => .done ()

def during {α : Type} (x : Raised) (p : Exec α) : Exec α :=
  p.handle fun y => .raise ⟨y.error, some x.error⟩

def attempt {α : Type} : Except Error α → Exec α
  | .ok a => .done a
  | .error x => .raise ⟨x, none⟩

/-- `re.fullmatch(r"job-[0-9a-f]{64}", revision)`. -/
def jobRevision (revision : String) : Bool :=
  "job-".toList.isPrefixOf revision.toList && (revision.toList.drop 4).length = 64 &&
    (revision.toList.drop 4).all isHex

def bucketStart (c : Char) : Bool := c.isLower || c.isDigit

/-- `re.fullmatch(r"[a-z0-9][a-z0-9._-]{2,222}", bucket)`. -/
def validBucket (bucket : String) : Bool :=
  match bucket.toList with
  | [] => false
  | c :: cs => bucketStart c && 2 ≤ cs.length && cs.length ≤ 222 &&
    cs.all fun c => bucketStart c || c = '.' || c = '_' || c = '-'

/-- The environment of a run. `schedules` are those of the service, `candidateArgs` is what
`candidate_env_args` returns or raises, and `digest` is the SHA-256 digest of a text. -/
structure Env where
  service : String
  releaseSha : String
  targetRevision : String
  evidenceBucket : String
  schedules : Option (List String)
  candidateArgs : Except Error (List String)
  digest : Definition → String
  digest_valid : ∀ d, jobRevision ("job-" ++ digest d) = true

structure Result where
  candidateRevision : String
  productionRevision : String
  imageDigest : String
  deriving DecidableEq

section

variable (e : Env)

/-! ## Schedules -/

def resumeSchedules : List String → Exec Unit
  | [] => pure ()
  | name :: names => exec (.resume name) >>= fun _ => resumeSchedules names

/-- What was paused is resumed before the exception is raised again. -/
def giveUp {α : Type} (active : List String) (x : Raised) : Exec α :=
  during x (resumeSchedules active) >>= fun _ => .raise x

def pauseFrom : List String → List String → Exec (List String)
  | [], active => pure active
  | name :: names, active => do
    let state ← (exec (.schedule name)).handle (giveUp active)
    if state = "ENABLED" then
      (exec (.pause name)).handle (giveUp (active ++ [name]))
      pauseFrom names (active ++ [name])
    else pauseFrom names active

/-- `pause_job_schedules`. -/
def pauseSchedules : Exec (List String) :=
  match e.schedules with
  | some names => pauseFrom names []
  | none => .raise ⟨.command "KeyError", none⟩

/-! ## Definitions -/

/-- `_job_operational_spec`. -/
def operationalSpec (d : Definition) : Except Error Spec :=
  if d.kind ≠ "Job" ∨ d.name ≠ e.service then
    .error (.runtime "Job snapshot does not match authorized resource")
  else
    match d.spec with
    | none => .error (.runtime "Job snapshot lacks a specification")
    | some s => .ok s.stable

def onlyImage : List String → Exec String
  | [image] =>
    if image = "" then refuse "Job must have exactly one configured container" else pure image
  | _ => refuse "Job must have exactly one configured container"

/-- `_job_image`. -/
def jobImage : Exec String := exec .image >>= onlyImage

/-- The checks of `_job_snapshot_uri`. -/
def snapshotUri (revision : String) : Exec Unit :=
  if ¬jobRevision revision then refuse "invalid Job snapshot fingerprint"
  else if ¬validBucket e.evidenceBucket then refuse "invalid evidence bucket"
  else pure ()

/-- `_save_job_definition`. -/
def saveDefinition (d : Definition) : Exec String := do
  snapshotUri e ("job-" ++ e.digest d)
  exec (.save ("job-" ++ e.digest d))
  pure ("job-" ++ e.digest d)

/-- The first container, or what the lookup raises. -/
def firstContainer (d : Definition) : Exec Container :=
  match d.spec.bind fun s => s.containers.head? with
  | some c => pure c
  | none => .raise ⟨.command "LookupError", none⟩

def runtimeGrant (action : Action) (sha : String) : Exec Unit :=
  if exactCommit sha then exec (.grant action sha)
  else refuse "runtime grant requires an exact commit"

/-- A grant for the commit that a container was released at. -/
def grantOf (action : Action) (c : Container) : Exec Unit :=
  match c.value "APP_RELEASE_SHA" with
  | some sha => runtimeGrant action sha
  | none => .raise ⟨.command "KeyError", none⟩

def isRuntime (c : Container) : Bool := c.value "APP_RELEASE_SCOPE" = some runtimeScope

/-- The definition is as it was, or `message` is raised. -/
def verifySpec (d : Definition) (message : String) : Exec Unit := do
  let now ← exec .describe
  let spec ← attempt (operationalSpec e now)
  let expected ← attempt (operationalSpec e d)
  if spec ≠ expected then refuse message else pure ()

/-! ## A deployment -/

def candidateFlags (image : String) (env args : List String) : List String :=
  ["--image", image, "--update-labels", "commit-sha=" ++ e.releaseSha] ++ env ++
    ["--args=" ++ ",".intercalate (args ++ ["--check-runtime"])]

def promoteFlags (args : List String) : List String :=
  ["--update-env-vars", "APP_RUNTIME_CHECK_ONLY=false", "--args=" ++ ",".intercalate args]

def authorizePrevious (c : Container) : Exec Unit :=
  if isRuntime c then grantOf .authorize c else pure ()

def retirePrevious (c : Container) : Exec Unit :=
  if isRuntime c ∧ c.value "APP_RELEASE_SHA" ≠ some e.releaseSha then grantOf .retire c
  else pure ()

def revokeGranted (c : Container) (granted : Bool) : Exec Unit :=
  if granted ∧ c.value "APP_RELEASE_SHA" ≠ some e.releaseSha then runtimeGrant .revoke e.releaseSha
  else pure ()

/-- The recovery of `deploy_job`. -/
def restoreJob (before : Definition) (container : Container) (granted : Bool) : Exec Unit := do
  emit "current" "failed"
  authorizePrevious container
  exec (.replace before)
  verifySpec e before "Job definition restoration could not be verified"
  revokeGranted e container granted
  emit "rollback" "succeeded"

def recoverJob {α : Type} (before : Definition) (container : Container) (active : List String)
    (granted : Bool) (x : Raised) : Exec α := do
  during x (restoreJob e before container granted)
  giveUp active ⟨.rollback "Job update failed; prior definition restored", some x.error⟩

/-- The `try` of `deploy_job` before the release is granted. -/
def stageJob (image : String) (args : List String) : Exec Unit := do
  emit "deploy-candidate" "running"
  let env ← attempt e.candidateArgs
  exec (.update (candidateFlags e image env args))
  let updated ← jobImage
  if updated ≠ image then refuse "updated Job image does not match authorized digest"
  else
    emit "deploy-candidate" "succeeded"
    emit "validate-candidate" "running"

/-- The `try` of `deploy_job` from then on. -/
def promoteJob (image : String) (container : Container) : Exec Result := do
  runtimeGrant .authorize e.releaseSha
  exec .check
  emit "validate-candidate" "succeeded"
  emit "promote" "running"
  exec (.update (promoteFlags container.args))
  let definition ← exec .describe
  let revision ← saveDefinition e definition
  emit "promote" "succeeded"
  retirePrevious e container
  emit "validate-production" "succeeded"
  pure ⟨image, revision, image⟩

/-- `deploy_job`. -/
def deployJob (image : String) : Exec Result :=
  if ¬"@sha256:".toList <:+: image.toList then refuse "Job deployment requires an immutable image"
  else do
    let before ← exec .describe
    let _ ← attempt (operationalSpec e before)
    let _ ← jobImage
    let _ ← saveDefinition e before
    let container ← firstContainer before
    if container.args.take 2 ≠ ["-m", "cgm_sanplat_param.worker"] ∨ "--type" ∉ container.args then
      refuse "Job command does not match the approved worker profile"
    else
      let active ← pauseSchedules e
      (stageJob e image container.args).handle (recoverJob e before container active false)
      let result ← (promoteJob e image container).handle (recoverJob e before container active true)
      resumeSchedules active
      pure result

/-! ## A rollback -/

/-- A container that can only check its runtime. -/
def Container.checkOnly (c : Container) : Container :=
  { c with
    args := c.args ++ ["--check-runtime"]
    env := c.env.filter (·.1 ≠ "APP_RUNTIME_CHECK_ONLY") ++ [("APP_RUNTIME_CHECK_ONLY", "true")] }

def Definition.checkOnly (d : Definition) : Definition :=
  { d with
    layout := ""
    spec := d.spec.map fun s => { s with containers := s.containers.modifyHead Container.checkOnly } }

/-- The `try` of `rollback_job`. -/
def restoreTarget (target : Definition) (container : Container) : Exec Unit := do
  grantOf .authorize container
  exec (.replace target.checkOnly)
  exec .check
  exec (.replace target)
  verifySpec e target "restored Job definition differs from target"

def recoverRollback {α : Type} (before : Definition) (active : List String) (x : Raised) : Exec α := do
  during x (do
    exec (.replace before)
    verifySpec e before "Job rollback recovery could not be verified")
  giveUp active x

/-- `rollback_job`. -/
def rollbackJob : Exec Result :=
  if ¬jobRevision e.targetRevision then refuse "invalid target Job definition fingerprint"
  else do
    let before ← exec .describe
    snapshotUri e e.targetRevision
    let target ← exec (.fetch e.targetRevision)
    if "job-" ++ e.digest target ≠ e.targetRevision then
      refuse "target Job definition fingerprint mismatch"
    else
      let _ ← attempt (operationalSpec e target)
      let container ← firstContainer target
      if ¬isRuntime container ∨ container.value "APP_RELEASE_RESOURCE" ≠ some e.service then
        refuse "rollback requires a compatible independent Job definition"
      else
        let active ← pauseSchedules e
        emit "rollback" "running"
        (restoreTarget e target container).handle (recoverRollback e before active)
        resumeSchedules active
        emit "rollback" "succeeded"
        let image ← jobImage
        pure ⟨"", e.targetRevision, image⟩

end

end Executor.Jobs
