import EngPlatform.Executor.Commands

/-!
# Deployments and the runtime rollback

`deploy`, `deploy_runtime`, `promote_candidate`, `rollback_runtime` and `main`. Where the source
keeps `promoted` or `side_effects_started` in a variable, the body of its `try` is cut where the
variable changes, and each part has the handler for the value it is raised under.
-/

set_option linter.dupNamespace false

namespace Executor

open Interleave

variable (e : Env)

/-- What is returned of a candidate that serves the production. -/
def Result.of (candidate url production image : String) : Result :=
  ⟨candidate, url, candidate, production, image⟩

/-- The revisions that ran independently before, as their own variables describe them. -/
def isRuntime (r : Revision) : Bool := r.scope = some runtimeScope

/-- The recovery that `deploy_runtime` and `promote_candidate` share. The commits of `shas` served
before, and `granted` tells that the release was going to be authorized. -/
def restoreGranted (authorize : Exec Unit) (previous : Traffic) (message : String)
    (shas : List String) (granted promoted : Bool) : Exec Unit := do
  if promoted then
    authorize
    exec (.setTraffic previous)
    let current ← traffic e.service
    if current ≠ previous then refuse message else pure ()
  else pure ()
  if granted ∧ e.releaseSha ∉ shas then runtimeGrant .revoke e.releaseSha else pure ()
  if promoted then emit "rollback" "succeeded" else pure ()

def authorizeConfigs (configs : List Revision) : Exec Unit :=
  each configs fun row =>
    if isRuntime row then
      match row.sha with
      | some sha => runtimeGrant .authorize sha
      | none => .raise ⟨.command "KeyError", none⟩
    else pure ()

/-- The recovery of `deploy_runtime`, before the exception is raised again. -/
def restoreRuntime (previous : Traffic) (configs : List Revision) (promoted : Bool) :
    Exec Unit := do
  emit "current" "failed"
  restoreGranted e (authorizeConfigs configs) previous
    "runtime rollback traffic verification failed" (configs.map (·.sha.getD "")) true promoted

/-- What a handler raises after its recovery: `AutomaticRollback`, or the exception again. -/
def reraise {α : Type} (promoted : Bool) (message : String) (x : Raised) : Exec α :=
  if promoted then .raise ⟨.rollback message, some x.error⟩ else .raise x

def recoverRuntime {α : Type} (previous : Traffic) (configs : List Revision) (promoted : Bool)
    (x : Raised) : Exec α := do
  during x (restoreRuntime e previous configs promoted)
  reraise promoted "runtime deployment failed" x

/-- The retirement of the commits that served before. -/
def retireConfigs (configs : List Revision) : Exec Unit :=
  each configs fun row =>
    if isRuntime row && row.sha.getD "" ≠ e.releaseSha then runtimeGrant .retire (row.sha.getD "")
    else pure ()

/-- The `try` of `deploy_runtime`. -/
def promoteRuntime (previous : Traffic) (configs : List Revision) (candidate url image : String) :
    Exec Result := do
  Prog.handle (do
    runtimeGrant .authorize e.releaseSha
    runtimeReady e url e.releaseSha false
    emit "validate-candidate" "succeeded"
    emit "promote" "running") (recoverRuntime e previous configs false)
  Prog.handle (do
    exec (.setTraffic [(candidate, 100)])
    emit "promote" "succeeded"
    let production ← exec .serviceUrl
    emit "validate-production" "running"
    runtimeReady e production e.releaseSha false
    retireConfigs e configs
    emit "validate-production" "succeeded"
    pure (Result.of candidate url production image)) (recoverRuntime e previous configs true)

/-- `deploy_runtime`. -/
def deployRuntime (image : String) : Exec Result := do
  let previous ← traffic e.service
  let configs ← collect previous fun row => exec (.revision row.1)
  verifyArtemisWeb e
  let (candidate, url) ← deployCandidate e image
  emit "validate-candidate" "running"
  runtimeReady e url e.releaseSha true
  promoteRuntime e previous configs candidate url image

/-- `_previous_runtime`. -/
def previousRuntime (rows : Traffic) : Exec (List (String × RuntimeRow)) :=
  collect rows fun row => do
    let r ← exec (.revision row.1)
    pure (row.1, ⟨r.sha.getD "", r.scope.getD "", r.resource.getD "", r.specSha256⟩)

/-- `_candidate_facts`, of a revision whose name and image have the expected form. -/
def candidateFacts (image revision url : String) : Exec String := do
  exec (.check "candidate names")
  let r ← exec (.revision revision)
  if r.serviceLabel ≠ e.service ∨ r.commitLabel ≠ e.releaseSha ∨ r.image ≠ image ∨
      r.imageDigest ≠ image ∨ r.isReady = false then
    refuse "live candidate identity, image or readiness does not match"
  else do
    let rows ← exec .tags
    match rows.filter (·.tag = candidateTag e) with
    | [row] =>
      if row.revision ≠ revision ∨ row.url ≠ url then
        refuse "live candidate tag and URL do not match continuation"
      else pure r.specSha256
    | _ => refuse "live candidate tag and URL do not match continuation"

def authorizeStaged (c : Continuation) : Exec Unit :=
  each c.previousRuntime fun row =>
    if independentRuntime e && row.2.scope = runtimeScope then runtimeGrant .authorize row.2.sha
    else pure ()

/-- The recovery of `promote_candidate`, before the exception is raised again. -/
def restoreStaged (c : Continuation) (promoted : Bool) : Exec Unit :=
  restoreGranted e (authorizeStaged e c) c.previousTraffic
    "staged release rollback traffic could not be verified" (c.previousRuntime.map (·.2.sha))
    (independentRuntime e) promoted

def recoverStaged {α : Type} (c : Continuation) (promoted : Bool) (x : Raised) : Exec α := do
  during x (restoreStaged e c promoted)
  reraise promoted "staged release failed; prior traffic was restored" x

def retireStaged (c : Continuation) : Exec Unit :=
  each c.previousRuntime fun row =>
    if row.2.scope = runtimeScope ∧ row.2.sha ≠ e.releaseSha then runtimeGrant .retire row.2.sha
    else pure ()

/-- `_load_continuation`, which checks the traffic snapshot. -/
def loadContinuation : Exec Continuation :=
  match e.continuation with
  | none => refuse "candidate continuation is not valid"
  | some c =>
    if (∀ row ∈ c.previousTraffic, 0 < row.2) ∧ (c.previousTraffic.map (·.2)).sum = 100 ∧
        c.previousRuntime.map (·.1) = c.previousTraffic.map (·.1) then pure c
    else refuse "candidate continuation runtime snapshot is invalid"

/-- The `try` of `promote_candidate`. -/
def promoteStaged (c : Continuation) : Exec Result := do
  Prog.handle (do
    if independentRuntime e then
      runtimeGrant .authorize e.releaseSha
      runtimeReady e c.candidateUrl e.releaseSha false
    else pure ()
    runHooks e.profile.prePromoteHooks
    emit "promote" "running") (recoverStaged e c false)
  Prog.handle (do
    exec (.setTraffic [(c.candidateRevision, 100)])
    emit "promote" "succeeded"
    let production ← exec .serviceUrl
    emit "validate-production" "running"
    verifyPrivateBoundary e production
    if independentRuntime e then
      runtimeReady e production e.releaseSha false
      retireStaged e c
    else do
      smoke e production
      runHooks e.profile.postPromoteHooks
    emit "validate-production" "succeeded"
    pure (Result.of c.candidateRevision c.candidateUrl production c.imageDigest))
    (recoverStaged e c true)

/-- `promote_candidate`. -/
def promoteCandidate : Exec Result := do
  let c ← loadContinuation e
  let current ← traffic e.service
  if current ≠ c.previousTraffic then
    refuse "production traffic or configuration changed after candidate validation"
  else do
  let runtime ← previousRuntime c.previousTraffic
  if runtime ≠ c.previousRuntime then
    refuse "production traffic or configuration changed after candidate validation"
  else do
  let spec ← candidateFacts e c.imageDigest c.candidateRevision c.candidateUrl
  if spec ≠ c.candidateSpecSha256 then
    refuse "candidate revision configuration changed after validation"
  else do
  verifyPrivateBoundary e c.candidateUrl
  verifyArtemisWeb e
  if independentRuntime e then runtimeReady e c.candidateUrl e.releaseSha true
  else do
    smoke e c.candidateUrl
    runHooks e.profile.candidateHooks
  promoteStaged e c

/-- `rollback_runtime`, which returns the revision and the URL of the production. -/
def rollbackRuntime : Exec (String × String) := do
  let values ← exec (.revision e.targetRevision)
  if values.scope ≠ some runtimeScope ∨ values.resource ≠ some e.service then
    refuse "rollback requires a compatible independent runtime revision"
  else do
  let sha := values.sha.getD ""
  let previous ← traffic e.service
  verifyArtemisWeb e
  runtimeGrant .authorize sha
  let url ← Prog.handle (do
    exec (.setTraffic [(e.targetRevision, 100)])
    let url ← exec .serviceUrl
    runtimeReady e url sha false
    pure url) fun x => do
      during x (exec (.setTraffic previous))
      .raise x
  emit "rollback" "succeeded"
  pure (e.targetRevision, url)

/-- The recovery of `deploy`: the hook of the profile, or the traffic as it was. -/
def restoreService (previous : Traffic) (promoted : Bool) : Exec Unit := do
  if e.profile.recoveryHook ≠ "" then exec (.hook e.profile.recoveryHook)
  else if promoted then exec (.setTraffic previous)
  else pure ()
  let current ← traffic e.service
  if e.profile.recoveryHook = "" ∧ current ≠ previous then
    refuse "prior traffic was not restored exactly"
  else pure ()

def recoverService {α : Type} (previous : Traffic) (promoted sideEffectsStarted : Bool)
    (x : Raised) : Exec α :=
  if promoted = false ∧ sideEffectsStarted = false then .raise x
  else do
    emit "rollback" "running"
    (restoreService e previous promoted).handle fun y => do
      emit "rollback" "failed"
      .raise ⟨.runtime "release failed and paired recovery could not be verified", some y.error⟩
    emit "rollback" "succeeded"
    .raise ⟨.rollback "release failed; prior resources were restored", some x.error⟩

/-- `deploy`. -/
def deploy (image : String) : Exec Result :=
  if independentRuntime e then deployRuntime e image
  else do
  let previous ← traffic e.service
  exec (.check "verify_hooks")
  let early := e.profile.preCandidateHooks ≠ []
  let late := early ∨ e.profile.prePromoteHooks ≠ []
  let (candidate, url) ← Prog.handle (do
    runHooks e.profile.preCandidateHooks
    let (candidate, url) ← deployCandidate e image
    emit "validate-candidate" "running"
    smoke e url
    runHooks e.profile.candidateHooks
    emit "validate-candidate" "succeeded"
    pure (candidate, url)) (recoverService e previous false early)
  Prog.handle (do
    runHooks e.profile.prePromoteHooks
    emit "promote" "running") (recoverService e previous false late)
  Prog.handle (do
    exec (.setTraffic [(candidate, 100)])
    emit "promote" "succeeded"
    emit "validate-production" "running"
    let production ← exec .serviceUrl
    smoke e production
    runHooks e.profile.postPromoteHooks
    emit "validate-production" "succeeded"
    pure (Result.of candidate url production image)) (recoverService e previous true late)

/-- `image_for_tag`. A pull that fails means that the tag has no image yet, and a cache that cannot
be found or pulled is none. -/
def imageForTag : Exec String := do
  let _ ← exec (.docker "configure")
  let existing ← (exec (.docker "pull") >>= fun _ => pure true).handle fun x =>
    match x.error with
    | .command _ => pure false
    | _ => .raise x
  if existing then do
    let provenance ← exec (.docker "inspect")
    if provenance ≠ e.releaseSha then
      refuse "existing release image tag has conflicting provenance"
    else do
    let digest ← exec (.docker "digest")
    if "sha256:".toList.isPrefixOf digest.toList then pure (e.imageName ++ "@" ++ digest)
    else refuse "existing release image has no immutable digest"
  else do
    let cache ← (exec (.docker "cache")).handle fun x =>
      match x.error with
      | .command _ => pure ""
      | _ => .raise x
    if cache ≠ "" then emit "docker" "pull cache" else pure ()
    let _ ← exec (.docker "build")
    let _ ← exec (.docker "push")
    let digest ← exec (.docker "digest")
    if "sha256:".toList.isPrefixOf digest.toList then pure (e.imageName ++ "@" ++ digest)
    else refuse "Artifact Registry did not return an immutable digest"

/-- `write_summary`: the file in the workspace, and its copy when there is a bucket. -/
def writeSummary (values : Result) : Exec Result := do
  if e.evidenceBucket ≠ "" then
    exec (.upload ("gs://" ++ e.evidenceBucket ++ "/deployment-summaries/" ++ e.deploymentId ++
      ".json"))
  else pure ()
  pure values

/-- `main`, for a deployment of a service; it returns what the summary has. -/
def mainRun : Exec Result := do
  exec (.check "verify_profile")
  exec (.check "assert_source")
  exec (.check "verify_hooks")
  emit "verify-release" "running"
  exec (.check "verify_quality")
  emit "verify-release" "succeeded"
  match e.phase with
  | .promote => do
    let values ← promoteCandidate e
    writeSummary e values
  | .full => do
    emit "build" "running"
    let image ← imageForTag e
    emit "build" "succeeded"
    let values ← deploy e image
    writeSummary e values

/-- The script: an exception that is no `AutomaticRollback` is reported, and raised again. -/
def main : Exec Result :=
  (mainRun e).handle fun x =>
    match x.error with
    | .rollback _ => .raise x
    | _ => do
      emit "current" "failed"
      .raise x

end Executor
