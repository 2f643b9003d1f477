import EngPlatform.Release.Submission

/-!
# The reconciler

`reconcile` moves an execution on from what its provider, the quality report and GitHub say: it
submits the build, commits the evidence of an ended one, plans the release and publishes it, and
sends a failed planner through its retries.
-/

set_option linter.dupNamespace false

namespace Release

/-- `_complete_check`; a check without an identifier is left out. -/
def completeCheck (e : Execution) (kind conclusion summary : String) : Program Unit :=
  if kind ∈ (e .checkIds : List String) then perform (.check kind conclusion summary) else pure ()

/-- `_verify_build`. -/
def verifyBuild (cfg : Config) (e : Execution) (b : Build) (plannerDigest : String) :
    Except Err Unit :=
  (if e .bootstrapTicketId ≠ "" then verifyQualityBootstrapBuild cfg e b "" else .ok ()).bind
    fun _ =>
      if b.id ≠ e .buildId ∨ ¬hasSource cfg e b then
        .error (.value "Cloud Build release source does not match execution")
      else if ¬hasSubstitutions b (expectedSubstitutions e
          (if plannerDigest ≠ "" then plannerDigest else cfg.releasePlannerImage)) then
        .error (.value "Cloud Build release identity does not match execution")
      else if b.serviceAccount ≠ cfg.serviceAccount then
        .error (.value "Cloud Build release service account does not match")
      else .ok ()

/-- The fields that `_record_build_timing` writes. -/
def timingFields : List String :=
  ["build_duration_seconds", "build_queue_seconds", "build_attempts", "build_minutes_estimate",
    "estimated_compute_cost_usd", "build_minute_price_usd", "cost_category", "build_finished_at"]

/-- `_record_build_timing`. -/
def recordBuildTiming (cfg : Config) (b : Build) : Program Unit :=
  if ¬b.timed then pure ()
  else do
    let e ← getOr emptyExecution
    let _ ← save (timingFields.map fun name => ⟨.extra name, cfg.timing name e b⟩)
    pure ()

/-- `str(execution.get(f) or otherwise)`. -/
def orElse (s otherwise : String) : String := if s ≠ "" then s else otherwise

/-- `s[:n]`. -/
def clip (n : ℕ) (s : String) : String := String.ofList (s.toList.take n)

/-- A failure after a reported quality failure, which still commits the report. -/
def failedAfterQuality (e : Execution) (b : Build) : Bool :=
  b.state = "FAILURE" ∧ e .engineEventStatus = "quality_failed" ∧ e .pendingReportHash ≠ ""

/-- A failure of the planner alone. -/
def failedInPlanning (e : Execution) (b : Build) : Bool :=
  b.state = "FAILURE" ∧ (e .engineEventStatus = "quality_passed" ∨ e .releaseEngineFailed) ∧
    e .pendingReportHash ≠ ""

/-- What a verified build says about its execution. -/
def buildOutcome (cfg : Config) (e : Execution) (b : Build) : Program Bool :=
  if b.state = "SUCCESS" then do
    recordBuildTiming cfg b
    if e .plannerRetryPending then do
      let now ← perform .now
      let _ ← save [⟨.plannerRetryPending, false⟩, ⟨.plannerRetryCompletedAt, now⟩]
      pure true
    else pure true
  else if b.state ∉ failedBuildStates then pure false
  else if failedAfterQuality e b then do
    recordBuildTiming cfg b
    pure true
  else if failedInPlanning e b then do
    let _ ← save ([⟨.releaseEngineFailed, true⟩,
      ⟨.releaseError, orElse (e .releaseError) "Release planner failed"⟩] ++
      match b.failedSteps with
      | [] => []
      | step :: _ => if step ≠ "" then [⟨.extra "release_failed_step", step⟩] else [])
    recordBuildTiming cfg b
    pure true
  else do
    let _ ← save [⟨.status, .failed⟩, ⟨.providerStatus, b.state⟩,
      ⟨.error, "Quality build concluded " ++ b.state⟩]
    completeCheck e "quality" "failure" ("Quality build: " ++ b.state)
    completeCheck e "workflows" "failure" ("Quality build: " ++ b.state)
    pure false

section Reconcile

variable (cfg : Config) (digest : Digest)

/-- The execution with its build, looked for if none is bound. -/
def boundExecution (e : Execution) : Program Execution :=
  if e .buildId ≠ "" then pure e
  else do
    let service ← perform (.catalog (e .serviceName))
    match service with
    | none => .raise (.value "Release service disappeared")
    | some service => reconcileUncertainSubmission cfg digest service

/-- `_provider_success`. -/
def providerSuccess (e : Execution) : Program Bool :=
  if e .provider = .githubActions then pure (e .providerTerminalSuccess)
  else do
    let e ← boundExecution cfg digest e
    if e .buildId = "" then pure false
    else do
      let b ← perform (.getBuild (e .buildId))
      Interleave.Prog.lift (verifyBuild cfg e b "")
      buildOutcome cfg e b

/-- What is recorded of a stored report. -/
def commitReport (e : Execution) (stored : Report) (hash : String) : Program Execution := do
  let service ← perform (.catalog (e .serviceName))
  if stored.gateStatus ≠ "PASSED" ∨ cfg.policyErrors stored service ≠ [] then do
    let result ← save [⟨.status, .qualityFailed⟩, ⟨.reportHash, hash⟩,
      ⟨.extra "quality_errors", String.intercalate "\n" (cfg.policyErrors stored service)⟩]
    completeCheck result "quality" "failure" "Quality policy failed."
    completeCheck result "workflows" "failure" "Quality policy failed."
    pure result
  else do
    let result ← save [⟨.status, .qualityPassed⟩, ⟨.reportHash, hash⟩, ⟨.evidenceCommitted, true⟩]
    completeCheck result "quality" "success" "Exact oss-v2 evidence passed."
    completeCheck result "workflows" "success" "Service contracts passed."
    pure result

/-- `_commit_quality`. -/
def commitQuality (e : Execution) : Program Execution :=
  if e .pendingReportHash = "" then
    .raise (.value "Successful provider did not produce a quality report")
  else do
    let report ← perform (.pendingReport (e .pendingReportHash))
    match report with
    | none => .raise (.value "Pending quality report is missing")
    | some report =>
      if ¬report.matches e then
        .raise (.value "Quality report does not match release execution")
      else do
        let stored ← perform (.saveReport report (e .pendingReportHash))
        perform (.external "save_execution_summary")
        commitReport cfg e stored.1 stored.2

/-- The tag is there and points to the commit, or is made. -/
def ensureTag (tag sha : String) : Program Unit := do
  let reference ← perform (.getRef tag)
  match reference with
  | some reference => do
    let commit ← (if reference.annotated then perform (.gitTag reference.sha)
      else pure reference.sha : Program String)
    if commit ≠ sha then .raise (.conflict "Release tag already points to another commit")
    else pure ()
  | none => perform (.createRef tag sha)

/-- The Release is there as planned, or is made. -/
def ensureRelease (tag notes sha : String) : Program GitHubRelease := do
  let release ← perform (.getRelease tag)
  match release with
  | some release =>
    if release.draft ∨ release.prerelease ∨ release.body ≠ notes then
      .raise (.conflict "GitHub Release metadata conflicts with the authorized plan")
    else pure release
  | none => perform (.createRelease tag notes sha)

/-- `publish_release`. -/
def publishRelease (e : Execution) : Program (List Change) := do
  perform (.publishing e)
  perform (.managed (e .serviceName))
  match (e .releasePlan : Option Plan) with
  | none => .raise (.value "Release execution does not contain a publishable plan")
  | some plan =>
    if plan.gitTag = "" ∨ plan.releaseType = .none then
      .raise (.value "Release execution does not contain a publishable plan")
    else do
      let current ← perform .defaultSha
      if current ≠ e .headSha then
        .raise (.conflict "Default branch moved after release validation")
      else do
        ensureTag plan.gitTag (e .headSha)
        let release ← ensureRelease plan.gitTag plan.notes (e .headSha)
        let now ← perform .now
        pure [⟨.extra "tag", plan.gitTag⟩, ⟨.extra "tag_sha", e .headSha⟩,
          ⟨.extra "release_id", release.id⟩, ⟨.extra "release_url", release.url⟩,
          ⟨.extra "published_at", now⟩]

/-- What is recorded of a publication that ended, or of what it raised. -/
def recordPublication : Except Err (List Change) → Program Execution
  | .error (.conflict message) => do
    let result ← save [⟨.status, .unknown⟩, ⟨.error, message⟩]
    completeCheck result "release" "action_required" message
    pure result
  | .error x => do
    let result ← save [⟨.status, .unknown⟩, ⟨.error, "GitHub release publication is uncertain"⟩,
      ⟨.publicationUncertain, true⟩, ⟨.extra "publication_error", clip 1000 x.text⟩]
    completeCheck result "release" "action_required" (clip 500 x.text)
    pure result
  | .ok published => do
    let result ← save ([⟨.status, .released⟩, ⟨.publicationUncertain, false⟩] ++ published)
    let tag : String := (lookup (.extra "tag") published).getD ""
    completeCheck result "release" "success" ("Published " ++ tag ++ ".")
    pure result

def attempt {α : Type} (p : Program α) : Program (Except Err α) :=
  Interleave.Prog.handle (do let a ← p; pure (Except.ok a)) fun x => pure (Except.error x)

/-- Publishes a claimed release, or one whose publication is uncertain. -/
def publishClaimed (e : Execution) : Program Execution :=
  if (e .status : Status) ∉ ([.publishPending, .unknown] : List Status) then pure e
  else if e .status = .unknown ∧ ¬e .publicationUncertain then pure e
  else do
    let outcome ← attempt (publishRelease e)
    recordPublication outcome

/-- The service is published automatically. -/
def automatic (e : Execution) : Bool := e .serviceName ∈ cfg.enabledServices

/-- `_publish_if_allowed`. -/
def publishIfAllowed (e : Execution) : Program Execution := do
  perform (.managed (e .serviceName))
  if ¬automatic cfg e ∧ ¬e .canaryApproved then pure e
  else if e .status = .releasePlanned then do
    let now ← perform .now
    let claimed ← perform (.tx (.claimPublish now))
    let latest ← getOr e
    if claimed.2 then publishClaimed latest else pure latest
  else publishClaimed e

/-- The failed build is one that this retry is for. -/
def retryApplies (e : Execution) (b : Build) (remediation contractRetry : Bool) : Except Err Bool :=
  let planner := b.substitution "_PLANNER_DIGEST"
  if remediation then
    .ok (b.substitution "_PLANNER_RETRY_ATTEMPT" = "1" ∧ hasDigest planner ∧
      planner ≠ cfg.releasePlannerImage ∧
      ¬(e .plannerRetryImage ≠ "" ∧ e .plannerRetryImage ≠ planner))
  else if contractRetry then
    if b.substitution "_PLANNER_RETRY_ATTEMPT" ≠ "2" ∨ planner ≠ cfg.releasePlannerImage ∨
        planner ≠ e .plannerRemediationRetryImage then .ok false
    else (plannerHash cfg digest).map fun hash => e .plannerRemediationRetryHash = hash
  else .ok true

/-- The build, if it is a failed one of the execution that this retry is for. -/
def inspectFailedBuild (e : Execution) (remediation contractRetry : Bool) :
    Program (Option Build) := do
  let b ← perform (.getBuild (e .buildId))
  let applies ← Interleave.Prog.lift (retryApplies cfg digest e b remediation contractRetry)
  if ¬applies then pure none
  else
    Interleave.Prog.lift (verifyBuild cfg e b
      (if remediation then b.substitution "_PLANNER_DIGEST" else ""))
    pure (some b)

/-- `stage_planner_retry`: the checks of the record it reads, and its transaction. -/
def stagePlannerRetry (a : RetryArgs) : Program Execution := do
  Interleave.Prog.lift (requireNewBuilds cfg)
  if a.failedBuildId = "" then .raise (.value "Failed Cloud Build identity is required")
  else do
    let e ← getOrRaise .key
    let previous := previousImage a e
    if ¬plannerRetryCandidate e a.remediation a.contractRetry ∨ e .buildId ≠ a.failedBuildId then
      .raise (.value "Release execution is not eligible for planner recovery")
    else if ¬hasDigest a.plannerImage then
      .raise (.value "A digest-pinned planner image is required")
    else if a.remediation ∧ (e .plannerRetryCount ≠ 1 ∨ previous = "" ∨
        previous = a.plannerImage) then
      .raise (.value "Planner remediation requires a different pinned image")
    else if a.contractRetry ∧ (e .plannerRetryCount ≠ 2 ∨ ¬e .plannerRemediationRetryChecked ∨
        e .plannerContractRetryChecked ∨ a.plannerHashValue = "" ∨
        e .plannerRemediationRetryImage = "" ∨ e .plannerRemediationRetryImage ≠ a.plannerImage ∨
        e .plannerRemediationRetryHash ≠ a.plannerHashValue) then
      .raise (.value "Planner contract retry is not authorized")
    else if ¬a.remediation ∧ e .plannerRetryCount ≠ 0 ∧ ¬a.contractRetry then
      .raise (.value "Planner retry budget is already consumed")
    else do
      let now ← perform .now
      let r ← perform (.tx (.stagePlannerRetry { a with previousPlannerImage := previous } e now))
      pure r.1

/-- The planner retry is staged and submitted. -/
def resubmitPlanner (e : Execution) (b : Build) (remediation contractRetry : Bool) :
    Program Execution := do
  let hash ← Interleave.Prog.lift (plannerHash cfg digest)
  let staged ← stagePlannerRetry cfg
    ⟨e .buildId, cfg.releasePlannerImage, hash, remediation, contractRetry,
      if remediation then b.substitution "_PLANNER_DIGEST" else ""⟩
  let service ← perform (.catalog (staged .serviceName))
  match service with
  | none => .raise (.value "Release service disappeared before planner retry")
  | some service => submit cfg digest service

/-- `_retry_planner_after_verified_step_failure`. -/
def retryPlanner (e : Execution) : Program Execution :=
  let remediation : Bool := e .plannerRetryCount = 1
  let contractRetry : Bool := e .plannerRetryCount = 2
  if ¬(cfg.buildsEnabled ∧ cfg.newBuildsEnabled) then pure e
  else if (e .plannerRetryCount : ℕ) ∉ [0, 1, 2] ∨
      ¬plannerRetryCandidate e remediation contractRetry then pure e
  else do
    let inspected ← (inspectFailedBuild cfg digest e remediation contractRetry).handle
      fun _ => pure none
    match inspected with
    | none => pure e
    | some b =>
      if ¬(b.state ∈ failedBuildStates ∧ b.failedSteps = ["release-plan"]) then
        save [if contractRetry then ⟨.plannerContractRetryChecked, true⟩
          else if remediation then ⟨.plannerRemediationRetryChecked, true⟩
          else ⟨.plannerRetryChecked, true⟩]
      else do
        recordBuildTiming cfg b
        (resubmitPlanner cfg digest e b remediation contractRetry).handle fun _ => getOr e

/-- The failed planner's build hidden by an identity drift. -/
def driftedBuild (e : Execution) : Program Bool := do
  let b ← perform (.getBuild (e .buildId))
  let planner := b.substitution "_PLANNER_DIGEST"
  if b.substitution "_PLANNER_RETRY_ATTEMPT" ≠ "1" ∨ ¬hasDigest planner ∨
      planner = cfg.releasePlannerImage then pure false
  else do
    Interleave.Prog.lift (verifyBuild cfg e b planner)
    pure (b.state = "FAILURE" ∧ b.failedSteps = ["release-plan"])

/-- `_recover_unknown_planner_identity_drift`. -/
def recoverUnknown (e : Execution) : Program Execution :=
  if e .status ≠ .unknown ∨ e .error ≠ "Cloud Build release identity does not match execution" ∨
      e .provider ≠ .cloudBuild ∨ e .operation ≠ .mainRelease ∨ ¬e .releaseEngineFailed ∨
      e .engineEventStatus ≠ "quality_passed" ∨ ¬e .evidenceCommitted ∨ e .reportHash = "" ∨
      e .plannerRetryCount ≠ 1 ∨ ¬e .plannerRetryChecked ∨ e .plannerRemediationRetryChecked ∨
      e .buildId = "" then pure e
  else do
    let drifted ← (driftedBuild cfg e).handle fun _ => pure false
    if ¬drifted then pure e
    else do
      let verified ← save [⟨.status, .failed⟩,
        ⟨.error, "Verified planner-only failure; callback image identity drift reconciled"⟩]
      retryPlanner cfg digest verified

/-- A failed planner: the release is failed, and its planner retried. -/
def failRelease (e : Execution) : Program Execution := do
  let failed ← save [⟨.status, .failed⟩,
    ⟨.error, clip 1000 (orElse (e .releaseError) "Release planner failed")⟩]
  completeCheck failed "release" "failure"
    (clip 500 (orElse (failed .error) "Release planner failed"))
  retryPlanner cfg digest failed

/-- What becomes of a main release whose quality passed. -/
def planRelease (e : Execution) : Program Execution :=
  let plan : Option Plan := e .releasePlan
  if e .releaseEngineFailed then failRelease cfg digest e
  else if e .engineEventStatus = "no_release" ∨ plan.any fun p => p.releaseType = .none then do
    let result ← save [⟨.status, .noRelease⟩]
    completeCheck result "release" "neutral" "No releasable changes."
    pure result
  else if plan = none then do
    let result ← save [⟨.status, .unknown⟩, ⟨.error, "Release plan is missing"⟩]
    completeCheck result "release" "action_required" "Release plan is missing."
    pure result
  else do
    let planned ← save [⟨.status, .releasePlanned⟩]
    publishIfAllowed cfg planned

/-- What becomes of an execution whose provider succeeded. -/
def settle (e : Execution) : Program Execution := do
  let e ← (if e .evidenceCommitted then pure e else commitQuality cfg e : Program Execution)
  if (e .status : Status) ∉ ([.qualityPassed, .runningQuality] : List Status) then
    if e .operation = .mainRelease ∧ e .releaseEngineFailed ∧
        e .engineEventStatus = "quality_passed" ∧ e .evidenceCommitted then
      failRelease cfg digest e
    else pure e
  else if e .operation = .prQuality then pure e
  else planRelease cfg digest e

/-- The provider's part of `reconcile`. -/
def reconcileProvider (e : Execution) : Program Execution := do
  let success ← providerSuccess cfg digest e
  let latest ← getOr e
  if success then settle cfg digest latest else pure latest

def dispatchDiagnostic : String :=
  "GitHub workflow has not appeared before the dispatch timeout; billing rejection is unconfirmed. Automatic fallback was not started."

/-- The submission part of `reconcile`. -/
def reconcileSubmission (e : Execution) : Program Execution := do
  let service ← perform (.catalog (e .serviceName))
  match service with
  | none => .raise (.value "Release service disappeared before build submission")
  | some service =>
    let outcome ← attempt (submit cfg digest service)
    match outcome with
    | .ok e => reconcileProvider cfg digest e
    | .error (.build _) => do
      let latest ← getOr e
      if latest .status = .failed then do
        completeCheck latest "quality" "failure"
          "Release quality could not start. No build was created."
        completeCheck latest "workflows" "failure"
          "Release quality could not start. No build was created."
        pure latest
      else pure latest
    | .error x => .raise x

/-- `reconcile` by the execution's status. -/
def reconcileStatus (e : Execution) : Program Execution :=
  if (e .status : Status) ∈
      ([.qualityFailed, .noRelease, .released, .superseded] : List Status) then pure e
  else if e .status = .failed then retryPlanner cfg digest e
  else if e .status = .unknown ∧ e .publicationUncertain then publishIfAllowed cfg e
  else if e .status = .unknown then recoverUnknown cfg digest e
  else if (e .status : Status) ∈ ([.releasePlanned, .publishPending] : List Status) then
    publishIfAllowed cfg e
  else if e .provider = .cloudBuild ∧ e .status = .submissionPending then
    reconcileSubmission cfg digest e
  else reconcileProvider cfg digest e

/-- The note of a workflow that has not appeared. -/
def noteDispatch (e : Execution) : Program Execution :=
  if (e .status : Status) ∈ ([.received, .waitingGithub] : List Status) ∧
      e .provider = .githubActions then do
    let now ← perform .now
    if cfg.dispatchTimedOut (e .createdAt) now ∧ e .error ≠ dispatchDiagnostic then
      save [⟨.error, dispatchDiagnostic⟩]
    else pure e
  else pure e

/-- `reconcile`. -/
def reconcile : Program Execution := do
  let e ← getOrRaise .key
  perform (.managed (e .serviceName))
  if e .bootstrapTicketId ≠ "" ∧
      (e .status : Status) ∈ ([.submitting, .unknown] : List Status) then do
    let e ← reconcileQualityBootstrap cfg e ""
    if e .buildId = "" then pure e
    else do
      let e ← noteDispatch cfg e
      reconcileStatus cfg digest e
  else do
    let e ← noteDispatch cfg e
    reconcileStatus cfg digest e

end Reconcile

end Release
