import EngPlatform.Release.Reconciler

/-!
# The event routes

What an executor may call: its tokens, and the events that report on its run. A caller proves that
it is the execution's provider run; an event is stored once, in the order of its sequence numbers,
and the execution is then reconciled.
-/

set_option linter.dupNamespace false

namespace Release

/-- `ReleaseExecutionEvent`. -/
structure Event where
  executionId : String
  fingerprint : String
  providerRunId : String
  sequence : ℕ
  status : String
  report : Option Report
  reportHash : String
  releasePlan : Option Plan
  error : String

/-- `try p except <raised>: raise x`. -/
def translate {α : Type} (raised : Err → Bool) (x : Err) (p : Program α) : Program α :=
  p.handle fun y => if raised y then .raise x else .raise y

def Err.isValue : Err → Bool
  | .value _ => true
  | _ => false

def Err.isHttp : Err → Bool
  | .http _ _ => true
  | _ => false

def Err.isBinding : Err → Bool
  | .value _ | .key | .build _ => true
  | _ => false

section Routes

variable (cfg : Config) (digest : Digest)

/-- The bootstrap part of `_verify_cloud_build`. -/
def verifyBootstrap (e : Execution) (b : Build) (runId : String) : Program Unit := do
  let e ← (if e .buildId = "" then do
      let e ← reconcileQualityBootstrap cfg e runId
      if e .buildId ≠ runId then
        .raise (.value "Bootstrap recovery did not verify this build uniquely")
      else pure e
    else pure e : Program Execution)
  Interleave.Prog.lift (verifyQualityBootstrapBuild cfg e b runId)
  let now ← perform .now
  let _ ← perform (.tx (.updateQualityBootstrap (e .bootstrapNonce)
    [⟨.buildId, runId⟩, ⟨.providerRunId, runId⟩, ⟨.bootstrapBuildVerified, true⟩,
      ⟨.bootstrapVerifiedRequestHash, e .bootstrapBuildRequestHash⟩] now))
  pure ()

/-- `_verify_cloud_build`. -/
def verifyCloudBuild (e : Execution) (runId : String) : Program Unit :=
  if e .buildId ≠ "" ∧ e .buildId ≠ runId then
    .raise (.http 403 "Cloud Build identity mismatch")
  else do
    let b ← translate (fun _ => true) (.http 502 "Unable to verify Cloud Build")
      (perform (.getBuild runId))
    if b.id ≠ runId then .raise (.http 403 "Cloud Build identity mismatch")
    else if e .bootstrapTicketId ≠ "" then
      translate Err.isBinding (.http 403 "Cloud Build bootstrap identity mismatch")
        (verifyBootstrap cfg e b runId)
    else if ¬hasSource cfg e b ∨
        ¬hasSubstitutions b (expectedSubstitutions e cfg.releasePlannerImage) then
      .raise (.http 403 "Cloud Build source mismatch")
    else if b.serviceAccount = "" ∨ b.serviceAccount ≠ cfg.serviceAccount then
      .raise (.http 403 "Cloud Build service account mismatch")
    else if e .buildId = "" then
      translate Err.isBinding (.http 409 "Cloud Build binding conflict")
        (do let _ ← bind b; pure ())
    else pure ()

/-- `_verify_provider`. -/
def verifyProvider (e : Execution) (runId : String) : Program Unit :=
  if e .provider = .cloudBuild then do
    perform (.external "verify_google")
    perform (.managed (e .serviceName))
    verifyCloudBuild cfg e runId
  else do
    perform (.external "release_workflow_identity.verify")
    perform (.managed (e .serviceName))

/-- `_verify_event_token`, with the hash of the presented token. -/
def verifyEventToken (e : Execution) (tokenHash : String) : Except Err Unit :=
  if String.length (e .eventTokenHash) ≠ 64 ∨ tokenHash ≠ e .eventTokenHash then
    .error (.http 401 "Invalid execution event token")
  else .ok ()

/-- `_verify_report`. -/
def verifyReport (e : Execution) (payload : Event) : Program String :=
  match payload.report with
  | none => pure ""
  | some report =>
    if ¬report.matches e then .raise (.http 403 "Quality report identity mismatch")
    else (perform (.stageReport report payload.reportHash)).handle fun
      | .evidence message => .raise (.http 409 message)
      | x => .raise x

/-- The report and the plan of an event, checked; a conflict leaves the execution unknown. -/
def verifyPayload (e : Execution) (payload : Event) : Program (String × Option Plan) :=
  (do
    let reportHash ← verifyReport e payload
    let plan ← Interleave.Prog.lift (verifyPlan e payload.releasePlan)
    pure (reportHash, plan) : Program (String × Option Plan)).handle fun
  | .http 409 detail => do
    (do let _ ← save [⟨.status, .unknown⟩, ⟨.error, clip 1000 detail⟩]; pure () :
      Program Unit).handle fun x => if x.isValue then pure () else .raise x
    .raise (.http 409 detail)
  | x => .raise x

/-- The event is a release phase's failure after a reported quality success. -/
def releasePhaseFailure (e : Execution) (payload : Event) : Bool :=
  payload.status = "failed" ∧ e .operation = .mainRelease ∧ e .pendingReportHash ≠ "" ∧
    e .engineEventStatus = "quality_passed"

/-- What an accepted event writes. -/
def eventChanges (e : Execution) (payload : Event) (reportHash : String) (plan : Option Plan) :
    List Change :=
  [⟨.providerRunId, payload.providerRunId⟩, ⟨.engineEventStatus, payload.status⟩,
    ⟨.error, payload.error⟩] ++
  (if reportHash ≠ "" then [⟨.pendingReportHash, reportHash⟩] else []) ++
  (if plan ≠ none then [⟨.releasePlan, plan⟩] else []) ++
  if releasePhaseFailure e payload then
    [⟨.status, .runningQuality⟩, ⟨.releaseEngineFailed, true⟩,
      ⟨.releaseError, orElse payload.error "Release planner failed"⟩]
  else if payload.status = "failed" then [⟨.status, .failed⟩]
  else [⟨.status, .runningQuality⟩]

/-- The event is stored, and the execution reconciled. -/
def storeEvent (e : Execution) (payload : Event) (changes : List Change) : Program Execution := do
  let now ← perform .now
  let r ← translate Err.isValue (.http 409 "Release execution event conflicts")
    (perform (.tx (.acceptEvent payload.sequence (some (e .provider)) payload.providerRunId
      (e .eventTokenHash) changes now)))
  if r.2 ∧ r.1 .status ≠ .failed then
    (reconcile cfg digest).handle fun
      | .value message => save [⟨.status, .unknown⟩, ⟨.error, message⟩]
      | .evidence message => save [⟨.status, .unknown⟩, ⟨.error, message⟩]
      | x => .raise x
  else pure r.1

/-- `_accept_event`. -/
def acceptEvent (payload : Event) (tokenHash : String) : Program Execution := do
  let e ← getOrRaise (.http 404 "Unknown release execution")
  if payload.executionId ≠ e .executionId then .raise (.http 404 "Unknown release execution")
  else if payload.fingerprint ≠ e .fingerprint then
    .raise (.http 403 "Execution fingerprint mismatch")
  else
    verifyProvider cfg e payload.providerRunId
    Interleave.Prog.lift (verifyEventToken e tokenHash)
    if payload.sequence ≤ (e .eventSequence : ℕ) then pure e
    else
      let now ← perform .now
      let r ← translate Err.isValue (.http 409 "Release execution admission changed")
        (perform (.tx (.admitEventProvider (e .provider) payload.providerRunId
          (e .eventTokenHash) now)))
      let qualityResult : Bool :=
        payload.status = "quality_passed" ∨ payload.status = "quality_failed"
      let releaseResult : Bool :=
        payload.status = "release_planned" ∨ payload.status = "no_release"
      if qualityResult ≠ payload.report.isSome then
        .raise (.http 422 "Quality completion must contain exactly one quality report")
      else if releaseResult ≠ payload.releasePlan.isSome then
        .raise (.http 422 "Release completion must contain exactly one release plan")
      else
        let checked ← verifyPayload r.1 payload
        storeEvent cfg digest r.1 payload (eventChanges r.1 payload checked.1 checked.2)

/-- `issue_source_token`. -/
def issueSourceToken (fingerprint runId : String) : Program Execution := do
  let e ← getOrRaise (.http 404 "Unknown release execution")
  if fingerprint ≠ e .fingerprint then .raise (.http 403 "Execution fingerprint mismatch")
  else
    verifyProvider cfg e runId
    let now ← perform .now
    let r ← perform (.tx (.claimSourceToken runId now))
    if ¬r.2 then .raise (.http 409 "Source token was already issued")
    else
      translate (fun _ => true) (.http 502 "Unable to mint source token")
        (perform (.external "installation_read_token"))
      pure r.1

/-- `issue_event_token`, with the hash of the drawn token. -/
def issueEventToken (fingerprint runId tokenHash : String) : Program Execution := do
  let e ← getOrRaise (.http 404 "Unknown release execution")
  if fingerprint ≠ e .fingerprint then .raise (.http 403 "Execution fingerprint mismatch")
  else
    verifyProvider cfg e runId
    let now ← perform .now
    let r ← perform (.tx (.claimEventToken runId tokenHash now))
    if ¬r.2 then .raise (.http 409 "Event token was already issued") else pure r.1

/-- `resolve_execution`, by the workflow run `runId`. -/
def resolveExecution (runId : String) : Program Execution := do
  let e ← getOrRaise (.http 404 "Release execution is not available")
  if e .provider ≠ .githubActions then .raise (.http 404 "Release execution is not available")
  else if (e .status : Status) ∈ ([.failed, .qualityFailed, .noRelease, .released,
      .superseded] : List Status) then
    .raise (.http 409 "Release execution is already terminal")
  else
    perform (.external "release_workflow_identity.verify")
    perform (.managed (e .serviceName))
    if e .providerRunId ≠ "" ∧ e .providerRunId ≠ runId then
      .raise (.http 409 "Release execution already has a run")
    else
      let service ← perform (.catalog (e .serviceName))
      if service.isNone then .raise (.http 503 "Execution service is unavailable")
      else if service.any (fun s => s.profile.postgres) ∧ ¬hasDigest cfg.postgresImage then
        .raise (.http 503 "PostgreSQL image must be pinned by digest")
      else
        let now ← perform .now
        let r ← translate Err.isValue (.http 409 "Release execution admission changed")
          (perform (.tx (.admitGithubRun runId [] now)))
        pure r.1

/-- One execution of `reconcile_due`. -/
def sweep : Program Execution := do
  let listed ← getOrRaise .key
  (reconcile cfg digest).handle fun x =>
    if x.isHttp then pure listed
    else (save [⟨.status, .unknown⟩, ⟨.error,
      if listed .bootstrapTicketId ≠ "" then
        "Bootstrap recovery is unverified; attempt remains consumed"
      else clip 1000 x.text⟩]).handle fun _ => pure listed

end Routes

end Release
