import EngPlatform.Release.Events

/-!
# The orchestrator

The decisions on an execution that do not come from its executor: an operator's approval,
retirement and cancellation, GitHub's webhooks, and the submission of a new execution. `Caller`
lists every program that acts on an existing execution.
-/

set_option linter.dupNamespace false

namespace Release

section Orchestrator

variable (cfg : Config) (digest : Digest)

/-- `approve_canary`. -/
def approveCanary (approvedBy : String) : Program Execution := do
  let e ← getOrRaise .key
  perform (.managed (e .serviceName))
  if (e .serviceName : String) ∉ cfg.canaryServices then
    .raise (.value "Execution is not a canary")
  else if e .status ≠ .releasePlanned then
    .raise (.value "Canary does not have an approved release plan")
  else save [⟨.canaryApproved, true⟩, ⟨.extra "canary_approved_by", approvedBy⟩]

/-- `_SUPERSEDABLE_STATUSES`. -/
def supersedable : List Status := [.qualityPassed, .releasePlanned, .publishPending]

/-- `supersede`. -/
def supersede (supersededBy reason : String) : Program Execution := do
  let e ← getOrRaise .key
  perform (.managed (e .serviceName))
  if e .canaryApproved then
    .raise (.value "Execution already has an approved canary publication")
  else if (e .status : Status) ∉ supersedable then
    .raise (.value "Execution is not awaiting a release decision")
  else save [⟨.status, .superseded⟩, ⟨.extra "superseded_by", supersededBy⟩,
    ⟨.extra "superseded_reason", clip 500 reason⟩]

/-- `cancel` of a build that is superseded by a newer one. -/
def cancelBuild : Program Unit := do
  let e ← getOrRaise .key
  perform (.managed (e .serviceName))
  if e .operation ≠ .prQuality then pure ()
  else
    let e ← (if e .buildId ≠ "" then pure (some e)
      else do
        let recovered ← matchingBuild cfg e
        match recovered with
        | none => pure none
        | some b => do
          let e ← bind b
          pure (some e) : Program (Option Execution))
    match e with
    | none => pure ()
    | some _ => do
      perform (.external "builds:cancel")
      let _ ← save [⟨.status, .failed⟩, ⟨.extra "superseded", "true"⟩]
      pure ()

def cancelledText : String := "Cancelled by operator"

/-- `cancel_release`. -/
def cancelRelease (serviceName : String) : Program Execution := do
  perform (.managed serviceName)
  let r ← translate (· = .key) (.http 404 "Unknown release execution")
    (perform (.tx (.cancelRelease serviceName)))
  if r.1 .error ≠ cancelledText then pure r.1
  else if r.1 .provider = .githubActions ∧ r.1 .providerRunId ≠ "" then do
    perform (.external "workflow_run.cancel")
    pure r.1
  else if r.1 .provider = .cloudBuild ∧ r.1 .buildId ≠ "" then do
    cancelBuild cfg
    pure r.1
  else pure r.1

/-- `_start_checks`: the checks that the execution does not have yet. -/
def startChecks (e : Execution) : Program Unit := do
  perform (.managed (e .serviceName))
  let missing := (["quality", "workflows"] ++
    (if e .operation = .prQuality then ["title"] else ["release"])).filter
      fun kind => kind ∉ (e .checkIds : List String)
  create missing
  let _ ← save [⟨.checkIds, (e .checkIds : List String) ++ missing⟩]
  pure ()
where
  create : List String → Program Unit
    | [] => pure ()
    | kind :: kinds => do
      perform (.check kind "" "reserved")
      create kinds

/-- `_submit_if_managed`. -/
def submitIfManaged (e : Execution) (service : Service) : Program Execution := do
  Interleave.Prog.lift (requireManaged service)
  if e .bootstrapTicketId ≠ "" then getOr e
  else if e .provider ≠ .cloudBuild then pure e
  else
    let outcome ← attempt (submit cfg digest service)
    match outcome with
    | .error (.build message) => do
      let current ← getOrRaise (.build message)
      if current .status ≠ .failed then .raise (.build message)
      else do
        completeCheck current "quality" "failure"
          "Release quality could not start. No build was created."
        completeCheck current "workflows" "failure"
          "Release quality could not start. No build was created."
        pure current
    | .error x => .raise x
    | .ok result => do
      completeCheck result "quality" "" "Quality is running."
      completeCheck result "workflows" "" "Quality is running."
      pure result

/-- A redelivered push or pull request: the reserved execution is resumed. -/
def resume (service : Service) : Program Execution := do
  let e ← getOrRaise .key
  if isTerminal e then pure e
  else
    startChecks e
    let latest ← getOr e
    submitIfManaged cfg digest latest service

/-- `start_release` once it has reserved the execution. -/
def startRelease (service : Service) : Program Execution := do
  let e ← getOrRaise .key
  (do
    startChecks e
    if e .provider = .cloudBuild then do
      let _ ← submitIfManaged cfg digest e service
      pure ()
    else perform (.external "dispatch_release") : Program Unit).handle fun _ => do
      let _ ← save [⟨.status, .failed⟩,
        ⟨.error, "Selected provider could not start; provider remains " ++
          (e .provider : Provider).text⟩]
      .raise (.http 502 "Selected provider could not start; no alternate provider was launched")
  getOr e

/-- A completed workflow run, with what GitHub says of it. -/
structure WorkflowRun where
  runId : String
  headSha : String
  event : String
  conclusion : String
  url : String
  deliveryId : String
  pathMatches : Bool
  quotaFailure : Bool

/-- The run is one of the execution's workflow, which is still open. -/
def WorkflowRun.isFor (run : WorkflowRun) (e : Execution) : Bool :=
  e .headSha = run.headSha ∧ ¬(e .triggerEvent ≠ "" ∧ e .triggerEvent ≠ run.event) ∧
    e .provider = .githubActions ∧ ¬isTerminal e ∧ run.pathMatches ∧
    (run.event = "push" → e .operation = .mainRelease) ∧
    (run.event = "pull_request_target" → e .operation = .prQuality)

def saveForRun (runId : String) (changes : List Change) : Program Execution := do
  let now ← perform .now
  let r ← perform (.tx (.saveForProvider .githubActions (some runId) changes now))
  pure r.1

/-- What the conclusion of an admitted run is stored as. -/
def concludeRun (run : WorkflowRun) (e : Execution) : Program Execution :=
  if run.quotaFailure then
    saveForRun run.runId [⟨.status, .failed⟩,
      ⟨.error, "GitHub Actions rejected the operation for billing or quota; provider remains GitHub Actions."⟩]
  else if run.conclusion = "success" then do
    let _ ← saveForRun run.runId [⟨.providerTerminalSuccess, true⟩]
    reconcile cfg digest
  else if run.conclusion = "failure" ∧ (e .engineEventStatus = "quality_failed" ∨
      e .engineEventStatus = "quality_passed" ∨ e .releaseEngineFailed) ∧
      e .pendingReportHash ≠ "" then do
    let _ ← saveForRun run.runId (⟨.providerTerminalSuccess, true⟩ ::
      if e .engineEventStatus = "quality_passed" ∨ e .releaseEngineFailed then
        [⟨.releaseEngineFailed, true⟩, ⟨.releaseError,
          orElse (e .releaseError) "Release workflow failed after quality passed"⟩]
      else [])
    reconcile cfg digest
  else saveForRun run.runId [⟨.status, .failed⟩,
    ⟨.error, "GitHub workflow concluded " ++ orElse run.conclusion "unknown"⟩]

/-- `handle_workflow_run`, for this execution. -/
def handleWorkflowRun (run : WorkflowRun) : Program Execution := do
  perform (.external "workflow_run")
  let e ← getOrRaise .key
  if ¬run.isFor e then pure e
  else
    let now ← perform .now
    let admitted ← attempt (perform (.tx (.admitGithubRun run.runId
      [⟨.extra "github_run_url", run.url⟩, ⟨.extra "provider_conclusion", run.conclusion⟩,
        ⟨.extra "workflow_delivery_id", run.deliveryId⟩] now)))
    match admitted with
    | .ok r => concludeRun cfg digest run r.1
    | .error (.value _) => pure e
    | .error x => .raise x

/-- `reconcile_verified_github_run`, once the run is verified and the execution found. -/
def reconcileVerifiedRun (run : WorkflowRun) (requestedBy : String) : Program Execution := do
  let e ← getOrRaise .key
  perform (.managed (e .serviceName))
  perform (.external "workflow_run")
  let now ← perform .now
  let r ← perform (.tx (.admitGithubRun run.runId
    [⟨.extra "github_run_url", run.url⟩, ⟨.extra "recovery_requested_by", requestedBy⟩] now))
  if run.quotaFailure then
    save [⟨.status, .failed⟩,
      ⟨.error, "GitHub Actions billing rejected; original provider retained"⟩]
  else if run.conclusion = "success" then
    saveForRun run.runId [⟨.providerTerminalSuccess, true⟩]
  else .raise (.runtime ("GitHub run was not a Billing rejection: " ++ r.1 .executionId))

/-- The POST of a claimed bootstrap dispatch. -/
def postBootstrap (e : Execution) (request : BuildRequest) : Program Execution := do
  let a ← perform (.postBuild request)
  if a.code ≥ 300 then .raise (.build "Bootstrap submission did not confirm a build")
  else
    let b ← Interleave.Prog.lift a.build
    bindQualityBootstrap cfg e b ""

/-- `submit_quality_bootstrap` of the reserved attempt. -/
def submitQualityBootstrap (e : Execution) (request : BuildRequest) (tokenHash : String) :
    Program Execution := do
  Interleave.Prog.lift (requireNewBuilds cfg)
  if e .status ≠ .submitting ∨ e .provider ≠ .cloudBuild ∨ e .bootstrapTicketId = "" ∨
      e .buildId ≠ "" then .raise (.build "Bootstrap submission is not reserved")
  else
    let now ← perform .now
    let r ← perform (.tx (.claimQualityBootstrapDispatch (e .bootstrapNonce) (some tokenHash) now))
    if ¬r.2 then .raise (.build "Bootstrap dispatch is already consumed")
    else
      translate (fun _ => true)
        (.build "Bootstrap attempt consumed; read-only recovery required")
        (postBootstrap cfg e request)

/-- The quality bootstrap's part after its reservation. -/
def startQualityBootstrap (request : BuildRequest) (tokenHash : String) : Program Execution := do
  let e ← getOrRaise .key
  (submitQualityBootstrap cfg e request tokenHash).handle fun x => do
    let latest ← getOr e
    if (latest .status : Status) ∈ ([.submitting, .runningQuality, .unknown] : List Status) then do
      let now ← perform .now
      let _ ← perform (.tx (.updateQualityBootstrap (e .bootstrapNonce)
        [⟨.status, .unknown⟩,
          ⟨.error, "Bootstrap attempt consumed; read-only recovery required"⟩] now))
      .raise x
    else .raise x

end Orchestrator

/-- The programs that act on an execution. -/
inductive Caller
  | reconcile
  | sweep
  | approveCanary (approvedBy : String)
  | supersede (supersededBy reason : String)
  | cancelRelease (serviceName : String)
  | cancelBuild
  | acceptEvent (payload : Event) (tokenHash : String)
  | sourceToken (fingerprint runId : String)
  | eventToken (fingerprint runId tokenHash : String)
  | resolve (runId : String)
  | workflowRun (run : WorkflowRun)
  | verifiedRun (run : WorkflowRun) (requestedBy : String)
  | resume (service : Service)
  | startRelease (service : Service)
  | startQualityBootstrap (request : BuildRequest) (tokenHash : String)

/-- The program of a caller. The route of an approval goes on with a reconciliation. -/
def Caller.program (cfg : Config) (digest : Digest) : Caller → Program Unit
  | .reconcile => discard (Release.reconcile cfg digest)
  | .sweep => discard (Release.sweep cfg digest)
  | .approveCanary approvedBy =>
    discard (do let _ ← Release.approveCanary cfg approvedBy; Release.reconcile cfg digest)
  | .supersede supersededBy reason => discard (Release.supersede supersededBy reason)
  | .cancelRelease serviceName => discard (Release.cancelRelease cfg serviceName)
  | .cancelBuild => Release.cancelBuild cfg
  | .acceptEvent payload tokenHash => discard (Release.acceptEvent cfg digest payload tokenHash)
  | .sourceToken fingerprint runId => discard (issueSourceToken cfg fingerprint runId)
  | .eventToken fingerprint runId tokenHash =>
    discard (issueEventToken cfg fingerprint runId tokenHash)
  | .resolve runId => discard (resolveExecution cfg runId)
  | .workflowRun run => discard (handleWorkflowRun cfg digest run)
  | .verifiedRun run requestedBy => discard (reconcileVerifiedRun run requestedBy)
  | .resume service => discard (Release.resume cfg digest service)
  | .startRelease service => discard (Release.startRelease cfg digest service)
  | .startQualityBootstrap request tokenHash =>
    discard (Release.startQualityBootstrap cfg request tokenHash)
where
  discard (p : Program Execution) : Program Unit := do
    let _ ← p
    pure ()

end Release
