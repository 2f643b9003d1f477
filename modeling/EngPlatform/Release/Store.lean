import EngPlatform.Release.Build
import EngPlatform.Lib.Prog

/-!
# The store's transactions

Each operation that writes an existing release execution is one transaction: it reads the record,
checks it and either raises or updates it. `Tx.run` gives the changes of every operation, and the
flag its caller gets, in the order of the source's checks.
-/

set_option linter.dupNamespace false

namespace Release

/-- The settings that the release service reads, and the functions it has from elsewhere. -/
structure Config where
  bootstrapStorage : Bool
  buildsEnabled : Bool
  newBuildsEnabled : Bool
  orchestratorEnabled : Bool
  enabledServices : List String
  canaryServices : List String
  githubActionsOnly : List String
  releasePlannerImage : String
  postgresImage : String
  serviceAccount : String
  projectId : String
  repositories : String → String
  platformApiUrl : String
  qualityBucket : String
  dispatchTimedOut : String → String → Bool
  graceOver : String → String → Bool
  policyErrors : Report → Option Service → List String
  bootstrapMatches : Execution → Build → Except Err Unit
  timing : String → Execution → Build → String
  tagObject : String → String

def qualityBootstrapTicketId : String := "artemis-pr172-quality-bootstrap-v1"

/-- `_TRANSITIONS`. -/
def transitions : Status → List Status
  | .received => [.waitingGithub, .submissionPending, .failed, .unknown]
  | .waitingGithub =>
    [.runningQuality, .qualityPassed, .qualityFailed, .submissionPending, .failed, .unknown]
  | .submissionPending =>
    [.submitting, .runningQuality, .qualityPassed, .qualityFailed, .failed, .unknown]
  | .submitting =>
    [.submissionPending, .runningQuality, .qualityPassed, .qualityFailed, .failed, .unknown]
  | .runningQuality => [.qualityPassed, .qualityFailed, .failed, .unknown]
  | .qualityPassed => [.releasePlanned, .noRelease, .released, .superseded, .failed, .unknown]
  | .releasePlanned => [.publishPending, .superseded, .failed, .unknown]
  | .publishPending => [.released, .releasePlanned, .superseded, .failed, .unknown]
  | .unknown =>
    [.submissionPending, .runningQuality, .releasePlanned, .released, .superseded, .failed]
  | _ => []

def Status.text : Status → String
  | .received => "received"
  | .waitingGithub => "waiting_github"
  | .submissionPending => "submission_pending"
  | .submitting => "submitting"
  | .submissionFailed => "submission_failed"
  | .runningQuality => "running_quality"
  | .qualityPassed => "quality_passed"
  | .qualityFailed => "quality_failed"
  | .releasePlanned => "release_planned"
  | .publishPending => "publish_pending"
  | .noRelease => "no_release"
  | .released => "released"
  | .superseded => "superseded"
  | .failed => "failed"
  | .unknown => "unknown"
  | .blank => ""
  | .other text => text

/-- `_validate_status_change`. -/
def validateStatusChange (current : Execution) (changes : List Change) : Except Err Unit :=
  match lookup .status changes with
  | none => .ok ()
  | some newStatus =>
    if newStatus = .blank ∨ newStatus = current .status then .ok ()
    else if current .bootstrapTicketId ≠ "" ∧ current .status = .qualityPassed then
      .error (.value "Completed quality bootstrap cannot be reopened")
    else if newStatus ∈ transitions (current .status) then .ok ()
    else .error (.value ("Invalid release execution transition " ++
      Status.text (current .status) ++ "->" ++ Status.text newStatus))

/-- `key in changes and changes[key] != current.get(key)`. -/
def changed (current : Execution) (changes : List Change) (f : Field) : Bool :=
  match lookup f changes with
  | some v => v ≠ current f
  | none => false

/-- The statuses a bootstrap attempt cannot go back to. -/
def retryStatuses : List Status :=
  [.received, .waitingGithub, .submissionPending, .submissionFailed]

def hasStatusIn (changes : List Change) (statuses : List Status) : Bool :=
  (lookup .status changes).any (· ∈ statuses)

/-- `_validate_changes` on a bootstrap attempt. -/
def validateBootstrapChanges (cfg : Config) (current : Execution) (changes : List Change) :
    Except Err Unit :=
  if ¬cfg.bootstrapStorage then
    .error (.runtime "Persistent quality bootstrap storage is unavailable")
  else if [.provider, .buildId, .providerRunId, .githubRunId, .buildName, .logsUrl,
      .pullRequestNumber, .repositoryId, .sourceTokenIssuedAt, .sourceTokenBuildId,
      .eventTokenHash, .eventTokenIssuedAt, .eventTokenBuildId, .eventTokenProviderRunId,
      .previousBuildIds].any (changed current changes) then
    .error (.value "Quality bootstrap attempt cannot be reset or rebound")
  else if hasStatusIn changes retryStatuses then
    .error (.value "Quality bootstrap attempt cannot be retried")
  else if changes.any fun c => c.1.isRetry then
    .error (.value "Quality bootstrap attempt cannot be retried")
  else if current .eventSequence ≠ 0 ∧
      (lookup .eventSequence changes).any (· < current .eventSequence) then
    .error (.value "Quality bootstrap evidence cannot be reset")
  else if (current .pendingReportHash ≠ "" ∧ changed current changes .pendingReportHash) ∨
      (current .reportHash ≠ "" ∧ changed current changes .reportHash) ∨
      (current .evidenceCommitted ∧ changed current changes .evidenceCommitted) then
    .error (.value "Quality bootstrap evidence is immutable")
  else .ok ()

/-- `_validate_changes`. -/
def validateChanges (cfg : Config) (current : Execution) (changes : List Change) :
    Except Err Unit :=
  if current .ticketId = qualityBootstrapTicketId then
    .error (.value "Quality bootstrap global ticket is immutable")
  else if (current .providerSelection).any Selection.locked ∧
      [.provider, .providerSelection, .triggerEvent].any (changed current changes) then
    .error (.value "Reserved release provider selection is immutable")
  else if changes.any fun c => c.1 ∈ identityFields then
    .error (.value "Release execution identity fields are immutable")
  else if changes.any fun c => c.1.isBootstrap then
    .error (.value "Quality bootstrap fields are immutable")
  else
    (if current .bootstrapTicketId ≠ "" then validateBootstrapChanges cfg current changes
      else .ok ()).bind fun _ => validateStatusChange current changes

/-- `_require_event_identity`. -/
def requireEventIdentity (current : Execution) (expectedProvider : Provider)
    (expectedRunId expectedTokenHash : String) : Except Err Unit :=
  if current .provider ≠ expectedProvider then .error (.value "Release execution provider changed")
  else if expectedRunId = "" ∨ current .providerRunId ≠ expectedRunId then
    .error (.value "Release execution run changed")
  else if expectedTokenHash ≠ "" ∧ current .eventTokenHash ≠ expectedTokenHash then
    .error (.value "Release execution event token changed")
  else if current .bootstrapTicketId ≠ "" ∧ ¬current .bootstrapBuildVerified then
    .error (.value "Quality bootstrap build has not been verified")
  else .ok ()

/-- 64 lowercase hexadecimal digits. -/
def isSha256 (s : String) : Bool :=
  s.length == 64 && s.toList.all fun c => c.isDigit || ('a' ≤ c && c ≤ 'f')

/-- What follows the last `@sha256:`, if there is one. -/
def afterDigestMark : List Char → Option (List Char)
  | [] => none
  | c :: cs =>
    match afterDigestMark cs with
    | some rest => some rest
    | none => if "@sha256:".toList.isPrefixOf (c :: cs) then some (cs.drop 7) else none

/-- `"@sha256:" in image`. -/
def hasDigest (image : String) : Bool := (afterDigestMark image.toList).isSome

def imageDigest (image : String) : String :=
  String.ofList ((afterDigestMark image.toList).getD [])

/-- One of the three planner attempts is left. -/
def attemptAvailable (value : Execution) (allowRemediation allowContractRetry : Bool) : Bool :=
  (value .plannerRetryCount = 0 ∧ ¬value .plannerRetryChecked) ∨
  (allowRemediation ∧ value .plannerRetryCount = 1 ∧ value .plannerRetryChecked ∧
    ¬value .plannerRemediationRetryChecked) ∨
  (allowContractRetry ∧ value .plannerRetryCount = 2 ∧ value .plannerRemediationRetryChecked ∧
    ¬value .plannerContractRetryChecked ∧
    isSha256 (imageDigest (value .plannerRemediationRetryImage)) ∧
    isSha256 (value .plannerRemediationRetryHash))

/-- `planner_retry_candidate`. -/
def plannerRetryCandidate (value : Execution) (allowRemediation allowContractRetry : Bool) :
    Bool :=
  value .bootstrapTicketId = "" ∧ value .status = .failed ∧ value .provider = .cloudBuild ∧
    value .operation = .mainRelease ∧ value .releaseEngineFailed ∧
    value .engineEventStatus = "quality_passed" ∧ value .evidenceCommitted ∧
    value .reportHash ≠ "" ∧ attemptAvailable value allowRemediation allowContractRetry ∧
    value .buildId ≠ ""

structure RetryArgs where
  failedBuildId : String
  plannerImage : String
  plannerHashValue : String
  remediation : Bool
  contractRetry : Bool
  previousPlannerImage : String
  deriving DecidableEq, Repr

/-- The planner image of the attempt before: the stored one, else the caller's. -/
def previousImage (a : RetryArgs) (current : Execution) : String :=
  if current .plannerRetryImage ≠ "" then current .plannerRetryImage else a.previousPlannerImage

/-- What `stage_planner_retry` writes, from the record it read before its transaction. -/
def retryChanges (a : RetryArgs) (seen : Execution) (now : String) : List Change :=
  [⟨.status, .submissionPending⟩, ⟨.buildId, ""⟩, ⟨.providerRunId, ""⟩,
    ⟨.providerStatus, "RETRY_PENDING"⟩, ⟨.logsUrl, ""⟩, ⟨.buildName, ""⟩,
    ⟨.previousBuildIds,
      if a.failedBuildId ∈ (seen .previousBuildIds : List String) then seen .previousBuildIds
      else (seen .previousBuildIds : List String) ++ [a.failedBuildId]⟩,
    ⟨.plannerRetryPending, true⟩, ⟨.plannerRetryCount, (seen .plannerRetryCount : ℕ) + 1⟩,
    ⟨.plannerRetryChecked, true⟩, ⟨.plannerRetryPreviousBuildId, a.failedBuildId⟩,
    ⟨.plannerRetryRequestedAt, now⟩, ⟨.releaseEngineFailed, false⟩, ⟨.releaseError, ""⟩,
    ⟨.error, ""⟩, ⟨.updatedAt, now⟩] ++
  if a.remediation then
    [⟨.plannerRemediationRetryChecked, true⟩, ⟨.plannerRemediationRetryPending, true⟩,
      ⟨.plannerRemediationRetryPreviousBuildId, a.failedBuildId⟩,
      ⟨.plannerRemediationRetryImage, a.plannerImage⟩,
      ⟨.plannerRemediationRetryHash, a.plannerHashValue⟩,
      ⟨.plannerRetryImage, a.previousPlannerImage⟩]
  else if a.contractRetry then
    [⟨.plannerContractRetryChecked, true⟩, ⟨.plannerContractRetryPending, true⟩,
      ⟨.plannerContractRetryPreviousBuildId, a.failedBuildId⟩,
      ⟨.plannerContractRetryImage, a.plannerImage⟩,
      ⟨.plannerContractRetryHash, a.plannerHashValue⟩]
  else [⟨.plannerRetryImage, a.plannerImage⟩]

/-- `_TERMINAL` of the orchestrator. -/
def terminal : List Status := [.qualityFailed, .noRelease, .released, .failed]

/-- `_is_terminal`. -/
def isTerminal (execution : Execution) : Bool :=
  execution .status ∈ terminal ∨
    (execution .operation = .prQuality ∧ execution .status = .qualityPassed)

/-- `_claim_build_scoped_token`, with the values of the token's two fields. -/
def claimBuildScopedToken (cfg : Config) (current : Execution) (providerRunId : String)
    (source : Bool) (issuedFor issuedAt : String) : Except Err Bool :=
  if current .bootstrapTicketId ≠ "" ∧ ¬cfg.bootstrapStorage then
    .error (.runtime "Persistent quality bootstrap storage is unavailable")
  else if current .bootstrapTicketId ≠ "" ∧ (¬current .bootstrapBuildVerified ∨
      (current .status : Status) ∈ ([.failed, .qualityFailed, .noRelease, .released, .superseded,
        .qualityPassed] : List Status)) then .ok false
  else if providerRunId = "" then .ok false
  else
    match current .provider with
    | .cloudBuild =>
      if current .buildId ≠ providerRunId then .ok false
      else .ok (free (current .previousBuildIds))
    | .githubActions =>
      if current .providerRunId ≠ providerRunId then .ok false
      else if source ∧ (current .status : Status) ∉
          ([.waitingGithub, .runningQuality] : List Status) then .ok false
      else .ok (free [])
where
  free (previous : List String) : Bool :=
    ¬(issuedFor = providerRunId) ∧ ¬(issuedFor ≠ "" ∧ issuedFor ∉ previous) ∧
      ¬(issuedFor = "" ∧ issuedAt ≠ "" ∧ (previous = [] ∨ providerRunId ∈ previous))

/-- The transactions, each with the arguments of its operation and the time it was made at. The
token of a bootstrap dispatch is given by its hash, an empty one by none. -/
inductive Tx
  | save (changes : List Change) (now : String)
  | saveForProvider (expectedProvider : Provider) (expectedRunId : Option String)
    (changes : List Change) (now : String)
  | admitGithubRun (providerRunId : String) (metadata : List Change) (now : String)
  | admitEventProvider (expectedProvider : Provider) (expectedRunId expectedTokenHash now : String)
  | acceptEvent (sequence : ℕ) (expectedProvider : Option Provider)
    (expectedRunId expectedTokenHash : String) (changes : List Change) (now : String)
  | claimSubmission (now : String)
  | bindBuild (buildId : String) (metadata : List Change) (now : String)
  | claimPublish (now : String)
  | transitionToCloudBuild (reason now : String)
  | updateQualityBootstrap (attemptNonce : String) (changes : List Change) (now : String)
  | claimQualityBootstrapDispatch (attemptNonce : String) (tokenHash : Option String)
    (now : String)
  | claimSourceToken (providerRunId now : String)
  | claimEventToken (providerRunId tokenHash now : String)
  | stagePlannerRetry (args : RetryArgs) (seen : Execution) (now : String)
  | cancelRelease (serviceName : String)

/-- `require_new_builds`. -/
def requireNewBuilds (cfg : Config) : Except Err Unit :=
  if cfg.buildsEnabled ∧ cfg.newBuildsEnabled then .ok ()
  else .error (.http 409 "New Cloud Builds are paused by policy; no build was created. Choose GitHub Actions for a new operation.")

/-- The fields `bind_build` takes no metadata for. -/
def bindReserved : List Field :=
  identityFields ++ [Field.provider, .buildId, .providerRunId]

/-- The fields `update_quality_bootstrap` may write. -/
def bootstrapAllowed (f : Field) : Bool :=
  f ∈ ([.status, .error, .buildId, .providerRunId, .providerStatus, .logsUrl, .buildName,
    .bootstrapBuildVerified, .bootstrapVerifiedRequestHash,
    .extra "submission_reconciled_at"] : List Field)

/-- `update_quality_bootstrap`'s check of a build binding. -/
def verifiedBinding (current : Execution) (changes : List Change) : Bool :=
  match lookup .buildId changes with
  | some buildId =>
    current .bootstrapDispatchStarted ∧ buildId ≠ "" ∧ String.length buildId ≤ 128 ∧
      lookup .providerRunId changes = some buildId ∧
      lookup .bootstrapBuildVerified changes = some true ∧
      lookup .bootstrapVerifiedRequestHash changes = some (current .bootstrapBuildRequestHash) ∧
      (current .buildId = "" ∨ current .buildId = buildId) ∧
      (current .providerRunId = "" ∨ current .providerRunId = buildId)
  | none => false

/-- The changes a transaction makes to the record it reads, and the flag it returns. -/
def Tx.run (cfg : Config) (current : Execution) : Tx → Except Err (List Change × Bool)
  | .save changes now =>
    if changes.any fun c => c.1 ∈ identityFields then
      .error (.value "Release execution identity fields are immutable")
    else
      let changes := changes ++ [⟨.updatedAt, now⟩]
      (validateChanges cfg current changes).bind fun _ => .ok (changes, true)
  | .saveForProvider expectedProvider expectedRunId changes now =>
    let changes := changes ++ [⟨.updatedAt, now⟩]
    if current .provider ≠ expectedProvider then
      .error (.value "Release execution provider changed")
    else if expectedRunId.any (current .providerRunId ≠ ·) then
      .error (.value "Release execution run changed")
    else (validateChanges cfg current changes).bind fun _ => .ok (changes, true)
  | .admitGithubRun providerRunId metadata now =>
    let changes := metadata ++ [⟨.providerRunId, providerRunId⟩, ⟨.githubRunId, providerRunId⟩,
      ⟨.updatedAt, now⟩]
    if providerRunId = "" ∨ ¬providerRunId.toList.all Char.isDigit then
      .error (.value "GitHub workflow run is invalid")
    else if current .provider ≠ .githubActions ∨ current .bootstrapTicketId ≠ "" then
      .error (.value "Release execution provider changed")
    else if (current .status : Status) ∉ ([.waitingGithub, .runningQuality] : List Status) then
      .error (.value "Release execution is not available for GitHub admission")
    else if current .providerRunId ≠ "" ∧ current .providerRunId ≠ providerRunId then
      .error (.value "Release execution already has a run")
    else (validateChanges cfg current changes).bind fun _ => .ok (changes, true)
  | .admitEventProvider expectedProvider expectedRunId expectedTokenHash now =>
    (requireEventIdentity current expectedProvider expectedRunId expectedTokenHash).bind fun _ =>
      if (current .status : Status) ∈ ([.failed, .qualityFailed, .noRelease, .released,
          .superseded] : List Status) ∨
          (current .bootstrapTicketId ≠ "" ∧ current .status = .qualityPassed) then
        .error (.value "Release execution is terminal")
      else .ok ([⟨.eventAdmittedAt, now⟩], true)
  | .acceptEvent sequence expectedProvider expectedRunId expectedTokenHash changes now =>
    let changes := changes ++ [⟨.eventSequence, sequence⟩, ⟨.updatedAt, now⟩]
    (match expectedProvider with
      | some provider => requireEventIdentity current provider expectedRunId expectedTokenHash
      | none =>
        if current .bootstrapTicketId ≠ "" then
          .error (.value "Quality bootstrap event requires verified provider identity")
        else .ok ()).bind fun _ =>
      if sequence ≤ current .eventSequence then .ok ([], false)
      else (validateChanges cfg current changes).bind fun _ => .ok (changes, true)
  | .claimSubmission now =>
    if current .bootstrapTicketId ≠ "" ∨ current .provider ≠ .cloudBuild ∨ current .buildId ≠ "" ∨
        (current .status : Status) ∉ ([.submissionPending, .submissionFailed] : List Status) then
      .ok ([], false)
    else .ok ([⟨.status, .submitting⟩, ⟨.updatedAt, now⟩], true)
  | .bindBuild buildId metadata now =>
    let changes := metadata ++ [⟨.buildId, buildId⟩, ⟨.providerRunId, buildId⟩,
      ⟨.status, .submissionPending⟩, ⟨.updatedAt, now⟩]
    if buildId = "" ∨ buildId.length > 128 then .error (.value "Cloud Build ID is invalid")
    else if metadata.any fun c => c.1 ∈ bindReserved then
      .error (.value "Cloud Build binding metadata contains reserved fields")
    else if current .bootstrapTicketId ≠ "" then
      .error (.value "Quality bootstrap requires verified build binding")
    else if current .provider ≠ .cloudBuild then
      .error (.value "Release execution is not Cloud Build managed")
    else if current .buildId ≠ "" ∧ current .buildId ≠ buildId then
      .error (.value "Release execution is already bound to another build")
    else if current .buildId = buildId then .ok ([], false)
    else (validateStatusChange current changes).bind fun _ => .ok (changes, true)
  | .claimPublish now =>
    if current .operation ≠ .mainRelease ∨ current .status ≠ .releasePlanned ∨
        current .publishClaimedAt ≠ "" then .ok ([], false)
    else .ok ([⟨.status, .publishPending⟩, ⟨.updatedAt, now⟩, ⟨.publishClaimedAt, now⟩], true)
  | .transitionToCloudBuild reason now =>
    if (current .providerSelection).any Selection.locked then
      .error (.value "Reserved release provider is immutable")
    else if current .bootstrapTicketId ≠ "" then
      .error (.value "Quality bootstrap provider cannot be reset")
    else if current .serviceName ∈ cfg.githubActionsOnly then
      .error (.value "Service releases run on GitHub Actions only")
    else if current .provider = .cloudBuild then .ok ([], false)
    else if (current .status : Status) ∉ ([.received, .waitingGithub] : List Status) then
      .error (.value "Release execution is no longer fallback eligible")
    else (requireNewBuilds cfg).bind fun _ =>
      .ok ([⟨.provider, .cloudBuild⟩, ⟨.status, .submissionPending⟩,
        ⟨.extra "fallback_reason", reason⟩, ⟨.updatedAt, now⟩], true)
  | .updateQualityBootstrap attemptNonce changes now =>
    if ¬cfg.bootstrapStorage then
      .error (.runtime "Persistent quality bootstrap storage is unavailable")
    else if changes.any fun c => ¬bootstrapAllowed c.1 then
      .error (.value "Quality bootstrap update contains reserved fields")
    else if current .bootstrapTicketId ≠ qualityBootstrapTicketId ∨
        current .bootstrapNonce ≠ attemptNonce then
      .error (.value "Quality bootstrap attempt identity mismatch")
    else if (changes.any fun c => c.1 = .buildId) ∧ ¬verifiedBinding current changes then
      .error (.value "Quality bootstrap build binding is not verified")
    else if ¬(changes.any fun c => c.1 = .buildId) ∧ changes.any fun c =>
        c.1 ∈ ([.providerRunId, .bootstrapBuildVerified,
          .bootstrapVerifiedRequestHash] : List Field) then
      .error (.value "Quality bootstrap verification requires a build binding")
    else if hasStatusIn changes retryStatuses then
      .error (.value "Quality bootstrap attempt cannot be retried")
    else
      let changes := changes ++ [⟨.updatedAt, now⟩]
      (validateStatusChange current changes).bind fun _ => .ok (changes, true)
  | .claimQualityBootstrapDispatch attemptNonce tokenHash now =>
    if ¬cfg.bootstrapStorage then
      .error (.runtime "Persistent quality bootstrap storage is unavailable")
    else if current .bootstrapTicketId ≠ qualityBootstrapTicketId ∨
        current .bootstrapNonce ≠ attemptNonce ∨
        some (current .bootstrapDispatchTokenHash) ≠ tokenHash ∨ current .bootstrapDispatchStarted ∨
        current .provider ≠ .cloudBuild ∨ current .status ≠ .submitting ∨
        current .buildId ≠ "" then .ok ([], false)
    else .ok ([⟨.bootstrapDispatchStarted, true⟩, ⟨.bootstrapDispatchStartedAt, now⟩,
      ⟨.updatedAt, now⟩], true)
  | .claimSourceToken providerRunId now =>
    let issuedFor : String :=
      if current .provider = .cloudBuild then current .sourceTokenBuildId
      else current .sourceTokenProviderRunId
    (claimBuildScopedToken cfg current providerRunId true issuedFor
      (current .sourceTokenIssuedAt)).bind fun granted =>
      if granted then
        .ok ([⟨.sourceTokenIssuedAt, now⟩, ⟨.updatedAt, now⟩,
          if current .provider = .cloudBuild then ⟨.sourceTokenBuildId, providerRunId⟩
          else ⟨.sourceTokenProviderRunId, providerRunId⟩], true)
      else .ok ([], false)
  | .claimEventToken providerRunId tokenHash now =>
    if ¬isSha256 tokenHash then
      .error (.value "Event token hash must be a SHA-256 hex digest")
    else
      let issuedFor : String :=
        if current .provider = .cloudBuild then current .eventTokenBuildId
        else current .eventTokenProviderRunId
      (claimBuildScopedToken cfg current providerRunId false issuedFor
        (current .eventTokenIssuedAt)).bind fun granted =>
        if granted then
          .ok ([⟨.eventTokenHash, tokenHash⟩, ⟨.eventTokenIssuedAt, now⟩, ⟨.updatedAt, now⟩,
            if current .provider = .cloudBuild then ⟨.eventTokenBuildId, providerRunId⟩
            else ⟨.eventTokenProviderRunId, providerRunId⟩], true)
        else .ok ([], false)
  | .stagePlannerRetry a seen now =>
    if ¬plannerRetryCandidate current a.remediation a.contractRetry ∨
        current .buildId ≠ a.failedBuildId then
      .error (.value "Release execution is not eligible for planner recovery")
    else if ¬hasDigest a.plannerImage ∨
        (a.remediation ∧ (current .plannerRetryCount ≠ 1 ∨
          previousImage a current = a.plannerImage ∨ a.plannerHashValue = "")) ∨
        (a.contractRetry ∧ (current .plannerRetryCount ≠ 2 ∨ a.plannerHashValue = "" ∨
          current .plannerContractRetryChecked ∨
          current .plannerRemediationRetryImage ≠ a.plannerImage ∨
          current .plannerRemediationRetryHash ≠ a.plannerHashValue)) ∨
        (¬a.remediation ∧ current .plannerRetryCount ≠ 0 ∧ ¬a.contractRetry) then
      .error (.value "Planner remediation image is not authorized")
    else .ok (retryChanges a seen now, true)
  | .cancelRelease serviceName =>
    if current .serviceName ≠ serviceName then
      .error (.http 404 "Unknown release execution")
    else if isTerminal current then .ok ([], false)
    else if (current .status : Status) ∈ ([.submitting, .unknown] : List Status) then
      .error (.http 409 "Uncertain submission requires reconciliation before cancellation")
    else .ok ([⟨.status, .failed⟩, ⟨.error, "Cancelled by operator"⟩], true)

/-- What a transaction writes if it writes. -/
def Tx.changes (current : Execution) : Tx → List Change
  | .save changes now | .saveForProvider _ _ changes now | .updateQualityBootstrap _ changes now =>
    changes ++ [⟨.updatedAt, now⟩]
  | .admitGithubRun providerRunId metadata now =>
    metadata ++ [⟨.providerRunId, providerRunId⟩, ⟨.githubRunId, providerRunId⟩, ⟨.updatedAt, now⟩]
  | .admitEventProvider _ _ _ now => [⟨.eventAdmittedAt, now⟩]
  | .acceptEvent sequence _ _ _ changes now =>
    changes ++ [⟨.eventSequence, sequence⟩, ⟨.updatedAt, now⟩]
  | .claimSubmission now => [⟨.status, .submitting⟩, ⟨.updatedAt, now⟩]
  | .bindBuild buildId metadata now =>
    metadata ++ [⟨.buildId, buildId⟩, ⟨.providerRunId, buildId⟩, ⟨.status, .submissionPending⟩,
      ⟨.updatedAt, now⟩]
  | .claimPublish now => [⟨.status, .publishPending⟩, ⟨.updatedAt, now⟩, ⟨.publishClaimedAt, now⟩]
  | .transitionToCloudBuild reason now =>
    [⟨.provider, .cloudBuild⟩, ⟨.status, .submissionPending⟩,
      ⟨.extra "fallback_reason", reason⟩, ⟨.updatedAt, now⟩]
  | .claimQualityBootstrapDispatch _ _ now =>
    [⟨.bootstrapDispatchStarted, true⟩, ⟨.bootstrapDispatchStartedAt, now⟩, ⟨.updatedAt, now⟩]
  | .claimSourceToken providerRunId now =>
    [⟨.sourceTokenIssuedAt, now⟩, ⟨.updatedAt, now⟩,
      if current .provider = .cloudBuild then ⟨.sourceTokenBuildId, providerRunId⟩
      else ⟨.sourceTokenProviderRunId, providerRunId⟩]
  | .claimEventToken providerRunId tokenHash now =>
    [⟨.eventTokenHash, tokenHash⟩, ⟨.eventTokenIssuedAt, now⟩, ⟨.updatedAt, now⟩,
      if current .provider = .cloudBuild then ⟨.eventTokenBuildId, providerRunId⟩
      else ⟨.eventTokenProviderRunId, providerRunId⟩]
  | .stagePlannerRetry a seen now => retryChanges a seen now
  | .cancelRelease _ => [⟨.status, .failed⟩, ⟨.error, "Cancelled by operator"⟩]

/-- What holds of the record when a transaction writes. -/
def Tx.Guard (cfg : Config) (current : Execution) : Tx → Prop
  | .admitEventProvider expectedProvider expectedRunId expectedTokenHash _ =>
    requireEventIdentity current expectedProvider expectedRunId expectedTokenHash = .ok () ∧
      (current .status : Status) ∉ ([.failed, .qualityFailed, .noRelease, .released,
        .superseded] : List Status)
  | .claimSubmission _ => current .bootstrapTicketId = "" ∧ current .provider = .cloudBuild ∧
      current .buildId = "" ∧
      (current .status : Status) ∈ ([.submissionPending, .submissionFailed] : List Status)
  | .bindBuild buildId metadata now =>
    (metadata.all fun c => c.1 ∉ bindReserved) = true ∧ current .bootstrapTicketId = "" ∧
      current .provider = .cloudBuild ∧ (current .buildId = "" ∨ current .buildId = buildId) ∧
      validateStatusChange current (Tx.changes current (.bindBuild buildId metadata now)) = .ok ()
  | .claimPublish _ => current .operation = .mainRelease ∧ current .status = .releasePlanned ∧
      current .publishClaimedAt = ""
  | .transitionToCloudBuild _ _ => current .provider = .githubActions ∧
      (current .status : Status) ∈ ([.received, .waitingGithub] : List Status)
  | .updateQualityBootstrap n changes now =>
    (changes.all fun c => bootstrapAllowed c.1) = true ∧
      current .bootstrapTicketId = qualityBootstrapTicketId ∧
      hasStatusIn changes retryStatuses = false ∧
      validateStatusChange current
        (Tx.changes current (.updateQualityBootstrap n changes now)) = .ok ()
  | .claimQualityBootstrapDispatch _ _ _ =>
    current .bootstrapTicketId = qualityBootstrapTicketId ∧ current .status = .submitting
  | .claimSourceToken _ _ | .claimEventToken _ _ _ => True
  | .stagePlannerRetry a _ _ => plannerRetryCandidate current a.remediation a.contractRetry = true ∧
      current .buildId = a.failedBuildId ∧ hasDigest a.plannerImage = true
  | .cancelRelease serviceName => current .serviceName = serviceName ∧
      isTerminal current = false ∧
      (current .status : Status) ∉ ([.submitting, .unknown] : List Status)
  | .acceptEvent sequence p r k changes now =>
    (∀ provider ∈ p, requireEventIdentity current provider r k = .ok ()) ∧
      ¬sequence ≤ current .eventSequence ∧
      validateChanges cfg current (Tx.changes current (.acceptEvent sequence p r k changes now)) =
        .ok ()
  | .admitGithubRun providerRunId metadata now => current .provider = .githubActions ∧
      current .bootstrapTicketId = "" ∧
      (current .status : Status) ∈ ([.waitingGithub, .runningQuality] : List Status) ∧
      validateChanges cfg current
        (Tx.changes current (.admitGithubRun providerRunId metadata now)) = .ok ()
  | t => validateChanges cfg current (t.changes current) = .ok ()

theorem bind_unit_ok {β : Type} {x : Except Err Unit} {b c : β}
    (h : (x.bind fun _ => .ok b) = .ok c) : x = .ok () ∧ b = c := by
  rcases x with x | u
  · cases h
  · exact ⟨rfl, Except.ok.inj h⟩

theorem of_guard {c : Prop} [Decidable c] {x : Err} {α : Type} {r : Except Err α} {a : α}
    (h : (if c then .error x else r) = .ok a) : ¬c ∧ r = .ok a := by
  split_ifs at h with hc
  exact ⟨hc, h⟩

/-- What a transaction does: nothing, or its changes on a record that its guard holds of. -/
theorem run_cases {cfg : Config} {current : Execution} {t : Tx} {cs : List Change} {b : Bool}
    (h : t.run cfg current = .ok (cs, b)) :
    (cs = [] ∧ b = false) ∨ (cs = t.changes current ∧ b = true ∧ t.Guard cfg current) := by
  cases t with
  | save changes now =>
    simp only [Tx.run] at h
    split_ifs at h
    obtain ⟨hv, hc⟩ := bind_unit_ok h
    obtain ⟨rfl, rfl⟩ := Prod.mk.inj hc
    exact .inr ⟨rfl, rfl, hv⟩
  | saveForProvider p r changes now =>
    simp only [Tx.run] at h
    split_ifs at h
    obtain ⟨hv, hc⟩ := bind_unit_ok h
    obtain ⟨rfl, rfl⟩ := Prod.mk.inj hc
    exact .inr ⟨rfl, rfl, hv⟩
  | admitGithubRun r metadata now =>
    rw [Tx.run] at h
    obtain ⟨-, h⟩ := of_guard h
    obtain ⟨h2, h⟩ := of_guard h
    obtain ⟨h3, h⟩ := of_guard h
    obtain ⟨-, h⟩ := of_guard h
    obtain ⟨hv, hc⟩ := bind_unit_ok h
    obtain ⟨rfl, rfl⟩ := Prod.mk.inj hc
    rw [not_or, not_not, not_not] at h2
    exact .inr ⟨rfl, rfl, h2.1, h2.2, not_not.1 h3, hv⟩
  | admitEventProvider p r k now =>
    simp only [Tx.run] at h
    obtain ⟨⟨⟩, hv, h⟩ := Interleave.bind_ok.1 h
    split_ifs at h with h1
    obtain ⟨rfl, rfl⟩ := Prod.mk.inj (Except.ok.inj h)
    exact .inr ⟨rfl, rfl, hv, fun hm => h1 (.inl hm)⟩
  | acceptEvent n p r k changes now =>
    simp only [Tx.run] at h
    obtain ⟨⟨⟩, hid, h⟩ := Interleave.bind_ok.1 h
    split_ifs at h with h1
    · obtain ⟨rfl, rfl⟩ := Prod.mk.inj (Except.ok.inj h)
      exact .inl ⟨rfl, rfl⟩
    · obtain ⟨hv, hc⟩ := bind_unit_ok h
      obtain ⟨rfl, rfl⟩ := Prod.mk.inj hc
      refine .inr ⟨rfl, rfl, fun provider hp => ?_, h1, hv⟩
      rw [Option.mem_def.1 hp] at hid
      exact hid
  | claimSubmission now =>
    simp only [Tx.run] at h
    split_ifs at h with h1
    · obtain ⟨rfl, rfl⟩ := Prod.mk.inj (Except.ok.inj h)
      exact .inl ⟨rfl, rfl⟩
    · obtain ⟨rfl, rfl⟩ := Prod.mk.inj (Except.ok.inj h)
      simp only [not_or, not_not] at h1
      exact .inr ⟨rfl, rfl, h1⟩
  | bindBuild buildId metadata now =>
    rw [Tx.run] at h
    obtain ⟨-, h⟩ := of_guard h
    obtain ⟨h2, h⟩ := of_guard h
    obtain ⟨h3, h⟩ := of_guard h
    obtain ⟨h4, h⟩ := of_guard h
    obtain ⟨h5, h⟩ := of_guard h
    split at h
    · obtain ⟨rfl, rfl⟩ := Prod.mk.inj (Except.ok.inj h)
      exact .inl ⟨rfl, rfl⟩
    · obtain ⟨hv, hc⟩ := bind_unit_ok h
      obtain ⟨rfl, rfl⟩ := Prod.mk.inj hc
      refine .inr ⟨rfl, rfl, ?_, not_not.1 h3, not_not.1 h4, ?_, hv⟩
      · refine List.all_eq_true.2 fun c hc => decide_eq_true fun hin => ?_
        exact h2 (List.any_eq_true.2 ⟨c, hc, decide_eq_true hin⟩)
      · by_cases hb : current .buildId = ""
        · exact .inl hb
        · exact .inr (not_not.1 fun hne => h5 ⟨hb, hne⟩)
  | claimPublish now =>
    simp only [Tx.run] at h
    split_ifs at h with h1
    · obtain ⟨rfl, rfl⟩ := Prod.mk.inj (Except.ok.inj h)
      exact .inl ⟨rfl, rfl⟩
    · obtain ⟨rfl, rfl⟩ := Prod.mk.inj (Except.ok.inj h)
      simp only [not_or, not_not] at h1
      exact .inr ⟨rfl, rfl, h1⟩
  | transitionToCloudBuild reason now =>
    rw [Tx.run] at h
    obtain ⟨-, h⟩ := of_guard h
    obtain ⟨-, h⟩ := of_guard h
    obtain ⟨-, h⟩ := of_guard h
    split at h
    · obtain ⟨rfl, rfl⟩ := Prod.mk.inj (Except.ok.inj h)
      exact .inl ⟨rfl, rfl⟩
    · next h4 =>
      obtain ⟨h5, h⟩ := of_guard h
      obtain ⟨-, hc⟩ := bind_unit_ok h
      obtain ⟨rfl, rfl⟩ := Prod.mk.inj hc
      refine .inr ⟨rfl, rfl, ?_, not_not.1 h5⟩
      rcases hp : current .provider with _ | _
      · rfl
      · exact absurd hp h4
  | updateQualityBootstrap n changes now =>
    rw [Tx.run] at h
    obtain ⟨-, h⟩ := of_guard h
    obtain ⟨h2, h⟩ := of_guard h
    obtain ⟨h3, h⟩ := of_guard h
    obtain ⟨-, h⟩ := of_guard h
    obtain ⟨-, h⟩ := of_guard h
    obtain ⟨h6, h⟩ := of_guard h
    obtain ⟨hv, hc⟩ := bind_unit_ok h
    obtain ⟨rfl, rfl⟩ := Prod.mk.inj hc
    rw [not_or, not_not, not_not] at h3
    have hall : (changes.all fun c => bootstrapAllowed c.1) = true := by
      refine List.all_eq_true.2 fun c hc => by_contra fun hn => ?_
      exact h2 (List.any_eq_true.2 ⟨c, hc, decide_eq_true hn⟩)
    exact .inr ⟨rfl, rfl, hall, h3.1, by simpa using h6, hv⟩
  | claimQualityBootstrapDispatch n k now =>
    simp only [Tx.run] at h
    split_ifs at h with h1 h2
    · obtain ⟨rfl, rfl⟩ := Prod.mk.inj (Except.ok.inj h)
      exact .inl ⟨rfl, rfl⟩
    · obtain ⟨rfl, rfl⟩ := Prod.mk.inj (Except.ok.inj h)
      simp only [not_or, not_not] at h2
      exact .inr ⟨rfl, rfl, h2.1, h2.2.2.2.2.2.1⟩
  | claimSourceToken r now =>
    simp only [Tx.run] at h
    obtain ⟨granted, -, h⟩ := Interleave.bind_ok.1 h
    rcases granted with _ | _
    · obtain ⟨rfl, rfl⟩ := Prod.mk.inj (Except.ok.inj h)
      exact .inl ⟨rfl, rfl⟩
    · obtain ⟨rfl, rfl⟩ := Prod.mk.inj (Except.ok.inj h)
      exact .inr ⟨rfl, rfl, trivial⟩
  | claimEventToken r k now =>
    rw [Tx.run] at h
    split at h
    · cases h
    obtain ⟨granted, -, h⟩ := Interleave.bind_ok.1 h
    rcases granted with _ | _
    · obtain ⟨rfl, rfl⟩ := Prod.mk.inj (Except.ok.inj h)
      exact .inl ⟨rfl, rfl⟩
    · obtain ⟨rfl, rfl⟩ := Prod.mk.inj (Except.ok.inj h)
      exact .inr ⟨rfl, rfl, trivial⟩
  | stagePlannerRetry a seen now =>
    simp only [Tx.run] at h
    split_ifs at h with h1 h2
    obtain ⟨rfl, rfl⟩ := Prod.mk.inj (Except.ok.inj h)
    simp only [not_or, not_not] at h1 h2
    exact .inr ⟨rfl, rfl, h1.1, h1.2, h2.1⟩
  | cancelRelease name =>
    simp only [Tx.run] at h
    split_ifs at h with h1 h2 h3
    · obtain ⟨rfl, rfl⟩ := Prod.mk.inj (Except.ok.inj h)
      exact .inl ⟨rfl, rfl⟩
    · obtain ⟨rfl, rfl⟩ := Prod.mk.inj (Except.ok.inj h)
      exact .inr ⟨rfl, rfl, not_not.1 h1, by simpa using h2, h3⟩

/-- The changes that a transaction stores. -/
def Tx.stored (cfg : Config) (current : Execution) (t : Tx) : List Change :=
  match t.run cfg current with
  | .ok (cs, _) => cs
  | .error _ => []

theorem stored_ok {cfg : Config} {current : Execution} {t : Tx} {cs : List Change} {b : Bool}
    (h : t.run cfg current = .ok (cs, b)) : t.stored cfg current = cs := by
  rw [Tx.stored, h]

/-- The record once the transaction is through. -/
def Tx.apply (cfg : Config) (current : Execution) (t : Tx) : Except Err (Execution × Bool) :=
  (t.run cfg current).map fun (changes, flag) => (update changes current, flag)

/-- A transaction that raises leaves the record. -/
def Tx.step (cfg : Config) (e : Execution) (t : Tx) : Execution :=
  match t.apply cfg e with
  | .ok (e', _) => e'
  | .error _ => e

/-- The record after a run of transactions. -/
def runAll (cfg : Config) (e : Execution) (ts : List Tx) : Execution := ts.foldl (Tx.step cfg) e

end Release
