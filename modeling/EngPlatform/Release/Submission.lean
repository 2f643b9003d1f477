import EngPlatform.Release.World

/-!
# Submitting a build

The programs that ask Cloud Build for a build and bind it to the execution: at most one is posted
for a granted claim, and a lost response is looked for among the builds of the execution.
-/

set_option linter.dupNamespace false

namespace Release

def save (changes : List Change) : Program Execution := do
  let now ← perform .now
  let r ← perform (.tx (.save changes now))
  pure r.1

/-- `get(execution_id)`, or `otherwise` without a record. -/
def getOr (otherwise : Execution) : Program Execution := do
  let r ← perform .get
  pure (r.getD otherwise)

/-- `get(execution_id)`, raising `x` without a record. -/
def getOrRaise (x : Err) : Program Execution := do
  let r ← perform .get
  match r with
  | some e => pure e
  | none => .raise x

/-- The substitutions that a build of the execution has; `planner` is the planner's image. -/
def expectedSubstitutions (e : Execution) (planner : String) : List (String × String) :=
  [("_EXECUTION_ID", e .executionId), ("_REQUEST_FINGERPRINT", e .fingerprint),
    ("_SERVICE_NAME", e .serviceName), ("_REPOSITORY", e .repository), ("_HEAD_SHA", e .headSha),
    ("_BASE_SHA", e .baseSha), ("_EXECUTOR_DIGEST", e .executorDigest),
    ("_OPERATION", (e .operation : Operation).text), ("_PROFILE_SHA256", e .profileHash)] ++
  if e .operation = .mainRelease then
    [("_PLANNER_SHA256", e .plannerHash), ("_PLANNER_DIGEST", planner)] ++ retries
  else []
where
  retries : List (String × String) :=
    (if e .plannerRetryCount = 0 then []
      else [("_PLANNER_RETRY_ATTEMPT", toString (e .plannerRetryCount : ℕ))]) ++
    if e .plannerRetryCount = 3 ∧ e .plannerContractRetryPending then
      [("_PLANNER_IMAGE_SHA256", e .plannerContractRetryHash)]
    else []

def hasSubstitutions (b : Build) (expected : List (String × String)) : Bool :=
  expected.all fun entry => b.substitutions.lookup entry.1 = some entry.2

/-- The build is from the execution's commit of the connected repository. -/
def hasSource (cfg : Config) (e : Execution) (b : Build) : Bool :=
  cfg.repositories (e .serviceName) ≠ "" ∧ b.repository = cfg.repositories (e .serviceName) ∧
    b.revision = e .headSha

/-- `_expected_substitutions`. -/
def submissionSubstitutions (cfg : Config) (e : Execution) : List (String × String) :=
  if e .operation = .mainRelease then expectedSubstitutions e cfg.releasePlannerImage
  else expectedSubstitutions e "" ++ [("_PLANNER_SHA256", ""), ("_PLANNER_DIGEST", "")] ++
    expectedSubstitutions.retries e

/-- `_matching_build`. -/
def matchingBuild (cfg : Config) (e : Execution) : Program (Option Build) :=
  if e .bootstrapTicketId ≠ "" then
    .raise (.build "Bootstrap requires full read-only recovery")
  else do
    let builds ← perform (.listBuilds (e .executionId))
    pure (builds.find? fun b => hasSource cfg e b ∧ b.serviceAccount = cfg.serviceAccount ∧
      hasSubstitutions b (submissionSubstitutions cfg e))

/-- `_bind`. -/
def bind (b : Build) : Program Execution :=
  if b.id = "" then .raise (.build "Cloud Build did not expose a build ID")
  else do
    let reconciled ← perform .now
    let now ← perform .now
    let r ← perform (.tx (.bindBuild b.id (bindMetadata b reconciled) now))
    pure r.1

/-- `verify_quality_bootstrap_build`; the request itself is compared by `bootstrapMatches`. -/
def verifyQualityBootstrapBuild (cfg : Config) (e : Execution) (b : Build) (expected : String) :
    Except Err Unit :=
  if b.id = "" ∨ [expected, e .buildId, e .providerRunId].any fun id => id ≠ "" ∧ id ≠ b.id then
    .error (.build "Bootstrap build ID does not match requested or bound identity")
  else cfg.bootstrapMatches e b

/-- `_bind_quality_bootstrap`. -/
def bindQualityBootstrap (cfg : Config) (e : Execution) (b : Build) (expected : String) :
    Program Execution := do
  Interleave.Prog.lift (verifyQualityBootstrapBuild cfg e b expected)
  let reconciled ← perform .now
  let now ← perform .now
  let r ← perform (.tx (.updateQualityBootstrap (e .bootstrapNonce)
    [⟨.buildId, b.id⟩, ⟨.providerRunId, b.id⟩, ⟨.providerStatus, b.status.getD "QUEUED"⟩,
      ⟨.logsUrl, b.logUrl⟩, ⟨.buildName, b.name⟩, ⟨.bootstrapBuildVerified, true⟩,
      ⟨.bootstrapVerifiedRequestHash, e .bootstrapBuildRequestHash⟩,
      ⟨.extra "submission_reconciled_at", reconciled⟩, ⟨.status, .runningQuality⟩] now))
  pure r.1

/-- Every candidate is verified in full. -/
def verifyCandidates (cfg : Config) (e : Execution) (expected : String) :
    List Build → Except Err Unit
  | [] => .ok ()
  | b :: bs => (verifyQualityBootstrapBuild cfg e b expected).bind fun _ =>
    verifyCandidates cfg e expected bs

/-- `reconcile_quality_bootstrap`. -/
def reconcileQualityBootstrap (cfg : Config) (e : Execution) (expected : String) :
    Program Execution :=
  if e .bootstrapTicketId = "" ∨ (e .status : Status) ∉ ([.submitting, .unknown] : List Status) then
    pure e
  else if e .buildId ≠ "" then do
    let b ← perform (.getBuild (e .buildId))
    if b.id ≠ e .buildId then .raise (.build "Bootstrap bound build identity changed")
    else bindQualityBootstrap cfg e b expected
  else do
    let builds ← perform (.listBuilds (e .executionId))
    let candidates := builds.filter fun b =>
      b.substitutions.lookup "_BOOTSTRAP_NONCE" = some (e .bootstrapNonce)
    Interleave.Prog.lift (verifyCandidates cfg e expected candidates)
    match candidates with
    | [] => pure e
    | [b] => bindQualityBootstrap cfg e b expected
    | _ => .raise (.build "Bootstrap recovery is ambiguous")

section Submit

variable (cfg : Config) (digest : Digest)

/-- What becomes of a submission that was answered. -/
def submitted (e : Execution) (a : Submitted) : Program Execution :=
  if a.code ≥ 300 then do
    let _ ← save ([⟨.status, .failed⟩, ⟨.extra "submission_status_code", toString a.code⟩] ++
      if a.code = 400 ∧ a.message ≠ "" then [⟨.extra "submission_error", a.message⟩] else [])
    .raise (.build ("Release build submission failed: " ++ toString a.code))
  else do
    let b ← Interleave.Prog.lift a.build
    if b.id = "" ∨ b.substitutions.lookup "_REQUEST_FINGERPRINT" ≠ some (e .fingerprint) then do
      let since ← perform .now
      let _ ← save [⟨.status, .unknown⟩, ⟨.uncertainSince, since⟩]
      .raise (.build "Release build identity is uncertain")
    else bind b

/-- The POST of a claimed submission. -/
def postSubmission (e : Execution) (request : BuildRequest) : Program Execution := do
  Interleave.Prog.lift (requireNewBuilds cfg)
  let a ← (do
    let a ← perform (.postBuild request)
    pure (some a) : Program (Option Submitted)).handle fun _ => pure none
  match a with
  | some a => submitted e a
  | none => do
    let since ← perform .now
    let _ ← save [⟨.status, .unknown⟩, ⟨.uncertainSince, since⟩]
    .raise (.build "Release build submission is uncertain")

/-- `submit`. -/
def submit (service : Service) : Program Execution := do
  Interleave.Prog.lift (requireManaged service)
  let e ← getOrRaise (.build "Unknown release execution")
  if e .bootstrapTicketId ≠ "" then .raise (.build "Bootstrap submission cannot be retried")
  else if e .provider ≠ .cloudBuild then
    .raise (.build "Release execution is not Cloud Build managed")
  else if e .buildId ≠ "" then pure e
  else
    let recovered ← matchingBuild cfg e
    match recovered with
    | some b => bind b
    | none =>
      Interleave.Prog.lift (requireNewBuilds cfg)
      let request ← Interleave.Prog.lift (buildRequest cfg digest e service)
      perform (.external "validate_submission")
      let now ← perform .now
      let r ← perform (.tx (.claimSubmission now))
      if ¬r.2 then .raise (.build "Release build submission is being reconciled")
      else postSubmission cfg e request

/-- `reconcile_submission_absent`. -/
def reconcileSubmissionAbsent : Program Execution := do
  let e ← getOrRaise .key
  if e .bootstrapTicketId ≠ "" then
    .raise (.value "Quality bootstrap attempt cannot be retried")
  else if e .buildId ≠ "" ∨ (e .status : Status) ∉ ([.submitting, .unknown] : List Status) then
    .raise (.value "Release submission is not uncertain")
  else save [⟨.status, .submissionPending⟩,
    ⟨.reconciliationAttempts, (e .reconciliationAttempts : ℕ) + 1⟩]

/-- `reconcile_uncertain_submission`. -/
def reconcileUncertainSubmission (service : Service) : Program Execution := do
  Interleave.Prog.lift (requireManaged service)
  let e ← getOrRaise (.build "Unknown release execution")
  if e .bootstrapTicketId ≠ "" then reconcileQualityBootstrap cfg e ""
  else if e .provider ≠ .cloudBuild ∨ e .buildId ≠ "" ∨
      (e .status : Status) ∉ ([.submitting, .unknown] : List Status) then pure e
  else
    let recovered ← matchingBuild cfg e
    match recovered with
    | some b => bind b
    | none =>
      let now ← perform .now
      let since : String := if e .uncertainSince ≠ "" then e .uncertainSince else e .updatedAt
      if ¬cfg.graceOver since now ∨ (e .reconciliationAttempts : ℕ) ≥ 1 then pure e
      else
        let _ ← reconcileSubmissionAbsent
        submit cfg digest service

end Submit

end Release
