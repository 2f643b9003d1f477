import EngPlatform.Deployment.Progress
import EngPlatform.Lib.Prog

/-!
# The writers of a deployment item

Four programs read a deployment item and write it back whole: the callback of a build, the two read
endpoints, which refresh what is not terminal from the build or from the workflow run, and the
webhook of a workflow run. Between its read and its write each asks its provider.
-/

set_option linter.dupNamespace false

namespace Deployment

open Interleave

def hasPrefix (pre s : String) : Bool := pre.toList.isPrefixOf s.toList

/-- `s.removeprefix(pre)`. -/
def removePrefix (pre s : String) : String :=
  if hasPrefix pre s then String.ofList (s.toList.drop pre.length) else s

/-! ## What the providers answer -/

structure Execution where
  provider : String
  fingerprint : String
  buildId : String
  logUrl : String
  deriving DecidableEq

structure Build where
  status : String
  logUrl : Option String
  deriving DecidableEq

/-- The revision that has all of the traffic, if one does, and the URL of the service. -/
structure Runtime where
  hundred : String
  uri : String
  deriving DecidableEq

structure GithubStatus where
  logUrl : String
  description : String
  environmentUrl : String
  deriving DecidableEq

/-- A workflow run; `title` is its display title, and times are in seconds. -/
structure Run where
  id : ℕ
  htmlUrl : String
  updatedAt : String
  event : String
  conclusion : String
  headSha : String
  headBranch : String
  createdAt : Option Int
  path : String
  title : String
  deriving DecidableEq

/-- A job of a run, with the key of the stage that its name stands for. -/
structure Job where
  stage : Option String
  status : StageStatus
  startedAt : String
  completedAt : String
  htmlUrl : String
  duration : Option Int
  deriving DecidableEq

/-- What a write is for. -/
inductive Cause
  | event
  | refresh
  | run
  | quota
  deriving DecidableEq

/-- The requests of the writers. A write also carries the item as its writer knows it to be stored,
and two of the reads carry what they are for: the repository and the run that a listing is searched
for, and the deploy whose run is looked for by its SHA. -/
inductive Request
  | execution (id : String)
  | saveExecution (id status logUrl : String)
  | item (id : String)
  | list (serviceName : String) (limit : ℕ) (forRun : Option (String × Run))
  | accept (id : String) (sequence : ℕ)
  | save (cause : Cause) (read new : DeploymentItem)
  | build (buildId : String)
  | verified (item : DeploymentItem) (fingerprint : String)
  | runtime (serviceName : String)
  | healthy (url sha : String)
  | jobSummary (item : DeploymentItem)
  | repo (repository : String)
  | statuses (githubDeploymentId : ℕ)
  | workflowRun (id : ℕ)
  | dispatchRuns (item : DeploymentItem) (createdAt : Int)
  | jobs (id : ℕ)
  | quotaAnnotations (id : ℕ)
  | managedStatus (item : DeploymentItem)

/-- A read that raises has no answer. -/
@[reducible] def Request.Answer : Request → Type
  | .execution _ => Option Execution
  | .saveExecution .. => Unit
  | .item _ => Option DeploymentItem
  | .list .. => List DeploymentItem
  | .accept .. => Bool
  | .save .. => Unit
  | .build _ => Option Build
  | .verified .. => Bool
  | .runtime _ => Option Runtime
  | .healthy .. => Bool
  | .jobSummary _ => Option String
  | .repo _ => Bool
  | .statuses _ => Option (List GithubStatus)
  | .workflowRun _ => Option Run
  | .dispatchRuns .. => Option (List Run)
  | .jobs _ => Option (List Job)
  | .quotaAnnotations _ => Bool
  | .managedStatus _ => Bool

inductive Raised
  | http (statusCode : ℕ) (detail : String)
  | provider
  deriving DecidableEq

abbrev Program (α : Type) : Type := Prog Request.Answer Raised α

def perform (e : Request) : Program e.Answer := Prog.call e

/-- An answer that must be there. -/
def orRaise {α : Type} (x : Raised) : Option α → Program α
  | none => .raise x
  | some a => .done a

/-- `set_managed_status`, which raises when GitHub cannot be reached. -/
def setManagedStatus (item : DeploymentItem) : Program Unit := do
  if ← perform (.managedStatus item) then .done () else .raise .provider

/-- What the writers are configured with, or take from the catalog. -/
structure Settings where
  cloudRunJob : String → Bool
  candidateRevision : DeploymentItem → String
  workflowFile : String → String
  rollbackWorkflow : String
  serviceRepository : String → String
  fallbackEnabled : String → Bool

variable (cfg : Settings)

/-! ## The callback -/

structure Payload where
  buildId : String
  fingerprint : String
  sequence : ℕ
  event : Event

/-- `accept_event`. -/
def acceptEvent (id : String) (payload : Payload) (now : String) : Program Unit := do
  let execution ← perform (.execution id)
  let item ← perform (.item id)
  let execution ← orRaise (.http 404 "Unknown deployment execution") execution
  let item ← orRaise (.http 404 "Unknown deployment execution") item
  if execution.provider ≠ "cloud_build" then
    .raise (.http 409 "Deployment is not Cloud Build managed")
  else if execution.fingerprint ≠ payload.fingerprint then
    .raise (.http 403 "Execution fingerprint mismatch")
  else if execution.buildId ≠ payload.buildId then
    .raise (.http 403 "Cloud Build identity mismatch")
  else
    let build ← perform (.build payload.buildId)
    let _ ← orRaise (.http 502 "Unable to verify Cloud Build") build
    let verified ← perform (.verified item payload.fingerprint)
    if !verified then .raise (.http 403 "Cloud Build does not match deployment")
    else
      let accepted ← perform (.accept id payload.sequence)
      if accepted then
        let applied := applyEvent item payload.event now
        perform (.save .event item applied)
        setManagedStatus applied
      else .done ()

/-! ## The refresh from the build -/

namespace CloudBuild

def failureStates : List String :=
  ["FAILURE", "TIMEOUT", "CANCELLED", "EXPIRED", "INTERNAL_ERROR"]

def settle (item : DeploymentItem) (status : Status) (currentStage error : String) :
    DeploymentItem :=
  { item with
    status := status
    rest := { item.rest with currentStage := currentStage, error := error } }

def live (item : DeploymentItem) (revision url : String) : DeploymentItem :=
  let item := { item with
    rest := { item.rest with productionRevision := revision, productionUrl := url } }
  match item.rest.kind with
  | .rollback => settle item .rolledBack "rollback" ""
  | .deploy => settle item .succeeded "complete" ""

def indeterminate (item : DeploymentItem) : DeploymentItem :=
  settle item .unknown "reconcile" "Cloud Build completed but runtime state is indeterminate"

def withLogs (item : DeploymentItem) (logsUrl : String) : DeploymentItem :=
  { item with rest := { item.rest with logsUrl := logsUrl } }

/-- `_reconcile_job`. -/
def reconcileJob (item : DeploymentItem) (build : Build) : Program DeploymentItem :=
  if build.status ≠ "SUCCESS" then
    .done (settle item .unknown "reconcile"
      "Job build failed; restored definition needs verification")
  else do
    match ← perform (.jobSummary item) with
    | none => .done (indeterminate item)
    | some revision => .done (live item revision item.rest.productionUrl)

/-- `_reconcile`. -/
def reconcile (item : DeploymentItem) (build : Build) : Program DeploymentItem :=
  if cfg.cloudRunJob item.serviceName then reconcileJob item build
  else do
    match ← perform (.runtime item.serviceName) with
    | none => .done (indeterminate item)
    | some runtime =>
      let expected :=
        match item.rest.kind with
        | .rollback => item.rest.productionRevision
        | .deploy => cfg.candidateRevision item
      if runtime.hundred ≠ expected then
        .done (settle item .failed "reconcile"
          ("Cloud Build " ++ build.status.toLower ++ "; production traffic unchanged"))
      else
        let healthy ← perform (.healthy runtime.uri item.rest.sha)
        if healthy then .done (live item expected runtime.uri)
        else
          .done (settle item .unknown "reconcile"
            "Expected revision is live but production smoke could not be verified")

/-- `cloud_build.refresh`. -/
def refresh (item : DeploymentItem) : Program DeploymentItem := do
  match ← perform (.execution item.id) with
  | none => .done item
  | some execution =>
    if execution.buildId = "" then .done item
    else
      match ← perform (.build execution.buildId) with
      | none => .done item
      | some build =>
        let logsUrl := build.logUrl.getD item.rest.logsUrl
        let item := withLogs item logsUrl
        let _ ← perform (.saveExecution item.id build.status logsUrl)
        if build.status = "SUCCESS" then
          if item.status ∈ [.succeeded, .rolledBack] then .done item
          else reconcile cfg item build
        else if build.status ∈ failureStates then
          if item.status ∈ [.failed, .rolledBack, .rollbackFailed] then .done item
          else reconcile cfg item build
        else if build.status ∈ ["QUEUED", "PENDING"] then
          .done (settle item .queued "queued" item.rest.error)
        else .done (settle item .building "build" item.rest.error)

end CloudBuild

/-! ## The refresh from the workflow run -/

namespace Github

/-- The digits after the first `/actions/runs/` that has some. -/
def runId (url : String) : Option ℕ :=
  (url.splitOn "/actions/runs/").tail.findSome? fun rest =>
    let digits := rest.toList.takeWhile Char.isDigit
    if digits = [] then none else (String.ofList digits).toNat?

/-- One turn of the loop over the statuses, with the item and the run id found so far. -/
def readStatus : DeploymentItem × Option ℕ → GithubStatus → DeploymentItem × Option ℕ
  | (item, discovered), status =>
    let discovered := discovered.or (runId status.logUrl)
    if hasPrefix "candidate_revision=" status.description then
      ({ item with rest := { item.rest with
          candidateRevision := removePrefix "candidate_revision=" status.description
          candidateUrl := orElse status.environmentUrl item.rest.candidateUrl } }, discovered)
    else if hasPrefix "production_revision=" status.description then
      ({ item with rest := { item.rest with
          productionRevision := removePrefix "production_revision=" status.description
          productionUrl := orElse status.environmentUrl item.rest.productionUrl } }, discovered)
    else (item, discovered)

/-- `_metadata_from_statuses`, over the statuses. -/
def metadataFromStatuses (item : DeploymentItem) (statuses : List GithubStatus) :
    DeploymentItem × Option ℕ :=
  statuses.foldl readStatus (item, none)

/-- The dispatched runs that may be the run of a deploy made at `createdAt`. -/
def isCandidate (item : DeploymentItem) (createdAt : Int) (run : Run) : Bool :=
  run.event = "workflow_dispatch" ∧ run.headSha = item.rest.sha ∧
    removePrefix "refs/tags/" run.headBranch = removePrefix "refs/tags/" item.rest.tag ∧
    run.createdAt.any (createdAt - 60 ≤ ·)

/-- `_discover_dispatch_run`, over the runs that are visible. -/
def discoverDispatchRun (item : DeploymentItem) (createdAt : Int) (runs : List Run) : Option Run :=
  match runs.filter (isCandidate item createdAt) with
  | [run] => some run
  | _ => none

def stageLabels : Kind → List (String × String)
  | .deploy =>
    [("verify-release", "Verify release"), ("build", "Build image"),
      ("deploy-candidate", "Deploy candidate"), ("validate-candidate", "Validate candidate"),
      ("promote", "Promote production"), ("validate-production", "Validate production")]
  | .rollback => [("rollback", "Roll back production")]

def defaultStages (kind : Kind) : List Stage :=
  (stageLabels kind).map fun s => ⟨s.1, s.2, .pending, "", "", none, ""⟩

def Stage.ofJob (stage : Stage) (job : Job) : Stage :=
  { stage with
    status := job.status
    startedAt := job.startedAt
    completedAt := job.completedAt
    details := orElse job.htmlUrl stage.details
    durationSeconds := job.duration.or stage.durationSeconds }

def applyJobs (stages : List Stage) (jobs : List Job) : List Stage :=
  jobs.foldl (fun stages job =>
    stages.map fun s => if some s.key = job.stage then Stage.ofJob s job else s) stages

def rollbackStatus (jobs : List Job) : Option StageStatus :=
  ((jobs.filter fun job => job.stage = some "rollback").getLast?).map (·.status)

/-- The status, the stage and the error that the jobs of a run come to. -/
def jobsOutcome (item : DeploymentItem) (run : Run) (stages : List Stage) (jobs : List Job) :
    DeploymentItem :=
  let set (status : Status) (currentStage : String) : DeploymentItem :=
    { item with
      status := status
      rest := { item.rest with currentStage := currentStage } }
  match rollbackStatus jobs with
  | some .running => set .rollingBack "rollback"
  | some .succeeded => set .rolledBack "rollback"
  | some .failed => set .rollbackFailed "rollback"
  | _ =>
    let failed := stages.find? (·.status = .failed)
    match stages.find? (·.status = .running) with
    | some active => set ((statusByStage active.key).getD item.status) active.key
    | none =>
      if failed.isSome ∨
          run.conclusion ∈ ["failure", "cancelled", "timed_out", "startup_failure"] then
        CloudBuild.settle item .failed ((failed.map (·.key)).getD "failed")
          ((failed.map (·.label)).getD "Workflow" ++ " failed")
      else if run.conclusion = "success" then set .succeeded "complete"
      else item

def applyRun (item : DeploymentItem) (run : Run) (jobs : List Job) : DeploymentItem :=
  let stages := applyJobs (defaultStages item.rest.kind) jobs
  jobsOutcome { item with rest := { item.rest with
    githubRunId := some run.id
    githubRunUrl := run.htmlUrl
    logsUrl := run.htmlUrl
    updatedAt := run.updatedAt
    stages := stages } } run stages jobs

def unreadable (item : DeploymentItem) : DeploymentItem :=
  { item with rest := { item.rest with error := "Unable to read GitHub workflow" } }

/-- The run of a deployment that has none yet, found among the runs that are visible. `createdAt` is
the time of the item, if it has one that parses. -/
def discover (item : DeploymentItem) (createdAt : Option Int) : Program (Option Run) :=
  match createdAt with
  | none => .done none
  | some createdAt =>
    if item.rest.kind ≠ .deploy ∨ cfg.serviceRepository item.serviceName ≠ item.rest.repository then
      .done none
    else do
      match ← perform (.dispatchRuns item createdAt) with
      | none => .done none
      | some runs => .done (discoverDispatchRun item createdAt runs)

/-- The item with what its GitHub Deployment says of it, and the run id found there. -/
def metadata (item : DeploymentItem) : Program (Option (DeploymentItem × Option ℕ)) :=
  if item.rest.githubRunId.isSome ∧ item.rest.productionRevision ≠ "" then .done (some (item, none))
  else
    match item.rest.githubDeploymentId with
    | none => .done (some (item, none))
    | some id => do
      match ← perform (.statuses id) with
      | none => .done none
      | some statuses => .done (some (metadataFromStatuses item statuses))

/-- The run of an item, if it has one; without an answer the run could not be read. -/
def findRun (parse : String → Option Int) (item : DeploymentItem) (discovered : Option ℕ) :
    Program (Option (Option Run)) :=
  match item.rest.githubRunId.or discovered with
  | some id => do
    match ← perform (.workflowRun id) with
    | none => .done none
    | some run => .done (some (some run))
  | none => do
    let run ← discover cfg item (parse item.createdAt)
    .done (some run)

/-- `github_deployments.refresh`. -/
def refresh (parse : String → Option Int) (item : DeploymentItem) : Program DeploymentItem := do
  if !(← perform (.repo item.rest.repository)) then .raise .provider
  else
    match ← metadata item with
    | none => .done (unreadable item)
    | some (item, discovered) =>
      match ← findRun cfg parse item discovered with
      | none => .done (unreadable item)
      | some none => .done item
      | some (some run) =>
        let jobs ← perform (.jobs run.id)
        let jobs ← orRaise .provider jobs
        .done (applyRun item run jobs)

end Github

/-! ## The read endpoints -/

/-- What a build came to is reported to GitHub before it is returned. -/
def reported (item : DeploymentItem) : Program DeploymentItem :=
  if item.status ∈ terminalStatuses then do
    setManagedStatus item
    .done item
  else .done item

/-- `_refresh`. -/
def refresh (parse : String → Option Int) (item : DeploymentItem) : Program DeploymentItem :=
  if item.rest.externalVerified then .done item
  else do
    match ← perform (.execution item.id) with
    | some execution =>
      if execution.provider = "cloud_build" then CloudBuild.refresh cfg item >>= reported
      else Github.refresh cfg parse item
    | none => Github.refresh cfg parse item

/-- What `get_deployment` does with the item that it read, and `list_service_deployments` with each
of its items. -/
def refreshItem (parse : String → Option Int) (item : DeploymentItem) : Program Unit :=
  if item.status ∈ terminalStatuses then .done ()
  else
    (do
      let refreshed ← refresh cfg parse item
      if refreshed = item then .done () else perform (.save .refresh item refreshed)).handle
        fun _ => .done ()

/-- `get_deployment`. -/
def getDeployment (parse : String → Option Int) (id : String) : Program Unit := do
  let item ← perform (.item id)
  let item ← orRaise (.http 404 "Deployment not found") item
  refreshItem cfg parse item

/-- `list_service_deployments`. -/
def listServiceDeployments (parse : String → Option Int) (serviceName : String) (limit : ℕ) :
    Program Unit := do
  let items ← perform (.list serviceName limit none)
  items.forM (refreshItem cfg parse)

/-! ## The webhook -/

def runTitles : List (Kind × String) :=
  [(.deploy, "eng-platform-deploy-"), (.rollback, "eng-platform-rollback-")]

/-- The kind and the id of the deployment that a run names in its title. -/
def correlated (title : String) : Option (Kind × String) :=
  runTitles.findSome? fun (kind, pre) =>
    let id := removePrefix pre title
    if hasPrefix pre title ∧ id ≠ "" ∧ id.toList.all Char.isDigit then some (kind, id) else none

/-- The newest deploy that a run without such a title is taken for. -/
def isLegacyMatch (repository : String) (run : Run) (item : DeploymentItem) : Bool :=
  item.rest.kind = .deploy ∧ item.status ∉ [.succeeded, .rolledBack, .rollbackFailed] ∧
    item.rest.repository = repository ∧ item.rest.sha = run.headSha

/-- The deployment that a run names, if it is one of the service. -/
def titledItem (repository : String) (run : Run) (serviceName : String) :
    Program (Option DeploymentItem) :=
  match correlated run.title with
  | none => .done none
  | some (kind, id) => do
    let item ← perform (.item id)
    .done (item.filter fun item =>
      item.rest.kind = kind ∧ item.serviceName = serviceName ∧ item.rest.repository = repository)

/-- The item that a run is taken for. -/
def activeFor (repository : String) (run : Run) (serviceName : String) :
    Program (Option DeploymentItem) := do
  match ← titledItem repository run serviceName with
  | some item => .done (some item)
  | none =>
    let items ← perform (.list serviceName 100 (some (repository, run)))
    .done (items.find? (isLegacyMatch repository run))

def withRun (item : DeploymentItem) (run : Run) : DeploymentItem :=
  { item with rest := { item.rest with
    githubRunId := some run.id
    githubRunUrl := run.htmlUrl
    logsUrl := run.htmlUrl } }

def quotaFailed (item : DeploymentItem) : DeploymentItem :=
  { item with
    status := .failed
    rest := { item.rest with
      error := "GitHub Actions rejected the operation for billing or quota; provider remains " ++
        "GitHub Actions." } }

/-- `is_reactive_quota_failure`. -/
def isReactiveQuotaFailure (run : Run) (item : DeploymentItem) : Program Bool :=
  if !cfg.fallbackEnabled item.serviceName then .done false
  else if run.conclusion ∉ ["failure", "startup_failure"] then .done false
  else if item.rest.kind ≠ .rollback ∧ run.headSha ≠ item.rest.sha then .done false
  else if run.event ≠ "workflow_dispatch" then .done false
  else do
    match ← perform (.jobs run.id) with
    | none => .done false
    | some _ =>
      if item.rest.kind ≠ .rollback ∧
          (item.rest.candidateRevision ≠ "" ∨ item.rest.productionRevision ≠ "") then .done false
      else perform (.quotaAnnotations run.id)

/-- The webhook for one service of the repository. -/
def handleServiceRun (repository : String) (run : Run) (serviceName : String) : Program Unit :=
  if run.path ≠ "" ∧
      ¬([cfg.workflowFile serviceName, cfg.rollbackWorkflow].any fun file =>
        file.toList.isSuffixOf run.path.toList) then .done ()
  else do
    match ← activeFor repository run serviceName with
    | none => .done ()
    | some active =>
      perform (.save .run active (withRun active run))
      match ← perform (.execution active.id) with
      | none => .done ()
      | some execution =>
        if execution.provider ≠ "github_actions" then .done ()
        else if ← isReactiveQuotaFailure cfg run (withRun active run) then
          perform (.save .quota (withRun active run) (quotaFailed (withRun active run)))
        else .done ()

/-- `_handle_deployment_workflow_run`, over the services of the repository, with the run as GitHub
has it. -/
def handleDeploymentWorkflowRun (repository : String) (services : List String) (runId : ℕ) :
    Program Unit := do
  let run ← perform (.workflowRun runId)
  let run ← orRaise .provider run
  if run.event ≠ "workflow_dispatch" then .done ()
  else services.forM (handleServiceRun cfg repository run)

end Deployment
