import EngPlatform.Release.Record

/-!
# Services, builds and reports

What the release service is told by others: the catalog's services with their quality profiles,
Cloud Build's builds, and the quality reports of the executor.
-/

set_option linter.dupNamespace false

namespace Release

/-- A service's quality profile. -/
structure Profile where
  fingerprint : String
  executorImage : Except Err String
  containerSmoke : Bool
  postgres : Bool
  timeoutSeconds : ℕ

/-- A catalog service; `managed` is the outcome of `require_managed`. -/
structure Service where
  serviceName : String
  repository : String
  managed : Bool
  profile : Profile

/-- A Cloud Build. A step is its identifier with its status. -/
structure Build where
  id : String
  name : String
  status : Option String
  logUrl : String
  repository : String
  revision : String
  serviceAccount : String
  substitutions : List (String × String)
  steps : List (String × String)
  timed : Bool
  deriving DecidableEq, Repr

/-- `str(build.get("status", ""))`. -/
def Build.state (b : Build) : String := b.status.getD ""

/-- `_FAILED_BUILD_STATES`. -/
def failedBuildStates : List String :=
  ["FAILURE", "TIMEOUT", "CANCELLED", "EXPIRED", "INTERNAL_ERROR"]

/-- The steps that failed, in their order. -/
def Build.failedSteps (b : Build) : List String :=
  (b.steps.filter fun step => step.2 ∈ failedBuildStates).map Prod.fst

/-- `build.get("substitutions", {}).get(key, "")`. -/
def Build.substitution (b : Build) (key : String) : String := (b.substitutions.lookup key).getD ""

/-- A quality report; `gateStatus` is what the store derives from its checks. -/
structure Report where
  serviceName : String
  repository : String
  commitSha : String
  baseSha : String
  policyVersion : String
  gateStatus : String
  hash : String
  deriving DecidableEq, Repr

/-- `s.lower()` of a commit's name. -/
def lower (s : String) : String := String.ofList (s.toList.map Char.toLower)

/-- The report is about the execution's commit, against its base, under the current policy. -/
def Report.matches (r : Report) (e : Execution) : Bool :=
  r.serviceName = e .serviceName ∧ r.repository = e .repository ∧ lower r.commitSha = e .headSha ∧
    lower r.baseSha = e .baseSha ∧ r.policyVersion = "oss-v2"

/-- The values of an operation. -/
def Operation.text : Operation → String
  | .prQuality => "pr_quality"
  | .mainRelease => "main_release"

def Provider.text : Provider → String
  | .githubActions => "github_actions"
  | .cloudBuild => "cloud_build"

end Release
