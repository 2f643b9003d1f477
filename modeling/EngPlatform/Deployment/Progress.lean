import EngPlatform.Deployment.Store

/-!
# The progress of a deployment

The part of a deployment item that its callbacks, its provider and its workflow run write, and how
an event of the release engine changes it.
-/

set_option linter.dupNamespace false

namespace Deployment

inductive Kind
  | deploy
  | rollback
  deriving DecidableEq

inductive StageStatus
  | pending
  | running
  | succeeded
  | failed
  | skipped
  deriving DecidableEq

structure Stage where
  key : String
  label : String
  status : StageStatus
  startedAt : String
  completedAt : String
  durationSeconds : Option Int
  details : String
  deriving DecidableEq

structure Progress where
  kind : Kind
  externalVerified : Bool
  repository : String
  tag : String
  sha : String
  currentStage : String
  stages : List Stage
  candidateRevision : String
  candidateUrl : String
  productionRevision : String
  productionUrl : String
  updatedAt : String
  githubDeploymentId : Option ℕ
  githubRunId : Option ℕ
  githubRunUrl : String
  logsUrl : String
  error : String
  deriving DecidableEq

abbrev DeploymentItem := Item Progress

deriving instance DecidableEq for Item

/-- `{stage.key: stage for stage in stages}`. -/
def stagesByKey (stages : List Stage) : List Stage :=
  stages.foldl (fun byKey stage =>
    if byKey.any (·.key = stage.key) then
      byKey.map fun s => if s.key = stage.key then stage else s
    else byKey ++ [stage]) []

/-- What an engine event carries; its sequence, build and fingerprint are apart. -/
structure Event where
  stage : String
  status : StageStatus
  candidateRevision : String
  candidateUrl : String
  productionRevision : String
  productionUrl : String
  error : String
  deriving DecidableEq

def orElse (s t : String) : String := if s = "" then t else s

def Stage.apply (stage : Stage) (event : Event) (now : String) : Stage :=
  let stage := { stage with status := event.status }
  let stage :=
    match event.status with
    | .running => { stage with startedAt := now }
    | .succeeded | .failed => { stage with completedAt := now }
    | _ => stage
  if event.error = "" then stage else { stage with details := event.error }

def applyStages (stages : List Stage) (event : Event) (now : String) : List Stage :=
  let byKey := stagesByKey stages
  if byKey.any (·.key = event.stage) then
    byKey.map fun s => if s.key = event.stage then s.apply event now else s
  else stages

/-- `status_by_stage`. -/
def statusByStage : String → Option Status
  | "verify-release" => some .verifyingRelease
  | "build" => some .building
  | "deploy-candidate" => some .deployingCandidate
  | "validate-candidate" => some .validatingCandidate
  | "promote" => some .promoting
  | "validate-production" => some .validatingProduction
  | "rollback" => some .rollingBack
  | _ => none

/-- The status, the stage and the error that an event leaves. -/
def outcome (event : Event) (status : Status) (error : String) : Status × String × String :=
  if event.status = .failed then (.failed, event.stage, event.error)
  else if event.status = .succeeded ∧ event.stage = "validate-production" then
    (.succeeded, "complete", "")
  else if event.status = .succeeded ∧ event.stage = "rollback" then (.rolledBack, "rollback", "")
  else ((statusByStage event.stage).getD status, event.stage, error)

/-- What `accept_event` makes of the item that it read. -/
def applyEvent (item : DeploymentItem) (event : Event) (now : String) : DeploymentItem :=
  let (status, currentStage, error) := outcome event item.status item.rest.error
  { item with
    status := status
    rest := { item.rest with
      stages := applyStages item.rest.stages event now
      candidateRevision := orElse event.candidateRevision item.rest.candidateRevision
      candidateUrl := orElse event.candidateUrl item.rest.candidateUrl
      productionRevision := orElse event.productionRevision item.rest.productionRevision
      productionUrl := orElse event.productionUrl item.rest.productionUrl
      updatedAt := now
      currentStage := currentStage
      error := error } }

/-- The live outcome that an event announces, if it does. -/
def Event.live (event : Event) : Option Status :=
  if event.status = .succeeded ∧ event.stage = "validate-production" then some .succeeded
  else if event.status = .succeeded ∧ event.stage = "rollback" then some .rolledBack
  else none

theorem applyEvent_live {item : DeploymentItem} {event : Event} {now : String} {status : Status}
    (h : event.live = some status) : (applyEvent item event now).status = status := by
  unfold Event.live at h
  have hs : event.status = .succeeded := by
    split at h
    · rename_i hc
      exact hc.1
    · split at h
      · rename_i hc
        exact hc.1
      · cases h
  show (outcome event item.status item.rest.error).1 = status
  unfold outcome
  rw [hs] at h ⊢
  split at h
  · rename_i hc
    cases h
    simp [hc.2]
  · rename_i hc
    split at h
    · rename_i hr
      cases h
      simp [hr.2]
    · cases h

end Deployment
