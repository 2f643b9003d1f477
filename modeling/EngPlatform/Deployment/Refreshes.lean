import EngPlatform.Deployment.Writers
import EngPlatform.Lib.Asks

/-!
# What the refreshes leave alone

A refresh asks its providers and saves nothing. It returns the item that it was given, with other
fields: it is of the same deployment, and only the workflow refresh gives it a run.
-/

set_option linter.dupNamespace false

namespace Deployment

open Interleave

variable {cfg : Settings} {parse : String → Option Int} {item : DeploymentItem}

def Request.isSave : Request → Bool
  | .save .. => true
  | _ => false

abbrev Silent (e : Request) : Prop := e.isSave = false

/-! ## No request is a save -/

theorem perform_asks {e : Request} (h : Silent e) : (perform e).Asks Silent := .call h

theorem orRaise_asks {α : Type} {x : Raised} {o : Option α} : (orRaise x o).Asks Silent := by
  cases o <;> trivial

theorem setManagedStatus_asks : (setManagedStatus item).Asks Silent := by
  refine .bind (fun b => ?_) (perform_asks rfl)
  cases b <;> trivial

theorem reported_asks (item : DeploymentItem) : (reported item).Asks Silent := by
  refine .ite (fun _ => .bind (fun _ => ?_) setManagedStatus_asks) fun _ => ?_
  · trivial
  · trivial

theorem reconcileJob_asks (build : Build) :
    (CloudBuild.reconcileJob item build).Asks Silent := by
  refine .ite (fun _ => trivial) fun _ => .bind (fun r => ?_) (perform_asks rfl)
  cases r <;> trivial

theorem reconcile_asks (build : Build) : (CloudBuild.reconcile cfg item build).Asks Silent := by
  refine .ite (fun _ => reconcileJob_asks build) fun _ => .bind (fun r => ?_) (perform_asks rfl)
  cases r with
  | none => trivial
  | some runtime =>
    refine .ite (fun _ => trivial) fun _ => .bind (fun b => ?_) (perform_asks rfl)
    cases b <;> trivial

theorem cloudBuild_asks : (CloudBuild.refresh cfg item).Asks Silent := by
  refine .bind (fun r => ?_) (perform_asks rfl)
  cases r with
  | none => trivial
  | some execution =>
    refine .ite (fun _ => trivial) fun _ => .bind (fun r => ?_) (perform_asks rfl)
    cases r with
    | none => trivial
    | some build =>
      refine .bind (fun _ => ?_) (perform_asks rfl)
      refine .ite (fun _ => .ite (fun _ => trivial) fun _ => reconcile_asks build) fun _ => ?_
      refine .ite (fun _ => .ite (fun _ => trivial) fun _ => reconcile_asks build) fun _ => ?_
      exact .ite (fun _ => trivial) fun _ => trivial

theorem discover_asks (createdAt : Option Int) :
    (Github.discover cfg item createdAt).Asks Silent := by
  cases createdAt with
  | none => trivial
  | some createdAt =>
    refine .ite (fun _ => trivial) fun _ => .bind (fun r => ?_) (perform_asks rfl)
    cases r <;> trivial

theorem metadata_asks : (Github.metadata item).Asks Silent := by
  refine .ite (fun _ => trivial) fun _ => ?_
  split
  · trivial
  · refine .bind (fun r => ?_) (perform_asks rfl)
    cases r <;> trivial

theorem findRun_asks (discovered : Option ℕ) :
    (Github.findRun cfg parse item discovered).Asks Silent := by
  unfold Github.findRun
  split
  · refine .bind (fun r => ?_) (perform_asks rfl)
    cases r <;> trivial
  · refine .bind (fun _ => ?_) (discover_asks _)
    trivial

theorem github_asks : (Github.refresh cfg parse item).Asks Silent := by
  refine .bind (fun b => ?_) (perform_asks rfl)
  refine .ite (fun _ => trivial) fun _ => .bind (fun r => ?_) metadata_asks
  rcases r with _ | ⟨item, discovered⟩
  · trivial
  · refine .bind (fun r => ?_) (findRun_asks discovered)
    rcases r with _ | _ | run
    · trivial
    · trivial
    · refine .bind (fun _ => ?_) (perform_asks rfl)
      refine .bind (fun _ => ?_) orRaise_asks
      trivial

theorem refresh_asks : (refresh cfg parse item).Asks Silent := by
  refine .ite (fun _ => trivial) fun _ => .bind (fun r => ?_) (perform_asks rfl)
  cases r with
  | none => exact github_asks
  | some execution =>
    exact .ite (fun _ => .bind reported_asks cloudBuild_asks) fun _ => github_asks

theorem quota_asks (run : Run) (item : DeploymentItem) :
    (isReactiveQuotaFailure cfg run item).Asks Silent := by
  refine .ite (fun _ => trivial) fun _ => .ite (fun _ => trivial) fun _ => ?_
  refine .ite (fun _ => trivial) fun _ => .ite (fun _ => trivial) fun _ => ?_
  refine .bind (fun r => ?_) (perform_asks rfl)
  cases r with
  | none => trivial
  | some jobs => exact .ite (fun _ => trivial) fun _ => perform_asks rfl

/-! ## The same deployment -/

structure Identity (item item' : DeploymentItem) : Prop where
  id : item'.id = item.id
  githubDeploymentId : item'.rest.githubDeploymentId = item.rest.githubDeploymentId

structure SameRun (item item' : DeploymentItem) : Prop extends Identity item item' where
  githubRunId : item'.rest.githubRunId = item.rest.githubRunId

theorem Identity.refl (item : DeploymentItem) : Identity item item := ⟨rfl, rfl⟩

theorem Identity.trans {a b c : DeploymentItem} (h : Identity a b) (h' : Identity b c) :
    Identity a c := ⟨h'.1.trans h.1, h'.2.trans h.2⟩

theorem SameRun.refl (item : DeploymentItem) : SameRun item item := ⟨.refl item, rfl⟩

theorem settle_sameRun (status : Status) (currentStage error : String) :
    SameRun item (CloudBuild.settle item status currentStage error) := ⟨⟨rfl, rfl⟩, rfl⟩

theorem live_sameRun (revision url : String) : SameRun item (CloudBuild.live item revision url) := by
  unfold CloudBuild.live
  simp only []
  split <;> exact ⟨⟨rfl, rfl⟩, rfl⟩

theorem reconcile_ends (build : Build) :
    (CloudBuild.reconcile cfg item build).Ends (SameRun item) := by
  refine .ite (fun _ => .ite (fun _ => ?_) fun _ => .bind_any fun r => ?_) fun _ =>
    .bind_any fun r => ?_
  · exact settle_sameRun _ _ _
  · cases r with
    | none => exact settle_sameRun _ _ _
    | some revision => exact live_sameRun _ _
  · cases r with
    | none => exact settle_sameRun _ _ _
    | some runtime =>
      refine .ite (fun _ => ?_) fun _ => .bind_any fun b => ?_
      · exact settle_sameRun _ _ _
      · cases b with
        | true => exact live_sameRun _ _
        | false => exact settle_sameRun _ _ _

theorem cloudBuild_ends : (CloudBuild.refresh cfg item).Ends (SameRun item) := by
  refine .bind_any fun r => ?_
  cases r with
  | none => exact .refl item
  | some execution =>
    refine .ite (fun _ => ?_) fun _ => .bind_any fun r => ?_
    · exact .refl item
    cases r with
    | none => exact .refl item
    | some build =>
      refine .bind_any fun _ => ?_
      have hlogs : ∀ {l x}, SameRun (CloudBuild.withLogs item l) x → SameRun item x :=
        fun h => ⟨⟨h.id, h.githubDeploymentId⟩, h.githubRunId⟩
      refine .ite (fun _ => .ite (fun _ => ?_) fun _ => ?_) fun _ => ?_
      · exact hlogs (.refl _)
      · exact .mono (fun _ => hlogs) (reconcile_ends build)
      refine .ite (fun _ => .ite (fun _ => ?_) fun _ => ?_) fun _ => ?_
      · exact hlogs (.refl _)
      · exact .mono (fun _ => hlogs) (reconcile_ends build)
      refine .ite (fun _ => ?_) fun _ => ?_
      · exact hlogs (settle_sameRun _ _ _)
      · exact hlogs (settle_sameRun _ _ _)

theorem readStatus_sameRun (acc : DeploymentItem × Option ℕ) (status : GithubStatus) :
    SameRun acc.1 (Github.readStatus acc status).1 := by
  unfold Github.readStatus
  simp only []
  split
  · exact ⟨⟨rfl, rfl⟩, rfl⟩
  · split <;> exact ⟨⟨rfl, rfl⟩, rfl⟩

theorem metadata_sameRun : ∀ (statuses : List GithubStatus) (acc : DeploymentItem × Option ℕ),
    SameRun acc.1 (statuses.foldl Github.readStatus acc).1
  | [], acc => .refl acc.1
  | status :: statuses, acc =>
    have h := readStatus_sameRun acc status
    have h' := metadata_sameRun statuses (Github.readStatus acc status)
    ⟨h.toIdentity.trans h'.toIdentity, h'.githubRunId.trans h.githubRunId⟩

/-- The run that is applied is the run of the item from then on. -/
theorem applyRun_spec (run : Run) (jobs : List Job) :
    Identity item (Github.applyRun item run jobs) ∧
      (Github.applyRun item run jobs).rest.githubRunId = some run.id := by
  unfold Github.applyRun Github.jobsOutcome
  simp only []
  split
  · exact ⟨⟨rfl, rfl⟩, rfl⟩
  · exact ⟨⟨rfl, rfl⟩, rfl⟩
  · exact ⟨⟨rfl, rfl⟩, rfl⟩
  · split
    · exact ⟨⟨rfl, rfl⟩, rfl⟩
    · split
      · exact ⟨⟨rfl, rfl⟩, rfl⟩
      · split <;> exact ⟨⟨rfl, rfl⟩, rfl⟩

theorem metadata_ends : (Github.metadata item).Ends fun r => ∀ found, r = some found →
    SameRun item found.1 := by
  refine .ite (fun _ => ?_) fun _ => ?_
  · rintro found ⟨⟩
    exact .refl item
  · split
    · rintro found ⟨⟩
      exact .refl item
    · refine .bind_any fun r => ?_
      cases r with
      | none => rintro found ⟨⟩
      | some statuses =>
        rintro found ⟨⟩
        exact metadata_sameRun statuses (item, none)

theorem github_ends : (Github.refresh cfg parse item).Ends (Identity item) := by
  refine .bind_any fun b => .ite (fun _ => ?_) fun _ => ?_
  · trivial
  refine .bind (fun r hr => ?_) metadata_ends
  rcases r with _ | ⟨found, discovered⟩
  · exact ⟨rfl, rfl⟩
  · have hfound : Identity item found := (hr _ rfl).toIdentity
    refine .bind_any fun r => ?_
    rcases r with _ | _ | run
    · exact ⟨hfound.id, hfound.githubDeploymentId⟩
    · exact hfound
    · refine .bind_any fun _ => .bind_any fun jobs => ?_
      exact hfound.trans (applyRun_spec run jobs).1

theorem refresh_ends : (refresh cfg parse item).Ends (Identity item) := by
  refine .ite (fun _ => ?_) fun _ => .bind_any fun r => ?_
  · exact .refl item
  cases r with
  | none => exact github_ends
  | some execution =>
    refine .ite (fun _ => .bind (fun refreshed h => ?_) cloudBuild_ends) fun _ => github_ends
    refine .ite (fun _ => .bind_any fun _ => ?_) fun _ => ?_
    · exact h.toIdentity
    · exact h.toIdentity

end Deployment
