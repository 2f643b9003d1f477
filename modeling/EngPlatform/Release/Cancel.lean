import EngPlatform.Release.Supersede

/-!
# A cancelled release stays cancelled

A cancelled execution is a failed one, and only a planner retry leaves `failed`. So an execution
that is cancelled while nobody has claimed its publication or a submission stays as it is, as long
as no planner retry finds it eligible. Neither is checked: `cancel_release` accepts
`publish_pending`, and what makes an execution eligible for a retry may be there before it is
cancelled, or be written afterwards by a reconciliation that started before.
-/

set_option linter.dupNamespace false

namespace Release

open Interleave

section Cancelled

variable {ι : Type} [DecidableEq ι] {cfg : Config} {digest : Digest} {w w' : World ι} {i : ι}

/-- A planner retry of the execution's build does not find the record eligible. -/
def Tx.ineligible (e : Execution) : Tx → Bool
  | .stagePlannerRetry a _ _ =>
    ¬(plannerRetryCandidate e a.remediation a.contractRetry ∧ e .buildId = a.failedBuildId)
  | _ => true

/-- The release is cancelled only while neither its publication nor a submission is claimed, and is
not eligible for a planner retry afterwards. -/
def CancelsSettled (cfg : Config) (_ : ι) (w : World ι) (e : Call) : Prop :=
  e.onTx fun t =>
    (t.isCancel = true → t.stored cfg w.record ≠ [] → ¬Claimed w ∧ ∀ j, w.permit j = false) ∧
    (w.cancelled = true → t.ineligible w.record = true)

instance {n : ℕ} (i : Fin n) (w : World (Fin n)) (e : Call) :
    Decidable (CancelsSettled cfg i w e) :=
  inferInstanceAs (Decidable (e.onTx _))

/-- A cancelled release is failed, and nobody may publish it or submit a build. -/
structure Settled (w : World ι) : Prop where
  failed : w.record .status = .failed
  unclaimed : ¬Claimed w
  idle : ∀ j, w.permit j = false

omit [DecidableEq ι] in
/-- A transaction on a failed record that no planner retry finds eligible leaves it failed. -/
theorem failed_stays {t : Tx} {cs : List Change} {flag : Bool} (hs : Safe cfg w cs)
    (hr : t.run cfg w.record = .ok (cs, flag)) (hw : w.record .status = .failed)
    (ht : t.ineligible w.record = true) : update cs w.record .status = .failed := by
  have hm := status_move hr
  rcases hl : lookup .status cs with _ | s
  · rwa [update_of_none hl]
  rw [update_of_some hl]
  rw [hl] at hm
  cases hm with
  | blank _ => cases hs.status _ hl
  | keep => exact hw
  | table h => rw [hw] at h; cases h
  | resubmit h => rw [hw] at h; cases h
  | retry h =>
    rcases run_cases hr with ⟨rfl, -⟩ | ⟨-, -, hg⟩
    · cases hl
    · simp [Tx.ineligible, h, hg.2.1] at ht
  | cancel _ => rfl

omit [DecidableEq ι] in
/-- No submission is claimed of a failed record. -/
theorem failed_unsubmitted {t : Tx} {cs : List Change}
    (hr : t.run cfg w.record = .ok (cs, true)) (hw : w.record .status = .failed) :
    t.isClaim = false := by
  rcases run_cases hr with ⟨-, hf⟩ | ⟨-, -, hg⟩
  · cases hf
  cases t with
  | claimSubmission now =>
    have hst := hg.2.2.2
    rw [hw] at hst
    simp at hst
  | claimQualityBootstrapDispatch n k now =>
    have hst := hg.2
    rw [hw] at hst
    cases hst
  | _ => rfl

/-- What a request does to the claims of submissions and to the number of builds. -/
theorem sem_permits {e : Call} {r : e.Ans} (h : sem cfg i w e w' r) :
    (w'.permit = w.permit ∧ w'.builds = w.builds) ∨
      (∃ request, e = .postBuild request) ∨
      ∃ t cs, e = .tx t ∧ t.run cfg w.record = .ok (cs, true) ∧ t.isClaim = true ∧
        w'.builds = w.builds := by
  cases sem_effect h with
  | grant hr hc => exact .inr (.inr ⟨_, _, rfl, hr, hc, rfl⟩)
  | post => exact .inr (.inl ⟨_, rfl⟩)
  | _ => exact .inl ⟨rfl, rfl⟩

/-- A request on a settled release leaves it settled, and makes nothing of it. -/
theorem settled_step {e : Call} {r : e.Ans} (hJ : Settled w) (hw : w.cancelled = true)
    (ha : Allowed cfg i w e) (hC : CancelsSettled cfg i w e) (h : sem cfg i w e w' r) :
    Settled w' ∧ w'.builds = w.builds ∧ w'.madeRefs = w.madeRefs ∧
      w'.madeReleases = w.madeReleases := by
  have hpermit : w'.permit = w.permit ∧ w'.builds = w.builds := by
    rcases sem_permits h with hp | ⟨request, rfl⟩ | ⟨t, cs, rfl, hr, hcl, -⟩
    · exact hp
    · have hi := hJ.idle i
      rw [show w.permit i = true from ha] at hi
      cases hi
    · rw [failed_unsubmitted hr hJ.failed] at hcl
      cases hcl
  refine ⟨?_, hpermit.2, sem_made ha h hJ.unclaimed⟩
  rcases sem_record ha h with hs | ⟨t, cs, flag, rfl, hr, hsafe, hs⟩
  · exact
      { failed := by rw [hs.record]; exact hJ.failed
        unclaimed := by unfold Claimed; rw [hs.record]; exact hJ.unclaimed
        idle := by rw [hpermit.1]; exact hJ.idle }
  · refine
      { failed := ?_
        unclaimed := fun hcl => ?_
        idle := by rw [hpermit.1]; exact hJ.idle }
    · rw [hs.record, store_record]
      exact failed_stays hsafe hr hJ.failed (hC.2 hw)
    · unfold Claimed at hcl
      rw [hs.record, store_record] at hcl
      have hfrom := claimed_from hsafe hr hJ.unclaimed hcl
      rw [hJ.failed] at hfrom
      rcases hfrom with hf | hf <;> cases hf

/-- A cancellation leaves the release settled. -/
theorem settled_cancel {e : Call} {r : e.Ans} (hw : w.cancelled = false)
    (hw' : w'.cancelled = true) (ha : Allowed cfg i w e) (hC : CancelsSettled cfg i w e)
    (h : sem cfg i w e w' r) : Settled w' := by
  rcases sem_record ha h with hs | ⟨t, cs, flag, rfl, hr, -, hs⟩
  · rw [hs.cancelled, hw] at hw'
    cases hw'
  rw [hs.cancelled, store_cancelled, hw, Bool.false_or, Bool.and_eq_true] at hw'
  rw [CancelsSettled, Call.onTx, stored_ok hr] at hC
  rcases run_cases hr with ⟨rfl, rfl⟩ | ⟨rfl, rfl, -⟩
  · cases hw'.2
  cases t with
  | cancelRelease name =>
    obtain ⟨hc, hidle⟩ := hC.1 rfl fun h => by cases h
    refine
      { failed := by rw [hs.record]; rfl
        unclaimed := by unfold Claimed; rw [hs.record]; exact hc
        idle := ?_ }
    rcases sem_permits h with hp | ⟨request, he⟩ | ⟨t, cs, he, -, hcl, -⟩
    · rw [hp.1]
      exact hidle
    · cases he
    · cases he
      cases hcl
  | _ => cases hw'.1

variable {callers : ι → Caller} {c c₁ : Conf ι (World ι) Call.Ans Err Unit}

theorem settled_run (h : Reserved w)
    (hr : Runs cfg (CancelsSettled cfg) (calls cfg digest w callers) c)
    (hc : c.state.cancelled = true) : Settled c.state := by
  refine runs_invariant h.inv (J := fun w => w.cancelled = true → Settled w)
    (fun i s e s' r _ hJ ha hC hs hc => ?_) (fun s s' hJ hm hc => ?_) (fun hc => ?_) hr hc
  · rcases hb : s.cancelled with _ | _
    · exact settled_cancel hb hc ha hC hs
    · exact (settled_step (hJ hb) hb ha hC hs).1
  · obtain ⟨head, rfl⟩ := hm
    exact ⟨(hJ hc).failed, (hJ hc).unclaimed, (hJ hc).idle⟩
  · rw [h.cancelled] at hc
    cases hc

/-- In every run of any callers in which the release is cancelled only while nobody has claimed its
publication or a submission, and is not eligible for a planner retry afterwards: from the
cancellation on it stays failed, and no build, no tag and no Release is asked for. -/
theorem cancelled_stays (h : Reserved w)
    (hr₁ : Runs cfg (CancelsSettled cfg) (calls cfg digest w callers) c₁)
    (hc : c₁.state.cancelled = true) (hr : Runs cfg (CancelsSettled cfg) c₁ c) :
    c.state.record .status = .failed ∧ c.state.builds = c₁.state.builds ∧
      c.state.madeRefs = c₁.state.madeRefs ∧ c.state.madeReleases = c₁.state.madeReleases := by
  have hJ : (c.state.cancelled = true ∧ Settled c.state) ∧ c.state.builds = c₁.state.builds ∧
      c.state.madeRefs = c₁.state.madeRefs ∧ c.state.madeReleases = c₁.state.madeReleases := by
    refine reach_invariant (D := discipline ι cfg) anyEnd_stable
      (J := fun w => (w.cancelled = true ∧ Settled w) ∧ w.builds = c₁.state.builds ∧
        w.madeRefs = c₁.state.madeRefs ∧ w.madeReleases = c₁.state.madeReleases)
      (fun i s e s' r _ hJ ha hC hs => ?_) (fun s s' _ hJ hm => ?_) (runs_good h.inv hr₁)
      ⟨⟨hc, settled_run h hr₁ hc⟩, rfl, rfl, rfl⟩ hr
    · obtain ⟨⟨hcs, hset⟩, hb, hmr, hml⟩ := hJ
      obtain ⟨hset', hb', hmr', hml'⟩ := settled_step hset hcs ha hC hs
      refine ⟨⟨?_, hset'⟩, hb'.trans hb, hmr'.trans hmr, hml'.trans hml⟩
      rcases sem_record ha hs with hsame | ⟨t, cs, flag, rfl, -, -, hsame⟩
      · rw [hsame.cancelled, hcs]
      · rw [hsame.cancelled, store_cancelled, hcs, Bool.true_or]
    · obtain ⟨head, rfl⟩ := hm
      exact ⟨⟨hJ.1.1, hJ.1.2.failed, hJ.1.2.unclaimed, hJ.1.2.idle⟩, hJ.2⟩
  exact ⟨hJ.1.2.failed, hJ.2⟩

end Cancelled

section Demo

/-- A release is reconciled, cancelled, and reconciled again. -/
def cancellers : List Caller := [.reconcile, .cancelRelease "svc", .reconcile]

/-- Its quality is reported while its build runs. -/
def quality : List Act := answered 19 0 "WORKING" ++ answered 13 1 "WORKING"

/-- The three runs, evaluated together: they share their steps. -/
theorem cancelled_states :
    let c := released cancellers (quality ++ answered 4 4 "")
    let failed := released cancellers (quality ++ answered 12 3 "FAILURE" ++ answered 4 4 "")
    let claimed := released cancellers (planning ++ answered 22 3 "SUCCESS" ++ answered 4 4 "")
    ((releaseCalls cancellers).Meets (CancelsSettled plannerConfig)
        ((quality ++ answered 4 4 "").map Act.turn) ∧ c.state.cancelled = true ∧
      c.Meets (CancelsSettled plannerConfig) ((answered 20 5 "FAILURE").map Act.turn)) ∧
    (failed.state.cancelled = true ∧
      (failed.play ((answered 16 3 "FAILURE").map Act.turn)).state.builds ≠ failed.state.builds) ∧
    claimed.state.cancelled = true ∧
      (claimed.play ((answered 1 3 "SUCCESS").map Act.turn)).state.madeRefs ≠
        claimed.state.madeRefs := by
  decide +kernel

theorem cancelled_stays_demo :
    let c := released cancellers (quality ++ answered 4 4 "")
    (c.play ((answered 20 5 "FAILURE").map Act.turn)).state.record .status = .failed ∧
      (c.play ((answered 20 5 "FAILURE").map Act.turn)).state.builds = c.state.builds := by
  obtain ⟨hsettled, hcancelled, hlater⟩ := cancelled_states.1
  have h := cancelled_stays reserved_world
    (released_runs cancellers (quality ++ answered 4 4 "") hsettled) hcancelled
    (played_runs (answered 20 5 "FAILURE") hlater)
  exact ⟨h.1, h.2.1⟩

/-- A reconciliation goes on after the cancellation: one that found the planner failed retries it,
and one that claimed the publication publishes. -/
theorem cancelled_goes_on :
    (¬∀ (cfg : Config) (digest : Digest) (w : World Slot) (callers : Slot → Caller)
      (c₁ c : Conf Slot (World Slot) Call.Ans Err Unit), Reserved w →
      Runs cfg (always _ _ _) (calls cfg digest w callers) c₁ → c₁.state.cancelled = true →
      Runs cfg (always _ _ _) c₁ c → c.state.builds = c₁.state.builds) ∧
    ¬∀ (cfg : Config) (digest : Digest) (w : World Slot) (callers : Slot → Caller)
      (c₁ c : Conf Slot (World Slot) Call.Ans Err Unit), Reserved w →
      Runs cfg (always _ _ _) (calls cfg digest w callers) c₁ → c₁.state.cancelled = true →
      Runs cfg (always _ _ _) c₁ c → c.state.madeRefs = c₁.state.madeRefs := by
  obtain ⟨-, ⟨hfailed, hbuilds⟩, hclaimed, hrefs⟩ := cancelled_states
  constructor
  · intro h
    exact hbuilds (h _ _ _ _ _ _ reserved_world
      (released_runs cancellers (quality ++ answered 12 3 "FAILURE" ++ answered 4 4 "")
        (meets_always _ _))
      hfailed (played_runs (answered 16 3 "FAILURE") (meets_always _ _)))
  · intro h
    exact hrefs (h _ _ _ _ _ _ reserved_world
      (released_runs cancellers (planning ++ answered 22 3 "SUCCESS" ++ answered 4 4 "")
        (meets_always _ _))
      hclaimed (played_runs (answered 1 3 "SUCCESS") (meets_always _ _)))

end Demo

end Release
