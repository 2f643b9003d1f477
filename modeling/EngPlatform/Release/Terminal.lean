import EngPlatform.Release.Store

/-!
# Which statuses are final

`StatusMove` is everything a transaction can do to the status of the record it reads
(`status_move`). From it: the four final statuses stay, and `failed` is left by a planner retry
alone, in every run that neither cancels a superseded execution nor writes an empty status over a
final one.
-/

set_option linter.dupNamespace false

namespace Release

/-- The caller's own changes carry an empty status. -/
def Tx.writesBlank : Tx → Bool
  | .save changes _ | .saveForProvider _ _ changes _ | .admitGithubRun _ changes _
  | .acceptEvent _ _ _ _ changes _ | .updateQualityBootstrap _ changes _ =>
    lookup .status changes = some .blank
  | _ => false

/-- The status a transaction writes over the one it reads. -/
inductive StatusMove (e : Execution) : Tx → Option Status → Prop
  | none {t : Tx} : StatusMove e t none
  | blank {t : Tx} (h : t.writesBlank = true) : StatusMove e t (some .blank)
  | keep {t : Tx} : StatusMove e t (some (e .status))
  | table {t : Tx} {s : Status} (h : s ∈ transitions (e .status)) : StatusMove e t (some s)
  | resubmit {now : String} (h : e .status = .submissionFailed) :
    StatusMove e (.claimSubmission now) (some .submitting)
  | retry {a : RetryArgs} {seen : Execution} {now : String}
    (h : plannerRetryCandidate e a.remediation a.contractRetry = true) :
    StatusMove e (.stagePlannerRetry a seen now) (some .submissionPending)
  | cancel {name : String} (h : (e .status : Status) ∉ terminal) :
    StatusMove e (.cancelRelease name) (some .failed)

/-- The status change is none, an empty one, no change, or one of the table. -/
theorem validateStatusChange_ok {e : Execution} {cs : List Change}
    (h : validateStatusChange e cs = .ok ()) : lookup .status cs = none ∨
      lookup .status cs = some .blank ∨ lookup .status cs = some (e .status) ∨
      ∃ s ∈ transitions (e .status), lookup .status cs = some s := by
  unfold validateStatusChange at h
  split at h
  · next hn => exact .inl hn
  · next s hs =>
    split_ifs at h with h1 h2 h3
    · rcases h1 with rfl | rfl
      exacts [.inr (.inl hs), .inr (.inr (.inl hs))]
    · exact .inr (.inr (.inr ⟨s, h3, hs⟩))

theorem validateChanges_status {cfg : Config} {e : Execution} {cs : List Change}
    (h : validateChanges cfg e cs = .ok ()) : validateStatusChange e cs = .ok () := by
  unfold validateChanges at h
  split_ifs at h
  · rcases hb : validateBootstrapChanges cfg e cs with x | u <;> rw [hb] at h
    · cases h
    · exact h
  · exact h

theorem StatusMove.of_valid {e : Execution} {t : Tx} {cs : List Change}
    (h : validateStatusChange e cs = .ok ())
    (hb : lookup .status cs = some .blank → t.writesBlank = true) :
    StatusMove e t (lookup .status cs) := by
  rcases validateStatusChange_ok h with hs | hs | hs | ⟨s, hm, hs⟩ <;> rw [hs]
  exacts [.none, .blank (hb hs), .keep, .table hm]

theorem lookup_status_append (cs cs' : List Change) (h : lookup .status cs' = none) :
    lookup .status (cs ++ cs') = lookup .status cs := by
  rw [lookup_append, h]
  rfl

/-- What a transaction can do to the status. -/
theorem status_move {cfg : Config} {e : Execution} {t : Tx} {cs : List Change} {b : Bool}
    (h : t.run cfg e = .ok (cs, b)) : StatusMove e t (lookup .status cs) := by
  rcases run_cases h with ⟨rfl, -⟩ | ⟨rfl, -, hg⟩
  · exact .none
  cases t with
  | save changes now =>
    refine .of_valid (validateChanges_status hg) fun hb => ?_
    rw [Tx.changes, lookup_status_append _ _ (by simp)] at hb
    simpa [Tx.writesBlank] using hb
  | saveForProvider p r changes now =>
    refine .of_valid (validateChanges_status hg) fun hb => ?_
    rw [Tx.changes, lookup_status_append _ _ (by simp)] at hb
    simpa [Tx.writesBlank] using hb
  | admitGithubRun r metadata now =>
    refine .of_valid (validateChanges_status hg.2.2.2) fun hb => ?_
    rw [Tx.changes, lookup_status_append _ _ (by simp)] at hb
    simpa [Tx.writesBlank] using hb
  | acceptEvent n p r k changes now =>
    refine .of_valid (validateChanges_status hg.2.2) fun hb => ?_
    rw [Tx.changes, lookup_status_append _ _ (by simp)] at hb
    simpa [Tx.writesBlank] using hb
  | updateQualityBootstrap n changes now =>
    refine .of_valid hg.2.2.2 fun hb => ?_
    rw [Tx.changes, lookup_status_append _ _ (by simp)] at hb
    simpa [Tx.writesBlank] using hb
  | bindBuild buildId metadata now =>
    refine .of_valid hg.2.2.2.2 fun hb => ?_
    rw [Tx.changes, lookup_append] at hb
    simp at hb
  | admitEventProvider p r k now => exact .none
  | claimQualityBootstrapDispatch n k now => exact .none
  | claimSourceToken r now =>
    rw [Tx.changes]
    split_ifs <;> exact .none
  | claimEventToken r k now =>
    rw [Tx.changes]
    split_ifs <;> exact .none
  | claimSubmission now =>
    change StatusMove e _ (some .submitting)
    rcases List.mem_cons.1 hg.2.2.2 with hs | hs
    · exact .table (by rw [hs]; decide)
    · exact .resubmit (List.mem_singleton.1 hs)
  | claimPublish now =>
    change StatusMove e _ (some .publishPending)
    exact .table (by rw [hg.2.1]; decide)
  | transitionToCloudBuild reason now =>
    change StatusMove e _ (some .submissionPending)
    refine .table ?_
    rcases List.mem_cons.1 hg.2 with hs | hs
    · rw [hs]
      decide
    · rw [List.mem_singleton.1 hs]
      decide
  | stagePlannerRetry a seen now =>
    have hs : lookup .status (Tx.changes e (.stagePlannerRetry a seen now)) =
        some .submissionPending := by
      rw [Tx.changes, retryChanges, lookup_status_append]
      · simp
      · split_ifs <;> simp
    rw [hs]
    exact .retry hg.1
  | cancelRelease name =>
    change StatusMove e _ (some .failed)
    refine .cancel fun hm => ?_
    have := hg.2.1
    simp [isTerminal, hm] at this

/-- The statuses that nothing may leave. -/
def absorbing : List Status := [.qualityFailed, .noRelease, .released, .superseded]

theorem step_status (cfg : Config) (e : Execution) (t : Tx) :
    t.step cfg e .status = e .status ∨
      ∃ s, StatusMove e t (some s) ∧ t.step cfg e .status = s := by
  unfold Tx.step Tx.apply
  rcases hr : t.run cfg e with x | ⟨cs, b⟩
  · exact .inl rfl
  · have hm := status_move hr
    simp only [Except.map, update_apply]
    rcases hl : lookup .status cs with _ | s
    · exact .inl rfl
    · rw [hl] at hm
      exact .inr ⟨s, hm, rfl⟩

/-- Neither is a superseded execution cancelled, nor an empty status written over a final one. -/
def Keeps (e : Execution) (t : Tx) : Prop :=
  (e .status = .superseded → ∀ name, t ≠ .cancelRelease name) ∧
    ((e .status : Status) ∈ absorbing ∨ e .status = .failed → t.writesBlank = false)

theorem transitions_final {s : Status} (h : s ∈ absorbing ∨ s = .failed) : transitions s = [] := by
  rcases h with h | rfl
  · simp only [absorbing, List.mem_cons, List.not_mem_nil, or_false] at h
    rcases h with rfl | rfl | rfl | rfl <;> rfl
  · rfl

/-- One step: a final status stays, and `failed` moves for an eligible planner retry only. -/
theorem step_final {cfg : Config} {e : Execution} {t : Tx}
    (h : (e .status : Status) ∈ absorbing ∨ e .status = .failed) (hk : Keeps e t) :
    t.step cfg e .status = e .status ∨ (e .status = .failed ∧ ∃ a seen now,
      t = .stagePlannerRetry a seen now ∧
        plannerRetryCandidate e a.remediation a.contractRetry = true) := by
  rcases step_status cfg e t with hs | ⟨s, hm, hs⟩
  · exact .inl hs
  rw [hs]
  cases hm with
  | blank hb => rw [hk.2 h] at hb; cases hb
  | keep => exact .inl rfl
  | table ht =>
    rw [transitions_final h] at ht
    cases ht
  | resubmit hf =>
    rw [hf] at h
    simp [absorbing] at h
  | @retry a seen now hc =>
    have hf : e .status = .failed := by
      simp only [plannerRetryCandidate, decide_eq_true_eq] at hc
      exact hc.2.1
    exact .inr ⟨hf, a, seen, now, rfl, hc⟩
  | @cancel name hn =>
    rcases h with h | h
    · simp only [absorbing, terminal, List.mem_cons, List.not_mem_nil, or_false] at h hn
      have hsup : e .status = .superseded := by tauto
      exact absurd rfl (hk.1 hsup name)
    · exact absurd (by rw [h]; decide) hn

/-- Every transaction of the run keeps to `Keeps` on the record it reads. -/
def AllKeep (cfg : Config) : Execution → List Tx → Prop
  | _, [] => True
  | e, t :: ts => Keeps e t ∧ AllKeep cfg (t.step cfg e) ts

theorem runAll_absorbing {cfg : Config} : ∀ {ts : List Tx} {e : Execution}, AllKeep cfg e ts →
    (e .status : Status) ∈ absorbing → runAll cfg e ts .status = e .status
  | [], _, _, _ => rfl
  | t :: ts, e, ⟨hk, hks⟩, h => by
    have hstep : t.step cfg e .status = e .status := by
      rcases step_final (.inl h) hk with hs | ⟨hf, -⟩
      · exact hs
      · rw [hf] at h
        simp [absorbing] at h
    have hrun := runAll_absorbing hks (by rw [hstep]; exact h)
    exact Eq.trans hrun hstep

theorem AllKeep.drop {cfg : Config} : ∀ (ts : List Tx) {e : Execution} {ts' : List Tx},
    AllKeep cfg e (ts ++ ts') → AllKeep cfg (runAll cfg e ts) ts'
  | [], _, _, h => h
  | _ :: ts, _, _, h => AllKeep.drop ts h.2

/-- In every run of the store's transactions, with any arguments, that cancels no superseded
execution and writes no empty status over a final one: from any point on, a final status stays,
and `failed` is left by a planner retry on a candidate only. -/
theorem terminal_absorbing {cfg : Config} {e : Execution} {ts : List Tx} (h : AllKeep cfg e ts) :
    (∀ ts₁ ts₂, ts = ts₁ ++ ts₂ → (runAll cfg e ts₁ .status : Status) ∈ absorbing →
      runAll cfg e ts .status = runAll cfg e ts₁ .status) ∧
    ∀ ts₁ t ts₂, ts = ts₁ ++ t :: ts₂ → runAll cfg e ts₁ .status = .failed →
      runAll cfg e (ts₁ ++ [t]) .status ≠ .failed → ∃ a seen now,
        t = .stagePlannerRetry a seen now ∧
          plannerRetryCandidate (runAll cfg e ts₁) a.remediation a.contractRetry = true := by
  refine ⟨fun ts₁ ts₂ hts hs => ?_, fun ts₁ t ts₂ hts hs hne => ?_⟩
  · rw [hts] at h ⊢
    have hrun := runAll_absorbing (AllKeep.drop ts₁ h) hs
    rwa [runAll, List.foldl_append]
  · rw [hts] at h
    have hk : Keeps (runAll cfg e ts₁) t := (AllKeep.drop ts₁ h).1
    have hlast : runAll cfg e (ts₁ ++ [t]) = t.step cfg (runAll cfg e ts₁) := by
      rw [runAll, List.foldl_append]
      rfl
    rw [hlast] at hne
    have hfinal := @step_final cfg _ _ (.inr hs) hk
    rcases hfinal with hst | ⟨-, hret⟩
    · exact absurd (hst.trans hs) hne
    · exact hret

/-- A planned main release. -/
def plannedRelease : Execution :=
  update [⟨.serviceName, "svc"⟩, ⟨.operation, .mainRelease⟩, ⟨.provider, .cloudBuild⟩,
    ⟨.status, .releasePlanned⟩] emptyExecution

def demoConfig : Config where
  bootstrapStorage := true
  buildsEnabled := true
  newBuildsEnabled := true
  orchestratorEnabled := true
  enabledServices := ["svc"]
  canaryServices := []
  githubActionsOnly := []
  releasePlannerImage := ""
  postgresImage := ""
  serviceAccount := ""
  projectId := ""
  repositories := fun _ => ""
  platformApiUrl := ""
  qualityBucket := ""
  dispatchTimedOut := fun _ _ => false
  graceOver := fun _ _ => false
  policyErrors := fun _ _ => []
  bootstrapMatches := fun _ _ => .ok ()
  timing := fun _ _ _ => ""
  tagObject := id

/-- Retired as superseded, the release cannot be published any more. -/
theorem terminal_absorbing_demo : runAll demoConfig plannedRelease
    [.save [⟨.status, .superseded⟩] "t", .claimPublish "t"] .status = Status.superseded := by
  have hkeep : AllKeep demoConfig plannedRelease
      [.save [⟨.status, .superseded⟩] "t", .claimPublish "t"] :=
    ⟨⟨fun _ _ => nofun, fun _ => by decide⟩, ⟨fun _ _ => nofun, fun _ => by decide⟩, trivial⟩
  have hsup : runAll demoConfig plannedRelease [.save [⟨.status, .superseded⟩] "t"] .status =
      Status.superseded := by decide
  exact ((terminal_absorbing hkeep).1 [_] [_] rfl (by rw [hsup]; decide)).trans hsup

/-- Retired as superseded, the release is then cancelled, and ends up failed. -/
theorem terminal_not_absorbing : ¬∀ (cfg : Config) (e : Execution) (ts₁ ts₂ : List Tx),
    (runAll cfg e ts₁ .status : Status) ∈ absorbing →
      runAll cfg e (ts₁ ++ ts₂) .status = runAll cfg e ts₁ .status := by
  intro h
  have hsup : runAll demoConfig plannedRelease [.save [⟨.status, .superseded⟩] "t"] .status =
      Status.superseded := by decide
  have hfail : runAll demoConfig plannedRelease
      ([Tx.save [⟨.status, .superseded⟩] "t"] ++ [Tx.cancelRelease "svc"]) .status =
      Status.failed := by decide
  have := h demoConfig plannedRelease [.save [⟨.status, .superseded⟩] "t"] [.cancelRelease "svc"]
    (by rw [hsup]; decide)
  rw [hsup, hfail] at this
  cases this

end Release
