import EngPlatform.Release.Kept

/-!
# Every caller keeps the contract

The event routes and the orchestrator, and with them every program that acts on an execution
(`program_sound`). So in every run of any callers, from a world that says of itself what `Inv`
says, the invariant holds in every state (`callers_inv`).
-/

set_option linter.dupNamespace false

namespace Release

open Interleave

section Events

variable {ι : Type} [DecidableEq ι] {cfg : Config} {i : ι} {w : World ι} {digest : Digest}

/-- A transaction of plain changes. -/
theorem tx_plain {t : Tx}
    (h : ∀ e, ∀ c ∈ t.changes e, c.1 ∉ restricted ++ [Field.status, .pendingReportHash]) :
    Sound cfg i w (perform (.tx t)) fun r w' => Snapshot cfg r.1 w' :=
  (tx_sound fun _ _ _ _ => .of_plain (h _)).mono fun _ _ _ hr => hr.1

theorem verifyBootstrap_sound (e : Execution) (b : Build) (runId : String) (he : Snapshot cfg e w) :
    Sound cfg i w (verifyBootstrap cfg e b runId) fun _ _ => True := by
  refine Sound.bind (P := fun _ _ => True) (.ite (fun _ =>
    (reconcileQualityBootstrap_sound he runId).bind fun _ _ _ _ => .ite (fun _ => .raise _)
      fun _ => .pure trivial) fun _ => .pure trivial) fun e' _ _ _ => .lift_bind fun _ _ =>
    now_sound.bind fun now _ _ _ => Sound.bind (tx_plain fun e => ?_) fun _ _ _ _ => .pure trivial
  exact fields_free rfl

theorem verifyCloudBuild_sound {e : Execution} (he : Snapshot cfg e w) (runId : String) :
    Sound cfg i w (verifyCloudBuild cfg e runId) fun _ _ => True :=
  .ite (fun _ => .raise _) fun _ => Sound.bind (P := fun _ _ => True)
    (Sound.translate (.ask fun _ => trivial)) fun b _ h₁ _ => .ite (fun _ => .raise _) fun _ =>
    .ite (fun _ => (verifyBootstrap_sound e b runId (he.le h₁)).translate) fun _ =>
    .ite (fun _ => .raise _) fun _ => .ite (fun _ => .raise _) fun _ =>
    .ite (fun _ => Sound.translate ((bind_sound b).bind fun _ _ _ _ => .pure trivial))
      fun _ => .pure trivial

theorem verifyProvider_sound {e : Execution} (he : Snapshot cfg e w) (runId : String) :
    Sound cfg i w (verifyProvider cfg e runId) fun _ _ => True :=
  .ite (fun _ => Sound.bind (.ask fun _ => trivial) fun _ _ h₁ _ =>
    Sound.bind (.ask fun _ => trivial) fun _ _ h₂ _ =>
    verifyCloudBuild_sound ((he.le h₁).le h₂) runId)
    fun _ => Sound.bind (.ask fun _ => trivial) fun _ _ _ _ => .ask fun _ => trivial

theorem verifyReport_sound (e : Execution) (payload : Event) :
    Sound cfg i w (verifyReport e payload) fun _ _ => True := by
  unfold verifyReport
  rcases payload.report with _ | report
  · exact .pure trivial
  · refine .ite (fun _ => .raise _) fun _ => Sound.handle (.ask fun _ => trivial) fun x w' _ => ?_
    cases x <;> exact .raise _

theorem verifyPayload_sound (e : Execution) (payload : Event) :
    Sound cfg i w (verifyPayload e payload) fun _ _ => True := by
  refine Sound.handle ((verifyReport_sound e payload).bind fun _ _ _ _ => .lift_bind fun _ _ =>
    .pure trivial) fun x w' _ => ?_
  split
  · refine Sound.bind (P := fun _ _ => True) (Sound.handle (Sound.bind
      (save_status (fields_free rfl) fun _ _ _ => rfl) fun _ _ _ _ =>
      .pure trivial) fun x _ _ => .ite (fun _ => .pure trivial) fun _ => .raise _)
      fun _ _ _ _ => .raise _
  · exact .raise _

omit [DecidableEq ι] in
/-- What an event writes is safe: no plan is published by it, and no report unset. -/
theorem eventChanges_safe (e : Execution) (payload : Event) (hash : String) (plan : Option Plan) :
    Safe cfg w (eventChanges e payload hash plan) := by
  have hhash : lookup .pendingReportHash (eventChanges e payload hash plan) =
      if hash ≠ "" then some hash else none := by
    unfold eventChanges
    split_ifs <;> rfl
  have hstatus : lookup .status (eventChanges e payload hash plan) = some .runningQuality ∨
      lookup .status (eventChanges e payload hash plan) = some .failed := by
    unfold eventChanges
    split_ifs <;> first | exact .inl rfl | exact .inr rfl
  refine Safe.of_fields (fun c hc => ?_) (fun v hv => ?_) fun s hs => ?_
  · simp only [eventChanges, List.mem_append] at hc
    rcases hc with ((hc | hc) | hc) | hc
    · exact fields_free rfl c hc
    all_goals split_ifs at hc <;> exact fields_free rfl c hc
  · rw [hhash] at hv
    split_ifs at hv with hne
    cases hv
    exact hne
  · rcases hstatus with h | h <;> rw [h] at hs <;> cases hs <;> rfl

/-- The fault handler of an event's reconciliation: the execution is left unknown. -/
theorem reconcileEvent_sound : Sound cfg i w ((reconcile cfg digest).handle fun
      | .value message => save [⟨.status, .unknown⟩, ⟨.error, message⟩]
      | .evidence message => save [⟨.status, .unknown⟩, ⟨.error, message⟩]
      | x => .raise x) fun _ _ => True := by
  refine Sound.handle (reconcile_sound.mono fun _ _ _ _ => trivial) fun x w' _ => ?_
  cases x with
  | value message | evidence message =>
    exact Sound.mono (save_status (fields_free rfl) fun _ _ _ => rfl) fun _ _ _ _ => trivial
  | _ => exact .raise _

theorem storeEvent_sound (e e' : Execution) (payload : Event) (hash : String)
    (plan : Option Plan) : Sound cfg i w
      (storeEvent cfg digest e payload (eventChanges e' payload hash plan)) fun _ _ => True :=
  now_sound.bind fun _ _ _ _ => Sound.bind (P := fun _ _ => True) (Sound.translate
    ((tx_sound fun _ _ _ _ => (eventChanges_safe e' payload hash plan).append
      (fields_free rfl)).mono fun _ _ _ _ => trivial)) fun _ _ _ _ =>
    .ite (fun _ => reconcileEvent_sound) fun _ => .pure trivial

theorem acceptEvent_sound (payload : Event) (tokenHash : String) :
    Sound cfg i w (acceptEvent cfg digest payload tokenHash) fun _ _ => True := by
  refine (getOrRaise_sound _).bind fun e _ _ he => .ite (fun _ => .raise _) fun _ =>
    .ite (fun _ => .raise _) fun _ => (verifyProvider_sound he _).bind fun _ _ _ _ =>
    .lift_bind fun _ _ => .ite (fun _ => .pure trivial) fun _ => now_sound.bind fun now _ _ _ =>
    Sound.bind (P := fun _ _ => True) (Sound.translate ((tx_plain fun e => ?_).mono
      fun _ _ _ _ => trivial)) fun r _ _ _ => .ite (fun _ => .raise _) fun _ =>
    .ite (fun _ => .raise _) fun _ => (verifyPayload_sound _ _).bind fun _ _ _ _ =>
    storeEvent_sound _ _ _ _ _
  exact fields_free rfl

theorem issueSourceToken_sound (fingerprint runId : String) :
    Sound cfg i w (issueSourceToken cfg fingerprint runId) fun _ _ => True := by
  refine (getOrRaise_sound _).bind fun e _ _ he => .ite (fun _ => .raise _) fun _ =>
    (verifyProvider_sound he _).bind fun _ _ _ _ => now_sound.bind fun now _ _ _ =>
    Sound.bind (tx_plain fun e => ?_) fun r _ _ _ => .ite (fun _ => .raise _) fun _ =>
    Sound.bind (P := fun _ _ => True) (Sound.translate (.ask fun _ => trivial))
      fun _ _ _ _ => .pure trivial
  rw [Tx.changes]
  split_ifs <;> exact fields_free rfl

theorem issueEventToken_sound (fingerprint runId tokenHash : String) :
    Sound cfg i w (issueEventToken cfg fingerprint runId tokenHash) fun _ _ => True := by
  refine (getOrRaise_sound _).bind fun e _ _ he => .ite (fun _ => .raise _) fun _ =>
    (verifyProvider_sound he _).bind fun _ _ _ _ => now_sound.bind fun now _ _ _ =>
    Sound.bind (tx_plain fun e => ?_) fun r _ _ _ => .ite (fun _ => .raise _) fun _ => .pure trivial
  rw [Tx.changes]
  split_ifs <;> exact fields_free rfl

theorem admitRun_sound (runId now : String) {metadata : List Change}
    (h : ∀ c ∈ metadata, c.1 ∉ restricted ++ [Field.status, .pendingReportHash]) :
    Sound cfg i w (perform (.tx (.admitGithubRun runId metadata now))) fun r w' =>
      Snapshot cfg r.1 w' := by
  refine tx_plain fun e c hc => ?_
  rcases List.mem_append.1 hc with hc | hc
  · exact h c hc
  · exact fields_free rfl c hc

theorem resolveExecution_sound (runId : String) :
    Sound cfg i w (resolveExecution cfg runId) fun _ _ => True :=
  (getOrRaise_sound _).bind fun _ _ _ _ => .ite (fun _ => .raise _) fun _ =>
    .ite (fun _ => .raise _) fun _ => Sound.bind (.ask fun _ => trivial) fun _ _ _ _ =>
    Sound.bind (.ask fun _ => trivial) fun _ _ _ _ => .ite (fun _ => .raise _) fun _ =>
    Sound.bind (.ask fun _ => trivial) fun _ _ _ _ => .ite (fun _ => .raise _) fun _ =>
    .ite (fun _ => .raise _) fun _ => now_sound.bind fun now _ _ _ => Sound.bind
      (Sound.translate (admitRun_sound runId now (by simp))) fun _ _ _ _ => .pure trivial

theorem sweep_sound : Sound cfg i w (sweep cfg digest) fun _ _ => True :=
  (getOrRaise_sound _).bind fun _ _ _ _ => Sound.handle
    (reconcile_sound.mono fun _ _ _ _ => trivial) fun _ _ _ => .ite (fun _ => .pure trivial)
    fun _ => Sound.handle (Sound.mono (save_status (fields_free rfl)
      fun _ _ _ => rfl) fun _ _ _ _ => trivial) fun _ _ _ => .pure trivial

end Events

section Orchestrator

variable {ι : Type} [DecidableEq ι] {cfg : Config} {i : ι} {w : World ι} {digest : Digest}

theorem approveCanary_sound (approvedBy : String) :
    Sound cfg i w (approveCanary cfg approvedBy) fun _ _ => True := by
  refine (getOrRaise_sound _).bind fun _ _ _ _ => Sound.bind (.ask fun _ => trivial) fun _ _ _ _ =>
    .ite (fun _ => .raise _) fun _ => .ite (fun _ => .raise _) fun _ =>
    (save_sound fun _ _ _ => ?_).mono fun _ _ _ _ => trivial
  constructor <;> simp [identityFields]

theorem supersede_sound (supersededBy reason : String) :
    Sound cfg i w (supersede supersededBy reason) fun _ _ => True :=
  (getOrRaise_sound _).bind fun _ _ _ _ => Sound.bind (.ask fun _ => trivial) fun _ _ _ _ =>
    .ite (fun _ => .raise _) fun _ => .ite (fun _ => .raise _) fun _ =>
    Sound.mono (save_status (fields_free rfl) fun _ _ _ => rfl)
      fun _ _ _ _ => trivial

theorem cancelBuild_sound : Sound cfg i w (cancelBuild cfg) fun _ _ => True := by
  refine (getOrRaise_sound _).bind fun e _ _ _ => Sound.bind (.ask fun _ => trivial) fun _ _ _ _ =>
    .ite (fun _ => .pure trivial) fun _ => Sound.bind (P := fun _ _ => True)
    (.ite (fun _ => .pure trivial) fun _ => (matchingBuild_sound e).bind fun recovered _ _ _ => ?_)
    fun found _ _ _ => ?_
  · rcases recovered with _ | b
    · exact .pure trivial
    · exact (bind_sound b).bind fun _ _ _ _ => .pure trivial
  · rcases found with _ | _
    · exact .pure trivial
    · exact Sound.bind (.ask fun _ => trivial) fun _ _ _ _ => Sound.bind
        (save_status (fields_free rfl) fun _ _ _ => rfl)
        fun _ _ _ _ => .pure trivial

theorem cancelRelease_sound (serviceName : String) :
    Sound cfg i w (cancelRelease cfg serviceName) fun _ _ => True := by
  refine Sound.bind (.ask fun _ => trivial) fun _ _ _ _ => Sound.bind (P := fun _ _ => True)
    (Sound.translate ((tx_sound fun w₁ _ _ _ => ?_).mono fun _ _ _ _ => trivial)) fun _ _ _ _ =>
    .ite (fun _ => .pure trivial) fun _ =>
    .ite (fun _ => Sound.bind (.ask fun _ => trivial) fun _ _ _ _ => .pure trivial) fun _ =>
    .ite (fun _ => cancelBuild_sound.bind fun _ _ _ _ => .pure trivial) fun _ => .pure trivial
  change Safe cfg w₁ [⟨.status, .failed⟩, ⟨.error, "Cancelled by operator"⟩]
  exact .of_status (fields_free rfl) rfl

theorem create_sound : ∀ (kinds : List String) (w : World ι),
    Sound cfg i w (startChecks.create kinds) fun _ _ => True
  | [], _ => .pure trivial
  | _ :: kinds, _ => Sound.bind (.ask fun _ => trivial) fun _ w₁ _ _ => create_sound kinds w₁

theorem startChecks_sound (e : Execution) :
    Sound cfg i w (startChecks e) fun _ _ => True :=
  Sound.bind (.ask fun _ => trivial) fun _ _ _ _ => (create_sound _ _).bind fun _ _ _ _ =>
    Sound.bind (save_plain (fields_free rfl)) fun _ _ _ _ => .pure trivial

theorem submitIfManaged_sound (e : Execution) (service : Service) :
    Sound cfg i w (submitIfManaged cfg digest e service) fun _ _ => True := by
  refine .lift_bind fun _ _ => .ite (fun _ => (getOr_sound e).mono fun _ _ _ _ => trivial) fun _ =>
    .ite (fun _ => .pure trivial) fun _ => (submit_sound service).attempt.bind fun o _ _ _ => ?_
  rcases o with x | result
  · cases x with
    | build message =>
      exact (getOrRaise_sound _).bind fun _ _ _ _ => .ite (fun _ => .raise _) fun _ =>
        (completeCheck_sound _ _ _ _).bind fun _ _ _ _ =>
        (completeCheck_sound _ _ _ _).bind fun _ _ _ _ => .pure trivial
    | _ => exact .raise _
  · exact (completeCheck_sound _ _ _ _).bind fun _ _ _ _ =>
      (completeCheck_sound _ _ _ _).bind fun _ _ _ _ => .pure trivial

theorem resume_sound (service : Service) :
    Sound cfg i w (resume cfg digest service) fun _ _ => True :=
  (getOrRaise_sound _).bind fun _ _ _ _ => .ite (fun _ => .pure trivial) fun _ =>
    (startChecks_sound _).bind fun _ _ _ _ => (getOr_sound _).bind fun _ _ _ _ =>
    submitIfManaged_sound _ service

theorem startRelease_sound (service : Service) :
    Sound cfg i w (startRelease cfg digest service) fun _ _ => True :=
  (getOrRaise_sound _).bind fun e _ _ _ => Sound.bind (P := fun _ _ => True) (Sound.handle
    ((startChecks_sound e).bind fun _ _ _ _ => .ite (fun _ =>
      (submitIfManaged_sound e service).bind fun _ _ _ _ => .pure trivial)
      fun _ => .ask fun _ => trivial) fun _ _ _ => Sound.bind
      (save_status (fields_free rfl) fun _ _ _ => rfl)
      fun _ _ _ _ => .raise _) fun _ _ _ _ => (getOr_sound e).mono fun _ _ _ _ => trivial

theorem saveForRun_sound (runId : String) {cs : List Change}
    (h : ∀ w₁ : World ι, Safe cfg w₁ cs) :
    Sound cfg i w (saveForRun runId cs) fun _ _ => True :=
  now_sound.bind fun _ _ _ _ => Sound.bind (tx_sound fun w₁ _ _ _ => (h w₁).append
    (fields_free rfl)) fun _ _ _ _ => .pure trivial

theorem concludeRun_sound (run : WorkflowRun) (e : Execution) :
    Sound cfg i w (concludeRun cfg digest run e) fun _ _ => True := by
  refine .ite (fun _ => saveForRun_sound _ fun _ => ?_) fun _ => .ite (fun _ =>
    (saveForRun_sound _ fun _ => ?_).bind fun _ _ _ _ => reconcile_sound.mono fun _ _ _ _ => trivial)
    fun _ => .ite (fun _ => (saveForRun_sound _ fun _ => ?_).bind fun _ _ _ _ =>
    reconcile_sound.mono fun _ _ _ _ => trivial) fun _ => saveForRun_sound _ fun _ => ?_
  · exact .of_status (fields_free rfl) rfl
  · exact .terminalSuccess (fields_free rfl)
  · refine .terminalSuccess ?_
    split_ifs <;> exact fields_free rfl
  · exact .of_status (fields_free rfl) rfl

theorem handleWorkflowRun_sound (run : WorkflowRun) :
    Sound cfg i w (handleWorkflowRun cfg digest run) fun _ _ => True := by
  refine Sound.bind (.ask fun _ => trivial) fun _ _ _ _ => (getOrRaise_sound _).bind fun e _ _ _ =>
    .ite (fun _ => .pure trivial) fun _ => now_sound.bind fun _ _ _ _ =>
    (Sound.attempt (admitRun_sound _ _ ?_)).bind fun o _ _ _ => ?_
  · exact fields_free rfl
  · rcases o with x | r
    · cases x with
      | value message => exact .pure trivial
      | _ => exact .raise _
    · exact concludeRun_sound run r.1

theorem reconcileVerifiedRun_sound (run : WorkflowRun) (requestedBy : String) :
    Sound cfg i w (reconcileVerifiedRun run requestedBy) fun _ _ => True := by
  refine (getOrRaise_sound _).bind fun e _ _ _ => Sound.bind (.ask fun _ => trivial) fun _ _ _ _ =>
    Sound.bind (.ask fun _ => trivial) fun _ _ _ _ => now_sound.bind fun _ _ _ _ =>
    (admitRun_sound _ _ ?_).bind fun r _ _ _ => .ite (fun _ => Sound.mono
      (save_status (fields_free rfl) fun _ _ _ => rfl) fun _ _ _ _ => trivial)
      fun _ => .ite (fun _ => saveForRun_sound _ fun _ => ?_) fun _ => .raise _
  · exact fields_free rfl
  · exact .terminalSuccess (fields_free rfl)

theorem postBootstrap_sound (e : Execution) (request : BuildRequest) (hp : w.permit i = true) :
    Sound cfg i w (postBootstrap cfg e request) fun _ _ => True := by
  have hpost : Sound cfg i w (perform (.postBuild request)) fun _ _ => True :=
    .perform (fun w₁ _ _ hpermit => hpermit.trans hp) fun _ _ _ _ _ _ _ => trivial
  exact hpost.bind fun a _ _ _ => .ite (fun _ => .raise _) fun _ => .lift_bind fun b _ =>
    (bindQualityBootstrap_sound e b "").mono fun _ _ _ _ => trivial

theorem submitQualityBootstrap_sound (e : Execution) (request : BuildRequest)
    (tokenHash : String) :
    Sound cfg i w (submitQualityBootstrap cfg e request tokenHash) fun _ _ => True := by
  refine .lift_bind fun _ _ => .ite (fun _ => .raise _) fun _ => now_sound.bind fun _ _ _ _ =>
    Sound.bind (tx_sound fun w₁ _ _ _ => .of_plain ?_)
    fun r _ _ hr => .ite (fun _ => .raise _) fun hr2 => Sound.translate
    (postBootstrap_sound e request (hr.2.1 rfl (by simpa using hr2)))
  exact fields_free rfl

theorem startQualityBootstrap_sound (request : BuildRequest) (tokenHash : String) :
    Sound cfg i w (startQualityBootstrap cfg request tokenHash) fun _ _ => True := by
  refine (getOrRaise_sound _).bind fun e _ _ _ => Sound.handle
    (submitQualityBootstrap_sound e request tokenHash) fun x _ _ => (getOr_sound e).bind
    fun _ _ _ _ => .ite (fun _ => now_sound.bind fun now _ _ _ => Sound.bind
      (tx_sound fun w₁ _ _ _ => ?_) fun _ _ _ _ => .raise _) fun _ => .raise _
  change Safe cfg w₁ [⟨.status, .unknown⟩,
    ⟨.error, "Bootstrap attempt consumed; read-only recovery required"⟩, ⟨.updatedAt, now⟩]
  exact .of_status (fields_free rfl) rfl

theorem discard_sound {p : Program Execution} {P : Execution → World ι → Prop}
    (h : Sound cfg i w p P) : Sound cfg i w (Caller.program.discard p) fun _ _ => True :=
  h.bind fun _ _ _ _ => .pure trivial

/-- Every program that acts on an execution keeps the contract, wherever it starts. -/
theorem program_sound (c : Caller) :
    Sound cfg i w (c.program cfg digest) fun _ _ => True := by
  cases c with
  | reconcile => exact discard_sound reconcile_sound
  | sweep => exact discard_sound sweep_sound
  | approveCanary approvedBy =>
    exact discard_sound ((approveCanary_sound approvedBy).bind fun _ _ _ _ => reconcile_sound)
  | supersede supersededBy reason => exact discard_sound (supersede_sound supersededBy reason)
  | cancelRelease serviceName => exact discard_sound (cancelRelease_sound serviceName)
  | cancelBuild => exact cancelBuild_sound
  | acceptEvent payload tokenHash => exact discard_sound (acceptEvent_sound payload tokenHash)
  | sourceToken fingerprint runId => exact discard_sound (issueSourceToken_sound fingerprint runId)
  | eventToken fingerprint runId tokenHash =>
    exact discard_sound (issueEventToken_sound fingerprint runId tokenHash)
  | resolve runId => exact discard_sound (resolveExecution_sound runId)
  | workflowRun run => exact discard_sound (handleWorkflowRun_sound run)
  | verifiedRun run requestedBy => exact discard_sound (reconcileVerifiedRun_sound run requestedBy)
  | resume service => exact discard_sound (resume_sound service)
  | startRelease service => exact discard_sound (startRelease_sound service)
  | startQualityBootstrap request tokenHash =>
    exact discard_sound (startQualityBootstrap_sound request tokenHash)

end Orchestrator

section Runs

variable {ι : Type} [DecidableEq ι] (cfg : Config) (digest : Digest)

/-- An execution as it is reserved: nothing is claimed, committed, planned or published of it, and
GitHub has a tag for every Release. -/
structure Reserved (w : World ι) : Prop where
  status : w.record .status = .waitingGithub ∨ w.record .status = .submissionPending ∨
    w.record .status = .submitting
  bootstrap : w.record .bootstrapTicketId ≠ "" → w.record .operation = .prQuality
  document : w.record .ticketId ≠ qualityBootstrapTicketId
  unclaimed : w.record .publishClaimedAt = ""
  certain : w.record .publicationUncertain = false
  uncommitted : w.record .evidenceCommitted = false
  unapproved : w.record .canaryApproved = false
  open' : w.grants = []
  madeRefs : w.madeRefs = []
  madeReleases : w.madeReleases = []
  tagged : ∀ r ∈ w.releases, ∃ ref ∈ w.refs, ref.tag = r.tag
  permit : ∀ i, w.permit i = false
  cancelled : w.cancelled = false
  retired : w.retired = false

variable {cfg digest} {w : World ι}

omit [DecidableEq ι] in
theorem Reserved.inv (h : Reserved w) : Inv cfg w := by
  have hc : ¬Claimed w := fun hc => hc h.unclaimed
  refine
    { pending := fun hs => ?_, uncertain := fun hu => ?_, main := fun hcl => absurd hcl hc,
      claimed := fun hcl => absurd hcl hc,
      planned := fun hs => ?_, passed := fun hs => ?_, backed := fun he => ?_,
      released := fun hs => ?_, proper := ?_, granted := fun hg => absurd h.open' hg,
      tagged := h.tagged, madeRef := by simp [h.madeRefs], madeRefs := by simp [h.madeRefs],
      alone := by simp [h.madeRefs], madeRelease := by simp [h.madeReleases], madeReleases := by simp [h.madeReleases],
      ours := by simp [h.madeRefs] }
  all_goals rcases h.status with hst | hst | hst <;>
    simp_all [h.certain, h.uncommitted, improper]

/-- The callers at their start, on the world `w`. -/
def calls (cfg : Config) (digest : Digest) (w : World ι) (callers : ι → Caller) :
    Conf ι (World ι) Call.Ans Err Unit :=
  ⟨w, fun i => (callers i).program cfg digest⟩

/-- A run of the callers, each of whose requests meets `C`. -/
def Runs (cfg : Config) (C : ι → World ι → Call → Prop) :
    Conf ι (World ι) Call.Ans Err Unit → Conf ι (World ι) Call.Ans Err Unit → Prop :=
  Reach (system cfg) C

theorem anyEnd_stable (i : ι) (o : Except Err Unit) :
    (discipline ι cfg).Stable i (Discipline.anyEnd o) := fun _ _ _ _ => trivial

theorem callers_good (h : Inv cfg w) (callers : ι → Caller) :
    Good (discipline ι cfg) (fun _ => Discipline.anyEnd) (calls cfg digest w callers) :=
  ⟨h, fun i => Discipline.Obeys.mono (fun _ _ _ => trivial) _ (program_sound (callers i))⟩

variable {C : ι → World ι → Call → Prop} {callers : ι → Caller}
  {c : Conf ι (World ι) Call.Ans Err Unit}

theorem runs_good (h : Inv cfg w) (hr : Runs cfg C (calls cfg digest w callers) c) :
    Good (discipline ι cfg) (fun _ => Discipline.anyEnd) c :=
  good_reach anyEnd_stable (callers_good h callers) hr

/-- In every run of any callers the invariant holds in every state. -/
theorem runs_inv (h : Inv cfg w) (hr : Runs cfg C (calls cfg digest w callers) c) :
    Inv cfg c.state := (runs_good h hr).1

/-- Nothing goes back along a run. -/
theorem runs_le (h : Inv cfg w) (hr : Runs cfg C (calls cfg digest w callers) c) :
    Le w c.state :=
  reach_relation (D := discipline ι cfg) anyEnd_stable Le.refl (fun _ _ _ => Le.trans)
    (fun _ _ _ _ _ hI ha _ hs => (sem_keeps hI ha hs).2.1) (fun _ _ hI hm => (moves_keeps hI hm).2.1)
    (callers_good h callers) hr

/-- Every request that a run comes to is allowed. -/
theorem runs_allowed (h : Inv cfg w) (hr : Runs cfg C (calls cfg digest w callers) c) {i : ι}
    {e : Call} {k : e.Ans → Program Unit} (hp : c.pool i = .ask e k) :
    Allowed cfg i c.state e := by
  obtain ⟨hI, hO⟩ := runs_good h hr
  have ho := hO i
  rw [hp] at ho
  exact (ho _ ((discipline ι cfg).rely_refl _ _) hI).1

/-- A fact that allowed requests keep, where they meet `C`, holds in every state of every run. -/
theorem runs_invariant (h : Inv cfg w) {J : World ι → Prop}
    (hsem : ∀ i s e s' r, Inv cfg s → J s → Allowed cfg i s e → C i s e → sem cfg i s e s' r → J s')
    (henv : ∀ s s', J s → moves s s' → J s') (hJ : J w)
    (hr : Runs cfg C (calls cfg digest w callers) c) : J c.state := by
  refine reach_invariant (D := discipline ι cfg) anyEnd_stable (J := J) hsem
    (fun s s' _ hs hm => henv s s' hs hm) (callers_good h callers) ?_ hr
  exact hJ

end Runs

section Demo

/-- The places of the callers of a scripted run. -/
abbrev Slot := Fin 8

/-- A reserved main release that has its event token. -/
def reservedRelease : Execution :=
  update [⟨.eventTokenHash, newHash⟩] (pendingRelease newHash)

def reservedWorld (e : Execution) : World Slot where
  record := e
  head := "head"
  refs := []
  releases := []
  committed := []
  seen := []
  madeRefs := []
  madeReleases := []
  builds := 0
  grants := []
  permit := fun _ => false
  cancelled := false
  retired := false

theorem reserved_world : Reserved (reservedWorld reservedRelease) where
  status := by decide
  bootstrap := by decide
  document := by decide
  unclaimed := by decide
  certain := by decide
  uncommitted := by decide
  unapproved := by decide
  open' := rfl
  madeRefs := rfl
  madeReleases := rfl
  tagged := fun _ h => by cases h
  permit := fun _ => rfl
  cancelled := rfl
  retired := rfl

/-- The release's build, with the status `state`. -/
def releaseBuild (state : String) : Build :=
  { demoBuild with
    status := some state
    steps := [("release-plan", state)]
    substitutions := expectedSubstitutions (pendingRelease newHash) newPlanner }

def passedReport : Report := ⟨"svc", "org/svc", "head", "base", "oss-v2", "PASSED", "report"⟩

theorem answers_now : "t" ≠ "" := by decide

/-- What is answered where nothing fails and the build's status is `state`. -/
def answers (state : String) : Oracle where
  now := "t"
  now_ne := answers_now
  service := fun _ => some demoService
  build := fun _ => releaseBuild state
  builds := []
  post := ⟨200, "", .ok (releaseBuild "QUEUED")⟩
  report := fun _ => some passedReport
  staged := "report"
  id := "1"
  url := "url"

def releasePlan (version : String) : Plan :=
  ⟨version, "v" ++ version, .minor, "notes", newHash⟩

def planEvent (n : ℕ) (version : String) : Event :=
  ⟨"e", "e", "build", n, "release_planned", none, "", some (releasePlan version), ""⟩

/-- The callers of a release that is submitted, passes its quality and is planned, and others. -/
def releaseCallers (others : List Caller) (i : Slot) : Caller :=
  (Caller.resume demoService ::
    .acceptEvent ⟨"e", "e", "build", 1, "quality_passed", some passedReport, "", none, ""⟩ newHash ::
    .acceptEvent (planEvent 2 "1.2.0") newHash :: others).getD i.val .reconcile

def releaseCalls (others : List Caller) : Conf Slot (World Slot) Call.Ans Err Unit :=
  calls plannerConfig demoDigest (reservedWorld reservedRelease) (releaseCallers others)

/-- A scripted step: a request is answered, or times out where it would make a Release, or the
default branch moves. -/
inductive Act
  | answer (i : Slot) (state : String)
  | timeout (i : Slot)
  | push (head : String)

/-- The making of a Release times out. -/
def timingOut (i : Slot) (w : World Slot) : (c : Call) → World Slot × c.Ans
  | .createRelease _ _ _ => (w, .error (.external "timed out"))
  | c => honest plannerConfig (answers "") i w c

def Act.turn : Act → Turn Slot (World Slot) Call.Ans
  | .answer i state => .run i (honest plannerConfig (answers state) i)
  | .timeout i => .run i (timingOut i)
  | .push head => .move fun w => { w with head := head }

theorem act_sound (a : Act) : a.turn.Sound (system plannerConfig) := by
  cases a with
  | answer i state => exact fun w c => honest_sem plannerConfig (answers state) i w c
  | timeout i =>
    intro w c
    have h := honest_sem plannerConfig (answers "") i w c
    cases c with
    | createRelease tag body sha => exact .inl ⟨rfl, _, rfl⟩
    | _ => exact h
  | push head => exact fun w => ⟨head, rfl⟩

/-- The callers' run under a script. -/
def released (others : List Caller) (script : List Act) : Conf Slot (World Slot) Call.Ans Err Unit :=
  (releaseCalls others).play (script.map Act.turn)

theorem played_runs {C : Slot → World Slot → Call → Prop}
    {c : Conf Slot (World Slot) Call.Ans Err Unit} (script : List Act) (h : c.Meets C (script.map Act.turn)) :
    Runs plannerConfig C c (c.play (script.map Act.turn)) := by
  refine reach_play (fun t ht => ?_) _ h
  obtain ⟨a, -, rfl⟩ := List.mem_map.1 ht
  exact act_sound a

theorem released_runs {C : Slot → World Slot → Call → Prop} (others : List Caller)
    (script : List Act) (h : (releaseCalls others).Meets C (script.map Act.turn)) :
    Runs plannerConfig C (releaseCalls others) (released others script) :=
  played_runs script h

def answered (n : ℕ) (i : Slot) (state : String) : List Act := List.replicate n (.answer i state)

/-- The first three callers run to their end: the build is running, and the plan is there. -/
def planning : List Act :=
  answered 19 0 "WORKING" ++ answered 13 1 "WORKING" ++ answered 12 2 "WORKING"

end Demo

end Release
