import EngPlatform.Release.Events

/-!
# Builds and the attempts they are for

A build has the substitutions of the execution that requested it, and is recognised by them in three
places: when a lost submission is looked for, when the build calls back, and when it is reconciled.
Each of the three writes out again what it expects.

They agree with the request but for records that no one stages, and a build of one execution is not
taken for that of another. An attempt is told from another by the number of planner retries, which
is not asked of a record that has none.
-/

set_option linter.dupNamespace false

namespace Release

variable {cfg : Config} {digest : Digest} {e e' : Execution} {service : Service}
  {request : BuildRequest} {b : Build}

/-- The build is the one that was requested. -/
structure Carries (b : Build) (request : BuildRequest) : Prop where
  repository : b.repository = request.repository
  revision : b.revision = request.revision
  serviceAccount : b.serviceAccount = request.serviceAccount
  substitutions : b.substitutions = request.substitutions

/-! ## Cloud Build with the builds it has -/

/-- Only Cloud Build answers. -/
def cloudBuilds (builds : List Build) (_ : Unit) : (c : Call) → Unit × c.Ans
  | .listBuilds _ => ((), .ok builds)
  | .getBuild id =>
    match builds.find? fun b => b.id = id with
    | some b => ((), .ok b)
    | none => ((), .error (.external "not found"))
  | _ => ((), .error (.external "unavailable"))

/-- What `_matching_build` returns. -/
def matched (cfg : Config) (e : Execution) (builds : List Build) : Except Err (Option Build) :=
  ((matchingBuild cfg e).run (cloudBuilds builds) ()).2

/-- What becomes of a callback of the build. -/
def calledBack (cfg : Config) (e : Execution) (b : Build) : Except Err Unit :=
  ((verifyCloudBuild cfg e b.id).run (cloudBuilds [b]) ()).2

/-- The record when the build has been bound to it. -/
def boundTo (e : Execution) (b : Build) (now : String) : Execution :=
  update (Tx.changes e (.bindBuild b.id (bindMetadata b now) now)) e

def accepts (cfg : Config) (e : Execution) (b : Build) : Bool :=
  hasSource cfg e b ∧ b.serviceAccount = cfg.serviceAccount ∧
    hasSubstitutions b (submissionSubstitutions cfg e)

theorem matched_eq (h : e .bootstrapTicketId = "") (builds : List Build) :
    matched cfg e builds = .ok (builds.find? (accepts cfg e)) := by
  unfold matched matchingBuild
  rw [if_neg (not_not_intro h)]
  rfl

/-! ## What a build carries -/

/-- The substitutions of a requested build, in terms of the record. -/
structure Injected (cfg : Config) (e : Execution) (hash : String) (b : Build) : Prop where
  executionId : b.substitutions.lookup "_EXECUTION_ID" = some (e .executionId)
  fingerprint : b.substitutions.lookup "_REQUEST_FINGERPRINT" = some (e .fingerprint)
  serviceName : b.substitutions.lookup "_SERVICE_NAME" = some (e .serviceName)
  repository : b.substitutions.lookup "_REPOSITORY" = some (e .repository)
  headSha : b.substitutions.lookup "_HEAD_SHA" = some (e .headSha)
  baseSha : b.substitutions.lookup "_BASE_SHA" = some (e .baseSha)
  operation : b.substitutions.lookup "_OPERATION" = some (Operation.text (e .operation))
  profileHash : b.substitutions.lookup "_PROFILE_SHA256" = some (e .profileHash)
  executorDigest : b.substitutions.lookup "_EXECUTOR_DIGEST" = some (e .executorDigest)
  plannerHash : b.substitutions.lookup "_PLANNER_SHA256" = some (e .plannerHash)
  plannerDigest : b.substitutions.lookup "_PLANNER_DIGEST" =
    some (if e .operation = .mainRelease then cfg.releasePlannerImage else "")
  attempt : b.substitutions.lookup "_PLANNER_RETRY_ATTEMPT" =
    if e .plannerRetryCount = (0 : ℕ) then none else some (toString (e .plannerRetryCount : ℕ))
  image : b.substitutions.lookup "_PLANNER_IMAGE_SHA256" =
    if e .operation = .mainRelease ∧ contractRetryAuthorized cfg e hash then
      some (e .plannerContractRetryHash)
    else none

/-- What the record and the configuration have when a build is requested. -/
structure Requested (cfg : Config) (e : Execution) (hash : String) (b : Build) : Prop where
  injected : Injected cfg e hash b
  source : hasSource cfg e b = true
  account : b.serviceAccount = cfg.serviceAccount
  accountSet : cfg.serviceAccount ≠ ""

theorem injected_of (hs : e .serviceName = service.serviceName) (hr : e .repository = service.repository)
    (hp : e .profileHash = service.profile.fingerprint) {hash : String}
    (hb : b.substitutions = substitutionsOf cfg e service hash) : Injected cfg e hash b := by
  constructor
  all_goals
    rw [hb]
    unfold substitutionsOf
    simp [List.lookup_cons, List.lookup_append, hs, hr, hp]
  all_goals split_ifs <;> simp [List.lookup_cons]

theorem requireConfig_account (h : requireConfig cfg service = .ok ()) : cfg.serviceAccount ≠ "" := by
  unfold requireConfig at h
  obtain ⟨⟨⟩, -, h⟩ := Interleave.bind_ok.1 h
  intro hempty
  rw [if_pos (show cfg.projectId = "" ∨ cfg.serviceAccount = "" from .inr hempty)] at h
  split_ifs at h

theorem connectedRepository_spec {repository : String} (h : connectedRepository cfg service = .ok repository) :
    cfg.repositories service.serviceName = repository ∧ repository ≠ "" := by
  unfold connectedRepository at h
  split_ifs at h with hstart
  cases h
  refine ⟨rfl, fun hempty => ?_⟩
  rw [hempty] at hstart
  revert hstart
  decide

/-- A pending third retry whose hash the build is given. -/
def ThirdAuthorized (cfg : Config) (e : Execution) (hash : String) : Prop :=
  e .operation = .mainRelease ∧ contractRetryAuthorized cfg e hash = true

theorem requested (h : buildRequest cfg digest e service = .ok request) (hb : Carries b request) :
    ∃ hash, plannerHash cfg digest = .ok hash ∧ Requested cfg e hash b := by
  have haccount : cfg.serviceAccount ≠ "" := by
    unfold buildRequest at h
    obtain ⟨⟨⟩, hconfig, -⟩ := Interleave.bind_ok.1 h
    exact requireConfig_account hconfig
  unfold buildRequest at h
  obtain ⟨⟨⟩, -, h⟩ := Interleave.bind_ok.1 h
  obtain ⟨hash, hhash, h⟩ := Interleave.bind_ok.1 h
  obtain ⟨executor, -, h⟩ := Interleave.bind_ok.1 h
  refine ⟨hash, hhash, ?_⟩
  split at h
  · cases h
  next hid =>
  simp only [buildIdentity, not_not, decide_eq_true_eq] at hid
  split at h
  · unfold plannerRetryRequest at h
    obtain ⟨hash', -, h⟩ := Interleave.bind_ok.1 h
    split at h
    · cases h
    obtain ⟨executor', -, h⟩ := Interleave.bind_ok.1 h
    obtain ⟨repository, hrep, h⟩ := Interleave.bind_ok.1 h
    cases h
    obtain ⟨hrep, hne⟩ := connectedRepository_spec hrep
    refine ⟨injected_of hid.1 hid.2.1 hid.2.2.1 hb.substitutions, ?_, hb.serviceAccount, haccount⟩
    unfold hasSource
    rw [hid.1, hb.repository, hb.revision, hrep]
    exact decide_eq_true ⟨hne, rfl, rfl⟩
  · obtain ⟨repository, hrep, h⟩ := Interleave.bind_ok.1 h
    cases h
    obtain ⟨hrep, hne⟩ := connectedRepository_spec hrep
    refine ⟨injected_of hid.1 hid.2.1 hid.2.2.1 hb.substitutions, ?_, hb.serviceAccount, haccount⟩
    unfold hasSource
    rw [hid.1, hb.repository, hb.revision, hrep]
    exact decide_eq_true ⟨hne, rfl, rfl⟩

/-! ## What the expected substitutions ask -/

/-- The fields that identify an execution. -/
structure SameRequest (e e' : Execution) : Prop where
  executionId : e .executionId = e' .executionId
  fingerprint : e .fingerprint = e' .fingerprint
  serviceName : e .serviceName = e' .serviceName
  repository : e .repository = e' .repository
  headSha : e .headSha = e' .headSha
  baseSha : e .baseSha = e' .baseSha
  executorDigest : e .executorDigest = e' .executorDigest
  operation : e .operation = e' .operation
  profileHash : e .profileHash = e' .profileHash

/-- The retries of the record `e'` are found in a build for `e`. -/
structure SameRetry (cfg : Config) (e : Execution) (hash : String) (e' : Execution) : Prop where
  count : e' .plannerRetryCount ≠ (0 : ℕ) → e .plannerRetryCount = e' .plannerRetryCount
  image : e' .plannerRetryCount = (3 : ℕ) → e' .plannerContractRetryPending = true →
    ThirdAuthorized cfg e hash ∧ e .plannerContractRetryHash = e' .plannerContractRetryHash

theorem repr_inj {n m : ℕ} (h : toString n = toString m) : n = m := by
  have hdigits : Nat.toDigits 10 n = Nat.toDigits 10 m := by
    have := congrArg String.toList h
    simpa [Nat.repr] using this
  have hn : Nat.ofDigitChars 10 (Nat.toDigits 10 n) 0 = n := Nat.ofDigitChars_ten_toDigits
  rw [hdigits, Nat.ofDigitChars_ten_toDigits] at hn
  exact hn.symm

theorem operation_text_inj {o o' : Operation} (h : o.text = o'.text) : o = o' := by
  revert h
  cases o <;> cases o' <;> decide

theorem hasSubstitutions_append {l l' : List (String × String)} :
    hasSubstitutions b (l ++ l') = (hasSubstitutions b l && hasSubstitutions b l') := by
  unfold hasSubstitutions
  rw [List.all_append]

theorem retries_iff {hash : String} (hi : Injected cfg e hash b) :
    hasSubstitutions b (expectedSubstitutions.retries e') = true ↔ SameRetry cfg e hash e' := by
  unfold expectedSubstitutions.retries
  rw [hasSubstitutions_append, Bool.and_eq_true]
  refine (and_congr ?_ ?_).trans ⟨fun h => ⟨h.1, h.2⟩, fun h => ⟨h.count, h.image⟩⟩
  · split_ifs with hzero
    · exact ⟨fun _ hne => absurd hzero hne, fun _ => rfl⟩
    · rw [hasSubstitutions, List.all_cons, List.all_nil, Bool.and_true, decide_eq_true_eq, hi.attempt]
      constructor
      · intro h _
        split_ifs at h with hz
        exact repr_inj (Option.some.inj h)
      · intro h
        rw [h hzero, if_neg hzero]
  · split_ifs with hthird
    · rw [hasSubstitutions, List.all_cons, List.all_nil, Bool.and_true, decide_eq_true_eq, hi.image]
      constructor
      · intro h _ _
        split_ifs at h with hauth
        exact ⟨hauth, Option.some.inj h⟩
      · intro h
        obtain ⟨hauth, hhash⟩ := h hthird.1 hthird.2
        rw [if_pos (show _ ∧ _ from hauth), hhash]
    · exact ⟨fun _ h₃ hp => absurd ⟨h₃, hp⟩ hthird, fun _ => rfl⟩

theorem base_iff {hash : String} (hi : Injected cfg e hash b) :
    hasSubstitutions b [("_EXECUTION_ID", e' .executionId), ("_REQUEST_FINGERPRINT", e' .fingerprint),
      ("_SERVICE_NAME", e' .serviceName), ("_REPOSITORY", e' .repository), ("_HEAD_SHA", e' .headSha),
      ("_BASE_SHA", e' .baseSha), ("_EXECUTOR_DIGEST", e' .executorDigest),
      ("_OPERATION", (e' .operation : Operation).text), ("_PROFILE_SHA256", e' .profileHash)] = true ↔
      SameRequest e e' := by
  unfold hasSubstitutions
  simp only [List.all_cons, List.all_nil, Bool.and_true, Bool.and_eq_true, decide_eq_true_eq,
    hi.executionId, hi.fingerprint, hi.serviceName, hi.repository, hi.headSha, hi.baseSha,
    hi.executorDigest, hi.operation, hi.profileHash, Option.some.injEq]
  constructor
  · rintro ⟨h₁, h₂, h₃, h₄, h₅, h₆, h₇, h₈, h₉⟩
    exact ⟨h₁, h₂, h₃, h₄, h₅, h₆, h₇, operation_text_inj h₈, h₉⟩
  · rintro ⟨h₁, h₂, h₃, h₄, h₅, h₆, h₇, h₈, h₉⟩
    exact ⟨h₁, h₂, h₃, h₄, h₅, h₆, h₇, congrArg Operation.text h₈, h₉⟩

/-- What the two later verifications accept. -/
theorem expectedSubstitutions_iff {hash : String} (hi : Injected cfg e hash b) :
    hasSubstitutions b (expectedSubstitutions e' cfg.releasePlannerImage) = true ↔
      SameRequest e e' ∧ (e' .operation = .mainRelease →
        e .plannerHash = e' .plannerHash ∧ SameRetry cfg e hash e') := by
  unfold expectedSubstitutions
  rw [hasSubstitutions_append, Bool.and_eq_true, base_iff hi]
  refine and_congr_right fun hsame => ?_
  by_cases hop : e' .operation = .mainRelease
  · rw [if_pos hop, hasSubstitutions_append, Bool.and_eq_true, retries_iff hi]
    have hdigest := hi.plannerDigest
    rw [if_pos (hsame.operation.trans hop)] at hdigest
    simp [hasSubstitutions, hi.plannerHash, hdigest, hop]
  · rw [if_neg hop]
    exact ⟨fun _ h => absurd h hop, fun _ => rfl⟩

/-- What the search for a lost submission accepts. -/
theorem submissionSubstitutions_iff {hash : String} (hi : Injected cfg e hash b) :
    hasSubstitutions b (submissionSubstitutions cfg e') = true ↔
      SameRequest e e' ∧ SameRetry cfg e hash e' ∧
        e .plannerHash = if e' .operation = .mainRelease then e' .plannerHash else "" := by
  unfold submissionSubstitutions
  by_cases hop : e' .operation = .mainRelease
  · rw [if_pos hop, if_pos hop, expectedSubstitutions_iff hi]
    refine and_congr_right fun _ => ?_
    exact ⟨fun h => ⟨(h hop).2, (h hop).1⟩, fun h _ => ⟨h.2, h.1⟩⟩
  · rw [if_neg hop, if_neg hop, hasSubstitutions_append, hasSubstitutions_append, Bool.and_eq_true,
      Bool.and_eq_true, retries_iff hi, and_assoc]
    unfold expectedSubstitutions
    rw [if_neg hop, List.append_nil, base_iff hi]
    refine and_congr_right fun hsame => ?_
    have hdigest := hi.plannerDigest
    rw [if_neg fun h => hop (hsame.operation.symm.trans h)] at hdigest
    simp [hasSubstitutions, hi.plannerHash, hdigest, and_comm]

/-! ## The three verifications -/

theorem boundTo_apply (now : String) {f : Field}
    (hf : f ∉ [.status, .updatedAt, .buildId, .providerRunId, .providerStatus, .logsUrl, .buildName,
      .extra "submission_reconciled_at"]) : boundTo e b now f = e f := by
  refine update_of_none (lookup_eq_none fun c hc => ?_)
  rintro rfl
  simp only [Tx.changes, bindMetadata, List.cons_append, List.nil_append, List.mem_cons,
    List.not_mem_nil, or_false] at hc
  rcases hc with rfl | rfl | rfl | rfl | rfl | rfl | rfl | rfl <;> simp at hf

theorem boundTo_buildId (now : String) : boundTo e b now .buildId = b.id := by
  unfold boundTo
  simp [update, Tx.changes, bindMetadata, lookup]

theorem sameRequest_boundTo (now : String) : SameRequest e (boundTo e b now) := by
  constructor
  all_goals exact (boundTo_apply now (by decide)).symm

theorem accepts_iff {hash : String} (hr : Requested cfg e hash b) :
    accepts cfg e' b = true ↔ hasSubstitutions b (submissionSubstitutions cfg e') = true := by
  unfold accepts
  rw [decide_eq_true_eq]
  refine ⟨fun h => h.2.2, fun h => ⟨?_, hr.account, h⟩⟩
  have hsame := ((submissionSubstitutions_iff hr.injected).mp h).1
  have hsource := hr.source
  unfold hasSource at hsource ⊢
  rw [← hsame.serviceName, ← hsame.headSha]
  exact hsource

theorem hasSource_of_same (hs : hasSource cfg e b = true) (h : SameRequest e e') :
    hasSource cfg e' b = true := by
  unfold hasSource at hs ⊢
  rw [← h.serviceName, ← h.headSha]
  exact hs

theorem verifyBuild_iff {hash : String} (hr : Requested cfg e hash b) (hboot : e' .bootstrapTicketId = "")
    (hbound : e' .buildId = b.id) : verifyBuild cfg e' b "" = .ok () ↔
      hasSubstitutions b (expectedSubstitutions e' cfg.releasePlannerImage) = true := by
  unfold verifyBuild
  rw [if_neg (not_not_intro hboot), if_neg (not_not_intro rfl)]
  show (if _ then _ else _) = _ ↔ _
  constructor
  · intro h
    split_ifs at h with h₁ h₂ h₃
    exact h₂
  · intro h
    have hsame := ((expectedSubstitutions_iff hr.injected).mp h).1
    have hsource := hasSource_of_same hr.source hsame
    rw [if_neg fun hor => hor.elim (fun hid => hid hbound.symm) fun hs => hs hsource,
      if_neg (not_not_intro h), if_neg (not_not_intro hr.account)]

theorem verifyBuild_rejects (hboot : e' .bootstrapTicketId = "")
    (h : ¬hasSubstitutions b (expectedSubstitutions e' cfg.releasePlannerImage) = true) :
    verifyBuild cfg e' b "" ≠ .ok () := by
  unfold verifyBuild
  rw [if_neg (not_not_intro hboot), if_neg (not_not_intro rfl)]
  show (if _ then _ else _) ≠ _
  split_ifs
  all_goals rintro ⟨⟩

/-- What Cloud Build's answer leaves to check. -/
theorem calledBack_eq (hboot : e' .bootstrapTicketId = "") (hbound : e' .buildId = "" ∨ e' .buildId = b.id) :
    calledBack cfg e' b =
      if ¬hasSource cfg e' b ∨
          ¬hasSubstitutions b (expectedSubstitutions e' cfg.releasePlannerImage) then
        .error (.http 403 "Cloud Build source mismatch")
      else if b.serviceAccount = "" ∨ b.serviceAccount ≠ cfg.serviceAccount then
        .error (.http 403 "Cloud Build service account mismatch")
      else if e' .buildId = "" then
        ((translate Err.isBinding (.http 409 "Cloud Build binding conflict")
          (do let _ ← bind b; pure ()) : Program Unit).run (cloudBuilds [b]) ()).2
      else .ok () := by
  have hopen : ¬(e' .buildId ≠ "" ∧ e' .buildId ≠ b.id) := by
    rintro ⟨hne, hid⟩
    exact hbound.elim hne hid
  have hfound : ([b].find? fun c => c.id = b.id) = some b := by simp
  unfold calledBack verifyCloudBuild
  rw [if_neg hopen]
  simp only [translate, perform, Interleave.Prog.handle, Interleave.Prog.ask_bind,
    Interleave.Prog.run, cloudBuilds, hfound, Interleave.Prog.lift_ok, Interleave.Prog.done_bind,
    hboot, ne_eq, not_true_eq_false, if_false]
  split_ifs <;> rfl

theorem calledBack_rejects (hboot : e' .bootstrapTicketId = "")
    (h : ¬hasSubstitutions b (expectedSubstitutions e' cfg.releasePlannerImage) = true) :
    ∃ detail, calledBack cfg e' b = .error (.http 403 detail) := by
  by_cases hbound : e' .buildId = "" ∨ e' .buildId = b.id
  · rw [calledBack_eq hboot hbound, if_pos (.inr h)]
    exact ⟨_, rfl⟩
  · unfold calledBack verifyCloudBuild
    rw [if_pos (not_or.mp hbound)]
    exact ⟨_, rfl⟩

theorem calledBack_iff {hash : String} (hr : Requested cfg e hash b) (hboot : e' .bootstrapTicketId = "")
    (hbound : e' .buildId = b.id) (hid : b.id ≠ "") : calledBack cfg e' b = .ok () ↔
      hasSubstitutions b (expectedSubstitutions e' cfg.releasePlannerImage) = true := by
  constructor
  · intro h
    by_contra hsubs
    obtain ⟨detail, hd⟩ := calledBack_rejects hboot hsubs
    rw [hd] at h
    cases h
  · intro h
    have hsource := hasSource_of_same hr.source ((expectedSubstitutions_iff hr.injected).mp h).1
    have haccount : ¬(b.serviceAccount = "" ∨ b.serviceAccount ≠ cfg.serviceAccount) := by
      rw [hr.account]
      rintro (hempty | hne)
      · exact hr.accountSet hempty
      · exact hne rfl
    rw [calledBack_eq hboot (.inr hbound), if_neg fun hor => hor.elim (fun hs => hs hsource) fun hs => hs h,
      if_neg haccount, if_neg fun hempty => hid (hbound.symm.trans hempty)]

/-! ## Agreement and separation -/

/-- A pending third retry is the one that the configured planner is authorized for. -/
def ThirdStaged (cfg : Config) (digest : Digest) (e : Execution) : Prop :=
  e .plannerRetryCount = (3 : ℕ) → e .plannerContractRetryPending = true →
    ∀ hash, plannerHash cfg digest = .ok hash → ThirdAuthorized cfg e hash

/-- The executions are not the same, whatever their attempts. -/
def Differ (e e' : Execution) : Prop :=
  e .executionId ≠ e' .executionId ∨ e .fingerprint ≠ e' .fingerprint ∨ e .operation ≠ e' .operation ∨
    e .headSha ≠ e' .headSha ∨ e .baseSha ≠ e' .baseSha

/-- The record is at another retry than the build. -/
def OtherRetry (e e' : Execution) : Prop :=
  e .plannerRetryCount ≠ e' .plannerRetryCount ∧ e' .plannerRetryCount ≠ (0 : ℕ)

theorem not_same_of_differ (h : Differ e e') : ¬SameRequest e e' := by
  intro hs
  rcases h with h | h | h | h | h
  · exact h hs.executionId
  · exact h hs.fingerprint
  · exact h hs.operation
  · exact h hs.headSha
  · exact h hs.baseSha

theorem not_sameRetry {hash : String} (h : OtherRetry e e') : ¬SameRetry cfg e hash e' :=
  fun hs => h.1 (hs.count h.2)

theorem sameRetry_self {hash : String} (hhash : plannerHash cfg digest = .ok hash) :
    SameRetry cfg e hash e ↔ ThirdStaged cfg digest e := by
  constructor
  · intro h h₃ hp hash' hhash'
    obtain rfl := Except.ok.inj (hhash.symm.trans hhash')
    exact (h.image h₃ hp).1
  · intro h
    exact ⟨fun _ => rfl, fun h₃ hp => ⟨h h₃ hp hash hhash, rfl⟩⟩

theorem accepts_self {hash : String} (hhash : plannerHash cfg digest = .ok hash)
    (hr : Requested cfg e hash b) : accepts cfg e b = true ↔
      ThirdStaged cfg digest e ∧ (e .operation = .prQuality → e .plannerHash = "") := by
  have hself : SameRequest e e := ⟨rfl, rfl, rfl, rfl, rfl, rfl, rfl, rfl, rfl⟩
  rw [accepts_iff hr, submissionSubstitutions_iff hr.injected, sameRetry_self hhash]
  refine ⟨fun hall => ⟨hall.2.1, fun hop => ?_⟩, fun hall => ⟨hself, hall.1, ?_⟩⟩
  · have hplanner := hall.2.2
    rw [if_neg (by rw [hop]; decide)] at hplanner
    exact hplanner
  · split_ifs with hop
    · rfl
    · refine hall.2 ?_
      cases hcase : (e .operation : Operation) with
      | prQuality => rfl
      | mainRelease => exact absurd hcase hop

theorem expected_boundTo {hash : String} (hhash : plannerHash cfg digest = .ok hash)
    (hr : Requested cfg e hash b) (now : String) :
    hasSubstitutions b (expectedSubstitutions (boundTo e b now) cfg.releasePlannerImage) = true ↔
      (e .operation = .mainRelease → ThirdStaged cfg digest e) := by
  have hcount := boundTo_apply (e := e) (b := b) now (f := .plannerRetryCount) (by decide)
  have hpending := boundTo_apply (e := e) (b := b) now (f := .plannerContractRetryPending) (by decide)
  have hcontract := boundTo_apply (e := e) (b := b) now (f := .plannerContractRetryHash) (by decide)
  have hplanner := boundTo_apply (e := e) (b := b) now (f := .plannerHash) (by decide)
  have hop := boundTo_apply (e := e) (b := b) now (f := .operation) (by decide)
  have hretry : SameRetry cfg e hash (boundTo e b now) ↔ SameRetry cfg e hash e := by
    constructor
    · rintro ⟨h₁, h₂⟩
      rw [hcount] at h₁ h₂
      rw [hpending, hcontract] at h₂
      exact ⟨h₁, h₂⟩
    · rintro ⟨h₁, h₂⟩
      constructor
      · rw [hcount]
        exact h₁
      · rw [hcount, hpending, hcontract]
        exact h₂
  rw [expectedSubstitutions_iff hr.injected, hretry, sameRetry_self hhash, hop, hplanner]
  exact ⟨fun hall hmain => (hall.2 hmain).2, fun hall => ⟨sameRequest_boundTo now, fun hmain => ⟨rfl, hall hmain⟩⟩⟩

theorem matched_single (hboot : e' .bootstrapTicketId = "") :
    matched cfg e' [b] = .ok none ↔ ¬accepts cfg e' b = true := by
  rw [matched_eq hboot]
  cases ha : accepts cfg e' b <;> simp [List.find?, ha]

/-- A build of an execution is found, and accepted once it is bound, just if the planner fields of
the record are as they are staged; and it is taken for no other execution, nor for an attempt of the
same one whose retry count is asked for. -/
theorem attempts_separated (h : buildRequest cfg digest e service = .ok request) (hb : Carries b request)
    (hid : b.id ≠ "") (hboot : e .bootstrapTicketId = "") (now : String) :
    (ThirdStaged cfg digest e ∧ (e .operation = .prQuality → e .plannerHash = "") ↔
      ∀ before after, (∀ c ∈ before, matched cfg e [c] = .ok none) →
        matched cfg e (before ++ b :: after) = .ok (some b)) ∧
    ((e .operation = .mainRelease → ThirdStaged cfg digest e) ↔
      calledBack cfg (boundTo e b now) b = .ok ()) ∧
    ((e .operation = .mainRelease → ThirdStaged cfg digest e) ↔
      verifyBuild cfg (boundTo e b now) b "" = .ok ()) ∧
    ∀ e' : Execution, e' .bootstrapTicketId = "" →
      (Differ e e' ∨ OtherRetry e e' → matched cfg e' [b] = .ok none) ∧
      (Differ e e' ∨ (OtherRetry e e' ∧ e' .operation = .mainRelease) →
        (∃ detail, calledBack cfg e' b = .error (.http 403 detail)) ∧
          verifyBuild cfg e' b "" ≠ .ok ()) := by
  obtain ⟨hash, hhash, hr⟩ := requested h hb
  have hboundBoot : boundTo e b now .bootstrapTicketId = "" :=
    (boundTo_apply now (by decide)).trans hboot
  have hbound : boundTo e b now .buildId = b.id := boundTo_buildId now
  refine ⟨?_, ?_, ?_, fun e' hboot' => ⟨fun hdiff => ?_, fun hdiff => ?_⟩⟩
  · rw [← accepts_self hhash hr]
    constructor
    · intro ha before after hbefore
      have hnone : before.find? (accepts cfg e) = none := by
        rw [List.find?_eq_none]
        intro c hc
        exact (matched_single hboot).mp (hbefore c hc)
      rw [matched_eq hboot, List.find?_append, hnone, List.find?_cons, ha]
      rfl
    · intro hall
      by_contra ha
      have hfound := hall [] [] (by simp)
      rw [List.nil_append, (matched_single hboot).mpr ha] at hfound
      cases hfound
  · rw [calledBack_iff hr hboundBoot hbound hid]
    exact (expected_boundTo hhash hr now).symm
  · rw [verifyBuild_iff hr hboundBoot hbound]
    exact (expected_boundTo hhash hr now).symm
  · rw [matched_single hboot', accepts_iff hr, submissionSubstitutions_iff hr.injected]
    rintro ⟨hsame, hretry, -⟩
    exact hdiff.elim (fun hd => not_same_of_differ hd hsame) fun ho => not_sameRetry ho hretry
  · have hrejected : ¬hasSubstitutions b (expectedSubstitutions e' cfg.releasePlannerImage) = true := by
      rw [expectedSubstitutions_iff hr.injected]
      rintro ⟨hsame, hretry⟩
      rcases hdiff with hd | ⟨ho, hmain⟩
      · exact not_same_of_differ hd hsame
      · exact not_sameRetry ho (hretry hmain).2
    exact ⟨calledBack_rejects hboot' hrejected, verifyBuild_rejects hboot' hrejected⟩

/-- The build that an execution is given. -/
def buildFor (request : BuildRequest) : Build where
  id := "build"
  name := ""
  status := some "QUEUED"
  logUrl := ""
  repository := request.repository
  revision := request.revision
  serviceAccount := request.serviceAccount
  substitutions := request.substitutions
  steps := []
  timed := false

theorem buildFor_carries (request : BuildRequest) : Carries (buildFor request) request :=
  ⟨rfl, rfl, rfl, rfl⟩

theorem attempts_separated_demo : ∃ request,
    buildRequest plannerConfig demoDigest (pendingRelease newHash) demoService = .ok request ∧
    matched plannerConfig (pendingRelease newHash) [buildFor request] = .ok (some (buildFor request)) := by
  have hok := planner_requests.1
  rcases hr : buildRequest plannerConfig demoDigest (pendingRelease newHash) demoService with
    x | request
  · rw [hr] at hok
    cases hok
  · have hall := attempts_separated hr (buildFor_carries request) (by simp [buildFor]) (by decide) "t"
    refine ⟨request, rfl, hall.1.mp ⟨?_, by decide⟩ [] [] (by simp)⟩
    exact fun h₃ => absurd h₃ (by decide)

/-- The first planner retry of a release. -/
def retriedRelease : Execution :=
  update [⟨.plannerRetryCount, (1 : ℕ)⟩, ⟨.plannerRetryPending, true⟩, ⟨.evidenceCommitted, true⟩,
    ⟨.reportHash, "report"⟩] (pendingRelease newHash)

theorem ok_of_toOption {α : Type} {r : Except Err α} {a : α} (h : r.toOption = some a) : r = .ok a := by
  cases r with
  | error x => cases h
  | ok v => exact congrArg Except.ok (Option.some.inj h)

theorem ok_of_isOk {r : Except Err Unit} (h : r.isOk = true) : r = .ok () := by
  cases r with
  | error x => cases h
  | ok v => rfl

/-- The build of the first planner retry passes for one of the record without retries. -/
theorem retry_passes_for_first_attempt : ∃ request first,
    buildRequest plannerConfig demoDigest retriedRelease demoService = .ok request ∧
    buildRequest plannerConfig demoDigest (pendingRelease newHash) demoService = .ok first ∧
    retriedRelease .plannerRetryCount ≠ pendingRelease newHash .plannerRetryCount ∧
    matched plannerConfig (pendingRelease newHash) [buildFor request] = .ok (some (buildFor request)) ∧
    calledBack plannerConfig (boundTo (pendingRelease newHash) (buildFor request) "t")
      (buildFor request) = .ok () ∧
    verifyBuild plannerConfig (boundTo (pendingRelease newHash) (buildFor request) "t")
      (buildFor request) "" = .ok () := by
  have hfirst := planner_requests.1
  have hok : (match buildRequest plannerConfig demoDigest retriedRelease demoService with
      | .ok request => decide (
        (matched plannerConfig (pendingRelease newHash) [buildFor request]).toOption =
          some (some (buildFor request)) ∧
        (calledBack plannerConfig (boundTo (pendingRelease newHash) (buildFor request) "t")
          (buildFor request)).isOk ∧
        (verifyBuild plannerConfig (boundTo (pendingRelease newHash) (buildFor request) "t")
          (buildFor request) "").isOk)
      | .error _ => false) = true := by decide +kernel
  rcases hr : buildRequest plannerConfig demoDigest retriedRelease demoService with x | request
  · rw [hr] at hok
    cases hok
  rcases hf : buildRequest plannerConfig demoDigest (pendingRelease newHash) demoService with x | first
  · rw [hf] at hfirst
    cases hfirst
  rw [hr] at hok
  obtain ⟨hmatched, hcalled, hverified⟩ := of_decide_eq_true hok
  refine ⟨request, first, rfl, rfl, by decide, ?_, ?_, ?_⟩
  · exact ok_of_toOption hmatched
  · exact ok_of_isOk hcalled
  · exact ok_of_isOk hverified

end Release
