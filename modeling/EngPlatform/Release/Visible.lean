import EngPlatform.Release.Desk

/-!
# A visible build is bound

A build is recognised by its substitutions, which `build_request` took from the configuration when
it was submitted and which `_expected_substitutions` takes from the configuration when it is looked
for. So a visible build of the attempt is bound, and no further one is requested, while the planner
image is the same at both times (`visible_bound`); under another image it goes unrecognised, and
its submission is reset as absent (`visible_reset`).
-/

set_option linter.dupNamespace false

namespace Release

open Interleave

/-- The fields that the substitutions of a build are taken from. -/
def attemptFields : List Field :=
  identityFields ++ [Field.bootstrapTicketId, .plannerRetryCount, .plannerRetryPending,
    .plannerContractRetryPending, .plannerContractRetryHash]

/-- The records are of one attempt. -/
def SameAttempt (e e' : Execution) : Prop := ∀ f ∈ attemptFields, e' f = e f

section Requests

variable {cfg : Config} {digest : Digest} {e e' : Execution} {service : Service}
  {request : BuildRequest}

theorem SameAttempt.symm (h : SameAttempt e e') : SameAttempt e' e := fun f hf => (h f hf).symm

theorem SameAttempt.trans {e'' : Execution} (h : SameAttempt e e') (h' : SameAttempt e' e'') :
    SameAttempt e e'' := fun f hf => (h' f hf).trans (h f hf)

theorem SameAttempt.update {cs : List Change} (h : ∀ c ∈ cs, c.1 ∉ attemptFields) :
    SameAttempt e (update cs e) := fun _ hf =>
  update_of_none (lookup_eq_none fun c hc he => h c hc (he ▸ hf))

theorem SameAttempt.substitutions (h : SameAttempt e e') :
    submissionSubstitutions cfg e' = submissionSubstitutions cfg e := by
  unfold submissionSubstitutions expectedSubstitutions expectedSubstitutions.retries
  rw [h .executionId (by decide), h .fingerprint (by decide), h .serviceName (by decide),
    h .repository (by decide), h .headSha (by decide), h .baseSha (by decide),
    h .executorDigest (by decide), h .operation (by decide), h .profileHash (by decide),
    h .plannerHash (by decide), h .plannerRetryCount (by decide),
    h .plannerContractRetryPending (by decide), h .plannerContractRetryHash (by decide)]

theorem SameAttempt.source (h : SameAttempt e e') (b : Build) :
    hasSource cfg e' b = hasSource cfg e b := by
  unfold hasSource
  rw [h .serviceName (by decide), h .headSha (by decide)]

/-- What a requested build takes from the execution and from the configuration. -/
structure RequestedFor (cfg : Config) (e : Execution) (service : Service) (hash : String)
    (request : BuildRequest) : Prop where
  identity : e .serviceName = service.serviceName ∧ e .repository = service.repository ∧
    e .profileHash = service.profile.fingerprint
  repository : request.repository = cfg.repositories service.serviceName ∧
    request.repository ≠ ""
  revision : request.revision = e .headSha
  account : request.serviceAccount = cfg.serviceAccount
  substitutions : request.substitutions = substitutionsOf cfg e service hash
  retry : e .plannerRetryPending = true → e .operation = .mainRelease ∧
    (e .plannerRetryCount = (3 : ℕ) → contractRetryAuthorized cfg e hash = true)

theorem connectedRepository_ok {repository : String}
    (h : connectedRepository cfg service = .ok repository) :
    repository = cfg.repositories service.serviceName ∧ repository ≠ "" := by
  unfold connectedRepository at h
  split_ifs at h with hp
  obtain rfl := Except.ok.inj h
  refine ⟨rfl, fun he => ?_⟩
  rw [he] at hp
  revert hp
  decide

/-- What is the same in the two kinds of requests. -/
theorem RequestedFor.of_request {hash repository : String} {steps : List BuildStep}
    (hid : e .serviceName = service.serviceName ∧ e .repository = service.repository ∧
      e .profileHash = service.profile.fingerprint)
    (hrepo : connectedRepository cfg service = .ok repository)
    (hretry : e .plannerRetryPending = true → e .operation = .mainRelease ∧
      (e .plannerRetryCount = (3 : ℕ) → contractRetryAuthorized cfg e hash = true)) :
    RequestedFor cfg e service hash
      (requestOf cfg e service repository (substitutionsOf cfg e service hash) steps) where
  identity := hid
  repository := connectedRepository_ok hrepo
  revision := rfl
  account := rfl
  substitutions := rfl
  retry := hretry

theorem buildRequest_for (h : buildRequest cfg digest e service = .ok request) :
    ∃ hash, RequestedFor cfg e service hash request := by
  unfold buildRequest at h
  obtain ⟨⟨⟩, -, h⟩ := bind_ok.1 h
  obtain ⟨hash, hhash, h⟩ := bind_ok.1 h
  obtain ⟨executor, -, h⟩ := bind_ok.1 h
  refine ⟨hash, ?_⟩
  by_cases hid : buildIdentity cfg e service executor hash = true
  · rw [if_neg (not_not.2 hid)] at h
    simp only [buildIdentity, decide_eq_true_eq] at hid
    by_cases hpend : e .plannerRetryPending = true
    · simp only [if_pos hpend] at h
      unfold plannerRetryRequest at h
      obtain ⟨hash', hhash', h⟩ := bind_ok.1 h
      obtain rfl : hash' = hash := Except.ok.inj (hhash'.symm.trans hhash)
      split at h
      · cases h
      · next hauth =>
        obtain ⟨executor', -, h⟩ := bind_ok.1 h
        obtain ⟨repository, hrepo, h⟩ := bind_ok.1 h
        cases h
        simp only [not_or, not_and, not_not] at hauth
        exact .of_request ⟨hid.1, hid.2.1, hid.2.2.1⟩ hrepo
          fun _ => ⟨hauth.1, hauth.2.2.2.2.2.2⟩
    · simp only [if_neg hpend] at h
      obtain ⟨repository, hrepo, h⟩ := bind_ok.1 h
      cases h
      exact .of_request ⟨hid.1, hid.2.1, hid.2.2.1⟩ hrepo fun hp => absurd hp hpend
  · rw [if_pos hid] at h
    cases h

section Lookups

variable (cfg : Config) (e : Execution) (service : Service) (hash : String)

theorem lookup_retryAttempt :
    (substitutionsOf cfg e service hash).lookup "_PLANNER_RETRY_ATTEMPT" =
      if e .plannerRetryCount = (0 : ℕ) then none
      else some (toString (e .plannerRetryCount : ℕ)) := by
  unfold substitutionsOf
  by_cases h0 : e .plannerRetryCount = (0 : ℕ)
  · split_ifs <;> simp [List.lookup_cons]
  · split_ifs <;> simp [List.lookup_cons]

theorem lookup_planner :
    (substitutionsOf cfg e service hash).lookup "_PLANNER_SHA256" = some (e .plannerHash) ∧
      (substitutionsOf cfg e service hash).lookup "_PLANNER_DIGEST" =
        some (if e .operation = .mainRelease then cfg.releasePlannerImage else "") := by
  unfold substitutionsOf
  simp [List.lookup_cons]

theorem lookup_plannerImage (h : e .operation = .mainRelease ∧
    contractRetryAuthorized cfg e hash = true) :
    (substitutionsOf cfg e service hash).lookup "_PLANNER_IMAGE_SHA256" =
      some (e .plannerContractRetryHash) := by
  unfold substitutionsOf
  by_cases h0 : e .plannerRetryCount = (0 : ℕ)
  · rw [if_pos h0, if_pos h]
    simp [List.lookup_cons]
  · rw [if_neg h0, if_pos h]
    simp [List.lookup_cons]

/-- What every build is expected to have, whatever its operation and its attempt. -/
theorem lookup_identity (h : e .serviceName = service.serviceName ∧
      e .repository = service.repository ∧ e .profileHash = service.profile.fingerprint) :
    ∀ entry ∈ [("_EXECUTION_ID", e .executionId), ("_REQUEST_FINGERPRINT", e .fingerprint),
      ("_SERVICE_NAME", e .serviceName), ("_REPOSITORY", e .repository), ("_HEAD_SHA", e .headSha),
      ("_BASE_SHA", e .baseSha), ("_EXECUTOR_DIGEST", e .executorDigest),
      ("_OPERATION", (e .operation : Operation).text), ("_PROFILE_SHA256", e .profileHash)],
      (substitutionsOf cfg e service hash).lookup entry.1 = some entry.2 := by
  obtain ⟨hname, hrepo, hprofile⟩ := h
  unfold substitutionsOf
  rw [hname, hrepo, hprofile]
  simp [List.lookup_cons]

end Lookups

/-- The substitutions that are expected of a build are those that it was requested with. -/
theorem substitutionsOf_expected {hash : String} (h : RequestedFor cfg e service hash request)
    (hretry : e .plannerRetryCount ≠ (0 : ℕ) → e .plannerRetryPending = true)
    (hquality : e .operation = .prQuality → e .plannerHash = "") :
    ∀ entry ∈ submissionSubstitutions cfg e,
      (substitutionsOf cfg e service hash).lookup entry.1 = some entry.2 := by
  have hcontract : e .plannerRetryCount = (3 : ℕ) → e .operation = .mainRelease ∧
      contractRetryAuthorized cfg e hash = true := fun h3 =>
    have hp := h.retry (hretry (by rw [h3]; decide))
    ⟨hp.1, hp.2 h3⟩
  obtain ⟨hsha, hdigest⟩ := lookup_planner cfg e service hash
  have hretries : ∀ entry ∈ expectedSubstitutions.retries e,
      (substitutionsOf cfg e service hash).lookup entry.1 = some entry.2 := by
    intro entry hentry
    unfold expectedSubstitutions.retries at hentry
    rcases List.mem_append.1 hentry with hm | hm
    · split_ifs at hm with h0
      · cases hm
      · rw [List.mem_singleton.1 hm, lookup_retryAttempt, if_neg h0]
    · split_ifs at hm with h3
      · rw [List.mem_singleton.1 hm]
        exact lookup_plannerImage cfg e service hash (hcontract h3.1)
      · cases hm
  intro entry hentry
  unfold submissionSubstitutions expectedSubstitutions at hentry
  by_cases hop : e .operation = .mainRelease
  · rw [if_pos hop, if_pos hop] at hentry
    rcases List.mem_append.1 hentry with hm | hm
    · exact lookup_identity cfg e service hash h.identity entry hm
    rcases List.mem_append.1 hm with hm | hm
    · simp only [List.mem_cons, List.not_mem_nil, or_false] at hm
      rcases hm with rfl | rfl
      · exact hsha
      · rw [hdigest, if_pos hop]
    · exact hretries entry hm
  · rw [if_neg hop, if_neg hop, List.append_nil] at hentry
    rcases List.mem_append.1 hentry with hm | hm
    · rcases List.mem_append.1 hm with hm | hm
      · exact lookup_identity cfg e service hash h.identity entry hm
      · have hpr : e .operation = .prQuality := by
          rcases ho : e .operation with _ | _
          · rfl
          · exact absurd ho hop
        simp only [List.mem_cons, List.not_mem_nil, or_false] at hm
        rcases hm with rfl | rfl
        · rw [hsha, hquality hpr]
        · rw [hdigest, if_neg hop]
    · exact hretries entry hm

/-- The build is the one that `_matching_build` looks for. -/
def Recognised (cfg : Config) (e : Execution) (b : Build) : Prop :=
  hasSource cfg e b = true ∧ b.serviceAccount = cfg.serviceAccount ∧
    hasSubstitutions b (submissionSubstitutions cfg e) = true

/-- A build is recognised under the configuration that it was requested with. -/
theorem Created.recognised {b : Build} (hb : Created request b)
    (h : buildRequest cfg digest e service = .ok request)
    (hretry : e .plannerRetryCount ≠ (0 : ℕ) → e .plannerRetryPending = true)
    (hquality : e .operation = .prQuality → e .plannerHash = "") : Recognised cfg e b := by
  obtain ⟨-, hrepo, hrev, hacc, hsub⟩ := hb
  obtain ⟨hash, hfor⟩ := buildRequest_for h
  refine ⟨?_, by rw [hacc, hfor.account], ?_⟩
  · have hne := hfor.repository.2
    rw [hfor.repository.1] at hne
    rw [hasSource, hrepo, hrev, hfor.repository.1, hfor.revision, hfor.identity.1]
    simp [hne]
  · refine List.all_eq_true.2 fun entry hentry => decide_eq_true ?_
    rw [hsub, hfor.substitutions]
    exact substitutionsOf_expected hfor hretry hquality entry hentry

/-- The attempt that a created build says it is of. -/
theorem Created.attempt {b : Build} (hb : Created request b)
    (h : buildRequest cfg digest e service = .ok request) :
    b.substitutions.lookup "_PLANNER_RETRY_ATTEMPT" =
      if e .plannerRetryCount = (0 : ℕ) then none
      else some (toString (e .plannerRetryCount : ℕ)) := by
  obtain ⟨-, -, -, -, hsub⟩ := hb
  obtain ⟨hash, hfor⟩ := buildRequest_for h
  rw [hsub, hfor.substitutions]
  exact lookup_retryAttempt cfg e service hash

end Requests

section Contract

variable {ι : Type}

/-- What a call may do that started while a build of the attempt was visible: it binds such a
build, or writes nothing, and requests none. -/
def BindsVisible (d : Desk ι) : Call → Prop
  | .tx t => ∃ p ∈ d.posted, d.shows p = true ∧
    ∃ metadata now, t = .bindBuild p.build.id metadata now
  | .postBuild _ => False
  | _ => True

/-- Builds are looked for under the planner image that the visible ones were submitted under. -/
def SameImage (image : ι → String) (i : ι) (d : Desk ι) : Call → Prop
  | .listBuilds _ => d.warned i = some true → ∀ p ∈ d.posted, d.shows p = true →
    p.image = image i ∨ d.record .operation = .prQuality
  | _ => True

instance (image : ι → String) (i : ι) (d : Desk ι) : DecidablePred (SameImage image i d)
  | .listBuilds _ => inferInstanceAs (Decidable (d.warned i = some true →
      ∀ p ∈ d.posted, d.shows p = true → p.image = image i ∨ d.record .operation = .prQuality))
  | .get | .tx _ | .now | .managed _ | .catalog _ | .getBuild _ | .postBuild _ | .pendingReport _ | .stageReport _ _
  | .saveReport _ _ | .check _ _ _ | .publishing _ | .defaultSha | .getRef _ | .gitTag _ | .createRef _ _ | .getRelease _
  | .createRelease _ _ _ | .external _ => .isTrue trivial

/-- What holds of the record and of the builds that were created. -/
structure VisibleInv (cfg : Config) (dates : Dates) (d : Desk ι) : Prop where
  ordinary : d.record .bootstrapTicketId = ""
  retry : d.record .plannerRetryCount ≠ (0 : ℕ) → d.record .plannerRetryPending = true
  quality : d.record .operation = .prQuality → d.record .plannerHash = ""
  attempt : ∀ p ∈ d.posted, p.attempt ≤ (d.record .plannerRetryCount : ℕ) ∧
    p.build.substitutions.lookup "_PLANNER_RETRY_ATTEMPT" =
      if p.attempt = 0 then none else some (toString p.attempt)
  current : ∀ p ∈ d.posted, p.attempt = (d.record .plannerRetryCount : ℕ) →
    Recognised (cfg.at dates p.image) d.record p.build

/-- What a program can count on: the attempt, its own warning, and the visible builds. -/
structure VisibleRely (i : ι) (d d' : Desk ι) : Prop where
  attempt : SameAttempt d.record d'.record
  warned : d'.warned i = d.warned i
  visible : ∀ p ∈ d.posted, p.visible = true → p ∈ d'.posted

/-- A build is requested for the record's attempt, under the caller's configuration. -/
def ForAttempt (cfg : Config) (digest : Digest) (d : Desk ι) (request : BuildRequest) : Prop :=
  ∃ e service, SameAttempt d.record e ∧ buildRequest cfg digest e service = .ok request

def VisibleAllowed (cfg : Config) (dates : Dates) (digest : Digest) (image : ι → String) (i : ι)
    (d : Desk ι) (c : Call) : Prop :=
  (d.warned i = some true → BindsVisible d c) ∧
  match c with
  | .tx t => ∀ cs flag, t.run (cfg.at dates (image i)) d.record = .ok (cs, flag) →
    ∀ c ∈ cs, c.1 ∉ attemptFields
  | .postBuild request => ForAttempt (cfg.at dates (image i)) digest d request
  | .get | .now | .listBuilds _ | .external _ => True
  | _ => False

end Contract

section Steps

variable {ι : Type} {cfg : Config} {dates : Dates} {digest : Digest} {image : ι → String} {i : ι}
  {d d' : Desk ι}

theorem Recognised.same {e e' : Execution} {b : Build} (hs : SameAttempt e e')
    (h : Recognised cfg e b) : Recognised cfg e' b := by
  refine ⟨?_, h.2.1, ?_⟩
  · rw [hs.source]
    exact h.1
  · rw [hs.substitutions]
    exact h.2.2

/-- The invariant depends on the attempt and on the builds. -/
theorem VisibleInv.same (hI : VisibleInv cfg dates d) (hs : SameAttempt d.record d'.record)
    (hp : ∀ p' ∈ d'.posted, ∃ p ∈ d.posted, p.attempt = p'.attempt ∧ p.build = p'.build ∧
      p.image = p'.image) : VisibleInv cfg dates d' where
  ordinary := by
    rw [hs .bootstrapTicketId (by decide)]
    exact hI.ordinary
  retry := by
    rw [hs .plannerRetryCount (by decide), hs .plannerRetryPending (by decide)]
    exact hI.retry
  quality := by
    rw [hs .operation (by decide), hs .plannerHash (by decide)]
    exact hI.quality
  attempt := fun p' hp' => by
    obtain ⟨p, hm, ha, hb, -⟩ := hp p' hp'
    rw [hs .plannerRetryCount (by decide), ← ha, ← hb]
    exact hI.attempt p hm
  current := fun p' hp' => by
    obtain ⟨p, hm, ha, hb, himg⟩ := hp p' hp'
    rw [hs .plannerRetryCount (by decide), ← ha, ← hb, ← himg]
    exact fun hcur => (hI.current p hm hcur).same hs

theorem VisibleRely.refl (i : ι) (d : Desk ι) : VisibleRely i d d :=
  ⟨fun _ _ => rfl, rfl, fun _ hp _ => hp⟩

theorem VisibleRely.trans {d'' : Desk ι} (h : VisibleRely i d d') (h' : VisibleRely i d' d'') :
    VisibleRely i d d'' where
  attempt := h.attempt.trans h'.attempt
  warned := h'.warned.trans h.warned
  visible := fun p hp hv => h'.visible p (h.visible p hp hv) hv

/-- A request that leaves the builds, and at most warns its own caller. -/
theorem VisibleInv.write (hI : VisibleInv cfg dates d) (hs : SameAttempt d.record d'.record)
    (hp : d'.posted = d.posted) (hw : ∀ j, i ≠ j → d'.warned j = d.warned j) :
    VisibleInv cfg dates d' ∧ ∀ j, i ≠ j → VisibleRely j d d' := by
  refine ⟨hI.same hs fun p hm => ?_, fun j hj => ⟨hs, hw j hj, fun p hm _ => ?_⟩⟩
  · rw [hp] at hm
    exact ⟨p, hm, rfl, rfl, rfl⟩
  · rw [hp]
    exact hm

/-- A build that is created for the attempt is recognised. -/
theorem VisibleInv.post [DecidableEq ι] {request : BuildRequest} {created : Option Build}
    (hI : VisibleInv cfg dates d) (hf : ForAttempt (cfg.at dates (image i)) digest d request)
    (hc : ∀ b ∈ created, Created request b) :
    VisibleInv cfg dates (d.post i (image i) created) ∧
      ∀ j, VisibleRely j d (d.post i (image i) created) := by
  rcases created with _ | b
  · exact ⟨hI.same (fun _ _ => rfl) fun p hp => ⟨p, hp, rfl, rfl, rfl⟩,
      fun j => ⟨fun _ _ => rfl, rfl, fun p hp _ => hp⟩⟩
  obtain ⟨e, service, hs, hreq⟩ := hf
  have hb := hc b rfl
  have hrec := hb.recognised hreq
    (by
      rw [hs .plannerRetryCount (by decide), hs .plannerRetryPending (by decide)]
      exact hI.retry)
    (by
      rw [hs .operation (by decide), hs .plannerHash (by decide)]
      exact hI.quality)
  have hatt := hb.attempt hreq
  rw [hs .plannerRetryCount (by decide)] at hatt
  refine ⟨?_, fun j => ⟨fun _ _ => rfl, rfl, fun p hp _ => List.mem_cons_of_mem _ hp⟩⟩
  refine
    { ordinary := hI.ordinary
      retry := hI.retry
      quality := hI.quality
      attempt := fun p hp => ?_
      current := fun p hp => ?_ }
  · rcases List.mem_cons.1 hp with rfl | hp
    · exact ⟨Nat.le_refl _, hatt⟩
    · exact hI.attempt p hp
  · rcases List.mem_cons.1 hp with rfl | hp
    · exact fun _ => hrec.same hs.symm
    · exact hI.current p hp

end Steps

section Discipline

variable {ι : Type} [DecidableEq ι] {cfg : Config} {dates : Dates} {digest : Digest}
  {image : ι → String} {i : ι} {d d' : Desk ι}

theorem visible_sem {c : Call} {r : c.Ans} (hI : VisibleInv cfg dates d)
    (ha : VisibleAllowed cfg dates digest image i d c)
    (hs : Desk.sem cfg dates image i d c d' r) :
    VisibleInv cfg dates d' ∧ ∀ j, i ≠ j → VisibleRely j d d' := by
  cases c with
  | get =>
    obtain ⟨rfl, -⟩ := hs
    exact hI.write (fun _ _ => rfl) rfl fun j hj => Function.update_of_ne (Ne.symm hj) _ _
  | now =>
    obtain ⟨rfl, -⟩ := hs
    exact ⟨hI, fun j _ => .refl j _⟩
  | listBuilds =>
    obtain ⟨rfl, -⟩ := hs
    exact ⟨hI, fun j _ => .refl j _⟩
  | external =>
    obtain ⟨w, hw, rfl⟩ := hs
    obtain rfl : w = d.world := hw
    exact ⟨hI, fun j _ => .refl j _⟩
  | postBuild request =>
    obtain ⟨created, hc, rfl, -⟩ := hs
    obtain ⟨hI', hR⟩ := hI.post ha.2 hc
    exact ⟨hI', fun j _ => hR j⟩
  | tx t =>
    have hsame : ∀ cs flag (w : World ι), t.run (cfg.at dates (image i)) d.record = .ok (cs, flag) →
        w.record = update cs d.record → SameAttempt d.record w.record := fun cs flag w hrun hw => by
      rw [hw]
      exact .update (ha.2 cs flag hrun)
    cases Desk.wrote hs with
    | nothing hd =>
      subst hd
      exact ⟨hI, fun j _ => .refl j _⟩
    | stored cs flag hrun w hw hd =>
      subst hd
      exact hI.write (hsame cs flag w hrun hw.1) rfl fun j _ => rfl
    | granted now ht cs hrun w hw hd =>
      subst hd
      exact hI.write (hsame cs true w hrun hw.1) rfl fun j _ => rfl
  | _ => exact ha.2.elim

omit [DecidableEq ι] in
theorem visible_moves (hI : VisibleInv cfg dates d) (h : d.moves d') :
    VisibleInv cfg dates d' ∧ ∀ j, VisibleRely j d d' := by
  rcases h with ⟨t, rfl⟩ | ⟨q, rfl⟩
  · exact ⟨hI.same (fun _ _ => rfl) fun p hp => ⟨p, hp, rfl, rfl, rfl⟩,
      fun j => ⟨fun _ _ => rfl, rfl, fun p hp _ => hp⟩⟩
  · refine ⟨hI.same (fun _ _ => rfl) fun p' hp' => ?_, fun j => ⟨fun _ _ => rfl, rfl,
      fun p hp hv => List.mem_map.2 ⟨p, hp, ?_⟩⟩⟩
    · obtain ⟨p, hp, rfl⟩ := List.mem_map.1 hp'
      exact ⟨p, hp, rfl, rfl, rfl⟩
    · rcases p with ⟨b, img, n, v⟩
      obtain rfl : v = true := hv
      rfl

variable (cfg dates digest image)

/-- The contract of the calls, where builds are looked for under the image of the visible ones. -/
def visibleDiscipline : Discipline ι (Desk ι) Call.Ans where
  toSystem := (Desk.system cfg dates image).restrict (SameImage image)
  Inv := VisibleInv cfg dates
  Allowed := VisibleAllowed cfg dates digest image
  Rely := VisibleRely
  rely_refl := VisibleRely.refl
  rely_trans := fun _ _ _ _ => VisibleRely.trans
  inv_sem := fun _ _ _ _ _ hI ha hs => (visible_sem hI ha hs.2).1
  rely_sem := fun _ j _ _ _ _ hj hI ha hs => (visible_sem hI ha hs.2).2 j hj
  inv_env := fun _ _ hI h => (visible_moves hI h).1
  rely_env := fun j _ _ hI h => (visible_moves hI h).2 j

end Discipline

section Programs

variable {ι : Type} [DecidableEq ι] {cfg : Config} {dates : Dates} {digest : Digest}
  {image : ι → String} {i : ι} {d : Desk ι} {K : Desk ι → Prop}

/-- The call started; if it was warned, a build of the attempt is visible. -/
def Warned (i : ι) (d : Desk ι) : Prop :=
  ∃ b, d.warned i = some b ∧ (b = true → ∃ p ∈ d.posted, d.shows p = true)

/-- The call may bind the build. -/
def Bindable (i : ι) (b : Build) (d : Desk ι) : Prop :=
  d.warned i = some false ∨ ∃ p ∈ d.posted, d.shows p = true ∧ p.build = b

omit [DecidableEq ι] in
theorem VisibleRely.shows {d' : Desk ι} (h : VisibleRely i d d') {p : Posted} (hp : p ∈ d.posted)
    (hs : d.shows p = true) : p ∈ d'.posted ∧ d'.shows p = true := by
  unfold Desk.shows at hs ⊢
  rw [h.attempt .plannerRetryCount (by decide)]
  simp only [Bool.and_eq_true] at hs
  exact ⟨h.visible p hp hs.1, by simpa using hs⟩

theorem warned_stable : (visibleDiscipline cfg dates digest image).Stable i (Warned i) := by
  rintro d d' hr ⟨b, hb, hp⟩
  refine ⟨b, hr.warned.trans hb, fun ht => ?_⟩
  obtain ⟨p, hm, hs⟩ := hp ht
  exact ⟨p, hr.shows hm hs⟩

theorem bindable_stable (b : Build) :
    (visibleDiscipline cfg dates digest image).Stable i (Bindable i b) := by
  rintro d d' hr (hf | ⟨p, hm, hs, rfl⟩)
  · exact .inl (hr.warned.trans hf)
  · exact .inr ⟨p, (hr.shows hm hs).1, (hr.shows hm hs).2, rfl⟩

theorem unwarned_stable :
    (visibleDiscipline cfg dates digest image).Stable i (fun d => d.warned i = some false) :=
  fun _ _ hr h => hr.warned.trans h

/-- The record is of the attempt of `e`. -/
theorem attempt_stable (e : Execution) :
    (visibleDiscipline cfg dates digest image).Stable i (fun d => SameAttempt d.record e) :=
  fun _ _ hr h => hr.attempt.symm.trans h

/-- The requests that leave the record and the warnings. -/
def Call.isLook : Call → Bool
  | .now | .listBuilds _ | .external _ => true
  | _ => false

theorem look_sem {d' : Desk ι} {c : Call} {r : c.Ans} (hc : c.isLook = true)
    (hs : Desk.sem cfg dates image i d c d' r) : d' = d := by
  cases c with
  | now => exact hs.1
  | listBuilds => exact hs.1
  | external =>
    obtain ⟨w, hw, rfl⟩ := hs
    obtain rfl : w = d.world := hw
    rfl
  | _ => cases hc

theorem look_yields {c : Call} (hc : c.isLook = true)
    (hK : (visibleDiscipline cfg dates digest image).Stable i K) (h : K d) :
    (visibleDiscipline cfg dates digest image).Yields i (perform c) (fun v d' => K d' ∧
      SameImage image i d' c ∧ Desk.sem cfg dates image i d' c d' (.ok v)) d := by
  refine perform_yields fun d₁ hr hI => ⟨?_, fun d₂ v hs hI₂ => ?_⟩
  · cases c <;> first | exact ⟨fun _ => trivial, trivial⟩ | cases hc
  · obtain rfl := look_sem hc hs.2
    exact ⟨hK _ _ hr h, hs.1, hs.2⟩

/-- A call reads the record first: from then on it is warned or not. -/
theorem visible_get (x : Err) (h : d.warned i = none ∨ d.warned i = some false) :
    (visibleDiscipline cfg dates digest image).Yields i (getOrRaise x) (fun e d' =>
      Warned i d' ∧ SameAttempt d'.record e ∧
        (d.warned i = some false → d'.warned i = some false) ∧ VisibleInv cfg dates d') d := by
  refine Discipline.Yields.bind (P := fun v d' => Warned i d' ∧
    (d.warned i = some false → d'.warned i = some false) ∧ VisibleInv cfg dates d' ∧
    v = some d'.record) (perform_yields fun d₁ hr hI =>
      ⟨⟨fun _ => trivial, trivial⟩, fun d₂ v hs hI₂ => ?_⟩) fun v d' hv => ?_
  · obtain ⟨-, rfl, hv⟩ := hs
    refine ⟨⟨_, Function.update_self .., fun ht => ?_⟩, fun hf => ?_, hI₂, ?_⟩
    · rcases h with h | h
      · rw [hr.warned, h, Option.getD_none] at ht
        obtain ⟨p, hp, hs⟩ := List.any_eq_true.1 ht
        exact ⟨p, hp, hs⟩
      · rw [hr.warned, h] at ht
        cases ht
    · simp only [Function.update_self]
      rw [hr.warned, hf, Option.getD_some]
    · rcases hv with hv | ⟨x, hx⟩
      · exact Except.ok.inj hv
      · cases hx
  · obtain ⟨hw, hf, hI, rfl⟩ := hv
    exact .pure ⟨hw, fun _ _ => rfl, hf, hI⟩

theorem executionId_expected (cfg : Config) (e : Execution) :
    ("_EXECUTION_ID", e .executionId) ∈ submissionSubstitutions cfg e := by
  unfold submissionSubstitutions expectedSubstitutions
  split_ifs <;> simp

theorem retryAttempt_expected (cfg : Config) (e : Execution)
    (h : e .plannerRetryCount ≠ (0 : ℕ)) :
    ("_PLANNER_RETRY_ATTEMPT", toString (e .plannerRetryCount : ℕ)) ∈
      submissionSubstitutions cfg e := by
  unfold submissionSubstitutions expectedSubstitutions expectedSubstitutions.retries
  split_ifs <;> simp

omit [DecidableEq ι] in
/-- What is listed of the execution is visible. -/
theorem visible_of_listed {builds : List Build} {b : Build} (hl : d.Lists builds)
    (hb : b ∈ builds)
    (hid : b.substitutions.lookup "_EXECUTION_ID" = some (d.record .executionId)) :
    ∃ p ∈ d.posted, p.visible = true ∧ p.build = b := by
  obtain ⟨p, hp, rfl⟩ := List.mem_map.1 ((hl.2 b hb).resolve_right fun hne => hne hid)
  exact ⟨p, (List.mem_filter.1 hp).1, (List.mem_filter.1 hp).2, rfl⟩

omit [DecidableEq ι] in
/-- A build that was found under the image of the visible ones is a visible one of the attempt. -/
theorem found_visible {e : Execution} {builds : List Build} (hI : VisibleInv cfg dates d)
    (hw : Warned i d) (hs : SameAttempt d.record e) (hl : d.Lists builds)
    (hC : SameImage image i d (.listBuilds (e .executionId))) :
    d.warned i = some false ∨ ∃ p ∈ d.posted, d.shows p = true ∧
      some p.build = builds.find? fun b => hasSource (cfg.at dates (image i)) e b ∧
        b.serviceAccount = (cfg.at dates (image i)).serviceAccount ∧
        hasSubstitutions b (submissionSubstitutions (cfg.at dates (image i)) e) := by
  obtain ⟨b, hb, hp⟩ := hw
  rcases b with _ | _
  · exact .inl hb
  obtain ⟨p, hm, hsh⟩ := hp rfl
  have hvis : p.visible = true ∧ p.attempt = (d.record .plannerRetryCount : ℕ) := by
    simpa [Desk.shows] using hsh
  have hrec : Recognised (cfg.at dates (image i)) e p.build := by
    have hcur := (hI.current p hm hvis.2).same hs
    rcases hC hb p hm hsh with himg | hop
    · rwa [himg] at hcur
    · have hop' : e .operation = .prQuality := (hs .operation (by decide)).trans hop
      refine ⟨hcur.1, hcur.2.1, ?_⟩
      have hsub := hcur.2.2
      unfold submissionSubstitutions at hsub ⊢
      rwa [if_neg (by rw [hop']; decide)] at hsub ⊢
  have hmem : p.build ∈ builds :=
    hl.1 (List.mem_map.2 ⟨p, List.mem_filter.2 ⟨hm, hvis.1⟩, rfl⟩)
  refine .inr ?_
  rcases hf : builds.find? (fun b => hasSource (cfg.at dates (image i)) e b ∧
      b.serviceAccount = (cfg.at dates (image i)).serviceAccount ∧
      hasSubstitutions b (submissionSubstitutions (cfg.at dates (image i)) e)) with _ | found
  · have hnone := List.find?_eq_none.1 hf p.build hmem
    exact absurd (decide_eq_true ⟨hrec.1, hrec.2.1, hrec.2.2⟩) hnone
  have hfound := List.find?_some hf
  simp only [decide_eq_true_eq] at hfound
  have hsubs : ∀ entry ∈ submissionSubstitutions (cfg.at dates (image i)) e,
      found.substitutions.lookup entry.1 = some entry.2 := fun entry he =>
    of_decide_eq_true (List.all_eq_true.1 hfound.2.2 entry he)
  obtain ⟨q, hq, hqv, rfl⟩ := visible_of_listed hl (List.mem_of_find?_eq_some hf) (by
    rw [hsubs _ (executionId_expected _ e), hs .executionId (by decide)])
  have hatt := hI.attempt q hq
  refine ⟨q, hq, ?_, rfl⟩
  unfold Desk.shows
  rw [hqv, Bool.true_and]
  refine decide_eq_true ?_
  by_cases h0 : d.record .plannerRetryCount = (0 : ℕ)
  · have hle := hatt.1
    rw [h0] at hle ⊢
    exact Nat.le_zero.1 hle
  · have hcount : e .plannerRetryCount = d.record .plannerRetryCount :=
      hs .plannerRetryCount (by decide)
    have hlook := hsubs _ (retryAttempt_expected (cfg.at dates (image i)) e
      (by rwa [hcount]))
    rw [hatt.2, hcount] at hlook
    split_ifs at hlook
    have hparse := congrArg (fun s : String => Nat.ofDigitChars 10 s.toList 0)
      (Option.some.inj hlook)
    simpa using hparse

theorem visible_matching {e : Execution} (hw : Warned i d) (hs : SameAttempt d.record e) :
    (visibleDiscipline cfg dates digest image).Yields i (matchingBuild (cfg.at dates (image i)) e)
      (fun recovered d' => SameAttempt d'.record e ∧ (d'.warned i = some false ∨
        ∃ p ∈ d'.posted, d'.shows p = true ∧ some p.build = recovered)) d := by
  refine .ite (fun _ => .raise _) fun _ => Discipline.Yields.bind (P := fun builds d' =>
    SameAttempt d'.record e ∧ (d'.warned i = some false ∨ ∃ p ∈ d'.posted, d'.shows p = true ∧
      some p.build = builds.find? fun b => hasSource (cfg.at dates (image i)) e b ∧
        b.serviceAccount = (cfg.at dates (image i)).serviceAccount ∧
        hasSubstitutions b (submissionSubstitutions (cfg.at dates (image i)) e)))
    (perform_yields fun d₁ hr hI => ⟨⟨fun _ => trivial, trivial⟩, fun d₂ v hs₂ _ => ?_⟩)
    fun builds d' h => .pure h
  obtain ⟨hC, rfl, hv⟩ := hs₂
  have hs₁ : SameAttempt d₂.record e := attempt_stable e _ _ hr hs
  refine ⟨hs₁, ?_⟩
  rcases hv with ⟨builds, hl, hv⟩ | ⟨x, hx⟩
  · obtain rfl := Except.ok.inj hv
    have hstable : (visibleDiscipline cfg dates digest image).Stable i (Warned i) := warned_stable
    exact found_visible hI (hstable _ _ hr hw) hs₁ hl hC
  · cases hx

theorem visible_bind (b : Build) (h : Bindable i b d) :
    (visibleDiscipline cfg dates digest image).Yields i (bind b) (fun _ _ => True) d := by
  have hK : (visibleDiscipline cfg dates digest image).Stable i (Bindable i b) := bindable_stable b
  refine .ite (fun _ => .raise _) fun _ => (look_yields (c := .now) rfl hK h).bind
    fun reconciled d₁ h₁ => (look_yields (c := .now) rfl hK h₁.1).bind fun now d₂ h₂ =>
    Discipline.Yields.bind (P := fun _ _ => True) (perform_yields fun d₃ hr hI =>
      ⟨⟨fun hw => ?_, ?_⟩, fun _ _ _ _ => trivial⟩) fun _ _ _ => .pure trivial
  · rcases hK _ _ hr h₂.1 with hf | ⟨p, hm, hs, rfl⟩
    · rw [hf] at hw
      cases hw
    · exact ⟨p, hm, hs, _, _, rfl⟩
  · intro cs flag hrun
    rcases run_cases hrun with ⟨rfl, -⟩ | ⟨rfl, -, -⟩
    · simp
    · simp [Tx.changes, bindMetadata, attemptFields, identityFields]

/-- A write of a call that was not warned. -/
theorem visible_tx {t : Tx} (h : d.warned i = some false)
    (hw : ∀ e, ∀ c ∈ t.changes e, c.1 ∉ attemptFields) :
    (visibleDiscipline cfg dates digest image).Yields i (perform (.tx t))
      (fun _ d' => d'.warned i = some false ∧ SameAttempt d.record d'.record) d := by
  have hkeep : ∀ {e : Execution} {cs : List Change} {flag : Bool},
      t.run (cfg.at dates (image i)) e = .ok (cs, flag) → ∀ c ∈ cs, c.1 ∉ attemptFields := by
    intro e cs flag hrun
    rcases run_cases hrun with ⟨rfl, -⟩ | ⟨rfl, -, -⟩
    · simp
    · exact hw e
  refine perform_yields fun d₁ hr hI => ⟨⟨fun ht => ?_, fun cs flag hrun => hkeep hrun⟩,
    fun d₂ v hs _ => ?_⟩
  · rw [hr.warned, h] at ht
    cases ht
  have hw₁ : d₁.warned i = some false := hr.warned.trans h
  have hsame : ∀ {cs : List Change} {flag : Bool} {w : World ι},
      t.run (cfg.at dates (image i)) d₁.record = .ok (cs, flag) →
      w.record = update cs d₁.record → SameAttempt d.record w.record := by
    intro cs flag w hrun hw
    rw [hw]
    exact hr.attempt.trans (.update (hkeep hrun))
  cases Desk.wrote hs.2 with
  | nothing hd =>
    subst hd
    exact ⟨hw₁, hr.attempt⟩
  | stored cs flag hrun w hw hd =>
    subst hd
    exact ⟨hw₁, hsame hrun hw.1⟩
  | granted now ht cs hrun w hw hd =>
    subst hd
    exact ⟨hw₁, hsame hrun hw.1⟩

theorem visible_save {changes : List Change} (h : d.warned i = some false)
    (hw : ∀ c ∈ changes, c.1 ∉ attemptFields) :
    (visibleDiscipline cfg dates digest image).Yields i (save changes)
      (fun _ d' => d'.warned i = some false) d := by
  refine (look_yields (c := .now) rfl unwarned_stable h).bind fun now d₁ h₁ =>
    (visible_tx h₁.1 fun e c hc => ?_).bind fun r d₂ h₂ => .pure h₂.1
  rcases List.mem_append.1 hc with hc | hc
  · exact hw c hc
  · rw [List.mem_singleton.1 hc]
    simp [attemptFields, identityFields]

theorem visible_absent (h : d.warned i = some false) :
    (visibleDiscipline cfg dates digest image).Yields i reconcileSubmissionAbsent
      (fun _ d' => d'.warned i = some false) d := by
  refine (visible_get _ (.inr h)).bind fun e d₁ h₁ => .ite (fun _ => .raise _) fun _ =>
    .ite (fun _ => .raise _) fun _ => visible_save (h₁.2.2.1 h) ?_
  simp [attemptFields, identityFields]

theorem visible_uncertain (x : Err) (h : d.warned i = some false) :
    (visibleDiscipline cfg dates digest image).Yields i (do
      let since ← perform .now
      let _ ← save [⟨.status, .unknown⟩, ⟨.uncertainSince, since⟩]
      .raise x : Program Execution) (fun _ _ => True) d :=
  (look_yields (c := .now) rfl unwarned_stable h).bind fun since d₁ h₁ =>
    (visible_save h₁.1 (by simp [attemptFields, identityFields])).bind fun _ _ _ => .raise x

theorem visible_submitted (e : Execution) (a : Submitted) (h : d.warned i = some false) :
    (visibleDiscipline cfg dates digest image).Yields i (submitted e a) (fun _ _ => True) d := by
  refine .ite (fun _ => (visible_save h ?_).bind fun _ _ _ => .raise _) fun _ =>
    .lift_bind fun b _ => .ite (fun _ => visible_uncertain _ h) fun _ => visible_bind b (.inl h)
  split_ifs <;> simp [attemptFields, identityFields]

theorem visible_post {e : Execution} {request : BuildRequest} {service : Service}
    (h : d.warned i = some false) (hs : SameAttempt d.record e)
    (hreq : buildRequest (cfg.at dates (image i)) digest e service = .ok request) :
    (visibleDiscipline cfg dates digest image).Yields i
      (postSubmission (cfg.at dates (image i)) e request) (fun _ _ => True) d := by
  refine .lift_bind fun _ _ => ?_
  intro d₁ hr hI
  have hw₁ : d₁.warned i = some false := hr.warned.trans h
  have hstable : (visibleDiscipline cfg dates digest image).Stable i
      (fun d => SameAttempt d.record e) := attempt_stable e
  refine ⟨⟨fun ht => ?_, e, service, hstable _ _ hr hs, hreq⟩, fun d₂ r hs₂ hI₂ => ?_⟩
  · rw [hw₁] at ht
    cases ht
  have hw₂ : d₂.warned i = some false := by
    obtain ⟨-, created, -, rfl, -⟩ := hs₂
    exact hw₁
  rcases r with x | a
  · exact visible_uncertain _ hw₂
  · exact visible_submitted e a hw₂

theorem visible_submit (service : Service) (h : d.warned i = none ∨ d.warned i = some false) :
    (visibleDiscipline cfg dates digest image).Yields i
      (submit (cfg.at dates (image i)) digest service) (fun _ _ => True) d := by
  refine .lift_bind fun _ _ => (visible_get _ h).bind fun e d₁ h₁ => .ite (fun _ => .raise _)
    fun _ => .ite (fun _ => .raise _) fun _ => .ite (fun _ => .pure trivial) fun _ =>
    (visible_matching h₁.1 h₁.2.1).bind fun recovered d₂ h₂ => ?_
  rcases recovered with _ | b
  · have hw₂ : d₂.warned i = some false := by
      rcases h₂.2 with hf | ⟨p, -, -, hp⟩
      · exact hf
      · cases hp
    refine .lift_bind fun _ _ => .lift_bind fun request hreq => (look_yields (c := .external _) rfl
      (unwarned_stable.and (attempt_stable e)) ⟨hw₂, h₂.1⟩).bind fun _ d₃ h₃ => (look_yields
      (c := .now) rfl (unwarned_stable.and (attempt_stable e)) h₃.1).bind fun now d₄ h₄ => ?_
    refine (visible_tx h₄.1.1 fun e c hc => ?_).bind fun r d₅ h₅ => .ite (fun _ => .raise _)
      fun _ => visible_post h₅.1 (h₅.2.symm.trans h₄.1.2) hreq
    simp only [Tx.changes, List.mem_cons, List.not_mem_nil, or_false] at hc
    rcases hc with rfl | rfl <;> simp [attemptFields, identityFields]
  · refine visible_bind b ?_
    rcases h₂.2 with hf | ⟨p, hm, hs, hp⟩
    · exact .inl hf
    · exact .inr ⟨p, hm, hs, Option.some.inj hp⟩


theorem visible_reconcile (service : Service) (h : d.warned i = none) :
    (visibleDiscipline cfg dates digest image).Yields i
      (reconcileUncertainSubmission (cfg.at dates (image i)) digest service)
      (fun _ _ => True) d := by
  refine .lift_bind fun _ _ => (visible_get _ (.inl h)).bind fun e d₁ h₁ => ?_
  obtain ⟨hw, hs, -, hI⟩ := h₁
  have hboot : e .bootstrapTicketId = "" :=
    (hs .bootstrapTicketId (by decide)).trans hI.ordinary
  refine .ite (fun hb => absurd hboot hb) fun _ => .ite (fun _ => .pure trivial) fun _ =>
    (visible_matching hw hs).bind fun recovered d₂ h₂ => ?_
  rcases recovered with _ | b
  · have hw₂ : d₂.warned i = some false := by
      rcases h₂.2 with hf | ⟨p, -, -, hp⟩
      · exact hf
      · cases hp
    exact (look_yields (c := .now) rfl unwarned_stable hw₂).bind fun now d₃ h₃ =>
      .ite (fun _ => .pure trivial) fun _ => (visible_absent h₃.1).bind fun _ d₄ h₄ =>
      visible_submit service (.inr h₄)
  · refine visible_bind b ?_
    rcases h₂.2 with hf | ⟨p, hm, hs, hp⟩
    · exact .inl hf
    · exact .inr ⟨p, hm, hs, Option.some.inj hp⟩

theorem visible_program (s : Submitter) (h : d.warned i = none) :
    (visibleDiscipline cfg dates digest image).Yields i
      (s.program (cfg.at dates (image i)) digest) (fun _ _ => True) d := by
  cases s with
  | submit service => exact visible_submit service (.inl h)
  | reconcile service => exact visible_reconcile service h

end Programs

section Runs

variable {ι : Type} [DecidableEq ι] {cfg : Config} {dates : Dates} {digest : Digest}
  {image : ι → String} {d : Desk ι}

/-- An attempt begins, beside the builds that were requested for the attempts before. -/
structure Begins (d : Desk ι) : Prop where
  begun : Begun d.record
  earlier : ∀ p ∈ d.posted, p.attempt < (d.record .plannerRetryCount : ℕ) ∧
    ∃ cfg digest e service request, e .plannerRetryCount = p.attempt ∧
      buildRequest cfg digest e service = .ok request ∧ Created request p.build
  unwarned : ∀ i, d.warned i = none

omit [DecidableEq ι] in
theorem Begins.inv (h : Begins d) : VisibleInv cfg dates d where
  ordinary := h.begun.ordinary
  retry := h.begun.retry
  quality := h.begun.quality
  attempt := fun p hp => by
    obtain ⟨hlt, cfg, digest, e, service, request, hcount, hreq, hb⟩ := h.earlier p hp
    refine ⟨Nat.le_of_lt hlt, ?_⟩
    have hatt := hb.attempt hreq
    rwa [hcount] at hatt
  current := fun p hp hcur => absurd hcur (Nat.ne_of_lt (h.earlier p hp).1)

/-- In every run of any calls in an attempt, each looking for builds under the planner image that
the visible ones were submitted under: a call that started while a build of the attempt was
visible requests none, and writes nothing but the binding of a visible one. -/
theorem visible_bound (h : Begins d) (callers : ι → Submitter)
    {c : Conf ι (Desk ι) Call.Ans Err Execution}
    (hr : Reach (Desk.system cfg dates image) (SameImage image)
      (d.calls cfg dates digest image callers) c) {i : ι} {e : Call}
    {k : e.Ans → Program Execution} (hp : c.pool i = .ask e k)
    (hw : c.state.warned i = some true) : BindsVisible c.state e := by
  have hgood : Good (visibleDiscipline cfg dates digest image) (fun _ => Discipline.anyEnd)
      (d.calls cfg dates digest image callers) :=
    good_of_yields h.inv fun i => visible_program (callers i) (h.unwarned i)
  exact ((good_run hgood hr.restrict).allowed hp).1 hw

end Runs

section Demo

def Tx.isBinding : Tx → Bool
  | .bindBuild .. => true
  | _ => false

/-- Whether a program's next request binds a build, if it is a transaction. -/
def nextBinds {α : Type} : Program α → Option Bool
  | .ask (.tx t) _ => some t.isBinding
  | _ => none

theorem ask_of_nextBinds {α : Type} {p : Program α} {b : Bool} (h : nextBinds p = some b) :
    ∃ t k, p = .ask (.tx t) k ∧ t.isBinding = b := by
  unfold nextBinds at h
  split at h
  · exact ⟨_, _, rfl, Option.some.inj h⟩
  · cases h

def visibleCallers (i : Fin 4) : Submitter :=
  if i = 0 then .submit demoService else .reconcile demoService

/-- The first call submits under the old planner, the others run under `planner`. -/
def rolledTo (planner : String) (i : Fin 4) : String := if i = 0 then oldPlanner else planner

def visibleCalls (planner : String) : Conf (Fin 4) (Desk (Fin 4)) Call.Ans Err Execution :=
  (deskStart (pendingRelease oldHash) []).calls plannerConfig decimalDates demoDigest
    (rolledTo planner) visibleCallers

def visibleTurns (planner : String) (n : ℕ) : List (Turn (Fin 4) (Desk (Fin 4)) Call.Ans) :=
  (lostAnswers 9 0 ++ [DeskAct.appear, .wait uncertainGrace] ++ lostAnswers n 1).map
    (DeskAct.turn plannerConfig decimalDates deskOracle (rolledTo planner))

theorem visible_begins : Begins (deskStart (pendingRelease oldHash) []) where
  begun := ⟨by decide, by decide, by decide, by decide, by decide⟩
  earlier := fun p hp => by cases hp
  unwarned := fun _ => rfl

/-- The two runs, each evaluated once. -/
theorem visible_states :
    let c := (visibleCalls oldPlanner).play (visibleTurns oldPlanner 4)
    let c' := (visibleCalls newPlanner).play (visibleTurns newPlanner 5)
    ((visibleCalls oldPlanner).Meets (SameImage (rolledTo oldPlanner)) (visibleTurns oldPlanner 4) ∧
      c.state.warned 1 = some true ∧ nextBinds (c.pool 1) = some true) ∧
    c'.state.warned 1 = some true ∧ nextBinds (c'.pool 1) = some false := by
  decide +kernel

theorem visible_bound_demo : ∃ (c : Conf (Fin 4) (Desk (Fin 4)) Call.Ans Err Execution) (t : Tx)
    (k : (Call.tx t).Ans → Program Execution),
    Reach (Desk.system plannerConfig decimalDates (rolledTo oldPlanner))
      (SameImage (rolledTo oldPlanner)) (visibleCalls oldPlanner) c ∧
    c.pool 1 = .ask (.tx t) k ∧ c.state.warned 1 = some true ∧ BindsVisible c.state (.tx t) := by
  obtain ⟨hmeets, hw, hbinds⟩ := visible_states.1
  have hr : Reach (Desk.system plannerConfig decimalDates (rolledTo oldPlanner))
      (SameImage (rolledTo oldPlanner)) (visibleCalls oldPlanner)
      ((visibleCalls oldPlanner).play (visibleTurns oldPlanner 4)) :=
    DeskAct.reach_play _ hmeets
  obtain ⟨t, k, hp, -⟩ := ask_of_nextBinds hbinds
  exact ⟨_, t, k, hr, hp, hw, visible_bound visible_begins visibleCallers hr hp hw⟩

/-- After the planner image was rolled forward, the reconciler does not recognise the visible build
and resets its submission. -/
theorem visible_reset : ¬∀ (d : Desk (Fin 4)) (callers : Fin 4 → Submitter)
    (c : Conf (Fin 4) (Desk (Fin 4)) Call.Ans Err Execution) (i : Fin 4) (e : Call)
    (k : e.Ans → Program Execution), Begins d →
    Reach (Desk.system plannerConfig decimalDates (rolledTo newPlanner)) (always _ _ _)
      (d.calls plannerConfig decimalDates demoDigest (rolledTo newPlanner) callers) c →
    c.pool i = .ask e k → c.state.warned i = some true → BindsVisible c.state e := by
  intro h
  obtain ⟨hw, hresets⟩ := visible_states.2
  have hr : Reach (Desk.system plannerConfig decimalDates (rolledTo newPlanner)) (always _ _ _)
      (visibleCalls newPlanner) ((visibleCalls newPlanner).play (visibleTurns newPlanner 5)) :=
    DeskAct.reach_play _ (meets_always _ _)
  obtain ⟨t, k, hp, ht⟩ := ask_of_nextBinds hresets
  obtain ⟨p, -, -, metadata, now, rfl⟩ := h _ _ _ 1 _ k visible_begins hr hp hw
  cases ht

end Demo

end Release
