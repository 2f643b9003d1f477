import EngPlatform.Release.Rules

/-!
# The submission and the reconciler keep the contract

One lemma per program: from which facts it may be started, and what the record that it returns
says. A record always returns as a `Snapshot`.
-/

set_option linter.dupNamespace false

namespace Release

open Interleave

section Requests

variable {ι : Type} [DecidableEq ι] {cfg : Config} {i : ι} {w : World ι}

/-- A transaction whose changes are safe wherever its guard holds. -/
theorem tx_sound {t : Tx}
    (h : ∀ w₁, Le w w₁ → Inv cfg w₁ → t.Guard cfg w₁.record → Safe cfg w₁ (t.changes w₁.record)) :
    Sound cfg i w (perform (.tx t)) fun r w' => Snapshot cfg r.1 w' ∧
      (t.isClaim = true → r.2 = true → w'.permit i = true) ∧
      ∃ e cs, t.run cfg e = .ok (cs, r.2) ∧ r.1 = update cs e := by
  refine .perform (fun w₁ hle hI _ cs flag hr => ?_) fun w₁ w₂ v hle hI hs hI₂ => ?_
  · rcases run_cases hr with ⟨rfl, -⟩ | ⟨rfl, -, hg⟩
    · exact .nil
    · exact h w₁ hle hI hg
  · rcases hs with ⟨-, x, hx⟩ | hs
    · cases hx
    rcases hr : t.run cfg w₁.record with x | ⟨cs, flag⟩ <;> rw [hr] at hs
    · cases hs.2
    rcases hs with ⟨-, x, hx⟩ | ⟨rfl, hv⟩
    · cases hx
    obtain rfl := Except.ok.inj hv
    refine ⟨?_, fun hc hf => ?_, w₁.record, cs, hr, rfl⟩
    · have hn := Snapshot.now hI₂
      split_ifs at hn ⊢ <;> exact hn
    · rw [if_pos ⟨hc, hf⟩]
      simp [World.allow]

theorem getOr_sound (e : Execution) :
    Sound cfg i w (getOr e) fun e' w' => Snapshot cfg e' w' := by
  refine Sound.bind (P := fun r w' => Snapshot cfg (r.getD e) w') (.perform (fun _ _ _ _ => trivial)
    fun w₁ w₂ v _ hI hs hI₂ => ?_) fun r w' _ h => .pure h
  obtain ⟨rfl, hv | ⟨x, hx⟩⟩ := hs
  · obtain rfl := Except.ok.inj hv
    exact .now hI
  · cases hx

theorem getOrRaise_sound (x : Err) :
    Sound cfg i w (getOrRaise x) fun e w' => Snapshot cfg e w' := by
  refine Sound.bind (P := fun r w' => ∀ e, r = some e → Snapshot cfg e w')
    (.perform (fun _ _ _ _ => trivial) fun w₁ w₂ v _ hI hs hI₂ => ?_) fun r w' _ h => ?_
  · obtain ⟨rfl, hv | ⟨x, hx⟩⟩ := hs
    · obtain rfl := Except.ok.inj hv
      rintro e ⟨⟩
      exact .now hI
    · cases hx
  · rcases r with _ | e
    · exact .raise x
    · exact .pure (h e rfl)

theorem now_sound : Sound cfg i w (perform .now) fun t _ => t ≠ "" := by
  refine .perform (fun _ _ _ _ => trivial) fun w₁ w₂ v _ _ hs _ => ?_
  obtain ⟨-, t, ht, hv⟩ := hs
  obtain rfl := Except.ok.inj hv
  exact ht

theorem save_changes {e : Execution} {cs cs' : List Change} {now : String} {b : Bool}
    (h : Tx.run cfg e (.save cs now) = .ok (cs', b)) : cs' = cs ++ [⟨.updatedAt, now⟩] := by
  simp only [Tx.run] at h
  split_ifs at h
  obtain ⟨-, hc⟩ := bind_unit_ok h
  exact (Prod.mk.inj hc).1.symm

/-- A save whose changes are safe wherever the others can lead. -/
theorem save_sound {cs : List Change} (h : ∀ w₁, Le w w₁ → Inv cfg w₁ → Safe cfg w₁ cs) :
    Sound cfg i w (save cs) fun e w' => Snapshot cfg e w' ∧
      ∀ f v, f ≠ .updatedAt → lookup f cs = some v → e f = v := by
  refine now_sound.bind fun now w₁ h₁ _ => Sound.bind (tx_sound fun w₂ h₂ hI _ => ?_)
    fun r w₂ _ hr => .pure ⟨hr.1, fun f v hf hv => ?_⟩
  · exact (h w₂ (h₁.trans h₂) hI).append (fields_free rfl)
  · obtain ⟨-, -, e, cs', hrun, hre⟩ := hr
    rw [hre, save_changes hrun]
    refine update_of_some ?_
    rw [lookup_append, lookup_cons_ne (Ne.symm hf), lookup_nil, Option.none_or, hv]

/-- A save of plain fields. -/
theorem save_plain {cs : List Change}
    (h : ∀ c ∈ cs, c.1 ∉ restricted ++ [Field.status, .pendingReportHash]) :
    Sound cfg i w (save cs) fun e w' => Snapshot cfg e w' :=
  (save_sound fun _ _ _ => .of_plain h).mono fun _ _ _ h => h.1

theorem lookup_status_cons {cs : List Change} (s : Status)
    (h : ∀ c ∈ cs, c.1 ∉ restricted ++ [Field.status, .pendingReportHash]) :
    lookup .status (⟨.status, s⟩ :: cs) = some s := by
  rw [lookup_cons_self, lookup_eq_none fun c hc hcf => h c hc (by rw [hcf]; decide),
    Option.getD_none]

omit [DecidableEq ι] in
/-- Plain changes with a status that may always be written. -/
theorem Safe.of_status {cs : List Change} {s : Status}
    (h : ∀ c ∈ cs, c.1 ∉ restricted ++ [Field.status, .pendingReportHash])
    (hs : StatusSafe cfg w (⟨.status, s⟩ :: cs) s) : Safe cfg w (⟨.status, s⟩ :: cs) := by
  refine Safe.of_fields (fun c hc => ?_) (fun v hv => ?_) fun s' hs' => ?_
  · rcases List.mem_cons.1 hc with rfl | hc
    · simp [restricted, identityFields]
    · exact fun hr => h c hc (List.mem_append_left _ hr)
  · rw [lookup_cons_ne (by decide),
      lookup_eq_none fun c hc hcf => h c hc (by rw [hcf]; decide)] at hv
    cases hv
  · rw [lookup_status_cons s h] at hs'
    obtain rfl := Option.some.inj hs'
    exact hs

theorem save_status {cs : List Change} {s : Status}
    (h : ∀ c ∈ cs, c.1 ∉ restricted ++ [Field.status, .pendingReportHash])
    (hs : ∀ w₁ : World ι, Le w w₁ → Inv cfg w₁ → StatusSafe cfg w₁ (⟨.status, s⟩ :: cs) s) :
    Sound cfg i w (save (⟨.status, s⟩ :: cs)) fun e w' => Snapshot cfg e w' ∧ e .status = s :=
  (save_sound fun w₁ hle hI => Safe.of_status h (hs w₁ hle hI)).mono fun e w' _ he =>
    ⟨he.1, he.2 _ _ (by decide) (lookup_status_cons s h)⟩

end Requests

section Submission

variable {ι : Type} [DecidableEq ι] {cfg : Config} {i : ι} {w : World ι} {digest : Digest}

theorem matchingBuild_sound (e : Execution) :
    Sound cfg i w (matchingBuild cfg e) fun _ _ => True :=
  .ite (fun _ => .raise _) fun _ => .bind (.ask fun _ => trivial) fun _ _ _ _ => .pure trivial

theorem bind_sound (b : Build) : Sound cfg i w (bind b) fun e w' => Snapshot cfg e w' := by
  refine .ite (fun _ => .raise _) fun _ => now_sound.bind fun reconciled w₁ _ _ =>
    now_sound.bind fun now w₂ _ _ => Sound.bind (tx_sound fun w₃ _ _ _ => ?_)
      fun r w₃ _ hr => .pure hr.1
  exact .of_lookup (fields_free rfl) rfl rfl rfl

theorem bindQualityBootstrap_sound (e : Execution) (b : Build) (expected : String) :
    Sound cfg i w (bindQualityBootstrap cfg e b expected) fun e' w' => Snapshot cfg e' w' := by
  refine .lift_bind fun _ _ =>
    now_sound.bind fun reconciled w₂ _ _ => now_sound.bind fun now w₃ _ _ =>
      Sound.bind (tx_sound fun w₃ _ _ _ => ?_) fun r w₄ _ hr => .pure hr.1
  exact .of_lookup (fields_free rfl) rfl rfl rfl

theorem reconcileQualityBootstrap_sound {e : Execution} (he : Snapshot cfg e w)
    (expected : String) : Sound cfg i w (reconcileQualityBootstrap cfg e expected) fun e' w' =>
      Snapshot cfg e' w' := by
  refine .ite (fun _ => .pure he) fun _ => .ite (fun _ => ?_) fun _ => ?_
  · exact Sound.bind (.ask fun _ => trivial) fun b w₁ _ _ =>
      .ite (fun _ => .raise _) fun _ => bindQualityBootstrap_sound e b expected
  · refine Sound.bind (.ask fun _ => trivial) fun builds w₁ h₁ _ =>
      .lift_bind fun _ _ => ?_
    split
    · exact .pure (he.le h₁)
    · exact bindQualityBootstrap_sound e _ expected
    · exact .raise _

/-- What is saved of an uncertain submission, before it is raised. -/
theorem saveUncertain_sound (x : Err) : Sound cfg i w (do
      let since ← perform .now
      let _ ← save [⟨.status, .unknown⟩, ⟨.uncertainSince, since⟩]
      .raise x : Program Execution) fun e' w' => Snapshot cfg e' w' :=
  now_sound.bind fun _ _ _ _ => .bind
    (save_status (fields_free rfl) fun _ _ _ => rfl) fun _ _ _ _ => .raise _

theorem submitted_sound (e : Execution) (a : Submitted) :
    Sound cfg i w (submitted e a) fun e' w' => Snapshot cfg e' w' := by
  refine .ite (fun _ => ?_) fun _ => ?_
  · refine Sound.bind (save_status ?_ fun _ _ _ => rfl) fun _ _ _ _ => .raise _
    split_ifs <;> exact fields_free rfl
  · exact .lift_bind fun b _ => .ite (fun _ => saveUncertain_sound _) fun _ => bind_sound b

/-- A build is posted under the claim that the program was granted. -/
theorem postSubmission_sound (e : Execution) (request : BuildRequest) (hp : w.permit i = true) :
    Sound cfg i w (postSubmission cfg e request) fun e' w' => Snapshot cfg e' w' := by
  have hpost : Sound cfg i w (perform (.postBuild request)) fun _ _ => True :=
    .perform (fun w₁ _ _ hpermit => hpermit.trans hp) fun _ _ _ _ _ _ _ => trivial
  refine .lift_bind fun _ _ => Sound.bind (P := fun _ _ => True) (Sound.handle
    (hpost.bind fun _ _ _ _ => .pure trivial) fun _ _ _ => .pure trivial) fun a w₁ _ _ => ?_
  rcases a with _ | a
  · exact saveUncertain_sound _
  · exact submitted_sound e a

theorem claimSubmission_sound (now : String) :
    Sound cfg i w (perform (.tx (.claimSubmission now))) fun r w' =>
      r.2 = true → w'.permit i = true := by
  refine (tx_sound fun w₁ _ _ _ => ?_).mono fun _ _ _ hr => hr.2.1 rfl
  change Safe cfg w₁ [⟨.status, .submitting⟩, ⟨.updatedAt, now⟩]
  exact .of_status (fields_free rfl) rfl

theorem submit_sound (service : Service) :
    Sound cfg i w (submit cfg digest service) fun e w' => Snapshot cfg e w' := by
  refine .lift_bind fun _ _ =>
    (getOrRaise_sound _).bind fun e w₂ _ he => .ite (fun _ => .raise _) fun _ =>
    .ite (fun _ => .raise _) fun _ => .ite (fun _ => .pure he) fun _ =>
    (matchingBuild_sound e).bind fun recovered w₃ _ _ => ?_
  rcases recovered with _ | b
  · exact .lift_bind fun _ _ => .lift_bind fun request _ => Sound.bind (.ask fun _ => trivial) fun _ _ _ _ => now_sound.bind fun now _ _ _ =>
      (claimSubmission_sound now).bind fun r w₄ _ hr => .ite (fun _ => .raise _) fun hr2 =>
      postSubmission_sound e request (hr (by simpa using hr2))
  · exact bind_sound b

theorem reconcileSubmissionAbsent_sound :
    Sound cfg i w reconcileSubmissionAbsent fun e w' => Snapshot cfg e w' := by
  refine (getOrRaise_sound _).bind fun _ _ _ _ => .ite (fun _ => .raise _) fun _ =>
    .ite (fun _ => .raise _) fun _ =>
    Sound.mono (save_status ?_ fun _ _ _ => rfl) fun _ _ _ h => h.1
  simp [restricted, identityFields]

theorem reconcileUncertainSubmission_sound (service : Service) :
    Sound cfg i w (reconcileUncertainSubmission cfg digest service) fun e w' =>
      Snapshot cfg e w' := by
  refine .lift_bind fun _ _ =>
    (getOrRaise_sound _).bind fun e w₂ _ he =>
    .ite (fun _ => reconcileQualityBootstrap_sound he "") fun _ => .ite (fun _ => .pure he) fun _ =>
    (matchingBuild_sound e).bind fun recovered w₃ h₃ _ => ?_
  rcases recovered with _ | b
  · exact now_sound.bind fun now w₄ h₄ _ => .ite (fun _ => .pure ((he.le h₃).le h₄)) fun _ =>
      reconcileSubmissionAbsent_sound.bind fun _ _ _ _ => submit_sound service
  · exact bind_sound b

end Submission

section Evidence

variable {ι : Type} [DecidableEq ι] {cfg : Config} {i : ι} {w : World ι} {digest : Digest}

theorem completeCheck_sound (e : Execution) (kind conclusion summary : String) :
    Sound cfg i w (completeCheck e kind conclusion summary) fun _ _ => True :=
  .ite (fun _ => .ask fun _ => trivial) fun _ => .pure trivial

theorem recordBuildTiming_sound (b : Build) :
    Sound cfg i w (recordBuildTiming cfg b) fun _ _ => True := by
  refine .ite (fun _ => .pure trivial) fun _ => (getOr_sound _).bind fun e w₁ _ _ =>
    Sound.bind (save_plain ?_) fun _ _ _ _ => .pure trivial
  exact fields_free rfl

/-- A verified build that counts as a success ended the provider's run. -/
theorem buildOutcome_sound {e : Execution} {b : Build} (he : Snapshot cfg e w) (hb : b ∈ w.seen)
    (hv : verifyBuild cfg e b "" = .ok ()) :
    Sound cfg i w (buildOutcome cfg e b) fun ok w' => ok = true → Ended cfg w' := by
  have hend : ∀ w', Le w w' → b.state = "SUCCESS" ∨ b.state = "FAILURE" ∧ e .pendingReportHash ≠ "" →
      Ended cfg w' := fun w' hle hs =>
    .inr ⟨b, hle.seen hb, e, (he.le hle).identity, hv,
      hs.imp_right fun ⟨hf, hp⟩ => ⟨hf, (he.le hle).pending hp⟩⟩
  refine .ite (fun hs => (recordBuildTiming_sound b).bind fun _ w₁ h₁ _ => .ite (fun _ => ?_)
    fun _ => .pure fun _ => hend _ h₁ (.inl hs)) fun _ => .ite (fun _ => .pure nofun) fun _ =>
    .ite (fun hq => ?_) fun _ => .ite (fun hp => ?_) fun _ => ?_
  · exact now_sound.bind fun now w₂ h₂ _ => Sound.bind
      (save_plain (fields_free rfl)) fun _ w₃ h₃ _ =>
      .pure fun _ => hend _ (h₁.trans (h₂.trans h₃)) (.inl hs)
  · simp only [failedAfterQuality, decide_eq_true_eq] at hq
    exact (recordBuildTiming_sound b).bind fun _ w₁ h₁ _ =>
      .pure fun _ => hend _ h₁ (.inr ⟨hq.1, hq.2.2⟩)
  · simp only [failedInPlanning, decide_eq_true_eq] at hp
    refine Sound.bind (save_plain ?_) fun _ w₁ h₁ _ => (recordBuildTiming_sound b).bind
      fun _ w₂ h₂ _ => .pure fun _ => hend _ (h₁.trans h₂) (.inr ⟨hp.1, hp.2.2⟩)
    intro c hc
    rcases List.mem_append.1 hc with hc | hc
    · exact fields_free rfl c hc
    · split at hc
      · cases hc
      · split_ifs at hc <;> exact fields_free rfl c hc
  · exact Sound.bind (save_status (fields_free rfl) fun _ _ _ => rfl)
      fun _ _ _ _ => (completeCheck_sound _ _ _ _).bind fun _ _ _ _ =>
      (completeCheck_sound _ _ _ _).bind fun _ _ _ _ => .pure nofun

theorem getBuild_sound (id : String) :
    Sound cfg i w (perform (.getBuild id)) fun b w' => b ∈ w'.seen := by
  refine .perform (fun _ _ _ _ => trivial) fun w₁ w₂ v _ _ hs _ => ?_
  rcases hs with ⟨b, rfl, hv⟩ | ⟨-, x, hx⟩
  · obtain rfl := Except.ok.inj hv
    exact List.mem_cons_self
  · cases hx

theorem boundExecution_sound {e : Execution} (he : Snapshot cfg e w) :
    Sound cfg i w (boundExecution cfg digest e) fun e' w' => Snapshot cfg e' w' := by
  refine .ite (fun _ => .pure he) fun _ => Sound.bind (.ask fun _ => trivial)
    fun service _ _ _ => ?_
  rcases service with _ | service
  · exact .raise _
  · exact reconcileUncertainSubmission_sound service

/-- A success of the provider is the end of its run. -/
theorem providerSuccess_sound {e : Execution} (he : Snapshot cfg e w) :
    Sound cfg i w (providerSuccess cfg digest e) fun ok w' => ok = true → Ended cfg w' :=
  .ite (fun _ => .pure fun ht => .inl (he.terminal ht)) fun _ =>
    (boundExecution_sound he).bind fun _ _ _ he' => .ite (fun _ => .pure nofun) fun _ =>
    (getBuild_sound _).bind fun _ _ h₂ hb => .lift_bind fun _ hv =>
    buildOutcome_sound (he'.le h₂) hb hv

/-- The evidence is committed, or its quality failed. -/
def Committed (e : Execution) : Prop := e .evidenceCommitted = true ∨ e .status = .qualityFailed

theorem commitReport_sound (e : Execution) {stored : Report} (hash : String)
    (hs : stored ∈ w.committed) (hsha : stored.commitSha = w.record .headSha) :
    Sound cfg i w (commitReport cfg e stored hash) fun e' w' =>
      Snapshot cfg e' w' ∧ Committed e' := by
  refine Sound.bind (.ask fun _ => trivial) fun service w₁ h₁ _ => .ite (fun _ => ?_)
    fun hgate => ?_
  · exact Sound.bind (save_status (fields_free rfl) fun _ _ _ => rfl)
      fun result w₂ h₂ hr => (completeCheck_sound _ _ _ _).bind fun _ w₃ h₃ _ =>
      (completeCheck_sound _ _ _ _).bind fun _ w₄ h₄ _ =>
      .pure ⟨(hr.1.le h₃).le h₄, .inr hr.2⟩
  · simp only [not_or, not_not] at hgate
    have hback : Backed cfg w₁ :=
      ⟨stored, h₁.committed hs, hsha.trans h₁.headSha.symm, hgate.1, service, hgate.2⟩
    refine Sound.bind (save_sound fun w₂ h₂ _ => ?_) fun result w₂ h₂ hr =>
      (completeCheck_sound _ _ _ _).bind fun _ w₃ h₃ _ =>
      (completeCheck_sound _ _ _ _).bind fun _ w₄ h₄ _ =>
      .pure ⟨(hr.1.le h₃).le h₄, .inl (hr.2 .evidenceCommitted true (by decide) (by simp))⟩
    constructor <;> simp [identityFields, StatusSafe, h₂.backed hback]

theorem saveReport_sound {report : Report} (expected : String) {e : Execution}
    (he : Snapshot cfg e w) (hm : report.matches e = true) :
    Sound cfg i w (perform (.saveReport report expected)) fun r w' =>
      r.1 ∈ w'.committed ∧ r.1.commitSha = w'.record .headSha := by
  refine .perform (fun _ _ _ _ => trivial) fun w₁ w₂ v h₁ _ hs _ => ?_
  rcases hs with ⟨rfl, hv | hv, -⟩ | ⟨-, x, hx⟩
  · obtain ⟨x, hx⟩ := hv
    cases hx
  · obtain rfl := Except.ok.inj hv
    simp only [Report.matches, decide_eq_true_eq] at hm
    exact ⟨List.mem_cons_self, hm.2.2.1.trans (he.le h₁).headSha⟩
  · cases hx

theorem commitQuality_sound {e : Execution} (he : Snapshot cfg e w) :
    Sound cfg i w (commitQuality cfg e) fun e' w' => Snapshot cfg e' w' ∧ Committed e' := by
  refine .ite (fun _ => .raise _) fun _ => Sound.bind (.ask fun _ => trivial)
    fun report w₁ h₁ _ => ?_
  rcases report with _ | report
  · exact .raise _
  · exact .ite (fun _ => .raise _) fun hm =>
      (saveReport_sound _ (he.le h₁) (by simpa using hm)).bind fun r w₂ _ hr =>
      Sound.bind (.ask fun _ => trivial) fun _ w₃ h₃ _ =>
      commitReport_sound e r.2 (h₃.committed hr.1) (hr.2.trans h₃.headSha.symm)

end Evidence

section Publication

variable {ι : Type} [DecidableEq ι] {cfg : Config} {i : ι} {w : World ι} {digest : Digest}

theorem gitTag_sound (sha : String) :
    Sound cfg i w (perform (.gitTag sha)) fun commit _ => commit = cfg.tagObject sha := by
  refine .perform (fun _ _ _ _ => trivial) fun w₁ w₂ v _ _ hs _ => ?_
  obtain ⟨-, hv | ⟨x, hx⟩⟩ := hs
  · exact Except.ok.inj hv
  · cases hx

theorem getRef_sound (tag : String) : Sound cfg i w (perform (.getRef tag)) fun r w' =>
    ∀ ref, r = some ref → ref ∈ w'.refs ∧ ref.tag = tag := by
  refine .perform (fun _ _ _ _ => trivial) fun w₁ w₂ v _ _ hs _ => ?_
  obtain ⟨rfl, hv | ⟨x, hx⟩⟩ := hs
  · obtain rfl := Except.ok.inj hv
    exact fun ref hr => ⟨List.mem_of_find?_eq_some hr, by simpa using List.find?_some hr⟩
  · cases hx

/-- The tag points to the commit. -/
def Tagged (cfg : Config) (tag sha : String) (w : World ι) : Prop :=
  ∃ ref ∈ w.refs, ref.tag = tag ∧ ref.commit cfg = sha

theorem createRef_sound {tag sha : String}
    (ha : ∀ w₁, Le w w₁ → Inv cfg w₁ → Allowed cfg i w₁ (.createRef tag sha)) :
    Sound cfg i w (perform (.createRef tag sha)) fun _ w' => Tagged cfg tag sha w' := by
  refine .perform (fun w₁ h hI _ => ha w₁ h hI) fun w₁ w₂ v _ _ hs _ => ?_
  rcases hs with ⟨-, x, hx⟩ | ⟨-, -, rfl⟩
  · cases hx
  · exact ⟨_, List.mem_cons_self, rfl, rfl⟩

/-- The tag is at the commit once it is ensured. -/
theorem ensureTag_sound {tag sha : String}
    (ha : ∀ w₁, Le w w₁ → Inv cfg w₁ → Allowed cfg i w₁ (.createRef tag sha)) :
    Sound cfg i w (ensureTag tag sha) fun _ w' => Tagged cfg tag sha w' := by
  refine (getRef_sound tag).bind fun r w₁ h₁ hr => ?_
  rcases r with _ | ref
  · exact createRef_sound fun w₂ h₂ hI => ha w₂ (h₁.trans h₂) hI
  · obtain ⟨hmem, htag⟩ := hr ref rfl
    refine Sound.bind (P := fun commit _ => commit = ref.commit cfg) ?_ fun commit w₂ h₂ hc =>
      .ite (fun _ => .raise _) fun hsha => .pure ⟨ref, h₂.refs hmem, htag, ?_⟩
    · refine .ite (fun han => ?_) fun han => .pure ?_
      · refine (gitTag_sound _).mono fun commit _ _ hc => ?_
        rw [hc, Ref.commit, if_pos han]
      · rw [Ref.commit, if_neg han]
    · rw [← hc]
      exact not_not.1 hsha

/-- The Release is there with the notes. -/
def Released (tag notes : String) (w : World ι) : Prop :=
  ∃ r ∈ w.releases, r.tag = tag ∧ r.body = notes ∧ r.draft = false ∧ r.prerelease = false

theorem ensureRelease_sound {tag notes sha : String}
    (ha : ∀ w₁, Le w w₁ → Inv cfg w₁ → Allowed cfg i w₁ (.createRelease tag notes sha)) :
    Sound cfg i w (ensureRelease tag notes sha) fun _ w' => Released tag notes w' := by
  refine Sound.bind (P := fun r w' => ∀ release, r = some release →
    release ∈ w'.releases ∧ release.tag = tag) (.perform (fun _ _ _ _ => trivial)
      fun w₁ w₂ v _ _ hs _ => ?_) fun r w₁ h₁ hr => ?_
  · obtain ⟨rfl, hv | ⟨x, hx⟩⟩ := hs
    · obtain rfl := Except.ok.inj hv
      exact fun release hr => ⟨List.mem_of_find?_eq_some hr, by simpa using List.find?_some hr⟩
    · cases hx
  · rcases r with _ | release
    · refine .perform (fun w₂ h₂ hI _ => ha w₂ (h₁.trans h₂) hI) fun w₂ w₃ v _ _ hs _ => ?_
      rcases hs with ⟨-, x, hx⟩ | ⟨-, id, url, -, rfl⟩
      · cases hx
      · exact ⟨_, List.mem_cons_self, rfl, rfl, rfl, rfl⟩
    · obtain ⟨hmem, htag⟩ := hr release rfl
      refine .ite (fun _ => .raise _) fun hm => .pure ⟨release, hmem, htag, ?_⟩
      simp only [not_or, Bool.not_eq_true, ne_eq, not_not] at hm
      exact ⟨hm.2.2, hm.1, hm.2.1⟩

/-- A record that may be published: of a claimed and permitted publication, with a granted plan. -/
def Publishable (cfg : Config) (e : Execution) (w : World ι) : Prop :=
  Snapshot cfg e w ∧ Claimed w ∧ Permitted cfg w ∧ (e .releasePlan : Option Plan) ∈ w.grants

omit [DecidableEq ι] in
theorem Publishable.le {w' : World ι} {e : Execution} (h : Publishable cfg e w) (hle : Le w w') :
    Publishable cfg e w' :=
  ⟨h.1.le hle, hle.claimed h.2.1, hle.permitted h.2.2.1, hle.grants h.2.2.2⟩

theorem publishRelease_sound {e : Execution} (he : Publishable cfg e w) :
    Sound cfg i w (publishRelease e) fun cs w' => Published cfg w' ∧
      ∀ c ∈ cs, c.1 ∉ restricted ++ [Field.status, .pendingReportHash] := by
  have hpub : Sound cfg i w (perform (.publishing e)) fun _ _ => True :=
    .perform (fun w₁ h _ _ => (he.le h).2) fun _ _ _ _ _ _ _ => trivial
  refine hpub.bind fun _ w₁ h₁ _ => Sound.bind (.ask fun _ => trivial) fun _ w₂ h₂ _ => ?_
  have he₂ := he.le (h₁.trans h₂)
  rcases hp : (e .releasePlan : Option Plan) with _ | plan
  · exact .raise _
  rw [Publishable, hp] at he₂
  refine .ite (fun _ => .raise _) fun hne => Sound.bind (.ask fun _ => trivial) fun current w₃ h₃ _ =>
    .ite (fun _ => .raise _) fun _ => ?_
  rw [not_or] at hne
  have hplan : ∀ w', Le w₂ w' → Allowed cfg i w' (.createRef plan.gitTag (e .headSha)) :=
    fun w' h => ⟨h.claimed he₂.2.1, h.permitted he₂.2.2.1, (he₂.1.le h).headSha, plan,
      h.grants he₂.2.2.2, rfl, hne.1, hne.2⟩
  refine (ensureTag_sound fun w' h _ => hplan w' (h₃.trans h)).bind fun _ w₄ h₄ ht =>
    (ensureRelease_sound fun w' h _ => ?_).bind fun release w₅ h₅ hr =>
    now_sound.bind fun now w₆ h₆ _ => .pure ?_
  · obtain ⟨ref, href, htag, -⟩ := ht
    have hle := h₃.trans (h₄.trans h)
    exact ⟨hle.claimed he₂.2.1, ⟨ref, h.refs href, htag⟩, plan, hle.grants he₂.2.2.2, rfl, rfl⟩
  · obtain ⟨ref, href, htag, hc⟩ := ht
    obtain ⟨r, hrel, hrest⟩ := hr
    have hle := h₃.trans (h₄.trans (h₅.trans h₆))
    exact ⟨⟨plan, hle.grants he₂.2.2.2,
      ⟨ref, h₆.refs (h₅.refs href), htag, hc.trans (he₂.1.le hle).headSha⟩,
      r, h₆.releases hrel, hrest⟩, by simp [restricted, identityFields]⟩

theorem recordPublication_sound {outcome : Except Err (List Change)} (hc : Claimed w)
    (ho : ∀ cs, outcome = .ok cs → Published cfg w ∧
      ∀ c ∈ cs, c.1 ∉ restricted ++ [Field.status, .pendingReportHash]) :
    Sound cfg i w (recordPublication outcome) fun e w' => Snapshot cfg e w' := by
  have hfinish : ∀ (cs : List Change) (f : Execution → Program Unit),
      (∀ w₁, Le w w₁ → Inv cfg w₁ → Safe cfg w₁ cs) →
      (∀ e w₁, Sound cfg i w₁ (f e) fun _ _ => True) →
      Sound cfg i w (do let result ← save cs; f result; Pure.pure result) fun e w' =>
        Snapshot cfg e w' := fun cs f hs hf =>
    (save_sound hs).bind fun result w₁ _ hr => (hf result w₁).bind fun _ w₂ h₂ _ =>
      .pure (hr.1.le h₂)
  have huncertain : ∀ text summary : String, Sound cfg i w (do
      let result ← save [⟨.status, .unknown⟩,
        ⟨.error, "GitHub release publication is uncertain"⟩, ⟨.publicationUncertain, true⟩,
        ⟨.extra "publication_error", text⟩]
      completeCheck result "release" "action_required" summary
      Pure.pure result) fun e w' => Snapshot cfg e w' := fun text summary =>
    hfinish _ _ (fun w₁ h _ => by constructor <;> simp [identityFields, StatusSafe, improper, h.claimed hc])
      fun _ _ => completeCheck_sound _ _ _ _
  rcases outcome with x | published
  · cases x with
    | conflict message =>
      exact hfinish _ _ (fun w₁ _ _ => .of_status (fields_free rfl) rfl)
        fun _ _ => completeCheck_sound _ _ _ _
    | _ => exact huncertain _ _
  · obtain ⟨hp, hplain⟩ := ho published rfl
    refine hfinish _ _ (fun w₁ h _ => ?_) fun _ _ => completeCheck_sound _ _ _ _
    refine Safe.append ?_ hplain
    constructor <;> simp [identityFields, StatusSafe, h.published hp]

theorem publishClaimed_sound {e : Execution} (he : Snapshot cfg e w) (hp : Permitted cfg w) :
    Sound cfg i w (publishClaimed e) fun e' w' => Snapshot cfg e' w' := by
  refine .ite (fun _ => .pure he) fun hs => .ite (fun _ => .pure he) fun hu => ?_
  have hclaim : e .status = .publishPending ∨ e .publicationUncertain = true := by
    simp only [List.mem_cons, List.not_mem_nil, or_false, not_not] at hs
    rcases hs with hs | hs
    · exact .inl hs
    · simp only [hs, true_and, Bool.not_eq_true, Bool.not_eq_false] at hu
      exact .inr hu
  obtain ⟨hc, hg⟩ := he.claimed hclaim
  exact (publishRelease_sound ⟨he, hc, hp, hg⟩).attempt.bind fun o w₁ h₁ ho =>
    recordPublication_sound (h₁.claimed hc) ho

theorem claimPublish_sound {now : String} (hn : now ≠ "") :
    Sound cfg i w (perform (.tx (.claimPublish now))) fun _ _ => True := by
  refine (tx_sound fun w₁ _ hI hg => ?_).mono fun _ _ _ _ => trivial
  obtain ⟨he, hend⟩ := hI.planned hg.2.1
  constructor <;> simp [Tx.changes, identityFields, StatusSafe, hn, he, hend, hg.1]

theorem publishIfAllowed_sound {e : Execution} (he : Snapshot cfg e w) :
    Sound cfg i w (publishIfAllowed cfg e) fun e' w' => Snapshot cfg e' w' := by
  refine Sound.bind (.ask fun _ => trivial) fun _ w₁ h₁ _ =>
    .ite (fun _ => .pure (he.le h₁)) fun hperm => ?_
  have hp : Permitted cfg w₁ := by
    refine (he.le h₁).permitted ?_
    rcases ha : automatic cfg e with _ | _
    · exact .inr (by simpa [ha] using hperm)
    · exact .inl rfl
  refine .ite (fun _ => now_sound.bind fun now w₂ h₂ hn => (claimPublish_sound hn).bind
    fun claimed w₃ h₃ _ => (getOr_sound e).bind fun latest w₄ h₄ hl => .ite (fun _ => ?_)
    fun _ => .pure hl) fun _ => publishClaimed_sound (he.le h₁) hp
  exact publishClaimed_sound hl ((h₂.trans (h₃.trans h₄)).permitted hp)

end Publication

section Retry

variable {ι : Type} [DecidableEq ι] {cfg : Config} {i : ι} {w : World ι} {digest : Digest}

theorem stagePlannerRetry_sound (a : RetryArgs) :
    Sound cfg i w (stagePlannerRetry cfg a) fun e w' => Snapshot cfg e w' := by
  refine .lift_bind fun _ _ => .ite (fun _ => .raise _) fun _ =>
    (getOrRaise_sound _).bind fun e w₁ _ he => .ite (fun _ => .raise _) fun _ =>
    .ite (fun _ => .raise _) fun _ => .ite (fun _ => .raise _) fun _ =>
    .ite (fun _ => .raise _) fun _ => .ite (fun _ => .raise _) fun _ =>
    now_sound.bind fun now w₂ _ _ => Sound.bind (tx_sound fun w₃ _ _ _ => ?_)
      fun r w₃ _ hr => .pure hr.1
  refine Safe.of_status (s := .submissionPending) (fun c hc => ?_) rfl
  rcases List.mem_append.1 hc with hc | hc
  · exact fields_free rfl c hc
  · split_ifs at hc <;> exact fields_free rfl c hc

theorem resubmitPlanner_sound (e : Execution) (b : Build) (remediation contractRetry : Bool) :
    Sound cfg i w (resubmitPlanner cfg digest e b remediation contractRetry) fun e' w' =>
      Snapshot cfg e' w' := by
  refine .lift_bind fun _ _ => (stagePlannerRetry_sound _).bind fun staged w₁ _ _ =>
    Sound.bind (.ask fun _ => trivial) fun service w₂ _ _ => ?_
  rcases service with _ | service
  · exact .raise _
  · exact submit_sound service

theorem inspectFailedBuild_sound (e : Execution) (remediation contractRetry : Bool) :
    Sound cfg i w (inspectFailedBuild cfg digest e remediation contractRetry) fun _ _ => True :=
  Sound.bind (.ask fun _ => trivial) fun _ _ _ _ => .lift_bind fun _ _ =>
    .ite (fun _ => .pure trivial) fun _ => .lift_bind fun _ _ => .pure trivial

theorem retryPlanner_sound {e : Execution} (he : Snapshot cfg e w) :
    Sound cfg i w (retryPlanner cfg digest e) fun e' w' => Snapshot cfg e' w' := by
  refine .ite (fun _ => .pure he) fun _ => .ite (fun _ => .pure he) fun _ => Sound.bind
    (Sound.handle (inspectFailedBuild_sound _ _ _) fun _ _ _ => .pure trivial)
    fun inspected w₁ h₁ _ => ?_
  rcases inspected with _ | b
  · exact .pure (he.le h₁)
  · refine .ite (fun _ => save_plain ?_) fun _ => (recordBuildTiming_sound b).bind
      fun _ w₂ _ _ => Sound.handle (resubmitPlanner_sound _ _ _ _) fun _ _ _ => getOr_sound e
    split_ifs <;> exact fields_free rfl

theorem driftedBuild_sound (e : Execution) :
    Sound cfg i w (driftedBuild cfg e) fun _ _ => True :=
  Sound.bind (.ask fun _ => trivial) fun _ _ _ _ => .ite (fun _ => .pure trivial) fun _ =>
    .lift_bind fun _ _ => .pure trivial

theorem recoverUnknown_sound {e : Execution} (he : Snapshot cfg e w) :
    Sound cfg i w (recoverUnknown cfg digest e) fun e' w' => Snapshot cfg e' w' :=
  .ite (fun _ => .pure he) fun _ => Sound.bind
    (Sound.handle (driftedBuild_sound e) fun _ _ _ => .pure trivial) fun _ _ h₁ _ =>
    .ite (fun _ => .pure (he.le h₁)) fun _ =>
    Sound.bind (save_status (fields_free rfl) fun _ _ _ => rfl)
      fun _ _ _ hv => retryPlanner_sound hv.1

end Retry

section Reconcile

variable {ι : Type} [DecidableEq ι] {cfg : Config} {i : ι} {w : World ι} {digest : Digest}

theorem failRelease_sound (e : Execution) :
    Sound cfg i w (failRelease cfg digest e) fun e' w' => Snapshot cfg e' w' :=
  Sound.bind (save_status (fields_free rfl) fun _ _ _ => rfl) fun _ _ _ hf =>
    (completeCheck_sound _ _ _ _).bind fun _ _ h₁ _ => retryPlanner_sound (hf.1.le h₁)

/-- A release is planned on committed evidence and an ended provider's run. -/
theorem planRelease_sound {e : Execution} (he : Snapshot cfg e w)
    (hev : e .evidenceCommitted = true) (hend : Ended cfg w) :
    Sound cfg i w (planRelease cfg digest e) fun e' w' => Snapshot cfg e' w' :=
  .ite (fun _ => failRelease_sound e) fun _ =>
    .ite (fun _ => Sound.bind (save_status (by simp) fun _ _ _ => rfl) fun _ _ _ hr =>
      (completeCheck_sound _ _ _ _).bind fun _ _ h₁ _ => .pure (hr.1.le h₁)) fun _ =>
    .ite (fun _ => Sound.bind
      (save_status (fields_free rfl) fun _ _ _ => rfl) fun _ _ _ hr => (completeCheck_sound _ _ _ _).bind fun _ _ h₁ _ => .pure (hr.1.le h₁))
      fun _ => Sound.bind
        (save_status (by simp) fun _ h _ => ⟨(he.le h).evidence hev, h.ended hend⟩) fun _ _ _ hp => publishIfAllowed_sound hp.1

theorem settle_sound {e : Execution} (he : Snapshot cfg e w) (hend : Ended cfg w) :
    Sound cfg i w (settle cfg digest e) fun e' w' => Snapshot cfg e' w' := by
  refine Sound.bind (P := fun e' w' => Snapshot cfg e' w' ∧ Committed e') (.ite
    (fun hev => .pure ⟨he, .inl hev⟩) fun _ => commitQuality_sound he) fun e' w₁ h₁ he' => ?_
  refine .ite (fun _ => .ite (fun _ => failRelease_sound e') fun _ => .pure he'.1) fun hs =>
    .ite (fun _ => .pure he'.1) fun _ => ?_
  refine planRelease_sound he'.1 (he'.2.resolve_right fun hq => hs ?_) (h₁.ended hend)
  rw [hq]
  decide

theorem reconcileProvider_sound {e : Execution} (he : Snapshot cfg e w) :
    Sound cfg i w (reconcileProvider cfg digest e) fun e' w' => Snapshot cfg e' w' :=
  (providerSuccess_sound he).bind fun _ _ _ hs => (getOr_sound e).bind fun _ _ h₁ hl =>
    .ite (fun hok => settle_sound hl (h₁.ended (hs hok))) fun _ => .pure hl

theorem reconcileSubmission_sound {e : Execution} :
    Sound cfg i w (reconcileSubmission cfg digest e) fun e' w' => Snapshot cfg e' w' := by
  refine Sound.bind (.ask fun _ => trivial) fun service _ _ _ => ?_
  rcases service with _ | service
  · exact .raise _
  · refine (submit_sound service).attempt.bind fun o w₁ _ ho => ?_
    rcases o with x | e'
    · cases x with
      | build message =>
        exact (getOr_sound e).bind fun _ _ _ hl => .ite (fun _ =>
          (completeCheck_sound _ _ _ _).bind fun _ _ h₁ _ =>
          (completeCheck_sound _ _ _ _).bind fun _ _ h₂ _ => .pure ((hl.le h₁).le h₂))
          fun _ => .pure hl
      | _ => exact .raise _
    · exact reconcileProvider_sound (ho e' rfl)

theorem reconcileStatus_sound {e : Execution} (he : Snapshot cfg e w) :
    Sound cfg i w (reconcileStatus cfg digest e) fun e' w' => Snapshot cfg e' w' :=
  .ite (fun _ => .pure he) fun _ => .ite (fun _ => retryPlanner_sound he) fun _ =>
    .ite (fun _ => publishIfAllowed_sound he) fun _ => .ite (fun _ => recoverUnknown_sound he)
    fun _ => .ite (fun _ => publishIfAllowed_sound he) fun _ =>
    .ite (fun _ => reconcileSubmission_sound) fun _ => reconcileProvider_sound he

theorem noteDispatch_sound {e : Execution} (he : Snapshot cfg e w) :
    Sound cfg i w (noteDispatch cfg e) fun e' w' => Snapshot cfg e' w' :=
  .ite (fun _ => now_sound.bind fun _ _ h₁ _ => .ite
    (fun _ => save_plain (fields_free rfl)) fun _ => .pure (he.le h₁))
    fun _ => .pure he

theorem reconcile_sound :
    Sound cfg i w (reconcile cfg digest) fun e w' => Snapshot cfg e w' :=
  (getOrRaise_sound _).bind fun _ _ _ he => Sound.bind (.ask fun _ => trivial) fun _ _ h₁ _ =>
    .ite (fun _ => (reconcileQualityBootstrap_sound (he.le h₁) "").bind fun _ _ _ he' =>
      .ite (fun _ => .pure he') fun _ => (noteDispatch_sound he').bind fun _ _ _ hn =>
      reconcileStatus_sound hn)
      fun _ => (noteDispatch_sound (he.le h₁)).bind fun _ _ _ hn => reconcileStatus_sound hn

end Reconcile

end Release
