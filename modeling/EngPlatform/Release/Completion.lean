import EngPlatform.Release.Evidence

/-!
# A half-published release is completed

What a reconciliation without faults does to a release whose tag is there: it completes the
publication if the default branch still points to the release's commit. If it does not, the
publication is given up, although tag and plan are as they were.
-/

set_option linter.dupNamespace false

namespace Release

open Interleave

section Alone

variable {ι : Type} [DecidableEq ι] {cfg : Config} {digest : Digest} {o : Oracle} {i : ι}
  {w : World ι}

theorem perform_run (c : Call) : (perform c).run (honest cfg o i) w = honest cfg o i w c := by
  rw [perform, Prog.run]
  rcases h : honest cfg o i w c with ⟨w', x | v⟩ <;> rfl

/-- A request that is answered goes on with its answer. -/
theorem perform_bind {α : Type} {c : Call} {f : c.Val → Program α} (w' : World ι) (v : c.Val)
    (h : honest cfg o i w c = (w', .ok v)) :
    (perform c >>= f).run (honest cfg o i) w = (f v).run (honest cfg o i) w' := by
  rw [Prog.run_bind, perform_run, h]

theorem attempt_run {α : Type} (p : Program α) : (attempt p).run (honest cfg o i) w =
    ((p.run (honest cfg o i) w).1, .ok (p.run (honest cfg o i) w).2) := by
  rw [attempt, Prog.run_handle, Prog.run_bind]
  rcases p.run (honest cfg o i) w with ⟨w', x | a⟩ <;> rfl

theorem completeCheck_run (e : Execution) (kind conclusion summary : String) :
    (completeCheck e kind conclusion summary).run (honest cfg o i) w = (w, .ok ()) := by
  unfold completeCheck
  split_ifs
  · rw [perform_run]
    rfl
  · rfl

theorem save_run {cs cs' : List Change} {flag : Bool}
    (h : Tx.run cfg w.record (.save cs o.now) = .ok (cs', flag)) :
    (save cs).run (honest cfg o i) w =
      (w.store (.save cs o.now) cs' flag, .ok (update cs' w.record)) := by
  rw [save, perform_bind _ _ rfl, Prog.run_bind, perform_run, honest, h]
  simp [Tx.isClaim]

theorem save_run_error {cs : List Change} {x : Err}
    (h : Tx.run cfg w.record (.save cs o.now) = .error x) :
    (save cs).run (honest cfg o i) w = (w, .error x) := by
  rw [save, perform_bind _ _ rfl, Prog.run_bind, perform_run, honest, h]

end Alone

section Saves

variable {cfg : Config} {e : Execution} {cs : List Change}

/-- The fields that `save` checks beside the status. -/
def guarded (f : Field) : Bool :=
  f ∈ identityFields ∨ f.isBootstrap ∨ f ∈ ([.provider, .providerSelection, .triggerEvent] : List Field)

theorem changed_eq_false {f : Field} (h : ∀ c ∈ cs, c.1 ≠ f) : changed e cs f = false := by
  rw [changed, lookup_eq_none h]

/-- Changes of no guarded field are stored if their status may follow. -/
theorem save_ok (hd : e .ticketId ≠ qualityBootstrapTicketId) (hb : e .bootstrapTicketId = "")
    (hg : ∀ c ∈ cs, guarded c.1 = false) (hs : validateStatusChange e cs = .ok ()) (now : String) :
    Tx.run cfg e (.save cs now) = .ok (cs ++ [⟨.updatedAt, now⟩], true) := by
  have hg' : ∀ c ∈ cs ++ [⟨.updatedAt, now⟩], guarded c.1 = false := by
    intro c hc
    rcases List.mem_append.1 hc with hc | hc
    · exact hg c hc
    · rw [List.mem_singleton.1 hc]
      rfl
  have hnot : ∀ {p : Field → Bool}, (∀ f, guarded f = false → p f = false) →
      ∀ cs' : List Change, (∀ c ∈ cs', guarded c.1 = false) → (cs'.any fun c => p c.1) = false :=
    fun hp cs' h => List.any_eq_false.2 fun c hc => by rw [hp _ (h c hc)]; exact Bool.false_ne_true
  have hid := hnot (p := fun f => f ∈ identityFields) fun f hf => by
    simp only [guarded, decide_eq_false_iff_not] at hf ⊢
    tauto
  have hboot := hnot (p := Field.isBootstrap) fun f hf => by
    simp only [guarded, decide_eq_false_iff_not] at hf
    rcases hb : f.isBootstrap with _ | _
    · rfl
    · tauto
  have hprov : [.provider, .providerSelection, .triggerEvent].any
      (changed e (cs ++ [⟨.updatedAt, now⟩])) = false := by
    refine List.any_eq_false.2 fun f hf => ?_
    rw [changed_eq_false fun c hc hcf => ?_]
    · exact Bool.false_ne_true
    · have hgf := hg' c hc
      simp only [guarded, decide_eq_false_iff_not] at hgf
      rw [hcf] at hgf
      tauto
  have hst : validateStatusChange e (cs ++ [⟨.updatedAt, now⟩]) = .ok () := by
    rw [validateStatusChange, lookup_append, lookup_cons_ne (by decide), lookup_nil, Option.none_or]
    exact hs
  simp only [Tx.run, validateChanges, hid cs hg, hid _ hg', hboot _ hg', hprov, hd, hb, hst,
    Bool.false_eq_true, and_false, if_false, ne_eq, not_true_eq_false, Except.bind]

end Saves

section Publication

variable {ι : Type} [DecidableEq ι] {cfg : Config} {digest : Digest} {o : Oracle} {i : ι}
  {w : World ι} {e : Execution} {plan : Plan}

/-- The plan's tag is on the release's commit, and what Release there is of it is as planned. -/
structure HalfPublished (w : World ι) (e : Execution) (plan : Plan) : Prop where
  planned : e .releasePlan = some plan
  tag : plan.gitTag ≠ ""
  type : plan.releaseType ≠ .none
  ref : w.refs.find? (·.tag = plan.gitTag) = some ⟨plan.gitTag, e .headSha, false⟩
  release : ∀ r ∈ w.releases, r.tag = plan.gitTag →
    r.draft = false ∧ r.prerelease = false ∧ r.body = plan.notes

theorem ensureTag_run {tag sha : String}
    (h : w.refs.find? (·.tag = tag) = some ⟨tag, sha, false⟩) :
    (ensureTag tag sha).run (honest cfg o i) w = (w, .ok ()) := by
  rw [ensureTag, perform_bind w (some ⟨tag, sha, false⟩) (by rw [honest, h])]
  simp

theorem ensureRelease_run (cfg : Config) (o : Oracle) (i : ι) {tag notes : String} (sha : String) (h : ∀ r ∈ w.releases, r.tag = tag →
    r.draft = false ∧ r.prerelease = false ∧ r.body = notes) :
    ∃ w' r, (ensureRelease tag notes sha).run (honest cfg o i) w = (w', .ok r) ∧
      w'.record = w.record ∧ Released tag notes w' := by
  rcases hf : w.releases.find? (·.tag = tag) with _ | r
  · have hnone : ∀ release ∈ w.releases, release.tag ≠ tag := by simpa using hf
    rw [ensureRelease, perform_bind w none (by rw [honest, hf])]
    change ∃ w' r, (perform (.createRelease tag notes sha)).run _ w = _ ∧ _
    rw [perform_run, honest, if_pos hnone]
    exact ⟨_, _, rfl, rfl, _, List.mem_cons_self, rfl, rfl, rfl, rfl⟩
  · have hmem := List.mem_of_find?_eq_some hf
    have htag : r.tag = tag := by simpa using List.find?_some hf
    obtain ⟨hd, hp, hb⟩ := h r hmem htag
    refine ⟨w, r, ?_, rfl, r, hmem, htag, hb, hd, hp⟩
    rw [ensureRelease, perform_bind w (some r) (by rw [honest, hf])]
    simp [hd, hp, hb]

/-- A half-published release is published where the default branch is its commit. -/
theorem publishRelease_run (cfg : Config) (o : Oracle) (i : ι) (h : HalfPublished w e plan) (hh : w.head = e .headSha) :
    ∃ w' published, (publishRelease e).run (honest cfg o i) w = (w', .ok published) ∧
      w'.record = w.record ∧ Released plan.gitTag plan.notes w' ∧
      ∀ c ∈ published, guarded c.1 = false ∧ c.1 ≠ .status := by
  obtain ⟨w', r, hrun, hrec, hrel⟩ := ensureRelease_run cfg o i (e .headSha) h.release
  refine ⟨w', [⟨.extra "tag", plan.gitTag⟩, ⟨.extra "tag_sha", e .headSha⟩,
    ⟨.extra "release_id", r.id⟩, ⟨.extra "release_url", r.url⟩, ⟨.extra "published_at", o.now⟩],
    ?_, hrec, hrel, ?_⟩
  · rw [publishRelease, perform_bind _ _ rfl, perform_bind _ _ rfl, h.planned]
    simp only [h.tag, h.type, or_self, if_false]
    rw [perform_bind _ _ rfl, if_neg (not_not.2 hh), Prog.run_bind, ensureTag_run h.ref]
    simp only [Prog.run_bind, hrun]
    rfl
  · simp only [List.mem_cons, List.not_mem_nil, or_false]
    rintro c (rfl | rfl | rfl | rfl | rfl) <;> exact ⟨rfl, fun h => by cases h⟩

/-- Where the default branch has moved on, it is given up before anything is looked at. -/
theorem publishRelease_moved (h : HalfPublished w e plan) (hh : w.head ≠ e .headSha) :
    (publishRelease e).run (honest cfg o i) w =
      (w, .error (.conflict "Default branch moved after release validation")) := by
  rw [publishRelease, perform_bind _ _ rfl, perform_bind _ _ rfl, h.planned]
  simp only [h.tag, h.type, or_self, if_false]
  rw [perform_bind _ _ rfl, if_pos hh]
  rfl

/-- The statuses in which a publication may be half done. -/
def unfinished (e : Execution) : Prop :=
  e .status = .publishPending ∨ e .status = .unknown ∧ e .publicationUncertain = true

theorem recordPublication_released (cfg : Config) (o : Oracle) (i : ι) {published : List Change}
    (hd : w.record .ticketId ≠ qualityBootstrapTicketId) (hb : w.record .bootstrapTicketId = "")
    (hs : .released ∈ transitions (w.record .status))
    (hp : ∀ c ∈ published, guarded c.1 = false ∧ c.1 ≠ .status) :
    ((recordPublication (.ok published)).run (honest cfg o i) w).1.record .status = .released ∧
      ((recordPublication (.ok published)).run (honest cfg o i) w).1.releases = w.releases := by
  set cs : List Change := [⟨.status, .released⟩, ⟨.publicationUncertain, false⟩] ++ published
  have hl : lookup .status cs = some .released := by
    rw [lookup_append, lookup_eq_none fun c hc => (hp c hc).2]
    rfl
  have hvalid : validateStatusChange w.record cs = .ok () := by
    rw [validateStatusChange, hl]
    simp [hb, hs]
  have hguard : ∀ c ∈ cs, guarded c.1 = false := by
    intro c hc
    rcases List.mem_append.1 hc with hc | hc
    · rcases List.mem_cons.1 hc with rfl | hc
      · rfl
      · rw [List.mem_singleton.1 hc]
        rfl
    · exact (hp c hc).1
  have hsave : Tx.run cfg w.record (.save cs o.now) = _ := save_ok hd hb hguard hvalid o.now
  rw [recordPublication, Prog.run_bind, save_run hsave]
  simp only [Prog.run_bind, completeCheck_run]
  refine ⟨?_, rfl⟩
  rw [Prog.pure_def, Prog.run_done, store_record]
  refine update_of_some ?_
  rw [lookup_append, lookup_cons_ne (by decide), lookup_nil, Option.none_or, hl]

/-- A conflict does not end in `released`. -/
theorem recordPublication_conflict {message : String} (hs : w.record .status ≠ .released) :
    ((recordPublication (.error (.conflict message))).run (honest cfg o i) w).1.record .status ≠
      .released := by
  rw [recordPublication, Prog.run_bind]
  rcases hr : Tx.run cfg w.record (.save [⟨.status, .unknown⟩, ⟨.error, message⟩] o.now) with
    x | ⟨cs, flag⟩
  · rw [save_run_error hr]
    exact hs
  · rw [save_run hr, save_changes hr]
    simp only [Prog.run_bind, completeCheck_run, Prog.pure_def, Prog.run_done, store_record]
    nofun

/-- A reconciliation without faults of a half-published release comes to publish it. -/
theorem reconcile_run (hb : w.record .bootstrapTicketId = "") (hu : unfinished w.record)
    (hp : Permitted cfg w) : ((reconcile cfg digest).run (honest cfg o i) w).1 =
      ((recordPublication ((publishRelease w.record).run (honest cfg o i) w).2).run
        (honest cfg o i) ((publishRelease w.record).run (honest cfg o i) w).1).1 := by
  have hauto : ¬(¬automatic cfg w.record = true ∧ ¬w.record .canaryApproved = true) := by
    rcases hp with hp | hp <;> simp [hp]
  have hclaimed : (publishClaimed w.record).run (honest cfg o i) w =
      (recordPublication ((publishRelease w.record).run (honest cfg o i) w).2).run
        (honest cfg o i) ((publishRelease w.record).run (honest cfg o i) w).1 := by
    rw [publishClaimed, if_neg, if_neg, Prog.run_bind, attempt_run]
    · rintro ⟨hs, hc⟩
      rcases hu with hu | hu
      · rw [hu] at hs
        cases hs
      · exact hc hu.2
    · rcases hu with hu | hu
      · simp [hu]
      · simp [hu.1]
  have hallowed : (publishIfAllowed cfg w.record).run (honest cfg o i) w =
      (publishClaimed w.record).run (honest cfg o i) w := by
    rw [publishIfAllowed, perform_bind _ _ rfl, if_neg hauto, if_neg]
    rcases hu with hu | hu
    · simp [hu]
    · simp [hu.1]
  have hstatus : reconcileStatus cfg digest w.record = publishIfAllowed cfg w.record := by
    rcases hu with hu | ⟨hu, hc⟩ <;> simp [reconcileStatus, *]
  have hnote : noteDispatch cfg w.record = pure w.record := by
    rcases hu with hu | ⟨hu, -⟩ <;> simp [noteDispatch, hu]
  rw [reconcile, getOrRaise, Prog.run_bind, perform_bind _ _ rfl]
  simp only [Prog.pure_def, Prog.run_done]
  rw [perform_bind _ _ rfl, if_neg (by simp [hb]), hnote, Prog.pure_def, Prog.done_bind, hstatus,
    hallowed, hclaimed]

/-- It ends released, with the Release there, if and only if the default branch has not moved. -/
theorem half_published_completed {plan : Plan} (h : HalfPublished w w.record plan)
    (hd : w.record .ticketId ≠ qualityBootstrapTicketId) (hb : w.record .bootstrapTicketId = "")
    (hu : unfinished w.record) (hp : Permitted cfg w) :
    (((reconcile cfg digest).run (honest cfg o i) w).1.record .status = .released ∧
      Released plan.gitTag plan.notes ((reconcile cfg digest).run (honest cfg o i) w).1) ↔
      w.head = w.record .headSha := by
  rw [reconcile_run hb hu hp]
  refine ⟨fun hr => ?_, fun hh => ?_⟩
  · by_contra hh
    rw [publishRelease_moved h hh] at hr
    refine recordPublication_conflict (fun hs => ?_) hr.1
    rcases hu with hu | hu
    · rw [hu] at hs
      cases hs
    · rw [hu.1] at hs
      cases hs
  · obtain ⟨w', published, hrun, hrec, hrel, hplain⟩ :=
      publishRelease_run cfg o i h hh
    rw [hrun]
    have hs : .released ∈ transitions (w'.record .status) := by
      rw [hrec]
      rcases hu with hu | hu
      · rw [hu]
        decide
      · rw [hu.1]
        decide
    obtain ⟨hst, hsame⟩ := recordPublication_released cfg o i
      (by rw [hrec]; exact hd) (by rw [hrec]; exact hb) hs hplain
    refine ⟨hst, ?_⟩
    unfold Released
    rw [hsame]
    exact hrel

end Publication

section Runs

variable {ι : Type} [DecidableEq ι] {cfg : Config} {digest : Digest} {w w' : World ι}

/-- A request leaves what GitHub answers for a tag that exists. -/
theorem sem_refs {i : ι} {e : Call} {r : e.Ans} (h : sem cfg i w e w' r) {tag : String} {ref : Ref}
    (hf : w.refs.find? (·.tag = tag) = some ref) : w'.refs.find? (·.tag = tag) = some ref := by
  cases sem_effect h with
  | @tag tag' sha hnew =>
    have hne : tag' ≠ tag := by
      rintro rfl
      exact hnew ref (List.mem_of_find?_eq_some hf) (by simpa using List.find?_some hf)
    rw [List.find?_cons_of_neg (by simpa using hne)]
    exact hf
  | _ => exact hf

omit [DecidableEq ι] in
/-- The execution's own tag is the one that GitHub answers with. -/
theorem Inv.find_madeRef (hI : Inv cfg w) {tag : String} (ht : tag ∈ w.madeRefs) :
    w.refs.find? (·.tag = tag) = some ⟨tag, w.record .headSha, false⟩ := by
  obtain ⟨ref, hf⟩ : ∃ ref, w.refs.find? (·.tag = tag) = some ref := by
    rw [← Option.isSome_iff_exists, List.find?_isSome]
    exact ⟨_, (hI.madeRef tag ht).1, by simp⟩
  rw [hf, hI.alone tag ht ref (List.mem_of_find?_eq_some hf) (by simpa using List.find?_some hf)]

omit [DecidableEq ι] in
/-- With one granted plan, its tag is the only one that is made. -/
theorem OnePlan.madeRef (hI : Inv cfg w) (hone : OnePlan w) {tag : String}
    (ht : tag ∈ w.madeRefs) : ∃ plan, w.record .releasePlan = some plan ∧ plan.gitTag = tag ∧
      tag ≠ "" ∧ plan.releaseType ≠ .none := by
  obtain ⟨-, -, -, plan, hg, hrest⟩ := hI.madeRef tag ht
  exact ⟨plan, (hone _ hg).symm, hrest⟩

theorem nodup_le_one {l : List String} (hl : l.Nodup) (h : ∀ a ∈ l, ∀ b ∈ l, a = b) :
    l.length ≤ 1 := by
  rcases l with _ | ⟨a, _ | ⟨b, l⟩⟩
  · exact Nat.zero_le _
  · exact Nat.le_refl _
  · obtain rfl := h a (by simp) b (by simp)
    simp at hl

omit [DecidableEq ι] in
theorem OnePlan.madeRefs_le (hI : Inv cfg w) (hone : OnePlan w) : w.madeRefs.length ≤ 1 := by
  refine nodup_le_one hI.madeRefs fun tag ht tag' ht' => ?_
  obtain ⟨plan, hp, rfl, -⟩ := hone.madeRef hI ht
  obtain ⟨plan', hp', rfl, -⟩ := hone.madeRef hI ht'
  rw [Option.some.inj (hp.symm.trans hp')]

omit [DecidableEq ι] in
theorem OnePlan.madeReleases_le (hI : Inv cfg w) (hone : OnePlan w) :
    w.madeReleases.length ≤ 1 := by
  refine nodup_le_one hI.madeReleases fun tag ht tag' ht' => ?_
  obtain ⟨-, -, plan, hg, rfl⟩ := hI.madeRelease tag ht
  obtain ⟨-, -, plan', hg', rfl⟩ := hI.madeRelease tag' ht'
  rw [Option.some.inj ((hone _ hg).trans (hone _ hg').symm)]

omit [DecidableEq ι] in
/-- A release whose tag was made is half published. -/
theorem OnePlan.halfPublished (hI : Inv cfg w) (hone : OnePlan w) (hm : w.madeRefs ≠ []) :
    ∃ plan, HalfPublished w w.record plan := by
  obtain ⟨tag, ht⟩ := List.exists_mem_of_ne_nil _ hm
  obtain ⟨plan, hp, rfl, htag, htype⟩ := hone.madeRef hI ht
  refine ⟨plan, hp, htag, htype, hI.find_madeRef ht, fun r hr hrt => ?_⟩
  obtain ⟨hd, hpre, plan', hg, -, hb⟩ := hI.ours _ ht r hr hrt
  rw [Option.some.inj ((hone _ hg).trans hp)] at hb
  exact ⟨hd, hpre, hb⟩

/-- What holds of an execution that is published at most once: its one tag is on its commit, and
`released` means that tag and Release are there as planned. -/
structure PublishedOnce (cfg : Config) (w : World ι) : Prop where
  tags : w.madeRefs.length ≤ 1
  releases : w.madeReleases.length ≤ 1
  commit : ∀ tag ∈ w.madeRefs,
    w.refs.find? (·.tag = tag) = some ⟨tag, w.record .headSha, false⟩
  released : w.record .status = .released → ∃ plan, w.record .releasePlan = some plan ∧
    (∃ ref ∈ w.refs, ref.tag = plan.gitTag ∧ ref.commit cfg = w.record .headSha) ∧
    Released plan.gitTag plan.notes w

omit [DecidableEq ι] in
theorem OnePlan.publishedOnce (hI : Inv cfg w) (hone : OnePlan w) :
    PublishedOnce cfg w where
  tags := hone.madeRefs_le hI
  releases := hone.madeReleases_le hI
  commit := fun _ ht => hI.find_madeRef ht
  released := fun hs => by
    obtain ⟨plan, hg, href, hrel⟩ := hI.released hs
    exact ⟨plan, (hone _ hg).symm, href, hrel⟩

variable {callers : ι → Caller} {c₁ c : Conf ι (World ι) Call.Ans Err Unit}

/-- No tag that exists is moved or replaced, one tag and one Release are made at most, `released`
means that both are there as planned; and of a release whose tag was made, whose publication is
pending or uncertain, a reconciliation without faults ends released, with the Release there, if and
only if the default branch has not moved. -/
theorem half_published (h : Reserved w)
    (hr₁ : Runs cfg (KeepsPlan cfg) (calls cfg digest w callers) c₁)
    (hr : Runs cfg (KeepsPlan cfg) c₁ c) :
    (∀ tag ref, c₁.state.refs.find? (·.tag = tag) = some ref →
      c.state.refs.find? (·.tag = tag) = some ref) ∧
    PublishedOnce cfg c.state ∧
    (c.state.madeRefs ≠ [] → unfinished c.state.record →
      ∃ plan, c.state.record .releasePlan = some plan ∧ ∀ (o : Oracle) (i : ι),
        (((reconcile cfg digest).run (honest cfg o i) c.state).1.record .status = .released ∧
          Released plan.gitTag plan.notes
            ((reconcile cfg digest).run (honest cfg o i) c.state).1) ↔
        c.state.head = c.state.record .headSha) := by
  have hI := runs_inv h.inv (hr₁.trans hr)
  have hone := onePlan_run h (hr₁.trans hr)
  refine ⟨fun tag ref hf => ?_, hone.publishedOnce hI, fun hm hu => ?_⟩
  · refine reach_invariant (D := discipline ι cfg) anyEnd_stable
      (J := fun w => w.refs.find? (·.tag = tag) = some ref)
      (fun i s e s' r _ hJ _ _ hs => sem_refs hs hJ) (fun s s' _ hJ hm => ?_)
      (runs_good h.inv hr₁) hf hr
    obtain ⟨head, rfl⟩ := hm
    exact hJ
  · obtain ⟨tag, ht⟩ := List.exists_mem_of_ne_nil _ hm
    obtain ⟨plan, hp⟩ := hone.halfPublished hI hm
    obtain ⟨-, hc, hperm, -⟩ := hI.madeRef tag ht
    obtain ⟨hticket, hdoc⟩ := (runs_le h.inv (hr₁.trans hr)).ticket
    have hb : c.state.record .bootstrapTicketId = "" := by
      by_contra hb
      have hop := h.bootstrap (by rwa [hticket] at hb)
      rw [← (runs_le h.inv (hr₁.trans hr)).identity .operation (by decide), hI.main hc] at hop
      cases hop
    exact ⟨plan, hp.planned, fun o i =>
      half_published_completed hp (by rw [hdoc]; exact h.document) hb hu hperm⟩

end Runs

section Demo

/-- The tag is made, and the making of the Release times out. -/
def halfway : List Act :=
  planning ++ answered 24 3 "SUCCESS" ++ [Act.timeout 3] ++ answered 3 3 "SUCCESS"

/-- The two runs, evaluated together: they share their steps. -/
theorem halfway_state :
    ((releaseCalls [.reconcile]).Meets (KeepsPlan plannerConfig) (halfway.map Act.turn) ∧
      (released [.reconcile] halfway).state.madeRefs ≠ [] ∧
      (released [.reconcile] halfway).state.record .status = .unknown ∧
      (released [.reconcile] halfway).state.record .publicationUncertain = true ∧
      (released [.reconcile] halfway).state.head =
        (released [.reconcile] halfway).state.record .headSha) ∧
    (releaseCalls [.reconcile]).Meets (KeepsPlan plannerConfig)
      ((halfway ++ [Act.push "other"]).map Act.turn) ∧
    (released [.reconcile] (halfway ++ [Act.push "other"])).state.madeRefs ≠ [] ∧
    (released [.reconcile] (halfway ++ [Act.push "other"])).state.record .status = .unknown ∧
    (released [.reconcile] (halfway ++ [Act.push "other"])).state.record .publicationUncertain = true ∧
    ((reconcile plannerConfig demoDigest).run (honest plannerConfig (answers "SUCCESS") 4)
      (released [.reconcile] (halfway ++ [Act.push "other"])).state).1.record .status ≠ .released := by
  decide +kernel

theorem half_published_demo :
    ((reconcile plannerConfig demoDigest).run (honest plannerConfig (answers "SUCCESS") 4)
      (released [.reconcile] halfway).state).1.record .status = .released := by
  obtain ⟨hmeets, hmade, hstatus, huncertain, hhead⟩ := halfway_state.1
  obtain ⟨-, -, hfin⟩ := half_published reserved_world .refl
    (released_runs [.reconcile] halfway hmeets)
  obtain ⟨plan, -, hiff⟩ := hfin hmade (.inr ⟨hstatus, huncertain⟩)
  exact ((hiff _ _).2 hhead).1

/-- A commit is pushed to the default branch while the Release is missing. -/
theorem half_published_abandoned : ¬∀ (cfg : Config) (digest : Digest) (w : World Slot)
    (callers : Slot → Caller) (c : Conf Slot (World Slot) Call.Ans Err Unit) (o : Oracle)
    (i : Slot), Reserved w → Runs cfg (KeepsPlan cfg) (calls cfg digest w callers) c →
    c.state.madeRefs ≠ [] → unfinished c.state.record →
    ((reconcile cfg digest).run (honest cfg o i) c.state).1.record .status = .released := by
  intro h
  obtain ⟨hmeets, hmade, hstatus, huncertain, hend⟩ := halfway_state.2
  exact hend (h _ _ _ _ _ (answers "SUCCESS") 4 reserved_world
    (released_runs [.reconcile] (halfway ++ [Act.push "other"]) hmeets) hmade
    (.inr ⟨hstatus, huncertain⟩))

end Demo

end Release
