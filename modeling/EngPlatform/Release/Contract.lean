import EngPlatform.Release.Orchestrator

/-!
# The contract of the programs

What the programs that act on one execution keep to, whatever the others do. `Le` is what never
goes back: the identity, a claimed publication, committed evidence, what was seen and what is on
GitHub. `Inv` is what the record says about the world. `Allowed` is what a request has to respect,
and `discipline` states that allowed requests keep `Inv` and only move along `Le`.
-/

set_option linter.dupNamespace false

namespace Release

open Interleave

def SameIdentity (e e' : Execution) : Prop := ∀ f ∈ identityFields, e' f = e f

section Facts

variable {ι : Type} (cfg : Config) (w : World ι)

def Claimed : Prop := w.record .publishClaimedAt ≠ ""

instance : Decidable (Claimed w) := inferInstanceAs (Decidable (w.record .publishClaimedAt ≠ ""))

/-- A report for the execution's commit is committed that passed its gate and every policy. -/
def Backed : Prop := ∃ r ∈ w.committed, r.commitSha = w.record .headSha ∧
  r.gateStatus = "PASSED" ∧ ∃ service, cfg.policyErrors r service = []

/-- The provider's run was seen to have ended: a verified build of this execution that succeeded,
or that failed after a quality report, or a workflow run that GitHub reported as ended. -/
def Ended : Prop := w.record .providerTerminalSuccess = true ∨
  ∃ b ∈ w.seen, ∃ e, SameIdentity e w.record ∧ verifyBuild cfg e b "" = .ok () ∧
    (b.state = "SUCCESS" ∨ b.state = "FAILURE" ∧ w.record .pendingReportHash ≠ "")

/-- A plan that was stored since the publication was granted is published. -/
def Published : Prop := ∃ plan, some plan ∈ w.grants ∧
  (∃ ref ∈ w.refs, ref.tag = plan.gitTag ∧ ref.commit cfg = w.record .headSha) ∧
  ∃ r ∈ w.releases, r.tag = plan.gitTag ∧ r.body = plan.notes ∧ r.draft = false ∧
    r.prerelease = false

/-- The execution may be published: automatically, or by an approval. -/
def Permitted : Prop := automatic cfg w.record = true ∨ w.record .canaryApproved = true

/-- A plan to publish, of those stored since the publication was granted, with its tag. -/
def Planned (tag : String) (plan : Plan) : Prop :=
  some plan ∈ w.grants ∧ plan.gitTag = tag ∧ tag ≠ "" ∧ plan.releaseType ≠ .none

/-- The statuses that no program writes. -/
def improper : Status → Bool
  | .received | .submissionFailed | .blank | .other _ => true
  | _ => false

/-- What has to hold where a status is written, by the changes that carry it. -/
def StatusSafe (cs : List Change) : Status → Prop
  | .publishPending => (lookup .publishClaimedAt cs).isSome = true
  | .releasePlanned => w.record .evidenceCommitted = true ∧ Ended cfg w
  | .qualityPassed => lookup .evidenceCommitted cs = some true
  | .released => Published cfg w
  | s => improper s = false

/-- Changes that may be stored. -/
structure Safe (cs : List Change) : Prop where
  identity : ∀ f ∈ identityFields, lookup f cs = none
  ticket : lookup .bootstrapTicketId cs = none ∧ lookup .ticketId cs = none
  main : (lookup .publishClaimedAt cs).isSome = true → w.record .operation = .mainRelease
  claim : ∀ v, lookup .publishClaimedAt cs = some v →
    v ≠ "" ∧ w.record .evidenceCommitted = true ∧ Ended cfg w ∧
      lookup .status cs = some .publishPending
  evidence : ∀ v, lookup .evidenceCommitted cs = some v → v = true ∧ Backed cfg w
  canary : ∀ v, lookup .canaryApproved cs = some v → v = true
  terminal : ∀ v, lookup .providerTerminalSuccess cs = some v → v = true
  pending : ∀ v, lookup .pendingReportHash cs = some v → v ≠ ""
  uncertain : lookup .publicationUncertain cs = some true → Claimed w
  status : ∀ s, lookup .status cs = some s → StatusSafe cfg w cs s

/-- What the record says about the world. -/
structure Inv : Prop where
  pending : w.record .status = .publishPending → Claimed w
  uncertain : w.record .publicationUncertain = true → Claimed w
  main : Claimed w → w.record .operation = .mainRelease
  claimed : Claimed w → w.record .evidenceCommitted = true ∧ Ended cfg w ∧ w.grants ≠ []
  planned : w.record .status = .releasePlanned →
    w.record .evidenceCommitted = true ∧ Ended cfg w
  passed : w.record .status = .qualityPassed → w.record .evidenceCommitted = true
  backed : w.record .evidenceCommitted = true → Backed cfg w
  released : w.record .status = .released → Published cfg w
  proper : improper (w.record .status) = false
  granted : w.grants ≠ [] → w.record .releasePlan ∈ w.grants
  tagged : ∀ r ∈ w.releases, ∃ ref ∈ w.refs, ref.tag = r.tag
  madeRef : ∀ tag ∈ w.madeRefs, ⟨tag, w.record .headSha, false⟩ ∈ w.refs ∧ Claimed w ∧
    Permitted cfg w ∧ ∃ plan, Planned w tag plan
  madeRefs : w.madeRefs.Nodup
  alone : ∀ tag ∈ w.madeRefs, ∀ ref ∈ w.refs, ref.tag = tag → ref = ⟨tag, w.record .headSha, false⟩
  madeRelease : ∀ tag ∈ w.madeReleases, Claimed w ∧ (∃ r ∈ w.releases, r.tag = tag) ∧
    ∃ plan, some plan ∈ w.grants ∧ plan.gitTag = tag
  madeReleases : w.madeReleases.Nodup
  ours : ∀ tag ∈ w.madeRefs, ∀ r ∈ w.releases, r.tag = tag → r.draft = false ∧
    r.prerelease = false ∧ ∃ plan, some plan ∈ w.grants ∧ plan.gitTag = tag ∧ r.body = plan.notes

end Facts

/-- What never goes back. -/
structure Le {ι : Type} (w w' : World ι) : Prop where
  identity : SameIdentity w.record w'.record
  ticket : w'.record .bootstrapTicketId = w.record .bootstrapTicketId ∧
    w'.record .ticketId = w.record .ticketId
  claimed : Claimed w → Claimed w'
  evidence : w.record .evidenceCommitted = true → w'.record .evidenceCommitted = true
  canary : w.record .canaryApproved = true → w'.record .canaryApproved = true
  terminal : w.record .providerTerminalSuccess = true → w'.record .providerTerminalSuccess = true
  pending : w.record .pendingReportHash ≠ "" → w'.record .pendingReportHash ≠ ""
  committed : w.committed ⊆ w'.committed
  seen : w.seen ⊆ w'.seen
  grants : w.grants ⊆ w'.grants
  refs : w.refs ⊆ w'.refs
  releases : w.releases ⊆ w'.releases

section Order

variable {ι : Type} {cfg : Config} {w w' w'' : World ι}

theorem Le.refl (w : World ι) : Le w w where
  identity := fun _ _ => rfl
  ticket := ⟨rfl, rfl⟩
  claimed := id
  evidence := id
  canary := id
  terminal := id
  pending := id
  committed := List.Subset.refl _
  seen := List.Subset.refl _
  grants := List.Subset.refl _
  refs := List.Subset.refl _
  releases := List.Subset.refl _

theorem Le.trans (h : Le w w') (h' : Le w' w'') : Le w w'' where
  identity := fun f hf => (h'.identity f hf).trans (h.identity f hf)
  ticket := ⟨h'.ticket.1.trans h.ticket.1, h'.ticket.2.trans h.ticket.2⟩
  claimed := h'.claimed ∘ h.claimed
  evidence := h'.evidence ∘ h.evidence
  canary := h'.canary ∘ h.canary
  terminal := h'.terminal ∘ h.terminal
  pending := h'.pending ∘ h.pending
  committed := List.Subset.trans h.committed h'.committed
  seen := List.Subset.trans h.seen h'.seen
  grants := List.Subset.trans h.grants h'.grants
  refs := List.Subset.trans h.refs h'.refs
  releases := List.Subset.trans h.releases h'.releases

theorem Le.headSha (h : Le w w') : w'.record .headSha = w.record .headSha :=
  h.identity .headSha (by decide)

theorem Le.serviceName (h : Le w w') : w'.record .serviceName = w.record .serviceName :=
  h.identity .serviceName (by decide)

theorem Le.backed (h : Le w w') : Backed cfg w → Backed cfg w' := by
  rintro ⟨r, hr, hsha, hrest⟩
  exact ⟨r, h.committed hr, by rw [hsha, h.headSha], hrest⟩

theorem Le.ended (h : Le w w') : Ended cfg w → Ended cfg w' := by
  rintro (ht | ⟨b, hb, e, he, hv, hs⟩)
  · exact .inl (h.terminal ht)
  · refine .inr ⟨b, h.seen hb, e, fun f hf => (h.identity f hf).trans (he f hf), hv, ?_⟩
    exact hs.imp_right fun ⟨hf, hp⟩ => ⟨hf, h.pending hp⟩

theorem Le.published (h : Le w w') : Published cfg w → Published cfg w' := by
  rintro ⟨plan, hp, ⟨ref, hr, htag, hc⟩, r, hrel, hrest⟩
  exact ⟨plan, h.grants hp, ⟨ref, h.refs hr, htag, by rw [hc, h.headSha]⟩, r, h.releases hrel, hrest⟩

theorem automatic_congr {e e' : Execution} (h : SameIdentity e e') :
    automatic cfg e' = automatic cfg e := by
  unfold automatic
  rw [h .serviceName (by decide)]

theorem Le.permitted (h : Le w w') : Permitted cfg w → Permitted cfg w' := by
  rintro (ha | hc)
  · exact .inl (by rw [automatic_congr h.identity, ha])
  · exact .inr (h.canary hc)

end Order

section Stored

variable {ι : Type} {cfg : Config} {w : World ι} {t : Tx} {cs : List Change} {flag : Bool}

theorem Safe.nil : Safe cfg w [] := by
  constructor <;> simp

theorem store_record (w : World ι) (t : Tx) (cs : List Change) (flag : Bool) :
    (w.store t cs flag).record = update cs w.record := rfl

theorem store_retired (w : World ι) (t : Tx) (cs : List Change) (flag : Bool) :
    (w.store t cs flag).retired = (w.retired || lookup .status cs = some .superseded) := rfl

theorem store_cancelled (w : World ι) (t : Tx) (cs : List Change) (flag : Bool) :
    (w.store t cs flag).cancelled = (w.cancelled || (t.isCancel && flag)) := rfl

/-- A flag that is only ever raised stays raised. -/
theorem update_raised {f : Field} {e : Execution} {P : f.Val → Prop}
    (h : ∀ v, lookup f cs = some v → P v) (he : P (e f)) : P (update cs e f) := by
  rcases hl : lookup f cs with _ | v
  · rwa [update_of_none hl]
  · rw [update_of_some hl]
    exact h v hl

theorem grants_store (w : World ι) (t : Tx) (cs : List Change) (flag : Bool) :
    w.grants ⊆ (w.store t cs flag).grants := by
  intro p hp
  have hne : w.grants ≠ [] := List.ne_nil_of_mem hp
  simp only [World.store, hne, ne_eq, not_false_eq_true, or_true, if_true]
  exact List.mem_cons_of_mem _ hp

/-- Storing safe changes never goes back. -/
theorem Safe.le (h : Safe cfg w cs) : Le w (w.store t cs flag) where
  identity := fun f hf => update_of_none (h.identity f hf)
  ticket := ⟨update_of_none h.ticket.1, update_of_none h.ticket.2⟩
  claimed := update_raised (f := .publishClaimedAt) (P := fun s => s ≠ "") fun v hv =>
    (h.claim v hv).1
  evidence := update_raised (f := .evidenceCommitted) (P := fun b => b = true) fun v hv =>
    (h.evidence v hv).1
  canary := update_raised (f := .canaryApproved) (P := fun b => b = true) h.canary
  terminal := update_raised (f := .providerTerminalSuccess) (P := fun b => b = true) h.terminal
  pending := update_raised (f := .pendingReportHash) (P := fun s => s ≠ "") h.pending
  committed := List.Subset.refl _
  seen := List.Subset.refl _
  grants := grants_store w t cs flag
  refs := List.Subset.refl _
  releases := List.Subset.refl _

/-- How a field reads after an update: as before, or as written. -/
theorem update_cases {f : Field} {e : Execution} {v : f.Val} (h : update cs e f = v) :
    (lookup f cs = none ∧ e f = v) ∨ lookup f cs = some v := by
  rcases hl : lookup f cs with _ | v'
  · exact .inl ⟨rfl, by rwa [update_of_none hl] at h⟩
  · rw [update_of_some hl] at h
    exact .inr (by rw [h])

theorem grants_ne (h : isGrant cs = true ∨ w.grants ≠ []) : (w.store t cs flag).grants ≠ [] := by
  unfold World.store
  rw [if_pos h]
  exact List.cons_ne_nil _ _

/-- Storing safe changes keeps the invariant. -/
theorem Safe.inv (h : Safe cfg w cs) (hI : Inv cfg w) : Inv cfg (w.store t cs flag) := by
  have hle : Le w (w.store t cs flag) := h.le
  have hgrant : ∀ p, p ∈ w.grants → p ∈ (w.store t cs flag).grants := fun p hp => hle.grants hp
  refine
    { pending := fun hs => ?_, uncertain := fun hu => ?_, main := fun hc => ?_,
      claimed := fun hc => ?_, planned := fun hs => ?_, passed := fun hs => ?_, backed := fun he => ?_,
      released := fun hs => ?_, proper := ?_, granted := fun hg => ?_, tagged := hI.tagged,
      madeRef := fun tag ht => ?_, madeRefs := hI.madeRefs, alone := fun tag ht => ?_,
      madeRelease := fun tag ht => ?_, madeReleases := hI.madeReleases, ours := fun tag ht r hr hrt => ?_ }
  · rcases update_cases hs with ⟨-, hs⟩ | hs
    · exact hle.claimed (hI.pending hs)
    · obtain ⟨v, hv⟩ := Option.isSome_iff_exists.1 (h.status _ hs)
      intro h0
      rw [store_record, update_of_some hv] at h0
      exact (h.claim v hv).1 h0
  · rcases update_cases hu with ⟨-, hu⟩ | hu
    · exact hle.claimed (hI.uncertain hu)
    · exact hle.claimed (h.uncertain hu)
  · rw [hle.identity .operation (by decide)]
    rcases hl : lookup .publishClaimedAt cs with _ | v
    · exact hI.main fun h0 => hc (by rw [store_record, update_of_none hl, h0])
    · exact h.main (by rw [hl]; rfl)
  · rcases hl : lookup .publishClaimedAt cs with _ | v
    · have hc' : Claimed w := by
        intro h0
        exact hc (by rw [store_record, update_of_none hl, h0])
      obtain ⟨he, hend, hg⟩ := hI.claimed hc'
      exact ⟨hle.evidence he, hle.ended hend, grants_ne (.inr hg)⟩
    · obtain ⟨-, he, hend, -⟩ := h.claim v hl
      exact ⟨hle.evidence he, hle.ended hend, grants_ne (.inl (by simp [isGrant, hl]))⟩
  · have hp : w.record .evidenceCommitted = true ∧ Ended cfg w := by
      rcases update_cases hs with ⟨-, hs⟩ | hs
      · exact hI.planned hs
      · exact h.status _ hs
    exact ⟨hle.evidence hp.1, hle.ended hp.2⟩
  · rcases update_cases hs with ⟨-, hs⟩ | hs
    · exact hle.evidence (hI.passed hs)
    · exact update_of_some (h.status _ hs)
  · rcases update_cases he with ⟨-, he⟩ | he
    · exact hle.backed (hI.backed he)
    · exact hle.backed (h.evidence _ he).2
  · rcases update_cases hs with ⟨-, hs⟩ | hs
    · exact hle.published (hI.released hs)
    · exact hle.published (h.status _ hs)
  · have hu : update cs w.record .status = update cs w.record .status := rfl
    rcases update_cases hu with ⟨-, hs⟩ | hs
    · rw [store_record, ← hs]
      exact hI.proper
    · rw [store_record]
      have hst := h.status _ hs
      revert hst
      generalize update cs w.record .status = s
      rcases s with _ | _ | _ | _ | _ | _ | _ | _ | _ | _ | _ | _ | _ | _ | _ | _ | _ <;>
        simp [StatusSafe, improper]
  · rw [store_record]
    unfold World.store at hg ⊢
    split_ifs at hg ⊢ with hc
    · exact List.mem_cons_self
    · exact absurd rfl hg
  · obtain ⟨hr, hc, hp, plan, hg, hrest⟩ := hI.madeRef tag ht
    refine ⟨?_, hle.claimed hc, hle.permitted hp, plan, hgrant _ hg, hrest⟩
    rw [hle.headSha]
    exact hr
  · rw [hle.headSha]
    exact hI.alone tag ht
  · obtain ⟨hc, hr, plan, hg, hrest⟩ := hI.madeRelease tag ht
    exact ⟨hle.claimed hc, hr, plan, hgrant _ hg, hrest⟩
  · obtain ⟨hd, hpre, plan, hg, hrest⟩ := hI.ours tag ht r hr hrt
    exact ⟨hd, hpre, plan, hgrant _ hg, hrest⟩

end Stored

section Discipline

variable {ι : Type} (cfg : Config)

/-- What a request has to respect: a transaction stores only safe changes, a build is posted under
a granted claim, and GitHub is asked for a tag and a Release of a claimed and permitted
publication, as planned. -/
def Allowed (i : ι) (w : World ι) : Call → Prop
  | .tx t => ∀ cs flag, t.run cfg w.record = .ok (cs, flag) → Safe cfg w cs
  | .postBuild _ => w.permit i = true
  | .publishing e => Claimed w ∧ Permitted cfg w ∧ (e .releasePlan : Option Plan) ∈ w.grants
  | .createRef tag sha => Claimed w ∧ Permitted cfg w ∧ sha = w.record .headSha ∧
    ∃ plan, Planned w tag plan
  | .createRelease tag body _ => Claimed w ∧ (∃ ref ∈ w.refs, ref.tag = tag) ∧
    ∃ plan, some plan ∈ w.grants ∧ plan.gitTag = tag ∧ plan.notes = body
  | _ => True

variable {cfg} {i : ι} {w w' : World ι}

/-- The record and what is on GitHub are the same, and no less was seen and committed. -/
theorem Le.of_same (hr : w'.record = w.record) (hg : w'.grants = w.grants)
    (hcom : w.committed ⊆ w'.committed) (hseen : w.seen ⊆ w'.seen) (href : w.refs ⊆ w'.refs)
    (hrel : w.releases ⊆ w'.releases) : Le w w' where
  identity := fun f _ => by rw [hr]
  ticket := by rw [hr]; exact ⟨rfl, rfl⟩
  claimed := by unfold Claimed; rw [hr]; exact id
  evidence := by rw [hr]; exact id
  canary := by rw [hr]; exact id
  terminal := by rw [hr]; exact id
  pending := by rw [hr]; exact id
  committed := hcom
  seen := hseen
  grants := by rw [hg]; exact List.Subset.refl _
  refs := href
  releases := hrel

/-- The invariant where the record and the execution's own tags and Releases are the same. -/
theorem Inv.of_same (hI : Inv cfg w) (hr : w'.record = w.record) (hg : w'.grants = w.grants)
    (hcom : w.committed ⊆ w'.committed) (hseen : w.seen ⊆ w'.seen) (href : w'.refs = w.refs)
    (hrel : w'.releases = w.releases) (hmr : w'.madeRefs = w.madeRefs)
    (hml : w'.madeReleases = w.madeReleases) : Inv cfg w' := by
  have hle : Le w w' := .of_same hr hg hcom hseen (by rw [href]; exact List.Subset.refl _)
    (by rw [hrel]; exact List.Subset.refl _)
  have hcl : Claimed w' → Claimed w := by unfold Claimed; rw [hr]; exact id
  refine
    { pending := fun h => hle.claimed (hI.pending (by rwa [hr] at h))
      uncertain := fun h => hle.claimed (hI.uncertain (by rwa [hr] at h))
      main := fun h => by rw [hr]; exact hI.main (hcl h)
      claimed := fun h => ?_
      planned := fun h => ?_
      passed := fun h => hle.evidence (hI.passed (by rwa [hr] at h))
      backed := fun h => hle.backed (hI.backed (by rwa [hr] at h))
      released := fun h => hle.published (hI.released (by rwa [hr] at h))
      proper := by rw [hr]; exact hI.proper
      granted := by rw [hr, hg]; exact hI.granted
      tagged := by rw [href, hrel]; exact hI.tagged
      madeRef := fun tag ht => ?_
      madeRefs := by rw [hmr]; exact hI.madeRefs
      alone := by rw [hmr, href, hr]; exact hI.alone
      madeRelease := fun tag ht => ?_
      madeReleases := by rw [hml]; exact hI.madeReleases
      ours := by rw [hmr, hrel, hg]; exact hI.ours }
  · obtain ⟨he, hend, hne⟩ := hI.claimed (hcl h)
    exact ⟨hle.evidence he, hle.ended hend, by rw [hg]; exact hne⟩
  · obtain ⟨he, hend⟩ := hI.planned (by rwa [hr] at h)
    exact ⟨hle.evidence he, hle.ended hend⟩
  · rw [hmr] at ht
    obtain ⟨href', hc, hp, plan, hpl⟩ := hI.madeRef tag ht
    refine ⟨by rw [href, hr]; exact href', hle.claimed hc, hle.permitted hp, plan, ?_⟩
    unfold Planned at hpl ⊢
    rwa [hg]
  · rw [hml] at ht
    obtain ⟨hc, hrel', hpl⟩ := hI.madeRelease tag ht
    exact ⟨hle.claimed hc, by rw [hrel]; exact hrel', by rw [hg]; exact hpl⟩

/-- Making a planned tag keeps the invariant. -/
theorem Inv.createRef (hI : Inv cfg w) {tag sha : String}
    (hnew : ∀ ref ∈ w.refs, ref.tag ≠ tag)
    (ha : Claimed w ∧ Permitted cfg w ∧ sha = w.record .headSha ∧ ∃ plan, Planned w tag plan) :
    Inv cfg { w with refs := ⟨tag, sha, false⟩ :: w.refs, madeRefs := tag :: w.madeRefs } := by
  obtain ⟨hc, hp, rfl, hplan⟩ := ha
  have hle : Le w { w with
      refs := ⟨tag, w.record .headSha, false⟩ :: w.refs, madeRefs := tag :: w.madeRefs } :=
    .of_same rfl rfl (List.Subset.refl _) (List.Subset.refl _) (List.subset_cons_self _ _)
      (List.Subset.refl _)
  refine
    { hI with
      claimed := fun h => ⟨(hI.claimed h).1, hle.ended (hI.claimed h).2.1, (hI.claimed h).2.2⟩
      planned := fun h => ⟨(hI.planned h).1, hle.ended (hI.planned h).2⟩
      backed := fun h => hle.backed (hI.backed h)
      released := fun h => hle.published (hI.released h)
      tagged := fun r hr => ?_
      madeRef := fun tag' ht => ?_
      madeRefs := ?_
      alone := fun tag' ht ref href hreft => ?_
      madeRelease := hI.madeRelease
      ours := fun tag' ht r hr hrt => ?_ }
  · obtain ⟨ref, href, ht⟩ := hI.tagged r hr
    exact ⟨ref, List.mem_cons_of_mem _ href, ht⟩
  · rcases List.mem_cons.1 ht with rfl | ht
    · exact ⟨List.mem_cons_self, hc, hp, hplan⟩
    · obtain ⟨href, hrest⟩ := hI.madeRef tag' ht
      exact ⟨List.mem_cons_of_mem _ href, hrest⟩
  · exact List.nodup_cons.2 ⟨fun ht => hnew _ (hI.madeRef tag ht).1 rfl, hI.madeRefs⟩
  · rcases List.mem_cons.1 href with rfl | hold
    · exact hreft ▸ rfl
    · rcases List.mem_cons.1 ht with rfl | ht
      · exact absurd hreft (hnew ref hold)
      · exact hI.alone tag' ht ref hold hreft
  · rcases List.mem_cons.1 ht with rfl | ht
    · obtain ⟨ref, href, hreft⟩ := hI.tagged r hr
      exact absurd (hreft.trans hrt) (hnew ref href)
    · exact hI.ours tag' ht r hr hrt

/-- Making a planned Release keeps the invariant. -/
theorem Inv.createRelease (hI : Inv cfg w) {tag body id url : String}
    (hnew : ∀ release ∈ w.releases, release.tag ≠ tag)
    (ha : Claimed w ∧ (∃ ref ∈ w.refs, ref.tag = tag) ∧
      ∃ plan, some plan ∈ w.grants ∧ plan.gitTag = tag ∧ plan.notes = body) :
    Inv cfg { w with
      releases := ⟨tag, body, false, false, id, url⟩ :: w.releases
      madeReleases := tag :: w.madeReleases } := by
  obtain ⟨hc, ⟨ref, href, hreft⟩, plan, hg, hpt, hpn⟩ := ha
  have hle : Le w { w with
      releases := ⟨tag, body, false, false, id, url⟩ :: w.releases
      madeReleases := tag :: w.madeReleases } :=
    .of_same rfl rfl (List.Subset.refl _) (List.Subset.refl _) (List.Subset.refl _)
      (List.subset_cons_self _ _)
  refine
    { hI with
      claimed := fun h => ⟨(hI.claimed h).1, hle.ended (hI.claimed h).2.1, (hI.claimed h).2.2⟩
      planned := fun h => ⟨(hI.planned h).1, hle.ended (hI.planned h).2⟩
      backed := fun h => hle.backed (hI.backed h)
      released := fun h => hle.published (hI.released h)
      tagged := fun r hr => ?_
      madeRelease := fun tag' ht => ?_
      madeReleases := ?_
      ours := fun tag' ht r hr hrt => ?_ }
  · rcases List.mem_cons.1 hr with rfl | hr
    · exact ⟨ref, href, hreft⟩
    · exact hI.tagged r hr
  · rcases List.mem_cons.1 ht with rfl | ht
    · exact ⟨hc, ⟨_, List.mem_cons_self, rfl⟩, plan, hg, hpt⟩
    · obtain ⟨hc', ⟨r, hr, hrt⟩, hrest⟩ := hI.madeRelease tag' ht
      exact ⟨hc', ⟨r, List.mem_cons_of_mem _ hr, hrt⟩, hrest⟩
  · refine List.nodup_cons.2 ⟨fun ht => ?_, hI.madeReleases⟩
    obtain ⟨-, ⟨r, hr, hrt⟩, -⟩ := hI.madeRelease tag ht
    exact hnew r hr hrt
  · rcases List.mem_cons.1 hr with rfl | hr
    · exact ⟨rfl, rfl, plan, hg, hpt.trans hrt, hpn.symm⟩
    · exact hI.ours tag' ht r hr hrt

theorem store_permit (w : World ι) (t : Tx) (cs : List Change) (flag : Bool) :
    (w.store t cs flag).permit = w.permit := rfl

variable [DecidableEq ι]

/-- What a request does to the world. -/
inductive Effect (cfg : Config) (i : ι) (w : World ι) : Call → World ι → Prop
  | same {e : Call} : Effect cfg i w e w
  | store {t : Tx} {cs : List Change} {flag : Bool} (h : t.run cfg w.record = .ok (cs, flag)) :
    Effect cfg i w (.tx t) (w.store t cs flag)
  | grant {t : Tx} {cs : List Change} (h : t.run cfg w.record = .ok (cs, true))
    (hc : t.isClaim = true) : Effect cfg i w (.tx t) ((w.store t cs true).allow i true)
  | see {id : String} (b : Build) : Effect cfg i w (.getBuild id) { w with seen := b :: w.seen }
  | post {request : BuildRequest} :
    Effect cfg i w (.postBuild request) { w.allow i false with builds := w.builds + 1 }
  | commit {report : Report} {expected : String} : Effect cfg i w (.saveReport report expected)
    { w with committed := { report with commitSha := lower report.commitSha } :: w.committed }
  | tag {tag sha : String} (h : ∀ ref ∈ w.refs, ref.tag ≠ tag) :
    Effect cfg i w (.createRef tag sha)
      { w with refs := ⟨tag, sha, false⟩ :: w.refs, madeRefs := tag :: w.madeRefs }
  | release {tag body sha : String} (id url : String)
    (h : ∀ release ∈ w.releases, release.tag ≠ tag) : Effect cfg i w (.createRelease tag body sha)
      { w with
        releases := ⟨tag, body, false, false, id, url⟩ :: w.releases
        madeReleases := tag :: w.madeReleases }

theorem sem_effect {e : Call} {r : e.Ans} (h : sem cfg i w e w' r) : Effect cfg i w e w' := by
  cases e with
  | tx t =>
    rcases h with ⟨rfl, -⟩ | h
    · exact .same
    rcases hr : t.run cfg w.record with x | ⟨cs, flag⟩ <;> rw [hr] at h
    · obtain ⟨rfl, -⟩ := h
      exact .same
    rcases h with ⟨rfl, -⟩ | ⟨rfl, -⟩
    · exact .store hr
    · split_ifs with hc
      · obtain ⟨hc, rfl⟩ := hc
        exact .grant hr hc
      · exact .store hr
  | getBuild id =>
    rcases h with ⟨b, rfl, -⟩ | ⟨rfl, -⟩
    · exact .see b
    · exact .same
  | postBuild request =>
    obtain ⟨rfl, -⟩ := h
    exact .post
  | saveReport report expected =>
    rcases h with ⟨rfl, -⟩ | ⟨rfl, -⟩
    · exact .commit
    · exact .same
  | createRef tag sha =>
    rcases h with ⟨rfl, -⟩ | ⟨hnew, -, rfl⟩
    · exact .same
    · exact .tag hnew
  | createRelease tag body sha =>
    rcases h with ⟨rfl, -⟩ | ⟨hnew, id, url, -, rfl⟩
    · exact .same
    · exact .release id url hnew
  | get | now | publishing _ | defaultSha | getRef _ | gitTag _ | getRelease _ =>
    obtain ⟨rfl, -⟩ := h
    exact .same
  | managed _ | catalog _ | listBuilds _ | pendingReport _ | stageReport _ _ | check _ _ _
  | external _ =>
    obtain rfl := h
    exact .same

/-- An allowed request keeps the invariant, goes not back, and leaves the others' claims. -/
theorem sem_keeps {c : Call} {r : c.Ans} (hI : Inv cfg w) (ha : Allowed cfg i w c)
    (h : sem cfg i w c w' r) : Inv cfg w' ∧ Le w w' ∧ ∀ j, j ≠ i → w'.permit j = w.permit j := by
  cases sem_effect h with
  | same => exact ⟨hI, .refl _, fun _ _ => rfl⟩
  | store hr => exact ⟨(ha _ _ hr).inv hI, (ha _ _ hr).le, fun _ _ => rfl⟩
  | @grant t cs hr hc =>
    have hs := ha _ _ hr
    have hstored : Inv cfg (w.store t cs true) ∧ Le w (w.store t cs true) := ⟨hs.inv hI, hs.le⟩
    refine ⟨hstored.1.of_same rfl rfl (List.Subset.refl _) (List.Subset.refl _) rfl rfl rfl rfl,
      hstored.2.trans (.of_same rfl rfl (List.Subset.refl _) (List.Subset.refl _)
        (List.Subset.refl _) (List.Subset.refl _)), fun j hj => ?_⟩
    simp [World.allow, Function.update_of_ne hj, store_permit]
  | see b =>
    exact ⟨hI.of_same rfl rfl (List.Subset.refl _) (List.subset_cons_self _ _) rfl rfl rfl rfl,
      .of_same rfl rfl (List.Subset.refl _) (List.subset_cons_self _ _) (List.Subset.refl _)
        (List.Subset.refl _), fun _ _ => rfl⟩
  | post =>
    refine ⟨hI.of_same rfl rfl (List.Subset.refl _) (List.Subset.refl _) rfl rfl rfl rfl,
      .of_same rfl rfl (List.Subset.refl _) (List.Subset.refl _) (List.Subset.refl _)
        (List.Subset.refl _), fun j hj => ?_⟩
    simp [World.allow, Function.update_of_ne hj]
  | commit =>
    exact ⟨hI.of_same rfl rfl (List.subset_cons_self _ _) (List.Subset.refl _) rfl rfl rfl rfl,
      .of_same rfl rfl (List.subset_cons_self _ _) (List.Subset.refl _) (List.Subset.refl _)
        (List.Subset.refl _), fun _ _ => rfl⟩
  | tag hnew =>
    exact ⟨hI.createRef hnew ha, .of_same rfl rfl (List.Subset.refl _) (List.Subset.refl _)
      (List.subset_cons_self _ _) (List.Subset.refl _), fun _ _ => rfl⟩
  | release id url hnew =>
    exact ⟨hI.createRelease hnew ha, .of_same rfl rfl (List.Subset.refl _)
      (List.Subset.refl _) (List.Subset.refl _) (List.subset_cons_self _ _), fun _ _ => rfl⟩

/-- The record and what is remembered of its changes are the same. -/
structure SameRecord (w w' : World ι) : Prop where
  record : w'.record = w.record
  grants : w'.grants = w.grants
  cancelled : w'.cancelled = w.cancelled
  retired : w'.retired = w.retired

omit [DecidableEq ι] in
theorem SameRecord.refl (w : World ι) : SameRecord w w := ⟨rfl, rfl, rfl, rfl⟩

/-- What a request stores: nothing, or the safe changes of a transaction on the record it reads. -/
theorem sem_record {e : Call} {r : e.Ans} (ha : Allowed cfg i w e) (h : sem cfg i w e w' r) :
    SameRecord w w' ∨ ∃ t cs flag, e = .tx t ∧ t.run cfg w.record = .ok (cs, flag) ∧
      Safe cfg w cs ∧ SameRecord (w.store t cs flag) w' := by
  cases sem_effect h with
  | store hr => exact .inr ⟨_, _, _, rfl, hr, ha _ _ hr, .refl _⟩
  | grant hr => exact .inr ⟨_, _, _, rfl, hr, ha _ _ hr, rfl, rfl, rfl, rfl⟩
  | _ => exact .inl ⟨rfl, rfl, rfl, rfl⟩

omit [DecidableEq ι] in
theorem moves_keeps (hI : Inv cfg w) (h : moves w w') :
    Inv cfg w' ∧ Le w w' ∧ w'.permit = w.permit := by
  obtain ⟨head, rfl⟩ := h
  exact ⟨hI.of_same rfl rfl (List.Subset.refl _) (List.Subset.refl _) rfl rfl rfl rfl,
    .of_same rfl rfl (List.Subset.refl _) (List.Subset.refl _) (List.Subset.refl _)
      (List.Subset.refl _), rfl⟩

variable (ι cfg)

/-- The contract: allowed requests keep the invariant, and the others only move along `Le` and
leave one's own claim. -/
def discipline : Discipline ι (World ι) Call.Ans where
  toSystem := system cfg
  Inv := Inv cfg
  Allowed := Allowed cfg
  Rely := fun i w w' => Le w w' ∧ w'.permit i = w.permit i
  rely_refl := fun _ w => ⟨.refl w, rfl⟩
  rely_trans := fun _ _ _ _ h h' => ⟨h.1.trans h'.1, h'.2.trans h.2⟩
  inv_sem := fun _ _ _ _ _ hI ha h => (sem_keeps hI ha h).1
  rely_sem := fun _ j _ _ _ _ hne hI ha h =>
    ⟨(sem_keeps hI ha h).2.1, (sem_keeps hI ha h).2.2 j hne.symm⟩
  inv_env := fun _ _ hI h => (moves_keeps hI h).1
  rely_env := fun i _ _ hI h => ⟨(moves_keeps hI h).2.1, congrFun (moves_keeps hI h).2.2 i⟩

end Discipline

end Release
