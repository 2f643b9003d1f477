import EngPlatform.Release.Callers

/-!
# A superseded release is not published

Publication needs a claim, and a claim needs a planned release. So a release that is retired while
nobody has claimed it is never published, in no interleaving. Nothing of it holds for a release
that is retired while its publication is claimed: `supersede` accepts `publish_pending`, and its
read may be older than the claim.
-/

set_option linter.dupNamespace false

namespace Release

open Interleave

/-- The requests that publish. -/
def Call.publishes : Call → Bool
  | .publishing _ | .createRef _ _ | .createRelease _ _ _ => true
  | _ => false

section Requests

variable {ι : Type} [DecidableEq ι] {cfg : Config} {i : ι} {w w' : World ι}

omit [DecidableEq ι] in
/-- What is asked of GitHub, and what marks its entry, needs a claimed publication. -/
theorem Allowed.claimed {e : Call} (h : Allowed cfg i w e) (hp : e.publishes = true) :
    Claimed w := by
  cases e <;> first | exact h.1 | cases hp

/-- Nothing is made on GitHub without a claim. -/
theorem sem_made {e : Call} {r : e.Ans} (ha : Allowed cfg i w e) (h : sem cfg i w e w' r)
    (hc : ¬Claimed w) : w'.madeRefs = w.madeRefs ∧ w'.madeReleases = w.madeReleases := by
  cases sem_effect h with
  | tag => exact absurd (ha.claimed rfl) hc
  | release => exact absurd (ha.claimed rfl) hc
  | _ => exact ⟨rfl, rfl⟩

omit [DecidableEq ι] in
/-- A publication is claimed from a planned release alone. -/
theorem claimed_from {t : Tx} {cs : List Change} {flag : Bool} (hs : Safe cfg w cs)
    (hr : t.run cfg w.record = .ok (cs, flag)) (hc : ¬Claimed w)
    (hc' : update cs w.record .publishClaimedAt ≠ "") :
    .publishPending ∈ transitions (w.record .status) ∨ w.record .status = .publishPending := by
  rcases hl : lookup .publishClaimedAt cs with _ | v
  · rw [update_of_none hl] at hc'
    exact absurd hc' hc
  · have hst : lookup .status cs = some .publishPending := (hs.claim v hl).2.2.2
    have hm := status_move hr
    generalize hl' : lookup .status cs = written at hm
    rw [hst] at hl'
    cases hm with
    | none => cases hl'
    | blank _ => cases hl'
    | keep => exact .inr (Option.some.inj hl').symm
    | table h => exact .inl (by rwa [← Option.some.inj hl'] at h)
    | resubmit _ => cases hl'
    | retry _ => cases hl'
    | cancel _ => cases hl'

end Requests

section Retired

variable {ι : Type} [DecidableEq ι] {cfg : Config} {digest : Digest} {w : World ι}

/-- The release is retired only while its publication is not claimed, and is not cancelled once it
is superseded. -/
def RetiresUnclaimed (cfg : Config) (_ : ι) (w : World ι) (e : Call) : Prop :=
  e.onTx fun t => (lookup .status (t.stored cfg w.record) = some .superseded → ¬Claimed w) ∧
    (w.record .status = .superseded → lookup .status (t.stored cfg w.record) ≠ some .failed)

instance (i : ι) (w : World ι) (e : Call) : Decidable (RetiresUnclaimed cfg i w e) :=
  inferInstanceAs (Decidable (e.onTx _))

/-- A retired release stays superseded, and nothing of it is on GitHub. -/
structure RetiredInv (w : World ι) : Prop where
  retired : w.record .status = .superseded → w.retired = true
  superseded : w.retired = true → w.record .status = .superseded
  unclaimed : w.retired = true → ¬Claimed w

omit [DecidableEq ι] in
/-- One transaction on a superseded record leaves its status. -/
theorem superseded_stays {t : Tx} {cs : List Change} {flag : Bool} (hs : Safe cfg w cs)
    (hr : t.run cfg w.record = .ok (cs, flag)) (hw : w.record .status = .superseded)
    (ht : lookup .status cs ≠ some .failed) : update cs w.record .status = .superseded := by
  have hm := status_move hr
  rcases hl : lookup .status cs with _ | s
  · rwa [update_of_none hl]
  rw [update_of_some hl]
  rw [hl] at hm ht
  cases hm with
  | blank _ => cases hs.status _ hl
  | keep => exact hw
  | table h => rw [hw] at h; cases h
  | resubmit h => rw [hw] at h; cases h
  | retry h =>
    simp only [plannerRetryCandidate, decide_eq_true_eq] at h
    rw [hw] at h
    cases h.2.1
  | cancel h => exact absurd rfl ht

theorem retired_step {i : ι} {e : Call} {w' : World ι} {r : e.Ans} (hJ : RetiredInv w)
    (ha : Allowed cfg i w e) (hC : RetiresUnclaimed cfg i w e) (h : sem cfg i w e w' r) :
    RetiredInv w' := by
  rcases sem_record ha h with ⟨hrec, -, -, hret⟩ | ⟨t, cs, flag, rfl, hr, hs, hrec, -, -, hret⟩
  · exact
      { retired := by rw [hrec, hret]; exact hJ.retired
        superseded := by rw [hrec, hret]; exact hJ.superseded
        unclaimed := by unfold Claimed; rw [hrec, hret]; exact hJ.unclaimed }
  rw [store_record] at hrec
  rw [store_retired] at hret
  rw [RetiresUnclaimed, Call.onTx, stored_ok hr] at hC
  by_cases hw : w.record .status = .superseded
  · have hst := superseded_stays hs hr hw (hC.2 hw)
    have hunclaimed := hJ.unclaimed (hJ.retired hw)
    refine
      { retired := fun _ => by rw [hret, hJ.retired hw, Bool.true_or]
        superseded := fun _ => by rw [hrec]; exact hst
        unclaimed := fun _ hcl => ?_ }
    unfold Claimed at hcl
    rw [hrec] at hcl
    have hfrom := claimed_from hs hr hunclaimed hcl
    rw [hw] at hfrom
    rcases hfrom with hf | hf <;> cases hf
  · have hnot : w.retired = false := by
      rcases hb : w.retired with _ | _
      · rfl
      · exact absurd (hJ.superseded hb) hw
    have hiff : w'.retired = true ↔ lookup .status cs = some .superseded := by
      rw [hret, hnot]
      simp
    refine
      { retired := fun hsup => hiff.2 ?_
        superseded := fun hb => by rw [hrec]; exact update_of_some (hiff.1 hb)
        unclaimed := fun hb hcl => ?_ }
    · rw [hrec] at hsup
      exact (update_cases hsup).resolve_left fun ⟨_, h0⟩ => hw h0
    · have hl := hiff.1 hb
      unfold Claimed at hcl
      rw [hrec] at hcl
      rcases hlc : lookup .publishClaimedAt cs with _ | v
      · rw [update_of_none hlc] at hcl
        exact hC.1 hl hcl
      · have hst := (hs.claim v hlc).2.2.2
        rw [hl] at hst
        cases hst

/-- In every run of any callers in which the release is retired only while its publication is
unclaimed: a retired release is superseded for good, no tag and no Release was made for it, and
none of the callers is about to publish it. -/
theorem superseded_unpublished (h : Reserved w) {callers : ι → Caller}
    {c : Conf ι (World ι) Call.Ans Err Unit}
    (hr : Runs cfg (RetiresUnclaimed cfg) (calls cfg digest w callers) c)
    (hret : c.state.retired = true ∨ c.state.record .status = .superseded) :
    c.state.record .status = .superseded ∧ c.state.madeRefs = [] ∧ c.state.madeReleases = [] ∧
      ∀ i e k, c.pool i = .ask e k → e.publishes = false := by
  have hJ : RetiredInv c.state := by
    refine runs_invariant h.inv (fun i s e s' r _ hJ ha hC hs => retired_step hJ ha hC hs)
      (fun s s' hJ hm => ?_) ⟨fun hs => ?_, fun hb => ?_, fun hb => ?_⟩ hr
    · obtain ⟨head, rfl⟩ := hm
      exact ⟨hJ.retired, hJ.superseded, hJ.unclaimed⟩
    · rcases h.status with hst | hst | hst <;> rw [hst] at hs <;> cases hs
    · rw [h.retired] at hb
      cases hb
    · rw [h.retired] at hb
      cases hb
  have hI := runs_inv h.inv hr
  have hb : c.state.retired = true := hret.elim id hJ.retired
  have hc := hJ.unclaimed hb
  refine ⟨hJ.superseded hb, ?_, ?_, fun i e k hp => ?_⟩
  · exact List.eq_nil_iff_forall_not_mem.2 fun tag ht => hc (hI.madeRef tag ht).2.1
  · exact List.eq_nil_iff_forall_not_mem.2 fun tag ht => hc (hI.madeRelease tag ht).1
  · rcases hpub : e.publishes with _ | _
    · rfl
    · exact absurd ((runs_allowed h.inv hr hp).claimed hpub) hc

/-- Reconciled until its publication is claimed, but for `n` requests, then retired. -/
def retirement (n : ℕ) : List Act :=
  planning ++ answered n 3 "SUCCESS" ++ answered 4 4 "SUCCESS" ++ answered 12 3 "SUCCESS"

def retirees : List Caller := [.reconcile, .supersede "op" ""]

/-- The two runs, evaluated together: they share their steps. -/
theorem retired_states :
    ((releaseCalls retirees).Meets (RetiresUnclaimed plannerConfig) ((retirement 12).map Act.turn) ∧
      (released retirees (retirement 12)).state.record .status = .superseded) ∧
    (released retirees (retirement 22)).state.record .status = .superseded ∧
      (released retirees (retirement 22)).state.madeRefs = ["v1.2.0"] := by
  decide +kernel

theorem superseded_unpublished_demo :
    (released retirees (retirement 12)).state.record .status = .superseded ∧
      (released retirees (retirement 12)).state.madeRefs = [] := by
  obtain ⟨hmeets, hs⟩ := retired_states.1
  exact ⟨hs, (superseded_unpublished reserved_world (released_runs _ _ hmeets) (.inr hs)).2.1⟩

/-- The operator retires the release between the claim of its publication and the tag. -/
theorem superseded_published : ¬∀ (cfg : Config) (digest : Digest) (w : World Slot)
    (callers : Slot → Caller) (c : Conf Slot (World Slot) Call.Ans Err Unit), Reserved w →
    Runs cfg (always _ _ _) (calls cfg digest w callers) c →
    c.state.record .status = .superseded → c.state.madeRefs = [] := by
  intro h
  obtain ⟨hs, hmade⟩ := retired_states.2
  have hno := h _ _ _ _ _ reserved_world (released_runs retirees (retirement 22)
    (meets_always _ _)) hs
  rw [hmade] at hno
  cases hno

end Retired

end Release
