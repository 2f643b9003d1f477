import EngPlatform.Release.Callers

/-!
# What is published

Whoever enters `publish_release` does so on committed evidence, after the provider's run was found
to have ended, and with a plan that was stored since the publication was granted. That plan is the
granted one as long as no event brings another: an execution whose publication is uncertain takes
events again, and one of them may replace the plan that was approved.
-/

set_option linter.dupNamespace false

namespace Release

open Interleave

section Published

variable {ι : Type} [DecidableEq ι] {cfg : Config} {digest : Digest} {w w' : World ι}

/-- No plan is stored once the publication is granted. -/
def KeepsPlan (cfg : Config) (_ : ι) (w : World ι) (e : Call) : Prop :=
  e.onTx fun t => (lookup .releasePlan (t.stored cfg w.record)).isSome → w.grants = []

instance (i : ι) (w : World ι) (e : Call) : Decidable (KeepsPlan cfg i w e) :=
  inferInstanceAs (Decidable (e.onTx _))

/-- The plans stored since the publication was granted are one. -/
def OnePlan (w : World ι) : Prop := ∀ plan ∈ w.grants, plan = w.record .releasePlan

omit [DecidableEq ι] in
theorem OnePlan.of_same (h : OnePlan w) (hs : SameRecord w w') : OnePlan w' := by
  unfold OnePlan
  rw [hs.grants, hs.record]
  exact h

omit [DecidableEq ι] in
/-- Changes that leave a granted plan alone keep it the only one. -/
theorem OnePlan.store (h : OnePlan w) {t : Tx} {cs : List Change} {flag : Bool}
    (hc : (lookup .releasePlan cs).isSome = true → w.grants = []) :
    OnePlan (w.store t cs flag) := by
  intro plan hp
  rw [store_record]
  unfold World.store at hp
  split_ifs at hp with hg
  · rcases List.mem_cons.1 hp with hp | hp
    · exact hp
    have hnone : lookup .releasePlan cs = none := by
      rcases hl : lookup .releasePlan cs with _ | v
      · rfl
      · rw [hc (by rw [hl]; rfl)] at hp
        cases hp
    rw [update_of_none hnone]
    exact h plan hp
  · cases hp

theorem onePlan_step {i : ι} {e : Call} {r : e.Ans} (hJ : OnePlan w) (ha : Allowed cfg i w e)
    (hC : KeepsPlan cfg i w e) (h : sem cfg i w e w' r) : OnePlan w' := by
  rcases sem_record ha h with hs | ⟨t, cs, flag, rfl, hr, -, hs⟩
  · exact hJ.of_same hs
  · rw [KeepsPlan, Call.onTx, stored_ok hr] at hC
    exact (hJ.store hC).of_same hs

/-- In every run that keeps a granted plan there is one granted plan. -/
theorem onePlan_run (h : Reserved w) {callers : ι → Caller}
    {c : Conf ι (World ι) Call.Ans Err Unit}
    (hr : Runs cfg (KeepsPlan cfg) (calls cfg digest w callers) c) : OnePlan c.state := by
  refine runs_invariant h.inv (fun i s e s' r _ hJ ha hC hs => onePlan_step hJ ha hC hs)
    (fun s s' hJ hm => ?_) (fun plan hp => ?_) hr
  · obtain ⟨head, rfl⟩ := hm
    exact hJ
  · rw [h.open'] at hp
    cases hp

end Published

section Demo

/-- The record that a program is about to publish. -/
def publishing : Program Unit → Option Execution
  | .ask (.publishing e) _ => some e
  | _ => none

theorem of_publishing {p : Program Unit} {plan : Option Plan}
    (h : (publishing p).map (fun e => (e .releasePlan : Option Plan)) = some plan) :
    ∃ e k, p = .ask (.publishing e) k ∧ e .releasePlan = plan := by
  rcases p with a | x | ⟨c, k⟩
  · cases h
  · cases h
  cases c with
  | publishing e => exact ⟨e, k, rfl, Option.some.inj h⟩
  | _ => cases h

/-- A planned release is reconciled, and a second plan is reported to it. -/
def replanners : List Caller :=
  [.reconcile, .acceptEvent (planEvent 3 "1.3.0") newHash, .reconcile]

/-- The publication's Release times out, the second plan is stored, and a reconciliation comes to
publish it. -/
def replanned : List Act :=
  planning ++ answered 24 3 "SUCCESS" ++ [Act.timeout 3] ++ answered 3 3 "SUCCESS" ++
    answered 19 4 "SUCCESS" ++ answered 3 5 "SUCCESS"

/-- The build is found to have succeeded before the plan is there. -/
def unplanned : List Act :=
  answered 19 0 "WORKING" ++ answered 13 1 "WORKING" ++ answered 3 3 "SUCCESS"

/-- Then the plan is stored, and published. -/
def planned : List Act := answered 12 2 "WORKING" ++ answered 15 3 "SUCCESS"

/-- The builds that were found to have succeeded. -/
def successes (w : World Slot) : ℕ := w.seen.countP fun b => b.state = "SUCCESS"

/-- The three runs, evaluated together: they share their steps. -/
theorem replanned_states :
    let c := released replanners (planning ++ answered 18 3 "SUCCESS")
    let c₁ := released replanners unplanned
    let c₂ := c₁.play (planned.map Act.turn)
    ((releaseCalls replanners).Meets (KeepsPlan plannerConfig)
        ((planning ++ answered 18 3 "SUCCESS").map Act.turn) ∧
      (publishing (c.pool 3)).map (fun e => (e .releasePlan : Option Plan)) =
        some (some (releasePlan "1.2.0"))) ∧
    ((publishing ((released replanners replanned).pool 5)).map
        (fun e => (e .releasePlan : Option Plan)) = some (some (releasePlan "1.3.0")) ∧
      some (releasePlan "1.2.0") ∈ (released replanners replanned).state.grants) ∧
    (publishing (c₂.pool 3)).map (fun e => (e .releasePlan : Option Plan)) =
        some (some (releasePlan "1.2.0")) ∧
      c₁.state.record .releasePlan ≠ some (releasePlan "1.2.0") ∧
      ¬(c₂.state.record .providerTerminalSuccess = true ∨
        successes c₁.state < successes c₂.state) := by
  decide +kernel

end Demo

end Release
