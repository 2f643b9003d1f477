import EngPlatform.Circuit.Runs

/-!
# Usage alerts

An alert's marker is in the same document as the circuit's state. Every operation but one keeps the
markers: `open_circuit` writes a new document, which carries over the probe requests only. So an
alert is emitted once as long as no circuit is opened over emitted alerts, and a second time after
one was.
-/

set_option linter.dupNamespace false

namespace Circuit

open Interleave

/-- The transaction granted the alert of the month and threshold. -/
def Entry.alerts (month : String) (threshold : ℤ) (e : Entry) : Bool :=
  match e.tx, e.reply with
  | .claimUsageAlert _ m t _ _, .granted true => m = month ∧ t = threshold
  | _, _ => false

/-- How often the alert was granted. -/
def World.granted (w : World) (month : String) (threshold : ℤ) : ℕ :=
  w.log.countP (Entry.alerts month threshold)

/-- A circuit is opened only where the document has no usage alerts to lose. -/
def KeepsAlerts (w : World) : Call → Prop
  | .tx (.openCircuit ..) => ∀ d ∈ w.circuit, d.state = .opened ∨ d.usageAlerts = ∅
  | _ => True

instance (w : World) : DecidablePred (KeepsAlerts w)
  | .get => .isTrue trivial
  | .tx t =>
    match t with
    | .openCircuit .. =>
      inferInstanceAs (Decidable (∀ d ∈ w.circuit, d.state = .opened ∨ d.usageAlerts = ∅))
    | .claimModePropagation .. | .finishModePropagation .. | .reserveProbe ..
    | .finishProbeDispatch .. | .verifyProbe .. | .closeAfterSuccessfulProbe ..
    | .claimUsageAlert .. => .isTrue trivial

/-- A granted alert has its marker. -/
def Marked (w : World) : Prop :=
  ∀ month threshold, w.granted month threshold ≤ 1 ∧
    (1 ≤ w.granted month threshold → alertMarker month threshold ∈ alertsOf w.circuit)

theorem granted_commit (w : World) (t : Tx) (after : Option Document) (reply : Reply)
    (month : String) (threshold : ℤ) :
    (w.commit t after reply).granted month threshold = w.granted month threshold +
      if Entry.alerts month threshold ⟨w.circuit, t, after, reply⟩ then 1 else 0 := by
  unfold World.granted World.commit
  rw [List.countP_cons]

/-- A transaction that grants no alert and keeps the markers keeps them marked. -/
theorem Marked.keep {w : World} (h : Marked w) {t : Tx} {after : Option Document} {reply : Reply}
    (hg : reply ≠ .granted true)
    (hk : ∀ marker, marker ∈ alertsOf w.circuit → marker ∈ alertsOf after) :
    Marked (w.commit t after reply) := by
  intro month threshold
  have hno : Entry.alerts month threshold ⟨w.circuit, t, after, reply⟩ = false := by
    unfold Entry.alerts
    split
    · exact absurd ‹reply = _› hg
    · rfl
  rw [granted_commit, hno]
  exact ⟨(h month threshold).1, fun hone => hk _ ((h month threshold).2 hone)⟩

/-- A granted alert was not marked before, so it was not granted before. -/
theorem Marked.alert {w : World} (h : Marked w) {d : Document} {owner month now : String}
    {threshold : ℤ} {observedMinutes : ℚ} (hnew : alertMarker month threshold ∉ alertsOf w.circuit)
    (hd : ∀ marker, marker ∈ d.usageAlerts ↔
      marker = alertMarker month threshold ∨ marker ∈ alertsOf w.circuit) :
    Marked (w.commit (.claimUsageAlert owner month threshold observedMinutes now) (some d)
      (.granted true)) := by
  intro m t
  have hold : ¬1 ≤ w.granted month threshold := fun hone => hnew ((h month threshold).2 hone)
  rw [granted_commit]
  by_cases hmt : month = m ∧ threshold = t
  · obtain ⟨rfl, rfl⟩ := hmt
    have hyes : Entry.alerts month threshold ⟨w.circuit, .claimUsageAlert owner month threshold
        observedMinutes now, some d, .granted true⟩ = true := by simp [Entry.alerts]
    rw [hyes]
    refine ⟨?_, fun _ => (hd _).2 (.inl rfl)⟩
    simp only [if_true]
    omega
  · have hno : Entry.alerts m t ⟨w.circuit, .claimUsageAlert owner month threshold observedMinutes
        now, some d, .granted true⟩ = false := by
      simpa [Entry.alerts] using hmt
    rw [hno]
    exact ⟨(h m t).1, fun hone => (hd _).2 (.inr ((h m t).2 hone))⟩

variable {ι : Type} {hashes : Hashes}

theorem marked_commit {w : World} {t : Tx} {after : Option Document} {reply : Reply}
    (h : Marked w) (hk : KeepsAlerts w (.tx t))
    (hrun : t.run hashes w.circuit = .ok (after, reply)) : Marked (w.commit t after reply) := by
  have heffect := run_effect hrun
  revert hk
  revert heffect
  generalize hstored : w.circuit = stored
  intro heffect hk
  cases heffect with
  | same _ hg => exact h.keep hg fun marker hm => hstored ▸ hm
  | opened hclosed _ _ _ halerts =>
    refine h.keep (by simp) fun marker hm => ?_
    rw [hstored] at hm
    rcases stored with _ | current
    · exact absurd hm (AList.notMem_empty _)
    rcases hk current hstored with ho | he
    · exact absurd ho (hclosed current rfl)
    · simp only [alertsOf, Option.map_some, Option.getD_some, he, halerts] at hm ⊢
      exact hm
  | leased hs _ hg =>
    refine h.keep hg fun marker hm => ?_
    rw [hstored, hs] at hm
    exact hm
  | reserved hs _ _ _ _ _ _ _ _ _ _ _ _ halerts | finished hs _ _ _ _ _ _ _ _ halerts
    | verified hs _ _ _ _ _ _ _ _ _ _ _ halerts | closed hs _ _ _ _ _ _ _ halerts =>
    refine h.keep (by simp) fun marker hm => ?_
    rw [hstored, hs] at hm
    simpa only [alertsOf, Option.map_some, Option.getD_some, halerts] using hm
  | alerted hnew _ _ _ halerts => exact h.alert (hstored ▸ hnew) (hstored ▸ halerts)

variable [DecidableEq ι]

/-- Where no circuit is opened over emitted alerts, each is granted at most once. -/
theorem alert_once {operations : ι → Operation} {c : Conf ι World Call.Ans Err Reply}
    (h : Reach (system hashes) (fun _ => KeepsAlerts) (start operations) c) (month : String)
    (threshold : ℤ) : c.state.granted month threshold ≤ 1 := by
  have hmarked : Marked c.state := by
    refine run_invariant (J := Marked) ?_ (fun _ w t after reply hJ hC hrun => ?_) h
    · intro m t
      simp [World.granted]
    · exact marked_commit hJ hC hrun
  exact (hmarked month threshold).1

/-- An owner's alert, the opening of the circuit, and the same alert, each on its own. -/
def reopenedOperations : ℕ → Operation
  | 0 => .atomic (.claimUsageAlert "acme" "2024-05" 80 81 "t1")
  | 1 => .atomic
    (.openCircuit "acme" "github_actions_billing_rejection" "acme/api" "7" "" "t2")
  | _ => .atomic (.claimUsageAlert "acme" "2024-05" 80 82 "t3")

/-- A run without an opening over emitted alerts, with a granted alert. -/
theorem alert_once_demo : ∃ c : Conf (ℕ) World Call.Ans Err Reply,
    c.state.granted "2024-05" 80 = 1 ∧ c.state.granted "2024-05" 80 ≤ 1 := by
  have hrun := reach_play (turns_sound [1, 0, 2]) (start reopenedOperations)
    (C := fun _ => KeepsAlerts) (by decide)
  exact ⟨_, by decide, alert_once hrun "2024-05" 80⟩

/-- Opened over an emitted alert, the circuit has it emitted again. -/
theorem alert_twice : ¬∀ c : Conf (ℕ) World Call.Ans Err Reply,
    Reach (system plainHashes) (always (ℕ) World Call) (start reopenedOperations) c →
      c.state.granted "2024-05" 80 ≤ 1 := by
  intro h
  have hrun := reach_play (turns_sound [0, 1, 2]) (start reopenedOperations)
    (C := always (ℕ) World Call) (meets_always _ _)
  have htwice := h _ hrun
  revert htwice
  decide

end Circuit
