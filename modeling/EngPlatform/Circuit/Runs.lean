import EngPlatform.Circuit.Operations

/-!
# Runs of a circuit's operations

Any number of operations run against one owner's document. Beside the document the world remembers
the transactions that were committed, the last one first, each with the document before and after
it. A request is answered or fails, and a failed transaction may have been committed.
-/

set_option linter.dupNamespace false

namespace Circuit

open Interleave

/-- A committed transaction. -/
structure Entry where
  before : Option Document
  tx : Tx
  after : Option Document
  reply : Reply
  deriving DecidableEq

structure World where
  circuit : Option Document
  log : List Entry

inductive Call
  | get
  | tx (t : Tx)

@[reducible] def Call.Val : Call → Type
  | .get => Option Document
  | .tx _ => Reply

abbrev Call.Ans (e : Call) : Type := Except Err e.Val

abbrev Program : Type := Prog Call.Ans Err Reply

def perform (e : Call) : Prog Call.Ans Err e.Val := .ask e .lift

/-- `record_probe`. -/
def recordProbe (owner repository workflow runId conclusion : String) (jobsStarted : ℤ)
    (nonce : Option String) (now : String) : Program := do
  let stored ← perform .get
  let circuit := get owner stored
  match circuit.probe with
  | none => .raise (.value "Health probe does not match a requested open-circuit probe")
  | some requested =>
    if circuit.state ≠ .opened ∨ requested.status ≠ .requested ∨
        requested.repository ≠ repository ∨ requested.workflow ≠ workflow ∨
        nonce.any (requested.nonce ≠ ·) then
      .raise (.value "Health probe does not match a requested open-circuit probe")
    else perform (.tx (.verifyProbe requested repository workflow runId conclusion jobsStarted now))

/-- An operation: one transaction, or `record_probe`. -/
inductive Operation
  | atomic (t : Tx)
  | recordProbe (owner repository workflow runId conclusion : String) (jobsStarted : ℤ)
    (nonce : Option String) (now : String)

def Operation.program : Operation → Program
  | .atomic t => perform (.tx t)
  | .recordProbe owner repository workflow runId conclusion jobsStarted nonce now =>
    Circuit.recordProbe owner repository workflow runId conclusion jobsStarted nonce now

/-- The failures outside of the circuit's own checks. -/
def lost {α : Type} (r : Except Err α) : Prop := ∃ m, r = .error (.external m)

def World.commit (w : World) (t : Tx) (after : Option Document) (reply : Reply) : World :=
  ⟨after, ⟨w.circuit, t, after, reply⟩ :: w.log⟩

section System

variable {ι : Type} (hashes : Hashes)

/-- What a request does to the world, and how it is answered. -/
def sem (w : World) : (e : Call) → World → e.Ans → Prop
  | .get, w', r => w' = w ∧ (r = .ok w.circuit ∨ lost r)
  | .tx t, w', r =>
    (w' = w ∧ lost r) ∨
    match t.run hashes w.circuit with
    | .error x => w' = w ∧ r = .error x
    | .ok (after, reply) => w' = w.commit t after reply ∧ (r = .ok reply ∨ lost r)

def system : System ι World Call.Ans where
  sem := fun _ => sem hashes
  env := fun _ _ => False

/-- The operations before any of them has run, without a document. -/
def start (operations : ι → Operation) : Conf ι World Call.Ans Err Reply :=
  ⟨⟨none, []⟩, fun i => (operations i).program⟩

/-- The requests, answered without a failure. -/
def honest (w : World) : (e : Call) → World × e.Ans
  | .get => (w, .ok w.circuit)
  | .tx t =>
    match t.run hashes w.circuit with
    | .error x => (w, .error x)
    | .ok (after, reply) => (w.commit t after reply, .ok reply)

theorem honest_sem (w : World) (e : Call) :
    sem hashes w e (honest hashes w e).1 (honest hashes w e).2 := by
  cases e with
  | get => exact ⟨rfl, .inl rfl⟩
  | tx t =>
    rcases hr : t.run hashes w.circuit with x | ⟨after, reply⟩
    · simp [sem, honest, hr]
    · simp [sem, honest, hr]

variable {hashes}

/-- A request leaves the world, or commits a transaction. -/
theorem sem_cases {w w' : World} {e : Call} {r : e.Ans} (h : sem hashes w e w' r) :
    w' = w ∨ ∃ t after reply, e = .tx t ∧ t.run hashes w.circuit = .ok (after, reply) ∧
      w' = w.commit t after reply := by
  cases e with
  | get => exact .inl h.1
  | tx t =>
    rcases h with ⟨rfl, -⟩ | h
    · exact .inl rfl
    rcases hr : t.run hashes w.circuit with x | ⟨after, reply⟩ <;> rw [hr] at h
    · exact .inl h.1
    · exact .inr ⟨t, after, reply, rfl, hr, h.1⟩

/-- What every committed transaction keeps holds along every run of the operations. -/
theorem run_invariant [DecidableEq ι] {C : ι → World → Call → Prop} {J : World → Prop}
    {operations : ι → Operation} {c : Conf ι World Call.Ans Err Reply}
    (h0 : J ⟨none, []⟩)
    (hcommit : ∀ i w t after reply, J w → C i w (.tx t) →
      t.run hashes w.circuit = .ok (after, reply) → J (w.commit t after reply))
    (h : Reach (system hashes) C (start operations) c) : J c.state := by
  refine Reach.invariant (fun i w e w' r hJ hC hs => ?_) (fun _ _ _ (h : False) => h.elim) h0 h
  rcases sem_cases hs with rfl | ⟨t, after, reply, rfl, hrun, rfl⟩
  · exact hJ
  · exact hcommit i w t after reply hJ hC hrun

end System

section Demo

def plainHashes : Hashes where
  key := id
  request := fun repository workflow requestedBy reason =>
    repository ++ workflow ++ requestedBy ++ reason

def turn {ι : Type} (i : ι) : Turn ι World Call.Ans := .run i (honest plainHashes)

theorem turns_sound {ι : Type} (turns : List ι) :
    ∀ t ∈ turns.map turn, t.Sound (system plainHashes) := by
  intro t ht
  obtain ⟨i, -, rfl⟩ := List.mem_map.1 ht
  exact honest_sem plainHashes

end Demo

/-- The requests that a document remembers. -/
def requestsOf (stored : Option Document) : Dict Request := (stored.map (·.probeRequests)).getD ∅

def alertsOf (stored : Option Document) : Dict Alert := (stored.map (·.usageAlerts)).getD ∅

/-- What a committed transaction does: nothing at all, or the one thing its operation is for. -/
inductive Effect (hashes : Hashes) (stored : Option Document) :
    Tx → Option Document → Reply → Prop
  | same {t : Tx} {reply : Reply} (h : ∀ d, reply ≠ .circuit d true) (hg : reply ≠ .granted true) :
    Effect hashes stored t stored reply
  | opened {owner reason repository runId evidence now : String} {d : Document}
    (hclosed : ∀ current, stored = some current → current.state ≠ .opened)
    (hopened : d.state = .opened) (hprobe : d.probe = none)
    (hrequests : d.probeRequests = requestsOf stored) (halerts : d.usageAlerts = ∅) :
    Effect hashes stored (.openCircuit owner reason repository runId evidence now) (some d)
      (.circuit d true)
  | leased {t : Tx} {current : Document} {reply : Reply} {propagation : Option Propagation}
    (hs : stored = some current) (h : ∀ d, reply ≠ .circuit d true) (hg : reply ≠ .granted true) :
    Effect hashes stored t (some { current with modePropagation := propagation }) reply
  | reserved {current d : Document} {probe : Probe}
    {repository workflow requestedBy reason idempotencyKey nonce now : String}
    (hs : stored = some current) (hopened : current.state = .opened)
    (hpending : ∀ p, current.probe = some p → p.status ≠ .requested)
    (hnew : hashes.key idempotencyKey ∉ current.probeRequests)
    (hroom : current.probeRequests.keys.length < probeRequestLimit)
    (hstate : d.state = .opened) (hprobe : d.probe = some probe)
    (hstatus : probe.status = .requested) (hnonce : probe.nonce = nonce)
    (hrepository : probe.repository = repository) (hworkflow : probe.workflow = workflow)
    (hkeys : ∀ key, key ∈ d.probeRequests ↔
      key = hashes.key idempotencyKey ∨ key ∈ current.probeRequests)
    (hlength : d.probeRequests.keys.length = current.probeRequests.keys.length + 1)
    (halerts : d.usageAlerts = current.usageAlerts) :
    Effect hashes stored
      (.reserveProbe repository workflow requestedBy reason idempotencyKey nonce now) (some d)
      (.circuit d true)
  | finished {current d : Document} {probe probe' : Probe} {nonce now : String}
    {dispatchStatus : Dispatch} (hs : stored = some current) (hold : current.probe = some probe)
    (hprobe : d.probe = some probe') (hnonce : probe.nonce = nonce)
    (hsame : { probe' with dispatchStatus := probe.dispatchStatus, status := probe.status } = probe)
    (hstatus : probe'.status = probe.status ∨
      (dispatchStatus = .notDispatched ∧ probe.status = .requested ∧ probe'.status = .cancelled))
    (hstate : d.state = current.state)
    (hkeys : ∀ key, key ∈ d.probeRequests ↔ key ∈ current.probeRequests)
    (hlength : d.probeRequests.keys.length = current.probeRequests.keys.length)
    (halerts : d.usageAlerts = current.usageAlerts) :
    Effect hashes stored (.finishProbeDispatch nonce dispatchStatus now) (some d) (.circuit d true)
  | verified {current d : Document} {expected requested probe : Probe}
    {repository workflow runId conclusion now : String} {jobsStarted : ℤ}
    (hs : stored = some current) (hopened : current.state = .opened)
    (hold : current.probe = some expected) (hpending : expected.status = .requested)
    (hrepository : expected.repository = repository) (hworkflow : expected.workflow = workflow)
    (hnonce : expected.nonce = requested.nonce) (hprobe : d.probe = some probe)
    (hsame : probe = { requested with
      status := .verified, repository := repository, workflow := workflow, runId := some runId,
      conclusion := some conclusion, jobsStarted := some jobsStarted, completedAt := some now,
      dispatchStatus := expected.dispatchStatus })
    (hstate : d.state = .opened)
    (hkeys : ∀ key, key ∈ d.probeRequests ↔ key ∈ current.probeRequests)
    (hlength : d.probeRequests.keys.length = current.probeRequests.keys.length)
    (halerts : d.usageAlerts = current.usageAlerts) :
    Effect hashes stored
      (.verifyProbe requested repository workflow runId conclusion jobsStarted now) (some d)
      (.circuit d true)
  | closed {current d : Document} {probe : Probe} {runId now : String} (hs : stored = some current)
    (hopened : current.state = .opened) (hold : current.probe = some probe)
    (hsucceeded : probe.succeeded runId = true) (hstate : d.state = .closed)
    (hprobe : d.probe = some probe)
    (hkeys : ∀ key, key ∈ d.probeRequests ↔ key ∈ current.probeRequests)
    (hlength : d.probeRequests.keys.length = current.probeRequests.keys.length)
    (halerts : d.usageAlerts = current.usageAlerts) :
    Effect hashes stored (.closeAfterSuccessfulProbe runId now) (some d) (.circuit d true)
  | alerted {d : Document} {owner month now : String} {threshold : ℤ} {observedMinutes : ℚ}
    (hnew : alertMarker month threshold ∉ alertsOf stored)
    (hstate : d.state = (get owner stored).state) (hprobe : d.probe = (get owner stored).probe)
    (hrequests : d.probeRequests = requestsOf stored)
    (halerts : ∀ marker, marker ∈ d.usageAlerts ↔
      marker = alertMarker month threshold ∨ marker ∈ alertsOf stored) :
    Effect hashes stored (.claimUsageAlert owner month threshold observedMinutes now) (some d)
      (.granted true)

section Effect

variable {hashes : Hashes} {stored after : Option Document} {reply : Reply}

theorem openCircuit_effect {owner reason repository runId evidence now : String}
    (h : openCircuit stored owner reason repository runId evidence now = .ok (after, reply)) :
    Effect hashes stored (.openCircuit owner reason repository runId evidence now) after reply := by
  unfold openCircuit at h
  rcases stored with _ | current
  · obtain ⟨rfl, rfl⟩ := Prod.mk.inj (Except.ok.inj h)
    exact .opened (fun _ h => nomatch h) rfl rfl rfl rfl
  · simp only [] at h
    split_ifs at h with ho
    · obtain ⟨rfl, rfl⟩ := Prod.mk.inj (Except.ok.inj h)
      exact .same (by simp) (by simp)
    · obtain ⟨rfl, rfl⟩ := Prod.mk.inj (Except.ok.inj h)
      refine .opened (fun d hd => ?_) rfl rfl rfl rfl
      obtain rfl := Option.some.inj hd
      exact ho

theorem claimModePropagation_effect {token : String} {now : ℚ}
    (h : claimModePropagation stored token now = .ok (after, reply)) :
    Effect hashes stored (.claimModePropagation token now) after reply := by
  unfold claimModePropagation at h
  rcases stored with _ | current
  · obtain ⟨rfl, rfl⟩ := Prod.mk.inj (Except.ok.inj h)
    exact .same (by simp) (by simp)
  · simp only [] at h
    split_ifs at h
    · obtain ⟨rfl, rfl⟩ := Prod.mk.inj (Except.ok.inj h)
      exact .leased rfl (by simp) (by simp)
    · obtain ⟨rfl, rfl⟩ := Prod.mk.inj (Except.ok.inj h)
      exact .same (by simp) (by simp)

theorem finishModePropagation_effect {token : String} {succeeded : Bool} {now : ℚ}
    (h : finishModePropagation stored token succeeded now = .ok (after, reply)) :
    Effect hashes stored (.finishModePropagation token succeeded now) after reply := by
  unfold finishModePropagation at h
  rcases stored with _ | current
  · obtain ⟨rfl, rfl⟩ := Prod.mk.inj (Except.ok.inj h)
    exact .same (by simp) (by simp)
  · simp only [] at h
    split at h
    · obtain ⟨rfl, rfl⟩ := Prod.mk.inj (Except.ok.inj h)
      exact .leased rfl (by simp) (by simp)
    · obtain ⟨rfl, rfl⟩ := Prod.mk.inj (Except.ok.inj h)
      exact .same (by simp) (by simp)

theorem reserveProbe_effect
    {repository workflow requestedBy reason idempotencyKey nonce now : String}
    (h : reserveProbe hashes stored repository workflow requestedBy reason idempotencyKey nonce
      now = .ok (after, reply)) :
    Effect hashes stored
      (.reserveProbe repository workflow requestedBy reason idempotencyKey nonce now) after
      reply := by
  unfold reserveProbe at h
  split at h
  · cases h
  split at h
  · cases h
  rcases stored with _ | current
  · cases h
  simp only [] at h
  rcases hk : current.probeRequests.lookup (hashes.key idempotencyKey) with _ | previous <;>
    simp only [hk] at h
  · split_ifs at h with ho hp hl
    obtain ⟨rfl, rfl⟩ := Prod.mk.inj (Except.ok.inj h)
    have hnew := AList.lookup_eq_none.1 hk
    refine .reserved rfl (not_not.1 ho) (fun p hcur hs => hp ?_) hnew (by omega) (not_not.1 ho) rfl
      rfl rfl rfl rfl (fun key => ?_) ?_ rfl
    · rw [hcur]
      simpa using hs
    · rw [mem_probeHistory]
      exact AList.mem_insert _
    · rw [length_probeHistory, AList.keys_insert, List.length_cons,
        List.erase_of_not_mem (by rwa [← AList.mem_keys])]
  · split at h
    · cases h
    · rcases hc : previous.circuit with _ | circuit <;> rw [hc] at h
      · cases h
      · obtain ⟨rfl, rfl⟩ := Prod.mk.inj (Except.ok.inj h)
        exact .same (by simp) (by simp)

theorem finishProbeDispatch_effect {nonce now : String} {dispatchStatus : Dispatch}
    (h : finishProbeDispatch stored nonce dispatchStatus now = .ok (after, reply)) :
    Effect hashes stored (.finishProbeDispatch nonce dispatchStatus now) after reply := by
  unfold finishProbeDispatch at h
  split at h
  · cases h
  rcases stored with _ | current
  · cases h
  simp only [] at h
  rcases hp : current.probe with _ | probe <;> simp only [hp] at h
  · cases h
  split at h
  · cases h
  rename_i hn
  obtain ⟨rfl, rfl⟩ := Prod.mk.inj (Except.ok.inj h)
  refine .finished rfl hp rfl (not_not.1 hn) rfl ?_ rfl (fun key => mem_probeHistory _ key)
    (length_probeHistory _) rfl
  split_ifs with hd
  · exact .inr ⟨hd.1, hd.2, rfl⟩
  · exact .inl rfl

theorem verifyProbe_effect {requested : Probe}
    {repository workflow runId conclusion now : String} {jobsStarted : ℤ}
    (h : verifyProbe stored requested repository workflow runId conclusion jobsStarted now =
      .ok (after, reply)) :
    Effect hashes stored
      (.verifyProbe requested repository workflow runId conclusion jobsStarted now) after
      reply := by
  unfold verifyProbe at h
  rcases stored with _ | current
  · cases h
  simp only [] at h
  rcases hp : current.probe with _ | expected <;> simp only [hp] at h
  · cases h
  split_ifs at h with hc
  obtain ⟨rfl, rfl⟩ := Prod.mk.inj (Except.ok.inj h)
  simp only [not_or, not_not] at hc
  obtain ⟨ho, hs, hr, hw, hn⟩ := hc
  exact .verified rfl ho hp hs hr hw hn rfl rfl ho (fun key => mem_probeHistory _ key)
    (length_probeHistory _) rfl

theorem closeAfterSuccessfulProbe_effect {runId now : String}
    (h : closeAfterSuccessfulProbe stored runId now = .ok (after, reply)) :
    Effect hashes stored (.closeAfterSuccessfulProbe runId now) after reply := by
  unfold closeAfterSuccessfulProbe at h
  rcases stored with _ | current
  · cases h
  simp only [] at h
  split_ifs at h with hc
  obtain ⟨rfl, rfl⟩ := Prod.mk.inj (Except.ok.inj h)
  simp only [not_or, not_not] at hc
  obtain ⟨probe, hp, hs⟩ := (Option.any_eq_true _ _).1 hc.2
  exact .closed rfl hc.1 hp hs rfl hp (fun key => mem_probeHistory _ key) (length_probeHistory _) rfl

theorem claimUsageAlert_effect {owner month now : String} {threshold : ℤ} {observedMinutes : ℚ}
    (h : claimUsageAlert stored owner month threshold observedMinutes now = .ok (after, reply)) :
    Effect hashes stored (.claimUsageAlert owner month threshold observedMinutes now) after
      reply := by
  unfold claimUsageAlert at h
  have halerts : (get owner stored).usageAlerts = alertsOf stored := by cases stored <;> rfl
  have hrequests : (get owner stored).probeRequests = requestsOf stored := by cases stored <;> rfl
  simp only [] at h
  split_ifs at h with hm
  · obtain ⟨rfl, rfl⟩ := Prod.mk.inj (Except.ok.inj h)
    exact .same (by simp) (by simp)
  · obtain ⟨rfl, rfl⟩ := Prod.mk.inj (Except.ok.inj h)
    rw [halerts] at hm
    refine .alerted hm rfl rfl hrequests fun marker => ?_
    simp only [AList.mem_insert, halerts]

theorem run_effect {t : Tx} (h : t.run hashes stored = .ok (after, reply)) :
    Effect hashes stored t after reply := by
  cases t with
  | openCircuit => exact openCircuit_effect h
  | claimModePropagation => exact claimModePropagation_effect h
  | finishModePropagation => exact finishModePropagation_effect h
  | reserveProbe => exact reserveProbe_effect h
  | finishProbeDispatch => exact finishProbeDispatch_effect h
  | verifyProbe => exact verifyProbe_effect h
  | closeAfterSuccessfulProbe => exact closeAfterSuccessfulProbe_effect h
  | claimUsageAlert => exact claimUsageAlert_effect h

end Effect

end Circuit
