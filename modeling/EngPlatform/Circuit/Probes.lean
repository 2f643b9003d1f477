import EngPlatform.Circuit.Runs

/-!
# Health probes

A probe is reserved once for an idempotency key, only where none is pending, and closes the circuit
only after it was recorded to have succeeded. A probe is known by its nonce: a callback that read
the probe of an earlier opening is told apart by it, since a circuit that opens anew has no probe.
-/

set_option linter.dupNamespace false

namespace Circuit

open Interleave

def openOf (stored : Option Document) : Bool := stored.any (·.state = .opened)

def probeOf (stored : Option Document) : Option Probe := stored.bind (·.probe)

/-- The transaction opened the circuit. -/
def Entry.opens (e : Entry) : Bool :=
  match e.tx, e.reply with
  | .openCircuit .., .circuit _ true => true
  | _, _ => false

/-- `reserve_probe` returned `created=True` for the idempotency key. -/
def Entry.creates (idempotencyKey : String) (e : Entry) : Bool :=
  match e.tx, e.reply with
  | .reserveProbe _ _ _ _ key _ _, .circuit _ true => key = idempotencyKey
  | _, _ => false

/-- A probe with this nonce, repository and workflow was created. -/
def Entry.reserves (nonce repository workflow : String) (e : Entry) : Prop :=
  ∃ requestedBy reason key now d,
    e.tx = .reserveProbe repository workflow requestedBy reason key nonce now ∧
      e.reply = .circuit d true

/-- The run of the probe with this nonce was recorded with its conclusion and started jobs. -/
def Entry.records (nonce runId conclusion : String) (jobsStarted : ℤ) (e : Entry) : Prop :=
  ∃ requested repository workflow now d, requested.nonce = nonce ∧
    e.tx = .verifyProbe requested repository workflow runId conclusion jobsStarted now ∧
      e.reply = .circuit d true

/-- The probe with this nonce was recorded, or its dispatch given up. -/
def Entry.settles (nonce : String) (e : Entry) : Prop :=
  (∃ runId conclusion jobsStarted, e.records nonce runId conclusion jobsStarted) ∨
    ∃ now d, e.tx = .finishProbeDispatch nonce .notDispatched now ∧ e.reply = .circuit d true

/-- The transactions since the circuit was last opened. -/
def sinceOpened (log : List Entry) : List Entry := log.takeWhile fun e => ¬e.opens

/-- How often a probe was created for the key. -/
def World.created (w : World) (idempotencyKey : String) : ℕ :=
  w.log.countP (Entry.creates idempotencyKey)

/-- The stored probe was reserved since the circuit was last opened, and then recorded to have
succeeded in the given run with a started job. -/
def Earned (past : List Entry) (probe : Probe) (runId : String) : Prop :=
  probe.status = .verified ∧ probe.runId = some runId ∧ probe.conclusion = some "success" ∧
    ∃ jobsStarted, 1 ≤ jobsStarted ∧ probe.jobsStarted = some jobsStarted ∧
      ∃ v r, [v, r].Sublist (sinceOpened past) ∧
        r.reserves probe.nonce probe.repository probe.workflow ∧
        v.records probe.nonce runId "success" jobsStarted

/-- What the protocol promises of the transactions so far. -/
structure ProbeSafe (w : World) : Prop where
  once : ∀ idempotencyKey, w.created idempotencyKey ≤ 1
  alone : ∀ e past, e :: past <:+ w.log → (∃ key, e.creates key = true) →
    (∀ p ∈ probeOf e.before, p.status ≠ .requested) ∧
      ∀ newer, ∀ r : Entry, ∀ older nonce repository workflow, past = newer ++ r :: older →
        r.reserves nonce repository workflow → ∃ s ∈ newer, s.settles nonce
  closed : ∀ e past, e :: past <:+ w.log → openOf e.before = true → openOf e.after = false →
    ∃ runId now, e.tx = .closeAfterSuccessfulProbe runId now ∧
      ∃ probe ∈ probeOf e.before, Earned past probe runId
  bounded : (requestsOf w.circuit).keys.length ≤ probeRequestLimit
  kept : ∀ e ∈ w.log, ∀ key ∈ requestsOf e.before, key ∈ requestsOf w.circuit

/-- What holds of the document besides. -/
structure ProbeInv (hashes : Hashes) (w : World) : Prop where
  idle : openOf w.circuit = false → ∀ p ∈ probeOf w.circuit, p.status ≠ .requested
  reserved : openOf w.circuit = true → ∀ p ∈ probeOf w.circuit,
    ∃ r ∈ sinceOpened w.log, r.reserves p.nonce p.repository p.workflow
  recorded : openOf w.circuit = true → ∀ p ∈ probeOf w.circuit, p.status = .verified →
    ∃ runId conclusion jobsStarted, p.runId = some runId ∧ p.conclusion = some conclusion ∧
      p.jobsStarted = some jobsStarted ∧ ∃ v r, [v, r].Sublist (sinceOpened w.log) ∧
        r.reserves p.nonce p.repository p.workflow ∧
        v.records p.nonce runId conclusion jobsStarted
  pending : ∀ newer, ∀ r : Entry, ∀ older nonce repository workflow, w.log = newer ++ r :: older →
    r.reserves nonce repository workflow → (∃ s ∈ newer, s.settles nonce) ∨
      ∃ p ∈ probeOf w.circuit, p.nonce = nonce ∧ p.status = .requested
  remembered : ∀ e ∈ w.log, ∀ key, e.creates key = true → hashes.key key ∈ requestsOf w.circuit

theorem created_commit (w : World) (t : Tx) (after : Option Document) (reply : Reply)
    (key : String) :
    (w.commit t after reply).created key = w.created key +
      if Entry.creates key ⟨w.circuit, t, after, reply⟩ then 1 else 0 := by
  unfold World.created World.commit
  rw [List.countP_cons]

theorem sinceOpened_cons (e : Entry) (log : List Entry) (h : e.opens = false) :
    sinceOpened (e :: log) = e :: sinceOpened log := by
  unfold sinceOpened
  rw [List.takeWhile_cons_of_pos (by simp [h])]

/-- A split of a longer log splits the old one, unless it splits off the new entry. -/
theorem split_cons {e r : Entry} {log newer older : List Entry}
    (h : e :: log = newer ++ r :: older) :
    (newer = [] ∧ r = e ∧ older = log) ∨ ∃ newer', newer = e :: newer' ∧
      log = newer' ++ r :: older := by
  rcases newer with _ | ⟨e', newer'⟩
  · simp only [List.nil_append, List.cons.injEq] at h
    exact .inl ⟨rfl, h.1.symm, h.2.symm⟩
  · simp only [List.cons_append, List.cons.injEq] at h
    exact .inr ⟨newer', by rw [h.1], h.2⟩

theorem suffix_cons {e e' : Entry} {log past : List Entry} (h : e :: past <:+ e' :: log) :
    (e = e' ∧ past = log) ∨ e :: past <:+ log := by
  rcases List.suffix_cons_iff.1 h with h | h
  · simp only [List.cons.injEq] at h
    exact .inl h
  · exact .inr h

section Effects

variable {hashes : Hashes} {stored after : Option Document} {t : Tx} {reply : Reply}

/-- No transaction forgets a request. -/
theorem Effect.requests (h : Effect hashes stored t after reply) (key : String)
    (hk : key ∈ requestsOf stored) : key ∈ requestsOf after := by
  cases h with
  | same => exact hk
  | opened _ _ _ hrequests | alerted _ _ _ hrequests =>
    simp only [requestsOf, Option.map_some, Option.getD_some] at hrequests ⊢
    rw [hrequests]
    exact hk
  | leased hs =>
    rw [hs] at hk
    exact hk
  | reserved hs _ _ _ _ _ _ _ _ _ _ hkeys =>
    rw [hs] at hk
    exact (hkeys key).2 (.inr hk)
  | finished hs _ _ _ _ _ _ hkeys | verified hs _ _ _ _ _ _ _ _ _ hkeys
    | closed hs _ _ _ _ _ hkeys =>
    rw [hs] at hk
    exact (hkeys key).2 hk

theorem Effect.bounded (h : Effect hashes stored t after reply)
    (hb : (requestsOf stored).keys.length ≤ probeRequestLimit) :
    (requestsOf after).keys.length ≤ probeRequestLimit := by
  cases h with
  | same => exact hb
  | opened _ _ _ hrequests | alerted _ _ _ hrequests =>
    simp only [requestsOf, Option.map_some, Option.getD_some] at hrequests ⊢
    rw [hrequests]
    exact hb
  | leased hs =>
    rw [hs] at hb
    exact hb
  | reserved hs _ _ _ hroom _ _ _ _ _ _ _ hlength =>
    simp only [requestsOf, Option.map_some, Option.getD_some]
    omega
  | finished hs _ _ _ _ _ _ _ hlength | verified hs _ _ _ _ _ _ _ _ _ _ hlength
    | closed hs _ _ _ _ _ _ hlength =>
    rw [hs] at hb
    simp only [requestsOf, Option.map_some, Option.getD_some] at hb ⊢
    omega

/-- A key that a probe is created for was not remembered, and no probe was pending. -/
theorem Effect.creates (h : Effect hashes stored t after reply) {key : String}
    (hc : Entry.creates key ⟨stored, t, after, reply⟩ = true) :
    hashes.key key ∉ requestsOf stored ∧ hashes.key key ∈ requestsOf after ∧
      ∀ p ∈ probeOf stored, p.status ≠ .requested := by
  cases h with
  | same hr | leased _ hr =>
    unfold Entry.creates at hc
    split at hc
    · exact absurd ‹reply = _› (hr _)
    · cases hc
  | reserved hs _ hpending hnew _ _ _ _ _ _ _ hkeys =>
    have hkey := of_decide_eq_true hc
    subst hkey
    rw [hs]
    exact ⟨hnew, (hkeys _).2 (.inl rfl), hpending⟩
  | opened | finished | verified | closed | alerted => cases hc

/-- Only a successful probe closes the circuit. -/
theorem Effect.closes (h : Effect hashes stored t after reply) (hb : openOf stored = true)
    (ha : openOf after = false) : ∃ runId now, t = .closeAfterSuccessfulProbe runId now ∧
      ∃ probe ∈ probeOf stored, probe.succeeded runId = true := by
  cases h with
  | same => simp [hb] at ha
  | opened _ hopened => simp [openOf, hopened] at ha
  | leased hs =>
    rw [hs] at hb
    simp only [openOf, Option.any_some] at hb ha
    simp [hb] at ha
  | reserved _ _ _ _ _ hstate => simp [openOf, hstate] at ha
  | verified _ _ _ _ _ _ _ _ _ hstate => simp [openOf, hstate] at ha
  | finished hs _ _ _ _ _ hstate =>
    rw [hs] at hb
    simp only [openOf, Option.any_some, hstate] at hb ha
    simp [hb] at ha
  | @alerted d owner _ _ _ _ _ hstate =>
    rcases stored with _ | current
    · simp [openOf] at hb
    · simp only [openOf, Option.any_some, hstate, get, Option.getD_some] at hb ha
      simp [hb] at ha
  | closed hs _ hold hsucceeded =>
    exact ⟨_, _, rfl, _, by rw [hs]; exact hold, hsucceeded⟩

end Effects

/-- A probe that succeeded in a run was reserved and recorded since the last opening. -/
theorem ProbeInv.earned {hashes : Hashes} {w : World} (hI : ProbeInv hashes w)
    (ho : openOf w.circuit = true) {probe : Probe} (hp : probe ∈ probeOf w.circuit)
    {runId : String} (hs : probe.succeeded runId = true) : Earned w.log probe runId := by
  simp only [Probe.succeeded, decide_eq_true_eq] at hs
  obtain ⟨hstatus, hrun, hconclusion, hjobs⟩ := hs
  obtain ⟨r, conclusion, jobsStarted, hr, hc, hj, hrest⟩ := hI.recorded ho probe hp hstatus
  rw [hr] at hrun
  rw [hc] at hconclusion
  rw [hj] at hjobs
  obtain rfl : r = runId := hrun
  obtain rfl : conclusion = "success" := Option.some.inj hconclusion
  exact ⟨hstatus, hr, hc, jobsStarted, hjobs, hj, hrest⟩

theorem ProbeSafe.commit {hashes : Hashes} {w : World} (hI : ProbeInv hashes w) (hS : ProbeSafe w)
    {t : Tx} {after : Option Document} {reply : Reply}
    (he : Effect hashes w.circuit t after reply) : ProbeSafe (w.commit t after reply) where
  once := fun key => by
    rw [created_commit]
    split_ifs with hc
    · obtain ⟨hnew, -, -⟩ := he.creates hc
      have : w.created key = 0 := by
        refine List.countP_eq_zero.2 fun e hlog hold => hnew ?_
        exact hI.remembered e hlog key hold
      omega
    · exact hS.once key
  alone := fun e past hsuffix ⟨key, hc⟩ => by
    rcases suffix_cons hsuffix with ⟨rfl, rfl⟩ | hold
    · obtain ⟨-, -, hidle⟩ := he.creates hc
      refine ⟨hidle, fun newer r older nonce repository workflow hsplit hr => ?_⟩
      rcases hI.pending newer r older nonce repository workflow hsplit hr with h | ⟨p, hp, -, h⟩
      · exact h
      · exact absurd h (hidle p hp)
    · exact hS.alone e past hold ⟨key, hc⟩
  closed := fun e past hsuffix hb ha => by
    rcases suffix_cons hsuffix with ⟨rfl, rfl⟩ | hold
    · obtain ⟨runId, now, rfl, probe, hp, hs⟩ := he.closes hb ha
      exact ⟨runId, now, rfl, probe, hp, hI.earned hb hp hs⟩
    · exact hS.closed e past hold hb ha
  bounded := he.bounded hS.bounded
  kept := fun e hlog key hk => by
    rcases List.mem_cons.1 hlog with rfl | hlog
    · exact he.requests key hk
    · exact he.requests key (hS.kept e hlog key hk)

section Commit

variable {hashes : Hashes} {w : World} {t : Tx} {after : Option Document} {reply : Reply}

/-- The reservations of the log, where the new entry made none. -/
theorem ProbeInv.older (hI : ProbeInv hashes w) {e : Entry}
    (hno : ∀ nonce repository workflow, ¬e.reserves nonce repository workflow)
    {newer older : List Entry} {r : Entry} {nonce repository workflow : String}
    (hsplit : e :: w.log = newer ++ r :: older) (hr : r.reserves nonce repository workflow) :
    ∃ newer', newer = e :: newer' ∧ ((∃ s ∈ newer', s.settles nonce) ∨
      ∃ p ∈ probeOf w.circuit, p.nonce = nonce ∧ p.status = .requested) := by
  rcases split_cons hsplit with ⟨-, rfl, -⟩ | ⟨newer', rfl, hold⟩
  · exact absurd hr (hno _ _ _)
  · exact ⟨newer', rfl, hI.pending _ _ _ _ _ _ hold hr⟩

/-- A request that created no probe was remembered before, and is not forgotten. -/
theorem ProbeInv.remember (hI : ProbeInv hashes w) (he : Effect hashes w.circuit t after reply) :
    ∀ e ∈ (w.commit t after reply).log, ∀ key, e.creates key = true →
      hashes.key key ∈ requestsOf after := by
  intro e hlog key hc
  rcases List.mem_cons.1 hlog with rfl | hlog
  · exact (he.creates hc).2.1
  · exact he.requests _ (hI.remembered e hlog key hc)

theorem not_reserves {e : Entry} (h : ∀ d, e.reply ≠ .circuit d true)
    (nonce repository workflow : String) : ¬e.reserves nonce repository workflow := by
  rintro ⟨_, _, _, _, d, -, hr⟩
  exact h d hr

theorem not_reserves_tx {e : Entry} (h : ∀ repository workflow requestedBy reason key nonce now,
    e.tx ≠ .reserveProbe repository workflow requestedBy reason key nonce now)
    (nonce repository workflow : String) : ¬e.reserves nonce repository workflow := by
  rintro ⟨_, _, _, _, _, ht, -⟩
  exact h _ _ _ _ _ _ _ ht

theorem not_opens {e : Entry} (h : ∀ d, e.reply ≠ .circuit d true) : e.opens = false := by
  unfold Entry.opens
  split
  · exact absurd ‹e.reply = _› (h _)
  · rfl

/-- A transaction that leaves the circuit's state and its probe. -/
theorem ProbeInv.quiet (hI : ProbeInv hashes w) (he : Effect hashes w.circuit t after reply)
    (hopen : openOf after = openOf w.circuit) (hprobe : probeOf after = probeOf w.circuit)
    (hr : ∀ d, reply ≠ .circuit d true) : ProbeInv hashes (w.commit t after reply) := by
  have hsince : sinceOpened (w.commit t after reply).log =
      ⟨w.circuit, t, after, reply⟩ :: sinceOpened w.log := sinceOpened_cons _ _ (not_opens hr)
  refine
    { idle := fun ho p hp => ?_
      reserved := fun ho p hp => ?_
      recorded := fun ho p hp hs => ?_
      pending := fun newer r older nonce repository workflow hsplit hres => ?_
      remembered := hI.remember he }
  · exact hI.idle (hopen ▸ ho) p (hprobe ▸ hp)
  · obtain ⟨r, hmem, hres⟩ := hI.reserved (hopen ▸ ho) p (hprobe ▸ hp)
    rw [hsince]
    exact ⟨r, List.mem_cons_of_mem _ hmem, hres⟩
  · obtain ⟨runId, conclusion, jobs, h1, h2, h3, v, r, hsub, hrest⟩ :=
      hI.recorded (hopen ▸ ho) p (hprobe ▸ hp) hs
    rw [hsince]
    exact ⟨runId, conclusion, jobs, h1, h2, h3, v, r, hsub.cons _, hrest⟩
  · obtain ⟨newer', rfl, ⟨s, hs, hset⟩ | hpend⟩ := hI.older (not_reserves hr) hsplit hres
    · exact .inl ⟨s, List.mem_cons_of_mem _ hs, hset⟩
    · exact .inr (hprobe ▸ hpend)

theorem ProbeInv.opened (hI : ProbeInv hashes w)
    {owner reason repository runId evidence now : String} {d : Document}
    (he : Effect hashes w.circuit (.openCircuit owner reason repository runId evidence now) (some d)
      (.circuit d true))
    (hclosed : openOf w.circuit = false) (hprobe : d.probe = none) :
    ProbeInv hashes (w.commit (.openCircuit owner reason repository runId evidence now) (some d)
      (.circuit d true)) := by
  have hnone : ∀ p, p ∉ probeOf (some d) := fun p hp => by simp [probeOf, hprobe] at hp
  refine
    { idle := fun _ p hp => absurd hp (hnone p)
      reserved := fun _ p hp => absurd hp (hnone p)
      recorded := fun _ p hp => absurd hp (hnone p)
      pending := fun newer r older nonce repository workflow hsplit hres => ?_
      remembered := hI.remember he }
  obtain ⟨newer', rfl, ⟨s, hs, hset⟩ | ⟨p, hp, -, hreq⟩⟩ :=
    hI.older (not_reserves_tx (by simp)) hsplit hres
  · exact .inl ⟨s, List.mem_cons_of_mem _ hs, hset⟩
  · exact absurd hreq (hI.idle hclosed p hp)

theorem ProbeInv.created (hI : ProbeInv hashes w) {d : Document} {probe : Probe}
    {repository workflow requestedBy reason key nonce now : String}
    (he : Effect hashes w.circuit
      (.reserveProbe repository workflow requestedBy reason key nonce now) (some d)
      (.circuit d true))
    (hopen : d.state = .opened) (hprobe : d.probe = some probe) (hstatus : probe.status = .requested)
    (hnonce : probe.nonce = nonce) (hrepository : probe.repository = repository)
    (hworkflow : probe.workflow = workflow)
    (hpending : ∀ p ∈ probeOf w.circuit, p.status ≠ .requested) :
    ProbeInv hashes
      (w.commit (.reserveProbe repository workflow requestedBy reason key nonce now) (some d)
        (.circuit d true)) := by
  subst hnonce hrepository hworkflow
  have hp : probeOf (some d) = some probe := hprobe
  refine
    { idle := fun ho => by simp [openOf, World.commit, hopen] at ho
      reserved := fun _ p hmem => ?_
      recorded := fun _ p hmem hs => ?_
      pending := fun newer r older nonce repository workflow hsplit hres => ?_
      remembered := hI.remember he }
  · obtain rfl : probe = p := Option.some.inj (hp.symm.trans hmem)
    have hsince := sinceOpened_cons ⟨w.circuit, .reserveProbe probe.repository probe.workflow
      requestedBy reason key probe.nonce now, some d, .circuit d true⟩ w.log rfl
    unfold World.commit
    rw [hsince]
    exact ⟨_, List.mem_cons_self, requestedBy, reason, key, now, d, rfl, rfl⟩
  · obtain rfl : probe = p := Option.some.inj (hp.symm.trans hmem)
    rw [hstatus] at hs
    cases hs
  · rcases split_cons hsplit with ⟨rfl, rfl, -⟩ | ⟨newer', rfl, hold⟩
    · obtain ⟨_, _, _, _, _, htx, -⟩ := hres
      obtain ⟨-, -, -, -, -, rfl, -⟩ := Tx.reserveProbe.inj htx
      exact .inr ⟨probe, hp, rfl, hstatus⟩
    · rcases hI.pending _ _ _ _ _ _ hold hres with ⟨s, hs, hset⟩ | ⟨p, hmem, -, hreq⟩
      · exact .inl ⟨s, List.mem_cons_of_mem _ hs, hset⟩
      · exact absurd hreq (hpending p hmem)

theorem ProbeInv.finished (hI : ProbeInv hashes w) {d : Document} {probe probe' : Probe}
    {nonce now : String} {dispatchStatus : Dispatch}
    (he : Effect hashes w.circuit (.finishProbeDispatch nonce dispatchStatus now) (some d)
      (.circuit d true))
    (hopen : openOf (some d) = openOf w.circuit) (hold : probeOf w.circuit = some probe)
    (hprobe : d.probe = some probe') (hnonce : probe.nonce = nonce)
    (hsame : { probe' with dispatchStatus := probe.dispatchStatus, status := probe.status } = probe)
    (hstatus : probe'.status = probe.status ∨
      (dispatchStatus = .notDispatched ∧ probe.status = .requested ∧ probe'.status = .cancelled)) :
    ProbeInv hashes (w.commit (.finishProbeDispatch nonce dispatchStatus now) (some d)
      (.circuit d true)) := by
  have hnew : probeOf (some d) = some probe' := hprobe
  have hsame' : probe'.nonce = probe.nonce ∧ probe'.repository = probe.repository ∧
      probe'.workflow = probe.workflow ∧ probe'.runId = probe.runId ∧
      probe'.conclusion = probe.conclusion ∧ probe'.jobsStarted = probe.jobsStarted := by
    rw [← hsame]
    exact ⟨rfl, rfl, rfl, rfl, rfl, rfl⟩
  obtain ⟨hn, hr, hwf, hrun, hc, hj⟩ := hsame'
  have hsince := sinceOpened_cons
    ⟨w.circuit, .finishProbeDispatch nonce dispatchStatus now, some d, .circuit d true⟩ w.log rfl
  refine
    { idle := fun ho p hp hreq => ?_
      reserved := fun ho p hp => ?_
      recorded := fun ho p hp hs => ?_
      pending := fun newer r older n repository workflow hsplit hres => ?_
      remembered := hI.remember he }
  · obtain rfl : probe' = p := Option.some.inj (hnew.symm.trans hp)
    rcases hstatus with h | ⟨-, -, h⟩ <;> rw [h] at hreq
    · exact hI.idle (hopen ▸ ho) probe hold hreq
    · cases hreq
  · obtain rfl : probe' = p := Option.some.inj (hnew.symm.trans hp)
    obtain ⟨r, hmem, hres⟩ := hI.reserved (hopen ▸ ho) probe hold
    unfold World.commit
    rw [hsince, hn, hr, hwf]
    exact ⟨r, List.mem_cons_of_mem _ hmem, hres⟩
  · obtain rfl : probe' = p := Option.some.inj (hnew.symm.trans hp)
    have hverified : probe.status = .verified := by
      rcases hstatus with h | ⟨-, -, h⟩ <;> rw [h] at hs
      · exact hs
      · cases hs
    obtain ⟨runId, conclusion, jobs, h1, h2, h3, v, r, hsub, hrest⟩ :=
      hI.recorded (hopen ▸ ho) probe hold hverified
    unfold World.commit
    rw [hsince, hn, hr, hwf, hrun, hc, hj]
    exact ⟨runId, conclusion, jobs, h1, h2, h3, v, r, hsub.cons _, hrest⟩
  · obtain ⟨newer', rfl, ⟨s, hs, hset⟩ | ⟨p, hp, hpn, hreq⟩⟩ :=
      hI.older (not_reserves_tx (by simp)) hsplit hres
    · exact .inl ⟨s, List.mem_cons_of_mem _ hs, hset⟩
    · obtain rfl : probe = p := Option.some.inj (hold.symm.trans hp)
      rcases hstatus with h | ⟨hdis, -, -⟩
      · exact .inr ⟨probe', hnew, hn.trans hpn, h.trans hreq⟩
      · refine .inl ⟨_, List.mem_cons_self, .inr ⟨now, d, ?_, rfl⟩⟩
        rw [← hpn, ← hdis, hnonce]

theorem ProbeInv.verified (hI : ProbeInv hashes w) {d : Document}
    {expected requested probe : Probe} {repository workflow runId conclusion now : String}
    {jobsStarted : ℤ}
    (he : Effect hashes w.circuit
      (.verifyProbe requested repository workflow runId conclusion jobsStarted now) (some d)
      (.circuit d true))
    (hopened : openOf w.circuit = true) (hold : probeOf w.circuit = some expected)
    (hrepository : expected.repository = repository) (hworkflow : expected.workflow = workflow)
    (hnonce : expected.nonce = requested.nonce) (hprobe : d.probe = some probe)
    (hsame : probe = { requested with
      status := .verified, repository := repository, workflow := workflow, runId := some runId,
      conclusion := some conclusion, jobsStarted := some jobsStarted, completedAt := some now,
      dispatchStatus := expected.dispatchStatus })
    (hopen : d.state = .opened) :
    ProbeInv hashes
      (w.commit (.verifyProbe requested repository workflow runId conclusion jobsStarted now)
        (some d) (.circuit d true)) := by
  subst hrepository hworkflow
  have hnew : probeOf (some d) = some probe := hprobe
  have hsince := sinceOpened_cons ⟨w.circuit, .verifyProbe requested expected.repository
    expected.workflow runId conclusion jobsStarted now, some d, .circuit d true⟩ w.log rfl
  have hrecords : Entry.records expected.nonce runId conclusion jobsStarted
      ⟨w.circuit, .verifyProbe requested expected.repository expected.workflow runId conclusion
        jobsStarted now, some d, .circuit d true⟩ :=
    ⟨requested, _, _, now, d, hnonce.symm, rfl, rfl⟩
  have hidentity : probe.nonce = expected.nonce ∧ probe.repository = expected.repository ∧
      probe.workflow = expected.workflow := by
    rw [hsame]
    exact ⟨hnonce.symm, rfl, rfl⟩
  obtain ⟨hn, hr, hwf⟩ := hidentity
  obtain ⟨r, hmem, hres⟩ := hI.reserved hopened expected hold
  refine
    { idle := fun ho => by simp [openOf, World.commit, hopen] at ho
      reserved := fun _ p hp => ?_
      recorded := fun _ p hp _ => ?_
      pending := fun newer r' older n repository workflow hsplit hres' => ?_
      remembered := hI.remember he }
  · obtain rfl : probe = p := Option.some.inj (hnew.symm.trans hp)
    unfold World.commit
    rw [hsince, hn, hr, hwf]
    exact ⟨r, List.mem_cons_of_mem _ hmem, hres⟩
  · obtain rfl : probe = p := Option.some.inj (hnew.symm.trans hp)
    unfold World.commit
    rw [hsince, hn, hr, hwf]
    refine ⟨runId, conclusion, jobsStarted, by rw [hsame], by rw [hsame], by rw [hsame], _, r, ?_,
      hres, hrecords⟩
    exact (List.singleton_sublist.2 hmem).cons_cons _
  · obtain ⟨newer', rfl, ⟨s, hs, hset⟩ | ⟨p, hp, hpn, -⟩⟩ :=
      hI.older (not_reserves_tx (by simp)) hsplit hres'
    · exact .inl ⟨s, List.mem_cons_of_mem _ hs, hset⟩
    · obtain rfl : expected = p := Option.some.inj (hold.symm.trans hp)
      exact .inl ⟨_, List.mem_cons_self, .inl ⟨runId, conclusion, jobsStarted, hpn ▸ hrecords⟩⟩

theorem ProbeInv.closed (hI : ProbeInv hashes w) {d : Document} {probe : Probe}
    {runId now : String}
    (he : Effect hashes w.circuit (.closeAfterSuccessfulProbe runId now) (some d)
      (.circuit d true))
    (hold : probeOf w.circuit = some probe) (hsucceeded : probe.succeeded runId = true)
    (hstate : d.state = .closed) (hprobe : d.probe = some probe) :
    ProbeInv hashes (w.commit (.closeAfterSuccessfulProbe runId now) (some d)
      (.circuit d true)) := by
  have hnew : probeOf (some d) = some probe := hprobe
  have hverified : probe.status ≠ .requested := by
    simp only [Probe.succeeded, decide_eq_true_eq] at hsucceeded
    rw [hsucceeded.1]
    decide
  have hshut : openOf (some d) = false := by simp [openOf, hstate]
  refine
    { idle := fun _ p hp => ?_
      reserved := fun ho => absurd (hshut.symm.trans ho) (by decide)
      recorded := fun ho => absurd (hshut.symm.trans ho) (by decide)
      pending := fun newer r older n repository workflow hsplit hres => ?_
      remembered := hI.remember he }
  · obtain rfl : probe = p := Option.some.inj (hnew.symm.trans hp)
    exact hverified
  · obtain ⟨newer', rfl, ⟨s, hs, hset⟩ | ⟨p, hp, -, hreq⟩⟩ :=
      hI.older (not_reserves_tx (by simp)) hsplit hres
    · exact .inl ⟨s, List.mem_cons_of_mem _ hs, hset⟩
    · obtain rfl : probe = p := Option.some.inj (hold.symm.trans hp)
      exact absurd hreq hverified

theorem ProbeInv.commit (hI : ProbeInv hashes w) (he : Effect hashes w.circuit t after reply) :
    ProbeInv hashes (w.commit t after reply) := by
  have he' := he
  generalize hstored : w.circuit = stored at he'
  cases he' with
  | same hr => exact hI.quiet he (by rw [hstored]) (by rw [hstored]) hr
  | leased hs hr =>
    rw [hs] at hstored
    exact hI.quiet he (by rw [hstored]; rfl) (by rw [hstored]; rfl) hr
  | alerted _ hstate hprobe =>
    refine hI.quiet he ?_ ?_ (by simp) <;> rw [hstored]
    · rcases stored with _ | current
      · have hclosed : _ = State.closed := hstate
        simp [openOf, hclosed]
      · simp only [openOf, Option.any_some, hstate]
        rfl
    · rcases stored with _ | current <;> exact hprobe
  | opened hclosed _ hprobe =>
    refine hI.opened he ?_ hprobe
    rw [hstored]
    rcases stored with _ | current
    · rfl
    · simpa [openOf] using hclosed current rfl
  | reserved hs _ hpending _ _ hstate hprobe hstatus hnonce hrepository hworkflow =>
    refine hI.created he hstate hprobe hstatus hnonce hrepository hworkflow ?_
    rw [hstored, hs]
    exact hpending
  | finished hs hold hprobe hnonce hsame hstatus hstate =>
    rw [hs] at hstored
    refine hI.finished he ?_ (by rw [hstored]; exact hold) hprobe hnonce hsame hstatus
    rw [hstored]
    simp only [openOf, Option.any_some, hstate]
  | verified hs hopened hold _ hrepository hworkflow hnonce hprobe hsame hstate =>
    rw [hs] at hstored
    exact hI.verified he (by rw [hstored]; simpa [openOf] using hopened)
      (by rw [hstored]; exact hold) hrepository hworkflow hnonce hprobe hsame hstate
  | closed hs _ hold hsucceeded hstate hprobe =>
    rw [hs] at hstored
    exact hI.closed he (by rw [hstored]; exact hold) hsucceeded hstate hprobe

end Commit

section Runs

variable {ι : Type} [DecidableEq ι] {hashes : Hashes}

/-- The health-probe protocol is safe in every run of the operations on one owner. -/
theorem probe_protocol {operations : ι → Operation} {c : Conf ι World Call.Ans Err Reply}
    (h : Reach (system hashes) (always ι World Call) (start operations) c) :
    ProbeSafe c.state := by
  have hJ : ProbeInv hashes c.state ∧ ProbeSafe c.state := by
    refine run_invariant (J := fun w => ProbeInv hashes w ∧ ProbeSafe w) ⟨?_, ?_⟩
      (fun _ w t after reply hJ _ hrun => ?_) h
    · exact
        { idle := fun _ _ hp => nomatch hp
          reserved := fun _ _ hp => nomatch hp
          recorded := fun _ _ hp => nomatch hp
          pending := fun newer _ _ _ _ _ hsplit => by simp at hsplit
          remembered := fun _ hlog => nomatch hlog }
    · exact
        { once := fun _ => Nat.zero_le 1
          alone := fun _ _ hsuffix => by simp at hsuffix
          closed := fun _ _ hsuffix => by simp at hsuffix
          bounded := Nat.zero_le _
          kept := fun _ hlog => nomatch hlog }
    · have he := run_effect hrun
      exact ⟨hJ.1.commit he, hJ.2.commit hJ.1 he⟩
  exact hJ.2

end Runs

/-- The circuit is opened, a probe reserved and dispatched, its success recorded, and the circuit
closed. -/
def probedOperations : ℕ → Operation
  | 0 => .atomic
    (.openCircuit "acme" "github_actions_billing_rejection" "acme/api" "7" "" "t1")
  | 1 => .atomic (.reserveProbe "acme/api" "health.yml" "dev" "check" "key" "nonce" "t2")
  | 2 => .atomic (.finishProbeDispatch "nonce" .dispatched "t3")
  | 3 => .recordProbe "acme" "acme/api" "health.yml" "9" "success" 1 (some "nonce") "t4"
  | _ => .atomic (.closeAfterSuccessfulProbe "9" "t5")

theorem probe_protocol_demo : ∃ c : Conf ℕ World Call.Ans Err Reply,
    c.state.log.length = 5 ∧ openOf c.state.circuit = false ∧ c.state.created "key" = 1 ∧
      ProbeSafe c.state := by
  have hrun := reach_play (turns_sound [0, 1, 2, 3, 3, 4]) (start probedOperations)
    (C := always ℕ World Call) (meets_always _ _)
  exact ⟨_, by decide, by decide, by decide, probe_protocol hrun⟩

end Circuit
