import EngPlatform.LogBudget.Record
import Mathlib.Data.List.Nodup
import Mathlib.Data.List.Pairwise

/-!
# What the validator accepts

`WellFormed` is a document that `record` accepts at its own time and at every later one: what
`record` then returns is the permits not settled and the waiters that are live
(`record_of_wellFormed`).
-/

set_option linter.dupNamespace false

namespace LogBudget

/-- A permit whose times are in order and not after `now`. -/
structure PermitOk (now : ℤ) (p : Permit) : Prop where
  token : isToken p.token = true
  participant : isParticipant p.participant = true
  reserved : p.reservedAt ≤ now
  completed : ∀ c ∈ p.completedAt, p.reservedAt ≤ c ∧ c ≤ now

structure WaiterOk (now : ℤ) (w : Waiter) : Prop where
  participant : isParticipant w.participant = true
  seen : w.enqueuedAt ≤ w.lastSeenAt
  lastSeen : w.lastSeenAt ≤ now

def tokens (l : List Permit) : List String := l.map Permit.token

/-- Who holds a pending permit. -/
def pendings (l : List Permit) : List String :=
  (l.filter fun p => p.completedAt == none).map Permit.participant

def queue (l : List Waiter) : List String := l.map Waiter.participant

structure WellFormed (quota : String) (doc : Document) : Prop where
  schema : doc.schemaVersion = LogBudget.schemaVersion
  quotaProject : doc.quotaProjectId = quota
  attempts_le : doc.attempts.length ≤ maxAttempts
  permits : ∀ p ∈ doc.attempts, PermitOk doc.updatedAt p
  tokens_nodup : (tokens doc.attempts).Nodup
  pendings_nodup : (pendings doc.attempts).Nodup
  waiters_le : doc.waiters.length ≤ maxWaiters
  waiters : ∀ w ∈ doc.waiters, WaiterOk doc.updatedAt w
  queue_nodup : (queue doc.waiters).Nodup
  sorted : doc.waiters.Pairwise fun w w' => w.enqueuedAt ≤ w'.enqueuedAt
  idle : ∀ x ∈ queue doc.waiters, x ∉ pendings doc.attempts

/-- The permits still charged at `now`. -/
def charged (now : ℤ) (l : List Permit) : List Permit :=
  l.filter fun p => !settled now p.completedAt

/-- The waiters live at `now`. -/
def alive (now : ℤ) (l : List Waiter) : List Waiter := l.filter (live now)

/-- What `record` returns for an accepted document. -/
def view (now : ℤ) (doc : Document) : View :=
  ⟨doc, charged now doc.attempts, alive now doc.waiters⟩

theorem PermitOk.mono {t t' : ℤ} (h : t ≤ t') {p : Permit} (hp : PermitOk t p) :
    PermitOk t' p :=
  ⟨hp.token, hp.participant, hp.reserved.trans h,
    fun c hc => ⟨(hp.completed c hc).1, (hp.completed c hc).2.trans h⟩⟩

theorem WaiterOk.mono {t t' : ℤ} (h : t ≤ t') {w : Waiter} (hw : WaiterOk t w) :
    WaiterOk t' w :=
  ⟨hw.participant, hw.seen, hw.lastSeen.trans h⟩

@[simp] theorem tokens_nil : tokens [] = [] := rfl

@[simp] theorem tokens_cons (p : Permit) (l : List Permit) :
    tokens (p :: l) = p.token :: tokens l := rfl

@[simp] theorem tokens_append (l l' : List Permit) :
    tokens (l ++ l') = tokens l ++ tokens l' := List.map_append

@[simp] theorem mem_tokens {x : String} {l : List Permit} :
    x ∈ tokens l ↔ ∃ p ∈ l, p.token = x := List.mem_map

@[simp] theorem mem_queue {x : String} {l : List Waiter} :
    x ∈ queue l ↔ ∃ w ∈ l, w.participant = x := List.mem_map

@[simp] theorem mem_pendings {x : String} {l : List Permit} :
    x ∈ pendings l ↔ ∃ p ∈ l, p.completedAt = none ∧ p.participant = x := by
  simp only [pendings, List.mem_map, List.mem_filter, beq_iff_eq, and_assoc]

theorem pendings_cons (p : Permit) (l : List Permit) :
    pendings (p :: l) =
      if p.completedAt = none then p.participant :: pendings l else pendings l := by
  unfold pendings
  rw [List.filter_cons]
  by_cases h : p.completedAt = none <;> simp [h]

theorem timestamp_ok {value now : ℤ} (h : value ≤ now) : timestamp value now = .ok value :=
  if_neg (not_lt.2 h)

theorem checkPermit_ok {now : ℤ} {seenTokens pending : List String} {p : Permit}
    (hp : PermitOk now p) (ht : p.token ∉ seenTokens)
    (hn : p.completedAt = none → p.participant ∉ pending) :
    checkPermit now seenTokens pending p =
      .ok (if p.completedAt = none then p.participant :: pending else pending) := by
  unfold checkPermit
  simp only [hp.token, hp.participant, ht, timestamp_ok hp.reserved, Bool.not_true,
    decide_false, Bool.or_self, Bool.false_eq_true, if_false]
  rcases hc : p.completedAt with _ | c
  · simp only [hn hc, if_false]
    rfl
  · obtain ⟨hle, hnow⟩ := hp.completed c hc
    simp only [timestamp_ok hnow, reduceCtorEq, if_false]
    exact if_neg (not_lt.2 hle)

theorem scanAttempts_ok {now : ℤ} : ∀ {l : List Permit} {seenTokens pending : List String},
    (∀ p ∈ l, PermitOk now p) → (tokens l).Nodup → (∀ x ∈ tokens l, x ∉ seenTokens) →
    (pendings l).Nodup → (∀ x ∈ pendings l, x ∉ pending) →
    ∃ found, scanAttempts now seenTokens pending l = .ok (charged now l, found) ∧
      ∀ x, x ∈ found ↔ x ∈ pendings l ∨ x ∈ pending
  | [], _, pending, _, _, _, _, _ => ⟨pending, rfl, by simp⟩
  | p :: l, seenTokens, pending, hok, ht, hseen, hp, hfresh => by
    rw [tokens_cons, List.nodup_cons] at ht
    have hpn : p.completedAt = none → p.participant ∉ pending := fun h =>
      hfresh _ (mem_pendings.2 ⟨p, List.mem_cons_self, h, rfl⟩)
    have hrest : (pendings l).Nodup ∧
        ∀ x ∈ pendings l, x ∉ (if p.completedAt = none then p.participant :: pending
          else pending) := by
      rw [pendings_cons] at hp hfresh
      split_ifs at hp hfresh ⊢ with h
      · rw [List.nodup_cons] at hp
        refine ⟨hp.2, fun x hx hmem => ?_⟩
        rcases List.mem_cons.1 hmem with rfl | hmem
        exacts [hp.1 hx, hfresh x (List.mem_cons_of_mem _ hx) hmem]
      · exact ⟨hp, hfresh⟩
    have hseen' : ∀ x ∈ tokens l, x ∉ p.token :: seenTokens := fun x hx hmem => by
      rcases List.mem_cons.1 hmem with rfl | hmem
      exacts [ht.1 hx, hseen x (List.mem_cons_of_mem _ hx) hmem]
    obtain ⟨found, hfound, hmem⟩ := scanAttempts_ok
      (fun q hq => hok q (List.mem_cons_of_mem _ hq)) ht.2 hseen' hrest.1 hrest.2
    refine ⟨found, ?_, fun x => ?_⟩
    · unfold scanAttempts
      rw [checkPermit_ok (hok p List.mem_cons_self) (hseen _ List.mem_cons_self) hpn]
      simp only [Except.bind, bind, hfound, charged, List.filter_cons]
      rcases settled now p.completedAt <;> rfl
    · rw [hmem, pendings_cons]
      split_ifs
      · simp only [List.mem_cons]
        tauto
      · rfl

theorem checkWaiter_ok {now : ℤ} {pending seenWaiters : List String}
    {previousEnqueued : Option ℤ} {w : Waiter} (hw : WaiterOk now w)
    (hs : w.participant ∉ seenWaiters) (hp : w.participant ∉ pending)
    (he : ∀ t ∈ previousEnqueued, t ≤ w.enqueuedAt) :
    checkWaiter now pending seenWaiters previousEnqueued w = .ok () := by
  have he' : previousEnqueued.any (w.enqueuedAt < ·) = false := by
    rcases previousEnqueued with _ | t
    · rfl
    · simpa using he t rfl
  unfold checkWaiter
  simp only [hw.participant, hs, hp, timestamp_ok (hw.seen.trans hw.lastSeen),
    timestamp_ok hw.lastSeen, he', Bool.not_true, decide_false, Bool.or_self, Bool.or_false,
    Bool.false_eq_true, if_false, Except.bind, bind, pure, Except.pure]
  simpa using hw.seen

theorem scanWaiters_ok {now : ℤ} {pending : List String} :
    ∀ {l : List Waiter} {seenWaiters : List String} {previousEnqueued : Option ℤ},
      (∀ w ∈ l, WaiterOk now w) → (queue l).Nodup → (∀ x ∈ queue l, x ∉ seenWaiters) →
      (∀ x ∈ queue l, x ∉ pending) → l.Pairwise (fun w w' => w.enqueuedAt ≤ w'.enqueuedAt) →
      (∀ w ∈ l, ∀ t ∈ previousEnqueued, t ≤ w.enqueuedAt) →
      scanWaiters now pending seenWaiters previousEnqueued l = .ok (alive now l)
  | [], _, _, _, _, _, _, _, _ => rfl
  | w :: l, seenWaiters, previousEnqueued, hok, hn, hs, hp, hsort, he => by
    rw [queue, List.map_cons, List.nodup_cons] at hn
    rw [List.pairwise_cons] at hsort
    have hw : w.participant ∈ queue (w :: l) := mem_queue.2 ⟨w, List.mem_cons_self, rfl⟩
    have hcons : ∀ x ∈ queue l, x ∈ queue (w :: l) := fun x hx => List.mem_cons_of_mem _ hx
    have hrec : scanWaiters now pending (w.participant :: seenWaiters) (some w.enqueuedAt) l =
        .ok (alive now l) := scanWaiters_ok (fun q hq => hok q (List.mem_cons_of_mem _ hq)) hn.2
      (fun x hx hmem => by
        rcases List.mem_cons.1 hmem with rfl | hmem
        exacts [hn.1 hx, hs x (hcons x hx) hmem])
      (fun x hx => hp x (hcons x hx)) hsort.2
      (fun q hq t ht => by
        obtain rfl := Option.some.inj ht
        exact hsort.1 q hq)
    unfold scanWaiters
    rw [checkWaiter_ok (hok w List.mem_cons_self) (hs _ hw) (hp _ hw) (he w List.mem_cons_self)]
    simp only [Except.bind, bind, hrec, alive, List.filter_cons]

/-- A well-formed document is accepted at any time not before its own. -/
theorem record_of_wellFormed {quota : String} {doc : Document} (h : WellFormed quota doc)
    {now : ℤ} (hnow : doc.updatedAt ≤ now) :
    record quota now (some doc) = .ok (view now doc) := by
  obtain ⟨found, hfound, hmem⟩ : ∃ found, scanAttempts now [] [] doc.attempts =
      .ok (charged now doc.attempts, found) ∧ ∀ x, x ∈ found ↔ x ∈ pendings doc.attempts ∨ x ∈ [] :=
    scanAttempts_ok (fun p hp => (h.permits p hp).mono hnow) h.tokens_nodup (by simp)
      h.pendings_nodup (by simp)
  have hw : scanWaiters now found [] none doc.waiters = .ok (alive now doc.waiters) :=
    scanWaiters_ok (fun w hw => (h.waiters w hw).mono hnow) h.queue_nodup (by simp)
      (fun x hx hf => h.idle x hx (by simpa [hmem] using hf)) h.sorted (by simp)
  unfold record
  simp only [h.schema, h.quotaProject, timestamp_ok hnow, hfound, hw, Except.bind, bind,
    ne_eq, not_true_eq_false, decide_false, Bool.or_self, Bool.false_eq_true, if_false,
    not_lt.2 h.attempts_le, not_lt.2 h.waiters_le, view]

theorem wellFormed_fresh (quota : String) (now : ℤ) : WellFormed quota (fresh quota now) where
  schema := rfl
  quotaProject := rfl
  attempts_le := Nat.zero_le _
  permits := by simp [fresh]
  tokens_nodup := List.nodup_nil
  pendings_nodup := List.nodup_nil
  waiters_le := Nat.zero_le _
  waiters := by simp [fresh]
  queue_nodup := List.nodup_nil
  sorted := List.Pairwise.nil
  idle := by simp [fresh]

end LogBudget
