import EngPlatform.LogBudget.Budget

/-!
# First come, first served

A waiter whose entry is refreshed in time keeps its place: the queue in front of it only shrinks,
from the front, as those ahead of it are granted their permits, until it is granted its own. What
one write does to the queue is `queue_step`; over a run the participants granted a permit since
are, in order, among those that stood ahead (`fifo_of_serial`).
-/

set_option linter.dupNamespace false

namespace LogBudget

open Interleave Cas

variable {ι : Type} {quota : String} {calls : ι → Call}

/-- The permits a version grants. -/
def newPermits (x : Commit ι ℤ Document) (h : List (Commit ι ℤ Document)) : List Permit :=
  x.doc.attempts.filter fun p => p.token ∉ tokens (ledger h)

/-- The participants granted a permit by the versions `l` written after `h`, in order. -/
def grantees : List (Commit ι ℤ Document) → List (Commit ι ℤ Document) → List String
  | [], _ => []
  | x :: l, h => grantees l h ++ (newPermits x (l ++ h)).map Permit.participant

/-- Each version `l` written after `h` was read while the participant's entry was live. -/
def Timely (participant : String) :
    List (Commit ι ℤ Document) → List (Commit ι ℤ Document) → Prop
  | [], _ => True
  | x :: l, h => Timely participant l h ∧ ∀ doc ∈ current (l ++ h), ∀ w ∈ doc.waiters,
      w.participant = participant → x.time ≤ w.lastSeenAt + seconds waiterTtlSeconds

/-- The participant waits behind the participants `ahead`, since `enqueued`. -/
def Waits (participant : String) (enqueued : ℤ) (ahead : List String) (l : List Waiter) : Prop :=
  ∃ pre, ∃ w : Waiter, ∃ post, l = pre ++ w :: post ∧ w.participant = participant ∧ w.enqueuedAt = enqueued ∧
    queue pre = ahead

section Queue

variable {participant caller : String} {enqueued now : ℤ} {ahead : List String}
variable {l ws : List Waiter}

theorem live_of_le {w : Waiter} (h : now ≤ w.lastSeenAt + seconds waiterTtlSeconds) :
    live now w = true := by
  simp only [live, decide_eq_true_eq]
  omega

/-- Expiry takes nobody's place who is still live, and may shorten the queue ahead. -/
theorem Waits.alive (h : Waits participant enqueued ahead l)
    (hlive : ∀ w ∈ l, w.participant = participant →
      now ≤ w.lastSeenAt + seconds waiterTtlSeconds) :
    ∃ ahead', ahead'.Sublist ahead ∧ Waits participant enqueued ahead' (alive now l) := by
  obtain ⟨pre, w, post, rfl, hp, he, rfl⟩ := h
  have hw : live now w = true := live_of_le (hlive w (by simp) hp)
  refine ⟨queue (pre.filter (live now)), List.filter_sublist.map _, pre.filter (live now), w,
    post.filter (live now), ?_, hp, he, rfl⟩
  rw [LogBudget.alive, List.filter_append, List.filter_cons_of_pos hw]

/-- Joining the queue or being refreshed in it changes nobody's place. -/
theorem Waits.enqueue {index : ℕ} (h : Waits participant enqueued ahead l)
    (he : enqueue caller now l = some (ws, index)) : Waits participant enqueued ahead ws := by
  obtain ⟨pre, w, post, rfl, hp, hen, rfl⟩ := h
  rcases enqueue_cases he with ⟨-, -, rfl, -⟩ | ⟨pre', v, post', hl, -, -, rfl, -⟩
  · exact ⟨pre, w, post ++ [⟨caller, now, now⟩], by simp, hp, hen, rfl⟩
  · rcases List.append_eq_append_iff.1 hl with ⟨mid, rfl, hmid⟩ | ⟨mid, rfl, hmid⟩
    · rcases mid with _ | ⟨u, mid⟩
      · obtain ⟨rfl, rfl⟩ := List.cons.inj hmid
        exact ⟨pre, { w with lastSeenAt := now }, post, by simp, hp, hen, rfl⟩
      · obtain ⟨rfl, rfl⟩ := List.cons.inj hmid
        exact ⟨pre, w, mid ++ { v with lastSeenAt := now } :: post', by simp, hp, hen, rfl⟩
    · rcases mid with _ | ⟨u, mid⟩
      · obtain ⟨rfl, rfl⟩ := List.cons.inj hmid
        exact ⟨pre', { v with lastSeenAt := now }, post', by simp, hp, hen, by simp⟩
      · obtain ⟨rfl, rfl⟩ := List.cons.inj hmid
        exact ⟨pre' ++ { v with lastSeenAt := now } :: mid, w, post, by simp, hp, hen,
          by simp [queue]⟩

/-- A grant takes the head of the queue: the participant, or the first of those ahead. -/
theorem Waits.grant (h : Waits participant enqueued ahead ws)
    (hc : ∀ w ∈ ws.head?, w.participant = caller) :
    (ahead = [] ∧ caller = participant) ∨
      ∃ rest, ahead = caller :: rest ∧ Waits participant enqueued rest (ws.drop 1) := by
  obtain ⟨pre, w, post, rfl, hp, hen, rfl⟩ := h
  rcases pre with _ | ⟨u, pre⟩
  · exact .inl ⟨rfl, (hc w rfl).symm.trans hp⟩
  · refine .inr ⟨queue pre, ?_, pre, w, post, rfl, hp, hen, rfl⟩
    rw [← hc u rfl]
    rfl

/-- Whoever is granted a permit was the first of the live waiters, or there was none. -/
theorem enqueue_head (he : enqueue caller now l = some (ws, 0)) :
    (∀ w ∈ ws.head?, w.participant = caller) ∧ ∀ w ∈ l.head?, w.participant = caller := by
  rcases enqueue_cases he with ⟨-, -, rfl, h0⟩ | ⟨pre, v, post, rfl, -, hp, rfl, h0⟩
  · obtain rfl := List.eq_nil_of_length_eq_zero h0.symm
    simp
  · obtain rfl := List.eq_nil_of_length_eq_zero h0.symm
    simpa using hp

end Queue

/-- What a write does to the queue, and the permits it grants: the expired waiters are dropped; the
caller may be queued or refreshed, and granted a permit if that makes it the first. -/
inductive QueueStep (c : Call) (doc : Document) (x : Commit ι ℤ Document) : List Permit → Prop
  | keep (hw : x.doc.waiters = alive x.time doc.waiters) : QueueStep c doc x []
  | join {caller : String} {index : ℕ}
    (he : enqueue caller x.time (alive x.time doc.waiters) = some (x.doc.waiters, index)) :
    QueueStep c doc x []
  | grant {caller token : String} {ws : List Waiter} (hc : c = .reserve caller token)
    (he : enqueue caller x.time (alive x.time doc.waiters) = some (ws, 0))
    (hw : x.doc.waiters = ws.drop 1) : QueueStep c doc x [⟨token, caller, x.time, none⟩]

theorem newPermits_of_book {x : Commit ι ℤ Document} {h : List (Commit ι ℤ Document)}
    {new L : List Permit} (hb : book x.doc (ledger h) = new ++ L)
    (hl : L.length = (ledger h).length) : newPermits x h = new :=
  List.append_inj_left' hb (by rw [List.length_map, hl])

theorem queue_step (hu : Minted calls) {h : List (Commit ι ℤ Document)}
    {x : Commit ι ℤ Document} (hs : Serial (fun i => (calls i).checked quota) (x :: h)) :
    ∃ doc, Sound quota h x.time doc ∧ QueueStep (calls x.writer) doc x (newPermits x h) := by
  cases hs with
  | @cons _ i t doc' b hh hi ht hd =>
    obtain ⟨ho, hsound⟩ := sound_of_serial hu hh
    obtain ⟨doc, hdoc⟩ := hsound _ ht
    refine ⟨doc, hdoc, ?_⟩
    rcases checked_cases hdoc.record hd with ⟨p, k, a, hc, hp, -, ha⟩ | ⟨p, k, hc, -, ha⟩
    · have hnew : k ∉ tokens (ledger h) := fun hmem => by
        obtain ⟨q, hq, rfl⟩ := mem_tokens.1 hmem
        obtain ⟨c, hc', hcall⟩ := ho q hq
        exact hi c hc' (hu.fresh _ _ _ _ _ hcall hc)
      obtain ⟨-, -, -, hbook⟩ := acquire_sound hdoc.wellFormed hdoc.booked hdoc.updated hp
        (hu.token _ _ _ hc) hnew ha
      obtain ⟨-, ws, index, he, hcases⟩ := acquire_cases ha
      rcases hcases with ⟨hall, -, rfl, -, -, rfl⟩ | ⟨hden, rfl⟩
      · rcases hbook with ⟨hden, -⟩ | ⟨-, -, hbook⟩
        · rw [hall] at hden
          cases hden
        · have hone : newPermits ⟨i, t, granted doc t ws k p⟩ h = [⟨k, p, t, none⟩] :=
            newPermits_of_book hbook rfl
          rw [hone]
          exact .grant hc he rfl
      · rcases hbook with ⟨-, hbook⟩ | ⟨hall, -⟩
        · have hnil : newPermits ⟨i, t, pruned doc t ws⟩ h = [] := newPermits_of_book hbook rfl
          rw [hnil]
          exact .join he
        · rw [hall] at hden
          cases hden
    · obtain ⟨-, -, -, q, -, -, -, -, hbook⟩ :=
        complete_sound hdoc.wellFormed hdoc.booked hdoc.updated ha
      obtain ⟨pre, r, post, -, -, -, -, -, rfl⟩ := complete_cases ha
      have hnil : newPermits ⟨i, t, { pruned doc t (alive t doc.waiters) with
          attempts := pre ++ { r with completedAt := some t } :: post }⟩ h = [] :=
        newPermits_of_book hbook (List.length_map _)
      rw [hnil]
      exact .keep rfl

/-- Since it was seen at the end of `h` behind `ahead`, the participant still waits, behind a
queue that with those granted a permit since is part of `ahead`; or it was granted its own permit,
and until then only participants of `ahead` were. -/
inductive Served (participant : String) (enqueued : ℤ) (ahead : List String)
    (h : List (Commit ι ℤ Document)) : List (Commit ι ℤ Document) → Prop
  | waiting {l : List (Commit ι ℤ Document)} {doc : Document} {ahead' : List String}
    (hd : current (l ++ h) = some doc) (hw : Waits participant enqueued ahead' doc.waiters)
    (hs : (grantees l h ++ ahead').Sublist ahead) : Served participant enqueued ahead h l
  | granted {l₁ l₂ : List (Commit ι ℤ Document)} {x : Commit ι ℤ Document}
    (hx : (newPermits x (l₁ ++ h)).map Permit.participant = [participant])
    (hs : (grantees l₁ h).Sublist ahead) : Served participant enqueued ahead h (l₂ ++ x :: l₁)

theorem fifo_of_serial (hu : Minted calls) {h : List (Commit ι ℤ Document)}
    {participant : String} {enqueued : ℤ} {ahead : List String} {doc : Document}
    (hd : current h = some doc) (hw : Waits participant enqueued ahead doc.waiters) :
    ∀ {l : List (Commit ι ℤ Document)}, Serial (fun i => (calls i).checked quota) (l ++ h) →
      Timely participant l h → Served participant enqueued ahead h l
  | [], _, _ => .waiting hd hw (List.Sublist.refl _)
  | x :: l, hs, ⟨htl, htx⟩ => by
    have hl : Serial (fun i => (calls i).checked quota) (l ++ h) :=
      hs.suffix (List.suffix_cons _ _)
    rcases fifo_of_serial hu hd hw hl htl with @⟨_, doc', ahead', hd', hw', hsub⟩ | @⟨l₁, l₂, y, hy, hsub⟩
    · obtain ⟨base, hbase, hstep⟩ := queue_step hu hs
      obtain rfl := hbase.unique doc' hd'
      obtain ⟨ahead'', hsub'', hw''⟩ := hw'.alive (htx _ hd')
      have hx : current (x :: l ++ h) = some x.doc := rfl
      have hkeep : (grantees l h ++ ahead'').Sublist ahead :=
        ((List.Sublist.refl _).append hsub'').trans hsub
      generalize hnew : newPermits x (l ++ h) = new at hstep
      cases hstep with
      | keep hwait =>
        refine .waiting hx (by rw [hwait]; exact hw'') ?_
        simpa [grantees, hnew] using hkeep
      | join he =>
        refine .waiting hx (hw''.enqueue he) ?_
        simpa [grantees, hnew] using hkeep
      | @grant caller token ws hc he hwait =>
        rcases (hw''.enqueue he).grant (enqueue_head he).1 with ⟨-, rfl⟩ | ⟨rest, rfl, hrest⟩
        · change Served _ _ _ _ ([] ++ x :: l)
          refine .granted (by rw [hnew]; rfl) ?_
          exact (List.sublist_append_left _ _).trans hkeep
        · refine .waiting hx (by rw [hwait]; exact hrest) ?_
          simpa [grantees, hnew] using hkeep
    · change Served _ _ _ _ ((x :: l₂) ++ y :: l₁)
      exact .granted hy hsub

section Results

variable [DecidableEq ι] {t₀ : ℤ}
variable {c c' : Conf ι (Cell ι ℤ Document) (Answer ℤ Document) Err Result}

/-- In every run: a participant in the queue whose entry stays live is served in its turn, and
each permit goes to the caller itself, as the first of the live waiters. -/
theorem reserve_fifo (hu : Minted calls) (h : Run quota calls t₀ c)
    (h' : Reach (server ι ℤ Document) (always _ _ _) c c') :
    ∃ l, c'.state.history = l ++ c.state.history ∧
      (∀ doc participant enqueued ahead, current c.state.history = some doc →
        Waits participant enqueued ahead doc.waiters → Timely participant l c.state.history →
        Served participant enqueued ahead c.state.history l) ∧
      ∀ l₂ x l₁, c'.state.history = l₂ ++ x :: l₁ → ∀ p ∈ newPermits x l₁,
        calls x.writer = .reserve p.participant p.token ∧
        ∀ doc ∈ current l₁, ∀ w ∈ (alive x.time doc.waiters).head?,
          w.participant = p.participant := by
  obtain ⟨l, hl⟩ := suffix_of_reach (run_calls quota calls) h h'
  have hser := serial_of_run (h.trans h')
  refine ⟨l, hl.symm, fun doc participant enqueued ahead hd hw ht =>
    fifo_of_serial hu hd hw (by rwa [hl]) ht, fun l₂ x l₁ hsplit p hp => ?_⟩
  rw [hsplit] at hser
  obtain ⟨base, hbase, hstep⟩ := queue_step hu (hser.suffix (List.suffix_append _ _))
  generalize newPermits x l₁ = new at hstep hp
  cases hstep with
  | keep _ => cases hp
  | join _ => cases hp
  | grant hc he hw =>
    obtain rfl := List.mem_singleton.1 hp
    refine ⟨hc, fun doc hdoc w hw => ?_⟩
    obtain rfl := hbase.unique doc hdoc
    exact (enqueue_head he).2 w hw

def otherParticipant : String :=
  "bbbbbbbbbbbbbbbbbbbbbbbbbbbbbbbbbbbbbbbbbbbbbbbbbbbbbbbbbbbbbbbb"

/-- One participant reserves once, another one twice. -/
def queueCalls : Fin 3 → Call
  | 0 => .reserve demoParticipant "00000000000000000000000000000000"
  | 1 => .reserve otherParticipant "11111111111111111111111111111111"
  | 2 => .reserve otherParticipant "22222222222222222222222222222222"

theorem queue_minted : Minted queueCalls := by
  refine ⟨fun i x k h => ?_, fun i j x y k h h' => ?_⟩
  · match i, h with
    | 0, h | 1, h | 2, h =>
      cases h
      decide +kernel
  · match i, j, h, h' with
    | 0, 0, _, _ | 1, 1, _, _ | 2, 2, _, _ => rfl
    | 0, 1, h, h' | 0, 2, h, h' | 1, 0, h, h' | 1, 2, h, h' | 2, 0, h, h' | 2, 1, h, h' =>
      exact absurd ((Call.reserve.inj h).2.trans (Call.reserve.inj h').2.symm) (by decide +kernel)

/-- The first participant is granted a permit, the other one queued. -/
def queuedRun : Conf (Fin 3) (Cell (Fin 3) ℤ Document) (Answer ℤ Document) Err Result :=
  (start 0 fun i => (queueCalls i).run "quota-project").play
    (List.replicate 8 (Turn.run 0 (serve 0)) ++ List.replicate 8 (Turn.run 1 (serve 1)))

/-- Five seconds later the other one comes back. -/
def servedRun : Conf (Fin 3) (Cell (Fin 3) ℤ Document) (Answer ℤ Document) Err Result :=
  queuedRun.play (.move (fun s => { s with clock := max s.clock (seconds 5) }) ::
    List.replicate 8 (.run 2 (serve 2)))

theorem queued_run : Run "quota-project" queueCalls 0 queuedRun := by
  refine reach_play (fun t ht => ?_) _ (meets_always _ _)
  rcases List.mem_append.1 ht with ht | ht <;> rw [List.eq_of_mem_replicate ht] <;>
    exact serve_sound _

theorem served_run : Reach (server (Fin 3) ℤ Document) (always _ _ _) queuedRun servedRun := by
  refine reach_play (fun t ht => ?_) _ (meets_always _ _)
  rcases List.mem_cons.1 ht with rfl | ht
  · exact fun s => ⟨_, le_max_left _ _, rfl⟩
  · rw [List.eq_of_mem_replicate ht]
    exact serve_sound _

/-- What the other one's second reservation writes. -/
def servedCommit : Commit (Fin 3) ℤ Document :=
  ⟨2, 5000000, ⟨3, "quota-project",
    [⟨"00000000000000000000000000000000", demoParticipant, 0, none⟩,
      ⟨"22222222222222222222222222222222", otherParticipant, 5000000, none⟩],
    [], 10000000, 5000000⟩⟩

deriving instance DecidableEq for Commit

theorem served_states : servedRun.state.history = servedCommit :: queuedRun.state.history ∧
    (current queuedRun.state.history).map Document.waiters = some [⟨otherParticipant, 0, 0⟩] := by
  decide +kernel

theorem reserve_fifo_demo : servedRun.state.history = servedCommit :: queuedRun.state.history ∧
    Served otherParticipant 0 [] queuedRun.state.history [servedCommit] := by
  obtain ⟨hx, hwaiters⟩ := served_states
  obtain ⟨doc, hdoc, hdocs⟩ := Option.map_eq_some_iff.1 hwaiters
  obtain ⟨l, hl, hserved, -⟩ := reserve_fifo queue_minted queued_run served_run
  obtain rfl : l = [servedCommit] :=
    List.append_cancel_right (hl.symm.trans (hx.trans List.singleton_append.symm))
  refine ⟨hx, hserved doc otherParticipant 0 [] hdoc ⟨[], _, [], hdocs, rfl, rfl, rfl⟩ ?_⟩
  refine ⟨trivial, fun doc' hdoc' w hw _ => ?_⟩
  rw [List.nil_append] at hdoc'
  obtain rfl := Option.some.inj (hdoc.symm.trans hdoc')
  rw [hdocs] at hw
  obtain rfl := List.mem_singleton.1 hw
  decide

end Results

end LogBudget
