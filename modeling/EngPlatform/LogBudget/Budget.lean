import EngPlatform.LogBudget.Transforms

/-!
# The budget over whole runs

Any number of `reserve` and `finish` calls run against one document, in any interleaving, with
conflicts, retries and answers that never arrive. The document's history is serial, so what the
transforms keep holds of every version: the document is well-formed and booked against the ledger
(`sound_of_serial`), and the ledger is capped, spaced and keeps its pending permits.
-/

set_option linter.dupNamespace false

namespace LogBudget

open Interleave Cas

variable {ι : Type} {quota : String} {calls : ι → Call}

/-- What a call whose arguments are accepted makes of the document it has read. -/
def Call.checked (quota : String) (c : Call) (now : ℤ) (doc : Option Document) :
    Except Err (Result × Option Document) :=
  c.check.bind fun _ => c.transform quota now doc

/-- `uuid4` gives every reservation a token of its own. -/
structure Minted (calls : ι → Call) : Prop where
  token : ∀ i x k, calls i = .reserve x k → isToken k = true
  fresh : ∀ i j x y k, calls i = .reserve x k → calls j = .reserve y k → i = j

/-- A run of the calls, from a missing document at time `t`. -/
def Run [DecidableEq ι] (quota : String) (calls : ι → Call) (t : ℤ)
    (c : Conf ι (Cell ι ℤ Document) (Answer ℤ Document) Err Result) : Prop :=
  Reach (server ι ℤ Document) (always _ _ _) (start t fun i => (calls i).run quota) c

theorem run_calls (quota : String) (calls : ι → Call) :
    Calls fault maxCasAttempts (fun i => (calls i).checked quota)
      fun i => (calls i).run quota := by
  intro i
  rcases hc : (calls i).check with x | u
  · refine .inl ⟨x, ?_⟩
    simp only [Call.run, hc, Prog.lift_error, Prog.raise_bind]
  · have ht : (calls i).checked quota = (calls i).transform quota := by
      funext now doc
      unfold Call.checked
      rw [hc]
      rfl
    refine .inr ?_
    simp only [Call.run, hc, Prog.lift_ok, Prog.done_bind, ht]

/-- A call that writes is one whose arguments are accepted, and writes what its transform gives. -/
theorem checked_cases {c : Call} {now : ℤ} {cur : Option Document} {doc doc' : Document}
    {r : Result} (hrec : record quota now cur = .ok (view now doc))
    (h : c.checked quota now cur = .ok (r, some doc')) :
    (∃ participant token a, c = .reserve participant token ∧ isParticipant participant = true ∧
      r = .reservation a ∧
      acquire participant token now (view now doc) = .ok (a, some doc')) ∨
    ∃ participant token, c = .finish participant token ∧ r = .finished ∧
      complete participant token now (view now doc) = .ok ((), some doc') := by
  obtain ⟨_, hcheck, h⟩ := bind_ok.1 h
  obtain ⟨v, hv, h⟩ := bind_ok.1 h
  obtain rfl : view now doc = v := Except.ok.inj (hrec.symm.trans hv)
  rcases c with ⟨participant, token⟩ | ⟨participant, token⟩
  · obtain ⟨⟨a, d⟩, ha, h⟩ := bind_ok.1 h
    obtain ⟨rfl, rfl⟩ := Prod.mk.inj (Except.ok.inj h)
    have hp : isParticipant participant = true := by
      by_contra hp
      simp [Call.check, checkParticipant, hp] at hcheck
    exact .inl ⟨participant, token, a, rfl, hp, rfl, ha⟩
  · obtain ⟨⟨_, d⟩, ha, h⟩ := bind_ok.1 h
    obtain ⟨rfl, rfl⟩ := Prod.mk.inj (Except.ok.inj h)
    exact .inr ⟨participant, token, rfl, rfl, ha⟩

/-- The document a read at `t` would find, accepted, and what it says of the ledger. -/
structure Sound (quota : String) (h : List (Commit ι ℤ Document)) (t : ℤ) (doc : Document) :
    Prop where
  unique : ∀ d ∈ current h, d = doc
  record : record quota t (current h) = .ok (view t doc)
  wellFormed : WellFormed quota doc
  booked : Booked doc (ledger h)
  updated : doc.updatedAt ≤ t

/-- Each granted permit is the reservation of one of the history's writers. -/
def Owned (calls : ι → Call) (h : List (Commit ι ℤ Document)) : Prop :=
  ∀ p ∈ ledger h, ∃ c ∈ h, calls c.writer = .reserve p.participant p.token

/-- What a write does to the ledger: nothing, one grant to its writer, or one completion. -/
inductive Entry (c : Call) (now : ℤ) (L : List Permit) : List Permit → Prop
  | none : Entry c now L L
  | grant {participant token : String} (hc : c = .reserve participant token) :
    Entry c now L (⟨token, participant, now, Option.none⟩ :: L)
  | complete {p : Permit} (hc : c = .finish p.participant p.token) (hp : p ∈ L)
    (hn : p.completedAt = Option.none) : Entry c now L (L.map (completeAt p now))

theorem acquire_sound {participant token : String} {now : ℤ} {doc doc' : Document}
    {L : List Permit} {a : Reservation} (hw : WellFormed quota doc) (hb : Booked doc L)
    (ht : doc.updatedAt ≤ now) (hp : isParticipant participant = true)
    (hk : isToken token = true) (hnew : token ∉ tokens L)
    (h : acquire participant token now (view now doc) = .ok (a, some doc')) :
    WellFormed quota doc' ∧ Booked doc' (book doc' L) ∧ doc'.updatedAt = now ∧
      ((a.allowed = false ∧ book doc' L = L) ∨
        (a.allowed = true ∧ a.token = token ∧
          book doc' L = ⟨token, participant, now, none⟩ :: L)) := by
  obtain ⟨hidle, ws, index, he, hcases⟩ := acquire_cases h
  have hsub : WellFormed quota (pruned doc now (alive now doc.waiters)) :=
    hw.sub List.filter_sublist List.filter_sublist ht
  have hws : WellFormed quota (pruned doc now ws) := hsub.enqueue (le_refl _) hp hidle he
  have hmem : ∀ q ∈ charged now doc.attempts, q ∈ L := fun q hq => hb.mem q (mem_charged.1 hq).1
  rcases hcases with ⟨hall, hatok, rfl, hdue, hlen, rfl⟩ | ⟨hdenied, rfl⟩
  · obtain ⟨w, rest, rfl, hwp⟩ : ∃ w rest, ws = w :: rest ∧ w.participant = participant := by
      rcases enqueue_cases he with ⟨-, -, rfl, h0⟩ | ⟨pre, w, post, -, -, hwp, rfl, h0⟩
      · have hnil := List.eq_nil_of_length_eq_zero h0.symm
        exact ⟨_, [], by rw [hnil]; rfl, rfl⟩
      · obtain rfl := List.eq_nil_of_length_eq_zero h0.symm
        exact ⟨_, post, rfl, hwp⟩
    have hq : participant ∉ queue rest := by
      have := hws.queue_nodup
      rw [← hwp]
      exact (List.nodup_cons.1 this).1
    have hrest : WellFormed quota (pruned doc now rest) :=
      hws.sub (List.Sublist.refl _) (List.sublist_cons_self _ _) (le_refl _)
    have htok : token ∉ tokens (charged now doc.attempts) := fun hmem' => by
      obtain ⟨q, hq', rfl⟩ := mem_tokens.1 hmem'
      exact hnew (mem_tokens.2 ⟨q, hmem q hq', rfl⟩)
    have hbook : book (granted doc now (w :: rest) token participant) L =
        ⟨token, participant, now, none⟩ :: L :=
      book_grant hb.tokens_nodup hmem hnew rfl
    refine ⟨hrest.grant (le_refl _) hp hk hidle hq htok hlen, ?_, rfl, .inr ⟨hall, hatok, hbook⟩⟩
    rw [hbook]
    exact (hb.prune ht _).grant hp hk hnew hdue hlen
  · have hbook : book (pruned doc now ws) L = L := book_self hb.tokens_nodup hmem
    refine ⟨hws, ?_, rfl, .inl ⟨hdenied, hbook⟩⟩
    rw [hbook]
    exact hb.prune ht ws

theorem complete_sound {participant token : String} {now : ℤ} {doc doc' : Document}
    {L : List Permit} {u : Unit} (hw : WellFormed quota doc) (hb : Booked doc L)
    (ht : doc.updatedAt ≤ now)
    (h : complete participant token now (view now doc) = .ok (u, some doc')) :
    WellFormed quota doc' ∧ Booked doc' (book doc' L) ∧ doc'.updatedAt = now ∧
      ∃ p ∈ L, p.token = token ∧ p.participant = participant ∧ p.completedAt = none ∧
        book doc' L = L.map (completeAt p now) := by
  obtain ⟨pre, p, post, hsplit, -, hk, hp, hn, rfl⟩ := complete_cases h
  have hsub : WellFormed quota (pruned doc now (alive now doc.waiters)) :=
    hw.sub List.filter_sublist List.filter_sublist ht
  have hmem : ∀ q ∈ charged now doc.attempts, q ∈ L := fun q hq => hb.mem q (mem_charged.1 hq).1
  have hpc : p ∈ charged now doc.attempts := by
    rw [hsplit]
    simp
  have hmap : pre ++ { p with completedAt := some now } :: post =
      (charged now doc.attempts).map (completeAt p now) := by
    have hnodup := hsub.tokens_nodup
    change (tokens (charged now doc.attempts)).Nodup at hnodup
    rw [hsplit] at hnodup ⊢
    exact (map_completeAt now hnodup).symm
  rw [hmap]
  have hbook : book { pruned doc now (alive now doc.waiters) with
      attempts := (charged now doc.attempts).map (completeAt p now) } L =
      L.map (completeAt p now) := book_complete hb.tokens_nodup hmem hpc rfl
  refine ⟨hsub.complete (le_refl _) hpc, ?_, rfl, p, hmem p hpc, hk, hp, hn, hbook⟩
  rw [hbook]
  exact (hb.prune ht _).complete hpc hn

theorem owned_step {h : List (Commit ι ℤ Document)} {x : Commit ι ℤ Document}
    (ho : Owned calls h) (he : Entry (calls x.writer) x.time (ledger h) (book x.doc (ledger h))) :
    Owned calls (x :: h) := by
  have hold : ∀ p ∈ ledger h, ∃ c ∈ x :: h, calls c.writer = .reserve p.participant p.token :=
    fun p hp => let ⟨c, hc, hcall⟩ := ho p hp; ⟨c, List.mem_cons_of_mem _ hc, hcall⟩
  unfold Owned ledger
  generalize book x.doc (ledger h) = L at he
  cases he with
  | none => exact hold
  | grant hc =>
    intro p hp
    rcases List.mem_cons.1 hp with rfl | hp
    · exact ⟨x, List.mem_cons_self, hc⟩
    · exact hold p hp
  | complete hc hp hn =>
    intro q hq
    obtain ⟨r, hr, rfl⟩ := List.mem_map.1 hq
    rw [completeAt_token, completeAt_participant]
    exact hold r hr

/-- One write: from a sound history, a sound history with one entry more. -/
theorem commit_sound {h : List (Commit ι ℤ Document)} {i : ι} {t : ℤ} {doc doc' : Document}
    {r : Result} (hu : Minted calls) (hi : ∀ c ∈ h, c.writer ≠ i) (hs : Sound quota h t doc)
    (ho : Owned calls h) (hd : (calls i).checked quota t (current h) = .ok (r, some doc')) :
    WellFormed quota doc' ∧ Booked doc' (book doc' (ledger h)) ∧ doc'.updatedAt = t ∧
      Entry (calls i) t (ledger h) (book doc' (ledger h)) := by
  rcases checked_cases hs.record hd with ⟨x, k, a, hc, hx, -, ha⟩ | ⟨x, k, hc, -, ha⟩
  · have hnew : k ∉ tokens (ledger h) := fun hmem => by
      obtain ⟨p, hp, rfl⟩ := mem_tokens.1 hmem
      obtain ⟨c, hc', hcall⟩ := ho p hp
      exact hi c hc' (hu.fresh _ _ _ _ _ hcall hc)
    obtain ⟨hw, hb, htime, hbook⟩ :=
      acquire_sound hs.wellFormed hs.booked hs.updated hx (hu.token _ _ _ hc) hnew ha
    refine ⟨hw, hb, htime, ?_⟩
    rcases hbook with ⟨-, hbook⟩ | ⟨-, -, hbook⟩ <;> rw [hbook]
    exacts [.none, .grant hc]
  · obtain ⟨hw, hb, htime, p, hp, rfl, rfl, hn, hbook⟩ :=
      complete_sound hs.wellFormed hs.booked hs.updated ha
    refine ⟨hw, hb, htime, ?_⟩
    rw [hbook]
    exact .complete hc hp hn

/-- Every serial history is sound at every time from its last write on. -/
theorem sound_of_serial (hu : Minted calls) {h : List (Commit ι ℤ Document)}
    (hs : Serial (fun i => (calls i).checked quota) h) :
    Owned calls h ∧ ∀ t, (∀ c ∈ h, c.time ≤ t) → ∃ doc, Sound quota h t doc := by
  induction hs with
  | nil =>
    exact ⟨fun p hp => absurd hp List.not_mem_nil, fun t _ =>
      ⟨fresh quota t, by simp, rfl, wellFormed_fresh quota t, booked_fresh quota t, le_refl _⟩⟩
  | @cons h i t doc' r _ hi ht hd ih =>
    obtain ⟨doc, hdoc⟩ := ih.2 t ht
    obtain ⟨hw, hb, htime, he⟩ := commit_sound hu hi hdoc ih.1 hd
    refine ⟨owned_step ih.1 he, fun t' ht' => ⟨doc', by simp, ?_, hw, hb, ?_⟩⟩
    · exact record_of_wellFormed hw (htime.le.trans (ht' _ List.mem_cons_self))
    · exact htime.le.trans (ht' _ List.mem_cons_self)

theorem entry_of_serial (hu : Minted calls) {h : List (Commit ι ℤ Document)}
    {x : Commit ι ℤ Document} (hs : Serial (fun i => (calls i).checked quota) (x :: h)) :
    Entry (calls x.writer) x.time (ledger h) (ledger (x :: h)) := by
  cases hs with
  | cons b hh hi ht hd =>
    obtain ⟨ho, hsound⟩ := sound_of_serial hu hh
    obtain ⟨doc, hdoc⟩ := hsound _ ht
    exact (commit_sound hu hi hdoc ho hd).2.2.2

theorem tokens_kept (hu : Minted calls) {h : List (Commit ι ℤ Document)} :
    ∀ {l : List (Commit ι ℤ Document)}, Serial (fun i => (calls i).checked quota) (l ++ h) →
      ∀ k ∈ tokens (ledger h), k ∈ tokens (ledger (l ++ h))
  | [], _, _, hk => hk
  | x :: l, hs, k, hk => by
    have hl := tokens_kept hu (hs.suffix (List.suffix_cons _ _)) k hk
    rw [List.cons_append] at hs ⊢
    have he := entry_of_serial hu hs
    generalize ledger (x :: (l ++ h)) = L at he
    cases he with
    | none => exact hl
    | grant _ => exact List.mem_cons_of_mem _ hl
    | complete _ _ _ =>
      rw [tokens_map_completeAt]
      exact hl

/-- A write whose reservation is allowed puts that reservation's permit in the ledger. -/
theorem allowed_commit (hu : Minted calls) {h : List (Commit ι ℤ Document)}
    {x : Commit ι ℤ Document} {a : Reservation}
    (hs : Serial (fun i => (calls i).checked quota) (x :: h))
    (hx : (calls x.writer).checked quota x.time (current h) = .ok (.reservation a, some x.doc))
    (ha : a.allowed = true) : ∃ participant, calls x.writer = .reserve participant a.token ∧
      a.token ∈ tokens (ledger (x :: h)) := by
  cases hs with
  | cons b hh hi ht hd =>
    obtain ⟨ho, hsound⟩ := sound_of_serial hu hh
    obtain ⟨doc, hdoc⟩ := hsound _ ht
    rcases checked_cases hdoc.record hx with ⟨p, k, a', hc, hp, hr, hacq⟩ | ⟨p, k, -, hr, -⟩
    · obtain rfl : a' = a := (Result.reservation.inj hr).symm
      have hnew : k ∉ tokens (ledger h) := fun hmem => by
        obtain ⟨q, hq, rfl⟩ := mem_tokens.1 hmem
        obtain ⟨c, hc', hcall⟩ := ho q hq
        exact hi c hc' (hu.fresh _ _ _ _ _ hcall hc)
      obtain ⟨-, -, -, hbook⟩ := acquire_sound hdoc.wellFormed hdoc.booked hdoc.updated hp
        (hu.token _ _ _ hc) hnew hacq
      rcases hbook with ⟨hdenied, -⟩ | ⟨-, rfl, hbook⟩
      · rw [ha] at hdenied
        cases hdenied
      · refine ⟨p, hc, ?_⟩
        change a'.token ∈ tokens (book _ _)
        rw [hbook]
        exact List.mem_cons_self
    · cases hr

/-- A pending permit stays in the ledger as it is until its owner finishes it. -/
theorem pending_kept (hu : Minted calls) {h : List (Commit ι ℤ Document)} {p : Permit}
    (hp : p ∈ ledger h) (hn : p.completedAt = none) : ∀ {l : List (Commit ι ℤ Document)},
    Serial (fun i => (calls i).checked quota) (l ++ h) →
    p ∈ ledger (l ++ h) ∨ ∃ c ∈ l, calls c.writer = .finish p.participant p.token
  | [], _ => .inl hp
  | x :: l, hs => by
    have hl : Serial (fun i => (calls i).checked quota) (l ++ h) :=
      hs.suffix (List.suffix_cons _ _)
    rcases pending_kept hu hp hn hl with hmem | ⟨c, hc, hcall⟩
    · rw [List.cons_append] at hs ⊢
      have he := entry_of_serial hu hs
      generalize ledger (x :: (l ++ h)) = L at he
      cases he with
      | none => exact .inl hmem
      | grant hc => exact .inl (List.mem_cons_of_mem _ hmem)
      | @complete q hc hq hqn =>
        by_cases hpq : p = q
        · exact .inr ⟨x, List.mem_cons_self, by rw [hc, hpq]⟩
        · refine .inl (List.mem_map.2 ⟨p, hmem, ?_⟩)
          rw [completeAt, if_neg hpq]
    · exact .inr ⟨c, List.mem_cons_of_mem _ hc, hcall⟩

theorem denied_of_none {c : Call} {now : ℤ} {cur : Option Document} {a : Reservation}
    (h : c.checked quota now cur = .ok (.reservation a, none)) : a.allowed = false := by
  obtain ⟨-, -, h⟩ := bind_ok.1 h
  obtain ⟨v, -, h⟩ := bind_ok.1 h
  rcases c with ⟨participant, token⟩ | ⟨participant, token⟩
  · obtain ⟨⟨r, d⟩, hr, h⟩ := bind_ok.1 h
    obtain ⟨h1, rfl⟩ := Prod.mk.inj (Except.ok.inj h)
    exact Result.reservation.inj h1 ▸ acquire_denied hr
  · obtain ⟨_, -, h⟩ := bind_ok.1 h
    cases (Prod.mk.inj (Except.ok.inj h)).1

/-- The permits granted in the 60 seconds from `t` on. -/
def inWindow (t : ℤ) (p : Permit) : Bool := t ≤ p.reservedAt && p.reservedAt < t + seconds 60

/-- A permit granted in the window is still outstanding at its end. -/
theorem outstanding_of_inWindow {t now : ℤ} {p : Permit} (hp : PermitOk now p)
    (h : inWindow t p = true) : outstanding (t + seconds 60 - 1) p = true := by
  simp only [inWindow, Bool.and_eq_true, decide_eq_true_eq] at h
  refine outstanding_iff.2 ⟨by omega, fun c hc => ?_⟩
  have := (hp.completed c hc).1
  omega

theorem Booked.window_le {doc : Document} {L : List Permit} (hb : Booked doc L) (t : ℤ) :
    L.countP (inWindow t) ≤ maxAttempts :=
  (List.countP_mono_left fun p hp => outstanding_of_inWindow (hb.permits p hp)).trans
    (hb.capped.count_le hb.spaced)

theorem Booked.mem_of_pending {doc : Document} {L : List Permit} (hb : Booked doc L) {p : Permit}
    (hp : p ∈ L) (hn : p.completedAt = none) : p ∈ doc.attempts := by
  rcases hb.kept p hp with hk | ⟨c, hc, -⟩
  · exact hk
  · rw [hn] at hc
    cases hc

theorem Booked.pendings_nodup {doc : Document} {L : List Permit} (hw : WellFormed quota doc)
    (hb : Booked doc L) : (pendings L).Nodup := by
  have hnodup := List.Nodup.of_map _ hb.tokens_nodup
  refine List.Nodup.map_on (fun p hp q hq hpq => ?_) (hnodup.filter _)
  simp only [List.mem_filter, beq_iff_eq] at hp hq
  refine List.inj_on_of_nodup_map hw.pendings_nodup (List.mem_filter.2 ⟨?_, ?_⟩)
    (List.mem_filter.2 ⟨?_, ?_⟩) hpq
  exacts [hb.mem_of_pending hp.1 hp.2, by simp [hp.2], hb.mem_of_pending hq.1 hq.2, by simp [hq.2]]

/-- The owner of a pending permit finds it, and completes it. -/
theorem finish_finds {h : List (Commit ι ℤ Document)} {t : ℤ} {doc : Document}
    (hs : Sound quota h t doc) {p : Permit} (hp : p ∈ ledger h) (hn : p.completedAt = none) :
    ∃ doc', (Call.finish p.participant p.token).transform quota t (current h) =
        .ok (.finished, some doc') ∧ { p with completedAt := some t } ∈ doc'.attempts := by
  have hmem : p ∈ charged t doc.attempts :=
    mem_charged.2 ⟨hs.booked.mem_of_pending hp hn, by simp [hn]⟩
  obtain ⟨pre, post, hsplit⟩ := List.append_of_mem hmem
  have hpre : ∀ q ∈ pre, q.token ≠ p.token := fun q hq hqp => by
    have hnodup : (tokens (charged t doc.attempts)).Nodup :=
      hs.wellFormed.tokens_nodup.sublist (List.filter_sublist.map _)
    rw [hsplit, tokens_append] at hnodup
    exact (List.nodup_append.1 hnodup).2.2 _ (mem_tokens.2 ⟨q, hq, rfl⟩) _ List.mem_cons_self hqp
  have hfind : (view t doc).attempts.find? (fun item => item.token == p.token) = some p := by
    change (charged t doc.attempts).find? _ = _
    rw [hsplit, List.find?_append, List.find?_eq_none.2 (by simpa using hpre), Option.none_or,
      List.find?_cons_of_pos (by simp)]
  have hmark : markCompleted p.token t (view t doc).attempts =
      pre ++ { p with completedAt := some t } :: post := by
    change markCompleted p.token t (charged t doc.attempts) = _
    rw [hsplit, markCompleted_append rfl hpre]
  refine ⟨{ doc with
    attempts := markCompleted p.token t (view t doc).attempts
    waiters := alive t doc.waiters, updatedAt := t }, ?_, ?_⟩
  · simp only [Call.transform, hs.record, complete, hfind, hn, bind, Except.bind, ne_eq,
      not_true_eq_false, if_false]
    rfl
  · rw [hmark]
    exact List.mem_append_right _ List.mem_cons_self

theorem current_of_pending {h : List (Commit ι ℤ Document)} {t : ℤ} {doc : Document}
    (hs : Sound quota h t doc) {p : Permit} (hp : p ∈ ledger h) (hn : p.completedAt = none) :
    ∃ doc ∈ current h, p ∈ doc.attempts := by
  cases h with
  | nil => cases hp
  | cons x h =>
    refine ⟨x.doc, rfl, ?_⟩
    rw [hs.unique x.doc rfl]
    exact hs.booked.mem_of_pending hp hn

section Results

variable [DecidableEq ι] {t₀ : ℤ}
variable {c : Conf ι (Cell ι ℤ Document) (Answer ℤ Document) Err Result}

theorem serial_of_run (h : Run quota calls t₀ c) :
    Serial (fun i => (calls i).checked quota) c.state.history :=
  serial_of_reach (run_calls quota calls) h

theorem sound_of_run (hu : Minted calls) (h : Run quota calls t₀ c) {t : ℤ}
    (ht : c.state.clock ≤ t) : ∃ doc, Sound quota c.state.history t doc :=
  (sound_of_serial hu (serial_of_run h)).2 t fun x hx =>
    (times_of_reach (run_calls quota calls) h x hx).trans ht

theorem allowed_in_ledger (hu : Minted calls) (h : Run quota calls t₀ c) {i : ι} {r : Reservation}
    (hi : c.pool i = .done (.reservation r)) (hr : r.allowed = true) :
    ∃ p ∈ ledger c.state.history, calls i = .reserve p.participant p.token ∧
      p.token = r.token := by
  have hser := serial_of_run h
  rcases returned_of_reach (run_calls quota calls) h hi with ⟨t, d, hnone⟩ | ⟨l, x, rest, hl, rfl, hx⟩
  · rw [denied_of_none hnone] at hr
    cases hr
  · rw [hl] at hser ⊢
    obtain ⟨participant, hc, hmem⟩ :=
      allowed_commit hu (hser.suffix (List.suffix_append _ _)) hx hr
    obtain ⟨p, hp, hpk⟩ := mem_tokens.1 (tokens_kept hu hser _ hmem)
    obtain ⟨y, -, hy⟩ := (sound_of_serial hu hser).1 p hp
    have hyx : y.writer = x.writer := hu.fresh _ _ _ _ _ hy (hpk ▸ hc)
    exact ⟨p, hp, hyx ▸ hy, hpk⟩

/-- In every interleaving of reservations and completions: at no time more than `MAX_ATTEMPTS`
granted permits are outstanding, nor were more granted in any 60 seconds; two grants are
`CADENCE_SECONDS` apart; nobody holds two pending permits and no token is granted twice, and a
reservation that was allowed is in the ledger; a pending permit is in the record, its owner's
`finish` finds it, and nothing but that `finish` ends it. -/
theorem reserve_within_budget (hu : Minted calls) (h : Run quota calls t₀ c) :
    (∀ t, (ledger c.state.history).countP (outstanding t) ≤ maxAttempts) ∧
    (∀ t, (ledger c.state.history).countP (inWindow t) ≤ maxAttempts) ∧
    ((ledger c.state.history).Pairwise fun p q =>
      q.reservedAt + seconds cadenceSeconds ≤ p.reservedAt) ∧
    (pendings (ledger c.state.history)).Nodup ∧
    (tokens (ledger c.state.history)).Nodup ∧
    (∀ i r, c.pool i = .done (.reservation r) → r.allowed = true →
      ∃ p ∈ ledger c.state.history, calls i = .reserve p.participant p.token ∧
        p.token = r.token) ∧
    ∀ p ∈ ledger c.state.history, p.completedAt = none →
      (∃ doc ∈ current c.state.history, p ∈ doc.attempts) ∧
      (∀ t, c.state.clock ≤ t → ∃ doc', (Call.finish p.participant p.token).transform quota t
          (current c.state.history) = .ok (.finished, some doc') ∧
        { p with completedAt := some t } ∈ doc'.attempts) ∧
      ∀ c', Reach (server ι ℤ Document) (always _ _ _) c c' →
        p ∈ ledger c'.state.history ∨ ∃ l, c'.state.history = l ++ c.state.history ∧
          ∃ x ∈ l, calls x.writer = .finish p.participant p.token := by
  obtain ⟨doc, hs⟩ := sound_of_run hu h (le_refl _)
  refine ⟨fun t => hs.booked.capped.count_le hs.booked.spaced, hs.booked.window_le,
    hs.booked.spaced, hs.booked.pendings_nodup hs.wellFormed, hs.booked.tokens_nodup,
    fun i r hi hr => allowed_in_ledger hu h hi hr, fun p hp hn => ⟨?_, fun t ht => ?_,
      fun c' hc' => ?_⟩⟩
  · exact current_of_pending hs hp hn
  · obtain ⟨doc', hs'⟩ := sound_of_run hu h ht
    exact finish_finds hs' hp hn
  · obtain ⟨l, hl⟩ := suffix_of_reach (run_calls quota calls) h hc'
    have hser := serial_of_run (h.trans hc')
    rw [← hl] at hser ⊢
    exact (pending_kept hu hp hn hser).imp_right fun hx => ⟨l, rfl, hx⟩

def demoParticipant : String := "aaaaaaaaaaaaaaaaaaaaaaaaaaaaaaaaaaaaaaaaaaaaaaaaaaaaaaaaaaaaaaaa"

def demoToken : String := "00000000000000000000000000000000"

/-- One participant's reservation, and its completion. -/
def demoCalls : Bool → Call
  | true => .reserve demoParticipant demoToken
  | false => .finish demoParticipant demoToken

/-- The reservation runs alone to its end. -/
def demoRun : Conf Bool (Cell Bool ℤ Document) (Answer ℤ Document) Err Result :=
  (start 0 fun i => (demoCalls i).run "quota-project").play
    (List.replicate 8 (.run true (serve true)))

theorem demo_minted : Minted demoCalls := by
  constructor
  · rintro (_ | _) x k h
    · cases h
    · cases h
      decide
  · rintro (_ | _) (_ | _) x y k h h'
    · rfl
    · cases h
    · cases h'
    · rfl

theorem demo_run : Run "quota-project" demoCalls 0 demoRun :=
  reach_play (fun _ ht => (List.eq_of_mem_replicate ht) ▸ serve_sound true) _ (meets_always _ _)

theorem reserve_within_budget_demo :
    ledger demoRun.state.history = [⟨demoToken, demoParticipant, 0, none⟩] ∧
      (ledger demoRun.state.history).countP (outstanding 30000000) ≤ maxAttempts :=
  ⟨rfl, (reserve_within_budget demo_minted demo_run).1 30000000⟩

/-- Every document ever written is accepted by `record` at every time from its write on. -/
theorem record_accepts (hu : Minted calls) (h : Run quota calls t₀ c) :
    ∀ x ∈ c.state.history, WellFormed quota x.doc ∧
      ∀ now, x.doc.updatedAt ≤ now → record quota now (some x.doc) = .ok (view now x.doc) := by
  intro x hx
  obtain ⟨l, rest, hl⟩ := List.append_of_mem hx
  have hser := serial_of_run h
  rw [hl] at hser
  have hsuf : Serial (fun i => (calls i).checked quota) (x :: rest) :=
    hser.suffix (List.suffix_append _ _)
  have hclock : ∀ y ∈ x :: rest, y.time ≤ c.state.clock := fun y hy =>
    times_of_reach (run_calls quota calls) h y (hl ▸ List.mem_append_right _ hy)
  obtain ⟨doc, hs⟩ := (sound_of_serial hu hsuf).2 _ hclock
  obtain rfl := hs.unique x.doc rfl
  exact ⟨hs.wellFormed, fun now hnow => record_of_wellFormed hs.wellFormed hnow⟩

theorem record_accepts_demo : ∃ x ∈ demoRun.state.history, WellFormed "quota-project" x.doc ∧
    record "quota-project" x.doc.updatedAt (some x.doc) = .ok (view x.doc.updatedAt x.doc) := by
  have hne : demoRun.state.history ≠ [] := List.cons_ne_nil _ _
  obtain ⟨hwf, hrec⟩ := record_accepts demo_minted demo_run _ (List.head_mem hne)
  exact ⟨_, List.head_mem hne, hwf, hrec _ (Int.le_refl _)⟩

end Results

end LogBudget
