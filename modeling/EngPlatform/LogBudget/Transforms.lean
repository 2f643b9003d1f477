import EngPlatform.LogBudget.Ledger

/-!
# What the two transforms write

`acquire_cases` and `complete_cases` say what a replacement document is; all that follows about
either transform is derived from them. Both keep the document well-formed and booked
(`acquire_sound`, `complete_sound`).
-/

set_option linter.dupNamespace false

namespace LogBudget

section Inversion

variable {participant token : String} {now : ℤ} {doc doc' : Document}

/-- The caller joins the end of the queue, or its entry is refreshed where it stands. -/
theorem enqueue_cases {l ws : List Waiter} {index : ℕ}
    (h : enqueue participant now l = some (ws, index)) :
    (participant ∉ queue l ∧ l.length < maxWaiters ∧ ws = l ++ [⟨participant, now, now⟩] ∧
      index = l.length) ∨
    ∃ pre, ∃ w : Waiter, ∃ post, l = pre ++ w :: post ∧ participant ∉ queue pre ∧ w.participant = participant ∧
      ws = pre ++ { w with lastSeenAt := now } :: post ∧ index = pre.length := by
  unfold enqueue at h
  split at h
  · next hnone =>
    split_ifs at h with hlen
    obtain ⟨rfl, rfl⟩ := by simpa using h
    refine .inl ⟨fun hmem => ?_, not_le.1 hlen, rfl, rfl⟩
    obtain ⟨w, hw, rfl⟩ := mem_queue.1 hmem
    simpa using List.findIdx?_eq_none_iff.1 hnone w hw
  · next i hsome =>
    obtain ⟨rfl, rfl⟩ := by simpa using h
    obtain ⟨hi, hp, hbefore⟩ := List.findIdx?_eq_some_iff_getElem.1 hsome
    refine .inr ⟨l.take i, l[i], l.drop (i + 1), by simp, fun hmem => ?_, by simpa using hp, ?_,
      by simp; omega⟩
    · obtain ⟨w, hw, hwp⟩ := mem_queue.1 hmem
      obtain ⟨j, hj, rfl⟩ := List.mem_take_iff_getElem.1 hw
      exact absurd (by simpa using hwp) (by simpa using hbefore j (by omega))
    · exact List.modify_eq_take_cons_drop hi

/-- The document with what has expired dropped and the queue replaced. -/
def pruned (doc : Document) (now : ℤ) (waiters : List Waiter) : Document :=
  { doc with attempts := charged now doc.attempts, waiters := waiters, updatedAt := now }

/-- The document with a permit granted to the first waiter. -/
def granted (doc : Document) (now : ℤ) (waiters : List Waiter) (token participant : String) :
    Document :=
  { pruned doc now (waiters.drop 1) with
    attempts := charged now doc.attempts ++ [⟨token, participant, now, none⟩]
    nextDue := now + seconds cadenceSeconds }

/-- A reservation that writes queues its caller, and grants it a permit if it is its turn. -/
theorem acquire_cases {r : Reservation}
    (h : acquire participant token now (view now doc) = .ok (r, some doc')) :
    participant ∉ pendings (charged now doc.attempts) ∧ ∃ ws index,
      enqueue participant now (alive now doc.waiters) = some (ws, index) ∧
      ((r.allowed = true ∧ r.token = token ∧ index = 0 ∧ doc.nextDue ≤ now ∧
          (charged now doc.attempts).length < maxAttempts ∧
          doc' = granted doc now ws token participant) ∨
        (r.allowed = false ∧ doc' = pruned doc now ws)) := by
  unfold acquire at h
  split at h
  · simp at h
  · next hp =>
    refine ⟨fun hmem => hp ?_, ?_⟩
    · obtain ⟨p, hq, hc, rfl⟩ := mem_pendings.1 hmem
      exact List.any_eq_true.2 ⟨p, hq, by simp [Permit.pendingOf, hc]⟩
    split at h
    · simp at h
    · next ws index he =>
      refine ⟨ws, index, he, ?_⟩
      dsimp only at h
      split at h
      · next hg =>
        obtain ⟨rfl, rfl⟩ := by simpa only [Except.ok.injEq, Prod.mk.injEq, Option.some.injEq] using h
        exact .inl ⟨rfl, rfl, hg.1, hg.2.1, hg.2.2, rfl⟩
      · simp only [Except.ok.injEq, Prod.mk.injEq] at h
        obtain ⟨rfl, h⟩ := h
        split at h
        · exact .inr ⟨rfl, (Option.some.inj h).symm⟩
        · simp at h

/-- A reservation that writes nothing is not allowed. -/
theorem acquire_denied {v : View} {a : Reservation}
    (h : acquire participant token now v = .ok (a, none)) : a.allowed = false := by
  unfold acquire at h
  split at h
  · obtain ⟨rfl, -⟩ := Prod.mk.inj (Except.ok.inj h)
    rfl
  split at h
  · obtain ⟨rfl, -⟩ := Prod.mk.inj (Except.ok.inj h)
    rfl
  dsimp only at h
  split at h
  · cases (Prod.mk.inj (Except.ok.inj h)).2
  · obtain ⟨rfl, -⟩ := Prod.mk.inj (Except.ok.inj h)
    rfl

theorem markCompleted_append {pre post : List Permit} {p : Permit} (hp : p.token = token)
    (hpre : ∀ q ∈ pre, q.token ≠ token) :
    markCompleted token now (pre ++ p :: post) =
      pre ++ { p with completedAt := some now } :: post := by
  unfold markCompleted
  induction pre with
  | nil =>
    have hp' : (p.token == token) = true := beq_iff_eq.2 hp
    rw [List.nil_append, List.findIdx_cons, hp']
    rfl
  | cons q pre ih =>
    have hq : (q.token == token) = false := beq_eq_false_iff_ne.2 (hpre q List.mem_cons_self)
    rw [List.cons_append, List.findIdx_cons, hq, cond_false, List.modify_succ_cons,
      ih fun r hr => hpre r (List.mem_cons_of_mem _ hr)]
    rfl

/-- A `finish` that writes completes the pending permit of its token and participant. -/
theorem complete_cases {u : Unit}
    (h : complete participant token now (view now doc) = .ok (u, some doc')) :
    ∃ pre p post, charged now doc.attempts = pre ++ p :: post ∧ token ∉ tokens pre ∧
      p.token = token ∧ p.participant = participant ∧ p.completedAt = none ∧
      doc' = { pruned doc now (alive now doc.waiters) with
        attempts := pre ++ { p with completedAt := some now } :: post } := by
  unfold complete at h
  split at h
  · simp at h
  · next p hf =>
    split at h
    · simp at h
    · next hpart =>
      split at h
      · simp at h
      · next hc =>
        obtain ⟨-, pre, post, hsplit, hpre⟩ := List.find?_eq_some_iff_append.1 hf
        replace hsplit : charged now doc.attempts = pre ++ p :: post := hsplit
        have htok : p.token = token := by simpa using List.find?_some hf
        refine ⟨pre, p, post, hsplit, fun hmem => ?_, htok, not_not.1 hpart, not_not.1 hc, ?_⟩
        · obtain ⟨q, hq, hqt⟩ := mem_tokens.1 hmem
          simpa [hqt] using hpre q hq
        · have hmark : markCompleted token now (view now doc).attempts =
              pre ++ { p with completedAt := some now } :: post := by
            change markCompleted token now (charged now doc.attempts) = _
            rw [hsplit, markCompleted_append htok fun q hq => by simpa using hpre q hq]
          rw [hmark] at h
          exact (Option.some.inj (Prod.mk.inj (Except.ok.inj h)).2).symm

end Inversion

section Sound

variable {quota participant token : String} {now : ℤ} {doc : Document} {L : List Permit}

theorem mem_charged {p : Permit} {l : List Permit} :
    p ∈ charged now l ↔ p ∈ l ∧ ¬∃ c ∈ p.completedAt, c + seconds 60 ≤ now := by
  rw [charged, List.mem_filter, ← settled_iff, Bool.not_eq_true, Bool.not_eq_true']

theorem pendings_sublist {l l' : List Permit} (h : l.Sublist l') :
    (pendings l).Sublist (pendings l') :=
  (h.filter _).map _

theorem WellFormed.sub (h : WellFormed quota doc) {attempts : List Permit}
    {waiters : List Waiter} {due : ℤ} (ha : attempts.Sublist doc.attempts)
    (hw : waiters.Sublist doc.waiters) (ht : doc.updatedAt ≤ now) :
    WellFormed quota { doc with
      attempts := attempts, waiters := waiters, nextDue := due, updatedAt := now } where
  schema := h.schema
  quotaProject := h.quotaProject
  attempts_le := ha.length_le.trans h.attempts_le
  permits := fun p hp => (h.permits p (ha.subset hp)).mono ht
  tokens_nodup := h.tokens_nodup.sublist (ha.map _)
  pendings_nodup := h.pendings_nodup.sublist (pendings_sublist ha)
  waiters_le := hw.length_le.trans h.waiters_le
  waiters := fun w hm => (h.waiters w (hw.subset hm)).mono ht
  queue_nodup := h.queue_nodup.sublist (hw.map _)
  sorted := h.sorted.sublist hw
  idle := fun x hx hp => h.idle x ((hw.map _).subset hx) ((pendings_sublist ha).subset hp)

theorem WellFormed.enqueue (h : WellFormed quota doc) (ht : doc.updatedAt ≤ now)
    (hp : isParticipant participant = true) (hidle : participant ∉ pendings doc.attempts)
    {ws : List Waiter} {index : ℕ} (he : LogBudget.enqueue participant now doc.waiters = some (ws, index)) :
    WellFormed quota { doc with waiters := ws, updatedAt := now } := by
  have hok := fun w hw => (h.waiters w hw).mono ht
  rcases enqueue_cases he with ⟨hnew, hlen, rfl, -⟩ | ⟨pre, w, post, hl, hnew, rfl, rfl, -⟩
  · refine ⟨h.schema, h.quotaProject, h.attempts_le, fun p hp => (h.permits p hp).mono ht, h.tokens_nodup,
      h.pendings_nodup, by simpa using Nat.succ_le_of_lt hlen, fun w hw => ?_, ?_, ?_, fun x hx => ?_⟩
    · rcases List.mem_append.1 hw with hw | hw
      · exact hok w hw
      · obtain rfl := List.mem_singleton.1 hw
        exact ⟨hp, le_refl _, le_refl _⟩
    · rw [queue, List.map_append]
      exact List.nodup_append.2 ⟨h.queue_nodup, List.nodup_singleton _, fun x hx y hy hxy => by
        obtain rfl := hxy.trans (List.mem_singleton.1 hy)
        exact hnew hx⟩
    · refine List.pairwise_append.2 ⟨h.sorted, List.pairwise_singleton _ _, fun w hw w' hw' => ?_⟩
      obtain rfl := List.mem_singleton.1 hw'
      exact (hok w hw).seen.trans (hok w hw).lastSeen
    · obtain ⟨w, hw, rfl⟩ := mem_queue.1 hx
      rcases List.mem_append.1 hw with hw | hw
      · exact h.idle _ (mem_queue.2 ⟨w, hw, rfl⟩)
      · obtain rfl := List.mem_singleton.1 hw
        exact hidle
  · have hqueue : queue (pre ++ { w with lastSeenAt := now } :: post) = queue doc.waiters := by
      simp [queue, hl]
    refine ⟨h.schema, h.quotaProject, h.attempts_le, fun p hp => (h.permits p hp).mono ht, h.tokens_nodup,
      h.pendings_nodup, ?_, fun v hv => ?_, hqueue ▸ h.queue_nodup, ?_, hqueue ▸ h.idle⟩
    · have := h.waiters_le
      rw [hl] at this
      simpa using this
    · have hw : WaiterOk now w := hok w (by rw [hl]; simp)
      rcases List.mem_append.1 hv with hv | hv
      · exact hok v (by rw [hl]; exact List.mem_append_left _ hv)
      · rcases List.mem_cons.1 hv with rfl | hv
        · exact ⟨hp, hw.seen.trans hw.lastSeen, le_refl _⟩
        · exact hok v (by rw [hl]; simp [hv])
    · have hsort := h.sorted
      rw [hl] at hsort
      simpa [List.pairwise_append, List.pairwise_cons] using hsort

theorem WellFormed.grant (h : WellFormed quota doc) (ht : doc.updatedAt ≤ now)
    (hp : isParticipant participant = true) (hk : isToken token = true)
    (hidle : participant ∉ pendings doc.attempts) (hq : participant ∉ queue doc.waiters)
    (hnew : token ∉ tokens doc.attempts) (hlen : doc.attempts.length < maxAttempts) {due : ℤ} :
    WellFormed quota { doc with
      attempts := doc.attempts ++ [⟨token, participant, now, none⟩]
      nextDue := due, updatedAt := now } := by
  have hpend : pendings (doc.attempts ++ [⟨token, participant, now, none⟩]) =
      pendings doc.attempts ++ [participant] := by
    simp [pendings, List.filter_append]
  refine ⟨h.schema, h.quotaProject, by simpa using Nat.succ_le_of_lt hlen, fun p hmem => ?_, ?_, ?_, h.waiters_le,
    fun w hw => (h.waiters w hw).mono ht, h.queue_nodup, h.sorted, fun x hx => ?_⟩
  · rcases List.mem_append.1 hmem with hmem | hmem
    · exact (h.permits p hmem).mono ht
    · obtain rfl := List.mem_singleton.1 hmem
      exact ⟨hk, hp, le_refl _, by simp⟩
  · rw [tokens_append]
    exact List.nodup_append.2 ⟨h.tokens_nodup, List.nodup_singleton _, fun x hx y hy hxy => by
      obtain rfl := hxy.trans (List.mem_singleton.1 hy)
      exact hnew hx⟩
  · rw [hpend]
    exact List.nodup_append.2 ⟨h.pendings_nodup, List.nodup_singleton _, fun x hx y hy hxy => by
      obtain rfl := hxy.trans (List.mem_singleton.1 hy)
      exact hidle hx⟩
  · rw [hpend]
    intro hmem
    rcases List.mem_append.1 hmem with hmem | hmem
    · exact h.idle x hx hmem
    · exact hq (List.mem_singleton.1 hmem ▸ hx)

theorem pendings_map_completeAt (p : Permit) (now : ℤ) (l : List Permit) :
    (pendings (l.map (completeAt p now))).Sublist (pendings l) := by
  induction l with
  | nil => exact List.Sublist.refl _
  | cons q l ih =>
    rw [List.map_cons, pendings_cons, pendings_cons, completeAt_participant]
    unfold completeAt
    by_cases hq : q = p
    · simp only [hq, if_true, reduceCtorEq, if_false]
      split_ifs
      · exact ih.cons _
      · exact ih
    · simp only [hq, if_false]
      split_ifs
      · exact ih.cons_cons _
      · exact ih

theorem PermitOk.complete {p q : Permit} (hp : PermitOk now p) (hq : PermitOk now q) :
    PermitOk now (completeAt p now q) := by
  unfold completeAt
  split_ifs with h
  · refine ⟨hp.token, hp.participant, hp.reserved, fun c hc => ?_⟩
    obtain rfl := Option.some.inj hc
    exact ⟨hp.reserved, le_refl _⟩
  · exact hq

theorem WellFormed.complete (h : WellFormed quota doc) (ht : doc.updatedAt ≤ now) {p : Permit}
    (hp : p ∈ doc.attempts) :
    WellFormed quota { doc with
      attempts := doc.attempts.map (completeAt p now), updatedAt := now } := by
  refine ⟨h.schema, h.quotaProject, by simpa using h.attempts_le, fun q hq => ?_, ?_, ?_,
    h.waiters_le, fun w hw => (h.waiters w hw).mono ht, h.queue_nodup, h.sorted, fun x hx hmem => ?_⟩
  · obtain ⟨q, hmem, rfl⟩ := List.mem_map.1 hq
    exact ((h.permits p hp).mono ht).complete ((h.permits q hmem).mono ht)
  · rw [tokens_map_completeAt]
    exact h.tokens_nodup
  · exact h.pendings_nodup.sublist (pendings_map_completeAt p now _)
  · exact h.idle x hx ((pendings_map_completeAt p now _).subset hmem)

/-- Dropping what has expired loses no permit that is still charged. -/
theorem Booked.prune (h : Booked doc L) (ht : doc.updatedAt ≤ now) (ws : List Waiter) :
    Booked (pruned doc now ws) L where
  tokens_nodup := h.tokens_nodup
  mem := fun p hp => h.mem p (mem_charged.1 hp).1
  kept := fun p hp => by
    by_cases hs : ∃ c ∈ p.completedAt, c + seconds 60 ≤ now
    · exact .inr hs
    · rcases h.kept p hp with hk | ⟨c, hc, hle⟩
      · exact .inl (mem_charged.2 ⟨hk, hs⟩)
      · exact .inr ⟨c, hc, hle.trans ht⟩
  permits := fun p hp => (h.permits p hp).mono ht
  due := h.due
  spaced := h.spaced
  capped := h.capped

/-- What was granted and is outstanding is among the document's permits. -/
theorem Booked.outstanding_le (h : Booked doc L)
    (ht : doc.updatedAt ≤ now) : L.countP (outstanding now) ≤ doc.attempts.length := by
  rw [List.countP_eq_length_filter]
  have hnodup : (L.filter (outstanding now)).Nodup :=
    (List.Nodup.of_map _ h.tokens_nodup).sublist List.filter_sublist
  refine (List.subperm_of_subset hnodup fun p hp => ?_).length_le
  obtain ⟨hp, ho⟩ := List.mem_filter.1 hp
  rcases h.kept p hp with hk | ⟨c, hc, hle⟩
  · exact hk
  · have := (outstanding_iff.1 ho).2 c hc
    omega

/-- A grant that is due, while the document has room, keeps the budget. -/
theorem Booked.grant {ws : List Waiter} (h : Booked (pruned doc now ws) L)
    (hp : isParticipant participant = true) (hk : isToken token = true)
    (hnew : token ∉ tokens L) (hdue : doc.nextDue ≤ now)
    (hlen : (charged now doc.attempts).length < maxAttempts) :
    Booked (granted doc now ws token participant) (⟨token, participant, now, none⟩ :: L) := by
  have hc : (0 : ℤ) ≤ seconds cadenceSeconds := by decide
  refine ⟨List.nodup_cons.2 ⟨hnew, h.tokens_nodup⟩, fun p hmem => ?_, fun p hmem => ?_, fun p hmem => ?_,
    fun p hmem => ?_, List.pairwise_cons.2 ⟨fun q hq => (h.due q hq).trans hdue, h.spaced⟩,
    lt_of_le_of_lt (h.outstanding_le (le_refl _)) hlen, h.capped⟩
  · rcases List.mem_append.1 hmem with hmem | hmem
    · exact List.mem_cons_of_mem _ (h.mem p hmem)
    · exact List.mem_singleton.1 hmem ▸ List.mem_cons_self
  · rcases List.mem_cons.1 hmem with rfl | hmem
    · exact .inl (List.mem_append_right _ (List.mem_singleton_self _))
    · exact (h.kept p hmem).imp_left (List.mem_append_left _)
  · rcases List.mem_cons.1 hmem with rfl | hmem
    · exact ⟨hk, hp, le_refl _, by simp⟩
    · exact h.permits p hmem
  · rcases List.mem_cons.1 hmem with rfl | hmem
    · exact le_refl _
    · have h1 := h.due p hmem
      have h2 : p.reservedAt + seconds cadenceSeconds ≤ doc.nextDue := h1
      change p.reservedAt + seconds cadenceSeconds ≤ now + seconds cadenceSeconds
      omega

theorem outstanding_completeAt {p : Permit} (hp : p.completedAt = none) {t : ℤ} {q : Permit}
    (h : outstanding t (completeAt p now q) = true) : outstanding t q = true := by
  rw [outstanding_iff] at h ⊢
  rw [completeAt_reservedAt] at h
  refine ⟨h.1, fun c hc => h.2 c ?_⟩
  have hne : q ≠ p := by
    rintro rfl
    rw [hp] at hc
    cases hc
  rwa [completeAt, if_neg hne]

/-- Completing a pending permit keeps the budget: it stays charged for what was granted so far. -/
theorem Booked.complete {ws : List Waiter} (h : Booked (pruned doc now ws) L) {p : Permit}
    (hp : p ∈ charged now doc.attempts) (hn : p.completedAt = none) :
    Booked { pruned doc now ws with
      attempts := (charged now doc.attempts).map (completeAt p now) }
      (L.map (completeAt p now)) where
  tokens_nodup := (tokens_map_completeAt p now L).symm ▸ h.tokens_nodup
  mem := fun q hq => by
    obtain ⟨r, hr, rfl⟩ := List.mem_map.1 hq
    exact List.mem_map_of_mem (h.mem r hr)
  kept := fun q hq => by
    obtain ⟨r, hr, rfl⟩ := List.mem_map.1 hq
    rcases h.kept r hr with hk | ⟨c, hc, hle⟩
    · exact .inl (List.mem_map_of_mem hk)
    · have hne : r ≠ p := by
        rintro rfl
        rw [hn] at hc
        cases hc
      exact .inr ⟨c, by rwa [completeAt, if_neg hne], hle⟩
  permits := fun q hq => by
    obtain ⟨r, hr, rfl⟩ := List.mem_map.1 hq
    exact (h.permits p (h.mem p hp)).complete (h.permits r hr)
  due := fun q hq => by
    obtain ⟨r, hr, rfl⟩ := List.mem_map.1 hq
    rw [completeAt_reservedAt]
    exact h.due r hr
  spaced := by
    refine List.pairwise_map.2 (h.spaced.imp fun {q r} hqr => ?_)
    rwa [completeAt_reservedAt, completeAt_reservedAt]
  capped := h.capped.map (fun q => completeAt_reservedAt p q now)
    fun _ _ => outstanding_completeAt hn

end Sound

end LogBudget
