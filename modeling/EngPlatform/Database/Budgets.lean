import EngPlatform.Database.Lifecycle
import EngPlatform.Lib.Totals

/-!
# The budget of the database jobs

Reservations and permits share one document. `_reserve` checks the caps whenever a reservation is
made or resized; what `_finish` writes is never more than what stands reserved, because an execution
and an export are bounded by what they reserved at their creation, and a sort reserves every chunk
before its upload.
-/

set_option linter.dupNamespace false

namespace Control

open Database Totals

/-- The bytes that an owner has reserved. -/
def ownedBytes (owner : String) (r : Reservation) : ℕ := if r.owner = owner then r.bytes else 0

structure Caps (control : Rows Reservation) : Prop where
  all : total Reservation.bytes control ≤ globalBytes
  owned : ∀ owner, total (ownedBytes owner) control ≤ userBytes
  count : control.entries.length ≤ 128

/-- The bounds of the permits: by kind, by kind and connection role, and by the owner of a query. -/
structure PermitCaps (permits : Rows Permit) : Prop where
  kind : ∀ kind, (permitsOf permits kind).length ≤ kind.maximum
  role : ∀ kind role, role ≠ "" → ((permitsOf permits kind).filter (·.role = role)).length ≤ 1
  owner : ∀ owner, owner ≠ "" → ((permitsOf permits .query).filter (·.owner = owner)).length ≤ 1

section Reservations

variable {control control' : Rows Reservation} {id owner : String} {size : ℕ}

theorem sum_owned (owner : String) (l : List Reservation) :
    ((l.filter (·.owner = owner)).map (·.bytes)).sum = (l.map (ownedBytes owner)).sum := by
  induction l with
  | nil => rfl
  | cons r l ih =>
    by_cases h : r.owner = owner
    · rw [List.filter_cons_of_pos (by simpa using h)]
      simp [ownedBytes, h, ← ih]
    · rw [List.filter_cons_of_neg (by simpa using h)]
      simp [ownedBytes, h, ← ih]

theorem reserve_cases (h : reserve control id owner size = .ok control') :
    control' = control.insert id ⟨owner, size⟩ ∧
    (id ∈ control ∨ control.entries.length < 128) ∧
    total Reservation.bytes (control.erase id) + size ≤ globalBytes ∧
    total (ownedBytes owner) (control.erase id) + size ≤ userBytes := by
  unfold reserve at h
  dsimp only at h
  split_ifs at h with hn hs
  cases h
  rw [not_or, not_lt, not_lt] at hs
  refine ⟨rfl, ?_, ?_, ?_⟩
  · by_cases hid : id ∈ control
    · exact .inl hid
    · exact .inr (not_le.1 fun hl => hn ⟨hid, hl⟩)
  · rw [← total_others]
    simpa [weigh, Function.comp_def] using hs.1
  · rw [← total_others]
    rw [sum_owned] at hs
    simpa [weigh, Function.comp_def] using hs.2

theorem Caps.reserve (hc : Caps control) (h : Database.reserve control id owner size = .ok control') :
    Caps control' := by
  obtain ⟨rfl, hn, hg, hu⟩ := reserve_cases h
  refine ⟨?_, fun o => ?_, ?_⟩
  · rw [total_insert]
    show size + _ ≤ _
    omega
  · rw [total_insert]
    have hw : ownedBytes o ⟨owner, size⟩ = if owner = o then size else 0 := rfl
    rw [hw]
    by_cases ho : owner = o
    · subst ho
      rw [if_pos rfl]
      omega
    · rw [if_neg ho, Nat.zero_add]
      exact total_erase_le.trans (hc.owned o)
  · have hcount := hc.count
    rw [← total_one (m := control)] at hn hcount
    rw [← total_one, total_insert]
    rcases hn with hid | hlt
    · obtain ⟨r, hr⟩ := Option.isSome_iff_exists.1 (AList.lookup_isSome.2 hid)
      have := total_erase (f := fun _ => 1) hr
      omega
    · have := total_erase_le (f := fun _ : Reservation => 1) (m := control) (k := id)
      omega

theorem Caps.erase (hc : Caps control) : Caps (control.erase id) where
  all := total_erase_le.trans hc.all
  owned o := total_erase_le.trans (hc.owned o)
  count := by
    have := total_erase_le (f := fun _ : Reservation => 1) (m := control) (k := id)
    rw [total_one, total_one] at this
    exact this.trans hc.count

/-- A reservation that shrinks. -/
theorem Caps.shrink {r : Reservation} {bytes : ℕ} (hc : Caps control)
    (hr : control.lookup id = some r) (hb : bytes ≤ r.bytes) :
    Caps (control.insert id { r with bytes := bytes }) where
  all := (total_insert_le hr hb).trans hc.all
  owned o := by
    refine (total_insert_le hr ?_).trans (hc.owned o)
    unfold ownedBytes
    split_ifs
    · exact hb
    · exact le_refl 0
  count := by
    have hle : total (fun _ => 1) (control.insert id { r with bytes := bytes }) ≤
        total (fun _ => 1) control := total_insert_le hr (le_refl 1)
    rw [total_one, total_one] at hle
    exact hle.trans hc.count

end Reservations

section Permits

variable {permits permits' : Rows Permit}

theorem permitsOf_sublist (h : permits'.entries.Sublist permits.entries) (kind : Operation) :
    (permitsOf permits' kind).Sublist (permitsOf permits kind) := (h.map _).filter _

theorem PermitCaps.sublist (hp : PermitCaps permits) (h : permits'.entries.Sublist permits.entries) :
    PermitCaps permits' where
  kind k := (permitsOf_sublist h k).length_le.trans (hp.kind k)
  role k r hr := ((permitsOf_sublist h k).filter _).length_le.trans (hp.role k r hr)
  owner o ho := ((permitsOf_sublist h .query).filter _).length_le.trans (hp.owner o ho)

theorem permitsOf_insert {token : String} {p : Permit} (kind : Operation) :
    permitsOf (permits.insert token p) kind =
      if p.kind = kind then p :: permitsOf (permits.erase token) kind
      else permitsOf (permits.erase token) kind := by
  show ((p :: (permits.erase token).entries.map fun e => e.2).filter _) = _
  by_cases h : p.kind = kind
  · rw [List.filter_cons_of_pos (by simpa using h), if_pos h]
    rfl
  · rw [List.filter_cons_of_neg (by simpa using h), if_neg h]
    rfl

/-- A filter that the guard of a new permit found empty has one element with it. -/
theorem length_filter_cons_le {p : Permit} {q : Permit → Bool} {l l' : List Permit}
    (hl : l.Sublist l') (h : ∀ x ∈ l', q x = false) : ((p :: l).filter q).length ≤ 1 := by
  have hn : l.filter q = [] := List.filter_eq_nil_iff.2 fun x hx => by simp [h x (hl.subset hx)]
  by_cases hq : q p = true
  · rw [List.filter_cons_of_pos hq, hn]
    rfl
  · rw [List.filter_cons_of_neg hq, hn]
    exact Nat.zero_le 1

theorem unexpired_sublist (now : Time) : (unexpired permits now).entries.Sublist permits.entries :=
  List.filter_sublist

theorem takePermit_caps {s s' : Store} {token : String} {kind : Operation} {owner role : String}
    (hp : PermitCaps s.permits) (h : takePermit s token kind owner role = .ok s') :
    PermitCaps s'.permits := by
  unfold takePermit at h
  dsimp only at h
  split_ifs at h with hn
  cases h
  rw [not_or, not_or, not_le] at hn
  obtain ⟨hk, ho, hr⟩ := hn
  have hu := hp.sublist (unexpired_sublist s.now)
  have hsub : ((unexpired s.permits s.now).erase token).entries.Sublist
      (unexpired s.permits s.now).entries := List.kerase_sublist _ _
  have he := hu.sublist hsub
  refine ⟨fun k => ?_, fun k r hne => ?_, fun o hne => ?_⟩ <;> rw [permitsOf_insert] <;>
    split_ifs with hkk
  · subst hkk
    have := (permitsOf_sublist hsub kind).length_le
    rw [List.length_cons]
    dsimp only at hk ⊢
    omega
  · exact he.kind k
  · subst hkk
    by_cases hrr : role = r
    · subst hrr
      refine length_filter_cons_le (permitsOf_sublist hsub kind) fun x hx => ?_
      simpa using fun hxr => hr ⟨hne, x, hx, hxr⟩
    · rw [List.filter_cons_of_neg (by simpa using hrr)]
      exact he.role kind r hne
  · exact he.role k r hne
  · dsimp only at hkk
    subst hkk
    by_cases hoo : owner = o
    · subst hoo
      refine length_filter_cons_le (permitsOf_sublist hsub .query) fun x hx => ?_
      simpa using fun hxo => ho ⟨rfl, hne, x, hx, hxo⟩
    · rw [List.filter_cons_of_neg (by simpa using hoo)]
      exact he.owner o hne
  · exact he.owner o hne

end Permits

/-- The document of the budget stays as it is. -/
def Quiet (s s' : Store) : Prop := s'.reservations = s.reservations ∧ s'.permits = s.permits

section Quiet

variable {cfg : Config} {s s' s'' : Store} {k : Kind} {id : String}

theorem Quiet.trans (h : Quiet s s') (h' : Quiet s' s'') : Quiet s s'' :=
  ⟨h'.1.trans h.1, h'.2.trans h.2⟩

theorem modify_quiet {f : Job → Job} : Quiet s (s.modify k id f) := by
  unfold Store.modify
  rcases s.job k id with _ | j <;> exact ⟨rfl, rfl⟩

theorem foldl_quiet {f : Store → Job → Job} (ids : List String) :
    ∀ s, Quiet s (ids.foldl (fun s x => s.modify k x (f s)) s) := by
  induction ids with
  | nil => exact fun s => ⟨rfl, rfl⟩
  | cons x ids ih => exact fun s => modify_quiet.trans (ih _)

variable (s k id) in
theorem claimJob_quiet (token : String) : Quiet s (claimJob s k id token).1 := by
  unfold claimJob
  rcases s.job k id with _ | j
  · exact ⟨rfl, rfl⟩
  · dsimp only
    split_ifs <;> exact ⟨rfl, rfl⟩

theorem finish_quiet {claim : Option String} {state : State} {error : Option String}
    {changes : Option Changes} (hs : state = .failed ∨ state = .cancelled) :
    Quiet s (finishJob cfg s k id claim state error changes) := by
  unfold finishJob
  rcases s.job k id with _ | j
  · exact ⟨rfl, rfl⟩
  · dsimp only
    split_ifs with hf hc
    · exact ⟨rfl, rfl⟩
    · rcases settledState_cases cfg s k j state with h | ⟨-, h⟩ | ⟨h, -⟩ <;>
        rw [hc] at h <;> rcases hs with rfl | rfl <;> cases h
    · exact ⟨rfl, rfl⟩

theorem finish_completed_quiet {token : String} {changes : Changes}
    (h : ¬∃ j, Publishes cfg s k id token j) :
    Quiet s (finishJob cfg s k id (some token) .completed none (some changes)) := by
  unfold finishJob
  rcases hj : s.job k id with _ | j
  · exact ⟨rfl, rfl⟩
  · dsimp only
    split_ifs with hf hc
    · exact ⟨rfl, rfl⟩
    · rcases settledState_cases cfg s k j .completed with hs | ⟨-, hs⟩ | ⟨-, he, hp⟩
      · rw [hc] at hs
        cases hs
      · rw [hc] at hs
        cases hs
      · exact absurd ⟨j, hj, by simpa using hf, he, hp rfl⟩ h
    · exact ⟨rfl, rfl⟩

end Quiet

/-- What an act does to the budget and to what the sorts have reserved. -/
inductive Ledger (cfg : Config) (c : Conf) (a : Act) (c' : Conf) : Prop
  | quiet (hr : c'.store.reservations = c.store.reservations)
      (hp : c'.store.permits.entries.Sublist c.store.permits.entries)
      (hw : ∀ t w, c'.workers.lookup t = some w →
        c.workers.lookup t = some w ∨ Starts c a c' t w)
  | taken (token : String) (kind : Operation) (owner role : String)
      (ht : takePermit c.store token kind owner role = .ok c'.store) (hw : c'.workers = c.workers)
  | staged (id owner : String) (hid : id ∉ c.used)
      (hr : reserve c.store.reservations id owner snapshotBytes = .ok c'.store.reservations)
      (hp : c'.store.permits = c.store.permits) (hw : c'.workers = c.workers)
  | created (k : Kind) (id : String) (j : Job) (hd : Drawn c c' id)
      (hr : reserve c.store.reservations id j.login (reservedFor k) = .ok c'.store.reservations)
      (hp : c'.store.permits = c.store.permits) (hw : c'.workers = c.workers)
  | resized (t : String) (w w' : Worker) (existing : Reservation) (bytes : ℕ)
      (hw : c.workers.lookup t = some w) (hk : w.kind = .view) (hs : SameJob w w')
      (hx : c.store.reservations.lookup w.identity = some existing)
      (hb : w'.stored + w'.held.sum + existing.bytes = w.stored + w.held.sum + bytes)
      (hr : reserve c.store.reservations w.identity w.login bytes = .ok c'.store.reservations)
      (hp : c'.store.permits = c.store.permits) (hw' : c'.workers = c.workers.insert t w')
  | released (id : String) (hr : c'.store.reservations = c.store.reservations.erase id)
      (hp : c'.store.permits = c.store.permits) (hw : c'.workers = c.workers)
  | published (t : String) (w : Worker) (changes : Changes) (j : Job)
      (ha : a = .complete t changes) (hw : c.workers.lookup t = some w)
      (hc : w.publishes changes = true) (hj : Publishes cfg c.store w.kind w.identity t j)
      (hj' : c'.store.job w.kind w.identity =
        some (j.settled w.kind .completed none (some changes) c.store.now))
      (hr : c'.store.reservations = c.store.reservations.modify w.identity fun r =>
        { r with bytes := (j.settled w.kind .completed none (some changes) c.store.now).bytes })
      (hp : c'.store.permits = c.store.permits) (hw' : c'.workers = c.workers)

section Steps

variable {cfg : Config} {c c' : Conf} {a : Act}

theorem ledger_put {s : Store} (h : Quiet c.store s) : Ledger cfg c a (c.put s) :=
  .quiet h.1 (by rw [show (c.put s).store.permits = _ from h.2]) fun _ _ h => .inl h

theorem ledger_of_inserts {k : Kind} {id : String} {value : Job} (hw : c'.workers = c.workers)
    (h : Inserts c.store c'.store k id value (reservedFor k)) (hd : Drawn c c' id) :
    Ledger cfg c a c' := .created k id value hd h.reserved h.permits hw

theorem step_ledger (h : c.step cfg a = some c') : Ledger cfg c a c' := by
  have hold : ∀ t w, c.workers.lookup t = some w → c.workers.lookup t = some w ∨ Starts c a c' t w :=
    fun _ _ h => .inl h
  cases a with
  | stage identity owner =>
    simp only [Conf.step] at h
    split_ifs at h with hid
    obtain ⟨control, hr, rfl⟩ := Option.map_eq_some_iff.1 h
    exact .staged identity owner hid (toOption_some hr) rfl rfl
  | createExecution identity d requestId fingerprint expiresAt =>
    simp only [Conf.step] at h
    split_ifs at h with hid
    obtain ⟨s, hs, rfl⟩ := Option.map_eq_some_iff.1 h
    rcases createExecution_cases (toOption_some hs) with rfl | hi
    · exact .quiet rfl (List.Sublist.refl _) hold
    · exact ledger_of_inserts rfl hi (.inr ⟨hid, rfl, by simp⟩)
  | createExport identity d seen =>
    simp only [Conf.step] at h
    split_ifs at h with hid
    obtain ⟨s, hs, rfl⟩ := Option.map_eq_some_iff.1 h
    rcases createExport_cases (toOption_some hs) with rfl | hi
    · exact .quiet rfl (List.Sublist.refl _) hold
    · exact ledger_of_inserts rfl hi (.inl ⟨hid, by simp, rfl⟩)
  | createView identity d requestId fingerprint expiresAt =>
    simp only [Conf.step] at h
    split_ifs at h with hid
    obtain ⟨s, hs, rfl⟩ := Option.map_eq_some_iff.1 h
    rcases createView_cases (toOption_some hs) with rfl | hi
    · exact .quiet rfl (List.Sublist.refl _) hold
    · exact ledger_of_inserts rfl hi (.inl ⟨hid, by simp, rfl⟩)
  | claim k identity token =>
    have hF := (step_frame h).workers
    simp only [Conf.step] at h
    split_ifs at h
    have hq := claimJob_quiet c.store k identity token
    rcases claimJob_cases c.store k identity token with
      ⟨hn, -⟩ | ⟨j, hj, hqd, hr, hc⟩
    · rcases hcl : claimJob c.store k identity token with ⟨s, o⟩
      rw [hcl] at h hn hq
      cases hn
      cases h
      exact ledger_put hq
    · rw [hc] at h hq
      cases h
      refine .quiet hq.1 (by rw [show Store.permits _ = _ from hq.2]) fun t w hw => ?_
      by_cases ht : t = token
      · subst ht
        rcases hF t w hw with ⟨w₁, hw₁, -⟩ | hs
        · exact absurd (AList.lookup_isSome.1 (by rw [hw₁]; rfl)) ‹_›
        · exact .inr hs
      · exact .inl ((AList.lookup_insert_ne ht).symm.trans hw)
  | complete token changes =>
    simp only [Conf.step] at h
    rcases hw : c.workers.lookup token with _ | w
    · rw [hw] at h
      cases h
    rw [hw] at h
    dsimp only at h
    split_ifs at h with hp
    cases h
    by_cases hex : ∃ j, Publishes cfg c.store w.kind w.identity token j
    · obtain ⟨j, hj⟩ := hex
      have he := finish_published changes hj
      refine .published token w changes j rfl hw hp hj ?_ ?_ ?_ rfl
      · show Store.job (finishJob _ _ _ _ _ _ _ _) _ _ = _
        rw [he]
        exact job_insert.trans (if_pos ⟨rfl, rfl⟩)
      · show Store.reservations (finishJob _ _ _ _ _ _ _ _) = _
        rw [he]
      · show Store.permits (finishJob _ _ _ _ _ _ _ _) = _
        rw [he]
        rfl
    · exact ledger_put (finish_completed_quiet hex)
  | abandon token error =>
    obtain ⟨w, -, rfl⟩ := Option.map_eq_some_iff.1 h
    exact ledger_put (finish_quiet (.inl rfl))
  | close token =>
    obtain ⟨w, -, rfl⟩ := Option.map_eq_some_iff.1 h
    exact ledger_put modify_quiet
  | charge token bytes result =>
    simp only [Conf.step] at h
    rcases hw : c.workers.lookup token with _ | w
    · rw [hw] at h
      cases h
    rw [hw] at h
    dsimp only at h
    split_ifs at h with hk
    all_goals
      obtain ⟨s, hs, rfl⟩ := Option.map_eq_some_iff.1 h
      obtain ⟨existing, control, hx, -, hr, rfl⟩ := resize_store (toOption_some hs)
    · refine .resized token w { w with stored := w.stored + bytes } existing
        (existing.bytes + bytes) hw hk ⟨rfl, rfl, rfl⟩ hx ?_ hr rfl rfl
      dsimp only
      omega
    · refine .resized token w { w with held := bytes :: w.held } existing
        (existing.bytes + bytes) hw hk ⟨rfl, rfl, rfl⟩ hx ?_ hr rfl rfl
      rw [List.sum_cons]
      dsimp only
      omega
  | credit token bytes =>
    simp only [Conf.step] at h
    rcases hw : c.workers.lookup token with _ | w
    · rw [hw] at h
      cases h
    rw [hw] at h
    dsimp only at h
    split_ifs at h with hk
    obtain ⟨s, hs, rfl⟩ := Option.map_eq_some_iff.1 h
    obtain ⟨existing, control, hx, hn, hr, rfl⟩ := resize_store (toOption_some hs)
    refine .resized token w { w with held := w.held.erase bytes } existing _ hw hk.1
      ⟨rfl, rfl, rfl⟩ hx ?_ hr rfl rfl
    have hsum := List.sum_erase hk.2
    dsimp only
    omega
  | cancel identity claim =>
    cases h
    exact ledger_put (finish_quiet (.inr rfl))
  | dispatchFailed k identity =>
    cases h
    exact ledger_put (finish_quiet (.inl rfl))
  | lost k identity claim =>
    cases h
    exact ledger_put (finish_quiet (.inl rfl))
  | release identity =>
    cases h
    exact .released identity rfl rfl rfl
  | take token kind owner role =>
    simp only [Conf.step] at h
    obtain ⟨s, hs, rfl⟩ := Option.map_eq_some_iff.1 h
    exact .taken token kind owner role (toOption_some hs) rfl
  | give token =>
    cases h
    exact .quiet rfl (List.kerase_sublist _ _) hold
  | cleaned identity exports =>
    cases h
    exact ledger_put (modify_quiet.trans (foldl_quiet exports _))
  | cleanView identity executionId exports =>
    cases h
    exact ledger_put ((modify_quiet.trans (foldl_quiet exports _)).trans modify_quiet)
  | forget k identity =>
    cases h
    exact ledger_put ⟨rfl, rfl⟩
  | documents workspaces sessions policy requests now =>
    simp only [Conf.step] at h
    split_ifs at h
    cases h
    exact ledger_put ⟨rfl, rfl⟩
  | _ =>
    cases h
    exact ledger_put modify_quiet

end Steps

/-- What stands reserved for a job that may still be published. -/
structure Accounted (c : Conf) : Prop where
  kinds : ∀ k k' id j j', c.store.job k id = some j → c.store.job k' id = some j' → k = k'
  working : ∀ t w k j, c.workers.lookup t = some w → c.store.job k w.identity = some j → k = w.kind
  fixed : ∀ k id j r, k ≠ .view → c.store.job k id = some j →
    (j.state = .queued ∨ j.state = .running) → c.store.reservations.lookup id = some r →
    r.bytes = reservedFor k
  sorting : ∀ t w j r, c.workers.lookup t = some w → w.kind = .view →
    c.store.job .view w.identity = some j → j.state = .running →
    c.store.reservations.lookup w.identity = some r → w.stored + w.held.sum ≤ r.bytes

section Invariant

variable {cfg : Config} {c c' : Conf} {a : Act}

theorem reserve_lookup {control control' : Rows Reservation} {id id' owner : String} {size : ℕ}
    (h : reserve control id owner size = .ok control') :
    control'.lookup id' = if id' = id then some ⟨owner, size⟩ else control.lookup id' := by
  rw [(reserve_cases h).1]
  split_ifs with he
  · rw [he]
    exact AList.lookup_insert control
  · exact AList.lookup_insert_ne he

/-- A row that is pending after an act was pending before it, or is new. -/
theorem pending_before (h : c.step cfg a = some c') {k : Kind} {id : String} {j' : Job}
    (hj' : c'.store.job k id = some j') (hp : j'.state = .queued ∨ j'.state = .running) :
    (∃ j, c.store.job k id = some j ∧ (j.state = .queued ∨ j.state = .running) ∧
      (j'.state = .running → j.state = .running ∨ ∃ t, a = .claim k id t ∧ j.state = .queued)) ∨
    (Drawn c c' id ∧ Born k j' ∧ a.creates = some (k, id) ∧
      reserve c.store.reservations id j'.login (reservedFor k) = .ok c'.store.reservations) := by
  rcases row_cases h hj' with ⟨j, hj, hk⟩ | hb | ⟨t, j, ha, hj, hq, -⟩ |
    ⟨t, w, ch, j, -, -, -, -, -, -, rfl⟩
  · left
    rcases hk.state with hs | hs | ⟨-, hs⟩
    · exact ⟨j, hj, hs ▸ hp, fun hr => .inl (hs ▸ hr)⟩
    · rcases hs with hs | hs <;> rw [hs] at hp <;> rcases hp with hp | hp <;> cases hp
    · rcases hs with hs | hs <;> rw [hs] at hp <;> rcases hp with hp | hp <;> cases hp
  · exact .inr hb
  · exact .inl ⟨j, hj, .inl hq, fun _ => .inr ⟨t, ha, hq⟩⟩
  · rw [settled_completed.1] at hp
    rcases hp with hp | hp <;> cases hp

/-- The row whose worker publishes is running under its claim. -/
theorem Publishes.running (hI : Inv c) {k : Kind} {id t : String} {j : Job} {w : Worker}
    (hw : c.workers.lookup t = some w) (hk : w.kind = k) (hi : w.identity = id)
    (h : Publishes cfg c.store k id t j) : j.state = .running :=
  (finishable_state h.finishable).resolve_left fun hq => (hI.queued k id j h.row hq).2 t w hw ⟨hk, hi⟩

theorem settled_bytes {k : Kind} {j : Job} {changes : Changes} {now : Time} :
    (j.settled k .completed none (some changes) now).bytes = (changes.apply j).bytes := by
  unfold Job.settled Job.changed
  dsimp only
  rw [if_pos rfl]
  split_ifs <;> rfl

/-- A publication never takes more than what is reserved. -/
theorem publish_le (hI : Inv c) (hA : Accounted c) {t : String} {w : Worker} {changes : Changes}
    {j : Job} {r : Reservation} (hw : c.workers.lookup t = some w)
    (hc : w.publishes changes = true) (hp : Publishes cfg c.store w.kind w.identity t j)
    (hr : c.store.reservations.lookup w.identity = some r) :
    (j.settled w.kind .completed none (some changes) c.store.now).bytes ≤ r.bytes := by
  have hrun := hp.running hI hw rfl rfl
  rw [settled_bytes]
  cases changes with
  | captured manifest columns rowCount bytes elapsedMs =>
    simp only [Worker.publishes, Bool.and_eq_true, decide_eq_true_eq] at hc
    rw [hA.fixed w.kind _ j r (by rw [hc.1]; exact fun h => by cases h) hp.row (.inr hrun) hr, hc.1]
    exact hc.2
  | exported file =>
    simp only [Worker.publishes, Bool.and_eq_true, decide_eq_true_eq] at hc
    rw [hA.fixed w.kind _ j r (by rw [hc.1]; exact fun h => by cases h) hp.row (.inr hrun) hr, hc.1]
    exact hc.2
  | sorted manifest bytes rowCount elapsedMs =>
    simp only [Worker.publishes, Bool.and_eq_true, decide_eq_true_eq] at hc
    have hrow := hp.row
    rw [hc.1] at hrow
    have := hA.sorting t w j r hw hc.1 hrow hrun hr
    show bytes ≤ r.bytes
    omega

theorem takePermit_reservations {s s' : Store} {token : String} {kind : Operation}
    {owner role : String} (h : takePermit s token kind owner role = .ok s') :
    s'.reservations = s.reservations := by
  unfold takePermit at h
  dsimp only at h
  split_ifs at h
  cases h
  rfl

/-- A reservation of an identity that has left the staging: the same as before the act, or resized
by its sort, or that of a row that was just published. -/
theorem reserved_before (hL : Ledger cfg c a c') {id : String} {r' : Reservation}
    (hu : id ∈ c.used) (hs : id ∉ c.staging) (hr' : c'.store.reservations.lookup id = some r') :
    c.store.reservations.lookup id = some r' ∨
    (∃ t w w' existing, c.workers.lookup t = some w ∧ w.kind = .view ∧ w.identity = id ∧
      SameJob w w' ∧ c.store.reservations.lookup id = some existing ∧
      w'.stored + w'.held.sum + existing.bytes = w.stored + w.held.sum + r'.bytes ∧
      c'.workers = c.workers.insert t w') ∨
    ∃ k j j', c.store.job k id = some j ∧ c'.store.job k id = some j' ∧ j'.state = .completed := by
  cases hL with
  | quiet hr hp hw => exact .inl (hr ▸ hr')
  | taken token kind owner role ht hw => exact .inl (takePermit_reservations ht ▸ hr')
  | staged id₁ owner hid hr hp hw =>
    rw [reserve_lookup hr, if_neg (by rintro rfl; exact hid hu)] at hr'
    exact .inl hr'
  | created k id₁ j hd hr hp hw =>
    have hne : id ≠ id₁ := by
      rintro rfl
      exact hd.elim (fun h => h.1 hu) fun h => hs h.1
    rw [reserve_lookup hr, if_neg hne] at hr'
    exact .inl hr'
  | resized t w w' existing bytes hw hk hsame hx hb hr hp hw' =>
    rw [reserve_lookup hr] at hr'
    split_ifs at hr' with he
    · cases hr'
      exact .inr (.inl ⟨t, w, w', existing, hw, hk, he.symm, hsame, he ▸ hx, hb, hw'⟩)
    · exact .inl hr'
  | released id₁ hr hp hw =>
    rw [hr] at hr'
    by_cases he : id = id₁
    · subst he
      rw [AList.lookup_erase] at hr'
      cases hr'
    · rw [AList.lookup_erase_ne he] at hr'
      exact .inl hr'
  | published t w changes j ha hw hc hj hj' hr hp hw' =>
    by_cases he : id = w.identity
    · subst he
      exact .inr (.inr ⟨w.kind, j, _, hj.row, hj', settled_completed.1⟩)
    · rw [hr, Rows.lookup_modify, if_neg he] at hr'
      exact .inl hr'

theorem worker_before (hL : Ledger cfg c a c') {t : String} {w' : Worker}
    (hw' : c'.workers.lookup t = some w') :
    c.workers.lookup t = some w' ∨ Starts c a c' t w' ∨
    ∃ w existing bytes, c.workers.lookup t = some w ∧ SameJob w w' ∧ w.kind = .view ∧
      c.store.reservations.lookup w.identity = some existing ∧
      w'.stored + w'.held.sum + existing.bytes = w.stored + w.held.sum + bytes ∧
      reserve c.store.reservations w.identity w.login bytes = .ok c'.store.reservations := by
  cases hL with
  | quiet hr hp hw => exact (hw t w' hw').elim .inl fun h => .inr (.inl h)
  | taken token kind owner role ht hw => exact .inl (hw ▸ hw')
  | staged id owner hid hr hp hw => exact .inl (hw ▸ hw')
  | created k id j hd hr hp hw => exact .inl (hw ▸ hw')
  | resized t₁ w w₁ existing bytes hw hk hs hx hb hr hp hws =>
    rw [hws] at hw'
    by_cases ht : t = t₁
    · subst ht
      rw [AList.lookup_insert] at hw'
      cases hw'
      exact .inr (.inr ⟨w, existing, bytes, hw, hs, hk, hx, hb, hr⟩)
    · rw [AList.lookup_insert_ne ht] at hw'
      exact .inl hw'
  | released id hr hp hw => exact .inl (hw ▸ hw')
  | published t₁ w changes j ha hw hc hj hj' hr hp hws => exact .inl (hws ▸ hw')

theorem fixed_step (hI : Inv c) (hA : Accounted c) (h : c.step cfg a = some c') {k : Kind}
    {id : String} {j' : Job} {r' : Reservation} (hk : k ≠ .view)
    (hj' : c'.store.job k id = some j') (hp : j'.state = .queued ∨ j'.state = .running)
    (hr' : c'.store.reservations.lookup id = some r') : r'.bytes = reservedFor k := by
  rcases pending_before h hj' hp with ⟨j, hj, hpj, -⟩ | ⟨-, -, -, hr⟩
  · obtain ⟨hu, hs⟩ := hI.known k id j hj
    rcases reserved_before (step_ledger h) hu hs hr' with hr |
      ⟨t, w, w', existing, hw, hkw, hi, -⟩ | ⟨k₁, j₁, j₂, hj₁, hj₂, hst⟩
    · exact hA.fixed k id j r' hk hj hpj hr
    · subst hi
      exact absurd ((hA.working t w k j hw hj).trans hkw) hk
    · obtain rfl := hA.kinds k k₁ id j j₁ hj hj₁
      rw [hj'] at hj₂
      cases hj₂
      rw [hst] at hp
      rcases hp with hp | hp <;> cases hp
  · rw [reserve_lookup hr, if_pos rfl] at hr'
    cases hr'
    rfl

theorem sorting_step (hI : Inv c) (hA : Accounted c) (h : c.step cfg a = some c') {t : String}
    {w' : Worker} {j' : Job} {r' : Reservation} (hw' : c'.workers.lookup t = some w')
    (hk : w'.kind = .view) (hj' : c'.store.job .view w'.identity = some j')
    (hrun : j'.state = .running) (hr' : c'.store.reservations.lookup w'.identity = some r') :
    w'.stored + w'.held.sum ≤ r'.bytes := by
  have hL := step_ledger h
  -- a worker that does not start now already ran for a running row
  have hrow : ∀ w, c.workers.lookup t = some w → SameJob w w' →
      ∃ j, c.store.job .view w'.identity = some j ∧ j.state = .running := by
    rintro w hw ⟨hkw, hiw, -⟩
    rw [hk] at hkw
    have hne : ∀ j, c.store.job .view w'.identity = some j → j.state ≠ .queued := fun j hj hq =>
      (hI.queued _ _ j hj hq).2 t w hw ⟨hkw.symm, hiw.symm⟩
    rcases pending_before h hj' (.inr hrun) with ⟨j, hj, hpj, -⟩ | ⟨hd, -⟩
    · exact ⟨j, hj, hpj.resolve_left (hne j hj)⟩
    · exact absurd hiw.symm ((hd.fresh hI).2.1 t w hw)
  have hbefore : ∀ w, c.workers.lookup t = some w → SameJob w w' →
      w'.identity ∈ c.used ∧ w'.identity ∉ c.staging := fun w hw hs => by
    rw [hs.2.1]
    exact hI.working t w hw
  -- a published row is not running
  have hnp : ¬∃ k j j₂, c.store.job k w'.identity = some j ∧ c'.store.job k w'.identity = some j₂ ∧
      j₂.state = .completed ∧ k = .view := by
    rintro ⟨k, j, j₂, -, hj₂, hst, rfl⟩
    rw [hj'] at hj₂
    cases hj₂
    rw [hst] at hrun
    cases hrun
  rcases worker_before hL hw' with hw | ⟨-, -, hheld, hstored, -⟩ |
    ⟨w, existing, bytes, hw, hsame, hkw, hx, hb, hr⟩
  · obtain ⟨j, hj, hjr⟩ := hrow w' hw ⟨rfl, rfl, rfl⟩
    obtain ⟨hu, hs⟩ := hbefore w' hw ⟨rfl, rfl, rfl⟩
    rcases reserved_before hL hu hs hr' with hr | ⟨t₁, w₁, w₂, existing, hw₁, hk₁, hi₁, hs₁, hx, hb, hws⟩ |
      ⟨k₁, j₁, j₂, hj₁, hj₂, hst⟩
    · exact hA.sorting t w' j r' hw hk hj hjr hr
    · obtain rfl := hI.unique t t₁ w' w₁ hw hw₁ (hk.trans hk₁.symm) hi₁.symm
      rw [hws, AList.lookup_insert] at hw'
      cases hw'
      have := hA.sorting t w₁ j existing hw₁ hk₁ (hi₁ ▸ hj) hjr (hi₁ ▸ hx)
      omega
    · exact absurd ⟨k₁, j₁, j₂, hj₁, hj₂, hst, hA.kinds k₁ .view _ j₁ j hj₁ hj⟩ hnp
  · rw [hheld, hstored]
    exact Nat.zero_le _
  · obtain ⟨j, hj, hjr⟩ := hrow w hw hsame
    have hle := hA.sorting t w j existing hw hkw (hsame.2.1 ▸ hj) hjr hx
    rw [reserve_lookup hr, if_pos hsame.2.1] at hr'
    cases hr'
    dsimp only
    omega

theorem accounted_step (hI : Inv c) (hA : Accounted c) (h : c.step cfg a = some c') :
    Accounted c' := by
  have hbefore : ∀ k id j', c'.store.job k id = some j' →
      (∃ j, c.store.job k id = some j) ∨ (Drawn c c' id ∧ a.creates = some (k, id)) :=
      fun k id j' hj' => by
    rcases row_cases h hj' with ⟨j, hj, -⟩ | ⟨hd, -, ha, -⟩ | ⟨t, j, -, hj, -⟩ | ⟨t, w, ch, j, -, -, -, -, -, hp, -⟩
    · exact .inl ⟨j, hj⟩
    · exact .inr ⟨hd, ha⟩
    · exact .inl ⟨j, hj⟩
    · exact .inl ⟨j, hp.row⟩
  refine ⟨fun k k' id j j' hj hj' => ?_, fun t w' k j' hw' hj' => ?_,
    fun k id j' r' hk hj' hp hr' => fixed_step hI hA h hk hj' hp hr',
    fun t w' j' r' hw' hk hj' hrun hr' => sorting_step hI hA h hw' hk hj' hrun hr'⟩
  · rcases hbefore k id j hj with ⟨j₁, hj₁⟩ | ⟨hd, ha⟩ <;>
      rcases hbefore k' id j' hj' with ⟨j₂, hj₂⟩ | ⟨hd', ha'⟩
    · exact hA.kinds k k' id j₁ j₂ hj₁ hj₂
    · rw [(hd'.fresh hI).1 k] at hj₁
      cases hj₁
    · rw [(hd.fresh hI).1 k'] at hj₂
      cases hj₂
    · rw [ha] at ha'
      cases ha'
      rfl
  · have hold : ∀ w, c.workers.lookup t = some w → SameJob w w' → k = w'.kind := fun w hw hs => by
      rcases hbefore k w'.identity j' hj' with ⟨j, hj⟩ | ⟨hd, -⟩
      · rw [hs.2.1] at hj
        rw [hs.1]
        exact hA.working t w k j hw hj
      · exact absurd hs.2.1.symm ((hd.fresh hI).2.1 t w hw)
    rcases worker_before (step_ledger h) hw' with hw | ⟨-, -, -, -, j, hj, -⟩ | ⟨w, _, _, hw, hs, -⟩
    · exact hold w' hw ⟨rfl, rfl, rfl⟩
    · rcases hbefore k w'.identity j' hj' with ⟨j₁, hj₁⟩ | ⟨hd, -⟩
      · exact hA.kinds k _ _ j₁ j hj₁ hj
      · rw [(hd.fresh hI).1 _] at hj
        cases hj
    · exact hold w hw hs

theorem caps_step (hI : Inv c) (hA : Accounted c) (hC : Caps c.store.reservations)
    (h : c.step cfg a = some c') : Caps c'.store.reservations := by
  cases step_ledger h with
  | quiet hr hp hw => rwa [hr]
  | taken token kind owner role ht hw => rwa [takePermit_reservations ht]
  | staged id owner hid hr hp hw => exact hC.reserve hr
  | created k id j hd hr hp hw => exact hC.reserve hr
  | resized t w w' existing bytes hw hk hs hx hb hr hp hw' => exact hC.reserve hr
  | released id hr hp hw =>
    rw [hr]
    exact hC.erase
  | published t w changes j ha hw hc hj hj' hr hp hw' =>
    rw [hr]
    unfold Rows.modify
    rcases hx : c.store.reservations.lookup w.identity with _ | r
    · exact hC
    · exact hC.shrink hx (publish_le hI hA hw hc hj hx)

theorem permits_step (hP : PermitCaps c.store.permits) (h : c.step cfg a = some c') :
    PermitCaps c'.store.permits := by
  cases step_ledger h with
  | quiet hr hp hw => exact hP.sublist hp
  | taken token kind owner role ht hw => exact takePermit_caps hP ht
  | staged id owner hid hr hp hw => rwa [hp]
  | created k id j hd hr hp hw => rwa [hp]
  | resized t w w' existing bytes hw hk hs hx hb hr hp hw' => rwa [hp]
  | released id hr hp hw => rwa [hp]
  | published t w changes j ha hw hc hj hj' hr hp hw' => rwa [hp]

/-- What holds of the budget in every state that is reached. -/
structure Sound (c : Conf) : Prop where
  inv : Inv c
  accounted : Accounted c
  caps : Caps c.store.reservations
  permits : PermitCaps c.store.permits

theorem Reached.sound (hc : Reached cfg c) : Sound c := by
  obtain ⟨s, hj, hp, hr, hreach⟩ := hc
  have hI := inv_start s hj
  have hnone : ∀ k id j, (Conf.start s).store.job k id = some j → False := fun k id j h => by
    have hu := (hI.known k id j h).1
    cases hu
  have hnw : ∀ t w, (Conf.start s).workers.lookup t = some w → False := fun t w h => by
    have hu := (hI.working t w h).1
    cases hu
  refine hreach.invariant (P := Sound) ⟨hI, ⟨fun k k' id j j' h => (hnone k id j h).elim,
    fun t w k j h => (hnw t w h).elim, fun k id j r _ h => (hnone k id j h).elim,
    fun t w j r h => (hnw t w h).elim⟩, ?_, ?_⟩
    fun d a d' hd hs => ⟨inv_step hd.inv hs, accounted_step hd.inv hd.accounted hs,
      caps_step hd.inv hd.accounted hd.caps hs, permits_step hd.permits hs⟩
  · show Caps s.reservations
    rw [hr]
    exact ⟨Nat.zero_le _, fun _ => Nat.zero_le _, Nat.zero_le _⟩
  · show PermitCaps s.permits
    rw [hp]
    exact ⟨fun _ => Nat.zero_le _, fun _ _ _ => Nat.zero_le _, fun _ _ => Nat.zero_le _⟩

end Invariant

/-- The calls of `_finish`. -/
def Act.finishes : Act → Bool
  | .complete _ _ | .abandon _ _ | .cancel _ _ | .dispatchFailed _ _ | .lost _ _ _ => true
  | _ => false

section Theorems

variable {cfg : Config} {c c' : Conf} {a : Act}

/-- A call of `_finish` leaves a reservation alone or shrinks it. -/
theorem finish_shrinks (hS : Sound c) (ha : a.finishes = true) (h : c.step cfg a = some c')
    {id : String} {r' : Reservation} (hr' : c'.store.reservations.lookup id = some r') :
    ∃ r, c.store.reservations.lookup id = some r ∧ r'.owner = r.owner ∧ r'.bytes ≤ r.bytes := by
  have hquiet : ∀ s, c' = c.put s → Quiet c.store s →
      ∃ r, c.store.reservations.lookup id = some r ∧ r'.owner = r.owner ∧ r'.bytes ≤ r.bytes := by
    rintro s rfl hq
    exact ⟨r', hq.1 ▸ hr', rfl, le_refl _⟩
  cases a with
  | complete token changes =>
    simp only [Conf.step] at h
    rcases hw : c.workers.lookup token with _ | w
    · rw [hw] at h
      cases h
    rw [hw] at h
    dsimp only at h
    split_ifs at h with hp
    cases h
    by_cases hex : ∃ j, Publishes cfg c.store w.kind w.identity token j
    · obtain ⟨j, hj⟩ := hex
      have hr : (finishJob cfg c.store w.kind w.identity (some token) .completed none
        (some changes)).reservations.lookup id = some r' := hr'
      rw [finish_published changes hj, Rows.lookup_modify] at hr
      split_ifs at hr with he
      · subst he
        obtain ⟨r, hx, rfl⟩ := Option.map_eq_some_iff.1 hr
        exact ⟨r, hx, rfl, publish_le hS.inv hS.accounted hw hp hj hx⟩
      · exact ⟨r', hr, rfl, le_refl _⟩
    · exact hquiet _ rfl (finish_completed_quiet hex)
  | abandon token error =>
    obtain ⟨w, -, rfl⟩ := Option.map_eq_some_iff.1 h
    exact hquiet _ rfl (finish_quiet (.inl rfl))
  | cancel identity claim =>
    cases h
    exact hquiet _ rfl (finish_quiet (.inr rfl))
  | dispatchFailed k identity =>
    cases h
    exact hquiet _ rfl (finish_quiet (.inl rfl))
  | lost k identity claim =>
    cases h
    exact hquiet _ rfl (finish_quiet (.inl rfl))
  | _ => cases ha

/-- In every state that is reached: the caps of the reservations; the caps of the permits that have
not expired, by kind, by kind and role of a connection, and by the owner of a query; and no call of
`_finish` makes a reservation grow. -/
theorem budgets_hold (hc : Reached cfg c) :
    total Reservation.bytes c.store.reservations ≤ globalBytes ∧
    (∀ owner, total (ownedBytes owner) c.store.reservations ≤ userBytes) ∧
    c.store.reservations.entries.length ≤ 128 ∧
    (∀ kind, (permitsOf (unexpired c.store.permits c.store.now) kind).length ≤ kind.maximum) ∧
    (∀ kind role, role ≠ "" →
      ((permitsOf (unexpired c.store.permits c.store.now) kind).filter (·.role = role)).length ≤ 1) ∧
    (∀ owner, owner ≠ "" →
      ((permitsOf (unexpired c.store.permits c.store.now) .query).filter
        (·.owner = owner)).length ≤ 1) ∧
    ∀ a c', a.finishes = true → c.step cfg a = some c' → ∀ id r',
      c'.store.reservations.lookup id = some r' →
      ∃ r, c.store.reservations.lookup id = some r ∧ r'.owner = r.owner ∧ r'.bytes ≤ r.bytes := by
  have hS := hc.sound
  have hP := hS.permits.sublist (unexpired_sublist c.store.now)
  exact ⟨hS.caps.all, hS.caps.owned, hS.caps.count, hP.kind, hP.role, hP.owner,
    fun a c' ha h id r' hr' => finish_shrinks hS ha h hr'⟩

end Theorems

theorem reached_of_run (acts : List Act) (P : Conf → Bool)
    (h : (Acts.run (Conf.step demoConfig) (Conf.start demoStore) acts).any P = true) :
    ∃ c, Reached demoConfig c ∧ P c = true := by
  obtain ⟨c, hc, hP⟩ := (Option.any_eq_true _ _).1 h
  exact ⟨c, ⟨demoStore, rfl, rfl, rfl, acts, hc⟩, hP⟩

/-- The reservation of a staged execution, and the permit of a query. -/
theorem budgets_hold_demo : ∃ c, Reached demoConfig c ∧
    total Reservation.bytes c.store.reservations = snapshotBytes ∧
    total Reservation.bytes c.store.reservations ≤ globalBytes := by
  obtain ⟨c, hc, hP⟩ := reached_of_run (demoCreated ++ [Act.take "p" .query "ann" "role"])
    (fun c => total Reservation.bytes c.store.reservations = snapshotBytes) (by decide +kernel)
  exact ⟨c, hc, by simpa using hP, (budgets_hold hc).1⟩

/-- A page or a download has no role, and two of them are admitted at once. -/
theorem two_reads : ∃ c, Reached demoConfig c ∧
    1 < ((permitsOf (unexpired c.store.permits c.store.now) .read).filter (·.role = "")).length := by
  obtain ⟨c, hc, hP⟩ := reached_of_run
    [.take "p" .read "ann" "", .take "q" .read "bob" ""] (fun c =>
      1 < ((permitsOf (unexpired c.store.permits c.store.now) .read).filter (·.role = "")).length)
    (by decide +kernel)
  exact ⟨c, hc, by simpa using hP⟩

end Control
