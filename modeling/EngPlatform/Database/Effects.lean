import EngPlatform.Database.Record

/-!
# What the transactions do to the rows

An execution's row is inserted once, by `create_execution`. From then on it is claimed, finished,
emptied, or its worker is closed (`RowStep`), until it is forgotten.
-/

set_option linter.dupNamespace false

namespace Database

/-- A change of an execution's row, by the transaction that makes it. -/
inductive RowStep (cfg : Settings) (s : Store) : Txn → Execution → Execution → Prop
  | claim {e : Execution} {identity token : String} (h : e.state = .queued) :
    RowStep cfg s (.claim identity token) e (e.claimed token s.now)
  | finish {e : Execution} {identity : String} {claim : Option String} {state : State}
      {error : Option String} {changes : Option Capture} (h : e.finishable claim state) :
    RowStep cfg s (.finish identity claim state error changes) e
      (e.settled (settledState cfg s e state) error changes s.now)
  | close {e : Execution} {identity : String} {claim : Option String} :
    RowStep cfg s (.close identity claim) e { e with workerDeadline := 0 }
  | invalidate {e : Execution} {identity : String} :
    RowStep cfg s (.invalidate identity) e (e.emptied .purged)
  | expire {e : Execution} {identity : String} :
    RowStep cfg s (.expire identity) e (e.emptied e.state.retired)
  | cleaned {e : Execution} {identity : String} {exports : List String} :
    RowStep cfg s (.cleaned identity exports) e
      { e.emptied e.state.retired with cleanupDone := true, expiresAt := s.now + ttlSeconds }

/-- The identity whose row a transaction changes. -/
def Txn.target : Txn → Option String
  | .claim identity _ | .finish identity _ _ _ _ | .close identity _ | .invalidate identity
  | .expire identity | .cleaned identity _ => some identity
  | _ => none

/-- What a transaction leaves of the row of an identity. -/
inductive RowEffect (cfg : Settings) (s : Store) (t : Txn) (id : String) :
    Option Execution → Option Execution → Prop
  | same (o : Option Execution) : RowEffect cfg s t id o o
  | inserted {o : Option Execution} {value : Execution} {requestId fingerprint : String}
      {expiresAt : Time} (ht : t = .insert value requestId fingerprint expiresAt)
      (hid : id = value.executionId) : RowEffect cfg s t id o (some value)
  | forgotten {o : Option Execution} : RowEffect cfg s t id o none
  | stepped {e e' : Execution} (ht : t.target = some id) (h : RowStep cfg s t e e') :
    RowEffect cfg s t id (some e) (some e')

variable {cfg : Settings} {s s' : Store} {t : Txn} {v : t.Reply}

theorem rowEffect_modify {key : String} {f : Execution → Execution} (ht : t.target = some key)
    (hf : ∀ e, f e = e ∨ RowStep cfg s t e (f e)) (id : String) :
    RowEffect cfg s t id (s.executions.lookup id) ((s.executions.modify key f).lookup id) := by
  rw [Rows.lookup_modify]
  by_cases h : id = key
  · subst h
    rw [if_pos rfl]
    rcases s.executions.lookup id with _ | e
    · exact .same none
    · rcases hf e with he | he
      · simp only [Option.map_some, he]
        exact .same _
      · exact .stepped ht he
  · rw [if_neg h]
    exact .same _

theorem rowEffect_insert {key : String} {e e' : Execution} (he : s.executions.lookup key = some e)
    (ht : t.target = some key) (h : RowStep cfg s t e e') (id : String) :
    RowEffect cfg s t id (s.executions.lookup id) ((s.executions.insert key e').lookup id) := by
  by_cases hid : id = key
  · subst hid
    rw [he, AList.lookup_insert]
    exact .stepped ht h
  · rw [AList.lookup_insert_ne hid]
    exact .same _

theorem reserve_ok {control control' : Rows Reservation} {identity owner : String} {size : ℕ}
    (h : reserve control identity owner size = .ok control') :
    control' = control.insert identity ⟨owner, size⟩ := by
  unfold reserve at h
  simp only at h
  split_ifs at h
  exact (Except.ok.inj h).symm

/-- An insertion finds the request, or inserts the row and reserves its storage. -/
theorem insert_cases {value : Execution} {requestId fingerprint selected : String}
    {expiresAt : Time}
    (h : (Txn.insert value requestId fingerprint expiresAt).run cfg s = .ok (s', selected)) :
    (s' = s ∧ ∃ record, s.requests.lookup requestId = some record ∧
      selected = record.executionId) ∨ selected = value.executionId ∧ ∃ place,
      s.workspaces.lookup value.workspaceId = some place ∧ place.state = .active ∧
      s' = { s with
        reservations := s.reservations.insert value.executionId ⟨value.login, snapshotBytes⟩
        executions := s.executions.insert value.executionId value
        workspaces := s.workspaces.insert value.workspaceId
          { place with
            executionId := some value.executionId
            executionCount := place.executionCount + 1 }
        requests := s.requests.insert requestId
          ⟨requestId, value.workspaceId, value.executionId, fingerprint, expiresAt⟩ } := by
  simp only [Txn.run, insertExecution] at h
  rcases hp : s.workspaces.lookup value.workspaceId with _ | place <;> simp only [hp] at h
  · cases h
  by_cases h1 : place.state ≠ .active ∨ place.expiresAt ≤ s.now
  · rw [if_pos h1] at h
    cases h
  rw [if_neg h1] at h
  by_cases h2 : permitted cfg s value = false
  · rw [if_pos h2] at h
    cases h
  rw [if_neg h2] at h
  rcases hr : s.requests.lookup requestId with _ | record <;> simp only [hr] at h
  · by_cases h3 : 256 ≤ place.executionCount
    · rw [if_pos h3] at h
      cases h
    rw [if_neg h3] at h
    rcases hc : reserve s.reservations value.executionId value.login snapshotBytes
      with x | control <;> rw [hc] at h <;> cases h
    rw [reserve_ok hc]
    exact .inr ⟨rfl, place, rfl, not_not.1 fun hs => h1 (.inl hs), rfl⟩
  · by_cases h3 : record.fingerprint ≠ fingerprint
    · rw [if_pos h3] at h
      cases h
    rw [if_neg h3] at h
    cases h
    exact .inl ⟨rfl, record, rfl, rfl⟩

theorem run_row (h : t.run cfg s = .ok (s', v)) (id : String) :
    RowEffect cfg s t id (s.executions.lookup id) (s'.executions.lookup id) := by
  cases t with
  | reserveStaging identity owner =>
    simp only [Txn.run] at h
    rcases hc : reserve s.reservations identity owner snapshotBytes with x | control <;>
      rw [hc] at h <;> cases h
    exact .same _
  | insert value requestId fingerprint expiresAt =>
    rcases insert_cases h with ⟨rfl, -⟩ | ⟨-, place, -, -, rfl⟩
    · exact .same _
    · by_cases hid : id = value.executionId
      · subst hid
        simp only [AList.lookup_insert]
        exact .inserted rfl rfl
      · simp only [AList.lookup_insert_ne hid]
        exact .same _
  | claim identity token =>
    obtain rfl : (claimExecution s identity token).1 = s' := by rw [Except.ok.inj h]
    unfold claimExecution
    rcases he : s.executions.lookup identity with _ | e
    · exact .same _
    · by_cases hq : e.state = .queued
      · simp only [ne_eq, hq, not_true_eq_false, if_false]
        exact rowEffect_insert he rfl (.claim hq) id
      · simp only [ne_eq, hq, not_false_eq_true, if_true]
        exact .same _
  | finish identity claim state error changes =>
    obtain rfl : finishExecution cfg s identity claim state error changes = s' :=
      (Prod.mk.inj (Except.ok.inj h)).1
    unfold finishExecution
    rcases he : s.executions.lookup identity with _ | e
    · exact .same _
    · by_cases hf : e.finishable claim state = false
      · simp only [if_pos hf]
        exact .same _
      · simp only [if_neg hf]
        exact rowEffect_insert he rfl (.finish (by simpa using hf)) id
  | close identity claim =>
    cases h
    refine rowEffect_modify rfl (fun e => ?_) id
    by_cases hc : e.claim = claim
    · rw [if_pos hc]
      exact .inr .close
    · rw [if_neg hc]
      exact .inl rfl
  | invalidate identity =>
    cases h
    exact rowEffect_modify rfl (fun e => .inr .invalidate) id
  | expire identity =>
    cases h
    exact rowEffect_modify rfl (fun e => .inr .expire) id
  | cleaned identity exports =>
    cases h
    exact rowEffect_modify rfl (fun e => .inr .cleaned) id
  | forgetExecution identity =>
    cases h
    by_cases hid : id = identity
    · subst hid
      simp only [AList.lookup_erase]
      exact .forgotten
    · simp only [AList.lookup_erase_ne hid]
      exact .same _
  | _ =>
    cases h
    exact .same _

/-- The identity whose reservation a transaction may change. -/
def Txn.reserves : Txn → Option String
  | .reserveStaging identity _ | .finish identity _ _ _ _ | .release identity => some identity
  | .insert value _ _ _ => some value.executionId
  | _ => none

theorem run_reservations (h : t.run cfg s = .ok (s', v)) {id : String}
    (ht : t.reserves ≠ some id) : s'.reservations.lookup id = s.reservations.lookup id := by
  cases t with
  | reserveStaging identity owner =>
    have hid : id ≠ identity := fun hid => ht (by rw [hid]; rfl)
    simp only [Txn.run] at h
    rcases hc : reserve s.reservations identity owner snapshotBytes with x | control <;>
      rw [hc] at h <;> cases h
    rw [reserve_ok hc]
    exact AList.lookup_insert_ne hid
  | insert value requestId fingerprint expiresAt =>
    have hid : id ≠ value.executionId := fun hid => ht (by rw [hid]; rfl)
    rcases insert_cases h with ⟨rfl, -⟩ | ⟨-, place, -, -, rfl⟩
    · rfl
    · exact AList.lookup_insert_ne hid
  | claim identity token =>
    obtain rfl : (claimExecution s identity token).1 = s' := by rw [Except.ok.inj h]
    unfold claimExecution
    split
    · rfl
    · split_ifs <;> rfl
  | finish identity claim state error changes =>
    have hid : id ≠ identity := fun hid => ht (by rw [hid]; rfl)
    obtain rfl : finishExecution cfg s identity claim state error changes = s' :=
      (Prod.mk.inj (Except.ok.inj h)).1
    unfold finishExecution
    split
    · rfl
    · rename_i e he
      by_cases hf : e.finishable claim state = false
      · rw [if_pos hf]
      · simp only [if_neg hf]
        split_ifs
        · rw [Rows.lookup_modify, if_neg hid]
        · rfl
  | release identity =>
    have hid : id ≠ identity := fun hid => ht (by rw [hid]; rfl)
    cases h
    exact AList.lookup_erase_ne hid
  | _ =>
    cases h
    rfl

/-- The transactions on executions and reservations alone. -/
def Txn.isOwn : Txn → Bool
  | .reserveStaging _ _ | .claim _ _ | .finish _ _ _ _ _ | .release _ | .close _ _ | .invalidate _
  | .expire _ | .forgetExecution _ => true
  | _ => false

theorem run_own (h : t.run cfg s = .ok (s', v)) (ht : t.isOwn) : ∃ executions reservations,
    s' = { s with executions := executions, reservations := reservations } := by
  cases t with
  | reserveStaging identity owner =>
    simp only [Txn.run] at h
    rcases hc : reserve s.reservations identity owner snapshotBytes with x | control <;>
      rw [hc] at h <;> cases h
    exact ⟨_, _, rfl⟩
  | claim identity token =>
    obtain rfl : (claimExecution s identity token).1 = s' := by rw [Except.ok.inj h]
    unfold claimExecution
    split
    · exact ⟨_, _, rfl⟩
    · split_ifs <;> exact ⟨_, _, rfl⟩
  | finish identity claim state error changes =>
    obtain rfl : finishExecution cfg s identity claim state error changes = s' :=
      (Prod.mk.inj (Except.ok.inj h)).1
    unfold finishExecution
    split
    · exact ⟨_, _, rfl⟩
    · simp only
      split_ifs <;> exact ⟨_, _, rfl⟩
  | release | close | invalidate | expire | forgetExecution =>
    cases h
    exact ⟨_, _, rfl⟩
  | _ => cases ht

/-- A transaction leaves the objects and the clock. -/
theorem run_objects (h : t.run cfg s = .ok (s', v)) : s'.objects = s.objects ∧ s'.now = s.now := by
  by_cases ht : t.isOwn
  · obtain ⟨_, _, rfl⟩ := run_own h ht
    exact ⟨rfl, rfl⟩
  cases t with
  | insert value requestId fingerprint expiresAt =>
    rcases insert_cases h with ⟨rfl, -⟩ | ⟨-, place, -, -, rfl⟩ <;> exact ⟨rfl, rfl⟩
  | reserveStaging | claim | finish | release | close | invalidate | expire | forgetExecution =>
    exact absurd rfl ht
  | _ =>
    cases h
    exact ⟨rfl, rfl⟩

/-- A workspace is kept or purged, and never reopened. -/
def Workspace.Leads (p p' : Workspace) : Prop :=
  p'.workspaceId = p.workspaceId ∧ (p.state = .purged → p'.state = .purged)

theorem Workspace.Leads.refl (p : Workspace) : p.Leads p := ⟨rfl, fun h => h⟩

theorem leads_modify {key id : String} {f : Workspace → Workspace} {p' : Workspace}
    (hf : ∀ p : Workspace, p.Leads (f p)) (h : (s.workspaces.modify key f).lookup id = some p') :
    ∃ p : Workspace, s.workspaces.lookup id = some p ∧ p.Leads p' := by
  rw [Rows.lookup_modify] at h
  split_ifs at h with hk
  · obtain ⟨p, hp, rfl⟩ := Option.map_eq_some_iff.1 h
    exact ⟨p, hk ▸ hp, hf p⟩
  · exact ⟨p', h, .refl p'⟩

/-- A workspace that a transaction leaves was there before. -/
theorem run_workspaces (h : t.run cfg s = .ok (s', v)) {id : String} {p' : Workspace}
    (hp : s'.workspaces.lookup id = some p') :
    ∃ p : Workspace, s.workspaces.lookup id = some p ∧ p.Leads p' := by
  by_cases ht : t.isOwn
  · obtain ⟨_, _, rfl⟩ := run_own h ht
    exact ⟨p', hp, .refl p'⟩
  cases t with
  | insert value requestId fingerprint expiresAt =>
    rcases insert_cases h with ⟨rfl, -⟩ | ⟨-, place, hplace, hstate, rfl⟩
    · exact ⟨p', hp, .refl p'⟩
    · by_cases hid : id = value.workspaceId
      · subst hid
        simp only [AList.lookup_insert] at hp
        obtain rfl := Option.some.inj hp
        exact ⟨place, hplace, rfl, fun h => h⟩
      · simp only [AList.lookup_insert_ne hid] at hp
        exact ⟨p', hp, .refl p'⟩
  | purgeWorkspace workspaceId =>
    cases h
    refine leads_modify (fun p => ?_) hp
    exact ⟨rfl, fun _ => rfl⟩
  | tombstone workspaceId =>
    cases h
    refine leads_modify (fun p => ?_) hp
    exact ⟨rfl, fun h => h⟩
  | forgetWorkspace workspaceId sessionId =>
    cases h
    by_cases hid : id = workspaceId
    · subst hid
      simp only [AList.lookup_erase] at hp
      cases hp
    · simp only [AList.lookup_erase_ne hid] at hp
      exact ⟨p', hp, .refl p'⟩
  | reserveStaging | claim | finish | release | close | invalidate | expire | forgetExecution =>
    exact absurd rfl ht
  | _ =>
    cases h
    exact ⟨p', hp, .refl p'⟩

theorem exports_modify {rows : Rows Export} {key id : String} {f : Export → Export} {x' : Export}
    (hf : ∀ x, (f x).exportId = x.exportId) (h : (rows.modify key f).lookup id = some x') :
    ∃ x, rows.lookup id = some x ∧ x'.exportId = x.exportId := by
  rw [Rows.lookup_modify] at h
  split_ifs at h with hk
  · obtain ⟨x, hx, rfl⟩ := Option.map_eq_some_iff.1 h
    exact ⟨x, hk ▸ hx, hf x⟩
  · exact ⟨x', h, rfl⟩

/-- The exports that `_cleaned_execution` marks are those that it names. -/
theorem exports_foldl {f : Export → Export} (hf : ∀ x, (f x).exportId = x.exportId) :
    ∀ (keys : List String) {rows : Rows Export} {id : String} {x' : Export},
      (keys.foldl (fun rows key => rows.modify key f) rows).lookup id = some x' →
      ∃ x, rows.lookup id = some x ∧ x'.exportId = x.exportId
  | [], _, _, x', h => ⟨x', h, rfl⟩
  | _ :: keys, _, _, _, h => by
    obtain ⟨x, hx, he⟩ := exports_foldl hf keys h
    obtain ⟨y, hy, he'⟩ := exports_modify hf hx
    exact ⟨y, hy, he.trans he'⟩

/-- An export that a transaction leaves was there before. -/
theorem run_exports (h : t.run cfg s = .ok (s', v)) {id : String} {x' : Export}
    (hx : s'.exports.lookup id = some x') : ∃ x, s.exports.lookup id = some x ∧
      x'.exportId = x.exportId := by
  by_cases ht : t.isOwn
  · obtain ⟨_, _, rfl⟩ := run_own h ht
    exact ⟨x', hx, rfl⟩
  cases t with
  | insert value requestId fingerprint expiresAt =>
    rcases insert_cases h with ⟨rfl, -⟩ | ⟨-, place, -, -, rfl⟩ <;> exact ⟨x', hx, rfl⟩
  | removeExport exportId =>
    cases h
    refine exports_modify (fun x => ?_) hx
    rfl
  | cleaned identity exports =>
    cases h
    refine exports_foldl (fun x => ?_) exports hx
    rfl
  | reserveStaging | claim | finish | release | close | invalidate | expire | forgetExecution =>
    exact absurd rfl ht
  | _ =>
    cases h
    exact ⟨x', hx, rfl⟩

/-- A request that a transaction leaves was there before, or its execution was just inserted. -/
theorem run_requests (h : t.run cfg s = .ok (s', v)) {id : String} {r : RequestRow}
    (hr : s'.requests.lookup id = some r) : s.requests.lookup id = some r ∨
      (s'.executions.lookup r.executionId).isSome = true := by
  by_cases ht : t.isOwn
  · obtain ⟨_, _, rfl⟩ := run_own h ht
    exact .inl hr
  cases t with
  | insert value requestId fingerprint expiresAt =>
    rcases insert_cases h with ⟨rfl, -⟩ | ⟨-, place, -, -, rfl⟩
    · exact .inl hr
    · by_cases hid : id = requestId
      · subst hid
        simp only [AList.lookup_insert, Option.some.injEq] at hr
        subst hr
        right
        simp only [AList.lookup_insert, Option.isSome_some]
      · simp only [AList.lookup_insert_ne hid] at hr
        exact .inl hr
  | forgetRequest requestId =>
    cases h
    by_cases hid : id = requestId
    · subst hid
      simp only [AList.lookup_erase] at hr
      cases hr
    · simp only [AList.lookup_erase_ne hid] at hr
      exact .inl hr
  | reserveStaging | claim | finish | release | close | invalidate | expire | forgetExecution =>
    exact absurd rfl ht
  | _ =>
    cases h
    exact .inl hr

end Database
