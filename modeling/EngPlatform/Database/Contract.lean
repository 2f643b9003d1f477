import EngPlatform.Database.World

/-!
# The contract of the jobs

An execution is over once its result is no longer to be kept: it failed, was cancelled, expired or
purged, its time is up, its workspace is purged, or its row is gone. What is over stays over
(`Grow.ended`), so a job may erase the objects of an execution, and release its storage, once it
knows that. The capture of an execution that is completed and not over then stays whole (`Inv`).

Three readings break this, and `Admitted` excludes them: a failure handler that finds the execution
published already, `create_execution` finding so after a dispatch that failed, and an insertion
after a cleanup that found no row.
-/

set_option linter.dupNamespace false

namespace Database

open Interleave

section

variable {ι : Type}

/-- A workspace that is purged, or gone. -/
def World.closed (w : World ι) (id : String) : Bool :=
  match w.place id with
  | some p => p.state = .purged
  | none => true

/-- The result of the execution is no longer to be kept. -/
def World.over (w : World ι) (id : String) : Bool :=
  match w.row id with
  | some e => e.isOver w.store.now || w.closed e.workspaceId
  | none => w.created id || w.missed id

def World.published (w : World ι) (id : String) : Bool :=
  match w.row id with
  | some e => e.state = .completed && !w.over id
  | none => false

/-- The objects that a capture consists of. -/
def Name.isCapture : Name → Bool
  | .chunk _ | .manifest => true
  | _ => false

/-- The object of a reference is there, among those of the execution's capture. -/
def World.Has (w : World ι) (id : String) (r : Reference) : Prop :=
  r.object.execution = id ∧ r.object.name.isCapture = true ∧
    ∃ o, w.store.object r.object = some o ∧ o.generation = r.generation

/-- The manifest is there, and every chunk that it refers to. -/
def World.Whole (w : World ι) (id : String) (manifest : Reference) : Prop :=
  w.Has id manifest ∧ ∃ o m, w.store.object manifest.object = some o ∧ o.blob = .manifest m ∧
    ∀ c ∈ m.chunks, w.Has id c.reference

/-- Where a request may be made: a failure handler does not find the execution published, and a
row is not inserted after a cleanup that found none. -/
def Admitted (w : World ι) : Call → Prop
  | .mutate (.finish identity (some _) .failed _ _) => w.published identity = false
  | .execution identity .undispatched => w.published identity = false
  | .mutate (.insert value _ _ _) => w.missed value.executionId = false
  | _ => True

instance (w : World ι) : DecidablePred (Admitted w) := fun c => by
  unfold Admitted
  split <;> infer_instance

def Execution.isSettled (e : Execution) : Bool := e.state ≠ .queued && e.state ≠ .running

/-- A row that was claimed keeps its claim, and one that is settled stays settled. -/
structure Execution.Evolves (e e' : Execution) : Prop where
  identity : e'.executionId = e.executionId
  claimed : e.state ≠ .queued → e'.state ≠ .queued ∧ e'.claim = e.claim
  settled : e.isSettled = true → e'.isSettled = true

/-- What every step does. -/
structure Grow (w w' : World ι) : Prop where
  now : w.store.now ≤ w'.store.now
  owner : ∀ id, w.owner id ≠ none → w'.owner id = w.owner id
  others : ∀ id, w.others id = true → w'.others id = true
  created : ∀ id, w.created id = true → w'.created id = true
  ended : ∀ id, w.over id = true → w'.over id = true
  row : ∀ id, w.created id = true → ∀ e', w'.row id = some e' →
    ∃ e, w.row id = some e ∧ e.Evolves e'
  objects : ∀ path : Path, w.created path.execution = true → path.name.isCapture = true →
    ∀ o, w.store.object path = some o →
      w'.over path.execution = true ∨ w'.store.object path = some o

/-- The input of a row is not an object of a capture. -/
def Execution.Staged (e : Execution) : Prop :=
  ∀ r : Reference, e.input = some r → r.object.name.isCapture = false

/-- What holds in every state. -/
structure Inv (w : World ι) : Prop where
  row : ∀ id e, w.row id = some e →
    e.executionId = id ∧ w.created id = true ∧ w.others e.workspaceId = true
  owned : ∀ id, w.created id = true → w.owner id ≠ none
  apart : ∀ id, w.owner id ≠ none → w.others id = false
  place : ∀ id p, w.place id = some p → p.workspaceId = id ∧ w.others id = true
  exported : ∀ id x, w.store.exports.lookup id = some x → x.exportId = id ∧ w.others id = true
  claimed : ∀ id e, w.row id = some e → e.state = .running → e.claim ≠ none
  staged : ∀ id e, w.row id = some e → e.Staged
  requested : ∀ id r, w.store.requests.lookup id = some r → w.created r.executionId = true
  held : ∀ id e, w.row id = some e → w.over id = false →
    ∃ r, w.store.reservations.lookup id = some r ∧ (e.state = .completed → r.bytes = e.bytes)
  whole : ∀ id e, w.row id = some e → w.over id = false → e.state = .completed →
    ∃ manifest, e.manifest = some manifest ∧ w.Whole id manifest

/-- `i` drew the identity, and has not inserted its row. -/
def Mine (i : ι) (id : String) (w : World ι) : Prop := w.owner id = some i ∧ w.created id = false

/-- The states that `_finish` is asked for. -/
def Settles (state : State) : Prop := state = .completed ∨ state = .failed ∨ state = .cancelled

/-- What `i` may do. -/
def Allowed (i : ι) (w : World ι) : Call → Prop
  | .mutate (.reserveStaging id _) => Mine i id w
  | .mutate (.insert value _ _ _) =>
    Mine i value.executionId w ∧ value.state = .queued ∧ value.Staged
  | .mutate (.finish id _ state _ changes) => Settles state ∧ (state = .completed →
      ∃ c, changes = some c ∧ (w.over id = true ∨ w.Whole id c.manifest))
  | .mutate (.release id) => w.over id = true ∨ w.others id = true ∨ Mine i id w
  | .delete path _ =>
    path.name.isCapture = false ∨ w.over path.execution = true ∨ Mine i path.execution w
  | _ => True

end

section Rows

variable {e e' : Execution} {cfg : Settings} {s : Store} {t : Txn}

@[simp] theorem capture_state (c : Option Capture) : (e.capture c).state = e.state := by
  cases c <;> rfl

@[simp] theorem capture_executionId (c : Option Capture) :
    (e.capture c).executionId = e.executionId := by
  cases c <;> rfl

@[simp] theorem capture_workspaceId (c : Option Capture) :
    (e.capture c).workspaceId = e.workspaceId := by
  cases c <;> rfl

@[simp] theorem capture_claim (c : Option Capture) : (e.capture c).claim = e.claim := by
  cases c <;> rfl

variable {state : State} {error : Option String} {changes : Option Capture} {now : Time}

@[simp] theorem settled_state : (e.settled state error changes now).state = state := by
  unfold Execution.settled
  dsimp only
  split_ifs <;> rfl

@[simp] theorem settled_executionId :
    (e.settled state error changes now).executionId = e.executionId := by
  unfold Execution.settled
  dsimp only
  split_ifs <;> simp

@[simp] theorem settled_workspaceId :
    (e.settled state error changes now).workspaceId = e.workspaceId := by
  unfold Execution.settled
  dsimp only
  split_ifs <;> simp

@[simp] theorem settled_claim : (e.settled state error changes now).claim = e.claim := by
  unfold Execution.settled
  dsimp only
  split_ifs <;> simp

/-- What `_claim` makes of a queued row. -/
theorem claimed_cases (e : Execution) (token : String) (now : Time) :
    ((e.claimed token now).state = .running ∧ (e.claimed token now).claim = some token ∧
        now < e.expiresAt) ∨
      (e.claimed token now).state = .failed ∨ (e.claimed token now).state = .expired := by
  unfold Execution.claimed
  split_ifs with h1 h2
  · exact .inr (.inr rfl)
  · exact .inr (.inl rfl)
  · exact .inl ⟨rfl, rfl, not_le.1 h1⟩

theorem claimed_same (e : Execution) (token : String) (now : Time) :
    (e.claimed token now).executionId = e.executionId ∧
      (e.claimed token now).workspaceId = e.workspaceId := by
  unfold Execution.claimed
  split_ifs <;> exact ⟨rfl, rfl⟩

theorem retired_cases (state : State) : state.retired = .purged ∨ state.retired = .expired := by
  unfold State.retired
  split_ifs
  · exact .inl rfl
  · exact .inr rfl

theorem settledState_cases (cfg : Settings) (s : Store) (e : Execution) (state : State) :
    settledState cfg s e state = .expired ∨ (s.now < e.expiresAt ∧
      (settledState cfg s e state = .cancelled ∨ settledState cfg s e state = state)) := by
  unfold settledState
  split_ifs with h1 h2
  · exact .inl rfl
  · exact .inr ⟨not_le.1 h1, .inl rfl⟩
  · exact .inr ⟨not_le.1 h1, .inr rfl⟩

theorem finishable_state {claim : Option String} (h : e.finishable claim state = true) :
    e.state = .queued ∨ e.state = .running := by
  unfold Execution.finishable at h
  simp only [Bool.and_eq_true, Bool.or_eq_true, decide_eq_true_eq] at h
  exact h.1.1

theorem isOver_iff : e.isOver now = true ↔ e.expiresAt ≤ now ∨ e.state = .failed ∨
    e.state = .cancelled ∨ e.state = .expired ∨ e.state = .purged := by
  unfold Execution.isOver
  simp only [Bool.or_eq_true, decide_eq_true_eq, or_assoc]

theorem isOver_mono {now' : Time} (h : e.isOver now = true) (hn : now ≤ now') :
    e.isOver now' = true := by
  rw [isOver_iff] at h ⊢
  exact h.imp_left fun h => le_trans h hn

theorem settledState_settled (h : Settles state) :
    settledState cfg s e state ≠ .queued ∧ settledState cfg s e state ≠ .running := by
  rcases settledState_cases cfg s e state with hs | ⟨-, hs | hs⟩ <;> rw [hs]
  · simp
  · simp
  · rcases h with rfl | rfl | rfl <;> simp

/-- The states that a transaction finishes rows with. -/
def Txn.Settles : Txn → Prop
  | .finish _ _ state _ _ => Database.Settles state
  | _ => True

theorem RowStep.same (h : RowStep cfg s t e e') :
    e'.executionId = e.executionId ∧ e'.workspaceId = e.workspaceId := by
  cases h with
  | claim => exact claimed_same _ _ _
  | finish => simp
  | close | invalidate | expire | cleaned => exact ⟨rfl, rfl⟩

theorem RowStep.over (h : RowStep cfg s t e e') (ho : e.isOver s.now = true) :
    e'.isOver s.now = true := by
  rw [isOver_iff] at ho ⊢
  cases h with
  | claim hq =>
    have hx : e.expiresAt ≤ s.now := by
      rcases ho with ho | ho | ho | ho | ho
      · exact ho
      all_goals rw [hq] at ho; cases ho
    unfold Execution.claimed
    rw [if_pos hx]
    exact .inl hx
  | finish hf =>
    have hx : e.expiresAt ≤ s.now := by
      rcases ho with ho | ho | ho | ho | ho
      · exact ho
      all_goals rcases finishable_state hf with hq | hq <;> rw [hq] at ho <;> cases ho
    rw [settled_state, show settledState cfg s e _ = .expired from if_pos hx]
    simp
  | close => exact ho
  | invalidate => simp [Execution.emptied]
  | expire => rcases retired_cases e.state with hr | hr <;> simp [Execution.emptied, hr]
  | cleaned => rcases retired_cases e.state with hr | hr <;> simp [Execution.emptied, hr]

theorem RowStep.evolves (h : RowStep cfg s t e e') (ht : t.Settles) : e.Evolves e' := by
  refine ⟨h.same.1, ?_, ?_⟩
  · intro hq
    cases h with
    | claim h => exact absurd h hq
    | finish => exact ⟨by rw [settled_state]; exact (settledState_settled ht).1, settled_claim⟩
    | close => exact ⟨hq, rfl⟩
    | invalidate => exact ⟨by simp [Execution.emptied], rfl⟩
    | expire =>
      refine ⟨?_, rfl⟩
      rcases retired_cases e.state with hr | hr <;> simp [Execution.emptied, hr]
    | cleaned =>
      refine ⟨?_, rfl⟩
      rcases retired_cases e.state with hr | hr <;> simp [Execution.emptied, hr]
  · unfold Execution.isSettled
    intro hs
    cases h with
    | claim h => simp [h] at hs
    | finish => simpa using settledState_settled ht
    | close => exact hs
    | invalidate => simp [Execution.emptied]
    | expire => rcases retired_cases e.state with hr | hr <;> simp [Execution.emptied, hr]
    | cleaned => rcases retired_cases e.state with hr | hr <;> simp [Execution.emptied, hr]

/-- A running row has a claim. -/
theorem RowStep.claimed (h : RowStep cfg s t e e') (ht : t.Settles)
    (he : e.state = .running → e.claim ≠ none) (hr : e'.state = .running) : e'.claim ≠ none := by
  cases h with
  | @claim _ _ token hq =>
    rcases claimed_cases e token s.now with ⟨-, hc, -⟩ | hc | hc
    · rw [hc]
      simp
    · rw [hc] at hr
      cases hr
    · rw [hc] at hr
      cases hr
  | finish =>
    rw [settled_state] at hr
    exact absurd hr (settledState_settled ht).2
  | close => exact he hr
  | invalidate => simp [Execution.emptied] at hr
  | expire => rcases retired_cases e.state with h | h <;> simp [Execution.emptied, h] at hr
  | cleaned => rcases retired_cases e.state with h | h <;> simp [Execution.emptied, h] at hr

theorem RowStep.staged (h : RowStep cfg s t e e') (he : e.Staged) : e'.Staged := by
  have hnone : e'.input = none → e'.Staged := fun hn r hr => by
    rw [hn] at hr
    cases hr
  cases h with
  | claim =>
    unfold Execution.claimed
    split_ifs <;> exact he
  | finish =>
    refine hnone ?_
    unfold Execution.settled
    dsimp only
    split_ifs <;> rfl
  | close => exact he
  | invalidate | expire | cleaned => exact hnone rfl

/-- A row that is left completed was so before, or is published. -/
theorem RowStep.completed (h : RowStep cfg s t e e') (hc : e'.state = .completed) :
    (e.state = .completed ∧ e'.manifest = e.manifest ∧ e'.bytes = e.bytes ∧ t.reserves = none) ∨
      ∃ identity claim error changes, t = .finish identity claim .completed error changes ∧
        e.finishable claim .completed = true ∧ s.now < e.expiresAt ∧
        e' = e.settled .completed error changes s.now := by
  cases h with
  | @claim _ _ token hq =>
    rcases claimed_cases e token s.now with ⟨h, -⟩ | h | h <;> rw [h] at hc <;> cases hc
  | @finish _ identity claim state error changes hf =>
    rw [settled_state] at hc
    rcases settledState_cases cfg s e state with h | ⟨hn, h | h⟩
    · rw [h] at hc
      cases hc
    · rw [h] at hc
      cases hc
    · rw [h] at hc
      subst hc
      rw [h]
      exact .inr ⟨identity, claim, error, changes, rfl, hf, hn, rfl⟩
  | close => exact .inl ⟨hc, rfl, rfl, rfl⟩
  | invalidate => simp [Execution.emptied] at hc
  | expire => rcases retired_cases e.state with h | h <;> simp [Execution.emptied, h] at hc
  | cleaned => rcases retired_cases e.state with h | h <;> simp [Execution.emptied, h] at hc

end Rows

section Steps

variable {ι : Type} {w w' : World ι} {cfg : Settings} {i : ι}

theorem Grow.refl (w : World ι) : Grow w w where
  now := le_refl _
  owner _ _ := rfl
  others _ h := h
  created _ h := h
  ended _ h := h
  row _ _ e' he := ⟨e', he, rfl, fun h => ⟨h, rfl⟩, fun h => h⟩
  objects _ _ _ _ h := .inr h

theorem Execution.Evolves.trans {e e' e'' : Execution} (h : e.Evolves e') (h' : e'.Evolves e'') :
    e.Evolves e'' where
  identity := h'.identity.trans h.identity
  claimed hq :=
    have h₁ := h.claimed hq
    have h₂ := h'.claimed h₁.1
    ⟨h₂.1, h₂.2.trans h₁.2⟩
  settled hs := h'.settled (h.settled hs)

theorem Grow.trans {w'' : World ι} (h : Grow w w') (h' : Grow w' w'') : Grow w w'' where
  now := le_trans h.now h'.now
  owner id ho := by rw [h'.owner id (by rwa [h.owner id ho]), h.owner id ho]
  others id ho := h'.others id (h.others id ho)
  created id hc := h'.created id (h.created id hc)
  ended id ho := h'.ended id (h.ended id ho)
  row id hc e'' he'' := by
    obtain ⟨e', he', hev'⟩ := h'.row id (h.created id hc) e'' he''
    obtain ⟨e, he, hev⟩ := h.row id hc e' he'
    exact ⟨e, he, hev.trans hev'⟩
  objects path hc hf o ho := by
    rcases h.objects path hc hf o ho with h₁ | h₁
    · exact .inl (h'.ended _ h₁)
    · exact h'.objects path (h.created _ hc) hf o h₁

/-- A row that was inserted and is gone is over. -/
theorem over_of_none {id : String} (hr : w.row id = none) (hc : w.created id = true) :
    w.over id = true := by
  unfold World.over
  rw [hr, hc, Bool.true_or]

theorem over_some {id : String} {e : Execution} (hr : w.row id = some e) :
    w.over id = (e.isOver w.store.now || w.closed e.workspaceId) := by
  unfold World.over
  rw [hr]

theorem over_none {id : String} (hr : w.row id = none) :
    w.over id = (w.created id || w.missed id) := by
  unfold World.over
  rw [hr]

/-- A published execution is settled, and one that is settled and not over is published. -/
theorem over_of_settled {id : String} {e : Execution} (hr : w.row id = some e)
    (hs : e.isSettled = true) (hp : w.published id = false) : w.over id = true := by
  unfold World.published at hp
  simp only [hr, Bool.and_eq_false_iff, Bool.not_eq_false'] at hp
  rcases hp with hp | hp
  · rw [over_some hr]
    have ho : e.isOver w.store.now = true := by
      unfold Execution.isSettled at hs
      rw [isOver_iff]
      cases hst : e.state <;> simp_all
    rw [ho, Bool.true_or]
  · exact hp

theorem over_closed {id : String} {e : Execution} (hr : w.row id = some e)
    (hc : w.closed e.workspaceId = true) : w.over id = true := by
  rw [over_some hr, hc, Bool.or_true]

theorem Allowed.settles {t : Txn} (h : Allowed i w (.mutate t)) : t.Settles := by
  cases t with
  | finish => exact h.1
  | _ => trivial

/-- Objects that stay are still there. -/
theorem World.Whole.congr {id : String} {manifest : Reference} (h : w.Whole id manifest)
    (ho : ∀ path : Path, path.execution = id → path.name.isCapture = true →
      ∀ o, w.store.object path = some o → w'.store.object path = some o) :
    w'.Whole id manifest := by
  have hhas : ∀ r, w.Has id r → w'.Has id r := by
    rintro r ⟨hid, hf, o, hr, hg⟩
    exact ⟨hid, hf, o, ho _ hid hf o hr, hg⟩
  obtain ⟨hm, o, m, hom, hb, hc⟩ := h
  exact ⟨hhas _ hm, o, m, ho _ hm.1 hm.2.1 o hom, hb, fun c hcm => hhas _ (hc c hcm)⟩

section Stored

variable {t : Txn} {s : Store} {v : t.Reply}

theorem stored_closed (h : t.run cfg w.store = .ok (s, v)) {id : String}
    (hc : w.closed id = true) : (w.stored s).closed id = true := by
  unfold World.closed at hc ⊢
  rcases hp' : (w.stored s).place id with _ | p'
  · rfl
  · obtain ⟨p, hp, hl⟩ := run_workspaces h hp'
    rw [show w.place id = some p from hp] at hc
    simpa using hl.2 (by simpa using hc)

theorem stored_now (h : t.run cfg w.store = .ok (s, v)) :
    (w.stored s).store.now = w.store.now := (run_objects h).2

theorem stored_object (h : t.run cfg w.store = .ok (s, v)) (path : Path) :
    (w.stored s).store.object path = w.store.object path := by
  unfold Store.object
  rw [show (w.stored s).store.objects = w.store.objects from (run_objects h).1]

/-- A row that is inserted is a new one. -/
theorem inserted_new (hI : Inv w) (hal : Allowed i w (.mutate t)) (had : Admitted w (.mutate t))
    {value : Execution} {requestId fingerprint : String} {expiresAt : Time}
    (ht : t = .insert value requestId fingerprint expiresAt) :
    w.row value.executionId = none ∧ w.over value.executionId = false := by
  subst ht
  have hr : w.row value.executionId = none := by
    rcases hr : w.row value.executionId with _ | e
    · rfl
    · have hc := (hI.row _ e hr).2.1
      rw [hal.1.2] at hc
      cases hc
  refine ⟨hr, ?_⟩
  rw [over_none hr, hal.1.2, show w.missed value.executionId = false from had]
  rfl

theorem stored_over (hI : Inv w) (hal : Allowed i w (.mutate t)) (had : Admitted w (.mutate t))
    (h : t.run cfg w.store = .ok (s, v)) {id : String} (ho : w.over id = true) :
    (w.stored s).over id = true := by
  have heff := run_row h id
  generalize ho₁ : w.store.executions.lookup id = o₁ at heff
  generalize ho₂ : s.executions.lookup id = o₂ at heff
  have hr : (w.stored s).row id = o₂ := ho₂
  cases heff with
  | same =>
    rcases o₁ with _ | e
    · rw [over_none ho₁] at ho
      rw [over_none hr]
      rcases Bool.or_eq_true_iff.1 ho with hc | hm
      · simp [World.stored, hc]
      · simp [World.stored, hm]
    · rw [over_some ho₁] at ho
      rw [over_some hr, stored_now h]
      rcases Bool.or_eq_true_iff.1 ho with hx | hx
      · rw [hx, Bool.true_or]
      · rw [stored_closed h hx, Bool.or_true]
  | @inserted _ value _ _ _ ht hid =>
    rw [hid, (inserted_new hI hal had ht).2] at ho
    cases ho
  | forgotten =>
    rw [over_none hr]
    rcases o₁ with _ | e
    · rw [over_none ho₁] at ho
      rcases Bool.or_eq_true_iff.1 ho with hc | hm
      · simp [World.stored, hc]
      · simp [World.stored, hm]
    · simp [World.stored, (hI.row id e ho₁).2.1]
  | @stepped e e' _ hs =>
    rw [over_some ho₁] at ho
    rw [over_some hr, stored_now h, hs.same.2]
    rcases Bool.or_eq_true_iff.1 ho with hx | hx
    · rw [hs.over hx, Bool.true_or]
    · rw [stored_closed h hx, Bool.or_true]

theorem stored_grow (hI : Inv w) (hal : Allowed i w (.mutate t)) (had : Admitted w (.mutate t))
    (h : t.run cfg w.store = .ok (s, v)) : Grow w (w.stored s) where
  now := le_of_eq (stored_now h).symm
  owner _ _ := rfl
  others _ ho := ho
  created id hc := by simp [World.stored, hc]
  ended id ho := stored_over hI hal had h ho
  row id hc e' he' := by
    have heff := run_row h id
    generalize ho₁ : w.store.executions.lookup id = o₁ at heff
    rw [show s.executions.lookup id = some e' from he'] at heff
    cases heff with
    | same => exact ⟨e', ho₁, rfl, fun h => ⟨h, rfl⟩, fun h => h⟩
    | inserted ht hid =>
      subst ht
      rw [hid, hal.1.2] at hc
      cases hc
    | @stepped e _ _ hs => exact ⟨e, ho₁, hs.evolves hal.settles⟩
  objects path _ _ o ho := .inr (by rw [stored_object h, ho])

/-- A publication reserves what was stored. -/
theorem finished_held (hI : Inv w) {id : String} {claim : Option String} {state : State}
    {error : Option String} {changes : Option Capture} {e' : Execution}
    (he' : (finishExecution cfg w.store id claim state error changes).executions.lookup id = some e')
    (ho : w.over id = false) :
    ∃ r, (finishExecution cfg w.store id claim state error changes).reservations.lookup id = some r ∧
      (e'.state = .completed → r.bytes = e'.bytes) := by
  unfold finishExecution at he' ⊢
  rcases hr : w.store.executions.lookup id with _ | e
  · simp only [hr] at he'
    cases he'
  · simp only [hr] at he' ⊢
    obtain ⟨r, hres, hb⟩ := hI.held id e hr ho
    by_cases hf : e.finishable claim state = false
    · rw [if_pos hf] at he' ⊢
      rw [hr] at he'
      obtain rfl := Option.some.inj he'
      exact ⟨r, hres, hb⟩
    · simp only [if_neg hf, AList.lookup_insert, Option.some.injEq] at he' ⊢
      subst he'
      by_cases hc : settledState cfg w.store e state = .completed
      · rw [if_pos hc, Rows.lookup_modify, if_pos rfl, hres]
        exact ⟨_, rfl, fun _ => rfl⟩
      · rw [if_neg hc]
        exact ⟨r, hres, fun h => absurd (settled_state.symm.trans h) hc⟩

/-- Storage is released for what is over, for another identity, or before a row is inserted. -/
theorem stored_held (hI : Inv w) (hal : Allowed i w (.mutate t)) (had : Admitted w (.mutate t))
    (h : t.run cfg w.store = .ok (s, v)) {id : String} {e' : Execution}
    (he' : (w.stored s).row id = some e') (ho' : (w.stored s).over id = false) :
    ∃ r, s.reservations.lookup id = some r ∧ (e'.state = .completed → r.bytes = e'.bytes) := by
  have ho : w.over id = false := by
    by_contra hc
    rw [stored_over hI hal had h (by simpa using hc)] at ho'
    cases ho'
  by_cases ht : t.reserves = some id
  · cases t with
    | finish identity claim state error changes =>
      obtain rfl : identity = id := Option.some.inj ht
      obtain rfl : finishExecution cfg w.store identity claim state error changes = s :=
        (Prod.mk.inj (Except.ok.inj h)).1
      exact finished_held hI he' ho
    | insert value requestId fingerprint expiresAt =>
      obtain rfl : value.executionId = id := Option.some.inj ht
      rcases insert_cases h with ⟨rfl, -⟩ | ⟨-, place, -, -, rfl⟩
      · have hnone : w.row value.executionId = none := (inserted_new hI hal had rfl).1
        rw [show w.row value.executionId = some e' from he'] at hnone
        cases hnone
      · obtain rfl : value = e' := by simpa [World.row, World.stored] using he'
        refine ⟨_, AList.lookup_insert _, fun hc => ?_⟩
        rw [hal.2.1] at hc
        cases hc
    | reserveStaging identity owner =>
      obtain rfl : identity = id := Option.some.inj ht
      simp only [Txn.run] at h
      rcases hc : reserve w.store.reservations identity owner snapshotBytes with x | control <;>
        rw [hc] at h <;> cases h
      have hrow := (hI.row identity e' he').2.1
      rw [hal.2] at hrow
      cases hrow
    | release identity =>
      obtain rfl : identity = id := Option.some.inj ht
      cases h
      have hrow := hI.row identity e' he'
      rcases hal with hal | hal | hal
      · rw [hal] at ho
        cases ho
      · rw [hI.apart identity (hI.owned identity hrow.2.1)] at hal
        cases hal
      · rw [hal.2] at hrow
        cases hrow.2.1
    | _ => cases ht
  · rw [run_reservations h ht]
    have heff := run_row h id
    generalize ho₁ : w.store.executions.lookup id = o₁ at heff
    rw [show s.executions.lookup id = some e' from he'] at heff
    cases heff with
    | same => exact hI.held id e' ho₁ ho
    | inserted ht' hid =>
      subst ht' hid
      exact absurd rfl ht
    | @stepped e _ ht' hs =>
      obtain ⟨r, hr, hb⟩ := hI.held id e ho₁ ho
      refine ⟨r, hr, fun hc => ?_⟩
      rcases hs.completed hc with ⟨hce, -, hbe, -⟩ | ⟨_, _, _, _, rfl, -⟩
      · rw [hbe, hb hce]
      · exact absurd ht' ht

theorem stored_whole (hI : Inv w) (hal : Allowed i w (.mutate t)) (had : Admitted w (.mutate t))
    (h : t.run cfg w.store = .ok (s, v)) {id : String} {e' : Execution}
    (he' : (w.stored s).row id = some e') (ho' : (w.stored s).over id = false)
    (hc : e'.state = .completed) :
    ∃ manifest, e'.manifest = some manifest ∧ (w.stored s).Whole id manifest := by
  have ho : w.over id = false := by
    by_contra hc
    rw [stored_over hI hal had h (by simpa using hc)] at ho'
    cases ho'
  have hkeep : ∀ {m}, w.Whole id m → (w.stored s).Whole id m := fun hw =>
    hw.congr fun path _ _ o hp => by rw [stored_object h, hp]
  have heff := run_row h id
  generalize ho₁ : w.store.executions.lookup id = o₁ at heff
  rw [show s.executions.lookup id = some e' from he'] at heff
  cases heff with
  | same =>
    obtain ⟨m, hm, hw⟩ := hI.whole id e' ho₁ ho hc
    exact ⟨m, hm, hkeep hw⟩
  | inserted ht hid =>
    subst ht
    rw [hal.2.1] at hc
    cases hc
  | @stepped e _ ht hs =>
    rcases hs.completed hc with ⟨hce, hm, -, -⟩ | ⟨identity, claim, error, changes, rfl, -, -, rfl⟩
    · obtain ⟨m, hme, hw⟩ := hI.whole id e ho₁ ho hce
      exact ⟨m, hm.trans hme, hkeep hw⟩
    · obtain rfl := Option.some.inj ht
      obtain ⟨c, rfl, hw⟩ := hal.2 rfl
      rcases hw with hw | hw
      · rw [hw] at ho
        cases ho
      · exact ⟨c.manifest, rfl, hkeep hw⟩

theorem stored_created (hI : Inv w) (hal : Allowed i w (.mutate t))
    (h : t.run cfg w.store = .ok (s, v)) {id : String}
    (hc : (w.stored s).created id = true) : w.owner id ≠ none := by
  rcases Bool.or_eq_true_iff.1 hc with hc | hc
  · exact hI.owned id hc
  · have heff := run_row h id
    generalize ho₁ : w.store.executions.lookup id = o₁ at heff
    generalize s.executions.lookup id = o₂ at heff hc
    cases heff with
    | same =>
      obtain ⟨e, rfl⟩ := Option.isSome_iff_exists.1 hc
      exact hI.owned id (hI.row id e ho₁).2.1
    | inserted ht hid =>
      subst ht
      rw [hid, hal.1.1]
      simp
    | forgotten => cases hc
    | stepped => exact hI.owned id (hI.row id _ ho₁).2.1

theorem stored_row (hI : Inv w) (h : t.run cfg w.store = .ok (s, v)) {id : String} {e' : Execution}
    (he' : (w.stored s).row id = some e') :
    e'.executionId = id ∧ (w.stored s).created id = true ∧ w.others e'.workspaceId = true := by
  have hc : (w.stored s).created id = true := by
    show (w.created id || (s.executions.lookup id).isSome) = true
    rw [show s.executions.lookup id = some e' from he']
    simp
  have heff := run_row h id
  generalize ho₁ : w.store.executions.lookup id = o₁ at heff
  rw [show s.executions.lookup id = some e' from he'] at heff
  cases heff with
  | same =>
    have hrow := hI.row id e' ho₁
    exact ⟨hrow.1, hc, hrow.2.2⟩
  | inserted ht hid =>
    subst ht
    refine ⟨hid.symm, hc, ?_⟩
    rcases insert_cases h with ⟨rfl, -⟩ | ⟨-, place, hp, -, -⟩
    · exact (hI.row id e' he').2.2
    · exact (hI.place _ place hp).2
  | stepped ht hs =>
    have hrow := hI.row id _ ho₁
    exact ⟨hs.same.1.trans hrow.1, hc, hs.same.2 ▸ hrow.2.2⟩

theorem stored_inv (hI : Inv w) (hal : Allowed i w (.mutate t)) (had : Admitted w (.mutate t))
    (h : t.run cfg w.store = .ok (s, v)) : Inv (w.stored s) where
  row _ _ he' := stored_row hI h he'
  owned _ hc := stored_created hI hal h hc
  apart := hI.apart
  place id p' hp' := by
    obtain ⟨p, hp, hl⟩ := run_workspaces h hp'
    exact ⟨hl.1.trans (hI.place id p hp).1, (hI.place id p hp).2⟩
  exported id x' hx' := by
    obtain ⟨x, hx, hxe⟩ := run_exports h hx'
    exact ⟨hxe.trans (hI.exported id x hx).1, (hI.exported id x hx).2⟩
  claimed id e' he' hr := by
    have heff := run_row h id
    generalize ho₁ : w.store.executions.lookup id = o₁ at heff
    rw [show s.executions.lookup id = some e' from he'] at heff
    cases heff with
    | same => exact hI.claimed id e' ho₁ hr
    | inserted ht hid =>
      subst ht
      rw [hal.2.1] at hr
      cases hr
    | stepped _ hs => exact hs.claimed hal.settles (hI.claimed id _ ho₁) hr
  staged id e' he' := by
    have heff := run_row h id
    generalize ho₁ : w.store.executions.lookup id = o₁ at heff
    rw [show s.executions.lookup id = some e' from he'] at heff
    cases heff with
    | same => exact hI.staged id e' ho₁
    | inserted ht hid =>
      subst ht
      exact hal.2.2
    | stepped _ hs => exact hs.staged (hI.staged id _ ho₁)
  requested id r hr := by
    refine Bool.or_eq_true_iff.2 ((run_requests h hr).imp_left fun hr => ?_)
    exact hI.requested id r hr
  held _ _ he' ho' := stored_held hI hal had h he' ho'
  whole _ _ he' ho' hc := stored_whole hI hal had h he' ho' hc

end Stored

/-- Steps on objects that leave what a capture that is not over consists of. -/
structure KeepsObjects (w : World ι) (objects : List Object) : Prop where
  keep : ∀ path : Path, w.created path.execution = true → path.name.isCapture = true →
    w.over path.execution = false → ∀ o, w.store.object path = some o →
      (objects.find? fun o => o.path = path) = some o

def World.withObjects (w : World ι) (objects : List Object) (generation : ℕ) : World ι :=
  { w with store := { w.store with objects, generation } }

theorem KeepsObjects.grow {objects : List Object} {generation : ℕ} (h : KeepsObjects w objects) :
    Grow w (w.withObjects objects generation) where
  now := le_refl _
  owner _ _ := rfl
  others _ h := h
  created _ h := h
  ended _ h := h
  row _ _ e' he := ⟨e', he, rfl, fun h => ⟨h, rfl⟩, fun h => h⟩
  objects path hc hn o ho := by
    by_cases hov : w.over path.execution = true
    · exact .inl hov
    · exact .inr (h.keep path hc hn (by simpa using hov) o ho)

theorem KeepsObjects.inv {objects : List Object} {generation : ℕ} (h : KeepsObjects w objects)
    (hI : Inv w) : Inv (w.withObjects objects generation) :=
  { hI with
    whole := fun id e he ho hc => by
      obtain ⟨m, hm, hw⟩ := hI.whole id e he ho hc
      refine ⟨m, hm, hw.congr fun path hid hn o hp => ?_⟩
      subst hid
      exact h.keep path (hI.row _ e he).2.1 hn ho o hp }

theorem put_keeps {path : Path} {blob : Blob} {s : Store} (h : w.store.put path blob = some s) :
    ∃ objects generation, s = { w.store with objects, generation } ∧ KeepsObjects w objects ∧
      (objects.find? fun o => o.path = path) = some ⟨path, w.store.generation, blob⟩ := by
  unfold Store.put at h
  split_ifs at h with hp
  cases h
  have hnone : w.store.object path = none := by simpa using hp
  refine ⟨_, _, rfl, ⟨fun path' _ _ _ o ho => ?_⟩, ?_⟩
  · rw [List.find?_append, show w.store.objects.find? _ = some o from ho]
    rfl
  · rw [List.find?_append, show w.store.objects.find? _ = none from hnone]
    simp

theorem remove_keeps {path : Path} {generation : ℕ} (hal : Allowed i w (.delete path generation)) :
    KeepsObjects w (w.store.remove path generation).objects := by
  refine ⟨fun path' hc hn ho o hp => ?_⟩
  have hne : path' ≠ path := by
    rintro rfl
    rcases hal with hal | hal | hal
    · rw [hal] at hn
      cases hn
    · rw [hal] at ho
      cases ho
    · rw [hal.2] at hc
      cases hc
  unfold Store.remove
  rw [List.find?_filter]
  rw [← hp]
  unfold Store.object
  congr 1
  funext o
  by_cases h : o.path = path'
  · simp [h, hne]
  · simp [h]

theorem look_grow (hI : Inv w) (id : String) (reading : Reading) :
    Grow w (w.look id reading) ∧ Inv (w.look id reading) := by
  unfold World.look
  split_ifs with h
  · have hover : ∀ {id'}, w.over id' = true →
        { w with missed := Function.update w.missed id true }.over id' = true := by
      intro id' ho
      rcases hr : w.row id' with _ | e
      · rw [over_none hr] at ho
        rw [over_none (w := { w with missed := Function.update w.missed id true }) hr]
        by_cases hid : id' = id
        · subst hid
          simp
        · simpa [Function.update_of_ne hid] using ho
      · rw [over_some hr] at ho
        rw [over_some (w := { w with missed := Function.update w.missed id true }) hr]
        exact ho
    have hless : ∀ {id'}, { w with missed := Function.update w.missed id true }.over id' = false →
        w.over id' = false := by
      intro id' ho
      by_contra hc
      rw [hover (by simpa using hc)] at ho
      cases ho
    refine ⟨{ Grow.refl w with ended := fun _ => hover, objects := fun _ _ _ _ ho => .inr ho }, ?_⟩
    exact
      { hI with
        held := fun id' e he ho => hI.held id' e he (hless ho)
        whole := fun id' e he ho hc => hI.whole id' e he (hless ho) hc }
  · exact ⟨.refl w, hI⟩

theorem token_grow (hI : Inv w) {id : String} (hf : w.owner id = none) (ho : w.others id = false) :
    Grow w { w with owner := Function.update w.owner id (some i) } ∧
      Inv { w with owner := Function.update w.owner id (some i) } := by
  refine ⟨{ Grow.refl w with
    owner := fun id' h => Function.update_of_ne (fun hid => h (by rw [hid, hf])) _ _
    objects := fun _ _ _ _ ho => .inr ho }, ?_⟩
  exact
    { hI with
      owned := fun id' hc => by
        by_cases hid : id' = id
        · subst hid
          simp
        · simpa [Function.update_of_ne hid] using hI.owned id' hc
      apart := fun id' h => by
        by_cases hid : id' = id
        · subst hid
          exact ho
        · exact hI.apart id' (by simpa [Function.update_of_ne hid] using h) }

/-- A move that leaves the rows of executions, what is remembered of them, and their storage. -/
structure Aside (w w' : World ι) : Prop where
  executions : w'.store.executions = w.store.executions
  requests : w'.store.requests = w.store.requests
  owner : w'.owner = w.owner
  created : w'.created = w.created
  missed : w'.missed = w.missed
  now : w.store.now ≤ w'.store.now
  others : ∀ id, w.others id = true → w'.others id = true
  closed : ∀ id, w.others id = true → w.closed id = true → w'.closed id = true
  reservations : ∀ id, w.others id = false →
    w'.store.reservations.lookup id = w.store.reservations.lookup id
  objects : ∀ path : Path, w.others path.execution = false → path.name.isCapture = true →
    w'.store.object path = w.store.object path

theorem Aside.over (h : Aside w w') (hI : Inv w) {id : String} (ho : w.over id = true) :
    w'.over id = true := by
  have hrow : w'.row id = w.row id := by
    unfold World.row
    rw [h.executions]
  rcases hr : w.row id with _ | e
  · rw [over_none hr] at ho
    rwa [over_none (hrow.trans hr), h.created, h.missed]
  · rw [over_some hr] at ho
    rw [over_some (hrow.trans hr)]
    rcases Bool.or_eq_true_iff.1 ho with hx | hx
    · rw [isOver_mono hx h.now, Bool.true_or]
    · rw [h.closed _ (hI.row id e hr).2.2 hx, Bool.or_true]

theorem Aside.grow (h : Aside w w') (hI : Inv w) : Grow w w' where
  now := h.now
  owner _ _ := by rw [h.owner]
  others := h.others
  created id hc := by rwa [h.created]
  ended _ ho := h.over hI ho
  row id _ e' he := by
    unfold World.row at he
    rw [h.executions] at he
    exact ⟨e', he, rfl, fun h => ⟨h, rfl⟩, fun h => h⟩
  objects path hc hn o ho :=
    .inr (by rw [h.objects path (hI.apart _ (hI.owned _ hc)) hn, ho])

theorem Aside.inv (h : Aside w w') (hI : Inv w)
    (hapart : ∀ id, w.owner id ≠ none → w'.others id = false)
    (hplace : ∀ id p, w'.place id = some p → p.workspaceId = id ∧ w'.others id = true)
    (hexport : ∀ id x, w'.store.exports.lookup id = some x →
      x.exportId = id ∧ w'.others id = true) : Inv w' := by
  have hrow : ∀ {id e}, w'.row id = some e → w.row id = some e := by
    intro id e he
    unfold World.row at he
    rwa [h.executions] at he
  have hless : ∀ {id}, w'.over id = false → w.over id = false := by
    intro id ho
    by_contra hc
    rw [h.over hI (by simpa using hc)] at ho
    cases ho
  have hfree : ∀ {id e}, w'.row id = some e → w.others id = false := fun he =>
    hI.apart _ (hI.owned _ (hI.row _ _ (hrow he)).2.1)
  exact
    { row := fun id e he => by
        have hr := hI.row id e (hrow he)
        exact ⟨hr.1, by rw [h.created]; exact hr.2.1, h.others _ hr.2.2⟩
      owned := fun id hc => by
        rw [h.created] at hc
        rw [h.owner]
        exact hI.owned id hc
      apart := fun id ho => by
        rw [h.owner] at ho
        exact hapart id ho
      place := hplace
      exported := hexport
      claimed := fun id e he hr => hI.claimed id e (hrow he) hr
      staged := fun id e he => hI.staged id e (hrow he)
      requested := fun id r hr => by
        rw [h.created]
        exact hI.requested id r (h.requests ▸ hr)
      held := fun id e he ho => by
        rw [h.reservations id (hfree he)]
        exact hI.held id e (hrow he) (hless ho)
      whole := fun id e he ho hc => by
        obtain ⟨m, hm, hw⟩ := hI.whole id e (hrow he) (hless ho) hc
        refine ⟨m, hm, hw.congr fun path hid hn o hp => ?_⟩
        subst hid
        rw [h.objects path (hfree he) hn, hp] }

theorem moves_aside (hI : Inv w) (h : Moves w w') : Aside w w' ∧ Inv w' := by
  cases h with
  | tick t =>
    have ha : Aside w { w with store := { w.store with now := w.store.now + t } } :=
      ⟨rfl, rfl, rfl, rfl, rfl, Nat.le_add_right _ _, fun _ h => h, fun _ _ h => h, fun _ _ => rfl,
        fun _ _ _ => rfl⟩
    exact ⟨ha, ha.inv hI hI.apart hI.place hI.exported⟩
  | sessions sessions =>
    have ha : Aside w { w with store := { w.store with sessions } } :=
      ⟨rfl, rfl, rfl, rfl, rfl, le_refl _, fun _ h => h, fun _ _ h => h, fun _ _ => rfl,
        fun _ _ _ => rfl⟩
    exact ⟨ha, ha.inv hI hI.apart hI.place hI.exported⟩
  | policy policy =>
    have ha : Aside w { w with store := { w.store with policy } } :=
      ⟨rfl, rfl, rfl, rfl, rfl, le_refl _, fun _ h => h, fun _ _ h => h, fun _ _ => rfl,
        fun _ _ _ => rfl⟩
    exact ⟨ha, ha.inv hI hI.apart hI.place hI.exported⟩
  | draw id hid =>
    have hothers : ∀ id', w.others id' = true → Function.update w.others id true id' = true := by
      intro id' h
      by_cases hx : id' = id
      · subst hx
        simp
      · rwa [Function.update_of_ne hx]
    have ha : Aside w { w with others := Function.update w.others id true } :=
      ⟨rfl, rfl, rfl, rfl, rfl, le_refl _, hothers, fun _ _ h => h, fun _ _ => rfl, fun _ _ _ => rfl⟩
    refine ⟨ha, ha.inv hI (fun id' ho => ?_) (fun id' p hp => ?_) fun id' x hx => ?_⟩
    · have hne : id' ≠ id := fun h => ho (h ▸ hid)
      show Function.update w.others id true id' = false
      rw [Function.update_of_ne hne]
      exact hI.apart id' ho
    · exact ⟨(hI.place id' p hp).1, hothers id' (hI.place id' p hp).2⟩
    · exact ⟨(hI.exported id' x hx).1, hothers id' (hI.exported id' x hx).2⟩
  | opens p hp ho =>
    have hothers : ∀ id, w.others id = true →
        Function.update w.others p.workspaceId true id = true := by
      intro id h
      by_cases hx : id = p.workspaceId
      · subst hx
        simp
      · rwa [Function.update_of_ne hx]
    have hplace : ∀ id, id ≠ p.workspaceId →
        (w.store.workspaces.insert p.workspaceId p).lookup id = w.place id :=
      fun id hne => AList.lookup_insert_ne hne
    refine ⟨?aside, Aside.inv ?aside hI (fun id ho' => ?_) (fun id q hq => ?_) fun id x hx => ?_⟩
    case aside =>
      refine ⟨rfl, rfl, rfl, rfl, rfl, le_refl _, hothers, fun id ho' hc => ?_, fun _ _ => rfl,
        fun _ _ _ => rfl⟩
      have hne : id ≠ p.workspaceId := by
        rintro rfl
        rw [ho] at ho'
        cases ho'
      unfold World.closed at hc ⊢
      rw [show World.place _ id = w.place id from hplace id hne]
      exact hc
    · have hne : id ≠ p.workspaceId := fun h => ho' (h ▸ hp)
      show Function.update w.others p.workspaceId true id = false
      rw [Function.update_of_ne hne]
      exact hI.apart id ho'
    · by_cases hid : id = p.workspaceId
      · subst hid
        have hq : (w.store.workspaces.insert p.workspaceId p).lookup p.workspaceId = some q := hq
        rw [AList.lookup_insert] at hq
        obtain rfl := Option.some.inj hq
        exact ⟨rfl, Function.update_self _ _ _⟩
      · have hq : w.place id = some q := (hplace id hid).symm.trans hq
        exact ⟨(hI.place id q hq).1, hothers id (hI.place id q hq).2⟩
    · exact ⟨(hI.exported id x hx).1, hothers id (hI.exported id x hx).2⟩
  | purge id =>
    have hlook : ∀ id' p', (w.store.workspaces.modify id fun p =>
        { p with state := .purged, expiresAt := min p.expiresAt w.store.now }).lookup id' = some p' →
        ∃ p : Workspace, w.store.workspaces.lookup id' = some p ∧ p.Leads p' := by
      intro id' p' hp'
      refine leads_modify (fun p => ?_) hp'
      exact ⟨rfl, fun _ => rfl⟩
    refine ⟨?aside, Aside.inv ?aside hI hI.apart (fun id' p' hp' => ?_) hI.exported⟩
    case aside =>
      refine ⟨rfl, rfl, rfl, rfl, rfl, le_refl _, fun _ h => h, fun id' _ hc => ?_, fun _ _ => rfl,
        fun _ _ _ => rfl⟩
      unfold World.closed at hc ⊢
      split
      · rename_i p' hp'
        obtain ⟨p, hp, hl⟩ := hlook id' p' hp'
        rw [show w.place id' = some p from hp] at hc
        simpa using hl.2 (by simpa using hc)
      · rfl
    · obtain ⟨p, hp, hl⟩ := hlook id' p' hp'
      exact ⟨hl.1.trans (hI.place id' p hp).1, (hI.place id' p hp).2⟩
  | sideline exports reservations objects generation hx hr ho hg =>
    refine ⟨?aside, Aside.inv ?aside hI hI.apart hI.place fun id x h => ⟨(hx id x h).2, (hx id x h).1⟩⟩
    exact ⟨rfl, rfl, rfl, rfl, rfl, le_refl _, fun _ h => h, fun _ _ h => h, hr, fun path hp hn =>
      ho path hp fun x hx => by rw [hx] at hn; cases hn⟩

/-- The identity that a request inserts a row of. -/
def Call.inserts : Call → Option String
  | .mutate (.insert value _ _ _) => some value.executionId
  | _ => none

theorem stored_mine {j : ι} {id : String} {t : Txn} {s : Store} {v : t.Reply} (hI : Inv w)
    (h : t.run cfg w.store = .ok (s, v)) (ht : (Call.mutate t).inserts ≠ some id)
    (hm : Mine j id w) : Mine j id (w.stored s) := by
  refine ⟨hm.1, ?_⟩
  have hnone : w.store.executions.lookup id = none := by
    rcases hr : w.row id with _ | e
    · exact hr
    · have hc := (hI.row id e hr).2.1
      rw [hm.2] at hc
      cases hc
  have heff := run_row h id
  rw [hnone] at heff
  show (w.created id || (s.executions.lookup id).isSome) = false
  rw [hm.2, Bool.false_or]
  generalize s.executions.lookup id = o at heff
  cases heff with
  | same => rfl
  | inserted ht' hid =>
    subst ht' hid
    exact absurd rfl ht
  | forgotten => rfl

/-- What a request does that is admitted and allowed: it keeps the invariant, and the identities
that were drawn and not inserted are still that, unless it inserts them. -/
theorem sem_step {c : Call} {r : c.Ans} (hI : Inv w) (hal : Allowed i w c) (had : Admitted w c)
    (h : sem cfg i w c w' r) :
    Grow w w' ∧ Inv w' ∧ ∀ j id, c.inserts ≠ some id → Mine j id w → Mine j id w' := by
  have hsame : w' = w → Grow w w' ∧ Inv w' ∧
      ∀ j id, c.inserts ≠ some id → Mine j id w → Mine j id w' := by
    rintro rfl
    exact ⟨.refl _, hI, fun _ _ _ h => h⟩
  cases c with
  | execution id reading =>
    rcases h with ⟨rfl, -⟩ | ⟨rfl, -⟩
    · exact ⟨.refl _, hI, fun _ _ _ h => h⟩
    · obtain ⟨hg, hI'⟩ := look_grow hI id reading
      refine ⟨hg, hI', fun j id' _ hm => ?_⟩
      unfold World.look
      split_ifs
      · exact hm
      · exact hm
  | mutate t =>
    rcases h with ⟨rfl, -⟩ | ⟨s, v, hrun, rfl, -⟩
    · exact ⟨.refl _, hI, fun _ _ _ h => h⟩
    · exact ⟨stored_grow hI hal had hrun, stored_inv hI hal had hrun,
        fun j id hne hm => stored_mine hI hrun hne hm⟩
  | put path blob =>
    rcases h with ⟨rfl, -⟩ | ⟨s, hs, rfl, -⟩
    · exact ⟨.refl _, hI, fun _ _ _ h => h⟩
    · obtain ⟨objects, generation, rfl, hk, -⟩ := put_keeps hs
      exact ⟨hk.grow, hk.inv hI, fun _ _ _ h => h⟩
  | delete path generation =>
    rcases h with ⟨rfl, -⟩ | ⟨rfl, -⟩
    · exact ⟨.refl _, hI, fun _ _ _ h => h⟩
    · have hk := remove_keeps hal
      exact ⟨hk.grow, hk.inv hI, fun _ _ _ h => h⟩
  | token =>
    rcases h with ⟨rfl, -⟩ | ⟨id, -, hf, ho, rfl⟩
    · exact ⟨.refl _, hI, fun _ _ _ h => h⟩
    obtain ⟨hg, hI'⟩ := token_grow (i := i) hI hf ho
    refine ⟨hg, hI', fun j id' _ hm => ⟨?_, hm.2⟩⟩
    have hne : id' ≠ id := by
      rintro rfl
      have hown := hm.1
      rw [hf] at hown
      cases hown
    simpa [Function.update_of_ne hne] using hm.1
  | workspace | request | findExecutions | findWorkspaces | findRequests | findSessions
  | findExports | read | list | now => exact hsame h.1
  | hasView | enqueue | session | policy | database | stream | overdue | stopped | fresh
  | sideline => exact hsame h

/-- What `i` may count on while the others run. -/
structure Rely (i : ι) (w w' : World ι) : Prop where
  grow : Grow w w'
  mine : ∀ id, Mine i id w → Mine i id w'

theorem moves_mine {j : ι} {id : String} (hI : Inv w) (h : Moves w w') (hm : Mine j id w) :
    Mine j id w' := by
  have ha := (moves_aside hI h).1
  exact ⟨by rw [ha.owner]; exact hm.1, by rw [ha.created]; exact hm.2⟩

/-- The contract of the jobs, under the condition `Admitted`. -/
def contract (ι : Type) (cfg : Settings) : Discipline ι (World ι) Call.Ans where
  toSystem := (system cfg).restrict fun _ => Admitted
  Inv := Inv
  Allowed := Allowed
  Rely := Rely
  rely_refl _ w := ⟨.refl w, fun _ h => h⟩
  rely_trans _ _ _ _ h h' := ⟨h.grow.trans h'.grow, fun id hm => h'.mine id (h.mine id hm)⟩
  inv_sem _ _ _ _ _ hI hal h := (sem_step hI hal h.1 h.2).2.1
  rely_sem i j w c w' r hij hI hal h := by
    obtain ⟨hg, -, hm⟩ := sem_step hI hal h.1 h.2
    refine ⟨hg, fun id hid => hm j id (fun hins => ?_) hid⟩
    cases c with
    | mutate t =>
      cases t with
      | insert value _ _ _ =>
        obtain rfl := Option.some.inj hins
        exact hij (Option.some.inj (hal.1.1.symm.trans hid.1))
      | _ => cases hins
    | _ => cases hins
  inv_env _ _ hI h := (moves_aside hI h).2
  rely_env _ _ _ hI h := ⟨(moves_aside hI h).1.grow hI, fun _ hm => moves_mine hI h hm⟩

end Steps

end Database
