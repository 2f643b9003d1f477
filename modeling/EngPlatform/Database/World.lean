import Mathlib.Logic.Function.Basic
import EngPlatform.Database.Effects
import EngPlatform.Database.Jobs

/-!
# The world of the jobs

The store, and what is remembered beside it: who drew an identity, which identities are not an
execution's, for which executions a row was inserted, and which a cleanup found no row of. The
clock, the sessions, the policy, new workspaces, purges by users, and the work on views and exports
move by themselves.
-/

set_option linter.dupNamespace false

namespace Database

open Interleave

structure World (ι : Type) where
  store : Store
  owner : String → Option ι
  others : String → Bool
  created : String → Bool
  missed : String → Bool

section

variable {ι : Type} (w : World ι)

abbrev World.row (id : String) : Option Execution := w.store.executions.lookup id

abbrev World.place (id : String) : Option Workspace := w.store.workspaces.lookup id

/-- The store after a transaction. -/
def World.stored (s : Store) : World ι :=
  { w with store := s, created := fun id => w.created id || (s.executions.lookup id).isSome }

/-- A read of an execution's row; a cleanup that finds none is remembered. -/
def World.look (id : String) (reading : Reading) : World ι :=
  if reading = .cleanup ∧ w.row id = none then
    { w with missed := Function.update w.missed id true }
  else w

/-- The answer of a request that raises. -/
def lost {α : Type} (r : Except Raised α) : Prop := ∃ x, r = .error x

/-- What a lookup finds: matching rows, all of them unless the limit is reached. -/
def Finds {α : Type} (rows : Rows α) (p : α → Bool) (limit : ℕ) (l : List α) : Prop :=
  l.length ≤ limit ∧ (∀ a ∈ l, ∃ id, rows.lookup id = some a ∧ p a) ∧
    (l.length < limit → ∀ id a, rows.lookup id = some a → p a → a ∈ l)

def found {α : Type} (rows : Rows α) (p : α → Bool) (limit : ℕ) (r : Except Raised (List α)) :
    Prop :=
  lost r ∨ ∃ l, r = .ok l ∧ Finds rows p limit l

def sem (cfg : Settings) (i : ι) (w : World ι) : (c : Call) → World ι → c.Ans → Prop
  | .workspace id, w', r => w' = w ∧ (r = .ok (w.place id) ∨ lost r)
  | .request id, w', r => w' = w ∧ (r = .ok (w.store.requests.lookup id) ∨ lost r)
  | .execution id reading, w', r =>
    (w' = w ∧ lost r) ∨ (w' = w.look id reading ∧ r = .ok (w.row id))
  | .findExecutions q limit, w', r => w' = w ∧ found w.store.executions q.finds limit r
  | .findWorkspaces before limit, w', r =>
    w' = w ∧ found w.store.workspaces (fun v => v.expiresAt ≤ before) limit r
  | .findRequests before limit, w', r =>
    w' = w ∧ found w.store.requests (fun v => v.expiresAt ≤ before) limit r
  | .findSessions before limit, w', r =>
    w' = w ∧ found w.store.sessions (fun v => v.expiresAt ≤ before) limit r
  | .findExports executionId limit, w', r =>
    w' = w ∧ found w.store.exports (fun x => x.executionId = executionId) limit r
  | .mutate t, w', r => (w' = w ∧ lost r) ∨
    ∃ s v, t.run cfg w.store = .ok (s, v) ∧ w' = w.stored s ∧ (r = .ok v ∨ lost r)
  | .put path blob, w', r => (w' = w ∧ lost r) ∨ ∃ s, w.store.put path blob = some s ∧
    w' = { w with store := s } ∧ (r = .ok w.store.generation ∨ lost r)
  | .read path generation, w', r => w' = w ∧ (lost r ∨
    ∃ o, w.store.object path = some o ∧ o.generation = generation ∧ r = .ok o.blob)
  | .delete path generation, w', r => (w' = w ∧ lost r) ∨
    (w' = { w with store := w.store.remove path generation } ∧ (r = .ok () ∨ lost r))
  | .list folder execution limit, w', r =>
    w' = w ∧ (r = .ok (w.store.listing folder execution limit) ∨ lost r)
  | .token, w', r => (w' = w ∧ lost r) ∨ ∃ id, r = .ok id ∧ w.owner id = none ∧
    w.others id = false ∧ w' = { w with owner := Function.update w.owner id (some i) }
  | .now, w', r => w' = w ∧ r = .ok w.store.now
  | _, w', _ => w' = w

/-- What moves by itself. Views and exports have identities of their own, and an execution's
objects except its exported ones are none of theirs. -/
inductive Moves (w : World ι) : World ι → Prop
  | tick (t : ℕ) : Moves w { w with store := { w.store with now := w.store.now + t } }
  | sessions (sessions : Rows Session) : Moves w { w with store := { w.store with sessions } }
  | policy (policy : Option Policy) : Moves w { w with store := { w.store with policy } }
  | draw (id : String) (h : w.owner id = none) :
    Moves w { w with others := Function.update w.others id true }
  | opens (p : Workspace) (h : w.owner p.workspaceId = none) (h' : w.others p.workspaceId = false) :
    Moves w { w with
      others := Function.update w.others p.workspaceId true
      store := { w.store with workspaces := w.store.workspaces.insert p.workspaceId p } }
  | purge (id : String) :
    Moves w { w with store := { w.store with
      workspaces := w.store.workspaces.modify id fun p =>
        { p with state := .purged, expiresAt := min p.expiresAt w.store.now } } }
  | sideline (exports : Rows Export) (reservations : Rows Reservation) (objects : List Object)
      (generation : ℕ)
      (hx : ∀ id x, exports.lookup id = some x → w.others id = true ∧ x.exportId = id)
      (hr : ∀ id, w.others id = false →
        reservations.lookup id = w.store.reservations.lookup id)
      (ho : ∀ path : Path, w.others path.execution = false → (∀ x, path.name ≠ .exported x) →
        { w.store with objects }.object path = w.store.object path)
      (hg : w.store.generation ≤ generation) :
    Moves w { w with store := { w.store with exports, reservations, objects, generation } }

def system (cfg : Settings) : System ι (World ι) Call.Ans where
  sem := sem cfg
  env := Moves

/-- What a script answers for the outside. -/
structure Outside where
  token : String
  reader : Reader
  policy : String
  stream : Stream

/-- The answer of a request that does not fail; the lookups of a sweep are not answered. -/
def serve (cfg : Settings) (o : Outside) (i : ι) (w : World ι) : (c : Call) → World ι × c.Ans
  | .workspace id => (w, .ok (w.place id))
  | .request id => (w, .ok (w.store.requests.lookup id))
  | .execution id reading => (w.look id reading, .ok (w.row id))
  | .mutate t =>
    match t.run cfg w.store with
    | .ok (s, v) => (w.stored s, .ok v)
    | .error x => (w, .error x)
  | .put path blob =>
    match w.store.put path blob with
    | some s => ({ w with store := s }, .ok w.store.generation)
    | none => (w, .error (.unavailable "Database result store is unavailable"))
  | .read path generation =>
    match w.store.object path with
    | some o =>
      if o.generation = generation then (w, .ok o.blob)
      else (w, .error (.unavailable "Database result store is unavailable"))
    | none => (w, .error (.unavailable "Database result store is unavailable"))
  | .delete path generation => ({ w with store := w.store.remove path generation }, .ok ())
  | .list folder execution limit => (w, .ok (w.store.listing folder execution limit))
  | .token =>
    if w.owner o.token = none ∧ w.others o.token = false then
      ({ w with owner := Function.update w.owner o.token (some i) }, .ok o.token)
    else (w, .error (.other "RuntimeError"))
  | .now => (w, .ok w.store.now)
  | .session => (w, .ok o.reader)
  | .policy => (w, .ok o.policy)
  | .stream _ => (w, .ok o.stream)
  | .hasView _ | .overdue | .stopped | .fresh => (w, .ok false)
  | .enqueue _ _ _ | .database | .sideline _ => (w, .ok ())
  | .findExecutions _ _ | .findWorkspaces _ _ | .findRequests _ _ | .findSessions _ _
  | .findExports _ _ => (w, .error (.unavailable "Database control store is unavailable"))

theorem serve_sem (cfg : Settings) (o : Outside) (i : ι) (w : World ι) (c : Call) :
    sem cfg i w c (serve cfg o i w c).1 (serve cfg o i w c).2 := by
  cases c with
  | workspace | request | list => exact ⟨rfl, .inl rfl⟩
  | execution => exact .inr ⟨rfl, rfl⟩
  | mutate t =>
    simp only [serve]
    rcases h : t.run cfg w.store with x | ⟨s, v⟩
    · exact .inl ⟨rfl, _, rfl⟩
    · exact .inr ⟨s, v, h, rfl, .inl rfl⟩
  | put path blob =>
    simp only [serve]
    rcases h : w.store.put path blob with _ | s
    · exact .inl ⟨rfl, _, rfl⟩
    · exact .inr ⟨s, h, rfl, .inl rfl⟩
  | read path generation =>
    simp only [serve]
    rcases h : w.store.object path with _ | x
    · exact ⟨rfl, .inl ⟨_, rfl⟩⟩
    · by_cases hg : x.generation = generation
      · simp only [if_pos hg]
        exact ⟨rfl, .inr ⟨x, h, hg, rfl⟩⟩
      · simp only [if_neg hg]
        exact ⟨rfl, .inl ⟨_, rfl⟩⟩
  | delete => exact .inr ⟨rfl, .inl rfl⟩
  | token =>
    simp only [serve]
    by_cases h : w.owner o.token = none ∧ w.others o.token = false
    · rw [if_pos h]
      exact .inr ⟨_, rfl, h.1, h.2, rfl⟩
    · rw [if_neg h]
      exact .inl ⟨rfl, _, rfl⟩
  | now => exact ⟨rfl, rfl⟩
  | findExecutions | findWorkspaces | findRequests | findSessions | findExports =>
    exact ⟨rfl, .inl ⟨_, rfl⟩⟩
  | _ => exact rfl

/-- The answer of a request, but that of a transaction that commits is lost. -/
def serveLost (cfg : Settings) (o : Outside) (i : ι) (w : World ι) : (c : Call) → World ι × c.Ans
  | .mutate t => ((serve cfg o i w (.mutate t)).1,
      .error (.unavailable "Database control store is unavailable"))
  | c => serve cfg o i w c

theorem serveLost_sem (cfg : Settings) (o : Outside) (i : ι) (w : World ι) (c : Call) :
    sem cfg i w c (serveLost cfg o i w c).1 (serveLost cfg o i w c).2 := by
  cases c with
  | mutate t =>
    simp only [serveLost, serve]
    rcases h : t.run cfg w.store with x | ⟨s, v⟩
    · exact .inl ⟨rfl, _, rfl⟩
    · exact .inr ⟨s, v, h, rfl, .inr ⟨_, rfl⟩⟩
  | _ => exact serve_sem cfg o i w _

/-- A scripted step of `i`: its request is answered, or its transaction commits and the answer is
lost. -/
inductive Play (ι : Type)
  | answer (i : ι)
  | lose (i : ι)

def Play.turn (cfg : Settings) (o : ι → Outside) : Play ι → Turn ι (World ι) Call.Ans
  | .answer i => .run i (serve cfg (o i) i)
  | .lose i => .run i (serveLost cfg (o i) i)

theorem Play.reach [DecidableEq ι] {cfg : Settings} {o : ι → Outside}
    {C : ι → World ι → Call → Prop} {c : Conf ι (World ι) Call.Ans Raised Unit}
    (script : List (Play ι)) (h : c.Meets C (script.map (Play.turn cfg o))) :
    Reach (system cfg) C c (c.play (script.map (Play.turn cfg o))) := by
  refine reach_play (fun t ht => ?_) _ h
  obtain ⟨a, -, rfl⟩ := List.mem_map.1 ht
  cases a with
  | answer i => exact fun w c => serve_sem cfg (o i) i w c
  | lose i => exact fun w c => serveLost_sem cfg (o i) i w c

end

end Database
