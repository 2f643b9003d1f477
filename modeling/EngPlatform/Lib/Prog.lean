import Mathlib.Logic.Relation
import Mathlib.Logic.Function.Basic

/-!
# Programs that share a state

A program is a tree of requests, each answered before the next is made; it ends in a result or in
an exception. Any number of programs run against one state, one request at a time, in any order,
and the state may also move by itself between two requests.

A `Discipline` is the rely-guarantee contract of such a system: the requests a program may make
(`Allowed`), what it may count on while others run (`Rely`), and an invariant. A program obeys
it (`Obeys`) if each request it can reach is allowed, whatever was answered and whatever happened
in between; a pool of obeying programs keeps the invariant in every interleaving (`good_step`).
-/

set_option linter.dupNamespace false

namespace Interleave

/-! Programs of finite pools are numbered. -/

instance neZeroTwo : @NeZero Nat Zero.ofOfNat0 2 := ⟨by decide⟩
instance neZeroThree : @NeZero Nat Zero.ofOfNat0 3 := ⟨by decide⟩
instance neZeroFour : @NeZero Nat Zero.ofOfNat0 4 := ⟨by decide⟩
instance neZeroEight : @NeZero Nat Zero.ofOfNat0 8 := ⟨by decide⟩

/-- A computation that succeeds succeeds in each of its parts. -/
theorem bind_ok {χ α β : Type*} {x : Except χ α} {f : α → Except χ β} {b : β} :
    x.bind f = .ok b ↔ ∃ a, x = .ok a ∧ f a = .ok b := by
  rcases x with e | a <;> simp [Except.bind]

/-- What a computation that succeeds has returned. -/
theorem ok_getD {χ α : Type*} {x : Except χ α} {d : α} (h : x.toOption.isSome = true) :
    x = .ok (x.toOption.getD d) := by
  cases x with
  | error e => cases h
  | ok a => rfl

universe u v w z

/-- A program over requests `ε` answered in `ρ`, raising `χ` and returning `α`. -/
inductive Prog {ε : Type u} (ρ : ε → Type v) (χ : Type w) (α : Type z) : Type (max u v w z)
  | done (a : α)
  | raise (x : χ)
  | ask (e : ε) (k : ρ e → Prog ρ χ α)

namespace Prog

variable {ε : Type u} {ρ : ε → Type v} {χ : Type w} {α β γ : Type z}

def bind : Prog ρ χ α → (α → Prog ρ χ β) → Prog ρ χ β
  | done a, f => f a
  | raise x, _ => raise x
  | ask e k, f => ask e fun r => (k r).bind f

instance : Monad (Prog ρ χ) where
  pure := done
  bind := bind

/-- `try p except x: h x`. -/
def handle : Prog ρ χ α → (χ → Prog ρ χ α) → Prog ρ χ α
  | done a, _ => done a
  | raise x, h => h x
  | ask e k, h => ask e fun r => (k r).handle h

/-- One request, returning its answer. -/
def call {ε : Type u} {ρ : ε → Type v} {χ : Type w} (e : ε) : Prog ρ χ (ρ e) := ask e done

/-- An outcome that is already known. -/
def lift : Except χ α → Prog ρ χ α
  | .ok a => done a
  | .error x => raise x

/-- The run of a program alone, each request being answered by `answer`. -/
def run {σ : Type*} (answer : σ → (e : ε) → σ × ρ e) : Prog ρ χ α → σ → σ × Except χ α
  | done a, s => (s, .ok a)
  | raise x, s => (s, .error x)
  | ask e k, s => (k (answer s e).2).run answer (answer s e).1

@[simp] theorem pure_def (a : α) : (pure a : Prog ρ χ α) = done a := rfl

@[simp] theorem done_bind (a : α) (f : α → Prog ρ χ β) : (done a : Prog ρ χ α) >>= f = f a := rfl

@[simp] theorem raise_bind (x : χ) (f : α → Prog ρ χ β) :
    (raise x : Prog ρ χ α) >>= f = raise x := rfl

@[simp] theorem ask_bind (e : ε) (k : ρ e → Prog ρ χ α) (f : α → Prog ρ χ β) :
    (ask e k) >>= f = ask e fun r => k r >>= f := rfl

@[simp] theorem lift_ok (a : α) : (lift (.ok a) : Prog ρ χ α) = done a := rfl

@[simp] theorem lift_error (x : χ) : (lift (.error x) : Prog ρ χ α) = raise x := rfl

section Run

variable {σ : Type*} (answer : σ → (e : ε) → σ × ρ e)

@[simp] theorem run_done (a : α) (s : σ) : (done a : Prog ρ χ α).run answer s = (s, .ok a) := rfl

@[simp] theorem run_raise (x : χ) (s : σ) :
    (raise x : Prog ρ χ α).run answer s = (s, .error x) := rfl

/-- A sequence runs its second part where its first one ends. -/
theorem run_bind (f : α → Prog ρ χ β) : ∀ (p : Prog ρ χ α) (s : σ),
    (p >>= f).run answer s = match p.run answer s with
      | (s', .ok a) => (f a).run answer s'
      | (s', .error x) => (s', .error x)
  | done _, _ => rfl
  | raise _, _ => rfl
  | ask e k, s => run_bind f (k (answer s e).2) (answer s e).1

theorem run_handle (g : χ → Prog ρ χ α) : ∀ (p : Prog ρ χ α) (s : σ),
    (p.handle g).run answer s = match p.run answer s with
      | (s', .ok a) => (s', .ok a)
      | (s', .error x) => (g x).run answer s'
  | done _, _ => rfl
  | raise _, _ => rfl
  | ask e k, s => run_handle g (k (answer s e).2) (answer s e).1

end Run

end Prog

/-- What the requests do to the state, and how the state moves by itself. A request's effect may
depend on who makes it, and may have several outcomes. -/
structure System (ι σ : Type*) {ε : Type u} (ρ : ε → Type v) where
  sem : ι → σ → (e : ε) → σ → ρ e → Prop
  env : σ → σ → Prop

/-- A state and the programs that still run on it. -/
structure Conf (ι σ : Type*) {ε : Type u} (ρ : ε → Type v) (χ : Type w) (α : Type z) where
  state : σ
  pool : ι → Prog ρ χ α

section Steps

variable {ι σ : Type*} [DecidableEq ι] {ε : Type u} {ρ : ε → Type v} {χ : Type w} {α : Type z}

/-- One program's next request is answered, or the state moves by itself. Only the requests that
`C` admits in the state they are made in are taken. -/
inductive Step (S : System ι σ ρ) (C : ι → σ → ε → Prop) :
    Conf ι σ ρ χ α → Conf ι σ ρ χ α → Prop
  | ask {c : Conf ι σ ρ χ α} {i : ι} {e : ε} {k : ρ e → Prog ρ χ α} {s : σ} {r : ρ e}
      (hp : c.pool i = .ask e k) (hC : C i c.state e) (hs : S.sem i c.state e s r) :
      Step S C c ⟨s, Function.update c.pool i (k r)⟩
  | env {c : Conf ι σ ρ χ α} {s : σ} (hs : S.env c.state s) : Step S C c ⟨s, c.pool⟩

/-- Runs of any length. -/
abbrev Reach (S : System ι σ ρ) (C : ι → σ → ε → Prop) :
    Conf ι σ ρ χ α → Conf ι σ ρ χ α → Prop :=
  Relation.ReflTransGen (Step S C)

/-- Every request is admitted. -/
abbrev always (ι σ : Type*) (ε : Type u) : ι → σ → ε → Prop := fun _ _ _ => True

theorem Step.mono {S : System ι σ ρ} {C C' : ι → σ → ε → Prop}
    (hC : ∀ i s e, C i s e → C' i s e) {c c' : Conf ι σ ρ χ α} (h : Step S C c c') :
    Step S C' c c' := by
  cases h with
  | ask hp h hs => exact .ask hp (hC _ _ _ h) hs
  | env hs => exact .env hs

/-- A fact that every admitted request and every move keeps holds along every run. -/
theorem Reach.invariant {S : System ι σ ρ} {C : ι → σ → ε → Prop} {J : σ → Prop}
    (hsem : ∀ i s e s' r, J s → C i s e → S.sem i s e s' r → J s')
    (henv : ∀ s s', J s → S.env s s' → J s') {c c' : Conf ι σ ρ χ α} (hJ : J c.state)
    (h : Reach S C c c') : J c'.state := by
  induction h with
  | refl => exact hJ
  | tail _ hs ih =>
    cases hs with
    | ask _ hC hs => exact hsem _ _ _ _ _ ih hC hs
    | env hs => exact henv _ _ ih hs

/-- The system that answers the requests of `C` alone. -/
def System.restrict (S : System ι σ ρ) (C : ι → σ → ε → Prop) : System ι σ ρ where
  sem i s e s' r := C i s e ∧ S.sem i s e s' r
  env := S.env

theorem Reach.restrict {S : System ι σ ρ} {C : ι → σ → ε → Prop} {c c' : Conf ι σ ρ χ α}
    (h : Reach S C c c') : Reach (S.restrict C) (always ι σ ε) c c' := by
  refine Relation.ReflTransGen.mono (fun a b hs => ?_) _ _ h
  cases hs with
  | ask hp hC hs => exact .ask hp trivial ⟨hC, hs⟩
  | env hs => exact .env hs

theorem Reach.mono {S : System ι σ ρ} {C C' : ι → σ → ε → Prop}
    (hC : ∀ i s e, C i s e → C' i s e) {c c' : Conf ι σ ρ χ α} (h : Reach S C c c') :
    Reach S C' c c' :=
  Relation.ReflTransGen.mono (fun _ _ => Step.mono hC) _ _ h

end Steps

/-- The rely-guarantee contract of a system. -/
structure Discipline (ι σ : Type*) {ε : Type u} (ρ : ε → Type v) extends System ι σ ρ where
  Inv : σ → Prop
  Allowed : ι → σ → ε → Prop
  Rely : ι → σ → σ → Prop
  rely_refl : ∀ i s, Rely i s s
  rely_trans : ∀ i s s' s'', Rely i s s' → Rely i s' s'' → Rely i s s''
  inv_sem : ∀ i s e s' r, Inv s → Allowed i s e → sem i s e s' r → Inv s'
  rely_sem : ∀ i j s e s' r, i ≠ j → Inv s → Allowed i s e → sem i s e s' r → Rely j s s'
  inv_env : ∀ s s', Inv s → env s s' → Inv s'
  rely_env : ∀ i s s', Inv s → env s s' → Rely i s s'

namespace Discipline

variable {ι σ : Type*} {ε : Type u} {ρ : ε → Type v} {χ : Type w} {α β : Type z}
variable (D : Discipline ι σ ρ) (i : ι)

/-- Each request `p` can reach from `s` is allowed, and where it ends `Q` holds. -/
def Obeys : Prog ρ χ α → (Except χ α → σ → Prop) → σ → Prop
  | .done a, Q, s => Q (.ok a) s
  | .raise x, Q, s => Q (.error x) s
  | .ask e k, Q, s => ∀ s₁, D.Rely i s s₁ → D.Inv s₁ →
      D.Allowed i s₁ e ∧ ∀ s₂ r, D.sem i s₁ e s₂ r → D.Inv s₂ → Obeys (k r) Q s₂

/-- The facts that the other programs leave alone. -/
def Stable (P : σ → Prop) : Prop := ∀ s s', D.Rely i s s' → P s → P s'

/-- No condition on how a program ends. -/
abbrev anyEnd : Except χ α → σ → Prop := fun _ _ => True

variable {D i}

theorem Obeys.mono {Q Q' : Except χ α → σ → Prop} (hQ : ∀ o s, Q o s → Q' o s) :
    ∀ (p : Prog ρ χ α) {s : σ}, D.Obeys i p Q s → D.Obeys i p Q' s
  | .done _, _, h => hQ _ _ h
  | .raise _, _, h => hQ _ _ h
  | .ask _ k, _, h => fun s₁ hr hI =>
    ⟨(h s₁ hr hI).1, fun s₂ r hs hI₂ => Obeys.mono hQ (k r) ((h s₁ hr hI).2 s₂ r hs hI₂)⟩

theorem Obeys.rely {Q : Except χ α → σ → Prop} (hQ : ∀ o, D.Stable i (Q o)) {p : Prog ρ χ α}
    {s s' : σ} (h : D.Obeys i p Q s) (hr : D.Rely i s s') : D.Obeys i p Q s' := by
  cases p with
  | done a => exact hQ _ _ _ hr h
  | raise x => exact hQ _ _ _ hr h
  | ask e k => exact fun s₁ hr₁ => h s₁ (D.rely_trans _ _ _ _ hr hr₁)

/-- A sequence obeys if its first part does, leaving its second one where that does. -/
theorem Obeys.bind {Q : Except χ β → σ → Prop} {f : α → Prog ρ χ β} :
    ∀ (p : Prog ρ χ α) {s : σ},
      D.Obeys i p (fun o s => match o with
        | .ok a => D.Obeys i (f a) Q s
        | .error x => Q (.error x) s) s →
      D.Obeys i (p >>= f) Q s
  | .done _, _, h => h
  | .raise _, _, h => h
  | .ask _ k, _, h => fun s₁ hr hI =>
    ⟨(h s₁ hr hI).1, fun s₂ r hs hI₂ => Obeys.bind (k r) ((h s₁ hr hI).2 s₂ r hs hI₂)⟩

theorem Obeys.handle {Q : Except χ α → σ → Prop} {g : χ → Prog ρ χ α} :
    ∀ (p : Prog ρ χ α) {s : σ},
      D.Obeys i p (fun o s => match o with
        | .ok a => Q (.ok a) s
        | .error x => D.Obeys i (g x) Q s) s →
      D.Obeys i (p.handle g) Q s
  | .done _, _, h => h
  | .raise _, _, h => h
  | .ask _ k, _, h => fun s₁ hr hI =>
    ⟨(h s₁ hr hI).1, fun s₂ r hs hI₂ => Obeys.handle (k r) ((h s₁ hr hI).2 s₂ r hs hI₂)⟩

end Discipline

section Runs

variable {ι σ : Type*} [DecidableEq ι] {ε : Type u} {ρ : ε → Type v} {χ : Type w} {α : Type z}
variable {D : Discipline ι σ ρ} {C : ι → σ → ε → Prop}

/-- The invariant holds, every program obeys from here on, and each ends in `Q`. -/
def Good (D : Discipline ι σ ρ) (Q : ι → Except χ α → σ → Prop) (c : Conf ι σ ρ χ α) : Prop :=
  D.Inv c.state ∧ ∀ i, D.Obeys i (c.pool i) (Q i) c.state

variable {Q : ι → Except χ α → σ → Prop}

/-- What a step of an obeying pool does: an allowed request, or a move of the state. -/
theorem step_cases {c c' : Conf ι σ ρ χ α} (hc : Good D Q c) (h : Step D.toSystem C c c') :
    (∃ i e r, D.Allowed i c.state e ∧ C i c.state e ∧ D.sem i c.state e c'.state r) ∨
      D.env c.state c'.state := by
  cases h with
  | @ask i e k s r hp hC hs =>
    have ho := hc.2 i
    rw [hp] at ho
    exact .inl ⟨_, _, _, (ho _ (D.rely_refl _ _) hc.1).1, hC, hs⟩
  | env hs => exact .inr hs

theorem good_step (hQ : ∀ i o, D.Stable i (Q i o)) {c c' : Conf ι σ ρ χ α} (hc : Good D Q c)
    (h : Step D.toSystem C c c') : Good D Q c' := by
  obtain ⟨hI, hO⟩ := hc
  cases h with
  | @ask i e k s r hp hC hs =>
    have ho := hO i
    rw [hp] at ho
    obtain ⟨hal, hk⟩ := ho _ (D.rely_refl _ _) hI
    have hI' := D.inv_sem _ _ _ _ _ hI hal hs
    refine ⟨hI', fun j => ?_⟩
    by_cases hj : j = i
    · subst hj
      simpa using hk s r hs hI'
    · simpa [Function.update_of_ne hj] using
        (hO j).rely (hQ j) (D.rely_sem _ _ _ _ _ _ (Ne.symm hj) hI hal hs)
  | env hs =>
    exact ⟨D.inv_env _ _ hI hs, fun j => (hO j).rely (hQ j) (D.rely_env _ _ _ hI hs)⟩

theorem good_reach (hQ : ∀ i o, D.Stable i (Q i o)) {c c' : Conf ι σ ρ χ α} (hc : Good D Q c)
    (h : Reach D.toSystem C c c') : Good D Q c' := by
  induction h with
  | refl => exact hc
  | tail _ hs ih => exact good_step hQ ih hs

/-- A fact that every allowed request and every move keeps holds along every run. -/
theorem reach_invariant (hQ : ∀ i o, D.Stable i (Q i o)) {J : σ → Prop}
    (hsem : ∀ i s e s' r, D.Inv s → J s → D.Allowed i s e → C i s e → D.sem i s e s' r → J s')
    (henv : ∀ s s', D.Inv s → J s → D.env s s' → J s')
    {c c' : Conf ι σ ρ χ α} (hc : Good D Q c) (hJ : J c.state) (h : Reach D.toSystem C c c') :
    J c'.state := by
  induction h with
  | refl => exact hJ
  | tail hr hs ih =>
    have hg := good_reach hQ hc hr
    rcases step_cases hg hs with ⟨i, e, r, hal, hC, hs⟩ | hs
    · exact hsem i _ e _ r hg.1 ih hal hC hs
    · exact henv _ _ hg.1 ih hs

/-- A transitive relation that every allowed request and every move keeps to relates the ends of
every run. -/
theorem reach_relation (hQ : ∀ i o, D.Stable i (Q i o)) {R : σ → σ → Prop} (hrefl : ∀ s, R s s)
    (htrans : ∀ s s' s'', R s s' → R s' s'' → R s s'')
    (hsem : ∀ i s e s' r, D.Inv s → D.Allowed i s e → C i s e → D.sem i s e s' r → R s s')
    (henv : ∀ s s', D.Inv s → D.env s s' → R s s')
    {c c' : Conf ι σ ρ χ α} (hc : Good D Q c) (h : Reach D.toSystem C c c') :
    R c.state c'.state :=
  reach_invariant hQ (J := R c.state)
    (fun _ _ _ _ _ hI hJ hal hC hs => htrans _ _ _ hJ (hsem _ _ _ _ _ hI hal hC hs))
    (fun _ _ hI hJ hs => htrans _ _ _ hJ (henv _ _ hI hs)) hc (hrefl _) h

end Runs

section Play

variable {ι σ : Type*} [DecidableEq ι] {ε : Type u} {ρ : ε → Type v} {χ : Type w} {α : Type z}

/-- One turn of a scripted run: a program's next request with how it is answered, or a move. -/
inductive Turn (ι σ : Type*) {ε : Type u} (ρ : ε → Type v)
  | run (i : ι) (answer : σ → (e : ε) → σ × ρ e)
  | move (f : σ → σ)

/-- The turn of a program that has ended changes nothing. -/
def Conf.turn (c : Conf ι σ ρ χ α) : Turn ι σ ρ → Conf ι σ ρ χ α
  | .run i answer =>
    match c.pool i with
    | .ask e k => ⟨(answer c.state e).1, Function.update c.pool i (k (answer c.state e).2)⟩
    | _ => c
  | .move f => ⟨f c.state, c.pool⟩

def Conf.play (c : Conf ι σ ρ χ α) (script : List (Turn ι σ ρ)) : Conf ι σ ρ χ α :=
  script.foldl Conf.turn c

/-- A turn that the system can take in every state. -/
def Turn.Sound (S : System ι σ ρ) : Turn ι σ ρ → Prop
  | .run i answer => ∀ s e, S.sem i s e (answer s e).1 (answer s e).2
  | .move f => ∀ s, S.env s (f s)

/-- The requests of the script meet `C` in the states they are made in. -/
def Conf.Meets (C : ι → σ → ε → Prop) (c : Conf ι σ ρ χ α) : List (Turn ι σ ρ) → Prop
  | [] => True
  | t :: script => met t ∧ (c.turn t).Meets C script
where
  met : Turn ι σ ρ → Prop
    | .run i _ =>
      match c.pool i with
      | .ask e _ => C i c.state e
      | _ => True
    | .move _ => True

instance (C : ι → σ → ε → Prop) [∀ i s e, Decidable (C i s e)] (c : Conf ι σ ρ χ α) :
    (t : Turn ι σ ρ) → Decidable (Conf.Meets.met C c t)
  | .run i _ =>
    match h : c.pool i with
    | .ask e _ => decidable_of_iff (C i c.state e) (by rw [Conf.Meets.met, h])
    | .done _ => isTrue (by rw [Conf.Meets.met, h]; trivial)
    | .raise _ => isTrue (by rw [Conf.Meets.met, h]; trivial)
  | .move _ => isTrue trivial

instance (C : ι → σ → ε → Prop) [∀ i s e, Decidable (C i s e)] :
    (script : List (Turn ι σ ρ)) → (c : Conf ι σ ρ χ α) → Decidable (c.Meets C script)
  | [], _ => isTrue trivial
  | t :: script, c =>
    have : Decidable ((c.turn t).Meets C script) := instDecidableMeets C script (c.turn t)
    inferInstanceAs (Decidable (Conf.Meets.met C c t ∧ (c.turn t).Meets C script))

/-- A script of sound turns that meet `C` plays a run. -/
theorem reach_play {S : System ι σ ρ} {C : ι → σ → ε → Prop} : ∀ {script : List (Turn ι σ ρ)},
    (∀ t ∈ script, t.Sound S) → ∀ c : Conf ι σ ρ χ α, c.Meets C script →
      Reach S C c (c.play script)
  | [], _, _, _ => .refl
  | t :: script, h, c, ⟨hm, hms⟩ => by
    have hrest := reach_play (fun t' ht' => h t' (List.mem_cons_of_mem _ ht')) (c.turn t) hms
    have ht := h t List.mem_cons_self
    cases t with
    | move f => exact .head (.env (ht c.state)) hrest
    | run i answer =>
      simp only [Conf.play, List.foldl_cons, Conf.turn] at hrest ⊢
      rw [Conf.Meets.met] at hm
      rcases hp : c.pool i with a | x | ⟨e, k⟩ <;> rw [hp] at hrest hm
      · exact hrest
      · exact hrest
      · exact .head (.ask hp hm (ht c.state e)) hrest

theorem meets_always : ∀ (script : List (Turn ι σ ρ)) (c : Conf ι σ ρ χ α),
    c.Meets (always _ _ _) script
  | [], _ => trivial
  | t :: script, c => by
    refine ⟨?_, meets_always script _⟩
    cases t with
    | move f => trivial
    | run i answer =>
      rw [Conf.Meets.met]
      split <;> trivial

end Play

end Interleave
