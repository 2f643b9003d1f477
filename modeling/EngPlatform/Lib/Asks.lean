import EngPlatform.Lib.Yields

/-!
# The requests of a program

`p.Asks P` says that every request that `p` can make satisfies `P`, whatever was answered. A program
whose requests are always allowed obeys, and what every step of a system keeps holds where a program
ends, whether it returns or raises.
-/

set_option linter.dupNamespace false

namespace Interleave

universe u v w z

namespace Prog

variable {ε : Type u} {ρ : ε → Type v} {χ : Type w} {α β : Type z} {P : ε → Prop}

/-- `try: p finally: q`. -/
def after : Prog ρ χ α → Prog ρ χ PUnit → Prog ρ χ α
  | done a, q => q.bind fun _ => done a
  | raise x, q => q.bind fun _ => raise x
  | ask e k, q => ask e fun r => (k r).after q

def Asks (P : ε → Prop) : Prog ρ χ α → Prop
  | done _ => True
  | raise _ => True
  | ask e k => P e ∧ ∀ r, (k r).Asks P

theorem Asks.pure (a : α) : (Pure.pure a : Prog ρ χ α).Asks P := trivial

theorem Asks.raise (x : χ) : (Prog.raise x : Prog ρ χ α).Asks P := trivial

theorem Asks.lift (x : Except χ α) : (Prog.lift x : Prog ρ χ α).Asks P := by
  cases x <;> trivial

theorem Asks.ite {b : Prop} [Decidable b] {p q : Prog ρ χ α} (hp : b → p.Asks P)
    (hq : ¬b → q.Asks P) : (if b then p else q).Asks P := by
  by_cases h : b
  · rw [if_pos h]
    exact hp h
  · rw [if_neg h]
    exact hq h

theorem Asks.bind {f : α → Prog ρ χ β} (hf : ∀ a, (f a).Asks P) :
    ∀ {p : Prog ρ χ α}, p.Asks P → (p >>= f).Asks P
  | .done a, _ => hf a
  | .raise _, _ => trivial
  | .ask _ _, h => ⟨h.1, fun r => Asks.bind hf (h.2 r)⟩

theorem Asks.handle {g : χ → Prog ρ χ α} (hg : ∀ x, (g x).Asks P) :
    ∀ {p : Prog ρ χ α}, p.Asks P → (p.handle g).Asks P
  | .done _, _ => trivial
  | .raise x, _ => hg x
  | .ask _ _, h => ⟨h.1, fun r => Asks.handle hg (h.2 r)⟩

theorem Asks.any : ∀ p : Prog ρ χ α, p.Asks fun _ => True
  | .done _ => trivial
  | .raise _ => trivial
  | .ask _ k => ⟨trivial, fun r => Asks.any (k r)⟩

theorem Asks.mono {P' : ε → Prop} (hP : ∀ e, P e → P' e) :
    ∀ {p : Prog ρ χ α}, p.Asks P → p.Asks P'
  | .done _, _ => trivial
  | .raise _, _ => trivial
  | .ask _ _, h => ⟨hP _ h.1, fun r => Asks.mono hP (h.2 r)⟩

/-- What a program returns satisfies `Q`, whatever was answered. -/
def Ends (Q : α → Prop) : Prog ρ χ α → Prop
  | done a => Q a
  | raise _ => True
  | ask _ k => ∀ r, (k r).Ends Q

section Ends

variable {Q : α → Prop} {R : β → Prop}

theorem Ends.ite {b : Prop} [Decidable b] {p q : Prog ρ χ α} (hp : b → p.Ends Q)
    (hq : ¬b → q.Ends Q) : (if b then p else q).Ends Q := by
  by_cases h : b
  · rw [if_pos h]
    exact hp h
  · rw [if_neg h]
    exact hq h

theorem Ends.bind {f : α → Prog ρ χ β} (hf : ∀ a, Q a → (f a).Ends R) :
    ∀ {p : Prog ρ χ α}, p.Ends Q → (p >>= f).Ends R
  | .done a, h => hf a h
  | .raise _, _ => trivial
  | .ask _ _, h => fun r => Ends.bind hf (h r)

theorem Ends.bind_any {f : α → Prog ρ χ β} (hf : ∀ a, (f a).Ends R) :
    ∀ {p : Prog ρ χ α}, (p >>= f).Ends R
  | .done a => hf a
  | .raise _ => trivial
  | .ask _ _ => fun _ => Ends.bind_any hf

theorem Ends.mono {Q' : α → Prop} (hQ : ∀ a, Q a → Q' a) :
    ∀ {p : Prog ρ χ α}, p.Ends Q → p.Ends Q'
  | .done _, h => hQ _ h
  | .raise _, _ => trivial
  | .ask _ _, h => fun r => Ends.mono hQ (h r)

/-- The rest of a sequence may use what the first part returns. -/
theorem Asks.bind_ends {f : α → Prog ρ χ β} (hf : ∀ a, Q a → (f a).Asks P) :
    ∀ {p : Prog ρ χ α}, p.Asks P → p.Ends Q → (p >>= f).Asks P
  | .done a, _, hq => hf a hq
  | .raise _, _, _ => trivial
  | .ask _ _, h, hq => ⟨h.1, fun r => Asks.bind_ends hf (h.2 r) (hq r)⟩

end Ends

theorem Asks.call {e : ε} (h : P e) : (Prog.call e : Prog ρ χ (ρ e)).Asks P := ⟨h, fun _ => trivial⟩

theorem Asks.forM {γ : Type*} {f : γ → Prog ρ χ PUnit} (hf : ∀ c, (f c).Asks P) :
    ∀ cs : List γ, (cs.forM f).Asks P
  | [] => trivial
  | c :: cs => Asks.bind (fun _ => Asks.forM hf cs) (hf c)

end Prog

section Runs

variable {ι σ : Type*} [DecidableEq ι] {ε : Type u} {ρ : ε → Type v} {χ : Type w} {α : Type z}
variable {S : System ι σ ρ} {C : ι → σ → ε → Prop} {P : ε → Prop} {c c' : Conf ι σ ρ χ α}

theorem Step.asks (hp : ∀ i, (c.pool i).Asks P) (h : Step S C c c') : ∀ i, (c'.pool i).Asks P := by
  cases h with
  | @ask i e k s r hpool hC hs =>
    intro j
    by_cases hj : j = i
    · subst hj
      have hask := hp j
      rw [hpool] at hask
      simpa using hask.2 r
    · simpa [Function.update_of_ne hj] using hp j
  | env hs => exact hp

theorem Reach.asks (hp : ∀ i, (c.pool i).Asks P) (h : Reach S C c c') :
    ∀ i, (c'.pool i).Asks P := by
  induction h with
  | refl => exact hp
  | tail _ hs ih => exact hs.asks ih

/-- A fact that every admitted request of the programs and every move keeps holds along every
run. -/
theorem Reach.invariant_asks {J : σ → Prop}
    (hsem : ∀ i s e s' r, J s → P e → C i s e → S.sem i s e s' r → J s')
    (henv : ∀ s s', J s → S.env s s' → J s') (hp : ∀ i, (c.pool i).Asks P) (hJ : J c.state)
    (h : Reach S C c c') : J c'.state := by
  induction h with
  | refl => exact hJ
  | tail hr hs ih =>
    have hasks := Reach.asks hp hr
    cases hs with
    | @ask i e k s r hpool hC hs =>
      have hask := hasks i
      rw [hpool] at hask
      exact hsem _ _ _ _ _ ih hask.1 hC hs
    | env hs => exact henv _ _ ih hs

end Runs

namespace Discipline

variable {ι σ : Type*} {ε : Type u} {ρ : ε → Type v} {χ : Type w} {α β : Type z}
variable {D : Discipline ι σ ρ} {i : ι} {s : σ} {P : α → σ → Prop} {K : σ → Prop} {A : ε → Prop}

/-- What the others keep, and `i` too in its requests that are `A`. -/
structure Kept (D : Discipline ι σ ρ) (i : ι) (A : ε → Prop) (K : σ → Prop) : Prop where
  stable : D.Stable i K
  own : ∀ s e s' r, A e → D.Inv s → D.Allowed i s e → D.sem i s e s' r → K s → K s'

theorem Kept.and {K' : σ → Prop} (h : D.Kept i A K) (h' : D.Kept i A K') :
    D.Kept i A fun s => K s ∧ K' s where
  stable := h.stable.and h'.stable
  own s e s' r hA hI hal hs hK :=
    ⟨h.own s e s' r hA hI hal hs hK.1, h'.own s e s' r hA hI hal hs hK.2⟩

/-- A kept fact holds where a program ends. -/
theorem Obeys.keep (hK : D.Kept i A K) {Q : Except χ α → σ → Prop} :
    ∀ (p : Prog ρ χ α) {s : σ}, p.Asks A → K s → D.Obeys i p Q s →
      D.Obeys i p (fun o s' => Q o s' ∧ K s') s
  | .done _, _, _, hs, h => ⟨h, hs⟩
  | .raise _, _, _, hs, h => ⟨h, hs⟩
  | .ask _ k, _, hA, hs, h => fun s₁ hr hI =>
    have h₁ := h s₁ hr hI
    ⟨h₁.1, fun s₂ r hs₂ hI₂ => Obeys.keep hK (k r) (hA.2 r)
      (hK.own _ _ _ _ hA.1 hI h₁.1 hs₂ (hK.stable _ _ hr hs)) (h₁.2 s₂ r hs₂ hI₂)⟩

theorem Yields.keep (hK : D.Kept i A K) {p : Prog ρ χ α} (hA : p.Asks A) (h : D.Yields i p P s)
    (hs : K s) : D.Yields i p (fun a s' => P a s' ∧ K s') s :=
  Obeys.mono (fun _ _ ho a ha => ⟨ho.1 a ha, ho.2⟩) p (Obeys.keep hK p hA hs h)

/-- A sequence whose second part may use a kept fact. -/
theorem Yields.bind_kept (hK : D.Kept i A K) {p : Prog ρ χ α} {f : α → Prog ρ χ β}
    {Q : β → σ → Prop} (hA : p.Asks A) (h : D.Yields i p P s) (hs : K s)
    (hf : ∀ a s', P a s' → K s' → D.Yields i (f a) Q s') : D.Yields i (p >>= f) Q s :=
  (h.keep hK hA hs).bind fun a s' ha => hf a s' ha.1 ha.2

/-- The handler of an exception may use a kept fact. -/
theorem Yields.handle (hK : D.Kept i A K) {p : Prog ρ χ α} {g : χ → Prog ρ χ α} (hA : p.Asks A)
    (h : D.Yields i p P s) (hs : K s) (hg : ∀ x s', K s' → D.Yields i (g x) P s') :
    D.Yields i (p.handle g) P s := by
  refine Obeys.handle p (Obeys.mono (fun o s' ho => ?_) p (Obeys.keep hK p hA hs h))
  rcases o with x | a
  · exact hg x s' ho.2
  · exact ho.1

/-- A handler that obeys in every state. -/
theorem Yields.catch {p : Prog ρ χ α} {g : χ → Prog ρ χ α} (h : D.Yields i p P s)
    (hg : ∀ x s', D.Yields i (g x) P s') : D.Yields i (p.handle g) P s := by
  refine Obeys.handle p (Obeys.mono (fun o s' ho => ?_) p h)
  rcases o with x | a
  · exact hg x s'
  · exact ho

/-- What follows in any case may use a kept fact. -/
theorem Yields.after (hK : D.Kept i A K) {q : Prog ρ χ PUnit} (hq : ∀ s', K s' →
      D.Yields i q (fun _ _ => True) s') :
    ∀ (p : Prog ρ χ α) {s : σ}, p.Asks A → K s → D.Yields i p (fun _ _ => True) s →
      D.Yields i (p.after q) (fun _ _ => True) s
  | .done _, _, _, hs, _ => (hq _ hs).bind fun _ _ _ => .pure trivial
  | .raise _, _, _, hs, _ => (hq _ hs).bind fun _ _ _ => .raise _
  | .ask _ k, _, hA, hs, h => fun s₁ hr hI =>
    have h₁ := h s₁ hr hI
    ⟨h₁.1, fun s₂ r hs₂ hI₂ => Yields.after hK hq (k r) (hA.2 r)
      (hK.own _ _ _ _ hA.1 hI h₁.1 hs₂ (hK.stable _ _ hr hs)) (h₁.2 s₂ r hs₂ hI₂)⟩

/-- A program whose requests are allowed everywhere obeys. -/
theorem Yields.of_asks (hA : ∀ s e, A e → D.Inv s → D.Allowed i s e) :
    ∀ {p : Prog ρ χ α} {s : σ}, p.Asks A → D.Yields i p (fun _ _ => True) s
  | .done _, _, _ => fun _ _ => trivial
  | .raise _, _, _ => fun _ _ => trivial
  | .ask _ _, _, h => fun _ _ hI =>
    ⟨hA _ _ h.1 hI, fun _ r _ _ => Yields.of_asks hA (h.2 r)⟩

/-- A program whose requests are allowed everywhere returns what it ends in. -/
theorem Yields.of_ends {Q : α → Prop} (hA : ∀ s e, A e → D.Inv s → D.Allowed i s e) :
    ∀ {p : Prog ρ χ α} {s : σ}, p.Asks A → p.Ends Q → D.Yields i p (fun a _ => Q a) s
  | .done _, _, _, hq => .pure hq
  | .raise x, _, _, _ => .raise x
  | .ask _ _, _, h, hq => fun _ _ hI =>
    ⟨hA _ _ h.1 hI, fun _ r _ _ => Yields.of_ends hA (h.2 r) (hq r)⟩

end Discipline

end Interleave
