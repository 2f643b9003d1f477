import EngPlatform.Lib.Asks

/-!
# Programs that run alone

A program alone on its state, whose requests may have several outcomes. It may be cut after any
request. `Always J Q` holds of a program in a state if `J` holds in every state that its runs visit,
the first one included, and `Q` holds of every end.
-/

set_option linter.dupNamespace false

namespace Interleave

universe u v w z y

variable {ε : Type u} {ρ : ε → Type v} {χ : Type w} {α β : Type z} {σ : Type y}
variable {sem : σ → (e : ε) → σ → ρ e → Prop}

/-- A run of a program, cut anywhere. -/
inductive Runs (sem : σ → (e : ε) → σ → ρ e → Prop) :
    Prog ρ χ α → σ → Prog ρ χ α → σ → Prop
  | here (p : Prog ρ χ α) (s : σ) : Runs sem p s p s
  | ask {e : ε} {k : ρ e → Prog ρ χ α} {p : Prog ρ χ α} {s s₁ s' : σ} {r : ρ e}
      (hs : sem s e s₁ r) (h : Runs sem (k r) s₁ p s') : Runs sem (.ask e k) s p s'

/-- A run to an end. -/
def Ends (sem : σ → (e : ε) → σ → ρ e → Prop) (p : Prog ρ χ α) (s : σ) (o : Except χ α) (s' : σ) :
    Prop := Runs sem p s (.lift o) s'

/-- Where every request has an outcome, a program has an end. -/
theorem ends_exists (htotal : ∀ s e, ∃ s' r, sem s e s' r) : ∀ (p : Prog ρ χ α) (s : σ), ∃ o s', Ends sem p s o s'
  | .done a, s => ⟨.ok a, s, .here _ _⟩
  | .raise x, s => ⟨.error x, s, .here _ _⟩
  | .ask e k, s => by
    obtain ⟨s₁, r, hs⟩ := htotal s e
    obtain ⟨o, s', h⟩ := ends_exists htotal (k r) s₁
    exact ⟨o, s', .ask hs h⟩

/-- `J` at every state of every run, and `Q` at every end. -/
def Always (sem : σ → (e : ε) → σ → ρ e → Prop) (J : σ → Prop) (Q : Except χ α → σ → Prop) :
    Prog ρ χ α → σ → Prop
  | .done a, s => J s ∧ Q (.ok a) s
  | .raise x, s => J s ∧ Q (.error x) s
  | .ask e k, s => J s ∧ ∀ s' r, sem s e s' r → Always sem J Q (k r) s'

namespace Always

variable {J K : σ → Prop} {Q R : Except χ α → σ → Prop} {p p' : Prog ρ χ α} {s s' : σ}

theorem here : ∀ {p : Prog ρ χ α}, Always sem J Q p s → J s
  | .done _, h => h.1
  | .raise _, h => h.1
  | .ask _ _, h => h.1

theorem runs (h : Always sem J Q p s) (hr : Runs sem p s p' s') : Always sem J Q p' s' := by
  induction hr with
  | here p s => exact h
  | ask hs _ ih => exact ih (h.2 _ _ hs)

/-- Every state that is visited. -/
theorem visits (h : Always sem J Q p s) (hr : Runs sem p s p' s') : J s' := (h.runs hr).here

theorem ends (h : Always sem J Q p s) {o : Except χ α} (hr : Ends sem p s o s') : Q o s' := by
  have h' := h.runs hr
  rcases o with x | a <;> exact h'.2

theorem mono (hJ : ∀ s, J s → K s) (hQ : ∀ o s, J s → Q o s → R o s) :
    ∀ {p : Prog ρ χ α} {s : σ}, Always sem J Q p s → Always sem K R p s
  | .done _, _, h => ⟨hJ _ h.1, hQ _ _ h.1 h.2⟩
  | .raise _, _, h => ⟨hJ _ h.1, hQ _ _ h.1 h.2⟩
  | .ask _ _, _, h => ⟨hJ _ h.1, fun s' r hs => mono hJ hQ (h.2 s' r hs)⟩

theorem and : ∀ {p : Prog ρ χ α} {s : σ}, Always sem J Q p s → Always sem K R p s →
    Always sem (fun s => J s ∧ K s) (fun o s => Q o s ∧ R o s) p s
  | .done _, _, h, h' => ⟨⟨h.1, h'.1⟩, h.2, h'.2⟩
  | .raise _, _, h, h' => ⟨⟨h.1, h'.1⟩, h.2, h'.2⟩
  | .ask _ _, _, h, h' => ⟨⟨h.1, h'.1⟩, fun s' r hs => and (h.2 s' r hs) (h'.2 s' r hs)⟩

theorem pure {a : α} (hJ : J s) (h : Q (.ok a) s) :
    Always sem J Q (Pure.pure a : Prog ρ χ α) s := ⟨hJ, h⟩

theorem raise {x : χ} (hJ : J s) (h : Q (.error x) s) :
    Always sem J Q (Prog.raise x : Prog ρ χ α) s := ⟨hJ, h⟩

theorem ask {e : ε} {k : ρ e → Prog ρ χ α} (hJ : J s)
    (h : ∀ s' r, sem s e s' r → Always sem J Q (k r) s') : Always sem J Q (.ask e k) s := ⟨hJ, h⟩

theorem ite {b : Prop} [Decidable b] {q : Prog ρ χ α} (hp : b → Always sem J Q p s)
    (hq : ¬b → Always sem J Q q s) : Always sem J Q (if b then p else q) s := by
  by_cases hb : b
  · rw [if_pos hb]
    exact hp hb
  · rw [if_neg hb]
    exact hq hb

/-- What follows an end: the continuation after a result, the end itself after an exception. -/
def next (sem : σ → (e : ε) → σ → ρ e → Prop) (J : σ → Prop) (Q : Except χ β → σ → Prop)
    (f : α → Prog ρ χ β) : Except χ α → σ → Prop
  | .ok a, s => Always sem J Q (f a) s
  | .error x, s => Q (.error x) s

theorem bind {Q : Except χ β → σ → Prop} {f : α → Prog ρ χ β} :
    ∀ {p : Prog ρ χ α} {s : σ}, Always sem J (next sem J Q f) p s → Always sem J Q (p >>= f) s
  | .done _, _, h => h.2
  | .raise _, _, h => h
  | .ask _ _, _, h => ⟨h.1, fun s' r hs => bind (h.2 s' r hs)⟩

/-- A sequence, from what is known of its first part. -/
theorem seq {Q : Except χ β → σ → Prop} {f : α → Prog ρ χ β} (hp : Always sem K R p s)
    (hJ : ∀ s', K s' → J s') (hok : ∀ a s', K s' → R (.ok a) s' → Always sem J Q (f a) s')
    (herr : ∀ x s', K s' → R (.error x) s' → Q (.error x) s') :
    Always sem J Q (p >>= f) s := by
  refine bind (hp.mono hJ fun o s' hs' ho => ?_)
  rcases o with x | a
  · exact herr x s' hs' ho
  · exact hok a s' hs' ho

/-- What follows an end: the end itself after a result, the handler after an exception. -/
def rescue (sem : σ → (e : ε) → σ → ρ e → Prop) (J : σ → Prop) (Q : Except χ α → σ → Prop)
    (g : χ → Prog ρ χ α) : Except χ α → σ → Prop
  | .ok a, s => Q (.ok a) s
  | .error x, s => Always sem J Q (g x) s

theorem handle {g : χ → Prog ρ χ α} :
    ∀ {p : Prog ρ χ α} {s : σ}, Always sem J (rescue sem J Q g) p s → Always sem J Q (p.handle g) s
  | .done _, _, h => h
  | .raise _, _, h => h.2
  | .ask _ _, _, h => ⟨h.1, fun s' r hs => handle (h.2 s' r hs)⟩

/-- A handled program, from what is known of it. -/
theorem guard {g : χ → Prog ρ χ α} (hp : Always sem K R p s) (hJ : ∀ s', K s' → J s')
    (hok : ∀ a s', K s' → R (.ok a) s' → Q (.ok a) s')
    (herr : ∀ x s', K s' → R (.error x) s' → Always sem J Q (g x) s') :
    Always sem J Q (p.handle g) s := by
  refine handle (hp.mono hJ fun o s' hs' ho => ?_)
  rcases o with x | a
  · exact herr x s' hs' ho
  · exact hok a s' hs' ho

/-- A program whose requests all keep `R s`, from wherever it has led. -/
theorem of_asks {P : ε → Prop} {R : σ → σ → Prop} (hp : p.Asks P) (hrefl : R s s)
    (hstep : ∀ s₁ e s₂ r, R s s₁ → P e → sem s₁ e s₂ r → R s s₂) (hJ : ∀ s', R s s' → J s')
    (hQ : ∀ o s', R s s' → Q o s') : Always sem J Q p s := by
  suffices h : ∀ (p : Prog ρ χ α) s₁, p.Asks P → R s s₁ → Always sem J Q p s₁ from h p s hp hrefl
  intro p
  induction p with
  | done a => exact fun s₁ _ hR => ⟨hJ s₁ hR, hQ _ s₁ hR⟩
  | raise x => exact fun s₁ _ hR => ⟨hJ s₁ hR, hQ _ s₁ hR⟩
  | ask e k ih =>
    intro s₁ hp hR
    exact ⟨hJ s₁ hR, fun s₂ r hs => ih r s₂ (hp.2 r) (hstep s₁ e s₂ r hR hp.1 hs)⟩

end Always

end Interleave
