import EngPlatform.Lib.Prog

/-!
# Rules for obeying programs

`Yields D i p P s` says that the program `p` of `i` obeys the discipline `D` from `s` on, and that
`P` holds of what it returns and of the state it returns in. One rule per way to build a program.
-/

set_option linter.dupNamespace false

namespace Interleave

namespace Discipline

universe u v w z

variable {ι σ : Type*} {ε : Type u} {ρ : ε → Type v} {χ : Type w} {α β : Type z}
variable (D : Discipline ι σ ρ) (i : ι)

def Yields (p : Prog ρ χ α) (P : α → σ → Prop) (s : σ) : Prop :=
  D.Obeys i p (fun o s' => ∀ a, o = .ok a → P a s') s

variable {D i} {s : σ} {P : α → σ → Prop} {Q : β → σ → Prop}

theorem Yields.pure {a : α} (h : P a s) : D.Yields i (Pure.pure a : Prog ρ χ α) P s := by
  intro b hb
  cases hb
  exact h

theorem Yields.raise (x : χ) : D.Yields i (Prog.raise x : Prog ρ χ α) P s := by
  intro b hb
  cases hb

theorem Yields.lift {x : Except χ α} (h : ∀ a, x = .ok a → P a s) :
    D.Yields i (Prog.lift x : Prog ρ χ α) P s := by
  rcases x with x | a
  · exact .raise x
  · exact .pure (h a rfl)

theorem Yields.ite {b : Prop} [Decidable b] {p q : Prog ρ χ α} (hp : b → D.Yields i p P s)
    (hq : ¬b → D.Yields i q P s) : D.Yields i (if b then p else q) P s := by
  by_cases h : b
  · rw [if_pos h]
    exact hp h
  · rw [if_neg h]
    exact hq h

theorem Yields.mono {R : α → σ → Prop} {p : Prog ρ χ α} (h : D.Yields i p P s)
    (hR : ∀ a s', P a s' → R a s') : D.Yields i p R s :=
  Obeys.mono (fun _ s' ho a ha => hR a s' (ho a ha)) p h

theorem Yields.bind {p : Prog ρ χ α} {f : α → Prog ρ χ β} (h : D.Yields i p P s)
    (hf : ∀ a s', P a s' → D.Yields i (f a) Q s') : D.Yields i (p >>= f) Q s := by
  refine Obeys.bind p (Obeys.mono (fun o s' ho => ?_) p h)
  rcases o with x | a
  · intro b hb
    cases hb
  · exact hf a s' (ho a rfl)

theorem Yields.lift_bind {x : Except χ α} {f : α → Prog ρ χ β}
    (h : ∀ a, x = .ok a → D.Yields i (f a) Q s) :
    D.Yields i (Prog.lift x >>= f : Prog ρ χ β) Q s := by
  rcases x with x | a
  · exact .raise x
  · exact h a rfl

theorem Stable.and {K K' : σ → Prop} (hK : D.Stable i K) (hK' : D.Stable i K') :
    D.Stable i (fun s => K s ∧ K' s) :=
  fun _ _ hr h => ⟨hK _ _ hr h.1, hK' _ _ hr h.2⟩

/-- A request that is allowed wherever the others can lead. -/
theorem Yields.ask {e : ε} {k : ρ e → Prog ρ χ α} (h : ∀ s₁, D.Rely i s s₁ → D.Inv s₁ →
      D.Allowed i s₁ e ∧ ∀ s₂ r, D.sem i s₁ e s₂ r → D.Inv s₂ → D.Yields i (k r) P s₂) :
    D.Yields i (.ask e k) P s := h

end Discipline

section Pool

universe u v w z

variable {ι σ : Type*} {ε : Type u} {ρ : ε → Type v} {χ : Type w} {α : Type z}
variable {D : Discipline ι σ ρ} {c c' : Conf ι σ ρ χ α}

/-- A pool whose programs obey, whatever they return. -/
theorem good_of_yields (hI : D.Inv c.state)
    (h : ∀ i, D.Yields i (c.pool i) (fun _ _ => True) c.state) :
    Good D (fun _ => Discipline.anyEnd) c :=
  ⟨hI, fun i => Discipline.Obeys.mono (fun _ _ _ => trivial) _ (h i)⟩

/-- Along every run of such a pool the invariant holds, and each request is allowed. -/
theorem good_run [DecidableEq ι] (hc : Good D (fun _ => Discipline.anyEnd) c)
    (h : Reach D.toSystem (always ι σ ε) c c') : Good D (fun _ => Discipline.anyEnd) c' :=
  good_reach (fun _ _ _ _ _ _ => trivial) hc h

theorem Good.allowed (hc : Good D (fun _ => Discipline.anyEnd) c) {i : ι} {e : ε}
    {k : ρ e → Prog ρ χ α} (hp : c.pool i = .ask e k) : D.Allowed i c.state e := by
  have ho := hc.2 i
  rw [hp] at ho
  exact (ho _ (D.rely_refl _ _) hc.1).1

end Pool

end Interleave
