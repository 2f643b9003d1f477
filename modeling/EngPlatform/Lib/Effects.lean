import Mathlib.Tactic.SplitIfs

/-!
# Programs with a state and exceptions

`Meets E m s Q`: run from `s`, the program either ends with a result and a state that satisfy `Q`, or
raises an exception that satisfies `E`.
-/

set_option linter.dupNamespace false

namespace Effects

abbrev Eff (σ ε α : Type) : Type := StateT σ (Except ε) α

variable {σ ε α β γ : Type}

def Meets (E : ε → Prop) (m : Eff σ ε α) (s : σ) (Q : α → σ → Prop) : Prop :=
  match m s with
  | .ok (a, s') => Q a s'
  | .error x => E x

namespace Meets

variable {E : ε → Prop} {s : σ} {Q : α → σ → Prop}

theorem pure {a : α} (h : Q a s) : Meets E (Pure.pure a : Eff σ ε α) s Q := h

theorem throw {x : ε} (h : E x) : Meets E (throw x : Eff σ ε α) s Q := h

theorem update {f : σ → σ} {Q : PUnit → σ → Prop} (h : Q ⟨⟩ (f s)) :
    Meets E (modify f : Eff σ ε PUnit) s Q := h

theorem mono {m : Eff σ ε α} {Q' : α → σ → Prop} (h : Meets E m s Q) (hq : ∀ a s', Q a s' → Q' a s') :
    Meets E m s Q' := by
  unfold Meets at h ⊢
  cases hm : m s with
  | error x =>
    rw [hm] at h
    exact h
  | ok r =>
    rw [hm] at h
    exact hq _ _ h

theorem bind {m : Eff σ ε β} {k : β → Eff σ ε α} {P : β → σ → Prop} (h : Meets E m s P)
    (hk : ∀ b s', P b s' → Meets E (k b) s' Q) : Meets E (m >>= k) s Q := by
  have hrun : (m >>= k) s = (m s).bind fun r => k r.1 r.2 := rfl
  unfold Meets at h ⊢
  rw [hrun]
  cases hm : m s with
  | error x =>
    rw [hm] at h
    exact h
  | ok r =>
    rw [hm] at h
    exact hk _ _ h

theorem get_bind {k : σ → Eff σ ε α} (h : Meets E (k s) s Q) : Meets E (get >>= k) s Q := h

theorem set_bind {s' : σ} {k : PUnit → Eff σ ε α} (h : Meets E (k ⟨⟩) s' Q) :
    Meets E (set s' >>= k) s Q := h

theorem modify_bind {f : σ → σ} {k : PUnit → Eff σ ε α} (h : Meets E (k ⟨⟩) (f s) Q) :
    Meets E (modify f >>= k) s Q := h

theorem lift {r : Except ε α} (hok : ∀ a, r = .ok a → Q a s) (herr : ∀ x, r = .error x → E x) :
    Meets E (liftM r : Eff σ ε α) s Q := by
  cases r with
  | ok a => exact hok a rfl
  | error x => exact herr x rfl

theorem ite {p : Prop} [Decidable p] {m m' : Eff σ ε α} (ht : p → Meets E m s Q)
    (hf : ¬p → Meets E m' s Q) : Meets E (if p then m else m') s Q := by
  split_ifs with h
  · exact ht h
  · exact hf h

/-- A loop over a list keeps what holds of the elements to come. -/
theorem forM {f : γ → Eff σ ε PUnit} {I : List γ → σ → Prop}
    (h : ∀ c l s, I (c :: l) s → Meets E (f c) s fun _ s' => I l s') :
    ∀ (l : List γ) {s : σ}, I l s → Meets E (l.forM f) s fun _ s' => I [] s'
  | [], _, hi => hi
  | c :: l, s, hi => bind (h c l s hi) fun _ _ hs => forM h l hs

theorem of_ok {m : Eff σ ε α} {a : α} {s' : σ} (h : Meets E m s Q) (hm : m s = .ok (a, s')) :
    Q a s' := by
  unfold Meets at h
  rw [hm] at h
  exact h

theorem of_error {m : Eff σ ε α} {x : ε} (h : Meets E m s Q) (hm : m s = .error x) : E x := by
  unfold Meets at h
  rw [hm] at h
  exact h

end Meets

end Effects
