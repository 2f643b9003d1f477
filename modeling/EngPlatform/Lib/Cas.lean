import EngPlatform.Lib.Prog
import Mathlib.Order.Basic
import Mathlib.Data.List.Infix

/-!
# A record changed by compare-and-swap

One record on a server with a clock. A caller reads the record with the server's time, computes a
replacement, and writes it on the condition that the record is still the version it read; a
conflict starts it over, an answer that does not arrive ends it. The clock never goes back.

Whatever the interleaving, the record's history is serial (`serial_of_reach`): every version is
what its writer's transform makes of the version right before it, at a time no earlier, and no
caller writes twice.
-/

set_option linter.dupNamespace false

namespace Cas

open Interleave

/-- What a caller asks: whether its deadline is over, the record, a write over version `n`. -/
inductive Op (δ : Type*)
  | remaining
  | get
  | write (n : ℕ) (doc : δ)

/-- The record as it was read. Version 0 is the missing record. -/
structure Snapshot (τ δ : Type*) where
  readTime : τ
  version : ℕ
  doc : Option δ

/-- A write's answer: it took effect, it met another version, or nobody can tell. -/
inductive Outcome
  | committed
  | conflict
  | unknown

/-- A request's answer. An expired deadline answers `false`, a failed read `none`. -/
abbrev Answer (τ δ : Type) : Op δ → Type
  | .remaining => Bool
  | .get => Option (Snapshot τ δ)
  | .write _ _ => Outcome

/-- What ends a caller besides its transform. -/
inductive Fault
  | deadline
  | unavailable
  | contended
  deriving DecidableEq

section Caller

variable {τ δ χ β : Type} (fault : Fault → χ)

/-- `deadline.remaining()`. -/
def remaining : Prog (Answer τ δ) χ Unit :=
  .ask .remaining fun ok => if ok then .done () else .raise (fault .deadline)

/-- `document.get(...)`. -/
def get : Prog (Answer τ δ) χ (Snapshot τ δ) :=
  .ask .get fun
    | some s => .done s
    | none => .raise (fault .unavailable)

/-- At most `n` rounds of read, transform and conditional write. -/
def attempt (tr : τ → Option δ → Except χ (β × Option δ)) : ℕ → Prog (Answer τ δ) χ β
  | 0 => .raise (fault .contended)
  | n + 1 => do
    remaining fault
    let s ← get fault
    remaining fault
    let (result, replacement) ← Prog.lift (tr s.readTime s.doc)
    remaining fault
    match replacement with
    | none => pure result
    | some doc => do
      remaining fault
      .ask (.write s.version doc) fun
        | .committed => do
          remaining fault
          pure result
        | .conflict => attempt tr n
        | .unknown => .raise (fault .unavailable)

/-- The whole call: its deadline is looked at before the first round. -/
def compareAndSwap (rounds : ℕ) (tr : τ → Option δ → Except χ (β × Option δ)) :
    Prog (Answer τ δ) χ β := do
  remaining fault
  attempt fault tr rounds

end Caller

/-- A version of the record: who wrote it, when the version before it was read, what it holds. -/
structure Commit (ι τ δ : Type*) where
  writer : ι
  time : τ
  doc : δ

/-- The server: its clock, the record's versions with the newest first, and the time of each
caller's last read. -/
structure Cell (ι τ δ : Type*) where
  clock : τ
  history : List (Commit ι τ δ)
  seen : ι → τ

/-- What the record holds. -/
def current {ι τ δ : Type*} (h : List (Commit ι τ δ)) : Option δ := h.head?.map Commit.doc

@[simp] theorem current_nil {ι τ δ : Type*} : current ([] : List (Commit ι τ δ)) = none := rfl

@[simp] theorem current_cons {ι τ δ : Type*} (c : Commit ι τ δ) (h : List (Commit ι τ δ)) :
    current (c :: h) = some c.doc := rfl

/-- The history once `i` has written `doc`. -/
def Cell.commit {ι τ δ : Type*} (s : Cell ι τ δ) (i : ι) (doc : δ) : Cell ι τ δ :=
  { s with history := ⟨i, s.seen i, doc⟩ :: s.history }

/-- What a request does. A write may take effect without its answer arriving. -/
def sem {ι τ δ : Type} [DecidableEq ι] (i : ι) (s : Cell ι τ δ) :
    (e : Op δ) → Cell ι τ δ → Answer τ δ e → Prop
  | .remaining, s', _ => s' = s
  | .get, s', none => s' = s
  | .get, s', some r =>
    r = ⟨s.clock, s.history.length, current s.history⟩ ∧
      s' = { s with seen := Function.update s.seen i s.clock }
  | .write n doc, s', .committed => s.history.length = n ∧ s' = s.commit i doc
  | .write _ _, s', .conflict => s' = s
  | .write n doc, s', .unknown => s' = s ∨ (s.history.length = n ∧ s' = s.commit i doc)

/-- The clock moves on. -/
def tick {ι τ δ : Type*} [Preorder τ] (s s' : Cell ι τ δ) : Prop :=
  ∃ t, s.clock ≤ t ∧ s' = { s with clock := t }

/-- The server shared by its callers. -/
def server (ι τ δ : Type) [DecidableEq ι] [Preorder τ] : System ι (Cell ι τ δ) (Answer τ δ) where
  sem := sem
  env := tick

/-- An answer without a fault. -/
def serve {ι τ δ : Type} [DecidableEq ι] (i : ι) (s : Cell ι τ δ) :
    (e : Op δ) → Cell ι τ δ × Answer τ δ e
  | .remaining => (s, true)
  | .get => ({ s with seen := Function.update s.seen i s.clock },
      some ⟨s.clock, s.history.length, current s.history⟩)
  | .write n doc => if s.history.length = n then (s.commit i doc, .committed) else (s, .conflict)

theorem serve_sound {ι τ δ : Type} [DecidableEq ι] [Preorder τ] (i : ι) :
    (Turn.run i (serve i)).Sound (server ι τ δ) := by
  rintro s (_ | _ | ⟨n, doc⟩)
  · rfl
  · exact ⟨rfl, rfl⟩
  · by_cases h : s.history.length = n <;> simp only [serve, h, if_true, if_false]
    · exact ⟨h, rfl⟩
    · rfl

section Histories

variable {ι τ δ χ β : Type} [Preorder τ] (tr : ι → τ → Option δ → Except χ (β × Option δ))

/-- A history in which every version comes from the one before it by its writer's transform. -/
inductive Serial : List (Commit ι τ δ) → Prop
  | nil : Serial []
  | cons {h : List (Commit ι τ δ)} {i : ι} {t : τ} {doc : δ} (b : β) (hh : Serial h)
      (hi : ∀ c ∈ h, c.writer ≠ i) (ht : ∀ c ∈ h, c.time ≤ t)
      (hd : tr i t (current h) = .ok (b, some doc)) : Serial (⟨i, t, doc⟩ :: h)

variable {tr}

theorem Serial.suffix {h h' : List (Commit ι τ δ)} (hs : h <:+ h') (hh : Serial tr h') :
    Serial tr h := by
  induction hh with
  | nil => rw [List.suffix_nil.1 hs]; exact .nil
  | cons b hh hi ht hd ih =>
    rcases List.suffix_cons_iff.1 hs with rfl | hs
    · exact .cons b hh hi ht hd
    · exact ih hs

end Histories

section Contract

variable {ι τ δ χ β : Type} [Preorder τ]
variable (tr : ι → τ → Option δ → Except χ (β × Option δ))

/-- What `i` may count on: its own read stays, and others only add to the history. -/
def Rely (i : ι) (s s' : Cell ι τ δ) : Prop :=
  s.clock ≤ s'.clock ∧ s'.seen i = s.seen i ∧
    ∃ l, s'.history = l ++ s.history ∧ ∀ c ∈ l, c.writer ≠ i

/-- A write that would take effect comes from the transform at the caller's own read. -/
def Allowed (i : ι) (s : Cell ι τ δ) : Op δ → Prop
  | .write n doc => s.history.length = n → (∀ c ∈ s.history, c.writer ≠ i) ∧
      (∀ c ∈ s.history, c.time ≤ s.seen i) ∧
      ∃ b, tr i (s.seen i) (current s.history) = .ok (b, some doc)
  | _ => True

/-- The history is serial, and nothing was read after the present. -/
structure Inv (s : Cell ι τ δ) : Prop where
  serial : Serial tr s.history
  seen : ∀ i, s.seen i ≤ s.clock
  times : ∀ c ∈ s.history, c.time ≤ s.clock

theorem rely_refl (i : ι) (s : Cell ι τ δ) : Rely i s s :=
  ⟨le_refl _, rfl, [], rfl, by simp⟩

theorem rely_trans (i : ι) (s s' s'' : Cell ι τ δ) (h : Rely i s s') (h' : Rely i s' s'') :
    Rely i s s'' := by
  obtain ⟨hc, hs, l, hl, hw⟩ := h
  obtain ⟨hc', hs', l', hl', hw'⟩ := h'
  refine ⟨hc.trans hc', hs'.trans hs, l' ++ l, by simp [hl', hl], fun c hmem => ?_⟩
  rcases List.mem_append.1 hmem with hmem | hmem
  exacts [hw' c hmem, hw c hmem]

variable {tr}

theorem inv_commit {i : ι} {s : Cell ι τ δ} {n : ℕ} {doc : δ} (hI : Inv tr s)
    (hal : Allowed tr i s (.write n doc)) (hn : s.history.length = n) :
    Inv tr (s.commit i doc) := by
  obtain ⟨hi, ht, b, hd⟩ := hal hn
  refine ⟨.cons b hI.serial hi ht hd, hI.seen, fun c hc => ?_⟩
  rcases List.mem_cons.1 hc with rfl | hc
  exacts [hI.seen i, hI.times c hc]

theorem rely_commit {i j : ι} (hij : i ≠ j) (s : Cell ι τ δ) (doc : δ) :
    Rely j s (s.commit i doc) :=
  ⟨le_refl _, rfl, [⟨i, s.seen i, doc⟩], rfl, by simpa using hij⟩

/-- What `i` knows after reading version `n`: a write over it is still its own first one, at the
time it read, over the record it read. -/
structure HasRead (i : ι) (t : τ) (n : ℕ) (doc : Option δ) (s : Cell ι τ δ) : Prop where
  seen : s.seen i = t
  fresh : ∀ c ∈ s.history, c.writer ≠ i
  length : n ≤ s.history.length
  version : s.history.length = n → current s.history = doc ∧ ∀ c ∈ s.history, c.time ≤ t

theorem HasRead.rely {i : ι} {t : τ} {n : ℕ} {doc : Option δ} {s s' : Cell ι τ δ}
    (h : HasRead i t n doc s) (hr : Rely i s s') : HasRead i t n doc s' := by
  obtain ⟨-, hseen, l, hl, hw⟩ := hr
  refine ⟨hseen.trans h.seen, fun c hc => ?_, ?_, fun hn => ?_⟩
  · rw [hl] at hc
    rcases List.mem_append.1 hc with hc | hc
    exacts [hw c hc, h.fresh c hc]
  · have := h.length
    simp only [hl, List.length_append]
    omega
  · have := h.length
    rw [hl, List.length_append] at hn
    obtain rfl : l = [] := List.length_eq_zero_iff.1 (by omega)
    rw [hl]
    exact h.version (by omega)

theorem Rely.fresh {i : ι} {s s' : Cell ι τ δ} (h : ∀ c ∈ s.history, c.writer ≠ i)
    (hr : Rely i s s') : ∀ c ∈ s'.history, c.writer ≠ i := by
  obtain ⟨-, -, l, hl, hw⟩ := hr
  intro c hc
  rw [hl] at hc
  rcases List.mem_append.1 hc with hc | hc
  exacts [hw c hc, h c hc]

variable [DecidableEq ι]

theorem inv_sem (i : ι) (s : Cell ι τ δ) (e : Op δ) (s' : Cell ι τ δ) (r : Answer τ δ e)
    (hI : Inv tr s) (hal : Allowed tr i s e) (h : sem i s e s' r) : Inv tr s' := by
  match e, r, h with
  | .remaining, _, h => exact h ▸ hI
  | .get, none, h => exact h ▸ hI
  | .get, some _, h =>
    obtain ⟨-, rfl⟩ := h
    refine ⟨hI.serial, fun j => ?_, hI.times⟩
    by_cases hj : j = i
    · simp [hj]
    · simpa [Function.update_of_ne hj] using hI.seen j
  | .write _ _, .committed, h => exact h.2 ▸ inv_commit hI hal h.1
  | .write _ _, .conflict, h => exact h ▸ hI
  | .write _ _, .unknown, h =>
    rcases h with rfl | ⟨hn, rfl⟩
    exacts [hI, inv_commit hI hal hn]

theorem rely_sem (i j : ι) (s : Cell ι τ δ) (e : Op δ) (s' : Cell ι τ δ) (r : Answer τ δ e)
    (hij : i ≠ j) (h : sem i s e s' r) : Rely j s s' := by
  match e, r, h with
  | .remaining, _, h => exact h ▸ rely_refl j s
  | .get, none, h => exact h ▸ rely_refl j s
  | .get, some _, h =>
    obtain ⟨-, rfl⟩ := h
    exact ⟨le_refl _, Function.update_of_ne (Ne.symm hij) _ _, [], rfl, by simp⟩
  | .write _ _, .committed, h => exact h.2 ▸ rely_commit hij s _
  | .write _ _, .conflict, h => exact h ▸ rely_refl j s
  | .write _ _, .unknown, h =>
    rcases h with rfl | ⟨-, rfl⟩
    exacts [rely_refl j _, rely_commit hij s _]

variable (tr)

/-- The contract that callers of `tr` keep to. -/
def discipline : Interleave.Discipline ι (Cell ι τ δ) (Answer τ δ) where
  toSystem := server ι τ δ
  Inv := Inv tr
  Allowed := Allowed tr
  Rely := Rely
  rely_refl := rely_refl
  rely_trans := rely_trans
  inv_sem := inv_sem
  rely_sem := fun i j s e s' r hij _ _ h => rely_sem i j s e s' r hij h
  inv_env := by
    rintro s _ hI ⟨t, ht, rfl⟩
    exact ⟨hI.serial, fun i => (hI.seen i).trans ht, fun c hc => (hI.times c hc).trans ht⟩
  rely_env := by
    rintro i s _ _ ⟨t, ht, rfl⟩
    exact ⟨ht, rfl, [], rfl, by simp⟩

variable {tr} (fault : Fault → χ)

theorem obeys_remaining {i : ι} {s : Cell ι τ δ} {Q : Except χ Unit → Cell ι τ δ → Prop}
    (h : ∀ s', Rely i s s' → Inv tr s' → Q (.ok ()) s' ∧ Q (.error (fault .deadline)) s') :
    (discipline tr).Obeys i (remaining fault) Q s := by
  intro s₁ hr hI
  refine ⟨trivial, fun s₂ r hs hI₂ => ?_⟩
  obtain rfl : s₂ = s₁ := hs
  obtain ⟨hok, hx⟩ := h s₂ hr hI
  cases r
  · exact hx
  · exact hok

theorem obeys_get {i : ι} {s : Cell ι τ δ}
    {Q : Except χ (Snapshot τ δ) → Cell ι τ δ → Prop}
    (h : ∀ s', Rely i s s' → Inv tr s' → Q (.error (fault .unavailable)) s')
    (hok : ∀ s', Rely i s s' → Inv tr s' →
      Q (.ok ⟨s'.clock, s'.history.length, current s'.history⟩)
        { s' with seen := Function.update s'.seen i s'.clock }) :
    (discipline tr).Obeys i (get fault) Q s := by
  intro s₁ hr hI
  refine ⟨trivial, fun s₂ r hs hI₂ => ?_⟩
  cases r with
  | none =>
    obtain rfl : s₂ = s₁ := hs
    exact h s₂ hr hI
  | some r =>
    obtain ⟨rfl, rfl⟩ := hs
    exact hok s₁ hr hI

variable (tr) in
/-- A caller that returns had nothing to write, or has written. -/
def Returned (i : ι) (o : Except χ β) (s : Cell ι τ δ) : Prop :=
  ∀ b, o = .ok b → (∃ t d, tr i t d = .ok (b, none)) ∨
    ∃ l c h, s.history = l ++ c :: h ∧ c.writer = i ∧ tr i c.time (current h) = .ok (b, some c.doc)

theorem returned_stable (i : ι) (o : Except χ β) :
    (discipline tr).Stable i (Returned tr i o) := by
  rintro s s' ⟨-, -, l, hl, -⟩ h b hb
  rcases h b hb with hnone | ⟨l', c, h', hh, hrest⟩
  · exact .inl hnone
  · exact .inr ⟨l ++ l', c, h', by rw [hl, hh, List.append_assoc], hrest⟩

/-- A caller that has not written yet writes at most once, and only what its transform gives. -/
theorem obeys_attempt (i : ι) : ∀ (n : ℕ) {s : Cell ι τ δ}, (∀ c ∈ s.history, c.writer ≠ i) →
    (discipline tr).Obeys i (attempt fault (tr i) n) (Returned tr i) s
  | 0, _, _ => fun _ h => by cases h
  | n + 1, s, hf => by
    have hraise : ∀ (x : χ) (s : Cell ι τ δ), Returned tr i (.error x) s :=
      fun _ _ _ h => by cases h
    unfold attempt
    refine Discipline.Obeys.bind _ (obeys_remaining fault fun s₁ hr₁ _ => ⟨?_, hraise _ _⟩)
    have hf₁ := hr₁.fresh hf
    refine Discipline.Obeys.bind _
      (obeys_get fault (fun _ _ _ => hraise _ _) fun s₂ hr₂ hI₂ => ?_)
    have hf₂ := hr₂.fresh hf₁
    have hread : HasRead i s₂.clock s₂.history.length (current s₂.history)
        { s₂ with seen := Function.update s₂.seen i s₂.clock } :=
      ⟨by simp, hf₂, le_refl _, fun _ => ⟨rfl, hI₂.times⟩⟩
    refine Discipline.Obeys.bind _ (obeys_remaining fault fun s₃ hr₃ _ => ⟨?_, hraise _ _⟩)
    replace hread := hread.rely hr₃
    rcases htr : tr i s₂.clock (current s₂.history) with x | ⟨b, replacement⟩
    · exact hraise _ _
    refine Discipline.Obeys.bind (Prog.lift (.ok _)) ?_
    refine Discipline.Obeys.bind _ (obeys_remaining fault fun s₄ hr₄ _ => ⟨?_, hraise _ _⟩)
    replace hread := hread.rely hr₄
    rcases replacement with _ | doc
    · rintro _ ⟨⟩
      exact .inl ⟨_, _, htr⟩
    refine Discipline.Obeys.bind _ (obeys_remaining fault fun s₅ hr₅ _ => ⟨?_, hraise _ _⟩)
    replace hread := hread.rely hr₅
    intro s₆ hr₆ _
    replace hread := hread.rely hr₆
    refine ⟨fun hn => ?_, fun s₇ r hs _ => ?_⟩
    · obtain ⟨hcur, ht⟩ := hread.version hn
      refine ⟨hread.fresh, ?_, b, ?_⟩
      · rw [hread.seen]
        exact ht
      · rw [hread.seen, hcur]
        exact htr
    · cases r with
      | committed =>
        obtain ⟨hn, rfl⟩ := hs
        have hret : Returned tr i (.ok b) (s₆.commit i doc) := by
          rintro _ ⟨⟩
          refine .inr ⟨[], _, _, rfl, rfl, ?_⟩
          rw [(hread.version hn).1, hread.seen]
          exact htr
        exact Discipline.Obeys.bind _ (obeys_remaining fault fun _ hr _ =>
          ⟨returned_stable i _ _ _ hr hret, hraise _ _⟩)
      | conflict =>
        obtain rfl : s₇ = s₆ := hs
        exact obeys_attempt i n hread.fresh
      | unknown => exact hraise _ _

theorem obeys_compareAndSwap (i : ι) (n : ℕ) {s : Cell ι τ δ}
    (hf : ∀ c ∈ s.history, c.writer ≠ i) :
    (discipline tr).Obeys i (compareAndSwap fault n (tr i)) (Returned tr i) s := by
  unfold compareAndSwap
  refine Discipline.Obeys.bind _ (obeys_remaining fault fun s₁ hr _ => ⟨?_, fun _ h => ?_⟩)
  · exact obeys_attempt fault i n (hr.fresh hf)
  · cases h

end Contract

section Runs

variable {ι τ δ χ β : Type} [DecidableEq ι] [Preorder τ]

/-- The server before anything is written, each caller at the start of `p`. -/
def start (t : τ) (p : ι → Prog (Answer τ δ) χ β) : Conf ι (Cell ι τ δ) (Answer τ δ) χ β :=
  ⟨⟨t, [], fun _ => t⟩, p⟩

/-- Each caller either fails before its first request or runs `tr` by compare-and-swap. -/
def Calls (fault : Fault → χ) (n : ℕ) (tr : ι → τ → Option δ → Except χ (β × Option δ))
    (p : ι → Prog (Answer τ δ) χ β) : Prop :=
  ∀ i, (∃ x, p i = .raise x) ∨ p i = compareAndSwap fault n (tr i)

variable {fault : Fault → χ} {n : ℕ} {tr : ι → τ → Option δ → Except χ (β × Option δ)}
variable {p : ι → Prog (Answer τ δ) χ β} {t : τ} {c c' : Conf ι (Cell ι τ δ) (Answer τ δ) χ β}

theorem good_start (hp : Calls fault n tr p) : Good (discipline tr) (Returned tr) (start t p) := by
  refine ⟨⟨.nil, fun _ => le_refl _, by simp [start]⟩, fun i => ?_⟩
  rcases hp i with ⟨x, hx⟩ | hx
  · simp only [start, hx]
    rintro _ ⟨⟩
  · simp only [start, hx]
    exact obeys_compareAndSwap fault i n (by simp)

theorem good_of_reach (hp : Calls fault n tr p)
    (h : Reach (server ι τ δ) (always _ _ _) (start t p) c) :
    Good (discipline tr) (Returned tr) c :=
  good_reach returned_stable (good_start hp) h

/-- Every run's history is serial. -/
theorem serial_of_reach (hp : Calls fault n tr p)
    (h : Reach (server ι τ δ) (always _ _ _) (start t p) c) : Serial tr c.state.history :=
  (good_of_reach hp h).1.serial

theorem times_of_reach (hp : Calls fault n tr p)
    (h : Reach (server ι τ δ) (always _ _ _) (start t p) c) :
    ∀ x ∈ c.state.history, x.time ≤ c.state.clock :=
  (good_of_reach hp h).1.times

/-- What a caller returned is what it wrote, or it had nothing to write. -/
theorem returned_of_reach (hp : Calls fault n tr p)
    (h : Reach (server ι τ δ) (always _ _ _) (start t p) c) {i : ι} {b : β}
    (hb : c.pool i = .done b) : (∃ t d, tr i t d = .ok (b, none)) ∨
      ∃ l x h, c.state.history = l ++ x :: h ∧ x.writer = i ∧
        tr i x.time (current h) = .ok (b, some x.doc) := by
  have ho := (good_of_reach hp h).2 i
  rw [hb] at ho
  exact ho b rfl

/-- A later history has the earlier one at its end. -/
theorem suffix_of_reach (hp : Calls fault n tr p)
    (h : Reach (server ι τ δ) (always _ _ _) (start t p) c)
    (h' : Reach (server ι τ δ) (always _ _ _) c c') : c.state.history <:+ c'.state.history := by
  refine reach_relation (D := discipline tr) returned_stable
    (R := fun s s' => s.history <:+ s'.history) (fun _ => List.suffix_refl _)
    (fun _ _ _ => List.IsSuffix.trans) (fun i s e s' r _ _ _ hs => ?_) ?_ (good_of_reach hp h) h'
  · match e, r, hs with
    | .remaining, _, hs => exact hs ▸ List.suffix_refl _
    | .get, none, hs => exact hs ▸ List.suffix_refl _
    | .get, some _, hs => exact hs.2 ▸ List.suffix_refl _
    | .write _ _, .committed, hs => exact hs.2 ▸ List.suffix_cons _ _
    | .write _ _, .conflict, hs => exact hs ▸ List.suffix_refl _
    | .write _ _, .unknown, hs =>
      rcases hs with rfl | ⟨-, rfl⟩
      exacts [List.suffix_refl _, List.suffix_cons _ _]
  · rintro s _ _ ⟨_, _, rfl⟩
    exact List.suffix_refl _

end Runs

end Cas
