import EngPlatform.Lib.Lifetimes
import EngPlatform.Sorting.External

/-!
# The stored runs of a sort

Every run that a successful sort has written is deleted once, after all its rows have gone to another
run or to the output, and is not read again. There are never more than eight runs for each level
reached: a level is compacted when it has eight, while the run that replaces them is already there.

`Keeps` is what holds between any two steps: the stored runs are those that the levels have. A step
that only reads is `Quiet`.
-/

set_option linter.dupNamespace false

namespace Sorting

open Effects Lifetimes

/-! ## The history -/

def written (h : List Event) : List ℕ :=
  h.filterMap fun
    | .wrote run _ => some run.reference
    | _ => none

def deleted (h : List Event) : List ℕ :=
  h.filterMap fun
    | .deleted r => some r
    | _ => none

def live (h : List Event) : List ℕ := (written h).filter fun r => r ∉ deleted h

/-- The number of levels that the runs have reached. -/
def reached : List Event → ℕ
  | [] => 0
  | .wrote run _ :: h => max (run.level + 1) (reached h)
  | _ :: h => reached h

/-- The rows of the runs that were not merged from others. -/
def inputRows : List Event → ℕ
  | [] => 0
  | .wrote run _ :: h => (if run.level = 0 then run.rowCount else 0) + inputRows h
  | _ :: h => inputRows h

def outputRows : List Event → ℕ
  | [] => 0
  | .delivered rows :: h => rows + outputRows h
  | _ :: h => outputRows h

/-- The rows of the run are all in another run, or in the output. -/
def Superseded (h : List Event) (r : ℕ) : Prop :=
  (∃ new replaces old, .wrote new replaces ∈ h ∧ old ∈ replaces ∧ old.reference = r ∧
    new.rowCount = (replaces.map Run.rowCount).sum) ∨
  outputRows h = inputRows h

/-- The events of a successful sort, oldest first. -/
structure Hygienic (h : List Event) : Prop where
  once : (written h).Nodup
  all : (deleted h).Perm (written h)
  late : ∀ before r after, h = before ++ Event.deleted r :: after → Superseded before r
  unread : ∀ before r after, h = before ++ Event.deleted r :: after → .read r ∉ after
  bounded : ∀ before after, h = before ++ after →
    (live before).length ≤ mergeFanIn * reached before
  merged : ∀ run replaces, .wrote run replaces ∈ h →
    replaces.length ≤ mergeFanIn ∧ ∀ old ∈ replaces, ∃ olds, .wrote old olds ∈ h

def lifetime : Event → Option (Step ℕ)
  | .wrote run _ => some (.take run.reference)
  | .read r => some (.use r)
  | .delivered _ => none
  | .deleted r => some (.drop r)

def lifetimes (h : List Event) : List (Step ℕ) := h.filterMap lifetime

def Legal : Event → List Event → Prop
  | .wrote _ replaces, h => replaces.length ≤ mergeFanIn ∧ ∀ old ∈ replaces, ∃ olds, .wrote old olds ∈ h
  | .deleted r, h => Superseded h r
  | _, _ => True

/-- Of a history that is newest first. -/
def Tidy : List Event → Prop
  | [] => True
  | e :: h => Legal e h ∧ (held (lifetimes (e :: h))).length ≤ mergeFanIn * reached (e :: h) ∧ Tidy h

theorem taken_lifetimes : ∀ h, taken (lifetimes h) = written h
  | [] => rfl
  | .wrote run _ :: h => congrArg (run.reference :: ·) (taken_lifetimes h)
  | .read _ :: h => taken_lifetimes h
  | .delivered _ :: h => taken_lifetimes h
  | .deleted _ :: h => taken_lifetimes h

theorem dropped_lifetimes : ∀ h, dropped (lifetimes h) = deleted h
  | [] => rfl
  | .wrote _ _ :: h => dropped_lifetimes h
  | .read _ :: h => dropped_lifetimes h
  | .delivered _ :: h => dropped_lifetimes h
  | .deleted r :: h => congrArg (r :: ·) (dropped_lifetimes h)

theorem reached_append (l h : List Event) : reached (l ++ h) = max (reached l) (reached h) := by
  induction l with
  | nil => simp [reached]
  | cons e l ih => cases e <;> simp [reached, ih, max_assoc]

theorem inputRows_append (l h : List Event) : inputRows (l ++ h) = inputRows l + inputRows h := by
  induction l with
  | nil => simp [inputRows]
  | cons e l ih => cases e <;> simp [inputRows, ih, add_assoc]

theorem outputRows_append (l h : List Event) : outputRows (l ++ h) = outputRows l + outputRows h := by
  induction l with
  | nil => simp [outputRows]
  | cons e l ih => cases e <;> simp [outputRows, ih, add_assoc]

theorem reached_reverse (h : List Event) : reached h.reverse = reached h := by
  induction h with
  | nil => rfl
  | cons e h ih => cases e <;> simp [reached_append, reached, ih, max_comm]

theorem inputRows_reverse (h : List Event) : inputRows h.reverse = inputRows h := by
  induction h with
  | nil => rfl
  | cons e h ih => cases e <;> simp [inputRows_append, inputRows, ih, add_comm]

theorem outputRows_reverse (h : List Event) : outputRows h.reverse = outputRows h := by
  induction h with
  | nil => rfl
  | cons e h ih => cases e <;> simp [outputRows_append, outputRows, ih, add_comm]

theorem superseded_reverse {h : List Event} {r : ℕ} : Superseded h.reverse r ↔ Superseded h r := by
  unfold Superseded
  simp only [List.mem_reverse, inputRows_reverse, outputRows_reverse]

theorem Tidy.of_append {l h : List Event} (ht : Tidy (l ++ h)) : Tidy h := by
  induction l with
  | nil => exact ht
  | cons e l ih => exact ih ht.2.2

theorem Tidy.bounded {h : List Event} (ht : Tidy h) :
    (held (lifetimes h)).length ≤ mergeFanIn * reached h := by
  cases h with
  | nil => simp [lifetimes, held]
  | cons e h => exact ht.2.1

theorem live_length {h : List Event} (hp : Proper (lifetimes h)) :
    (live h.reverse).length = (held (lifetimes h)).length := by
  have hperm := held_perm hp
  rw [taken_lifetimes, dropped_lifetimes] at hperm
  rw [hperm.length_eq]
  unfold live written deleted
  simp [List.filterMap_reverse, List.filter_reverse]

theorem Proper.of_events {l h : List Event} (hp : Proper (lifetimes (l ++ h))) : Proper (lifetimes h) := by
  unfold lifetimes at hp ⊢
  rw [List.filterMap_append] at hp
  exact hp.of_append

/-- What holds of the history when all runs are gone. -/
theorem hygienic {h : List Event} (hp : Proper (lifetimes h)) (ht : Tidy h)
    (hnone : held (lifetimes h) = []) : Hygienic h.reverse where
  once := by
    have hnodup := taken_nodup hp
    rw [taken_lifetimes] at hnodup
    unfold written at hnodup ⊢
    rw [List.filterMap_reverse]
    exact List.nodup_reverse.mpr hnodup
  all := by
    have hperm := dropped_perm_taken hp hnone
    rw [taken_lifetimes, dropped_lifetimes] at hperm
    unfold written deleted at hperm ⊢
    rw [List.filterMap_reverse, List.filterMap_reverse]
    exact (List.reverse_perm _).trans (hperm.trans (List.reverse_perm _).symm)
  late before r after heq := by
    have hback : h = after.reverse ++ .deleted r :: before.reverse := by
      have := congrArg List.reverse heq
      simpa using this
    rw [hback] at ht
    have hlegal := (Tidy.of_append ht).1
    exact superseded_reverse.mp hlegal
  unread before r after heq := by
    have hback : h = after.reverse ++ .deleted r :: before.reverse := by
      have := congrArg List.reverse heq
      simpa using this
    rw [hback] at hp
    unfold lifetimes at hp
    rw [List.filterMap_append] at hp
    have hproper : Proper (lifetimes after.reverse ++ .drop r :: lifetimes before.reverse) := hp
    intro hmem
    refine not_used_after hproper (List.mem_filterMap.mpr ⟨.read r, ?_, rfl⟩)
    exact List.mem_reverse.mpr hmem
  bounded before after heq := by
    have hback : h = after.reverse ++ before.reverse := by
      have := congrArg List.reverse heq
      simpa using this
    rw [hback] at hp ht
    have hlive := live_length (Proper.of_events hp)
    have hb := (Tidy.of_append ht).bounded
    rw [List.reverse_reverse] at hlive
    rw [reached_reverse] at hb
    omega
  merged run replaces hmem := by
    obtain ⟨newer, older, rfl⟩ := List.append_of_mem (List.mem_reverse.mp hmem)
    obtain ⟨hlen, hknown⟩ := (Tidy.of_append ht).1
    refine ⟨hlen, fun old hold => ?_⟩
    obtain ⟨olds, hw⟩ := hknown old hold
    exact ⟨olds, by simp [hw]⟩

/-! ## What the steps keep -/

def State.past (s : State) : List Event := s.history.map Prod.fst

def Safe (x : Failure) : Prop := x ≠ .depth

/-- The runs are those that are stored. -/
structure Keeps (s : State) (runs : List Run) : Prop where
  proper : Proper (lifetimes s.past)
  tidy : Tidy s.past
  numbered : ∀ r ∈ taken (lifetimes s.past), r < s.runCount
  held : (held (lifetimes s.past)).Perm (runs.map Run.reference)
  known : ∀ run ∈ runs, ∃ olds, .wrote run olds ∈ s.past

/-- What neither reading nor deleting changes. -/
structure Frame (s s' : State) : Prop where
  levels : s'.levels = s.levels
  rowCount : s'.rowCount = s.rowCount
  reached : reached s'.past = reached s.past
  inputs : inputRows s'.past = inputRows s.past
  outputs : outputRows s'.past = outputRows s.past
  past : ∀ e ∈ s.past, e ∈ s'.past

def logged (e : Event) (s : State) : State := { s with history := (e, s.levels.length) :: s.history }

@[simp] theorem past_logged (e : Event) (s : State) : (logged e s).past = e :: s.past := rfl

namespace Frame

theorem rfl {s : State} : Frame s s := ⟨Eq.refl _, Eq.refl _, Eq.refl _, Eq.refl _, Eq.refl _, fun _ h => h⟩

theorem trans {s s' s'' : State} (h : Frame s s') (h' : Frame s' s'') : Frame s s'' where
  levels := h'.levels.trans h.levels
  rowCount := h'.rowCount.trans h.rowCount
  reached := h'.reached.trans h.reached
  inputs := h'.inputs.trans h.inputs
  outputs := h'.outputs.trans h.outputs
  past e he := h'.past e (h.past e he)

theorem superseded {s s' : State} (h : Frame s s') {r : ℕ} (hs : Superseded s.past r) :
    Superseded s'.past r := by
  rcases hs with ⟨new, replaces, old, hmem, hold, hr, hsum⟩ | hout
  · exact .inl ⟨new, replaces, old, h.past _ hmem, hold, hr, hsum⟩
  · exact .inr (h.outputs.trans (hout.trans h.inputs.symm))

end Frame

namespace Keeps

variable {s : State} {runs : List Run}

theorem count (hk : Keeps s runs) : (Lifetimes.held (lifetimes s.past)).length = runs.length := by
  rw [hk.held.length_eq, List.length_map]

theorem perm {runs' : List Run} (hk : Keeps s runs) (hp : runs.Perm runs') : Keeps s runs' :=
  { hk with
    held := hk.held.trans (hp.map _)
    known := fun run hr => hk.known run (hp.mem_iff.mpr hr) }

theorem congr {s' : State} (hk : Keeps s runs) (hh : s'.history = s.history)
    (hc : s'.runCount = s.runCount) : Keeps s' runs := by
  have hpast : s'.past = s.past := congrArg (List.map Prod.fst) hh
  constructor
  · rw [hpast]
    exact hk.proper
  · rw [hpast]
    exact hk.tidy
  · rw [hpast, hc]
    exact hk.numbered
  · rw [hpast]
    exact hk.held
  · rw [hpast]
    exact hk.known

theorem held_of_mem (hk : Keeps s runs) {run : Run} (hr : run ∈ runs) :
    run.reference ∈ Lifetimes.held (lifetimes s.past) :=
  hk.held.mem_iff.mpr (List.mem_map_of_mem hr)

theorem bounded (hk : Keeps s runs) : runs.length ≤ mergeFanIn * reached s.past := by
  have hb := hk.tidy.bounded
  rw [hk.count] at hb
  exact hb

theorem read (hk : Keeps s runs) {run : Run} (hr : run ∈ runs) :
    Keeps (logged (.read run.reference) s) runs where
  proper := ⟨hk.held_of_mem hr, hk.proper⟩
  tidy := ⟨trivial, hk.tidy.bounded, hk.tidy⟩
  numbered := hk.numbered
  held := hk.held
  known old ho := by
    obtain ⟨olds, hw⟩ := hk.known old ho
    exact ⟨olds, List.mem_cons_of_mem _ hw⟩

theorem delivered (hk : Keeps s runs) (rows : ℕ) : Keeps (logged (.delivered rows) s) runs where
  proper := hk.proper
  tidy := ⟨trivial, hk.tidy.bounded, hk.tidy⟩
  numbered := hk.numbered
  held := hk.held
  known old ho := by
    obtain ⟨olds, hw⟩ := hk.known old ho
    exact ⟨olds, List.mem_cons_of_mem _ hw⟩

theorem deleted {run : Run} (hk : Keeps s (run :: runs)) (hs : Superseded s.past run.reference) :
    Keeps (logged (.deleted run.reference) s) runs := by
  have hheld : ((Lifetimes.held (lifetimes s.past)).erase run.reference).Perm
      (runs.map Run.reference) := by
    have herase := hk.held.erase run.reference
    rw [List.map_cons, List.erase_cons_head] at herase
    exact herase
  refine ⟨⟨hk.held_of_mem (List.mem_cons_self ..), hk.proper⟩, ⟨hs, ?_, hk.tidy⟩, hk.numbered, hheld, ?_⟩
  · have hb := hk.bounded
    have hlen : (Lifetimes.held (lifetimes (.deleted run.reference :: s.past))).length = runs.length := by
      have := hheld.length_eq
      rw [List.length_map] at this
      exact this
    rw [List.length_cons] at hb
    show (Lifetimes.held (lifetimes (.deleted run.reference :: s.past))).length ≤
      mergeFanIn * reached s.past
    omega
  · intro old ho
    obtain ⟨olds, hw⟩ := hk.known old (List.mem_cons_of_mem _ ho)
    exact ⟨olds, List.mem_cons_of_mem _ hw⟩

theorem wrote (hk : Keeps s runs) {replaces : List Run} (rows level : ℕ)
    (hlen : replaces.length ≤ mergeFanIn) (hsub : ∀ old ∈ replaces, old ∈ runs)
    (hb : runs.length + 1 ≤ mergeFanIn * max (level + 1) (reached s.past)) :
    Keeps { logged (.wrote ⟨s.runCount, rows, level⟩ replaces) s with runCount := s.runCount + 1 }
      (⟨s.runCount, rows, level⟩ :: runs) := by
  have hfresh : s.runCount ∉ taken (lifetimes s.past) := fun hmem =>
    Nat.lt_irrefl _ (hk.numbered _ hmem)
  refine ⟨⟨hfresh, hk.proper⟩, ⟨⟨hlen, fun old ho => hk.known old (hsub old ho)⟩, ?_, hk.tidy⟩, ?_,
    hk.held.cons _, ?_⟩
  · show (Lifetimes.held (lifetimes s.past)).length + 1 ≤ _
    rw [hk.count]
    exact hb
  · intro r hr
    rcases List.mem_cons.mp hr with rfl | hr
    · exact Nat.lt_succ_self _
    · exact Nat.lt_succ_of_lt (hk.numbered r hr)
  · intro old ho
    rcases List.mem_cons.mp ho with rfl | ho
    · exact ⟨replaces, List.mem_cons_self ..⟩
    · obtain ⟨olds, hw⟩ := hk.known old ho
      exact ⟨olds, List.mem_cons_of_mem _ hw⟩

end Keeps

/-! ## Steps that only read -/

/-- The runs are read, and nothing else is done with them. -/
structure Quiet (runs : List Run) (s s' : State) : Prop where
  frame : Frame s s'
  keeps : ∀ stored, (∀ run ∈ runs, run ∈ stored) → Keeps s stored → Keeps s' stored

namespace Quiet

theorem rfl {runs : List Run} {s : State} : Quiet runs s s := ⟨.rfl, fun _ _ hk => hk⟩

theorem trans {runs : List Run} {s s' s'' : State} (h : Quiet runs s s') (h' : Quiet runs s' s'') :
    Quiet runs s s'' :=
  ⟨h.frame.trans h'.frame, fun stored hsub hk => h'.keeps stored hsub (h.keeps stored hsub hk)⟩

/-- A step that leaves the history, the numbering and the levels alone. -/
theorem of_same {runs : List Run} {s s' : State} (hh : s'.history = s.history)
    (hc : s'.runCount = s.runCount) (hl : s'.levels = s.levels) (hr : s'.rowCount = s.rowCount) :
    Quiet runs s s' := by
  have hpast : s'.past = s.past := congrArg (List.map Prod.fst) hh
  refine ⟨⟨hl, hr, ?_, ?_, ?_, ?_⟩, fun stored _ hk => hk.congr hh hc⟩
  all_goals rw [hpast]
  exact fun _ he => he

theorem read {runs : List Run} {s : State} {run : Run} (hr : run ∈ runs) :
    Quiet runs s (logged (.read run.reference) s) where
  frame := ⟨Eq.refl _, Eq.refl _, Eq.refl _, Eq.refl _, Eq.refl _, fun _ he => List.mem_cons_of_mem _ he⟩
  keeps _ hsub hk := hk.read (hsub run hr)

end Quiet

/-- A computation that only reads the runs, with what holds of its result. -/
def Calm {α : Type} (runs : List Run) (m : Sorter α) (P : α → Prop) : Prop :=
  ∀ s, Meets Safe m s fun a s' => Quiet runs s s' ∧ P a

namespace Calm

variable {α γ : Type} {runs : List Run} {P : α → Prop} {Q : γ → Prop}

theorem pure {a : α} (h : P a) : Calm runs (Pure.pure a) P := fun _ => Meets.pure ⟨.rfl, h⟩

theorem raise {x : Thrown} : Calm runs (raise x) P := fun _ => Meets.throw (by rintro ⟨⟩)

theorem bind {m : Sorter α} {k : α → Sorter γ} (h : Calm runs m P) (hk : ∀ a, P a → Calm runs (k a) Q) :
    Calm runs (m >>= k) Q := by
  intro s
  refine Meets.bind (h s) ?_
  rintro a s' ⟨hq, hp⟩
  refine (hk a hp s').mono ?_
  rintro c s'' ⟨hq', hc⟩
  exact ⟨hq.trans hq', hc⟩

theorem mono {m : Sorter α} {P' : α → Prop} (h : Calm runs m P) (hp : ∀ a, P a → P' a) :
    Calm runs m P' :=
  fun s => (h s).mono fun a _ ha => ⟨ha.1, hp a ha.2⟩

theorem get : Calm runs (MonadState.get : Sorter State) fun _ => True := fun _ => ⟨.rfl, trivial⟩

theorem attempt (runs : List Run) {r : Except Thrown α} : Calm runs (attempt r) fun _ => True := by
  cases r with
  | ok a => exact pure trivial
  | error x => exact raise

theorem tick (runs : List Run) : Calm runs tick fun _ => True := fun _ => ⟨.of_same rfl rfl rfl rfl, trivial⟩

theorem read {run : Run} (hr : run ∈ runs) : Calm runs (log (.read run.reference)) fun _ => True :=
  fun _ => ⟨.read hr, trivial⟩

theorem forM {f : γ → Sorter PUnit} (h : ∀ c, Calm runs (f c) fun _ => True) :
    ∀ l : List γ, Calm runs (l.forM f) fun _ => True
  | [] => pure trivial
  | c :: l => bind (h c) fun _ _ => forM h l

end Calm

/-! ## Reading -/

variable {ρ κ χ β : Type} (env : Env χ) (coding : Coding ρ κ χ β) (descending : Bool)

theorem check_calm (runs : List Run) : Calm runs (check env) fun _ => True := by
  unfold check
  refine (Calm.tick runs).bind fun k _ => ?_
  cases env.check k with
  | none => exact .pure trivial
  | some x => exact .raise

theorem order_calm (runs : List Run) : Calm runs (order env) fun _ => True := by
  unfold order
  exact (Calm.tick runs).bind fun k _ => Calm.forM (fun _ => check_calm env runs) _

theorem reserve_calm (runs : List Run) (size : ℕ) : Calm runs (reserve env size) fun _ => True := by
  intro s
  unfold reserve
  refine Meets.get_bind (Meets.ite (fun _ => ?_) fun _ => ?_)
  · exact Meets.throw (by rintro ⟨⟩)
  · exact ⟨.of_same rfl rfl rfl rfl, trivial⟩

theorem fill_calm {runs : List Run} {run : Run} (hr : run ∈ runs) :
    ∀ (chunks : List (Except Thrown χ)) (buffer : β),
      Calm runs (fill env coding run chunks buffer) fun _ => True
  | [], buffer => by
    unfold fill
    refine (Calm.attempt runs).bind fun found _ => ?_
    rcases found with _ | ⟨value, rest⟩
    · dsimp only
      split
      · exact .pure trivial
      · exact .raise
    · exact .pure trivial
  | chunk :: chunks, buffer => by
    unfold fill
    refine (Calm.attempt runs).bind fun found _ => ?_
    rcases found with _ | ⟨value, rest⟩
    · refine (Calm.read hr).bind fun _ _ => ?_
      refine (Calm.attempt runs).bind fun chunk _ => ?_
      refine (check_calm env runs).bind fun _ _ => ?_
      exact (Calm.attempt runs).bind fun buffer _ => fill_calm hr chunks buffer
    · exact .pure trivial

/-- The records that a reader may still yield. -/
def Reader.left (reader : Reader χ β) : ℕ := reader.run.rowCount - reader.count

theorem next_calm {runs : List Run} (reader : Reader χ β) (hr : reader.run ∈ runs) :
    Calm runs (reader.next env coding) fun r => ∀ record reader', r = some (record, reader') →
      reader'.run = reader.run ∧ reader'.left + 1 = reader.left := by
  unfold Reader.next
  have hchunks : Calm runs (reader.chunksOf env) fun _ => True := by
    unfold Reader.chunksOf
    cases reader.chunks with
    | some chunks => exact .pure trivial
    | none => exact (Calm.read hr).bind fun _ _ => (Calm.tick runs).bind fun _ _ => .pure trivial
  refine hchunks.bind fun chunks _ => (fill_calm env coding hr chunks _).bind fun found _ => ?_
  rcases found with _ | ⟨⟨ordinal, row⟩, chunks, buffer⟩
  · dsimp only
    split
    · exact .raise
    · exact .pure (by rintro _ _ ⟨⟩)
  · refine Calm.get.bind fun s _ => ?_
    split
    · exact .raise
    · refine (Calm.attempt runs).bind fun record _ => ?_
      split
      · exact .raise
      · next hcount =>
        refine (check_calm env runs).bind fun _ _ => .pure ?_
        rintro _ _ ⟨⟩
        refine ⟨rfl, ?_⟩
        unfold Reader.left
        dsimp only
        omega

section Merging

variable [DecidableEq ρ] [DecidableEq κ] [LT κ] [DecidableLT κ]

def leftOf (readers : List (Reader χ β)) : ℕ := (readers.map Reader.left).sum

def Merge.left (m : Merge ρ κ χ β) : ℕ := m.heap.length + leftOf m.readers

def Source.left : Source ρ κ χ β → ℕ
  | .pending records => records.length
  | .group runs => (runs.map Run.rowCount).sum
  | .merging m => m.left

def Source.Within (runs : List Run) : Source ρ κ χ β → Prop
  | .pending _ => True
  | .group members => ∀ run ∈ members, run ∈ runs
  | .merging m => ∀ reader ∈ m.readers, reader.run ∈ runs

theorem heappush_length (entry : Record ρ κ × ℕ) (heap : List (Record ρ κ × ℕ)) :
    (heappush descending entry heap).length = heap.length + 1 :=
  List.orderedInsert_length ..

theorem leftOf_set {readers : List (Reader χ β)} {index : ℕ} {old : Reader χ β}
    (new : Reader χ β) (h : readers[index]? = some old) :
    leftOf (readers.set index new) + old.left = leftOf readers + new.left := by
  induction readers generalizing index with
  | nil => simp at h
  | cons reader readers ih =>
    cases index with
    | zero =>
      obtain rfl : reader = old := by simpa using h
      simp only [leftOf, List.set_cons_zero, List.map_cons, List.sum_cons]
      omega
    | succ index =>
      have := ih (by simpa using h)
      simp only [leftOf, List.set_cons_succ, List.map_cons, List.sum_cons] at this ⊢
      omega

theorem openReaders_calm {runs : List Run} :
    ∀ (readers : List (Reader χ β)) (index : ℕ) (heap : List (Record ρ κ × ℕ)),
      (∀ reader ∈ readers, reader.run ∈ runs) →
      Calm runs (openReaders env coding descending readers index heap) fun r =>
        (∀ reader ∈ r.1, reader.run ∈ runs) ∧
          r.2.length + leftOf r.1 ≤ heap.length + leftOf readers
  | [], index, heap, _ => .pure ⟨by simp, Nat.le_refl _⟩
  | reader :: readers, index, heap, hw => by
    have hhead := hw reader (List.mem_cons_self ..)
    have htail : ∀ r ∈ readers, r.run ∈ runs := fun r hr => hw r (List.mem_cons_of_mem _ hr)
    unfold openReaders
    refine (next_calm env coding reader hhead).bind fun r hr => ?_
    rcases r with _ | ⟨record, reader'⟩
    · refine (openReaders_calm readers (index + 1) heap htail).bind ?_
      rintro ⟨rest, heap'⟩ ⟨hrest, hleft⟩
      refine .pure ⟨?_, ?_⟩
      · intro r hr
        rcases List.mem_cons.mp hr with rfl | hr
        · exact hhead
        · exact hrest r hr
      · simp only [leftOf, List.map_cons, List.sum_cons] at hleft ⊢
        omega
    · obtain ⟨hrun, hone⟩ := hr record reader' rfl
      refine (order_calm env runs).bind fun _ _ => ?_
      refine (openReaders_calm readers (index + 1) _ htail).bind ?_
      rintro ⟨rest, heap'⟩ ⟨hrest, hleft⟩
      refine .pure ⟨?_, ?_⟩
      · intro r hr
        rcases List.mem_cons.mp hr with rfl | hr
        · rw [hrun]
          exact hhead
        · exact hrest r hr
      · rw [heappush_length] at hleft
        simp only [leftOf, List.map_cons, List.sum_cons] at hleft ⊢
        omega

theorem start_calm {runs group : List Run} (hw : ∀ run ∈ group, run ∈ runs) :
    Calm runs (Merge.start env coding descending group) fun m =>
      (∀ reader ∈ m.readers, reader.run ∈ runs) ∧ m.left ≤ (group.map Run.rowCount).sum := by
  unfold Merge.start
  split
  · exact .raise
  · refine (reserve_calm env runs _).bind fun _ _ => ?_
    refine (openReaders_calm env coding descending _ 0 [] ?_).bind ?_
    · intro reader hr
      obtain ⟨run, hrun, rfl⟩ := List.mem_map.mp hr
      exact hw run hrun
    · rintro ⟨readers, heap⟩ ⟨hreaders, hleft⟩
      refine .pure ⟨hreaders, ?_⟩
      have hsum : leftOf (group.map fun run => (⟨run, none, coding.empty, 0⟩ : Reader χ β)) =
          (group.map Run.rowCount).sum := by
        unfold leftOf
        rw [List.map_map]
        rfl
      rw [hsum, List.length_nil, Nat.zero_add] at hleft
      exact hleft

theorem refilled_calm {runs : List Run} (m : Merge ρ κ χ β) (hw : ∀ reader ∈ m.readers, reader.run ∈ runs) :
    Calm runs (m.refilled env coding descending) fun m' =>
      (∀ reader ∈ m'.readers, reader.run ∈ runs) ∧ m'.left ≤ m.left := by
  unfold Merge.refilled
  cases hfound : m.refill.bind fun index => (m.readers[index]?).map fun reader => (index, reader) with
  | none => exact .pure ⟨hw, Nat.le_refl _⟩
  | some found =>
    obtain ⟨index, reader⟩ := found
    obtain ⟨i, -, hi⟩ := Option.bind_eq_some_iff.mp hfound
    obtain ⟨old, hold, heq⟩ := Option.map_eq_some_iff.mp hi
    cases heq
    have hrun := hw _ (List.mem_of_getElem? hold)
    refine (next_calm env coding _ hrun).bind fun r hr => ?_
    rcases r with _ | ⟨record, reader'⟩
    · exact .pure ⟨hw, Nat.le_refl _⟩
    · obtain ⟨hsame, hone⟩ := hr record reader' rfl
      refine (order_calm env runs).bind fun _ _ => .pure ⟨?_, ?_⟩
      · intro r hr
        rcases List.mem_or_eq_of_mem_set hr with hr | rfl
        · exact hw r hr
        · rw [hsame]
          exact hrun
      · have hset := leftOf_set reader' hold
        simp only [Merge.left, heappush_length]
        omega

theorem merge_next_calm {runs : List Run} (m : Merge ρ κ χ β) (hw : ∀ reader ∈ m.readers, reader.run ∈ runs) :
    Calm runs (m.next env coding descending) fun r => ∀ record m', r = some (record, m') →
      (∀ reader ∈ m'.readers, reader.run ∈ runs) ∧ m'.left < m.left := by
  unfold Merge.next
  refine (refilled_calm env coding descending m hw).bind fun m₁ h₁ => ?_
  obtain ⟨hw₁, hleft⟩ := h₁
  rcases hheap : m₁.heap with _ | ⟨⟨record, index⟩, heap⟩
  · exact .pure (by rintro _ _ ⟨⟩)
  · refine (check_calm env runs).bind fun _ _ => (order_calm env runs).bind fun _ _ => .pure ?_
    rintro _ _ ⟨⟩
    refine ⟨hw₁, ?_⟩
    simp only [Merge.left, hheap, List.length_cons] at hleft ⊢
    omega

theorem source_next_calm {runs : List Run} (source : Source ρ κ χ β) (hw : source.Within runs) :
    Calm runs (source.next env coding descending) fun r => ∀ record source', r = some (record, source') →
      source'.Within runs ∧ source'.left < source.left := by
  have hmerging (m : Merge ρ κ χ β) {bound : ℕ} (hb : m.left ≤ bound)
      {r : Option (Record ρ κ × Merge ρ κ χ β)}
      (hr : ∀ record m', r = some (record, m') →
        (∀ reader ∈ m'.readers, reader.run ∈ runs) ∧ m'.left < m.left) :
      ∀ {f : Record ρ κ × Merge ρ κ χ β → Record ρ κ × Source ρ κ χ β},
        (∀ record m, f (record, m) = (record, .merging m)) →
        ∀ record source', r.map f = some (record, source') → source'.Within runs ∧ source'.left < bound := by
    intro f hf record source' heq
    obtain ⟨⟨record', m'⟩, hm, heq⟩ := Option.map_eq_some_iff.mp heq
    rw [hf] at heq
    cases heq
    obtain ⟨hwithin, hlt⟩ := hr record m' hm
    exact ⟨hwithin, Nat.lt_of_lt_of_le hlt hb⟩
  rcases source with records | group | m
  · rcases records with _ | ⟨record, records⟩
    · exact .pure (by rintro _ _ ⟨⟩)
    · refine .pure ?_
      rintro _ _ ⟨⟩
      exact ⟨trivial, Nat.lt_succ_self _⟩
  · unfold Source.next
    refine (start_calm env coding descending hw).bind fun m hm => ?_
    refine (merge_next_calm env coding descending m hm.1).bind fun r hr => .pure ?_
    exact hmerging m hm.2 hr fun _ _ => rfl
  · unfold Source.next
    refine (merge_next_calm env coding descending m hw).bind fun r hr => .pure ?_
    exact hmerging m (Nat.le_refl _) hr fun _ _ => rfl

theorem lines_calm {runs : List Run} : ∀ (pulls : ℕ) (source : Source ρ κ χ β) (emitted : ℕ),
    source.Within runs → Calm runs (lines env coding descending pulls source emitted) fun _ => True
  | 0, _, _, _ => .pure trivial
  | pulls + 1, source, emitted, hw => by
    unfold lines
    refine (source_next_calm env coding descending source hw).bind fun r hr => ?_
    rcases r with _ | ⟨record, source'⟩
    · exact .pure trivial
    · refine (check_calm env runs).bind fun _ _ => ?_
      exact lines_calm pulls source' (emitted + 1) (hr record source' rfl).1

/-! ## Writing and deleting -/

/-- What a write changes: one run more, of so many rows. -/
structure Wrote (n depth : ℕ) (replaces : List Run) (run : Run) (s s' : State) : Prop where
  level : run.level = depth
  count : run.rowCount = n
  levels : s'.levels = s.levels
  rowCount : s'.rowCount = s.rowCount
  reached : reached s'.past = max (depth + 1) (reached s.past)
  inputs : inputRows s'.past = (if depth = 0 then n else 0) + inputRows s.past
  outputs : outputRows s'.past = outputRows s.past
  wrote : .wrote run replaces ∈ s'.past

theorem write_meets {s : State} {runs replaces : List Run} {source : Source ρ κ χ β} {count level : ℕ}
    (hk : Keeps s runs) (hw : source.Within runs) (hlen : replaces.length ≤ mergeFanIn)
    (hsub : ∀ old ∈ replaces, old ∈ runs)
    (hb : runs.length + 1 ≤ mergeFanIn * max (level + 1) (reached s.past)) :
    Meets Safe (write env coding descending source count level replaces) s fun run s' =>
      Keeps s' (run :: runs) ∧ Wrote count level replaces run s s' := by
  unfold write
  refine Meets.bind (check_calm env runs s) ?_
  rintro _ s₁ ⟨h₁, -⟩
  refine Meets.bind (Calm.tick runs s₁) ?_
  rintro k s₂ ⟨h₂, -⟩
  refine Meets.bind (lines_calm env coding descending (env.pulls k) source 0 hw s₂) ?_
  rintro emitted s₃ ⟨h₃, -⟩
  have hquiet := (h₁.trans h₂).trans h₃
  have hk₃ := hquiet.keeps runs (fun _ hr => hr) hk
  cases env.write k with
  | some x => exact Meets.throw (by rintro ⟨⟩)
  | none =>
    rw [← hquiet.frame.reached] at hb
    have hk₄ := hk₃.wrote emitted level hlen hsub hb
    refine Meets.get_bind (Meets.modify_bind (Meets.modify_bind ?_))
    refine Meets.bind (check_calm env runs _) ?_
    rintro _ s₅ ⟨h₅, -⟩
    refine Meets.ite (fun _ => Meets.throw (by rintro ⟨⟩)) fun hok => Meets.pure ?_
    obtain rfl : emitted = count := by
      by_contra hne
      exact hok (.inl hne)
    refine ⟨h₅.keeps _ (fun _ hr => List.mem_cons_of_mem _ hr) hk₄, rfl, rfl, ?_, ?_, ?_, ?_, ?_, ?_⟩
    · exact h₅.frame.levels.trans hquiet.frame.levels
    · exact h₅.frame.rowCount.trans hquiet.frame.rowCount
    · rw [h₅.frame.reached, ← hquiet.frame.reached]
      rfl
    · rw [h₅.frame.inputs, ← hquiet.frame.inputs]
      rfl
    · rw [h₅.frame.outputs, ← hquiet.frame.outputs]
      rfl
    · exact h₅.frame.past _ (List.mem_cons_self ..)

theorem discard_meets {s : State} {run : Run} {runs : List Run} (hk : Keeps s (run :: runs))
    (hs : Superseded s.past run.reference) :
    Meets Safe (discard env run) s fun _ s' => Keeps s' runs ∧ Frame s s' := by
  unfold discard deleteRun
  refine Meets.bind (check_calm env (run :: runs) s) ?_
  rintro _ s₁ ⟨h₁, -⟩
  have hk₁ := h₁.keeps _ (fun _ hr => hr) hk
  refine Meets.bind (P := fun _ (s' : State) => Keeps s' runs ∧ Frame s s') ?_ ?_
  · refine Meets.bind (Calm.tick (run :: runs) s₁) ?_
    rintro k s₂ ⟨h₂, -⟩
    have hframe := h₁.frame.trans h₂.frame
    have hk₂ := h₂.keeps _ (fun _ hr => hr) hk₁
    cases env.delete k with
    | some x => exact Meets.throw (by rintro ⟨⟩)
    | none =>
      refine Meets.update ⟨hk₂.deleted (hframe.superseded hs), hframe.trans ?_⟩
      exact ⟨rfl, rfl, rfl, rfl, rfl, fun _ he => List.mem_cons_of_mem _ he⟩
  · rintro _ s₃ ⟨hk₃, h₃⟩
    refine (check_calm env runs s₃).mono ?_
    rintro _ s₄ ⟨h₄, -⟩
    exact ⟨h₄.keeps _ (fun _ hr => hr) hk₃, h₃.trans h₄.frame⟩

/-- A group is deleted when the rows of each of its runs are elsewhere. -/
theorem discards_meets {s : State} {group rest : List Run} (hk : Keeps s (group ++ rest))
    (hs : ∀ run ∈ group, Superseded s.past run.reference) :
    Meets Safe (group.forM (discard env)) s fun _ s' => Keeps s' rest ∧ Frame s s' := by
  have hloop := Meets.forM (E := Safe) (f := discard env)
    (I := fun l s' => Keeps s' (l ++ rest) ∧ Frame s s' ∧ ∀ run ∈ l, Superseded s.past run.reference)
    (s := s) ?_ group ⟨hk, .rfl, hs⟩
  · exact hloop.mono fun _ _ h => ⟨h.1, h.2.1⟩
  · rintro run l s' ⟨hk', hframe, hall⟩
    have hrun := hframe.superseded (hall run (List.mem_cons_self ..))
    refine (discard_meets env hk' hrun).mono ?_
    rintro _ s'' ⟨hk'', hframe'⟩
    exact ⟨hk'', hframe.trans hframe', fun r hr => hall r (List.mem_cons_of_mem _ hr)⟩

def nextLevel (group : List Run) : ℕ := (group.map Run.level).foldr max 0 + 1

theorem compact_meets {s : State} {group rest : List Run} (hk : Keeps s (group ++ rest))
    (hlen : group.length ≤ mergeFanIn)
    (hb : (group ++ rest).length + 1 ≤ mergeFanIn * max (nextLevel group + 1) (reached s.past)) :
    Meets Safe (compact env coding descending group) s fun run s' =>
      Keeps s' (run :: rest) ∧ run.level = nextLevel group ∧ s'.levels = s.levels ∧
        s'.rowCount = s.rowCount ∧ reached s'.past = max (nextLevel group + 1) (reached s.past) ∧
        inputRows s'.past = inputRows s.past ∧ outputRows s'.past = outputRows s.past := by
  have hsub : ∀ old ∈ group, old ∈ group ++ rest := fun old ho => List.mem_append_left _ ho
  unfold compact
  refine Meets.bind (write_meets env coding descending hk hsub hlen hsub hb) ?_
  rintro run s₁ ⟨hk₁, h₁⟩
  refine Meets.modify_bind ?_
  have hk₂ : Keeps { s₁ with mergePasses := max s₁.mergePasses (nextLevel group) }
      (group ++ run :: rest) :=
    (hk₁.perm List.perm_middle.symm).congr rfl rfl
  refine Meets.bind (discards_meets env hk₂ ?_) ?_
  · intro old ho
    exact .inl ⟨run, group, old, h₁.wrote, ho, rfl, h₁.count⟩
  · rintro _ s₃ ⟨hk₃, h₃⟩
    refine Meets.pure ⟨hk₃, h₁.level, h₃.levels.trans h₁.levels, h₃.rowCount.trans h₁.rowCount,
      h₃.reached.trans h₁.reached, h₃.inputs.trans ?_, h₃.outputs.trans h₁.outputs⟩
    have hinputs := h₁.inputs
    rw [if_neg (Nat.succ_ne_zero _), Nat.zero_add] at hinputs
    exact hinputs

/-! ## The levels -/

/-- Between two runs, no level has eight and each run is on its own level. -/
structure Shelved (s : State) : Prop where
  level : ∀ (i : ℕ) (group : List Run), s.levels[i]? = some group → ∀ run ∈ group, run.level = i
  short : ∀ group ∈ s.levels, group.length ≤ 7
  reach : s.levels.length ≤ reached s.past

theorem flatten_le {levels : List (List Run)} {bound : ℕ} (h : ∀ group ∈ levels, group.length ≤ bound) :
    levels.flatten.length ≤ bound * levels.length := by
  induction levels with
  | nil => simp
  | cons group levels ih =>
    have hhead := h group (List.mem_cons_self ..)
    have htail := ih fun g hg => h g (List.mem_cons_of_mem _ hg)
    rw [List.flatten_cons, List.length_append, List.length_cons, Nat.mul_succ]
    omega

theorem flatten_set {levels : List (List Run)} {i : ℕ} {group : List Run} (h : levels[i]? = some group) :
    levels.flatten.Perm (group ++ (levels.set i []).flatten) := by
  induction levels generalizing i with
  | nil => simp at h
  | cons first levels ih =>
    cases i with
    | zero =>
      obtain rfl : first = group := by simpa using h
      exact .refl _
    | succ i =>
      have hrest := ih (by simpa using h)
      rw [List.set_cons_succ, List.flatten_cons, List.flatten_cons]
      exact (hrest.append_left first).trans (by
        rw [← List.append_assoc, ← List.append_assoc]
        exact List.perm_append_comm.append_right _)

theorem place_length (levels : List (List Run)) (run : Run) :
    (place levels run).length = max levels.length (run.level + 1) := by
  unfold place
  rw [List.length_modify, List.length_append, List.length_replicate]
  omega

/-- The level at `i` before levels are appended, if it is there. -/
theorem place_get (levels : List (List Run)) (run : Run) (i : ℕ) :
    (place levels run)[i]? = if i = run.level then some (levels.getD i [] ++ [run])
      else if i < levels.length then levels[i]? else if i < run.level then some [] else none := by
  unfold place
  rw [List.getElem?_modify, List.getElem?_append, List.getElem?_replicate]
  split_ifs <;> first | omega | (subst_vars; simp_all [List.getD_eq_getElem?_getD])

theorem flatten_modify {levels : List (List Run)} {i : ℕ} (hi : i < levels.length) (run : Run) :
    (levels.modify i (· ++ [run])).flatten.Perm (run :: levels.flatten) := by
  induction levels generalizing i with
  | nil => simp at hi
  | cons first levels ih =>
    cases i with
    | zero =>
      rw [List.modify_zero_cons, List.flatten_cons, List.flatten_cons, List.append_assoc]
      exact List.perm_middle
    | succ i =>
      have hrest := ih (i := i) (by simpa using hi)
      rw [List.modify_succ_cons, List.flatten_cons, List.flatten_cons]
      exact (hrest.append_left first).trans List.perm_middle

theorem place_perm (levels : List (List Run)) (run : Run) :
    (place levels run).flatten.Perm (run :: levels.flatten) := by
  have hgrown : (levels ++ List.replicate (run.level + 1 - levels.length) []).flatten =
      levels.flatten := by
    simp
  unfold place
  rw [← hgrown]
  refine flatten_modify ?_ run
  rw [List.length_append, List.length_replicate]
  omega

theorem nextLevel_eq {group : List Run} {i : ℕ} (hne : group ≠ []) (h : ∀ run ∈ group, run.level = i) :
    nextLevel group = i + 1 := by
  have hmax : ∀ l : List Run, (∀ run ∈ l, run.level = i) → l ≠ [] →
      (l.map Run.level).foldr max 0 = i := by
    intro l
    induction l with
    | nil => exact fun _ hnil => absurd rfl hnil
    | cons run l ih =>
      intro hl _
      have hrun := hl run (List.mem_cons_self ..)
      rw [List.map_cons, List.foldr_cons, hrun]
      by_cases hnil : l = []
      · subst hnil
        exact Nat.max_zero i
      · rw [ih (fun r hr => hl r (List.mem_cons_of_mem _ hr)) hnil, Nat.max_self]
  unfold nextLevel
  rw [hmax group h hne]

/-- What an addition keeps of the counts. -/
structure Steady (s s' : State) : Prop where
  rowCount : s'.rowCount = s.rowCount
  inputs : inputRows s'.past = inputRows s.past
  outputs : outputRows s'.past = outputRows s.past

theorem Steady.trans {s s' s'' : State} (h : Steady s s') (h' : Steady s' s'') : Steady s s'' :=
  ⟨h'.rowCount.trans h.rowCount, h'.inputs.trans h.inputs, h'.outputs.trans h.outputs⟩

theorem Frame.steady {s s' : State} (h : Frame s s') : Steady s s' := ⟨h.rowCount, h.inputs, h.outputs⟩

/-- The levels between two runs. -/
structure Settled (s : State) : Prop where
  keeps : Keeps s s.levels.flatten
  shelved : Shelved s

/-- The levels with the run on its own, which may now have eight. -/
structure Full (s : State) (i : ℕ) : Prop where
  level : ∀ (j : ℕ) (group : List Run), s.levels[j]? = some group → ∀ run ∈ group, run.level = j
  short : ∀ (j : ℕ) (group : List Run), s.levels[j]? = some group → group.length ≤ if j = i then 8 else 7
  reach : s.levels.length ≤ reached s.past
  here : i < s.levels.length

theorem Shelved.place {s : State} {run : Run} (h : Shelved s) (hr : run.level + 1 ≤ reached s.past) :
    Full { s with levels := place s.levels run } run.level := by
  have hshort (i : ℕ) : (s.levels.getD i []).length ≤ 7 := by
    rw [List.getD_eq_getElem?_getD]
    cases hi : s.levels[i]? with
    | none => simp
    | some group => exact h.short group (List.mem_of_getElem? hi)
  have hlevel (i : ℕ) : ∀ r ∈ s.levels.getD i [], r.level = i := by
    rw [List.getD_eq_getElem?_getD]
    cases hi : s.levels[i]? with
    | none => simp
    | some group => exact h.level i group hi
  constructor
  · intro j group hj r hmem
    rw [show ({ s with levels := Sorting.place s.levels run } : State).levels =
      Sorting.place s.levels run from rfl, place_get] at hj
    split_ifs at hj with hij hlt hbelow
    · obtain rfl := Option.some.inj hj
      rcases List.mem_append.mp hmem with hmem | hmem
      · exact hlevel j r hmem
      · rw [List.mem_singleton.mp hmem, hij]
    · exact h.level j group hj r hmem
    · obtain rfl := Option.some.inj hj
      simp at hmem
  · intro j group hj
    rw [show ({ s with levels := Sorting.place s.levels run } : State).levels =
      Sorting.place s.levels run from rfl, place_get] at hj
    split_ifs at hj ⊢ with hij hlt hbelow
    · obtain rfl := Option.some.inj hj
      have := hshort j
      rw [List.length_append, List.length_singleton]
      omega
    · exact h.short group (List.mem_of_getElem? hj)
    · obtain rfl := Option.some.inj hj
      exact Nat.zero_le _
  · show (Sorting.place s.levels run).length ≤ reached s.past
    rw [place_length]
    have := h.reach
    omega
  · show run.level < (Sorting.place s.levels run).length
    rw [place_length]
    omega

theorem Full.frame {s s' : State} {i : ℕ} (hf : Full s i) (h : Frame s s') : Full s' i := by
  constructor
  · rw [h.levels]
    exact hf.level
  · rw [h.levels]
    exact hf.short
  · rw [h.levels, h.reached]
    exact hf.reach
  · rw [h.levels]
    exact hf.here

theorem Settled.quiet {s s' : State} {runs : List Run} (hs : Settled s)
    (h : Quiet runs s s') (hsub : ∀ run ∈ runs, run ∈ s.levels.flatten) : Settled s' := by
  refine ⟨?_, ?_, ?_, ?_⟩
  · rw [h.frame.levels]
    exact h.keeps _ hsub hs.keeps
  · rw [h.frame.levels]
    exact hs.shelved.level
  · rw [h.frame.levels]
    exact hs.shelved.short
  · rw [h.frame.levels, h.frame.reached]
    exact hs.shelved.reach

/-- A level of eight is emptied for the run that replaces it. -/
theorem Full.room {s : State} {i : ℕ} {group : List Run} (hf : Full s i)
    (h8 : group.length = mergeFanIn) :
    (s.levels.set i []).flatten.length + 7 ≤ 7 * s.levels.length := by
  have hshort : ∀ g ∈ s.levels.set i (group.take 7), g.length ≤ 7 := by
    intro g hmem
    obtain ⟨j, hj⟩ := List.getElem?_of_mem hmem
    rw [List.getElem?_set] at hj
    split_ifs at hj with hij hlt
    · obtain rfl := Option.some.inj hj
      rw [List.length_take]
      omega
    · have := hf.short j g hj
      rw [if_neg fun h => hij h.symm] at this
      exact this
  have hle := flatten_le hshort
  have hget : (s.levels.set i (group.take 7))[i]? = some (group.take 7) := by
    rw [List.getElem?_set, if_pos rfl, if_pos hf.here]
  have hperm := (flatten_set hget).length_eq
  have h7 : (group.take 7).length = 7 := by
    rw [List.length_take, h8]
    rfl
  rw [List.set_set, List.length_append, h7] at hperm
  rw [List.length_set] at hle
  omega

theorem Full.emptied {s : State} {i : ℕ} (hf : Full s i) {s' : State} (hl : s'.levels = s.levels.set i [])
    (hr : reached s.past ≤ reached s'.past) : Shelved s' := by
  constructor
  · intro j g hj run hmem
    rw [hl, List.getElem?_set] at hj
    split_ifs at hj with hij hlt
    · obtain rfl := Option.some.inj hj
      simp at hmem
    · exact hf.level j g hj run hmem
  · intro g hmem
    rw [hl] at hmem
    obtain ⟨j, hj⟩ := List.getElem?_of_mem hmem
    rw [List.getElem?_set] at hj
    split_ifs at hj with hij hlt
    · obtain rfl := Option.some.inj hj
      exact Nat.zero_le _
    · have := hf.short j g hj
      rw [if_neg fun h => hij h.symm] at this
      exact this
  · rw [hl, List.length_set]
    exact Nat.le_trans hf.reach hr

theorem Full.shelved {s : State} {i : ℕ} {group : List Run} (hf : Full s i)
    (hg : s.levels[i]? = some group) (h8 : group.length ≠ mergeFanIn) : Shelved s where
  level := hf.level
  short g hmem := by
    obtain ⟨j, hj⟩ := List.getElem?_of_mem hmem
    have hle := hf.short j g hj
    split_ifs at hle with hij
    · subst hij
      obtain rfl : group = g := Option.some.inj (hg.symm.trans hj)
      unfold mergeFanIn at h8
      omega
    · exact hle
  reach := hf.reach

theorem add_meets : ∀ (fuel : ℕ) {s : State} {run : Run}, Keeps s (run :: s.levels.flatten) →
    Shelved s → run.level + 1 ≤ reached s.past → s.levels.flatten.length < fuel →
    Meets Safe (add env coding descending fuel run) s fun _ s' => Settled s' ∧ Steady s s'
  | 0, _, _, _, _, _, hfuel => absurd hfuel (Nat.not_lt_zero _)
  | fuel + 1, s, run, hk, hs, hr, hfuel => by
    unfold add
    refine Meets.modify_bind ?_
    have hk₁ : Keeps { s with levels := place s.levels run } (place s.levels run).flatten :=
      (hk.perm (place_perm s.levels run).symm).congr rfl rfl
    have hcount := (place_perm s.levels run).length_eq
    rw [List.length_cons] at hcount
    refine Meets.bind (reserve_calm env [] 0 _) ?_
    rintro _ s₂ ⟨h₂, -⟩
    refine Meets.get_bind ?_
    have hl₂ : s₂.levels = place s.levels run := h₂.frame.levels
    have hfull := (hs.place hr).frame h₂.frame
    have hk₂ := h₂.keeps _ (fun _ hr => absurd hr List.not_mem_nil) hk₁
    rw [← hl₂] at hk₂ hcount
    have hsteady₂ : Steady s s₂ := ⟨h₂.frame.rowCount, h₂.frame.inputs, h₂.frame.outputs⟩
    have hreach : reached s₂.past = reached s.past := h₂.frame.reached
    have hgroup : s₂.levels[run.level]? = some (s₂.levels.getD run.level []) := by
      rw [List.getD_eq_getElem?_getD, List.getElem?_eq_getElem hfull.here]
      rfl
    generalize s₂.levels.getD run.level [] = group at hgroup ⊢
    refine Meets.ite (fun h8 => ?_) fun h8 => Meets.pure ⟨⟨hk₂, hfull.shelved hgroup h8⟩, hsteady₂⟩
    have hroom := hfull.room h8
    have hsplit := flatten_set hgroup
    have hlen := hsplit.length_eq
    rw [List.length_append, h8, hcount] at hlen
    have hne : group ≠ [] := by
      rintro rfl
      cases h8
    have hnext := nextLevel_eq hne (hfull.level _ _ hgroup)
    have h8' : mergeFanIn = 8 := rfl
    have hL := hfull.reach
    refine Meets.bind (compact_meets env coding descending (hk₂.perm hsplit) (Nat.le_of_eq h8) ?_) ?_
    · rw [List.length_append, h8, hnext, h8']
      omega
    · rintro replacement s₃ ⟨hk₃, hlevel, hl₃, hrow₃, hreach₃, hin₃, hout₃⟩
      refine Meets.modify_bind ?_
      have hshelved : Shelved { s₃ with levels := s₃.levels.set run.level [] } := by
        refine hfull.emptied (congrArg (List.set · run.level []) hl₃) ?_
        show reached s₂.past ≤ reached s₃.past
        omega
      have hk₄ : Keeps { s₃ with levels := s₃.levels.set run.level [] }
          (replacement :: (s₃.levels.set run.level []).flatten) := by
        rw [hl₃]
        exact hk₃.congr rfl rfl
      refine (add_meets fuel hk₄ hshelved ?_ ?_).mono ?_
      · show replacement.level + 1 ≤ reached s₃.past
        omega
      · show (s₃.levels.set run.level []).flatten.length < fuel
        rw [hl₃]
        omega
      · rintro _ s₅ ⟨hsettled, hsteady⟩
        exact ⟨hsettled, hsteady₂.trans ⟨hsteady.rowCount.trans hrow₃, hsteady.inputs.trans hin₃,
          hsteady.outputs.trans hout₃⟩⟩

/-! ## The sort -/

/-- The rows that have been counted are in the runs or wait. -/
structure Captured (pending : ℕ) (s : State) : Prop where
  settled : Settled s
  rows : inputRows s.past + pending = s.rowCount
  silent : outputRows s.past = 0

theorem Captured.quiet {pending : ℕ} {s s' : State} (hc : Captured pending s) (h : Quiet [] s s') :
    Captured pending s' where
  settled := hc.settled.quiet h fun _ hr => absurd hr List.not_mem_nil
  rows := by
    rw [h.frame.inputs, h.frame.rowCount]
    exact hc.rows
  silent := h.frame.outputs.trans hc.silent

theorem flush_meets {s : State} {pending : List (Record ρ κ)} {more : ℕ}
    (hc : Captured (pending.length + more) s) :
    Meets Safe (flush env coding descending pending) s fun _ s' => Captured more s' := by
  unfold flush
  refine Meets.bind (check_calm env [] s) ?_
  rintro _ s₁ ⟨h₁, -⟩
  refine Meets.bind (order_calm env [] s₁) ?_
  rintro _ s₂ ⟨h₂, -⟩
  refine Meets.bind (check_calm env [] s₂) ?_
  rintro _ s₃ ⟨h₃, -⟩
  have hc₃ := ((hc.quiet h₁).quiet h₂).quiet h₃
  obtain ⟨⟨hk, hs⟩, hrows, hsilent⟩ := hc₃
  have hle := flatten_le hs.short
  have hreach := hs.reach
  have h8 : mergeFanIn = 8 := rfl
  refine Meets.bind (write_meets env coding descending hk
    (show (Source.pending (sorted descending pending)).Within _ from trivial) (Nat.zero_le _) (fun _ hr => absurd hr List.not_mem_nil) ?_) ?_
  · rw [h8]
    omega
  · rintro run s₄ ⟨hk₄, h₄⟩
    refine Meets.get_bind ?_
    have hin := h₄.inputs
    rw [if_pos rfl] at hin
    have hreach₄ := h₄.reached
    rw [← h₄.levels] at hk₄
    have hs₄ : Shelved s₄ := by
      refine ⟨?_, ?_, ?_⟩
      · rw [h₄.levels]
        exact hs.level
      · rw [h₄.levels]
        exact hs.short
      · rw [h₄.levels]
        omega
    refine (add_meets env coding descending _ hk₄ hs₄ ?_ (Nat.lt_succ_self _)).mono ?_
    · rw [h₄.level]
      omega
    · rintro _ s₅ ⟨hsettled, hsteady⟩
      refine ⟨hsettled, ?_, ?_⟩
      · rw [hsteady.inputs, hsteady.rowCount, h₄.rowCount, hin, ← hrows]
        omega
      · rw [hsteady.outputs, h₄.outputs, hsilent]

theorem flushLast_meets {s : State} {pending : List (Record ρ κ)} (hc : Captured pending.length s) :
    Meets Safe (flushLast env coding descending pending) s fun _ s' => Captured 0 s' := by
  unfold flushLast
  refine Meets.ite (fun _ => flush_meets env coding descending hc) fun hnil => Meets.pure ?_
  obtain rfl := not_not.mp hnil
  exact hc

theorem capture_meets : ∀ (rows : List (Except Thrown ρ)) (pending : List (Record ρ κ)) (cost : ℕ)
    {s : State}, Captured pending.length s →
    Meets Safe (capture env coding descending rows pending cost) s fun pending' s' =>
      Captured pending'.length s'
  | [], _, _, _, hc => Meets.pure hc
  | row :: rows, pending, cost, s, hc => by
    unfold capture
    refine Meets.bind (Calm.attempt [] s) ?_
    rintro row s₁ ⟨h₁, -⟩
    refine Meets.bind (check_calm env [] s₁) ?_
    rintro _ s₂ ⟨h₂, -⟩
    refine Meets.get_bind ?_
    refine Meets.bind (Calm.attempt [] s₂) ?_
    rintro record s₃ ⟨h₃, -⟩
    refine Meets.modify_bind ?_
    have hc₃ := ((hc.quiet h₁).quiet h₂).quiet h₃
    -- the record is counted before it waits
    have hc₄ : Captured (pending.length + 1) { s₃ with
        rowCount := s₃.rowCount + 1, byteCount := s₃.byteCount + coding.encoded record.row + 1 } := by
      obtain ⟨⟨hk, hlevel, hshort, hreach⟩, hrows, hsilent⟩ := hc₃
      exact ⟨⟨hk.congr rfl rfl, hlevel, hshort, hreach⟩, congrArg (· + 1) hrows, hsilent⟩
    refine Meets.ite (fun _ => ?_) fun _ => ?_
    · refine Meets.bind (flush_meets env coding descending hc₄) ?_
      rintro _ s₅ hc₅
      refine Meets.bind (reserve_calm env [] _ s₅) ?_
      rintro _ s₆ ⟨h₆, -⟩
      exact capture_meets rows [record] _ (hc₅.quiet h₆)
    · refine Meets.bind (reserve_calm env [] _ _) ?_
      rintro _ s₅ ⟨h₅, -⟩
      refine capture_meets rows (pending ++ [record]) _ ?_
      rw [List.length_append]
      exact hc₄.quiet h₅

theorem reduce_meets : ∀ (fuel : ℕ) {s : State} {group : List Run}, Keeps s group →
    group.length ≤ 7 * reached s.past → group.length < fuel →
    Meets Safe (reduce env coding descending fuel group) s fun group' s' =>
      Keeps s' group' ∧ Steady s s'
  | 0, _, _, _, _, hfuel => absurd hfuel (Nat.not_lt_zero _)
  | fuel + 1, s, group, hk, hle, hfuel => by
    unfold reduce
    have h8 : mergeFanIn = 8 := rfl
    refine Meets.ite (fun hmany => ?_) fun _ => Meets.pure ⟨hk, rfl, rfl, rfl⟩
    have hsplit : group.take mergeFanIn ++ group.drop mergeFanIn = group := List.take_append_drop ..
    have htake : (group.take mergeFanIn).length = mergeFanIn := by
      rw [List.length_take]
      omega
    have hdrop : (group.drop mergeFanIn).length = group.length - mergeFanIn := List.length_drop ..
    rw [← hsplit] at hk
    refine Meets.bind (compact_meets env coding descending hk (Nat.le_of_eq htake) ?_) ?_
    · rw [hsplit, h8]
      omega
    · rintro replacement s₁ ⟨hk₁, -, -, hrow, hreach, hin, hout⟩
      refine Meets.modify_bind ?_
      have hk₂ : Keeps { s₁ with levels := [replacement :: group.drop mergeFanIn] }
          (replacement :: group.drop mergeFanIn) := hk₁.congr rfl rfl
      refine (reduce_meets fuel hk₂ ?_ ?_).mono ?_
      · show _ ≤ 7 * reached s₁.past
        rw [List.length_cons]
        omega
      · rw [List.length_cons]
        omega
      · rintro group' s₃ ⟨hk₃, hsteady⟩
        exact ⟨hk₃, hsteady.rowCount.trans hrow, hsteady.inputs.trans hin, hsteady.outputs.trans hout⟩

/-- Some rows more have been delivered. -/
structure Delivered (rows : ℕ) (s s' : State) : Prop where
  rowCount : s'.rowCount = s.rowCount
  inputs : inputRows s'.past = inputRows s.past
  outputs : outputRows s'.past = outputRows s.past + rows

theorem Delivered.trans {n m : ℕ} {s s' s'' : State} (h : Delivered n s s') (h' : Delivered m s' s'') :
    Delivered (n + m) s s'' where
  rowCount := h'.rowCount.trans h.rowCount
  inputs := h'.inputs.trans h.inputs
  outputs := by
    rw [h'.outputs, h.outputs, Nat.add_assoc]

theorem Frame.delivered {s s' : State} (h : Frame s s') : Delivered 0 s s' :=
  ⟨h.rowCount, h.inputs, h.outputs⟩

omit [DecidableEq ρ] in
theorem deliverBatch_meets {s : State} {runs : List Run} (hk : Keeps s runs) (batch : List ρ) :
    Meets Safe (deliverBatch env batch) s fun _ s' => Keeps s' runs ∧ Delivered batch.length s s' := by
  unfold deliverBatch onRows
  refine Meets.bind (check_calm env runs s) ?_
  rintro _ s₁ ⟨h₁, -⟩
  have hk₁ := h₁.keeps _ (fun _ hr => hr) hk
  refine Meets.bind (P := fun _ (s' : State) => Keeps s' runs ∧ Delivered batch.length s₁ s') ?_ ?_
  · refine Meets.bind (Calm.tick runs s₁) ?_
    rintro k s₂ ⟨h₂, -⟩
    have hk₂ := h₂.keeps _ (fun _ hr => hr) hk₁
    cases env.deliver k with
    | some x => exact Meets.throw (by rintro ⟨⟩)
    | none =>
      refine Meets.update ⟨hk₂.delivered _, ?_⟩
      have hlogged : Delivered batch.length s₂ (logged (.delivered batch.length) s₂) :=
        ⟨rfl, rfl, Nat.add_comm ..⟩
      have := h₂.frame.delivered.trans hlogged
      rw [Nat.zero_add] at this
      exact this
  · rintro _ s₃ ⟨hk₃, h₃⟩
    refine (check_calm env runs s₃).mono ?_
    rintro _ s₄ ⟨h₄, -⟩
    have := (h₁.frame.delivered.trans h₃).trans h₄.frame.delivered
    rw [Nat.zero_add, Nat.add_zero] at this
    exact ⟨h₄.keeps _ (fun _ hr => hr) hk₃, this⟩

/-- All rows that the merge yields are delivered. -/
theorem deliver_meets : ∀ (fuel : ℕ) {s : State} {runs : List Run} (source : Source ρ κ χ β)
    (batch : List ρ) (emitted : ℕ), Keeps s runs → source.Within runs → source.left < fuel →
    Meets Safe (deliver env coding descending fuel source batch emitted) s fun total s' =>
      Keeps s' runs ∧ ∃ n, total + batch.length = emitted + n ∧ Delivered n s s'
  | 0, _, _, _, _, _, _, _, hfuel => absurd hfuel (Nat.not_lt_zero _)
  | fuel + 1, s, runs, source, batch, emitted, hk, hw, hfuel => by
    unfold deliver
    refine Meets.bind (source_next_calm env coding descending source hw s) ?_
    rintro r s₁ ⟨h₁, hr⟩
    have hk₁ := h₁.keeps _ (fun _ hr => hr) hk
    rcases r with _ | ⟨record, source'⟩
    · refine Meets.ite (fun _ => ?_) fun hnil => ?_
      · refine Meets.bind (deliverBatch_meets env hk₁ batch) ?_
        rintro _ s₂ ⟨hk₂, h₂⟩
        refine Meets.pure ⟨hk₂, batch.length, rfl, ?_⟩
        have := h₁.frame.delivered.trans h₂
        rw [Nat.zero_add] at this
        exact this
      · obtain rfl := not_not.mp hnil
        exact Meets.pure ⟨hk₁, 0, rfl, h₁.frame.delivered⟩
    · obtain ⟨hw', hlt⟩ := hr record source' rfl
      have hless : source'.left < fuel := by omega
      refine Meets.ite (fun _ => ?_) fun _ => ?_
      · refine Meets.bind (deliverBatch_meets env hk₁ (batch ++ [record.row])) ?_
        rintro _ s₂ ⟨hk₂, h₂⟩
        refine (deliver_meets fuel source' [] (emitted + 1) hk₂ hw' hless).mono ?_
        rintro total s₃ ⟨hk₃, n, hn, h₃⟩
        refine ⟨hk₃, _, ?_, (h₁.frame.delivered.trans h₂).trans h₃⟩
        rw [List.length_nil] at hn
        rw [List.length_append, List.length_singleton]
        omega
      · refine (deliver_meets fuel source' (batch ++ [record.row]) (emitted + 1) hk₁ hw' hless).mono ?_
        rintro total s₃ ⟨hk₃, n, hn, h₃⟩
        refine ⟨hk₃, _, ?_, h₁.frame.delivered.trans h₃⟩
        rw [List.length_append, List.length_singleton] at hn
        omega

theorem output_meets {s : State} {group : List Run} (hk : Keeps s group) :
    Meets Safe (output env coding descending group) s fun total s' =>
      Keeps s' group ∧ Delivered total s s' := by
  unfold output
  refine Meets.ite (fun _ => ?_) fun _ => Meets.pure ⟨hk, Frame.rfl.delivered⟩
  refine (deliver_meets env coding descending _ (.group group) [] 0 hk (fun _ hr => hr)
    (Nat.lt_succ_self _)).mono ?_
  rintro total s' ⟨hk', n, hn, h⟩
  obtain rfl : total = n := by simpa using hn
  exact ⟨hk', h⟩

theorem sortCapture_meets (rows : List (Except Thrown ρ)) :
    Meets Safe (sortCapture env coding descending rows) .initial fun _ s' => Keeps s' [] := by
  have hinitial : Captured 0 State.initial := by
    refine ⟨⟨⟨trivial, trivial, ?_, .refl _, ?_⟩, ?_, ?_, Nat.le_refl _⟩, rfl, rfl⟩
    all_goals simp [State.initial, State.past, lifetimes, taken]
  unfold sortCapture
  refine Meets.bind (check_calm env [] _) ?_
  rintro _ s₁ ⟨h₁, -⟩
  refine Meets.bind (capture_meets env coding descending rows [] 0 (hinitial.quiet h₁)) ?_
  rintro pending s₂ hc₂
  refine Meets.bind (flushLast_meets env coding descending hc₂) ?_
  rintro _ s₃ ⟨⟨hk₃, hs₃⟩, hrows, hsilent⟩
  refine Meets.get_bind ?_
  have hle := flatten_le hs₃.short
  have hreach := hs₃.reach
  refine Meets.bind (reduce_meets env coding descending _ hk₃ (by omega) (Nat.lt_succ_self _)) ?_
  rintro group s₄ ⟨hk₄, h₄⟩
  refine Meets.bind (output_meets env coding descending hk₄) ?_
  rintro emitted s₅ ⟨hk₅, h₅⟩
  refine Meets.get_bind (Meets.ite (fun _ => Meets.throw (by rintro ⟨⟩)) fun hall => ?_)
  -- every row that was counted is in the output
  have hout : outputRows s₅.past = inputRows s₅.past := by
    have hcount := h₅.rowCount.trans h₄.rowCount
    have hin := h₅.inputs.trans h₄.inputs
    have hsum := h₅.outputs
    rw [h₄.outputs, hsilent] at hsum
    omega
  have hk₅' : Keeps s₅ (group ++ []) := by
    rw [List.append_nil]
    exact hk₅
  refine Meets.bind (discards_meets env hk₅' fun _ _ => .inr hout) ?_
  rintro _ s₆ ⟨hk₆, -⟩
  refine Meets.bind (check_calm env [] s₆) ?_
  rintro _ s₇ ⟨h₇, -⟩
  exact Meets.get_bind (Meets.pure (h₇.keeps _ (fun _ hr => hr) hk₆))

/-- What happened to the stored runs, oldest first. -/
def State.events (s : State) : List Event := s.past.reverse

omit [DecidableEq ρ] [DecidableEq κ] [LT κ] [DecidableLT κ] in
theorem shown_ne {x : Failure} (h : x ≠ .depth) : x.shown ≠ .depth := by
  rcases x with (⟨_ | _⟩ | ⟨_⟩ | _) | _
  · rintro ⟨⟩
  · rintro ⟨⟩
  · rintro ⟨⟩
  · rintro ⟨⟩
  · exact absurd rfl h

/-- Whatever the storage answers, a sort that succeeds has been hygienic, and neither the additions
nor the reduction go deeper than the levels and the group allow. -/
theorem sort_hygiene (rows : List (Except Thrown ρ)) :
    match sortRows env coding descending rows with
    | .ok (_, s) => Hygienic s.events
    | .error x => x ≠ .depth := by
  have hmeets := sortCapture_meets env coding descending rows
  unfold sortRows
  cases hrun : sortCapture env coding descending rows .initial with
  | ok r =>
    have hk : Keeps r.2 [] := hmeets.of_ok hrun
    exact hygienic hk.proper hk.tidy (List.perm_nil.mp hk.held)
  | error x =>
    have hsafe : x ≠ .depth := hmeets.of_error hrun
    exact shown_ne hsafe

end Merging

/-! ## Nine runs on one level -/

/-- Rows of 65535 bytes, an integer and four texts, of which fifteen fit the memory of a run. -/
def wideRows : Coding ℕ ℕ (List (ℕ × ℕ)) (List (ℕ × ℕ)) where
  record row ordinal := .ok ⟨ordinal, row, some row,
    526104 + 8 * if ordinal < 10 then 1 else if ordinal < 100 then 2 else 3⟩
  encoded _ := 65535
  empty := []
  extend buffer chunk := .ok (buffer ++ chunk)
  line
    | [] => .ok none
    | value :: buffer => .ok (some (value, buffer))
  isEmpty buffer := buffer.isEmpty

def chunkOf (i : ℕ) : List (ℕ × ℕ) := (List.range 15).map fun j => (15 * i + j, 15 * i + j)

/-- A storage that returns what was written: eight runs of a chunk each, their merge, and the last
row. -/
def storage : Env (List (ℕ × ℕ)) where
  check _ := none
  orders _ := 0
  pulls _ := 1000
  write _ := none
  isDict _ := true
  size _ := 64
  read _ r := if r < 8 then [.ok (chunkOf r)] else if r = 8 then (List.range 8).map fun i => .ok (chunkOf i)
    else [.ok [(120, 120)]]
  deliver _ := none
  delete _ := none

/-- At some moment there are more than eight live runs for each level. -/
def crowded : List (Event × ℕ) → Bool
  | [] => false
  | e :: older => mergeFanIn * e.2 < (live ((e :: older).map Prod.fst).reverse).length || crowded older

theorem crowded_spec {h : List (Event × ℕ)} (hc : crowded h = true) :
    ∃ newer e older, h = newer ++ e :: older ∧
      mergeFanIn * e.2 < (live ((e :: older).map Prod.fst).reverse).length := by
  induction h with
  | nil => cases hc
  | cons e older ih =>
    unfold crowded at hc
    rw [Bool.or_eq_true, decide_eq_true_eq] at hc
    rcases hc with hc | hc
    · exact ⟨[], e, older, rfl, hc⟩
    · obtain ⟨newer, e', older', rfl, hlt⟩ := ih hc
      exact ⟨e :: newer, e', older', rfl, hlt⟩

/-- When eight runs of the first level have been merged they are still there, beside the run that
replaces them, and there is one level. -/
theorem nine_runs_on_one_level :
    ¬∀ (env : Env (List (ℕ × ℕ))) (rows : List (Except Thrown ℕ)) (report : Report) (s : State),
      sortRows env wideRows false rows = .ok (report, s) → ∀ newer e older, s.history = newer ++ e :: older →
        (live ((e :: older).map Prod.fst).reverse).length ≤ mergeFanIn * e.2 := by
  intro hall
  have hcrowded : (match sortRows storage wideRows false ((List.range 121).map .ok) with
      | .ok (_, s) => crowded s.history
      | .error _ => false) = true := by decide +kernel
  cases hrun : sortRows storage wideRows false ((List.range 121).map .ok) with
  | error x =>
    rw [hrun] at hcrowded
    cases hcrowded
  | ok r =>
    rw [hrun] at hcrowded
    obtain ⟨newer, e, older, hh, hlt⟩ := crowded_spec hcrowded
    have := hall storage _ r.1 r.2 hrun newer e older hh
    omega

end Sorting
