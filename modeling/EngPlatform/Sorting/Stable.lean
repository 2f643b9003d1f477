import EngPlatform.Sorting.Records

/-!
# The sort is stable

Beside the state of the sort goes what was written to the runs and what was delivered (`Data`); without
these it is the same sort (`sortCapture_erases`). Where the storage returns what was written to a run, each
run has the records of those that it replaced, so that no record is lost between the capture and the
last merge, and what is delivered are the captured rows in the order of their keys.
-/

set_option linter.dupNamespace false

namespace Sorting

open Effects

/-- What was written to each run, and the rows that were delivered. -/
structure Data (ρ κ : Type) where
  written : List (ℕ × List (Record ρ κ))
  delivered : List ρ

abbrev Tracking (ρ κ α : Type) : Type := Eff (State × Data ρ κ) Failure α

variable {ρ κ χ β α γ : Type}

def lift (m : Sorter α) : Tracking ρ κ α := fun s => (m s.1).map fun r => (r.1, r.2, s.2)

def note (f : Data ρ κ → Data ρ κ) : Tracking ρ κ PUnit := modify fun s => (s.1, f s.2)

/-! ## The sort with its data -/

namespace Tracked

variable (env : Env χ) (coding : Coding ρ κ χ β) (descending : Bool)

variable [DecidableEq ρ] [LinearOrder κ]

def write (source : Source ρ κ χ β) (count level : ℕ) (replaces : List Run) : Tracking ρ κ Run := do
  lift (check env)
  let k ← lift tick
  let records ← lift (yielded env coding descending (env.pulls k) source)
  match env.write k with
  | some x => lift (raise x)
  | none =>
    let s ← lift get
    lift (log (.wrote ⟨s.runCount, records.length, level⟩ replaces))
    lift (modify fun s => { s with runCount := s.runCount + 1 })
    note fun d => { d with written := (s.runCount, records) :: d.written }
    lift (check env)
    if records.length ≠ count ∨ ¬env.isDict k then
      lift (unavailable "Invalid database sort run")
    else
      pure ⟨s.runCount, count, level⟩

def compact (group : List Run) : Tracking ρ κ Run := do
  let level := (group.map Run.level).foldr max 0 + 1
  let replacement ← write env coding descending (.group group) (group.map Run.rowCount).sum level group
  lift (modify fun s => { s with mergePasses := max s.mergePasses level })
  lift (group.forM (discard env))
  pure replacement

def add : ℕ → Run → Tracking ρ κ PUnit
  | 0, _ => lift (throw .depth)
  | fuel + 1, run => do
    lift (modify fun s => { s with levels := place s.levels run })
    lift (reserve env 0)
    let s ← lift get
    let group := s.levels.getD run.level []
    if group.length = mergeFanIn then
      let replacement ← compact env coding descending group
      lift (modify fun s => { s with levels := s.levels.set run.level [] })
      add fuel replacement
    else pure ⟨⟩

def flush (pending : List (Record ρ κ)) : Tracking ρ κ PUnit := do
  lift (check env)
  lift (order env)
  lift (check env)
  let run ← write env coding descending (.pending (sorted descending pending)) pending.length 0 []
  let s ← lift get
  add env coding descending (s.levels.flatten.length + 1) run

def flushLast (pending : List (Record ρ κ)) : Tracking ρ κ PUnit :=
  if pending ≠ [] then flush env coding descending pending else pure ⟨⟩

def capture : List (Except Thrown ρ) → List (Record ρ κ) → ℕ → Tracking ρ κ (List (Record ρ κ))
  | [], pending, _ => pure pending
  | row :: rows, pending, pendingCost => do
    let row ← lift (attempt row)
    lift (check env)
    let s ← lift get
    let record ← lift (attempt (coding.record row s.rowCount))
    lift (modify fun s => { s with
      rowCount := s.rowCount + 1, byteCount := s.byteCount + coding.encoded record.row + 1 })
    if pending ≠ [] ∧ pendingCost + record.cost > runMemoryBytes then
      flush env coding descending pending
      lift (reserve env (0 + record.cost))
      capture rows [record] (0 + record.cost)
    else
      lift (reserve env (pendingCost + record.cost))
      capture rows (pending ++ [record]) (pendingCost + record.cost)

def reduce : ℕ → List Run → Tracking ρ κ (List Run)
  | 0, _ => lift (throw .depth)
  | fuel + 1, group => do
    if group.length > mergeFanIn then
      let replacement ← compact env coding descending (group.take mergeFanIn)
      let group := replacement :: group.drop mergeFanIn
      lift (modify fun s => { s with levels := [group] })
      reduce fuel group
    else pure group

def deliverBatch (batch : List ρ) : Tracking ρ κ PUnit := do
  lift (Sorting.deliverBatch env batch)
  note fun d => { d with delivered := d.delivered ++ batch }

def deliver : ℕ → Source ρ κ χ β → List ρ → ℕ → Tracking ρ κ ℕ
  | 0, _, _, _ => lift (throw .depth)
  | fuel + 1, source, batch, emitted => do
    match ← lift (source.next env coding descending) with
    | none =>
      if batch ≠ [] then
        deliverBatch env batch
        pure emitted
      else pure emitted
    | some (record, source) =>
      if (batch ++ [record.row]).length = batchRows then
        deliverBatch env (batch ++ [record.row])
        deliver fuel source [] (emitted + 1)
      else deliver fuel source (batch ++ [record.row]) (emitted + 1)

def output (group : List Run) : Tracking ρ κ ℕ :=
  if group ≠ [] then
    deliver env coding descending ((group.map Run.rowCount).sum + 1) (.group group) [] 0
  else pure 0

def sortCapture (rows : List (Except Thrown ρ)) : Tracking ρ κ Report := do
  lift (check env)
  let pending ← capture env coding descending rows [] 0
  flushLast env coding descending pending
  let s ← lift get
  let group ← reduce env coding descending (s.levels.flatten.length + 1) s.levels.flatten
  let emitted ← output env coding descending group
  let s ← lift get
  if emitted ≠ s.rowCount then
    lift (unavailable "Invalid database sort output count")
  else
    lift (group.forM (discard env))
    lift (check env)
    let s ← lift get
    pure ⟨s.rowCount, s.byteCount, s.runCount, s.mergePasses, s.memoryPeak⟩

end Tracked

/-! ## Without its data it is the same sort -/

/-- `p` does what `q` does, and keeps its data. -/
def Erases (p : Tracking ρ κ α) (q : Sorter α) : Prop :=
  ∀ s d, (p (s, d)).map (fun r => (r.1, r.2.1)) = q s

namespace Erases

theorem lift (m : Sorter α) : Erases (lift m : Tracking ρ κ α) m := by
  intro s d
  unfold Sorting.lift
  dsimp only
  cases m s <;> rfl

theorem pure (a : α) : Erases (Pure.pure a : Tracking ρ κ α) (Pure.pure a) := fun _ _ => rfl

theorem bind {p : Tracking ρ κ α} {q : Sorter α} {f : α → Tracking ρ κ γ} {g : α → Sorter γ}
    (h : Erases p q) (hf : ∀ a, Erases (f a) (g a)) : Erases (p >>= f) (q >>= g) := by
  intro s d
  have hp := h s d
  have hrun : (p >>= f) (s, d) = (p (s, d)).bind fun r => f r.1 r.2 := rfl
  have hrun' : (q >>= g) s = (q s).bind fun r => g r.1 r.2 := rfl
  rw [hrun, hrun', ← hp]
  cases p (s, d) with
  | error x => rfl
  | ok r => exact hf r.1 r.2.1 r.2.2

theorem note_bind {u : Data ρ κ → Data ρ κ} {f : PUnit → Tracking ρ κ γ} {q : Sorter γ}
    (h : Erases (f ⟨⟩) q) : Erases (note u >>= f) q := fun s d => h s (u d)

theorem ite {p p' : Tracking ρ κ α} {q q' : Sorter α} {b : Prop} [Decidable b]
    (h : Erases p q) (h' : Erases p' q') : Erases (if b then p else p') (if b then q else q') := by
  split
  · exact h
  · exact h'

end Erases

section Erasing

variable {env : Env χ} {coding : Coding ρ κ χ β} {descending : Bool}

variable [DecidableEq ρ] [LinearOrder κ]

theorem lines_yielded : ∀ (pulls : ℕ) (source : Source ρ κ χ β) (emitted : ℕ),
    lines env coding descending pulls source emitted = (do
      let records ← yielded env coding descending pulls source
      pure (emitted + records.length))
  | 0, _, _ => rfl
  | pulls + 1, source, emitted => by
    unfold lines yielded
    rw [bind_assoc]
    refine congrArg _ (funext fun found => ?_)
    rcases found with _ | ⟨record, source'⟩
    · rfl
    · simp only [lines_yielded pulls source', bind_assoc, pure_bind, List.length_cons,
        Nat.add_assoc, Nat.add_comm 1]

theorem write_erases (source : Source ρ κ χ β) (count level : ℕ) (replaces : List Run) :
    Erases (Tracked.write env coding descending source count level replaces)
      (write env coding descending source count level replaces) := by
  unfold Tracked.write write
  simp only [lines_yielded, bind_assoc, pure_bind, Nat.zero_add]
  refine Erases.bind (.lift _) fun _ => .bind (.lift _) fun k => .bind (.lift _) fun records => ?_
  cases env.write k with
  | some x => exact .lift _
  | none =>
    refine .bind (.lift _) fun s => .bind (.lift _) fun _ => .bind (.lift _) fun _ => ?_
    exact .note_bind (.bind (.lift _) fun _ => .ite (.lift _) (.pure _))

theorem compact_erases (group : List Run) : Erases (Tracked.compact env coding descending group)
    (compact env coding descending group) :=
  .bind (write_erases _ _ _ _) fun _ => .bind (.lift _) fun _ => .bind (.lift _) fun _ => .pure _

theorem add_erases : ∀ (fuel : ℕ) (run : Run),
    Erases (Tracked.add env coding descending fuel run) (add env coding descending fuel run)
  | 0, _ => .lift _
  | fuel + 1, run => by
    unfold Tracked.add add
    refine .bind (.lift _) fun _ => .bind (.lift _) fun _ => .bind (.lift _) fun s => .ite ?_ (.pure _)
    exact .bind (compact_erases _) fun _ => .bind (.lift _) fun _ => add_erases fuel _

theorem flush_erases (pending : List (Record ρ κ)) :
    Erases (Tracked.flush env coding descending pending) (flush env coding descending pending) :=
  .bind (.lift _) fun _ => .bind (.lift _) fun _ => .bind (.lift _) fun _ =>
    .bind (write_erases _ _ _ _) fun _ => .bind (.lift _) fun _ => add_erases _ _

theorem flushLast_erases (pending : List (Record ρ κ)) :
    Erases (Tracked.flushLast env coding descending pending)
      (flushLast env coding descending pending) := .ite (flush_erases pending) (.pure _)

theorem capture_erases : ∀ (rows : List (Except Thrown ρ)) (pending : List (Record ρ κ)) (cost : ℕ),
    Erases (Tracked.capture env coding descending rows pending cost)
      (capture env coding descending rows pending cost)
  | [], _, _ => .pure _
  | row :: rows, pending, cost => by
    unfold Tracked.capture capture
    refine .bind (.lift _) fun _ => .bind (.lift _) fun _ => .bind (.lift _) fun _ =>
      .bind (.lift _) fun _ => .bind (.lift _) fun _ => .ite ?_ ?_
    · exact .bind (flush_erases _) fun _ => .bind (.lift _) fun _ => capture_erases rows _ _
    · exact .bind (.lift _) fun _ => capture_erases rows _ _

theorem reduce_erases : ∀ (fuel : ℕ) (group : List Run),
    Erases (Tracked.reduce env coding descending fuel group : Tracking ρ κ (List Run))
      (reduce env coding descending fuel group)
  | 0, _ => .lift _
  | fuel + 1, group => by
    unfold Tracked.reduce reduce
    refine .ite ?_ (.pure _)
    exact .bind (compact_erases _) fun _ => .bind (.lift _) fun _ => reduce_erases fuel _

omit [DecidableEq ρ] [LinearOrder κ] in
theorem deliverBatch_erases (batch : List ρ) :
    Erases (Tracked.deliverBatch env batch : Tracking ρ κ PUnit) (deliverBatch env batch) := by
  have hpure : (deliverBatch env batch >>= fun a => pure a) = deliverBatch env batch := bind_pure _
  rw [← hpure]
  exact .bind (.lift _) fun _ s d => rfl

theorem deliver_erases : ∀ (fuel : ℕ) (source : Source ρ κ χ β) (batch : List ρ) (emitted : ℕ),
    Erases (Tracked.deliver env coding descending fuel source batch emitted)
      (deliver env coding descending fuel source batch emitted)
  | 0, _, _, _ => .lift _
  | fuel + 1, source, batch, emitted => by
    unfold Tracked.deliver deliver
    refine .bind (.lift _) fun found => ?_
    rcases found with _ | ⟨record, source'⟩
    · exact .ite (.bind (deliverBatch_erases _) fun _ => .pure _) (.pure _)
    · refine .ite ?_ (deliver_erases fuel _ _ _)
      exact .bind (deliverBatch_erases _) fun _ => deliver_erases fuel _ _ _

theorem sortCapture_erases (rows : List (Except Thrown ρ)) :
    Erases (Tracked.sortCapture env coding descending rows)
      (sortCapture env coding descending rows) := by
  unfold Tracked.sortCapture sortCapture
  refine .bind (.lift _) fun _ => .bind (capture_erases _ _ _) fun _ =>
    .bind (flushLast_erases _) fun _ => .bind (.lift _) fun _ => .bind (reduce_erases _ _) fun group =>
    .bind (.ite (deliver_erases _ _ _ _) (.pure _)) fun _ => .bind (.lift _) fun _ =>
    .ite (.lift _) ?_
  exact .bind (.lift _) fun _ => .bind (.lift _) fun _ => .bind (.lift _) fun _ => .pure _

end Erasing

/-! ## Steps and what they promise -/

/-- `content` is what was written to the runs, and the storage returns it, at least where it consists
of records of good rows. -/
def Returned (env : Env χ) (coding : Coding ρ κ χ β) (content : ℕ → List (Record ρ κ))
    (good : ρ → Prop) (d : Data ρ κ) : Prop :=
  ∀ e ∈ d.written, content e.1 = e.2 ∧ ((∀ record ∈ e.2, Made coding record ∧ good record.row) →
    ∀ k, Lines coding (env.read k e.1) coding.empty (e.2.map Record.value))

/-- If `m` ends, then what holds of its result is told on the condition that the storage returns all
that was written up to then. -/
def Sound (env : Env χ) (coding : Coding ρ κ χ β) (content : ℕ → List (Record ρ κ))
    (good : ρ → Prop) (P : State × Data ρ κ → Prop) (m : Tracking ρ κ α)
    (Q : α → State × Data ρ κ → Prop) : Prop :=
  ∀ g, Meets (fun _ => True) m g fun a g' =>
    (∀ e ∈ g.2.written, e ∈ g'.2.written) ∧ (Returned env coding content good g'.2 → P g → Q a g')

namespace Sound

variable {env : Env χ} {coding : Coding ρ κ χ β} {content : ℕ → List (Record ρ κ)}
  {good : ρ → Prop} {P P' : State × Data ρ κ → Prop} {Q : α → State × Data ρ κ → Prop}
  {R : γ → State × Data ρ κ → Prop}

theorem pure {a : α} (h : ∀ g, Returned env coding content good g.2 → P g → Q a g) :
    Sound env coding content good P (Pure.pure a) Q := fun g => Meets.pure ⟨fun _ he => he, h g⟩

theorem lift {m : Sorter α} (h : ∀ s d, P (s, d) → Meets (fun _ => True) m s fun a s' => Q a (s', d)) :
    Sound env coding content good P (Sorting.lift m) Q := by
  intro g
  unfold Meets
  have hrun : Sorting.lift m g = (m g.1).map fun r => (r.1, r.2, g.2) := rfl
  rw [hrun]
  cases hm : m g.1 with
  | error x => exact trivial
  | ok r => exact ⟨fun _ he => he, fun _ hp => (h g.1 g.2 hp).of_ok hm⟩

theorem raise {x : Failure} : Sound env coding content good P (Sorting.lift (throw x)) Q :=
  lift fun _ _ _ => Meets.throw trivial

theorem note {f : Data ρ κ → Data ρ κ} {Q : PUnit → State × Data ρ κ → Prop}
    (hgrow : ∀ d, ∀ e ∈ d.written, e ∈ (f d).written) (h : ∀ s d, P (s, d) → Q ⟨⟩ (s, f d)) :
    Sound env coding content good P (Sorting.note f) Q :=
  fun g => ⟨hgrow g.2, fun _ hp => h g.1 g.2 hp⟩

theorem bind {m : Tracking ρ κ α} {f : α → Tracking ρ κ γ} (h : Sound env coding content good P m Q)
    (hf : ∀ a, Sound env coding content good (Q a) (f a) R) :
    Sound env coding content good P (m >>= f) R := by
  intro g
  refine Meets.bind (h g) ?_
  rintro a g₁ ⟨hgrow₁, h₁⟩
  refine (hf a g₁).mono ?_
  rintro c g₂ ⟨hgrow₂, h₂⟩
  refine ⟨fun e he => hgrow₂ e (hgrow₁ e he), fun hret hp => h₂ hret (h₁ ?_ hp)⟩
  exact fun e he => hret e (hgrow₂ e he)

theorem weaken {m : Tracking ρ κ α} (h : Sound env coding content good P m Q) (hp : ∀ g, P' g → P g) :
    Sound env coding content good P' m Q :=
  fun g => (h g).mono fun _ _ ha => ⟨ha.1, fun hret hp' => ha.2 hret (hp g hp')⟩

theorem mono {m : Tracking ρ κ α} {R : α → State × Data ρ κ → Prop}
    (h : Sound env coding content good P m Q) (hq : ∀ a g, Q a g → R a g) :
    Sound env coding content good P m R :=
  fun g => (h g).mono fun a g' ha => ⟨ha.1, fun hret hp => hq a g' (ha.2 hret hp)⟩

theorem of_exists {ι : Sort*} [hn : Nonempty ι] {P : ι → State × Data ρ κ → Prop}
    {m : Tracking ρ κ α} (h : ∀ i, Sound env coding content good (P i) m Q) :
    Sound env coding content good (fun g => ∃ i, P i g) m Q := by
  intro g
  by_cases hp : ∃ i, P i g
  · obtain ⟨i, hi⟩ := hp
    exact (h i g).mono fun a g' ha => ⟨ha.1, fun hret _ => ha.2 hret hi⟩
  · obtain ⟨i⟩ := hn
    exact (h i g).mono fun a g' ha => ⟨ha.1, fun _ hp' => absurd hp' hp⟩

theorem ite {b : Prop} [Decidable b] {m m' : Tracking ρ κ α}
    (h : Sound env coding content good (fun g => P g ∧ b) m Q)
    (h' : Sound env coding content good (fun g => P g ∧ ¬b) m' Q) :
    Sound env coding content good P (if b then m else m') Q := by
  split
  · rename_i hb
    exact h.weaken fun _ hp => ⟨hp, hb⟩
  · rename_i hb
    exact h'.weaken fun _ hp => ⟨hp, hb⟩

end Sound

/-- The levels, the rows so far and what was delivered. -/
structure At (levels : List (List Run)) (rows : ℕ) (delivered : List ρ)
    (g : State × Data ρ κ) : Prop where
  levels : g.1.levels = levels
  rows : g.1.rowCount = rows
  delivered : g.2.delivered = delivered

section Steps

variable {env : Env χ} {coding : Coding ρ κ χ β} {descending : Bool}
  {content : ℕ → List (Record ρ κ)} {good : ρ → Prop} {L : List (List Run)} {n : ℕ} {D : List ρ}
  {runs : List Run}
  {F : Prop}

theorem meets_any {m : Sorter α} {s : State} {Q : α → State → Prop} (h : Meets Safe m s Q) :
    Meets (fun _ => True) m s Q := by
  unfold Meets at h ⊢
  cases hm : m s with
  | error x => exact trivial
  | ok r =>
    rw [hm] at h
    exact h

/-- A step that only reads, in a state with the facts `F`. -/
theorem calm_sound {m : Sorter α} {R : α → Prop} (h : F → Calm runs m R) :
    Sound env coding content good (fun g => At L n D g ∧ F) (lift m)
      fun a g => At L n D g ∧ F ∧ R a := by
  refine .lift fun s d hp => (meets_any (h hp.2 s)).mono ?_
  rintro a s' ⟨hq, hr⟩
  exact ⟨⟨hq.frame.levels.trans hp.1.levels, hq.frame.rowCount.trans hp.1.rows, hp.1.delivered⟩,
    hp.2, hr⟩

/-- A step that leaves the levels, the rows and the data alone. -/
theorem still_sound {m : Sorter PUnit} {F : Data ρ κ → Prop} (hm : ∀ s, Meets (fun _ => True) m s
      fun _ s' => s'.levels = s.levels ∧ s'.rowCount = s.rowCount) :
    Sound env coding content good (fun g => At L n D g ∧ F g.2) (lift m)
      fun _ g => At L n D g ∧ F g.2 :=
  .lift fun s _ hp => (hm s).mono fun _ _ hs =>
    ⟨⟨hs.1.trans hp.1.levels, hs.2.trans hp.1.rows, hp.1.delivered⟩, hp.2⟩

theorem check_still (env : Env χ) (s : State) : Meets (fun _ => True) (check env) s
    fun _ s' => s'.levels = s.levels ∧ s'.rowCount = s.rowCount :=
  (meets_any (check_calm env [] s)).mono fun _ _ hq => ⟨hq.1.frame.levels, hq.1.frame.rowCount⟩

theorem state_sound {P : State × Data ρ κ → Prop} :
    Sound env coding content good P (lift (get : Sorter State)) fun s g => P g ∧ s = g.1 :=
  .lift fun _ _ hp => ⟨hp, rfl⟩

section Writing

variable [DecidableEq ρ] [LinearOrder κ] {all : List (Record ρ κ)}

/-- A run that was written has all the records of its source. -/
theorem write_sound (source : Source ρ κ χ β) (count level : ℕ) (replaces : List Run) :
    Sound env coding content good
      (fun g => At L n D g ∧ source.Holds env coding descending content good runs all ∧
        all.length = count ∧ ∀ record ∈ all, Made coding record ∧ good record.row)
      (Tracked.write env coding descending source count level replaces)
      fun run g => At L n D g ∧ run.rowCount = count ∧ (content run.reference).Perm all ∧
        Stored env coding descending content good run := by
  unfold Tracked.write
  refine Sound.bind (still_sound (F := fun _ => _) (check_still env)) fun _ => ?_
  refine Sound.bind (calm_sound fun _ => Calm.tick []) fun k => ?_
  refine Sound.bind (calm_sound fun hf => yielded_ordered (env.pulls k) hf.1.1) fun records => ?_
  cases env.write k with
  | some x => exact .raise
  | none =>
    dsimp only
    refine Sound.bind state_sound fun s => ?_
    -- the number of the run is the one under which its records are noted
    have hlog : ∀ e s, Meets (fun _ => True) (log e) s fun _ (s' : State) =>
        s'.levels = s.levels ∧ s'.rowCount = s.rowCount := fun _ _ => Meets.update ⟨rfl, rfl⟩
    refine Sound.bind (Sound.weaken (still_sound (F := fun _ => _) (hlog _)) fun g hp => hp.1)
      fun _ => ?_
    refine Sound.bind (still_sound (F := fun _ => _) fun _ => Meets.update ⟨rfl, rfl⟩) fun _ => ?_
    refine Sound.bind (Sound.note (fun d e he => List.mem_cons_of_mem _ he) (Q := fun _ g =>
      At L n D g ∧ (((source.Holds env coding descending content good runs all ∧ all.length = count ∧
        ∀ record ∈ all, Made coding record ∧ good record.row) ∧ True) ∧ ∃ rest,
          all.Perm (records ++ rest) ∧ Ordered descending records) ∧
        (s.runCount, records) ∈ g.2.written) ?_) fun _ => ?_
    · exact fun _ _ hp => ⟨⟨hp.1.levels, hp.1.rows, hp.1.delivered⟩, hp.2, List.mem_cons_self⟩
    refine Sound.bind (still_sound (F := fun d => _ ∧ (s.runCount, records) ∈ d.written)
      (check_still env)) fun _ => ?_
    refine Sound.ite .raise (.pure fun g hret hp => ?_)
    obtain ⟨⟨hat, ⟨⟨⟨-, hcount, hmade⟩, -⟩, rest, hperm, hord⟩, hwritten⟩, hall⟩ := hp
    obtain ⟨hcontent, hlines⟩ := hret _ hwritten
    dsimp only at hcontent hlines
    have hlen : records.length = count := not_not.1 fun h => hall (.inl h)
    have hrest : rest = [] := by
      have := hperm.length_eq
      rw [List.length_append] at this
      exact List.eq_nil_of_length_eq_zero (by omega)
    rw [hrest, List.append_nil] at hperm
    refine ⟨hat, rfl, hcontent ▸ hperm.symm, ?_, ?_, ?_, ?_⟩
    · rw [hcontent]
      exact hord
    · rw [hcontent]
      exact fun record hr => hmade record (hperm.mem_iff.2 hr)
    · rw [hcontent]
      exact hlines fun record hr => hmade record (hperm.mem_iff.2 hr)
    · rw [hcontent]
      exact hlen

omit [DecidableEq ρ] [LinearOrder κ] in
theorem discards_still (group : List Run) (s : State) : Meets (fun _ => True)
    (group.forM (discard env)) s fun _ s' => s'.levels = s.levels ∧ s'.rowCount = s.rowCount := by
  refine Meets.forM (I := fun _ (s' : State) => s'.levels = s.levels ∧ s'.rowCount = s.rowCount)
    (fun run _ s₁ h₁ => ?_) group ⟨rfl, rfl⟩
  unfold discard deleteRun
  refine Meets.bind (check_still env s₁) fun _ s₂ h₂ => ?_
  refine Meets.bind (P := fun _ (s₃ : State) => s₃.levels = s₂.levels ∧ s₃.rowCount = s₂.rowCount)
    ?_ fun _ s₃ h₃ => (check_still env s₃).mono fun _ s₄ h₄ => ?_
  · refine Meets.bind (Meets.get_bind (Meets.set_bind (Meets.pure (Q := fun _ (s₃ : State) =>
      s₃.levels = s₂.levels ∧ s₃.rowCount = s₂.rowCount) ⟨rfl, rfl⟩))) fun k s₃ h₃ => ?_
    cases env.delete k with
    | some x => exact Meets.throw trivial
    | none => exact Meets.update h₃
  · exact ⟨((h₄.1.trans h₃.1).trans h₂.1).trans h₁.1, ((h₄.2.trans h₃.2).trans h₂.2).trans h₁.2⟩

omit [DecidableEq ρ] in
theorem length_contents {group : List Run}
    (h : ∀ run ∈ group, Stored env coding descending content good run) :
    (contents content group).length = (group.map Run.rowCount).sum := by
  induction group with
  | nil => rfl
  | cons run group ih =>
    have ih := ih fun r hr => h r (List.mem_cons_of_mem _ hr)
    have hrun := (h run List.mem_cons_self).count
    unfold contents at ih ⊢
    rw [List.flatMap_cons, List.length_append, ih, hrun, List.map_cons, List.sum_cons]

omit [DecidableEq ρ] in
theorem made_contents {group : List Run}
    (h : ∀ run ∈ group, Stored env coding descending content good run) :
    ∀ record ∈ contents content group, Made coding record ∧ good record.row := by
  intro record hr
  obtain ⟨run, hrun, hr⟩ := List.mem_flatMap.1 hr
  exact (h run hrun).made record hr

theorem compact_sound (group : List Run) :
    Sound env coding content good
      (fun g => At L n D g ∧ (∀ run ∈ group, Stored env coding descending content good run) ∧
        Distinct (contents content group))
      (Tracked.compact env coding descending group)
      fun run g => At L n D g ∧ (content run.reference).Perm (contents content group) ∧
        Stored env coding descending content good run := by
  unfold Tracked.compact
  dsimp only
  refine Sound.bind (Sound.weaken (@write_sound _ _ _ _ env coding descending content good L n D group
    _ _ (contents content group) (.group group) _ _ _) fun g hp => ?_) fun run => ?_
  · exact ⟨hp.1, ⟨fun run hr => ⟨hr, hp.2.1 run hr⟩, rfl, hp.2.2⟩, length_contents hp.2.1,
      made_contents hp.2.1⟩
  · refine Sound.bind (still_sound (F := fun _ => _) fun _ => Meets.update ⟨rfl, rfl⟩) fun _ => ?_
    refine Sound.bind (still_sound (F := fun _ => _) (discards_still group)) fun _ => ?_
    exact .pure fun g _ hp => ⟨hp.1, hp.2.2⟩

/-- The levels have runs with the records `all`. -/
structure Shelves (env : Env χ) (coding : Coding ρ κ χ β) (descending : Bool)
    (content : ℕ → List (Record ρ κ)) (good : ρ → Prop) (runs : List Run)
    (all : List (Record ρ κ)) : Prop where
  stored : ∀ run ∈ runs, Stored env coding descending content good run
  perm : (contents content runs).Perm all
  distinct : Distinct all

omit [DecidableEq ρ] in
theorem Shelves.of_perm {runs' : List Run} (h : Shelves env coding descending content good runs all)
    (hp : runs'.Perm runs) : Shelves env coding descending content good runs' all where
  stored run hr := h.stored run (hp.mem_iff.1 hr)
  perm := (hp.flatMap_right _).trans h.perm
  distinct := h.distinct

omit [DecidableEq ρ] in
/-- A group gives way to a run with its records. -/
theorem Shelves.replaced {group rest : List Run} {run : Run}
    (h : Shelves env coding descending content good (group ++ rest) all)
    (hr : Stored env coding descending content good run)
    (hp : (content run.reference).Perm (contents content group)) :
    Shelves env coding descending content good (run :: rest) all where
  stored r hmem := by
    rcases List.mem_cons.1 hmem with rfl | hmem
    · exact hr
    · exact h.stored r (List.mem_append_right _ hmem)
  perm := by
    refine List.Perm.trans ?_ h.perm
    unfold contents at hp ⊢
    rw [List.flatMap_cons, List.flatMap_append]
    exact hp.append_right _
  distinct := h.distinct

omit [DecidableEq ρ] in
theorem Shelves.group_distinct {group rest : List Run}
    (h : Shelves env coding descending content good (group ++ rest) all) :
    Distinct (contents content group) := by
  have hd := h.distinct.perm h.perm.symm
  unfold contents at hd ⊢
  rw [List.flatMap_append] at hd
  exact hd.left

theorem add_sound : ∀ (fuel : ℕ) (run : Run) (L : List (List Run)),
    Sound env coding content good
      (fun g => At L n D g ∧ Shelves env coding descending content good (run :: L.flatten) all)
      (Tracked.add env coding descending fuel run)
      fun _ g => ∃ L', At L' n D g ∧ Shelves env coding descending content good L'.flatten all
  | 0, _, _ => .raise
  | fuel + 1, run, L => by
    unfold Tracked.add
    refine Sound.bind (Q := fun _ g => At (place L run) n D g ∧
      Shelves env coding descending content good (place L run).flatten all) (.lift fun s d hp => ?_)
      fun _ => ?_
    · refine Meets.update ⟨⟨?_, hp.1.rows, hp.1.delivered⟩, hp.2.of_perm (place_perm L run)⟩
      exact congrArg (place · run) hp.1.levels
    refine Sound.bind (calm_sound fun _ => reserve_calm env [] 0) fun _ => ?_
    refine Sound.bind state_sound fun s => ?_
    dsimp only
    refine Sound.ite ?_ (.pure fun g _ hp => ⟨_, hp.1.1.1, hp.1.1.2.1⟩)
    -- the level is full
    have hsplit : ∀ g : State × Data ρ κ, At (place L run) n D g → s = g.1 →
        (s.levels.getD run.level []).length = mergeFanIn → (place L run).flatten.Perm
          (s.levels.getD run.level [] ++ ((place L run).set run.level []).flatten) := by
      rintro g hat rfl h8
      rw [hat.levels] at h8 ⊢
      refine flatten_set ?_
      cases hget : (place L run)[run.level]? with
      | none =>
        rw [List.getD_eq_getElem?_getD, hget] at h8
        cases h8
      | some group => rw [List.getD_eq_getElem?_getD, hget, Option.getD_some]
    have hcompact := @compact_sound _ _ _ _ env coding descending content good (place L run) n D _ _
      (s.levels.getD run.level [])
    refine Sound.bind (Q := fun replacement g => At (place L run) n D g ∧ Shelves env coding
      descending content good (replacement :: ((place L run).set run.level []).flatten) all) ?_
      fun replacement => ?_
    · intro g
      refine (hcompact g).mono fun replacement g' ha => ⟨ha.1, fun hret hp => ?_⟩
      have hshelves := hp.1.1.2.1.of_perm (hsplit g hp.1.1.1 hp.1.2 hp.2).symm
      obtain ⟨hat, hperm, hstored⟩ := ha.2 hret ⟨hp.1.1.1,
        fun r hr => hshelves.stored r (List.mem_append_left _ hr), hshelves.group_distinct⟩
      exact ⟨hat, hshelves.replaced hstored hperm⟩
    · refine Sound.bind (Q := fun _ g => At ((place L run).set run.level []) n D g ∧ Shelves env
        coding descending content good (replacement :: ((place L run).set run.level []).flatten) all)
        (.lift fun s d hp => ?_) fun _ => add_sound fuel replacement _
      refine Meets.update ⟨⟨?_, hp.1.rows, hp.1.delivered⟩, hp.2⟩
      exact congrArg (List.set · run.level []) hp.1.levels

/-- The runs and what waits have the records `all`. -/
structure Waiting (env : Env χ) (coding : Coding ρ κ χ β) (descending : Bool)
    (content : ℕ → List (Record ρ κ)) (good : ρ → Prop) (runs : List Run)
    (pending all : List (Record ρ κ)) : Prop where
  stored : ∀ run ∈ runs, Stored env coding descending content good run
  perm : (contents content runs ++ pending).Perm all
  distinct : Distinct all
  made : ∀ record ∈ all, Made coding record ∧ good record.row

omit [DecidableEq ρ] in
theorem Waiting.pending_distinct {runs : List Run} {pending : List (Record ρ κ)}
    (h : Waiting env coding descending content good runs pending all) : Distinct pending :=
  (h.distinct.perm (h.perm.symm.trans List.perm_append_comm)).left

theorem flush_sound (pending : List (Record ρ κ)) (L : List (List Run)) :
    Sound env coding content good
      (fun g => At L n D g ∧ Waiting env coding descending content good L.flatten pending all)
      (Tracked.flush env coding descending pending)
      fun _ g => ∃ L', At L' n D g ∧ Waiting env coding descending content good L'.flatten [] all := by
  unfold Tracked.flush
  refine Sound.bind (still_sound (F := fun _ => _) (check_still env)) fun _ => ?_
  refine Sound.bind (calm_sound fun _ => order_calm env []) fun _ => ?_
  refine Sound.bind (still_sound (F := fun _ => _) (check_still env)) fun _ => ?_
  have hperm : (sorted descending pending).Perm pending := sorted_perm pending
  have hwrite := @write_sound _ _ _ _ env coding descending content good L n D [] _ _
    (sorted descending pending) (.pending (sorted descending pending)) pending.length 0 []
  refine Sound.bind (Q := fun run g => At L n D g ∧ Shelves env coding descending content good
    (run :: L.flatten) all ∧ ∀ record ∈ all, Made coding record ∧ good record.row) ?_ fun run => ?_
  · intro g
    refine (hwrite g).mono fun run g' ha => ⟨ha.1, fun hret hp => ?_⟩
    have hw := hp.2.1
    obtain ⟨hat, -, hcontent, hstored⟩ := ha.2 hret ⟨hp.1,
      ⟨rfl, sorted_ordered hw.pending_distinct⟩, hperm.length_eq, fun record hr => hw.made record
        (hw.perm.mem_iff.1 (List.mem_append_right _ (hperm.mem_iff.1 hr)))⟩
    refine ⟨hat, ⟨fun r hr => ?_, ?_, hw.distinct⟩, hw.made⟩
    · rcases List.mem_cons.1 hr with rfl | hr
      · exact hstored
      · exact hw.stored r hr
    · refine List.Perm.trans ?_ hw.perm
      unfold contents
      rw [List.flatMap_cons]
      exact ((hcontent.trans hperm).append_right _).trans List.perm_append_comm
  · refine Sound.bind state_sound fun s => ?_
    have hadd := @add_sound _ _ _ _ env coding descending content good n D _ _ all
      (s.levels.flatten.length + 1) run L
    intro g
    refine (hadd g).mono fun _ g' ha => ⟨ha.1, fun hret hp => ?_⟩
    obtain ⟨L', hat, hshelves⟩ := ha.2 hret ⟨hp.1.1, hp.1.2.1⟩
    refine ⟨L', hat, hshelves.stored, ?_, hshelves.distinct, hp.1.2.2⟩
    rw [List.append_nil]
    exact hshelves.perm

/-- The records of the rows, each made with the number of rows before it. -/
inductive Numbered (coding : Coding ρ κ χ β) : List (Except Thrown ρ) → List (Record ρ κ) → Prop
  | nil : Numbered coding [] []
  | snoc {rows : List (Except Thrown ρ)} {records : List (Record ρ κ)} {row : ρ}
      {record : Record ρ κ} : Numbered coding rows records →
      coding.record row records.length = .ok record →
      Numbered coding (rows ++ [.ok row]) (records ++ [record])

/-- A record has its row and its number. -/
def Coding.Lawful (coding : Coding ρ κ χ β) : Prop :=
  ∀ row ordinal record, coding.record row ordinal = .ok record →
    record.row = row ∧ record.ordinal = ordinal

omit [DecidableEq ρ] [LinearOrder κ] in
theorem Numbered.spec {rows : List (Except Thrown ρ)} {records : List (Record ρ κ)}
    (hl : coding.Lawful) (h : Numbered coding rows records) :
    records.map Record.ordinal = List.range records.length ∧
      rows = records.map (fun record => .ok record.row) ∧ ∀ record ∈ records, Made coding record := by
  induction h with
  | nil => exact ⟨rfl, rfl, fun _ hr => by cases hr⟩
  | @snoc rows records row record _ hrecord ih =>
    obtain ⟨hrow, hordinal⟩ := hl row _ record hrecord
    obtain ⟨hordinals, hrows, hmade⟩ := ih
    refine ⟨?_, ?_, fun r hr => ?_⟩
    · rw [List.map_append, hordinals, List.length_append, List.length_singleton, List.range_succ,
        List.map_singleton, hordinal]
    · rw [List.map_append, ← hrows, List.map_singleton, hrow]
    · rcases List.mem_append.1 hr with hr | hr
      · exact hmade r hr
      · rw [List.mem_singleton.1 hr]
        unfold Made
        rw [hrow, hordinal]
        exact hrecord

omit [DecidableEq ρ] [LinearOrder κ] in
theorem Numbered.distinct {rows : List (Except Thrown ρ)} {records : List (Record ρ κ)}
    (hl : coding.Lawful) (h : Numbered coding rows records) : Distinct records := by
  unfold Distinct
  rw [(h.spec hl).1]
  exact List.nodup_range

omit [DecidableEq ρ] in
/-- One more record waits. -/
theorem Waiting.snoc {runs : List Run} {pending : List (Record ρ κ)} {record : Record ρ κ}
    {rows : List (Except Thrown ρ)} (hl : coding.Lawful) (hg : ∀ row, .ok row ∈ rows → good row)
    (h : Waiting env coding descending content good runs pending all)
    (hn : Numbered coding rows (all ++ [record])) :
    Waiting env coding descending content good runs (pending ++ [record]) (all ++ [record]) where
  stored := h.stored
  perm := by
    rw [← List.append_assoc]
    exact h.perm.append_right _
  distinct := hn.distinct hl
  made := by
    obtain ⟨-, hrows, hmade⟩ := hn.spec hl
    refine fun record' hr => ⟨hmade record' hr, hg _ ?_⟩
    rw [hrows]
    exact List.mem_map_of_mem hr

omit [DecidableEq ρ] [LinearOrder κ] in
theorem attempt_calm (r : Except Thrown α) : Calm [] (attempt r) fun a => r = .ok a := by
  cases r with
  | ok a => exact .pure rfl
  | error x => exact .raise

theorem capture_sound (hl : coding.Lawful) : ∀ (rows : List (Except Thrown ρ))
    (pending : List (Record ρ κ)) (cost : ℕ) (past : List (Except Thrown ρ))
    (records : List (Record ρ κ)) (L : List (List Run)), (∀ row, .ok row ∈ past ++ rows → good row) →
    Sound env coding content good
      (fun g => At L records.length D g ∧
        Waiting env coding descending content good L.flatten pending records ∧
        Numbered coding past records)
      (Tracked.capture env coding descending rows pending cost)
      fun pending g => ∃ records L, At L records.length D g ∧
        Waiting env coding descending content good L.flatten pending records ∧
        Numbered coding (past ++ rows) records
  | [], pending, cost, past, records, L, _ => .pure fun g _ hp => ⟨records, L, by
      rw [List.append_nil]
      exact hp⟩
  | row :: rows, pending, cost, past, records, L, hg => by
    have hrest : past ++ row :: rows = past ++ [row] ++ rows := by
      rw [List.append_assoc]
      rfl
    rw [hrest] at hg ⊢
    have hpast : ∀ row', .ok row' ∈ past ++ [row] → good row' := fun row' hr =>
      hg row' (List.mem_append_left _ hr)
    unfold Tracked.capture
    refine Sound.bind (calm_sound fun _ => attempt_calm row) fun row' => ?_
    refine Sound.bind (still_sound (F := fun _ => _) (check_still env)) fun _ => ?_
    refine Sound.bind (Sound.mono (R := fun s g => At L records.length D g ∧
      ((Waiting env coding descending content good L.flatten pending records ∧
        Numbered coding past records) ∧ row = .ok row') ∧ s.rowCount = records.length) state_sound
      fun s g hq => ⟨hq.1.1, hq.1.2, hq.2 ▸ hq.1.1.rows⟩) fun s => ?_
    refine Sound.bind (calm_sound fun _ => attempt_calm _) fun record => ?_
    -- the record is counted before it waits
    have hnumbered : Numbered coding past records → row = .ok row' → s.rowCount = records.length →
        coding.record row' s.rowCount = .ok record →
        Numbered coding (past ++ [row]) (records ++ [record]) := by
      rintro hn rfl hs hrecord
      exact hn.snoc (hs ▸ hrecord)
    refine Sound.bind (Q := fun _ g => At L (records ++ [record]).length D g ∧
      Waiting env coding descending content good L.flatten pending records ∧
      Numbered coding (past ++ [row]) (records ++ [record])) (.lift fun s' d hp => ?_) fun _ => ?_
    · obtain ⟨hat, ⟨⟨⟨hw, hn⟩, hrow⟩, hs⟩, hrecord⟩ := hp
      refine Meets.update ⟨⟨hat.levels, ?_, hat.delivered⟩, hw, hnumbered hn hrow hs hrecord⟩
      rw [List.length_append]
      exact congrArg (· + 1) hat.rows
    refine Sound.ite ?_ ?_
    · have hflush := @flush_sound _ _ _ _ env coding descending content good
        (records ++ [record]).length D _ _ records pending L
      refine Sound.bind (Q := fun _ g => ∃ L', At L' (records ++ [record]).length D g ∧
        Waiting env coding descending content good L'.flatten [record] (records ++ [record]) ∧
        Numbered coding (past ++ [row]) (records ++ [record])) ?_ fun _ => .of_exists fun L' => ?_
      · intro g
        refine (hflush g).mono fun _ g' ha => ⟨ha.1, fun hret hp => ?_⟩
        obtain ⟨L', hat, hw⟩ := ha.2 hret ⟨hp.1.1, hp.1.2.1⟩
        exact ⟨L', hat, hw.snoc hl hpast hp.1.2.2, hp.1.2.2⟩
      · refine Sound.bind (calm_sound fun _ => reserve_calm env [] _) fun _ => ?_
        exact (capture_sound hl rows _ _ _ _ L' hg).weaken fun g hp => ⟨hp.1, hp.2.1⟩
    · refine Sound.bind (Sound.weaken (calm_sound fun _ => reserve_calm env [] _) fun g hp => hp.1)
        fun _ => ?_
      refine (capture_sound hl rows (pending ++ [record]) _ (past ++ [row]) (records ++ [record])
        L hg).weaken fun g hp => ⟨hp.1, ?_, hp.2.1.2⟩
      exact hp.2.1.1.snoc hl hpast hp.2.1.2

theorem reduce_sound : ∀ (fuel : ℕ) (group : List Run) (L : List (List Run)),
    Sound env coding content good
      (fun g => At L n D g ∧ Shelves env coding descending content good group all)
      (Tracked.reduce env coding descending fuel group)
      fun group g => ∃ L', At L' n D g ∧ Shelves env coding descending content good group all
  | 0, _, _ => .raise
  | fuel + 1, group, L => by
    unfold Tracked.reduce
    refine Sound.ite ?_ (.pure fun g _ hp => ⟨L, hp.1⟩)
    have hsplit : group.take mergeFanIn ++ group.drop mergeFanIn = group := List.take_append_drop ..
    have hcompact := @compact_sound _ _ _ _ env coding descending content good L n D _ _
      (group.take mergeFanIn)
    refine Sound.bind (Q := fun replacement g => At L n D g ∧ Shelves env coding descending content good
      (replacement :: group.drop mergeFanIn) all) ?_ fun replacement => ?_
    · intro g
      refine (hcompact g).mono fun replacement g' ha => ⟨ha.1, fun hret hp => ?_⟩
      have hshelves := hp.1.2
      rw [← hsplit] at hshelves
      obtain ⟨hat, hperm, hstored⟩ := ha.2 hret ⟨hp.1.1,
        fun r hr => hshelves.stored r (List.mem_append_left _ hr), hshelves.group_distinct⟩
      exact ⟨hat, hshelves.replaced hstored hperm⟩
    · refine Sound.bind (Q := fun _ g => At [replacement :: group.drop mergeFanIn] n D g ∧ Shelves env
        coding descending content good (replacement :: group.drop mergeFanIn) all)
        (.lift fun s d hp => ?_) fun _ => reduce_sound fuel _ _
      exact Meets.update ⟨⟨rfl, hp.1.rows, hp.1.delivered⟩, hp.2⟩

omit [DecidableEq ρ] [LinearOrder κ] in
theorem deliverBatch_sound (batch : List ρ) :
    Sound env coding content good (fun g => At L n D g ∧ F) (Tracked.deliverBatch env batch)
      fun _ (g : State × Data ρ κ) => At L n (D ++ batch) g ∧ F := by
  have hbatch : ∀ s, Meets (fun _ => True) (deliverBatch env batch) s
      fun _ s' => s'.levels = s.levels ∧ s'.rowCount = s.rowCount := by
    intro s
    unfold Sorting.deliverBatch onRows
    refine Meets.bind (check_still env s) fun _ s₁ h₁ => ?_
    refine Meets.bind (P := fun _ (s₂ : State) => s₂.levels = s.levels ∧ s₂.rowCount = s.rowCount)
      ?_ fun _ s₂ h₂ => (check_still env s₂).mono fun _ s₃ h₃ =>
        ⟨h₃.1.trans h₂.1, h₃.2.trans h₂.2⟩
    refine Meets.bind (Meets.get_bind (Meets.set_bind (Meets.pure (Q := fun _ (s₂ : State) =>
      s₂.levels = s.levels ∧ s₂.rowCount = s.rowCount) h₁))) fun k s₂ h₂ => ?_
    cases env.deliver k with
    | some x => exact Meets.throw trivial
    | none => exact Meets.update h₂
  unfold Tracked.deliverBatch
  refine Sound.bind (still_sound (F := fun _ => F) hbatch) fun _ => ?_
  refine Sound.note (fun _ _ he => he) fun s d hp => ?_
  exact ⟨⟨hp.1.levels, hp.1.rows, congrArg (· ++ batch) hp.1.delivered⟩, hp.2⟩

/-- All records to come are delivered, in order. -/
theorem deliver_sound : ∀ (fuel : ℕ) (source : Source ρ κ χ β) (batch : List ρ) (emitted : ℕ)
    (D : List ρ) (all : List (Record ρ κ)),
    Sound env coding content good
      (fun g => At L n D g ∧ source.Holds env coding descending content good runs all)
      (Tracked.deliver env coding descending fuel source batch emitted)
      fun _ g => ∃ out, At L n (D ++ batch ++ out.map Record.row) g ∧ out.Perm all ∧
        Ordered descending out
  | 0, _, _, _, _, _ => .raise
  | fuel + 1, source, batch, emitted, D, all => by
    unfold Tracked.deliver
    refine Sound.bind (calm_sound fun hf => source_next hf) fun found => ?_
    have hdone : ∀ {g : State × Data ρ κ} {P : Prop}, At L n (D ++ batch) g →
        (all = [] ∧ found = none ∨ P) → (P → found ≠ none) → found = none →
        ∃ out, At L n (D ++ batch ++ out.map Record.row) g ∧ out.Perm all ∧
          Ordered descending out := by
      intro g P hat hall hp hnone
      have hnil : all = [] := (hall.resolve_right fun h => hp h hnone).1
      refine ⟨[], ?_, ?_, List.Pairwise.nil⟩
      · rwa [List.map_nil, List.append_nil]
      · rw [hnil]
    rcases found with _ | ⟨record, source'⟩
    · dsimp only
      refine Sound.ite ?_ (.pure fun g _ hp => ?_)
      · refine Sound.bind (Sound.weaken (deliverBatch_sound batch) fun g hp => hp.1) fun _ =>
          .pure fun g _ hp => hdone hp.1 hp.2.2 (by rintro ⟨_, _, _, ⟨⟩, _⟩) rfl
      · have hbatch : batch = [] := not_not.1 hp.2
        refine hdone (P := _) ?_ hp.1.2.2 (by rintro ⟨_, _, _, ⟨⟩, _⟩) rfl
        rw [hbatch, List.append_nil]
        exact hp.1.1
    · dsimp only
      -- what is left after the record is delivered after it
      have hmore : ∀ {g : State × Data ρ κ} {D' : List ρ} {all' : List (Record ρ κ)},
          D' = D ++ batch ++ [record.row] → all.Perm (record :: all') →
          (∀ b ∈ all', less descending record b = true) →
          (∃ out, At L n (D' ++ out.map Record.row) g ∧ out.Perm all' ∧ Ordered descending out) →
          ∃ out, At L n (D ++ batch ++ out.map Record.row) g ∧ out.Perm all ∧
            Ordered descending out := by
        rintro g D' all' rfl hperm hless ⟨out, hat, hout, hord⟩
        refine ⟨record :: out, ?_, (hout.cons record).trans hperm.symm,
          List.pairwise_cons.2 ⟨fun b hb => hless b (hout.mem_iff.1 hb), hord⟩⟩
        rwa [List.map_cons, ← List.singleton_append, ← List.append_assoc]
      have hnext : ∀ {g : State × Data ρ κ} {D' : List ρ},
          At L n D' g ∧ source.Holds env coding descending content good runs all ∧
            (all = [] ∧ some (record, source') = none ∨ ∃ record' source'' all',
              some (record, source') = some (record', source'') ∧ all.Perm (record' :: all') ∧
              (∀ b ∈ all', less descending record' b = true) ∧
              source''.Holds env coding descending content good runs all') →
          ∃ all', (all.Perm (record :: all') ∧ ∀ b ∈ all', less descending record b = true) ∧
            At L n D' g ∧ source'.Holds env coding descending content good runs all' := by
        rintro g D' ⟨hat, -, ⟨-, ⟨⟩⟩ | ⟨_, _, all', ⟨⟩, hperm, hless, hholds⟩⟩
        exact ⟨all', ⟨hperm, hless⟩, hat, hholds⟩
      refine Sound.ite ?_ ?_
      · refine Sound.bind (Sound.weaken (deliverBatch_sound _) fun g hp => hp.1) fun _ => ?_
        refine Sound.weaken (.of_exists fun all' => ?_) fun g hp => hnext hp
        intro g
        refine (deliver_sound fuel source' [] (emitted + 1) (D ++ (batch ++ [record.row])) all'
          g).mono fun _ g' ha => ⟨ha.1, fun hret hp => ?_⟩
        refine hmore ?_ hp.1.1 hp.1.2 (ha.2 hret hp.2)
        rw [List.append_nil, List.append_assoc]
      · refine Sound.weaken (.of_exists fun all' => ?_) fun g hp => hnext hp.1
        intro g
        refine (deliver_sound fuel source' (batch ++ [record.row]) (emitted + 1) D all'
          g).mono fun _ g' ha => ⟨ha.1, fun hret hp => ?_⟩
        exact hmore (List.append_assoc _ _ _).symm hp.1.1 hp.1.2 (ha.2 hret hp.2)

theorem output_sound (group : List Run) (L : List (List Run)) :
    Sound env coding content good
      (fun g => At L n [] g ∧ Shelves env coding descending content good group all)
      (Tracked.output env coding descending group)
      fun _ g => ∃ out, At L n (out.map Record.row) g ∧ out.Perm all ∧ Ordered descending out := by
  unfold Tracked.output
  refine Sound.ite ?_ (.pure fun g _ hp => ?_)
  · have hdeliver := @deliver_sound _ _ _ _ env coding descending content good L n group _ _
      ((group.map Run.rowCount).sum + 1) (.group group) [] 0 [] (contents content group)
    intro g
    refine (hdeliver g).mono fun _ g' ha => ⟨ha.1, fun hret hp => ?_⟩
    have hd := hp.1.2.distinct.perm hp.1.2.perm.symm
    obtain ⟨out, hat, hout, hord⟩ := ha.2 hret ⟨hp.1.1,
      fun run hr => ⟨hr, hp.1.2.stored run hr⟩, rfl, hd⟩
    exact ⟨out, hat, hout.trans hp.1.2.perm, hord⟩
  · obtain ⟨⟨hat, hshelves⟩, hnil⟩ := hp
    have hall : all = [] := by
      have hperm := hshelves.perm
      rw [not_not.1 hnil] at hperm
      exact List.nil_perm.1 hperm
    exact ⟨[], hat, by rw [hall], List.Pairwise.nil⟩

theorem sortCapture_sound (hl : coding.Lawful) (rows : List (Except Thrown ρ))
    (hg : ∀ row, .ok row ∈ rows → good row) :
    Sound env coding content good (fun g => g = (.initial, ⟨[], []⟩))
      (Tracked.sortCapture env coding descending rows)
      fun report g => ∃ records out, Numbered coding rows records ∧ out.Perm records ∧
        Ordered descending out ∧ g.2.delivered = out.map Record.row ∧
        report.rowCount = records.length := by
  have hfirst : ∀ g : State × Data ρ κ, g = (.initial, ⟨[], []⟩) → At [] 0 [] g ∧ True := by
    rintro _ rfl
    exact ⟨⟨rfl, rfl, rfl⟩, trivial⟩
  have hnone : Waiting env coding descending content good ([] : List (List Run)).flatten [] [] :=
    ⟨fun _ hr => (by cases hr), .refl _, List.nodup_nil, fun _ hr => by cases hr⟩
  unfold Tracked.sortCapture
  refine Sound.bind (Sound.weaken (still_sound (F := fun _ => True) (check_still env)) hfirst)
    fun _ => ?_
  refine Sound.bind (Sound.weaken (capture_sound (D := []) hl rows [] 0 [] [] [] hg) fun g hp =>
    ⟨hp.1, hnone, .nil⟩) fun pending => ?_
  refine Sound.of_exists fun records => Sound.of_exists fun L => ?_
  have hflush : Sound env coding content good
      (fun g => At L records.length [] g ∧
        Waiting env coding descending content good L.flatten pending records ∧
        Numbered coding ([] ++ rows) records)
      (Tracked.flushLast env coding descending pending)
      fun _ g => ∃ L, At L records.length [] g ∧
        Shelves env coding descending content good L.flatten records ∧
        Numbered coding rows records := by
    unfold Tracked.flushLast
    refine Sound.ite (fun g => ?_) (.pure fun g _ hp => ?_)
    · refine (@flush_sound _ _ _ _ env coding descending content good records.length [] _ _ records
        pending L g).mono fun _ g' ha => ⟨ha.1, fun hret hp => ?_⟩
      obtain ⟨L', hat, hw⟩ := ha.2 hret ⟨hp.1.1, hp.1.2.1⟩
      refine ⟨L', hat, ⟨hw.stored, ?_, hw.distinct⟩, hp.1.2.2⟩
      have := hw.perm
      rwa [List.append_nil] at this
    · obtain ⟨⟨hat, hw, hn⟩, hnil⟩ := hp
      refine ⟨L, hat, ⟨hw.stored, ?_, hw.distinct⟩, hn⟩
      have := hw.perm
      rwa [not_not.1 hnil, List.append_nil] at this
  refine Sound.bind hflush fun _ => Sound.of_exists fun L₁ => ?_
  refine Sound.bind state_sound fun s => ?_
  refine Sound.bind (Q := fun group g => ∃ L', (At L' records.length [] g ∧
    Shelves env coding descending content good group records) ∧ Numbered coding rows records)
    (fun g => ?_) fun group => Sound.of_exists fun L₂ => ?_
  · refine (@reduce_sound _ _ _ _ env coding descending content good records.length [] _ _ records _
      s.levels.flatten L₁ g).mono fun group g' ha => ⟨ha.1, fun hret hp => ?_⟩
    obtain ⟨⟨hat, hshelves, hn⟩, rfl⟩ := hp
    obtain ⟨L', hat', hshelves'⟩ := ha.2 hret ⟨hat, hat.levels ▸ hshelves⟩
    exact ⟨L', ⟨hat', hshelves'⟩, hn⟩
  refine Sound.bind (Q := fun _ g => ∃ out, At L₂ records.length (out.map Record.row) g ∧
    Numbered coding rows records ∧ out.Perm records ∧ Ordered descending out)
    (fun g => ?_) fun emitted => Sound.of_exists fun out => ?_
  · refine (@output_sound _ _ _ _ env coding descending content good records.length _ _ records group
      L₂ g).mono fun _ g' ha => ⟨ha.1, fun hret hp => ?_⟩
    obtain ⟨out, hat, hperm, hord⟩ := ha.2 hret hp.1
    exact ⟨out, hat, hp.2, hperm, hord⟩
  refine Sound.bind (Sound.mono (R := fun _ g => At L₂ records.length (out.map Record.row) g ∧
    Numbered coding rows records ∧ out.Perm records ∧ Ordered descending out) state_sound
    fun s g hq => hq.1) fun s => ?_
  refine Sound.ite .raise ?_
  refine Sound.bind (Sound.weaken (still_sound (F := fun _ => _) (discards_still group))
    fun g hp => hp.1) fun _ => ?_
  refine Sound.bind (still_sound (F := fun _ => _) (check_still env)) fun _ => ?_
  refine Sound.bind state_sound fun s' => .pure fun g _ hp => ?_
  obtain ⟨⟨hat, hn, hperm, hord⟩, rfl⟩ := hp
  exact ⟨records, out, hn, hperm, hord, hat.delivered, hat.rows⟩

/-- A sort that succeeds delivers the captured rows, each once and unchanged, in the order of their
keys and, where these are equal, in the order of the capture, if the storage returned for every run
what had been written to it. -/
theorem rows_delivered_in_order (hl : coding.Lawful) {rows : List (Except Thrown ρ)}
    (hg : ∀ row, .ok row ∈ rows → good row)
    {report : Report} {s : State} (h : sortRows env coding descending rows = .ok (report, s)) :
    ∃ d, Tracked.sortCapture env coding descending rows (.initial, ⟨[], []⟩) = .ok (report, s, d) ∧
      ∀ content, Returned env coding content good d → ∃ records out, Numbered coding rows records ∧
        out.Perm records ∧ Ordered descending out ∧ d.delivered = out.map Record.row ∧
        report.rowCount = records.length := by
  have herases := @sortCapture_erases _ _ _ _ env coding descending _ _ rows .initial ⟨[], []⟩
  unfold sortRows at h
  cases hrun : sortCapture env coding descending rows .initial with
  | error x =>
    rw [hrun] at h
    cases h
  | ok r =>
    rw [hrun] at h herases
    cases h
    cases htracked : Tracked.sortCapture env coding descending rows (.initial, ⟨[], []⟩) with
    | error x =>
      rw [htracked] at herases
      cases herases
    | ok t =>
      rw [htracked] at herases
      cases herases
      refine ⟨t.2.2, rfl, fun content hret => ?_⟩
      have hsound := (@sortCapture_sound _ _ _ _ env coding descending content good _ _ hl rows hg
        (.initial, ⟨[], []⟩)).of_ok htracked
      exact hsound.2 hret rfl

end Writing

end Steps

end Sorting
