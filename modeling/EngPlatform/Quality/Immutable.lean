import EngPlatform.Lib.Yields
import EngPlatform.Quality.Evidence

/-!
# Orchestrated evidence across replicas

The lock of the store is one process's own, so the calls of different replicas interleave request
by request. The world remembers which calls stand between the read by which `save_report` decides
to replace an object and its write. While no index object is created under such a call, an
orchestrated one is never replaced.
-/

set_option linter.dupNamespace false

namespace Quality

open Interleave Discipline

structure World (ι : Type) where
  objects : Name → Option Data
  pending : List (ι × Name)

variable {ι : Type} [DecidableEq ι]

def World.set (w : World ι) (name : Name) (data : Data) : World ι :=
  { w with objects := Function.update w.objects name (some data) }

/-- `i` has found that it may replace the object. -/
def World.await (w : World ι) (i : ι) (name : Name) : World ι :=
  if (w.objects name).all fun d => !d.orchestrated then
    { w with pending := (i, name) :: w.pending }
  else w

/-- `i` has made its write. -/
def World.spend (w : World ι) (i : ι) (name : Name) : World ι :=
  { w with pending := w.pending.filter (· ≠ (i, name)) }

/-- The answer of a request that raises. -/
def lost {α : Type} (r : Except Raised α) : Prop := ∃ x, r = .error x

def sem (i : ι) (w : World ι) : (c : Call) → World ι → c.Ans → Prop
  | .read name replacing, w', r => (w' = w ∧ lost r) ∨
    (r = .ok (w.objects name) ∧ w' = if replacing then w.await i name else w)
  | .write name data, w', r => (w' = w.spend i name ∧ lost r) ∨
    (w' = (w.set name data).spend i name ∧ (r = .ok () ∨ lost r))
  | .create name data, w', r => (w' = w ∧ lost r) ∨
    (w' = w ∧ w.objects name ≠ none ∧ r = .ok false) ∨
    (w' = w.set name data ∧ w.objects name = none ∧ (r = .ok true ∨ lost r))
  | .now, w', _ => w' = w

/-- The store moves only by requests. -/
def system (ι : Type) [DecidableEq ι] : System ι (World ι) Call.Ans where
  sem := sem
  env _ _ := False

/-- No object is created under a call that is about to replace it. -/
def Admitted (w : World ι) : Call → Prop
  | .create name _ => ∀ p ∈ w.pending, p.2 ≠ name
  | _ => True

instance (w : World ι) : DecidablePred (Admitted w) := fun c => by
  unfold Admitted
  split <;> infer_instance

/-- The names of index objects. -/
def Name.isIndex : Name → Bool
  | .report _ _ | .executionEvidence _ _ _ => true
  | _ => false

/-- An index object that carries provenance stays what it is. -/
def Persists (w w' : World ι) : Prop :=
  ∀ name d, name.isIndex = true → d.orchestrated = true → w.objects name = some d →
    w'.objects name = some d

omit [DecidableEq ι] in
theorem Persists.refl (w : World ι) : Persists w w := fun _ _ _ _ h => h

omit [DecidableEq ι] in
theorem Persists.trans {w w' w'' : World ι} (h : Persists w w') (h' : Persists w' w'') :
    Persists w w'' :=
  fun name d hn hd ho => h' name d hn hd (h name d hn hd ho)

/-- A call that is about to replace an object does not replace an orchestrated one. -/
def Inv (w : World ι) : Prop :=
  ∀ p ∈ w.pending, p.2.isIndex = true ∧ ∀ d, w.objects p.2 = some d → d.orchestrated = false

/-- What `i` may write: over an index object a report, if it is about to replace it. -/
def Allowed (i : ι) (w : World ι) : Call → Prop
  | .read name replacing => replacing = true → name.isIndex = true
  | .write name data => name.isIndex = true → (i, name) ∈ w.pending ∧ data.orchestrated = false
  | _ => True

/-- What `i` may count on. -/
structure Rely (i : ι) (w w' : World ι) : Prop where
  pending : ∀ name, (i, name) ∈ w.pending → (i, name) ∈ w'.pending
  persists : Persists w w'

section Steps

variable {i j : ι} {w w' : World ι} {name : Name} {data : Data}

omit [DecidableEq ι] in
theorem set_persists (h : name.isIndex = true → ∀ d, w.objects name = some d →
    d.orchestrated = false) : Persists w (w.set name data) := by
  intro name' d hn hd ho
  by_cases hne : name' = name
  · subst hne
    rw [h hn d ho] at hd
    cases hd
  · simpa [World.set, Function.update_of_ne hne] using ho

omit [DecidableEq ι] in
theorem await_pending (p : ι × Name) : p ∈ (w.await i name).pending ↔ p ∈ w.pending ∨
    p = (i, name) ∧ ∀ d, w.objects name = some d → d.orchestrated = false := by
  unfold World.await
  rcases h : w.objects name with _ | d
  · simp [or_comm]
  · by_cases hd : d.orchestrated = false <;> simp [hd, or_comm]

omit [DecidableEq ι] in
theorem await_objects : (w.await i name).objects = w.objects := by
  unfold World.await
  split <;> rfl

theorem mem_spend {p : ι × Name} :
    p ∈ (w.spend i name).pending ↔ p ∈ w.pending ∧ p ≠ (i, name) := by
  simp [World.spend]

/-- The objects after a request: those before it, a written one, or a created one. -/
theorem sem_objects {c : Call} {r : c.Ans} (h : sem i w c w' r) : w'.objects = w.objects ∨
    (∃ name data, c = .write name data ∧ w'.objects = (w.set name data).objects) ∨
    ∃ name data, c = .create name data ∧ w.objects name = none ∧
      w'.objects = (w.set name data).objects := by
  cases c with
  | read name replacing =>
    rcases h with ⟨rfl, -⟩ | ⟨-, rfl⟩
    · exact .inl rfl
    · cases replacing
      · exact .inl rfl
      · exact .inl await_objects
  | write name data =>
    rcases h with ⟨rfl, -⟩ | ⟨rfl, -⟩
    exacts [.inl rfl, .inr (.inl ⟨name, data, rfl, rfl⟩)]
  | create name data =>
    rcases h with ⟨rfl, -⟩ | ⟨rfl, -⟩ | ⟨rfl, hn, -⟩
    exacts [.inl rfl, .inl rfl, .inr (.inr ⟨name, data, rfl, hn, rfl⟩)]
  | now => exact .inl (congrArg World.objects h)

/-- The pending calls after a request: all but a caller that writes, or its caller too. -/
theorem sem_pending {c : Call} {r : c.Ans} (h : sem i w c w' r) (p : ι × Name) :
    (p ∈ w.pending → p.1 ≠ i → p ∈ w'.pending) ∧ (p ∈ w'.pending → p ∈ w.pending ∨
      p.1 = i ∧ c = .read p.2 true ∧ ∀ d, w.objects p.2 = some d → d.orchestrated = false) := by
  cases c with
  | read name replacing =>
    rcases h with ⟨rfl, -⟩ | ⟨-, rfl⟩
    · exact ⟨fun h _ => h, .inl⟩
    · cases replacing
      · exact ⟨fun h _ => h, .inl⟩
      · refine ⟨fun h _ => (await_pending p).2 (.inl h), fun h => ?_⟩
        exact ((await_pending p).1 h).imp_right fun ⟨hp, hd⟩ => by subst hp; exact ⟨rfl, rfl, hd⟩
  | write name data =>
    have hspend : ∀ w : World ι, (p ∈ w.pending → p.1 ≠ i → p ∈ (w.spend i name).pending) ∧
        (p ∈ (w.spend i name).pending → p ∈ w.pending) := fun w =>
      ⟨fun h hne => mem_spend.2 ⟨h, fun he => hne (congrArg Prod.fst he)⟩, fun h => (mem_spend.1 h).1⟩
    rcases h with ⟨rfl, -⟩ | ⟨rfl, -⟩
    exacts [⟨(hspend _).1, fun h => .inl ((hspend _).2 h)⟩,
      ⟨(hspend (w.set name data)).1, fun h => .inl ((hspend (w.set name data)).2 h)⟩]
  | create name data =>
    rcases h with ⟨rfl, -⟩ | ⟨rfl, -⟩ | ⟨rfl, -⟩ <;> exact ⟨fun h _ => h, .inl⟩
  | now =>
    obtain rfl : w' = w := h
    exact ⟨fun h _ => h, .inl⟩

theorem sem_persists {c : Call} {r : c.Ans} (hI : Inv w) (hal : Allowed i w c)
    (h : sem i w c w' r) : Persists w w' := by
  rcases sem_objects h with ho | ⟨name, data, rfl, ho⟩ | ⟨name, data, rfl, hn, ho⟩
  · intro name d _ _ hd
    rwa [ho]
  · have hp : Persists w (w.set name data) := set_persists fun hx => (hI _ (hal hx).1).2
    intro name' d hn hd hd'
    rw [ho]
    exact hp name' d hn hd hd'
  · have hp : Persists w (w.set name data) := set_persists fun _ d hd => by
      rw [hn] at hd
      cases hd
    intro name' d hn hd hd'
    rw [ho]
    exact hp name' d hn hd hd'

theorem sem_inv {c : Call} {r : c.Ans} (hI : Inv w) (hal : Allowed i w c) (hc : Admitted w c)
    (h : sem i w c w' r) : Inv w' := by
  intro p hp
  have hold : p.2.isIndex = true ∧ ∀ d, w.objects p.2 = some d → d.orchestrated = false := by
    rcases (sem_pending h p).2 hp with hp | ⟨-, rfl, hd⟩
    exacts [hI p hp, ⟨hal rfl, hd⟩]
  refine ⟨hold.1, fun d hd => ?_⟩
  rcases sem_objects h with ho | ⟨name, data, rfl, ho⟩ | ⟨name, data, rfl, -, ho⟩
  · exact hold.2 d (by rwa [ho] at hd)
  · rw [ho] at hd
    by_cases hpn : p.2 = name
    · subst hpn
      have hdd : data = d := by simpa [World.set] using hd
      exact hdd ▸ (hal hold.1).2
    · exact hold.2 d (by simpa [World.set, Function.update_of_ne hpn] using hd)
  · rw [ho] at hd
    have hpn : p.2 ≠ name := by
      rcases (sem_pending h p).2 hp with hp | ⟨-, hx, -⟩
      · exact hc p hp
      · cases hx
    exact hold.2 d (by simpa [World.set, Function.update_of_ne hpn] using hd)

end Steps

/-- The contract of the calls: an object that is created is created under no pending call. -/
def contract (ι : Type) [DecidableEq ι] : Discipline ι (World ι) Call.Ans where
  toSystem := (system ι).restrict fun _ => Admitted
  Inv := Inv
  Allowed := Allowed
  Rely := Rely
  rely_refl _ w := ⟨fun _ h => h, .refl w⟩
  rely_trans _ _ _ _ h h' := ⟨fun n hn => h'.pending n (h.pending n hn), h.persists.trans h'.persists⟩
  inv_sem _ _ _ _ _ hI hal h := sem_inv hI hal h.1 h.2
  rely_sem _ _ _ _ _ _ hij hI hal h :=
    ⟨fun _ hn => (sem_pending h.2 _).1 hn (Ne.symm hij), sem_persists hI hal h.2⟩
  inv_env _ _ _ h := h.elim
  rely_env _ _ _ _ h := h.elim

section Rules

variable {i : ι} {w : World ι} {rules : Rules} {x : Immutable}

theorem perform_yields {c : Call} {P : c.Val → World ι → Prop}
    (h : ∀ w₁ w₂, Rely i w w₁ → Inv w₁ → Allowed i w₁ c ∧ ∀ v, sem i w₁ c w₂ (.ok v) → P v w₂) :
    (contract ι).Yields i (perform c) P w := by
  refine Yields.ask fun w₁ hr hI => ⟨(h w₁ w₁ hr hI).1, fun w₂ r hs _ => ?_⟩
  rcases r with e | v
  · exact .raise e
  · exact .pure ((h w₁ w₂ hr hI).2 v hs.2)

/-- The requests that are allowed everywhere. -/
def Call.Free (c : Call) : Prop :=
  match c with
  | .read _ replacing => replacing = false
  | .write name _ => name.isIndex = false
  | _ => True

omit [DecidableEq ι] in
theorem Call.Free.allowed {c : Call} (h : c.Free) : Allowed i w c := by
  cases c with
  | read name replacing =>
    intro hr
    rw [show replacing = false from h] at hr
    cases hr
  | write name data =>
    intro hn
    rw [show name.isIndex = false from h] at hn
    cases hn
  | _ => trivial

theorem free_yields {α : Type} {p : Program α} (h : p.Asks Call.Free) :
    (contract ι).Yields i p (fun _ _ => True) w :=
  Yields.of_asks (A := Call.Free) (fun _ _ hc _ => hc.allowed) h

theorem perform_asks {c : Call} (h : c.Free := by trivial) : (perform c).Asks Call.Free :=
  ⟨h, fun r => .lift r⟩

theorem refuse_asks (b : Prop) [Decidable b] (e : Raised) : (refuse b e).Asks Call.Free :=
  .ite (fun _ => .raise e) fun _ => .pure ()

theorem saveLatest_asks (date : Data → String) (data : Data) :
    (saveLatest date data).Asks Call.Free := by
  refine .bind (fun current => ?_) perform_asks
  rcases current with _ | d
  · exact perform_asks
  · exact .ite (fun _ => perform_asks) fun _ => .pure ()

theorem saveReport_yields (p : Create) :
    (contract ι).Yields i (saveReport rules p) (fun _ _ => True) w := by
  refine (free_yields (refuse_asks _ _)).bind fun _ w₁ _ => ?_
  refine (free_yields perform_asks).bind fun now w₂ _ => ?_
  refine Yields.bind (P := fun existing w' => (∀ d, existing = some d → d.orchestrated = false) →
    (i, objectName p) ∈ w'.pending) ?_ fun existing w₃ h => ?_
  · refine perform_yields fun w₃ w₄ _ _ => ⟨fun _ => rfl, fun existing hs hd => ?_⟩
    rcases hs with ⟨-, e, he⟩ | ⟨he, rfl⟩
    · cases he
    · cases he
      exact (await_pending _).2 (.inr ⟨rfl, hd⟩)
  · have hwrite : (i, objectName p) ∈ w₃.pending → (contract ι).Yields i (do
        perform (.write (objectName p) (.plain (received rules p now)))
        saveLatest Data.generatedAt (.plain (received rules p now))
        pure (received rules p now)) (fun _ _ => True) w₃ := by
      intro hp
      refine Yields.bind (P := fun _ _ => True) ?_ fun _ w₄ _ => ?_
      · exact perform_yields fun w₄ _ hr _ => ⟨fun _ => ⟨hr.pending _ hp, rfl⟩, fun _ _ => trivial⟩
      · exact (free_yields (saveLatest_asks _ _)).bind fun _ _ _ => .pure trivial
    rcases existing with _ | ⟨r⟩ | ⟨_, _, r⟩
    · exact hwrite (h fun d hd => by cases hd)
    · exact hwrite (h fun d hd => by cases hd; rfl)
    · exact .ite (fun _ => .pure trivial) fun _ => .raise _

/-- The index object of the call is orchestrated, and its report has that hash. -/
def Settled (rules : Rules) (x : Immutable) (w : World ι) : Prop :=
  ∃ d, w.objects x.indexName = some d ∧ d.orchestrated = true ∧
    rules.hash d.report.create = x.hash rules

omit [DecidableEq ι] in
theorem indexName_isIndex (x : Immutable) : x.indexName.isIndex = true := by
  unfold Immutable.indexName
  split <;> rfl

omit [DecidableEq ι] in
theorem Settled.persists {w' : World ι} (h : Settled rules x w) (hp : Persists w w') :
    Settled rules x w' := by
  obtain ⟨d, hd, ho, hh⟩ := h
  exact ⟨d, hp _ d (indexName_isIndex x) ho hd, ho, hh⟩

theorem kept_settled :
    (contract ι).Kept i (fun _ => True) (Settled rules x : World ι → Prop) where
  stable _ _ hr h := h.persists hr.persists
  own _ _ _ _ _ hI hal hs h := h.persists (sem_persists hI hal hs.2)

omit [DecidableEq ι] in
theorem agrees_settled {d : Data} (h : x.agrees rules d = true)
    (hd : w.objects x.indexName = some d) : Settled rules x w := by
  unfold Immutable.agrees at h
  simp only [Bool.and_eq_true, decide_eq_true_eq] at h
  cases d with
  | plain r => cases h.2
  | wrapped => exact ⟨_, hd, rfl, h.1⟩

/-- A read of the index object that is there, and the comparison with it. -/
theorem compare_yields {e : Data → Raised} {p : Program (Report × String)}
    (hp : ∀ w, (contract ι).Yields i p (fun y w' => y.2 = x.hash rules ∧ Settled rules x w') w) :
    (contract ι).Yields i (do
      let current ← perform (.read x.indexName false)
      match current with
      | some d => if x.agrees rules d then pure (d.report, x.hash rules) else .raise (e d)
      | none => p) (fun y w' => y.2 = x.hash rules ∧ Settled rules x w') w := by
  refine Yields.bind (P := fun current w' => ∀ d, current = some d → x.agrees rules d = true →
    Settled rules x w') ?_ fun current w₁ h => ?_
  · refine perform_yields fun w₁ w₂ _ _ => ⟨nofun, fun current hs d hd ha => ?_⟩
    rcases hs with ⟨-, er, her⟩ | ⟨he, rfl⟩
    · cases her
    · cases he
      exact agrees_settled ha hd
  · rcases current with _ | d
    · exact hp w₁
    · exact .ite (fun ha => .pure ⟨rfl, h d rfl ha⟩) fun _ => .raise _

theorem saveImmutableReport_yields (hn : x.payload.commitSha.toLower = x.payload.commitSha) :
    (contract ι).Yields i (saveImmutableReport rules x)
      (fun y w' => y.2 = x.hash rules ∧ Settled rules x w') w := by
  refine (free_yields (refuse_asks _ _)).bind fun _ w₁ _ => ?_
  refine (free_yields (refuse_asks _ _)).bind fun _ w₂ _ => ?_
  refine (free_yields perform_asks).bind fun now w₃ _ => ?_
  refine compare_yields (e := x.conflict rules) fun w₄ => ?_
  refine (free_yields perform_asks).bind fun _ w₅ _ => ?_
  refine Yields.bind (P := fun created w' => created = true → Settled rules x w') ?_
    fun created w₆ h => ?_
  · refine perform_yields fun w₆ w₇ _ _ => ⟨trivial, fun created hs hc => ?_⟩
    rcases hs with ⟨-, e, he⟩ | ⟨-, -, he⟩ | ⟨rfl, -, he⟩
    · cases he
    · cases he
      cases hc
    · refine ⟨_, by simp [World.set]; rfl, rfl, ?_⟩
      simp only [Data.report, received, Immutable.hash, hn]
  · refine .ite (fun hc => ?_) fun _ => ?_
    · refine Yields.bind_kept kept_settled (.any _) (free_yields (saveLatest_asks _ _)) (h hc)
        fun _ _ _ hs => .pure ⟨rfl, hs⟩
    · exact compare_yields (e := fun _ => .conflict _) fun w => .raise _

end Rules

end Quality
