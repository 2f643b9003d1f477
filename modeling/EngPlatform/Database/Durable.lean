import EngPlatform.Database.Contract

/-!
# Published captures are durable

Every job obeys the contract, so that in every run of any number of jobs the capture of an execution
that is completed, with its time not up and its workspace not purged, is whole, and its storage is
reserved.
-/

set_option linter.dupNamespace false

namespace Database

open Interleave

variable {ι : Type} {cfg : Settings} {i : ι} {w : World ι} {id : String}

section Rules

theorem perform_yields {c : Call} {P : c.Val → World ι → Prop}
    (h : ∀ w₁, Rely i w w₁ → Inv w₁ → Allowed i w₁ c ∧
      ∀ w₂ v, Admitted w₁ c → sem cfg i w₁ c w₂ (.ok v) → Inv w₂ → P v w₂) :
    (contract ι cfg).Yields i (perform c) P w := by
  intro w₁ hr hI
  refine ⟨(h w₁ hr hI).1, fun w₂ r hs hI₂ => ?_⟩
  rcases r with x | v
  · exact Discipline.Yields.raise x
  · exact Discipline.Yields.pure ((h w₁ hr hI).2 w₂ v hs.1 hs.2 hI₂)

theorem refuse_yields {b : Prop} [Decidable b] {x : Raised} {P : Unit → World ι → Prop}
    (h : ¬b → P () w) : (contract ι cfg).Yields i (refuse b x) P w :=
  .ite (fun _ => .raise x) fun hb => .pure (h hb)

/-- What every step keeps. -/
theorem kept_of_grow {K : World ι → Prop} (hK : ∀ w w', Grow w w' → K w → K w') :
    (contract ι cfg).Kept i (fun _ => True) K where
  stable _ _ hr h := hK _ _ hr.grow h
  own _ _ _ _ _ hI hal hs h := hK _ _ (sem_step hI hal hs.1 hs.2).1 h

/-- The requests that are allowed everywhere. -/
def Call.isQuiet : Call → Bool
  | .mutate (.reserveStaging _ _) | .mutate (.insert _ _ _ _) | .mutate (.finish _ _ _ _ _)
  | .mutate (.release _) => false
  | .delete path _ => !path.name.isCapture
  | _ => true

theorem quiet_allowed {c : Call} (hc : c.isQuiet = true) : Allowed i w c := by
  cases c with
  | mutate t => cases t <;> trivial
  | delete path _ => exact .inl (by simpa [Call.isQuiet] using hc)
  | _ => trivial

abbrev Quiet {α : Type} (p : Program α) : Prop := p.Asks fun c => c.isQuiet = true

theorem quiet_yields {α : Type} {p : Program α} (h : Quiet p) :
    (contract ι cfg).Yields i p (fun _ _ => True) w :=
  .of_asks (fun _ _ hc _ => quiet_allowed hc) h

theorem asks_perform {A : Call → Prop} {c : Call} (hc : A c) : (perform c).Asks A :=
  ⟨hc, fun r => .lift r⟩

theorem quiet_perform {c : Call} (hc : c.isQuiet = true) : Quiet (perform c) :=
  asks_perform hc

theorem quiet_refuse (b : Prop) [Decidable b] (x : Raised) : Quiet (refuse b x) :=
  .ite (fun _ => .raise x) fun _ => .pure ()

theorem quiet_each {α : Type} {f : α → Program Unit} (hf : ∀ a, Quiet (f a)) :
    ∀ l : List α, Quiet (each l f)
  | [] => .pure ()
  | a :: l => .bind (fun _ => quiet_each hf l) (hf a)

theorem quiet_checkDeadline : Quiet checkDeadline :=
  .bind (fun _ => quiet_refuse _ _) (quiet_perform rfl)

theorem quiet_findWorkspace (workspaceId : String) (reader : Reader) (databaseId : String) :
    Quiet (findWorkspace workspaceId reader databaseId) := by
  refine .bind (fun o => ?_) (quiet_perform rfl)
  rcases o with _ | value
  · exact .raise _
  · exact .bind (fun _ => .bind (fun _ => .bind (fun _ => .bind (fun _ => .bind (fun _ =>
      .bind (fun _ => .pure _) (quiet_perform rfl)) (quiet_refuse _ _)) (quiet_perform rfl))
      (quiet_refuse _ _)) (quiet_perform rfl)) (quiet_refuse _ _)

theorem quiet_findExecution (databaseId workspaceId executionId : String) :
    Quiet (findExecution databaseId workspaceId executionId) := by
  refine .bind (fun reader => .bind (fun _ => .bind (fun o => ?_) (quiet_perform rfl))
    (quiet_findWorkspace _ _ _)) (quiet_perform rfl)
  rcases o with _ | value
  · exact .raise _
  · exact .bind (fun _ => .bind (fun _ => .bind (fun _ => .bind (fun _ => .bind (fun _ =>
      .pure _) (quiet_refuse _ _)) (quiet_perform rfl)) (quiet_refuse _ _)) (quiet_perform rfl))
      (quiet_refuse _ _)

theorem quiet_authorize (value : Execution) (force : Bool) : Quiet (authorize value force) := by
  refine .bind (fun _ => .bind (fun _ => .bind (fun _ => .ite (fun _ => .pure ()) fun _ => ?_)
    (quiet_perform rfl)) (quiet_refuse _ _)) (quiet_perform rfl)
  refine .bind (fun _ => .bind (fun _ => .bind (fun _ => .bind (fun _ => .bind (fun o => ?_)
    (quiet_perform rfl)) (quiet_findWorkspace _ _ _)) (quiet_perform rfl)) (quiet_refuse _ _))
    (quiet_perform rfl)
  rcases o with _ | current
  · exact .raise _
  · exact .bind (fun _ => quiet_refuse _ _) (quiet_perform rfl)

theorem each_yields {α : Type} {f : α → Program Unit} {K : World ι → Prop} : ∀ {l : List α}
    {w : World ι}, (∀ a ∈ l, ∀ w, K w → (contract ι cfg).Yields i (f a) (fun _ w' => K w') w) →
      K w → (contract ι cfg).Yields i (each l f) (fun _ w' => K w') w
  | [], _, _, hK => .pure hK
  | a :: _, _, hf, hK => (hf a List.mem_cons_self _ hK).bind fun _ _ hK' =>
    each_yields (fun b hb => hf b (List.mem_cons_of_mem a hb)) hK'

end Rules

section Erase

/-- What `i` may erase. -/
def Able (i : ι) (id : String) (w : World ι) : Prop := w.over id = true ∨ Mine i id w

theorem Able.rely {w' : World ι} (h : Able i id w) (hr : Rely i w w') : Able i id w' :=
  h.imp (hr.grow.ended id) (hr.mine id)

theorem over_kept (id : String) :
    (contract ι cfg).Kept i (fun _ => True) (fun w => w.over id = true) :=
  kept_of_grow fun _ _ hg h => hg.ended id h

theorem able_kept (id : String) :
    (contract ι cfg).Kept i (fun c => c.inserts ≠ some id) (Able i id) where
  stable _ _ hr h := h.rely hr
  own _ _ _ _ hc hI hal hs h := by
    obtain ⟨hg, -, hm⟩ := sem_step hI hal hs.1 hs.2
    exact h.imp (hg.ended id) (hm i id hc)

theorem quiet_inserts {α : Type} {p : Program α} (h : Quiet p) (id : String) :
    p.Asks fun c => c.inserts ≠ some id := by
  refine Prog.Asks.mono (fun c hc hid => ?_) h
  cases c with
  | mutate t => cases t <;> simp_all [Call.inserts, Call.isQuiet]
  | _ => cases hid

theorem quiet_able {α : Type} {p : Program α} (hq : Quiet p) (h : Able i id w) :
    (contract ι cfg).Yields i p (fun _ w' => Able i id w') w :=
  ((quiet_yields hq).keep (able_kept id) (quiet_inserts hq id) h).mono fun _ _ h => h.2

theorem list_able (folder : Folder) (limit : ℕ) (h : Able i id w) :
    (contract ι cfg).Yields i (perform (.list folder id limit))
      (fun l w' => (∀ o ∈ l, o.path.execution = id) ∧ Able i id w') w := by
  refine perform_yields fun w₁ hr hI => ⟨trivial, fun w₂ l _ hs _ => ?_⟩
  obtain ⟨rfl, hl | ⟨x, hx⟩⟩ := hs
  · obtain rfl := Except.ok.inj hl
    refine ⟨fun o ho => ?_, h.rely hr⟩
    have hm := List.mem_of_mem_take ho
    exact (of_decide_eq_true (List.mem_filter.1 hm).2).2
  · cases hx

/-- A request that ability allows. -/
theorem perform_able {c : Call} (hc : c.inserts ≠ some id)
    (hal : ∀ w, Able i id w → Allowed i w c) (h : Able i id w) :
    (contract ι cfg).Yields i (perform c) (fun _ w' => Able i id w') w := by
  have hy : (contract ι cfg).Yields i (perform c) (fun _ _ => True) w := perform_yields
    fun w₁ hr _ => ⟨hal w₁ (h.rely hr), fun _ _ _ _ _ => trivial⟩
  exact (hy.keep (able_kept id) (asks_perform hc) h).mono fun _ _ h => h.2

theorem delete_able {path : Path} (generation : ℕ) (hp : path.execution = id) (h : Able i id w) :
    (contract ι cfg).Yields i (perform (.delete path generation)) (fun _ w' => Able i id w') w :=
  perform_able (by simp [Call.inserts]) (fun _ h => .inr (hp ▸ h)) h

theorem purgeFolder_able (folder : Folder) (h : Able i id w) :
    (contract ι cfg).Yields i (purgeFolder id folder) (fun _ w' => Able i id w') w := by
  refine (quiet_able quiet_checkDeadline h).bind fun _ w₁ h₁ =>
    (list_able folder 600 h₁).bind fun l w₂ h₂ => ?_
  exact each_yields (fun o ho w₃ h₃ => (quiet_able quiet_checkDeadline h₃).bind fun _ w₄ h₄ =>
    delete_able _ (h₂.1 o ho) h₄) h₂.2

theorem confirmEmpty_able (folder : Folder) (h : Able i id w) :
    (contract ι cfg).Yields i (confirmEmpty id folder) (fun _ w' => Able i id w') w :=
  quiet_able (.bind (fun _ => .bind (fun _ => quiet_refuse _ _) (quiet_perform rfl))
    quiet_checkDeadline) h

/-- The objects of what is over may be purged, and it stays over. -/
theorem purge_able (h : Able i id w) :
    (contract ι cfg).Yields i (purge id) (fun _ w' => Able i id w') w :=
  (quiet_able (quiet_refuse _ _) h).bind fun _ _ h =>
    (quiet_able quiet_checkDeadline h).bind fun _ _ h =>
      (purgeFolder_able .inputs h).bind fun _ _ h =>
        (purgeFolder_able .results h).bind fun _ _ h =>
          (confirmEmpty_able .inputs h).bind fun _ _ h => confirmEmpty_able .results h

theorem releaseStorage_able (h : Able i id w) :
    (contract ι cfg).Yields i (releaseStorage id) (fun _ w' => Able i id w') w :=
  perform_able (by simp [Call.inserts]) (fun _ h => h.imp_right .inr) h

/-- The identities that are not an execution's. -/
theorem releaseExports_yields {exports : List Export}
    (h : ∀ x ∈ exports, w.others x.exportId = true) :
    (contract ι cfg).Yields i (releaseExports exports) (fun _ _ => True) w := by
  have hkept : (contract ι cfg).Kept i (fun _ => True)
      (fun w => ∀ x ∈ exports, w.others x.exportId = true) :=
    kept_of_grow fun _ _ hg h x hx => hg.others _ (h x hx)
  refine (each_yields (K := fun w => ∀ x ∈ exports, w.others x.exportId = true)
    (fun x hx w₁ h₁ => ?_) h).mono fun _ _ _ => trivial
  refine ((Discipline.Yields.bind (P := fun _ w' => ∀ x ∈ exports, w'.others x.exportId = true)
    (Q := fun _ _ => True) (((quiet_yields quiet_checkDeadline).keep hkept (.any _) h₁).mono
      fun _ _ h => h.2) fun _ w₂ h₂ => ?_).keep hkept (.any _) h₁).mono fun _ _ h => h.2
  exact perform_yields fun w₃ hr hI =>
    ⟨.inr (.inl (hr.grow.others _ (h₂ x hx))), fun _ _ _ _ _ => trivial⟩

theorem findExports_yields (executionId : String) (limit : ℕ) :
    (contract ι cfg).Yields i (perform (.findExports executionId limit))
      (fun l w' => ∀ x ∈ l, w'.others x.exportId = true) w := by
  refine perform_yields fun w₁ hr hI => ⟨trivial, fun w₂ l _ hs _ => ?_⟩
  obtain ⟨rfl, ⟨x, hx⟩ | ⟨l', hl, hf⟩⟩ := hs
  · cases hx
  · obtain rfl := Except.ok.inj hl
    intro x hx
    obtain ⟨id', hid, -⟩ := hf.2.1 x hx
    obtain ⟨he, ho⟩ := hI.exported id' x hid
    exact he ▸ ho

end Erase

section Rows

/-- A row was inserted, and what is left of it satisfies `P`. -/
def Left (P : Execution → Prop) (id : String) (w : World ι) : Prop :=
  w.created id = true ∧ ∀ e, w.row id = some e → P e

def NotQueued (e : Execution) : Prop := e.state ≠ .queued

def ClaimedBy (claim : Option String) (e : Execution) : Prop :=
  e.state ≠ .queued ∧ e.claim = claim

theorem left_grow {P : Execution → Prop} (hP : ∀ e e' : Execution, e.Evolves e' → P e → P e')
    (w w' : World ι) (hg : Grow w w') (h : Left P id w) : Left P id w' := by
  refine ⟨hg.created id h.1, fun e' he' => ?_⟩
  obtain ⟨e, he, hev⟩ := hg.row id h.1 e' he'
  exact hP e e' hev (h.2 e he)

theorem left_kept {P : Execution → Prop} (hP : ∀ e e' : Execution, e.Evolves e' → P e → P e') :
    (contract ι cfg).Kept i (fun _ => True) (Left P id) :=
  kept_of_grow (left_grow hP)

theorem NotQueued.evolves (e e' : Execution) (h : e.Evolves e') (hq : NotQueued e) :
    NotQueued e' := (h.claimed hq).1

theorem ClaimedBy.evolves (claim : Option String) (e e' : Execution) (h : e.Evolves e')
    (hc : ClaimedBy claim e) : ClaimedBy claim e' :=
  ⟨(h.claimed hc.1).1, (h.claimed hc.1).2.trans hc.2⟩

theorem any_evolves (e e' : Execution) (_ : e.Evolves e') (_ : True) : True := trivial

theorem settled_evolves (e e' : Execution) (h : e.Evolves e') (hs : e.isSettled = true) :
    e'.isSettled = true := h.settled hs

/-- What a read of an execution's row tells. -/
structure Told (id : String) (reading : Reading) (o : Option Execution) (w : World ι) : Prop where
  row : w.row id = o
  created : o ≠ none → w.created id = true
  identity : ∀ e, o = some e → e.executionId = id
  unpublished : reading = .undispatched → w.published id = false
  missed : reading = .cleanup → o = none → w.over id = true

theorem read_yields (reading : Reading) {K : World ι → Prop}
    (hK : (contract ι cfg).Kept i (fun _ => True) K) (h : K w) :
    (contract ι cfg).Yields i (perform (.execution id reading))
      (fun o w' => Told id reading o w' ∧ K w') w := by
  refine (perform_yields (c := .execution id reading) (P := Told id reading) fun w₁ hr hI =>
    ⟨trivial, fun w₂ o had hs hI₂ => ?_⟩).keep hK (.any _) h
  rcases hs with ⟨-, x, hx⟩ | ⟨rfl, ho⟩
  · cases hx
  · obtain rfl := Except.ok.inj ho
    have hrow : (w₁.look id reading).row id = w₁.row id := by
      unfold World.look
      split_ifs <;> rfl
    refine ⟨hrow, fun hne => ?_, fun e he => (hI.row id e he).1, fun hu => ?_, fun hc hn => ?_⟩
    · obtain ⟨e, he⟩ := Option.ne_none_iff_exists'.1 hne
      exact (hI₂.row id e (hrow.trans he)).2.1
    · subst hu
      exact had
    · rw [over_none (hrow.trans hn)]
      simp [World.look, hc, hn]

theorem Told.left {P : Execution → Prop} {reading : Reading} {o : Option Execution}
    (h : Told id reading o w) (hne : o ≠ none) (hP : ∀ e, o = some e → P e) : Left P id w :=
  ⟨h.created hne, fun e he => hP e (h.row.symm.trans he)⟩

theorem Told.over {P : Execution → Prop} {reading : Reading} (h : Told id reading none w)
    (hl : Left P id w) : w.over id = true := over_of_none h.row hl.1

/-- What a finish leaves of a row. -/
theorem finish_left {claim : Option String} {state : State} {error : Option String}
    {changes : Option Capture} {s : Store} {e' : Execution}
    (he' : (finishExecution cfg s id claim state error changes).executions.lookup id = some e') :
    ∃ e, s.executions.lookup id = some e ∧
      ((e.finishable claim state = false ∧ e' = e) ∨
        e' = e.settled (settledState cfg s e state) error changes s.now) := by
  unfold finishExecution at he'
  rcases hr : s.executions.lookup id with _ | e
  · simp only [hr] at he'
    cases he'
  · simp only [hr] at he'
    refine ⟨e, rfl, ?_⟩
    by_cases hf : e.finishable claim state = false
    · rw [if_pos hf, hr] at he'
      exact .inl ⟨hf, (Option.some.inj he').symm⟩
    · simp only [if_neg hf, AList.lookup_insert, Option.some.injEq] at he'
      exact .inr he'.symm

/-- `_finish`, by what its transaction makes of the row. -/
theorem finish_yields {claim : Option String} {state : State} {error : Option String}
    {changes : Option Capture} {K : World ι → Prop} {P : World ι → Prop}
    (hK : (contract ι cfg).Kept i (fun _ => True) K) (h : K w)
    (hal : ∀ w, K w → Allowed i w (.mutate (.finish id claim state error changes)))
    (hnone : ∀ w, K w → w.row id = none → P w)
    (hsome : ∀ w, K w → Inv w → Admitted w (.mutate (.finish id claim state error changes)) →
      P (w.stored (finishExecution cfg w.store id claim state error changes))) :
    (contract ι cfg).Yields i (finish id claim state error changes) (fun _ w' => P w') w := by
  refine (read_yields .plain hK h).bind fun o w₁ h₁ => ?_
  rcases o with _ | e
  · exact .pure (hnone w₁ h₁.2 h₁.1.row)
  · refine perform_yields fun w₂ hr hI => ?_
    have h₂ := hK.stable _ _ hr h₁.2
    refine ⟨hal w₂ h₂, fun w₃ v had hs _ => ?_⟩
    rcases hs with ⟨-, x, hx⟩ | ⟨s, v', hrun, rfl, -⟩
    · cases hx
    · obtain rfl : finishExecution cfg w₂.store id claim state error changes = s :=
        (Prod.mk.inj (Except.ok.inj hrun)).1
      exact hsome w₂ h₂ hI had

/-- A capture stays whole unless its execution is over. -/
theorem whole_grow {w' : World ι} {manifest : Reference} (hg : Grow w w')
    (h : w.over id = true ∨ w.created id = true ∧ w.Whole id manifest) :
    w'.over id = true ∨ w'.created id = true ∧ w'.Whole id manifest := by
  by_cases ho : w'.over id = true
  · exact .inl ho
  rcases h with h | ⟨hc, hw⟩
  · exact .inl (hg.ended id h)
  · refine .inr ⟨hg.created id hc, hw.congr fun path hid hn o hp => ?_⟩
    subst hid
    exact (hg.objects path hc hn o hp).resolve_left ho

/-- A dispatch that fails leaves no queued row. -/
theorem finish_undispatched {error : Option String} (h : Left (fun _ => True) id w) :
    (contract ι cfg).Yields i (finish id none .failed error none)
      (fun _ w' => Left NotQueued id w') w := by
  refine finish_yields (left_kept any_evolves) h (fun _ _ => ⟨.inr (.inl rfl), nofun⟩)
    (fun w₁ h₁ hr => ⟨h₁.1, fun e he => nomatch hr.symm.trans he⟩) fun w₁ h₁ _ _ =>
    ⟨by simp [World.stored, h₁.1], fun e' he' => ?_⟩
  obtain ⟨e, he, ⟨hf, rfl⟩ | rfl⟩ := finish_left he'
  · intro hq
    simp [Execution.finishable, hq] at hf
  · show (e.settled _ _ _ _).state ≠ .queued
    rw [settled_state]
    exact (settledState_settled (.inr (.inl rfl))).1

/-- A row that its own claim finishes is settled. -/
theorem finished_settled {claim : Option String} {state : State} {error : Option String}
    {changes : Option Capture} {s : Store} {e' : Execution} (hs : Settles state)
    (hc : claim ≠ none) (h : ∀ e, s.executions.lookup id = some e → ClaimedBy claim e)
    (he' : (finishExecution cfg s id claim state error changes).executions.lookup id = some e') :
    e'.isSettled = true := by
  unfold Execution.isSettled
  obtain ⟨e, he, ⟨hf, rfl⟩ | rfl⟩ := finish_left he'
  · have hne : claim.isNone = false := by
      rw [Option.isNone_eq_false_iff, Option.isSome_iff_ne_none]
      exact hc
    have hcl := (h e' he).2
    simp only [Execution.finishable, hne, hcl, Bool.false_and, Bool.not_false, Bool.and_true,
      decide_true, Bool.or_true, Bool.or_eq_false_iff, decide_eq_false_iff_not] at hf
    simpa using hf
  · simpa using settledState_settled hs

/-- A failure handler whose transaction does not find the execution published ends it. -/
theorem finish_failed {claim error : Option String} (hc : claim ≠ none)
    (h : Left (ClaimedBy claim) id w) :
    (contract ι cfg).Yields i (finish id claim .failed error none)
      (fun _ w' => w'.over id = true) w := by
  refine finish_yields (left_kept (ClaimedBy.evolves claim)) h
    (fun _ _ => ⟨.inr (.inl rfl), nofun⟩) (fun w₁ h₁ hr => over_of_none hr h₁.1)
    fun w₁ h₁ hI had => ?_
  obtain ⟨c, rfl⟩ := Option.ne_none_iff_exists'.1 hc
  have hcreated : (w₁.stored (finishExecution cfg w₁.store id (some c) .failed error none)).created
      id = true := by simp [World.stored, h₁.1]
  rcases hr : (w₁.stored (finishExecution cfg w₁.store id (some c) .failed error none)).row id
    with _ | e'
  · exact over_of_none hr hcreated
  · obtain ⟨e, he, ⟨hf, rfl⟩ | rfl⟩ := finish_left hr
    · have hs := finished_settled (.inr (.inl rfl)) hc h₁.2 hr
      have hal : Allowed i w₁ (.mutate (.finish id (some c) .failed error none)) :=
        ⟨.inr (.inl rfl), nofun⟩
      exact stored_over hI hal had rfl (over_of_settled he hs had)
    · rw [over_some hr]
      have ho : (e.settled (settledState cfg w₁.store e .failed) error none
          w₁.store.now).isOver (w₁.stored (finishExecution cfg w₁.store id (some c) .failed error
            none)).store.now = true := by
        rw [isOver_iff, settled_state]
        rcases settledState_cases cfg w₁.store e .failed with h | ⟨-, h | h⟩ <;>
          simp [h]
      rw [ho, Bool.true_or]

/-- A publication settles the row. -/
theorem finish_completed {claim : Option String} {c : Capture} (hc : claim ≠ none)
    (h : Left (ClaimedBy claim) id w) (hw : w.over id = true ∨ w.Whole id c.manifest) :
    (contract ι cfg).Yields i (finish id claim .completed none (some c))
      (fun _ w' => Left (fun e => e.isSettled = true) id w') w := by
  have hcap : (contract ι cfg).Kept i (fun _ => True)
      (fun w => w.over id = true ∨ w.created id = true ∧ w.Whole id c.manifest) :=
    kept_of_grow fun w₁ w₂ hg h₁ => whole_grow hg h₁
  refine finish_yields ((left_kept (ClaimedBy.evolves claim)).and hcap)
    ⟨h, hw.imp_right fun hw => ⟨h.1, hw⟩⟩ (fun w₁ h₁ => ⟨.inl rfl, fun _ =>
      ⟨c, rfl, h₁.2.imp_right And.right⟩⟩)
    (fun w₁ h₁ hr => ⟨h₁.1.1, fun e he => nomatch hr.symm.trans he⟩) fun w₁ h₁ hI had =>
    ⟨by simp [World.stored, h₁.1.1], fun e' he' => finished_settled (.inl rfl) hc h₁.1.2 he'⟩

end Rows

section Cleanup

/-- An execution whose row is emptied is over. -/
theorem emptied_over {s : Store} (hc : w.created id = true)
    (h : ∀ e', s.executions.lookup id = some e' → e'.state = .purged ∨ e'.state = .expired) :
    (w.stored s).over id = true := by
  rcases hr : (w.stored s).row id with _ | e'
  · exact over_of_none hr (by simp [World.stored, hc])
  · have ho : e'.isOver (w.stored s).store.now = true := by
      rw [isOver_iff]
      rcases h e' hr with h | h <;> simp [h]
    rw [over_some hr, ho, Bool.true_or]

theorem empty_yields {t : Txn} {f : Execution → Execution} (hq : (Call.mutate t).isQuiet = true)
    (hf : ∀ e, (f e).state = .purged ∨ (f e).state = .expired)
    (ht : ∀ s s' v, t.run cfg s = .ok (s', v) → s'.executions = s.executions.modify id f)
    (h : Left (fun _ => True) id w) :
    (contract ι cfg).Yields i (perform (.mutate t)) (fun _ w' => w'.over id = true) w := by
  refine perform_yields fun w₁ hr hI => ⟨quiet_allowed hq, fun w₂ v _ hs _ => ?_⟩
  have h₁ := left_grow any_evolves _ _ hr.grow h
  rcases hs with ⟨-, x, hx⟩ | ⟨s, v', hrun, rfl, -⟩
  · cases hx
  · refine emptied_over h₁.1 fun e' he' => ?_
    rw [ht _ _ _ hrun, Rows.lookup_modify, if_pos rfl] at he'
    obtain ⟨e, -, rfl⟩ := Option.map_eq_some_iff.1 he'
    exact hf e

theorem invalidate_yields (h : Left (fun _ => True) id w) :
    (contract ι cfg).Yields i (perform (.mutate (.invalidate id)))
      (fun _ w' => w'.over id = true) w := by
  refine empty_yields rfl (f := fun e => e.emptied .purged) (fun _ => .inl rfl)
    (fun s s' v hrun => ?_) h
  cases hrun
  rfl

theorem expire_yields (h : Left (fun _ => True) id w) :
    (contract ι cfg).Yields i (perform (.mutate (.expire id))) (fun _ w' => w'.over id = true) w := by
  refine empty_yields rfl (f := fun e => e.emptied e.state.retired) (fun e => retired_cases e.state)
    (fun s s' v hrun => ?_) h
  cases hrun
  rfl

/-- A quiet part of a program that goes on with what is over. -/
theorem quiet_over {α : Type} {p : Program α} (hq : Quiet p) (h : w.over id = true) :
    (contract ι cfg).Yields i p (fun _ w' => w'.over id = true) w :=
  ((quiet_yields hq).keep (over_kept id) (.any _) h).mono fun _ _ h => h.2

theorem purge_over (h : w.over id = true) :
    (contract ι cfg).Yields i (purge id) (fun _ w' => w'.over id = true) w :=
  ((purge_able (.inl h)).keep (over_kept id) (.any _) h).mono fun _ _ h => h.2

/-- `results.purge` and `_release_storage` of what is over. -/
theorem erase_yields (h : w.over id = true) :
    (contract ι cfg).Yields i (do purge id; releaseStorage id) (fun _ _ => True) w :=
  (purge_over h).bind fun _ _ h => (releaseStorage_able (.inl h)).mono fun _ _ _ => trivial

/-- The end of a cleanup: what is over is erased, with its exports. -/
theorem erased_yields {exports : List Export} {p : Program Unit} (hp : Quiet p)
    (h : w.over id = true) (hx : ∀ x ∈ exports, w.others x.exportId = true) :
    (contract ι cfg).Yields i (do
      purge id
      checkDeadline
      releaseStorage id
      releaseExports exports
      p) (fun _ _ => True) w := by
  have hkept : (contract ι cfg).Kept i (fun _ => True)
      (fun w => w.over id = true ∧ ∀ x ∈ exports, w.others x.exportId = true) :=
    kept_of_grow fun _ _ hg h => ⟨hg.ended id h.1, fun x hx => hg.others _ (h.2 x hx)⟩
  refine .bind_kept hkept (.any _) (purge_over h) ⟨h, hx⟩ fun _ _ _ h => ?_
  refine .bind_kept hkept (.any _) (quiet_yields quiet_checkDeadline) h fun _ _ _ h => ?_
  refine .bind_kept hkept (.any _) (releaseStorage_able (.inl h.1)) h fun _ _ _ h => ?_
  exact (releaseExports_yields h.2).bind fun _ _ _ => quiet_yields hp

/-- A quiet part is done with a kept fact. -/
theorem quiet_bind {α β : Type} {K : World ι → Prop} {p : Program α} {f : α → Program β}
    {Q : β → World ι → Prop} (hK : (contract ι cfg).Kept i (fun _ => True) K) (hq : Quiet p)
    (h : K w) (hf : ∀ a w', K w' → (contract ι cfg).Yields i (f a) Q w') :
    (contract ι cfg).Yields i (p >>= f) Q w :=
  .bind_kept hK (.any _) (quiet_yields hq) h fun a w' _ h => hf a w' h

theorem purgeExecution_yields {value : Execution}
    (h : Left (fun _ => True) value.executionId w) :
    (contract ι cfg).Yields i (purgeExecution value) (fun _ _ => True) w := by
  have hover : (contract ι cfg).Kept i (fun _ => True)
    (fun w => w.over value.executionId = true) := over_kept _
  refine quiet_bind (left_kept any_evolves) quiet_checkDeadline h fun _ w₁ h => ?_
  refine .ite (fun _ => .pure trivial) fun _ => ?_
  refine (invalidate_yields h).bind fun _ w₂ h => ?_
  refine quiet_bind hover quiet_checkDeadline h fun _ w₃ h => ?_
  refine quiet_bind hover (quiet_perform rfl) h fun exports w₄ h => ?_
  refine quiet_bind hover (quiet_each (fun x => .bind (fun _ => quiet_perform rfl)
    quiet_checkDeadline) exports) h fun _ w₅ h => ?_
  refine quiet_bind hover quiet_checkDeadline h fun _ w₆ h => ?_
  refine quiet_bind hover (quiet_perform rfl) h fun current w₇ h => ?_
  refine quiet_bind hover quiet_checkDeadline h fun _ w₈ h => ?_
  have hkept : ∀ exports : List Export, (contract ι cfg).Kept i (fun _ => True)
      (fun w => w.over value.executionId = true ∧ ∀ x ∈ exports, w.others x.exportId = true) :=
    fun exports => kept_of_grow fun _ _ hg h => ⟨hg.ended _ h.1, fun x hx => hg.others _ (h.2 x hx)⟩
  refine .bind_kept hover (.any _) (findExports_yields _ _) h fun exports w₉ hx h => ?_
  refine quiet_bind (hkept exports) (quiet_perform rfl) ⟨h, hx⟩ fun now w₁₀ h => ?_
  refine quiet_bind (hkept exports) (quiet_refuse _ _) h fun _ w₁₁ h => ?_
  refine quiet_bind (hkept exports) (quiet_perform rfl) h fun _ w₁₂ h => ?_
  exact erased_yields (.bind (fun _ => quiet_perform rfl) quiet_checkDeadline) h.1 h.2

/-- The rows that a lookup finds were inserted. -/
theorem findExecutions_yields (q : Query) (limit : ℕ) :
    (contract ι cfg).Yields i (perform (.findExecutions q limit)) (fun l w' => ∀ e ∈ l,
      w'.row e.executionId = some e ∧ q.finds e = true ∧ Inv w') w := by
  refine perform_yields fun w₁ hr hI => ⟨trivial, fun w₂ l _ hs _ => ?_⟩
  obtain ⟨rfl, ⟨x, hx⟩ | ⟨l', hl, hf⟩⟩ := hs
  · cases hx
  · obtain rfl := Except.ok.inj hl
    intro e he
    obtain ⟨id', hid, hq⟩ := hf.2.1 e he
    rw [(hI.row id' e hid).1]
    exact ⟨hid, hq, hI⟩

/-- What was inserted, of the rows that a lookup found. -/
def AllLeft (P : Execution → Execution → Prop) (l : List Execution) (w : World ι) : Prop :=
  ∀ e ∈ l, Left (P e) e.executionId w

theorem allLeft_kept {P : Execution → Execution → Prop} {l : List Execution}
    (hP : ∀ v e e' : Execution, e.Evolves e' → P v e → P v e') :
    (contract ι cfg).Kept i (fun _ => True) (AllLeft P l) :=
  kept_of_grow fun _ _ hg h e he => left_grow (hP e) _ _ hg (h e he)

theorem purgeWorkspaceId_yields (workspaceId : String) :
    (contract ι cfg).Yields i (purgeWorkspaceId workspaceId) (fun _ _ => True) w := by
  refine (quiet_yields quiet_checkDeadline).bind fun _ w₁ _ => ?_
  refine (quiet_yields (quiet_perform rfl)).bind fun _ w₂ _ => ?_
  refine (quiet_yields quiet_checkDeadline).bind fun _ w₃ _ => ?_
  refine (findExecutions_yields _ _).bind fun values w₄ h => ?_
  have hkept : (contract ι cfg).Kept i (fun _ => True) (AllLeft (fun _ _ => True) values) :=
    allLeft_kept fun _ => any_evolves
  refine (each_yields (K := AllLeft (fun _ _ => True) values) (fun value hv w₅ h₅ => ?_)
    fun e he => ⟨(h e he).2.2.row _ _ (h e he).1 |>.2.1, fun _ _ => trivial⟩).bind fun _ w₆ _ => ?_
  · exact ((purgeExecution_yields (h₅ value hv)).keep hkept (.any _) h₅).mono fun _ _ h => h.2
  · exact quiet_yields (.bind (fun _ => quiet_perform rfl) quiet_checkDeadline)

theorem cleanupEnded_yields {value : Execution} (h : Left (fun _ => True) id w) :
    (contract ι cfg).Yields i (cleanupEnded id value) (fun _ _ => True) w := by
  have hkept : ∀ exports : List Export, (contract ι cfg).Kept i (fun _ => True)
      (fun w => Left (fun _ => True) id w ∧ ∀ x ∈ exports, w.others x.exportId = true) :=
    fun exports => kept_of_grow fun _ _ hg h =>
      ⟨left_grow any_evolves _ _ hg h.1, fun x hx => hg.others _ (h.2 x hx)⟩
  have hleft : (contract ι cfg).Kept i (fun _ => True) (Left (fun _ => True) id) :=
    left_kept any_evolves
  refine quiet_bind hleft (quiet_perform rfl) h fun now w₁ h => ?_
  refine quiet_bind hleft (quiet_refuse _ _) h fun _ w₂ h => ?_
  refine quiet_bind hleft quiet_checkDeadline h fun _ w₃ h => ?_
  refine .bind_kept hleft (.any _) (findExports_yields _ _) h fun exports w₄ hx h => ?_
  refine quiet_bind (hkept exports) (quiet_perform rfl) ⟨h, hx⟩ fun now w₅ h => ?_
  refine quiet_bind (hkept exports) (quiet_refuse _ _) h fun _ w₆ h => ?_
  refine quiet_bind (hkept exports) quiet_checkDeadline h fun _ w₇ h => ?_
  refine .bind_kept (hkept exports) (.any _) (expire_yields h.1) h fun _ w₈ ho h => ?_
  have hover : (contract ι cfg).Kept i (fun _ => True)
      (fun w => w.over id = true ∧ ∀ x ∈ exports, w.others x.exportId = true) :=
    kept_of_grow fun _ _ hg h => ⟨hg.ended _ h.1, fun x hx => hg.others _ (h.2 x hx)⟩
  refine quiet_bind hover (quiet_perform rfl) ⟨ho, h.2⟩ fun _ w₉ h => ?_
  exact erased_yields (.bind (fun _ => quiet_perform rfl) quiet_checkDeadline) h.1 h.2

theorem cleanupExecution_yields (identity : String) :
    (contract ι cfg).Yields i (cleanupExecution identity) (fun _ _ => True) w := by
  refine (quiet_yields quiet_checkDeadline).bind fun _ w₁ _ => ?_
  refine (read_yields .cleanup (K := fun _ => True) (kept_of_grow fun _ _ _ h => h) trivial).bind
    fun o w₂ h => ?_
  rcases o with _ | value
  · have hover : (contract ι cfg).Kept i (fun _ => True) (fun w => w.over identity = true) :=
      over_kept _
    refine quiet_bind hover (quiet_perform rfl) (h.1.missed rfl rfl) fun b w₃ h => ?_
    refine .ite (fun _ => quiet_yields (quiet_perform rfl)) fun _ => ?_
    refine (purge_over h).bind fun _ w₄ h => ?_
    refine quiet_bind hover quiet_checkDeadline h fun _ w₅ h => ?_
    exact (releaseStorage_able (.inl h)).mono fun _ _ _ => trivial
  · refine quiet_bind (left_kept any_evolves) (quiet_perform rfl)
      (h.1.left (P := fun _ => True) (by simp) fun _ _ => trivial) fun now w₃ h => ?_
    exact .ite (fun _ => cleanupEnded_yields h) fun _ => .pure trivial

theorem cleanup_yields (identity : String) :
    (contract ι cfg).Yields i (cleanup identity) (fun _ _ => True) w := by
  refine (quiet_yields quiet_checkDeadline).bind fun _ w₁ _ => ?_
  refine (quiet_yields (quiet_perform rfl)).bind fun o w₂ _ => ?_
  rcases o with _ | value
  · exact cleanupExecution_yields identity
  · refine (quiet_yields (quiet_perform rfl)).bind fun now w₃ _ => ?_
    exact .ite (fun _ => purgeWorkspaceId_yields identity) fun _ => .pure trivial

/-- A finish that does not publish. -/
theorem finish_any {claim : Option String} {state : State} {error : Option String}
    (hs : state = .failed ∨ state = .cancelled) :
    (contract ι cfg).Yields i (finish id claim state error none) (fun _ _ => True) w :=
  finish_yields (K := fun _ => True) (kept_of_grow fun _ _ _ h => h) trivial
    (fun _ _ => ⟨.inr hs, fun h => by rcases hs with rfl | rfl <;> cases h⟩)
    (fun _ _ _ => trivial) fun _ _ _ _ => trivial

theorem ensureDispatch_yields (identity : String) :
    (contract ι cfg).Yields i (ensureDispatch identity) (fun _ _ => True) w := by
  refine (quiet_yields (quiet_perform rfl)).bind fun o w₁ _ => ?_
  rcases o with _ | value
  · exact .pure trivial
  · refine .ite (fun _ => .pure trivial) fun _ => ?_
    refine (quiet_yields (quiet_perform rfl)).bind fun now w₂ _ => ?_
    exact .ite (fun _ => (finish_any (.inl rfl)).bind fun _ _ _ => cleanup_yields identity)
      fun _ => quiet_yields (quiet_perform rfl)

end Cleanup

section RunQuery

/-- The objects of references are there, unless the execution is over. -/
def Stored (id : String) (refs : List Reference) (w : World ι) : Prop :=
  w.over id = true ∨ w.created id = true ∧ ∀ r ∈ refs, w.Has id r

theorem Stored.grow {refs : List Reference} (w w' : World ι) (hg : Grow w w')
    (h : Stored id refs w) : Stored id refs w' := by
  by_cases ho : w'.over id = true
  · exact .inl ho
  rcases h with h | ⟨hc, hr⟩
  · exact .inl (hg.ended id h)
  · refine .inr ⟨hg.created id hc, fun r hm => ?_⟩
    obtain ⟨hid, hn, o, hob, hgen⟩ := hr r hm
    subst hid
    exact ⟨rfl, hn, o, (hg.objects _ hc hn o hob).resolve_left ho, hgen⟩

theorem stored_kept (id : String) (refs : List Reference) :
    (contract ι cfg).Kept i (fun _ => True) (Stored id refs) :=
  kept_of_grow Stored.grow

theorem Stored.append {refs : List Reference} {r : Reference} (h : Stored id refs w)
    (hr : w.Has id r) : Stored id (refs ++ [r]) w :=
  h.imp_right fun h => ⟨h.1, fun r' hm => by
    rcases List.mem_append.1 hm with hm | hm
    · exact h.2 r' hm
    · obtain rfl := List.mem_singleton.1 hm
      exact hr⟩

/-- An upload, of which nothing was deleted yet. -/
theorem put_yields (path : Path) (blob : Blob) {refs : List Reference} (h : Stored id refs w) :
    (contract ι cfg).Yields i (perform (.put path blob)) (fun g w' => Stored id refs w' ∧
      w'.store.object path = some ⟨path, g, blob⟩) w := by
  refine perform_yields fun w₁ hr hI => ⟨trivial, fun w₂ g had hs _ => ?_⟩
  have h₂ := (Stored.grow _ _ hr.grow h).grow _ _
    (sem_step (i := i) (c := .put path blob) hI trivial had hs).1
  rcases hs with ⟨-, x, hx⟩ | ⟨s, hs, rfl, hg | ⟨x, hx⟩⟩
  · cases hx
  · obtain rfl := Except.ok.inj hg
    obtain ⟨objects, generation, rfl, -, ho⟩ := put_keeps hs
    exact ⟨h₂, ho⟩
  · cases hx

theorem putObject_yields (path : Path) {blob : Blob} {bytes : ℕ} (hp : path.execution = id)
    (hn : path.name.isCapture = true) {refs : List Reference} (h : Stored id refs w) :
    (contract ι cfg).Yields i (putObject cfg path blob bytes) (fun r w' =>
      Stored id (refs ++ [r]) w' ∧ r.object = path ∧
        ∃ o, w'.store.object path = some o ∧ o.blob = blob) w := by
  refine quiet_bind (stored_kept id refs) (quiet_refuse _ _) h fun _ w₁ h => ?_
  refine (put_yields path blob h).bind fun g w₂ h₂ => .pure ?_
  exact ⟨h₂.1.append ⟨hp, hn, _, h₂.2, rfl⟩, rfl, _, h₂.2, rfl⟩

/-- The chunks of a writer. -/
def Writer.refs (w : Writer) : List Reference := w.chunks.map Chunk.reference

section Writer

variable {value : Execution}

theorem flush_yields {x : Writer} (hid : value.executionId = id) (h : Stored id x.refs w) :
    (contract ι cfg).Yields i (x.flush cfg value) (fun y w' => Stored id y.refs w') w := by
  refine quiet_bind (stored_kept id x.refs) (quiet_authorize _ _) h fun _ w₁ h => ?_
  refine .ite (fun _ => .pure h) fun _ => ?_
  refine (putObject_yields ⟨value.executionId, .chunk x.chunks.length⟩ hid rfl h).bind
    fun r w₂ h => .pure ?_
  simpa [Writer.refs] using h.1

theorem onRow_yields {x : Writer} {row : Row} (hid : value.executionId = id)
    (h : Stored id x.refs w) :
    (contract ι cfg).Yields i (x.onRow cfg value row) (fun y w' => Stored id y.refs w') w := by
  refine quiet_bind (stored_kept id x.refs) (quiet_refuse _ _) h fun _ w₁ h => ?_
  refine quiet_bind (stored_kept id x.refs) (quiet_refuse _ _) h fun _ w₂ h => ?_
  refine .bind (P := fun y w' => Stored id y.refs w') ?_ fun y w₃ h => .pure h
  exact .ite (fun _ => flush_yields hid h) fun _ => .pure h

theorem addRows_yields (hid : value.executionId = id) : ∀ {rows : List Row} {x : Writer}
    {w : World ι}, Stored id x.refs w →
      (contract ι cfg).Yields i (x.addRows cfg value rows) (fun y w' => Stored id y.refs w') w
  | [], _, _, h => .pure h
  | _ :: _, _, _, h => (onRow_yields hid h).bind fun _ _ h => addRows_yields hid h

theorem onEvents_yields (hid : value.executionId = id) : ∀ {events : List Event} {x : Writer}
    {w : World ι}, Stored id x.refs w →
      (contract ι cfg).Yields i (x.onEvents cfg value events) (fun y w' => Stored id y.refs w') w
  | [], _, _, h => .pure h
  | .columns columns :: events, x, w, h => by
    refine .bind (P := fun y w' => Stored id y.refs w') ?_ fun y w₁ h => onEvents_yields hid h
    exact quiet_bind (stored_kept id x.refs) (quiet_refuse _ _) h fun _ _ h => .pure h
  | .rows rows :: events, x, w, h => by
    refine .bind (P := fun y w' => Stored id y.refs w') ?_ fun y w₁ h => onEvents_yields hid h
    exact quiet_bind (stored_kept id x.refs) (quiet_authorize _ _) h fun _ _ h =>
      addRows_yields hid h
  | .authorize :: events, x, w, h =>
    quiet_bind (stored_kept id x.refs) (quiet_authorize _ _) h fun _ _ h => onEvents_yields hid h

/-- The manifest is uploaded last, and refers to the chunks that are there. -/
theorem writerFinish_yields {x : Writer} (hid : value.executionId = id) (h : Stored id x.refs w) :
    (contract ι cfg).Yields i (x.finish cfg value) (fun y w' =>
      w'.over id = true ∨ w'.created id = true ∧ w'.Whole id y.1) w := by
  refine (flush_yields hid h).bind fun x w₁ h => ?_
  have hkept : (contract ι cfg).Kept i (fun _ => True) (Stored id x.refs) := stored_kept id x.refs
  refine quiet_bind hkept (quiet_authorize _ _) h fun _ w₂ h => ?_
  refine quiet_bind hkept (quiet_refuse _ _) h fun _ w₃ h => ?_
  refine quiet_bind hkept (quiet_refuse _ _) h fun _ w₄ h => ?_
  refine (putObject_yields ⟨value.executionId, .manifest⟩ hid rfl h).bind
    fun r w₅ h => .pure ?_
  obtain ⟨hs, hr, o, ho, hb⟩ := h
  refine hs.imp_right fun hs => ⟨hs.1, hs.2 r (by simp), o, _, hr ▸ ho, hb, fun c hc => ?_⟩
  exact hs.2 _ (List.mem_append_left _ (List.mem_map_of_mem hc))

end Writer

/-- The row that a worker claimed. -/
structure Claims (id : String) (value : Execution) (w : World ι) : Prop where
  identity : value.executionId = id
  claim : value.claim ≠ none
  staged : value.Staged
  left : Left (ClaimedBy value.claim) id w

theorem claims_kept (id : String) (value : Execution) :
    (contract ι cfg).Kept i (fun _ => True) (Claims id value) :=
  kept_of_grow fun _ _ hg h =>
    ⟨h.identity, h.claim, h.staged, left_grow (ClaimedBy.evolves _) _ _ hg h.left⟩

theorem claim_yields (id token : String) :
    (contract ι cfg).Yields i (perform (.mutate (.claim id token))) (fun (o : Option Execution) w' =>
      ∀ value, o = some value → Claims id value w') w := by
  refine perform_yields fun w₁ hr hI => ⟨trivial, fun w₂ (o : Option Execution) had hs hI₂ => ?_⟩
  rcases hs with ⟨-, x, hx⟩ | ⟨s, o', hrun, rfl, ho | ⟨x, hx⟩⟩
  · cases hx
  · obtain rfl := Except.ok.inj ho
    rintro value rfl
    have hclaim : claimExecution w₁.store id token = (s, some value) := Except.ok.inj hrun
    unfold claimExecution at hclaim
    rcases hrow : w₁.store.executions.lookup id with _ | e
    · rw [hrow] at hclaim
      cases hclaim
    · simp only [hrow] at hclaim
      split_ifs at hclaim with hq hrun'
      · cases hclaim
      · obtain ⟨rfl, hval⟩ := Prod.mk.inj hclaim
        obtain rfl := Option.some.inj hval
        set value := e.claimed token w₁.store.now
        have hrow₂ : (w₁.stored { w₁.store with
            executions := w₁.store.executions.insert id value }).row id = some value :=
          AList.lookup_insert _
        have hr₂ := hI₂.row id value hrow₂
        refine ⟨hr₂.1, hI₂.claimed id value hrow₂ hrun', hI₂.staged id value hrow₂, hr₂.2.1,
          fun e' he' => ?_⟩
        obtain rfl := Option.some.inj (hrow₂.symm.trans he')
        exact ⟨by rw [hrun']; simp, rfl⟩
      · cases hclaim
  · cases hx

theorem takeSql_quiet {value : Execution} (h : value.Staged) : Quiet (takeSql value.input) := by
  rcases hi : value.input with _ | reference
  · exact .raise _
  · refine .bind (fun blob => ?_) (quiet_perform rfl)
    rcases blob with statement | rows | m | text
    · refine .bind (fun _ => .bind (fun _ => .pure _) (quiet_perform ?_)) (quiet_refuse _ _)
      simp [Call.isQuiet, h reference hi]
    all_goals exact .raise _

/-- What a worker does with a row that it does not find published. -/
theorem discardUnpublished_yields {o : Option Execution} (h : Told id .plain o w)
    (hl : Left (fun e => e.isSettled = true) id w) :
    (contract ι cfg).Yields i (discardUnpublished id o) (fun _ _ => True) w := by
  rcases o with _ | final
  · exact erase_yields (h.over hl)
  · refine .ite (fun _ => .pure trivial) fun hc => erase_yields ?_
    refine over_of_settled h.row (hl.2 final h.row) ?_
    unfold World.published
    simp [h.row, hc]

theorem capture_yields {value : Execution} (h : Claims id value w) :
    (contract ι cfg).Yields i (capture cfg id value) (fun _ _ => True) w := by
  have hkept : (contract ι cfg).Kept i (fun _ => True) (Claims id value) := claims_kept id value
  refine quiet_bind hkept (quiet_authorize _ _) h fun _ w₁ h => ?_
  refine quiet_bind hkept (quiet_perform rfl) h fun _ w₂ h => ?_
  refine quiet_bind hkept (quiet_perform rfl) h fun _ w₃ h => ?_
  refine quiet_bind hkept (takeSql_quiet h.staged) h fun statement w₄ h => ?_
  refine quiet_bind hkept (quiet_perform rfl) h fun stream w₅ h => ?_
  refine .bind_kept hkept (.any _) (onEvents_yields h.identity
    (.inr ⟨h.left.1, by simp [Writer.refs, Writer.empty]⟩)) h fun x w₆ hx h => ?_
  refine .lift_bind fun elapsed _ => ?_
  refine .bind_kept hkept (.any _) (writerFinish_yields h.identity hx) h fun y w₇ hy h => ?_
  have hwhole : (contract ι cfg).Kept i (fun _ => True) (fun w => Claims id value w ∧
      (w.over id = true ∨ w.created id = true ∧ w.Whole id y.1)) :=
    hkept.and (kept_of_grow fun _ _ hg => whole_grow hg)
  refine quiet_bind hwhole (quiet_authorize _ _) ⟨h, hy⟩ fun _ w₈ h => ?_
  refine (finish_completed h.1.claim h.1.left (h.2.imp_right And.right)).bind fun _ w₉ h => ?_
  refine (read_yields .plain (left_kept settled_evolves) h).bind fun o w₁₀ h => ?_
  exact discardUnpublished_yields h.1 h.2

theorem captureFailed_yields {value : Execution} (x : Raised) (h : Claims id value w) :
    (contract ι cfg).Yields i (captureFailed id value x) (fun _ _ => True) w := by
  have hcode : Quiet (errorCode x) := by
    unfold errorCode
    split <;> first | exact .pure _ | exact .bind (fun _ => .pure _) (quiet_perform rfl)
  refine quiet_bind (claims_kept id value) hcode h fun error w₁ h => ?_
  exact (finish_failed h.claim h.left).bind fun _ w₂ h => erase_yields h

theorem runQuery_yields (identity : String) :
    (contract ι cfg).Yields i (runQuery cfg identity) (fun _ _ => True) w := by
  refine (quiet_yields (quiet_perform rfl)).bind fun token w₁ _ => ?_
  refine (claim_yields identity token).bind fun o w₂ h => ?_
  rcases o with _ | value
  · exact .pure trivial
  have hkept : (contract ι cfg).Kept i (fun _ => True) (Claims identity value) :=
    claims_kept identity value
  have h := h value rfl
  refine .bind (P := fun _ _ => True) ?_ fun _ w₃ _ => quiet_yields ?_
  · refine .after (K := fun _ => True) (kept_of_grow fun _ _ _ h => h)
      (fun _ _ => quiet_yields (quiet_perform rfl)) _ (.any _) trivial ?_
    exact .handle hkept (.any _) (capture_yields h) h fun x w₄ h => captureFailed_yields x h
  · refine .bind (fun o => ?_) (quiet_perform rfl)
    rcases o with _ | final
    · exact .pure ()
    · exact .ite (fun _ => quiet_perform rfl) fun _ => .pure ()

end RunQuery

section Create

theorem mine_kept (id : String) :
    (contract ι cfg).Kept i (fun c => c.inserts ≠ some id) (Mine i id) where
  stable _ _ hr h := hr.mine id h
  own _ _ _ _ hc hI hal hs h := (sem_step hI hal hs.1 hs.2).2.2 i id hc h

theorem mine_bind {α β : Type} {p : Program α} {f : α → Program β} {Q : β → World ι → Prop}
    (hq : Quiet p) (h : Mine i id w)
    (hf : ∀ a w', Mine i id w' → (contract ι cfg).Yields i (f a) Q w') :
    (contract ι cfg).Yields i (p >>= f) Q w :=
  .bind_kept (mine_kept id) (quiet_inserts hq id) (quiet_yields hq) h fun a w' _ h => hf a w' h

theorem token_yields :
    (contract ι cfg).Yields i (perform .token) (fun id w' => Mine i id w') w := by
  refine perform_yields fun w₁ hr hI => ⟨trivial, fun w₂ (id : String) _ hs _ => ?_⟩
  rcases hs with ⟨-, x, hx⟩ | ⟨id', hid, hf, -, rfl⟩
  · cases hx
  obtain rfl := Except.ok.inj hid
  refine ⟨Function.update_self _ _ _, ?_⟩
  by_contra hc
  exact hI.owned id (by simpa using hc) hf

theorem reserveStaging_yields (owner : String) (h : Mine i id w) :
    (contract ι cfg).Yields i (perform (.mutate (.reserveStaging id owner)))
      (fun _ w' => Mine i id w') w := by
  have hy : (contract ι cfg).Yields i (perform (.mutate (.reserveStaging id owner)))
      (fun _ _ => True) w :=
    perform_yields fun w₁ hr _ => ⟨hr.mine id h, fun _ _ _ _ _ => trivial⟩
  exact (hy.keep (mine_kept id) (asks_perform (by simp [Call.inserts])) h).mono fun _ _ h => h.2

/-- `results.purge` and `_release_storage`, before an exception goes on. -/
theorem erase_raise {α : Type} (x : Raised) {P : α → World ι → Prop} (h : Able i id w) :
    (contract ι cfg).Yields i (do purge id; releaseStorage id; .raise x : Program α) P w :=
  (purge_able h).bind fun _ _ h => (releaseStorage_able h).bind fun _ _ _ => .raise x

theorem stageSql_quiet (identity statement : String) : Quiet (stageSql cfg identity statement) :=
  .bind (fun _ => .bind (fun _ => .bind (fun _ => .pure _) (quiet_perform rfl))
    (quiet_refuse _ _)) (quiet_refuse _ _)

/-- The statement is staged outside the capture. -/
theorem stage_yields (statement : String) (h : Mine i id w) :
    (contract ι cfg).Yields i ((stageSql cfg id statement).handle (stagingFailed id))
      (fun r w' => r.object.name.isCapture = false ∧ Mine i id w') w := by
  refine .handle (mine_kept id) (quiet_inserts (stageSql_quiet _ _) id) ?_ h fun x w₁ h₁ =>
    erase_raise x (.inr h₁)
  refine mine_bind (quiet_refuse _ _) h fun _ w₁ h₁ => ?_
  refine mine_bind (quiet_refuse _ _) h₁ fun _ w₂ h₂ => ?_
  exact mine_bind (quiet_perform rfl) h₂ fun g w₃ h₃ => .pure ⟨rfl, h₃⟩

theorem owner_kept (id : String) :
    (contract ι cfg).Kept i (fun _ => True) (fun w => w.owner id = some i) :=
  kept_of_grow fun _ _ hg h => (hg.owner id (by rw [h]; simp)).trans h

theorem insertFailed_yields {input : Reference} (x : Raised) {P : String → World ι → Prop}
    (hn : input.object.name.isCapture = false) (h : w.owner id = some i) :
    (contract ι cfg).Yields i (insertFailed id input x) P w := by
  refine (read_yields .plain (owner_kept id) h).bind fun o w₁ h₁ => ?_
  rcases o with _ | e
  · have hable : Able i id w₁ := by
      by_cases hc : w₁.created id = true
      · exact .inl (over_of_none h₁.1.row hc)
      · exact .inr ⟨h₁.2, by simpa using hc⟩
    have hq : Quiet (deleteObject input) := quiet_perform (by simp [Call.isQuiet, hn])
    exact (quiet_able hq hable).bind fun _ w₂ h₂ =>
      (releaseStorage_able h₂).bind fun _ _ _ => .raise x
  · exact .raise x

/-- A row is created under its own identity alone. -/
theorem inserted_only {value : Execution} {requestId fingerprint selected : String}
    {expiresAt : Time} {s : Store} (hI : Inv w) (hm : Mine i value.executionId w)
    (h : (Txn.insert value requestId fingerprint expiresAt).run cfg w.store = .ok (s, selected))
    (hne : selected ≠ value.executionId) : ¬(w.stored s).created value.executionId = true := by
  rcases insert_cases h with ⟨rfl, -⟩ | ⟨he, -⟩
  · intro hc
    rcases Bool.or_eq_true_iff.1 hc with hc | hc
    · rw [hm.2] at hc
      cases hc
    · obtain ⟨e, he⟩ := Option.isSome_iff_exists.1 hc
      have hrow := (hI.row _ e he).2.1
      rw [hm.2] at hrow
      cases hrow
  · exact absurd he hne

/-- What is selected was inserted. -/
theorem selected_created {value : Execution} {requestId fingerprint selected : String}
    {expiresAt : Time} {s : Store} (hI : Inv w)
    (h : (Txn.insert value requestId fingerprint expiresAt).run cfg w.store = .ok (s, selected)) :
    (w.stored s).created selected = true := by
  rcases insert_cases h with ⟨rfl, record, hr, rfl⟩ | ⟨rfl, place, -, -, rfl⟩
  · simp [World.stored, hI.requested _ record hr]
  · simp [World.stored]

/-- The row is inserted, or the one of the same request is selected. -/
theorem insert_yields {value : Execution} {requestId fingerprint : String} {expiresAt : Time}
    {input : Reference} (hid : value.executionId = id) (hv : value.state = .queued)
    (hs : value.Staged) (hn : input.object.name.isCapture = false) (h : Mine i id w) :
    (contract ι cfg).Yields i ((perform (.mutate (.insert value requestId fingerprint
      expiresAt))).handle (insertFailed id input)) (fun (o : String) w' =>
        (o = id → Left (fun _ => True) id w') ∧ (o ≠ id → Mine i id w')) w := by
  subst hid
  refine .handle (owner_kept value.executionId) (.any _) ?_ h.1 fun x w₁ h₁ =>
    insertFailed_yields x hn h₁
  refine perform_yields fun w₁ hr hI => ?_
  have hm := hr.mine _ h
  refine ⟨⟨hm, hv, hs⟩, fun w₂ (o : String) had hsem hI₂ => ?_⟩
  rcases hsem with ⟨-, x, hx⟩ | ⟨s, o', hrun, rfl, ho | ⟨x, hx⟩⟩
  · cases hx
  · obtain rfl := Except.ok.inj ho
    have hnew : (w₁.stored s).owner value.executionId = some i := hm.1
    by_cases hc : (w₁.stored s).created value.executionId = true
    · exact ⟨fun _ => ⟨hc, fun _ _ => trivial⟩, fun hne => absurd hc (inserted_only hI hm hrun hne)⟩
    · refine ⟨fun he => absurd ?_ hc, fun _ => ⟨hnew, by simpa using hc⟩⟩
      subst he
      exact selected_created hI hrun
  · cases hx

theorem dispatchFailed_yields (x : Raised) (h : Left (fun _ => True) id w) :
    (contract ι cfg).Yields i (dispatchFailed id x) (fun _ _ => True) w := by
  rcases x with ⟨code, detail⟩ | detail | name
  · exact .raise _
  · refine (finish_undispatched h).bind fun _ w₁ h₁ => ?_
    refine (read_yields .undispatched (left_kept NotQueued.evolves) h₁).bind fun o w₂ h₂ => ?_
    rcases o with _ | current
    · exact .raise _
    · refine .ite (fun hne => erase_raise _ (.inl ?_)) fun _ => .raise _
      have hs : current.isSettled = true := by
        have hq := h₂.2.2 current h₂.1.row
        simpa [Execution.isSettled] using ⟨hq, hne⟩
      exact over_of_settled h₂.1.row hs (h₂.1.unpublished rfl)
  · exact .raise _

theorem createNew_yields (c : Creation) (reader : Reader) (place : Workspace) :
    (contract ι cfg).Yields i (createNew cfg c reader place) (fun _ _ => True) w := by
  refine token_yields.bind fun identity w₁ h => ?_
  refine mine_bind (quiet_perform rfl) h fun now w₂ h => ?_
  refine mine_bind (quiet_perform rfl) h fun _ w₃ h => ?_
  refine (reserveStaging_yields _ h).bind fun _ w₄ h => ?_
  refine (stage_yields _ h).bind fun input w₅ h => ?_
  obtain ⟨hn, h⟩ := h
  refine mine_bind (quiet_perform rfl) h fun now w₆ h => ?_
  have hdelete : Quiet (deleteObject input) := quiet_perform (by simp [Call.isQuiet, hn])
  have hstaged : (c.row identity reader place input now).Staged :=
    fun r hr => Option.some.inj hr ▸ hn
  refine (insert_yields rfl rfl hstaged hn h).bind fun selected w₇ h => ?_
  refine .ite (fun hne => ?_) fun he => ?_
  · refine (quiet_able hdelete (.inr (h.2 hne))).bind fun _ w₈ h => ?_
    exact (releaseStorage_able h).bind fun _ _ _ => quiet_yields (quiet_findExecution _ _ _)
  · have h := h.1 (not_not.1 he)
    refine .bind (P := fun _ _ => True) ?_ fun _ _ _ => quiet_yields (quiet_findExecution _ _ _)
    exact .handle (left_kept any_evolves) (.any _) (quiet_yields (quiet_perform rfl)) h
      fun x w₈ h => dispatchFailed_yields x h

theorem createExecution_yields (c : Creation) :
    (contract ι cfg).Yields i (createExecution cfg c) (fun _ _ => True) w := by
  refine (quiet_yields (quiet_perform rfl)).bind fun reader w₁ _ => ?_
  refine (quiet_yields (quiet_findWorkspace _ _ _)).bind fun place w₂ _ => ?_
  refine (quiet_yields (quiet_perform rfl)).bind fun _ w₃ _ => ?_
  refine (quiet_yields (quiet_perform rfl)).bind fun o w₄ _ => ?_
  rcases o with _ | existing
  · exact createNew_yields c reader place
  · refine (quiet_yields (quiet_refuse _ _)).bind fun _ w₅ _ => ?_
    exact (ensureDispatch_yields _).bind fun _ _ _ => quiet_yields (quiet_findExecution _ _ _)

theorem cancel_yields (databaseId workspaceId executionId : String) :
    (contract ι cfg).Yields i (cancel databaseId workspaceId executionId) (fun _ _ => True) w := by
  refine (quiet_yields (quiet_findExecution _ _ _)).bind fun value w₁ _ => ?_
  refine (finish_any (.inr rfl)).bind fun _ w₂ _ => ?_
  exact (quiet_yields (quiet_perform rfl)).bind fun _ _ _ => quiet_yields (quiet_findExecution _ _ _)

end Create

section Sweep

theorem eachInTime_yields {α : Type} {f : α → Program Unit} {K : World ι → Prop}
    (hK : (contract ι cfg).Kept i (fun _ => True) K) : ∀ {l : List α} {w : World ι},
      (∀ a ∈ l, ∀ w, K w → (contract ι cfg).Yields i (f a) (fun _ _ => True) w) → K w →
      (contract ι cfg).Yields i (eachInTime l f) (fun _ _ => True) w
  | [], _, _, _ => .pure trivial
  | a :: _, _, hf, h => quiet_bind hK (quiet_perform rfl) h fun _ _ h =>
    .ite (fun _ => .pure trivial) fun _ =>
      .bind_kept hK (.any _) (hf a List.mem_cons_self _ h) h fun _ _ _ h =>
        eachInTime_yields hK (fun b hb => hf b (List.mem_cons_of_mem a hb)) h

theorem any_kept : (contract ι cfg).Kept i (fun _ => True) (fun _ => True) :=
  kept_of_grow fun _ _ _ h => h

theorem orContinue_yields {p : Program Unit}
    (h : (contract ι cfg).Yields i p (fun _ _ => True) w) :
    (contract ι cfg).Yields i (orContinue p) (fun _ _ => True) w := by
  refine .handle any_kept (.any _) h trivial fun x w₁ _ => ?_
  rcases x with ⟨code, detail⟩ | detail | name
  · exact .raise _
  · exact .pure trivial
  · exact .raise _

theorem sweepRunning_yields {value : Execution} (hc : value.claim ≠ none)
    (h : Left (ClaimedBy value.claim) value.executionId w) :
    (contract ι cfg).Yields i (sweepRunning value) (fun _ _ => True) w := by
  refine quiet_bind (left_kept (ClaimedBy.evolves _)) (quiet_perform rfl) h fun now w₁ h => ?_
  refine .ite (fun _ => ?_) fun _ => .pure trivial
  exact (finish_failed hc h).bind fun _ w₂ h => erase_yields h

theorem whileInTime_yields : ∀ {ps : List (Program Bool)} {w : World ι},
    (∀ p ∈ ps, ∀ w, (contract ι cfg).Yields i p (fun _ _ => True) w) →
      (contract ι cfg).Yields i (whileInTime ps) (fun _ _ => True) w
  | [], _, _ => .pure trivial
  | p :: _, _, h => (h p List.mem_cons_self _).bind fun _ _ _ => .ite
      (fun _ => whileInTime_yields fun q hq => h q (List.mem_cons_of_mem p hq))
      fun _ => .pure trivial

/-- A loop over what a quiet request returns. -/
theorem loop_yields {c : Call} {α : Type} {l : c.Val → List α} {f : α → Program Unit}
    (hc : c.isQuiet = true) (hf : ∀ a w, (contract ι cfg).Yields i (f a) (fun _ _ => True) w) :
    (contract ι cfg).Yields i (perform c >>= fun v => eachInTime (l v) f) (fun _ _ => True) w :=
  (quiet_yields (quiet_perform hc)).bind fun _ _ _ =>
    eachInTime_yields any_kept (fun a _ w _ => hf a w) trivial

/-- A part that is quiet, before one that needs nothing of it. -/
theorem quiet_then {α β : Type} {p : Program α} {f : α → Program β} (hq : Quiet p)
    (hf : ∀ a w, (contract ι cfg).Yields i (f a) (fun _ _ => True) w) :
    (contract ι cfg).Yields i (p >>= f) (fun _ _ => True) w :=
  (quiet_yields hq).bind fun a w _ => hf a w

/-- The executions that read as running. -/
theorem running_yields (limit : ℕ) :
    (contract ι cfg).Yields i (do
      let values ← perform (.findExecutions (.state .running) limit)
      eachInTime values sweepRunning) (fun _ _ => True) w := by
  refine (findExecutions_yields _ _).bind fun values w₁ h => ?_
  have hkept : (contract ι cfg).Kept i (fun _ => True)
      (AllLeft (fun v e => ClaimedBy v.claim e) values) :=
    allLeft_kept fun v => ClaimedBy.evolves v.claim
  have hclaim : ∀ e ∈ values, e.state = .running ∧ e.claim ≠ none := by
    intro e he
    obtain ⟨hr, hq, hI⟩ := h e he
    have hrun : e.state = .running := by simpa [Query.finds] using hq
    exact ⟨hrun, hI.claimed _ e hr hrun⟩
  refine eachInTime_yields hkept (fun e he w₂ h₂ => sweepRunning_yields (hclaim e he).2 (h₂ e he))
    fun e he => ?_
  obtain ⟨hr, hq, hI⟩ := h e he
  refine ⟨(hI.row _ e hr).2.1, fun e' he' => ?_⟩
  obtain rfl := Option.some.inj (hr.symm.trans he')
  exact ⟨by rw [(hclaim e he).1]; simp, rfl⟩

theorem sweepWorkspace_yields (value : Workspace) :
    (contract ι cfg).Yields i (sweepWorkspace value) (fun _ _ => True) w :=
  .ite (fun _ => quiet_yields (quiet_perform rfl)) fun _ =>
    orContinue_yields (purgeWorkspaceId_yields _)

theorem sweepExpired_yields (value : Execution) :
    (contract ι cfg).Yields i (sweepExpired value) (fun _ _ => True) w :=
  .ite (fun _ => quiet_yields (quiet_perform rfl)) fun _ => orContinue_yields (cleanup_yields _)

theorem sweep_yields : (contract ι cfg).Yields i sweep (fun _ _ => True) w := by
  refine quiet_then (quiet_perform rfl) fun _ w₁ => whileInTime_yields ?_
  simp only [List.forall_mem_cons]
  refine ⟨fun w => ?_, fun w => ?_, fun w => ?_, fun w => ?_, fun w => ?_, fun w => ?_, fun w => ?_,
    by simp⟩
  · exact loop_yields rfl fun e w => orContinue_yields (ensureDispatch_yields _)
  · exact quiet_then (quiet_perform rfl) fun _ w => quiet_then (quiet_perform rfl) fun now w =>
      loop_yields rfl fun r w => quiet_yields (quiet_perform rfl)
  · exact quiet_then (quiet_perform rfl) fun now w =>
      loop_yields rfl fun v w => quiet_yields (quiet_perform rfl)
  · exact quiet_then (quiet_perform rfl) fun now w => loop_yields rfl fun p w =>
      sweepWorkspace_yields p
  · exact quiet_then (quiet_perform rfl) fun now w => loop_yields rfl fun e w =>
      sweepExpired_yields e
  · exact running_yields 64
  · exact quiet_then (quiet_perform rfl) fun _ w => .pure trivial

end Sweep

section Durable

theorem discard_yields {α : Type} {p : Program α}
    (h : (contract ι cfg).Yields i p (fun _ _ => True) w) :
    (contract ι cfg).Yields i (discard p) (fun _ _ => True) w :=
  h.bind fun _ _ _ => .pure trivial

/-- Every job obeys. -/
theorem job_yields (job : Job) : (contract ι cfg).Yields i (job.program cfg) (fun _ _ => True) w := by
  cases job with
  | create c => exact discard_yields (createExecution_yields c)
  | runQuery identity => exact runQuery_yields identity
  | cancel => exact discard_yields (cancel_yields _ _ _)
  | cleanup identity => exact cleanup_yields identity
  | sweep => exact sweep_yields

/-- Jobs that start on a store without executions. Identities of workspaces and exports are none
of an execution's. -/
structure Begins (cfg : Settings) (jobs : ι → Job) (c : Conf ι (World ι) Call.Ans Raised Unit) :
    Prop where
  pool : c.pool = fun i => (jobs i).program cfg
  executions : c.state.store.executions = ∅
  requests : c.state.store.requests = ∅
  owner : ∀ id, c.state.owner id = none
  created : ∀ id, c.state.created id = false
  place : ∀ id p, c.state.place id = some p → p.workspaceId = id ∧ c.state.others id = true
  exported : ∀ id x, c.state.store.exports.lookup id = some x →
    x.exportId = id ∧ c.state.others id = true

variable {jobs : ι → Job} {c c' : Conf ι (World ι) Call.Ans Raised Unit}

theorem Begins.inv (h : Begins cfg jobs c) : Inv c.state := by
  have hrow : ∀ id e, c.state.row id ≠ some e := by
    intro id e he
    unfold World.row at he
    rw [h.executions] at he
    cases he
  exact
    { row := fun id e he => absurd he (hrow id e)
      owned := fun id hc => by
        rw [h.created] at hc
        cases hc
      apart := fun id ho => absurd (h.owner id) ho
      place := h.place
      exported := h.exported
      claimed := fun id e he => absurd he (hrow id e)
      staged := fun id e he => absurd he (hrow id e)
      requested := fun id r hr => by
        rw [h.requests] at hr
        cases hr
      held := fun id e he => absurd he (hrow id e)
      whole := fun id e he => absurd he (hrow id e) }

theorem inv_run [DecidableEq ι] (h : Begins cfg jobs c)
    (hr : Reach (system cfg) (fun _ => Admitted) c c') : Inv c'.state := by
  have hgood : Good (contract ι cfg) (fun _ => Discipline.anyEnd) c := by
    refine good_of_yields h.inv fun i => ?_
    rw [h.pool]
    exact job_yields (jobs i)
  exact (good_run hgood hr.restrict).1

/-- The capture that a completed row refers to: its manifest, the chunks that the manifest refers
to, and the storage that is reserved for it. -/
structure Durable (s : Store) (id : String) (e : Execution) : Prop where
  manifest : ∃ r o m, e.manifest = some r ∧ s.object r.object = some o ∧
    o.generation = r.generation ∧ o.blob = .manifest m ∧
    ∀ c ∈ m.chunks, ∃ o', s.object c.reference.object = some o' ∧
      o'.generation = c.reference.generation
  storage : ∃ r, s.reservations.lookup id = some r ∧ r.bytes = e.bytes

/-- In every run whose failure handlers do not find the execution published, and that inserts no
row which a cleanup found missing, a completed execution has a durable capture until its time is up
or its workspace is purged. -/
theorem capture_durable [DecidableEq ι] (h : Begins cfg jobs c)
    (hr : Reach (system cfg) (fun _ => Admitted) c c') {id : String} {e : Execution}
    (he : c'.state.row id = some e) (hc : e.state = .completed)
    (ht : c'.state.store.now < e.expiresAt) {p : Workspace}
    (hp : c'.state.place e.workspaceId = some p) (ha : p.state ≠ .purged) :
    Durable c'.state.store id e := by
  have hI := inv_run h hr
  have ho : c'.state.over id = false := by
    rw [over_some he]
    unfold Execution.isOver World.closed
    simp [hc, hp, ha, ht]
  obtain ⟨m, hm, hw, o, doc, ho', hb, hchunks⟩ := hI.whole id e he ho hc
  obtain ⟨r, hres, hbytes⟩ := hI.held id e he ho
  refine ⟨⟨m, o, doc, hm, ho', ?_, hb, fun ch hch => (hchunks ch hch).2.2⟩, r, hres, hbytes hc⟩
  obtain ⟨-, -, o₂, ho₂, hg⟩ := hw
  rw [ho'] at ho₂
  exact Option.some.inj ho₂ ▸ hg

theorem published_cases {w : World ι} {id : String} (h : w.published id = true) :
    ∃ e p, w.row id = some e ∧ e.state = .completed ∧ w.store.now < e.expiresAt ∧
      w.place e.workspaceId = some p ∧ p.state ≠ .purged := by
  unfold World.published at h
  rcases hr : w.row id with _ | e
  · simp [hr] at h
  · simp only [hr, over_some hr, Bool.and_eq_true, decide_eq_true_eq, Bool.not_eq_true',
      Bool.or_eq_false_iff] at h
    obtain ⟨hc, ho, hcl⟩ := h
    have ht : w.store.now < e.expiresAt := by
      by_contra ht
      rw [isOver_iff.2 (.inl (not_lt.1 ht))] at ho
      cases ho
    unfold World.closed at hcl
    rcases hp : w.place e.workspaceId with _ | p
    · simp [hp] at hcl
    · exact ⟨e, p, rfl, hc, ht, hp, by simpa [hp] using hcl⟩

end Durable

section Demo

def demoSettings : Settings where
  fingerprint := "policy"
  mcpEnabled := false
  sha256 := fun s => s
  objectSha256 := fun _ => "sha"
  textBytes := String.utf8ByteSize
  sqlBytes := String.utf8ByteSize
  columnsBytes := List.length
  manifestBytes := fun m => m.chunks.length

def demoId : String := "0123456789abcdef0123456789abcdef"

def demoOutside (i : Fin 2) : Outside where
  token := if i = 0 then demoId else "claim"
  reader := ⟨"session", "reader"⟩
  policy := "v1"
  stream := ⟨[.columns [⟨"0", "n", "int4"⟩], .rows [["1"], ["2"]]], .ok 5⟩

def demoJobs (i : Fin 2) : Job :=
  if i = 0 then .create ⟨"db", "workspace", "SELECT n FROM t", "request"⟩ else .runQuery demoId

def demoWorld : World (Fin 2) where
  store :=
    { workspaces := (∅ : Rows Workspace).insert "workspace"
        ⟨"workspace", "db", "session", "v1", .active, seconds 36000, none, 0, false⟩
      sessions := (∅ : Rows Session).insert "session"
        ⟨"session", false, seconds 36000, false, ["workspace"]⟩
      policy := some ⟨true, "v1", "policy"⟩
      requests := ∅
      executions := ∅
      exports := ∅
      reservations := ∅
      objects := []
      generation := 1
      now := 0 }
  owner := fun _ => none
  others := fun id => id = "workspace"
  created := fun _ => false
  missed := fun _ => false

def demoStart : Conf (Fin 2) (World (Fin 2)) Call.Ans Raised Unit :=
  ⟨demoWorld, fun i => (demoJobs i).program demoSettings⟩

theorem demo_begins : Begins demoSettings demoJobs demoStart where
  pool := rfl
  executions := rfl
  requests := rfl
  owner := fun _ => rfl
  created := fun _ => rfl
  place := fun id p hp => by
    by_cases hid : id = "workspace"
    · subst hid
      obtain rfl := Option.some.inj hp
      exact ⟨rfl, rfl⟩
    · rw [show demoStart.state.place id = (∅ : Rows Workspace).lookup id from
        AList.lookup_insert_ne hid] at hp
      cases hp
  exported := fun id x hx => by cases hx

/-- The execution is created, and its worker runs up to the transaction that publishes it. -/
def publishing : List (Play (Fin 2)) :=
  List.replicate 23 (Play.answer 0) ++ List.replicate 60 (Play.answer 1)

def demoPlayed (script : List (Play (Fin 2))) : Conf (Fin 2) (World (Fin 2)) Call.Ans Raised Unit :=
  demoStart.play (script.map (Play.turn demoSettings demoOutside))

/-- The publication commits and its answer is lost, and the failure handler runs. -/
def losing : List (Play (Fin 2)) := publishing ++ [Play.lose 1] ++ List.replicate 30 (Play.answer 1)

/-- The two runs, evaluated together: they share their steps. -/
theorem publishing_states :
    (demoStart.Meets (fun _ => Admitted)
        ((publishing ++ [Play.answer 1]).map (Play.turn demoSettings demoOutside)) ∧
      (demoPlayed (publishing ++ [Play.answer 1])).state.published demoId = true) ∧
    (demoPlayed losing).state.published demoId = true ∧
      (demoPlayed losing).state.store.objects = [] := by
  decide +kernel

theorem capture_durable_demo : ∃ (c : Conf (Fin 2) (World (Fin 2)) Call.Ans Raised Unit)
    (e : Execution) (p : Workspace),
    Reach (system demoSettings) (fun _ => Admitted) demoStart c ∧
    c.state.row demoId = some e ∧ e.state = .completed ∧ c.state.store.now < e.expiresAt ∧
    c.state.place e.workspaceId = some p ∧ p.state ≠ .purged ∧
    Durable c.state.store demoId e := by
  obtain ⟨hmeets, hp⟩ := publishing_states.1
  have hr : Reach (system demoSettings) (fun _ => Admitted) demoStart
      (demoPlayed (publishing ++ [Play.answer 1])) := Play.reach _ hmeets
  obtain ⟨e, p, he, hc, ht, hp, ha⟩ := published_cases hp
  exact ⟨_, e, p, hr, he, hc, ht, hp, ha, capture_durable demo_begins hr he hc ht hp ha⟩

/-- The publication commits and its answer is lost: the failure handler finds the execution
published, changes nothing, and purges the capture. -/
theorem capture_lost : ¬∀ (jobs : Fin 2 → Job)
    (c c' : Conf (Fin 2) (World (Fin 2)) Call.Ans Raised Unit) (id : String) (e : Execution)
    (p : Workspace), Begins demoSettings jobs c → Reach (system demoSettings) (always _ _ _) c c' →
    c'.state.row id = some e → e.state = .completed → c'.state.store.now < e.expiresAt →
    c'.state.place e.workspaceId = some p → p.state ≠ .purged → Durable c'.state.store id e := by
  intro h
  obtain ⟨hp, hnone⟩ := publishing_states.2
  have hr : Reach (system demoSettings) (always _ _ _) demoStart (demoPlayed losing) :=
    Play.reach _ (meets_always _ _)
  obtain ⟨e, p, he, hc, ht, hp, ha⟩ := published_cases hp
  obtain ⟨⟨r, o, m, -, ho, -⟩, -⟩ := h _ _ _ demoId e p demo_begins hr he hc ht hp ha
  unfold Store.object at ho
  rw [hnone] at ho
  cases ho

end Demo

end Database
