import EngPlatform.Lib.Yields
import EngPlatform.Release.Submission

/-!
# Submissions and the builds they ask for

Any number of `submit` and `reconcile_uncertain_submission` calls on one execution, each with the
planner image that is configured while it runs. Beside the world of the execution there are a
clock, the permits that `claim_submission` granted, and the builds that were created, which the
listing shows from some later time on.
-/

set_option linter.dupNamespace false

namespace Release

open Interleave

/-- A request of a program under any contract, whose answer is returned or raised. -/
theorem perform_yields {ι σ : Type*} {D : Discipline ι σ Call.Ans} {i : ι} {s : σ} {c : Call}
    {P : c.Val → σ → Prop} (h : ∀ s₁, D.Rely i s s₁ → D.Inv s₁ →
      D.Allowed i s₁ c ∧ ∀ s₂ v, D.sem i s₁ c s₂ (.ok v) → D.Inv s₂ → P v s₂) :
    D.Yields i (perform c) P s := by
  intro s₁ hr hI
  refine ⟨(h s₁ hr hI).1, fun s₂ r hs hI₂ => ?_⟩
  rcases r with x | v
  · exact Discipline.Yields.raise x
  · exact Discipline.Yields.pure ((h s₁ hr hI).2 s₂ v hs hI₂)

/-- `datetime.isoformat` and `datetime.fromisoformat`, a time being in microseconds. -/
structure Dates where
  text : ℕ → String
  parse : String → Option ℕ
  text_ne : ∀ t, text t ≠ ""
  parse_text : ∀ t, parse (text t) = some t

/-- `_UNCERTAIN_GRACE_SECONDS`. -/
def uncertainGrace : ℕ := 120 * 1000000

/-- The grace period is over; a date that cannot be read never is. -/
def Dates.graceOver (dates : Dates) (since now : String) : Bool :=
  match dates.parse since, dates.parse now with
  | some a, some b => a + uncertainGrace ≤ b
  | _, _ => false

/-- A granted submission: the time it was claimed with, and the time it was granted at. -/
structure Permit where
  date : ℕ
  granted : ℕ
  deriving DecidableEq, Repr

/-- A build that was created, with the planner image that was configured and the attempt. -/
structure Posted where
  build : Build
  image : String
  attempt : ℕ
  visible : Bool
  deriving DecidableEq, Repr

/-- `warned i` is whether a build of the attempt was visible when `i` read the record first. -/
structure Desk (ι : Type) where
  world : World ι
  clock : ℕ
  permits : List Permit
  unspent : List ι
  posted : List Posted
  warned : ι → Option Bool

section Desk

variable {ι : Type} [DecidableEq ι]

def Desk.record (d : Desk ι) : Execution := d.world.record

/-- The build is of the attempt that the record is at, and visible. -/
def Desk.shows (d : Desk ι) (p : Posted) : Bool :=
  p.visible && p.attempt = d.record .plannerRetryCount

def Desk.visible (d : Desk ι) : List Build := (d.posted.filter Posted.visible).map Posted.build

/-- A permit is granted by the claim that returns `True`. -/
def Desk.note (dates : Dates) (i : ι) (d : Desk ι) (w : World ι) :
    Tx → Except Err (Execution × Bool) → Desk ι
  | .claimSubmission now, .ok (_, true) =>
    { d with
      world := w
      permits := ⟨(dates.parse now).getD 0, d.clock⟩ :: d.permits
      unspent := i :: d.unspent }
  | _, _ => { d with world := w }

/-- A build is requested, and perhaps created. -/
def Desk.post (i : ι) (image : String) (d : Desk ι) (created : Option Build) : Desk ι :=
  { d with
    world := { d.world with builds := d.world.builds + 1 }
    unspent := d.unspent.erase i
    posted := match created with
      | some b => ⟨b, image, d.record .plannerRetryCount, false⟩ :: d.posted
      | none => d.posted }

/-- A build is created as it is requested. -/
def Created (request : BuildRequest) (b : Build) : Prop :=
  b.id ≠ "" ∧ b.repository = request.repository ∧ b.revision = request.revision ∧
    b.serviceAccount = request.serviceAccount ∧ b.substitutions = request.substitutions

/-- The listing has the visible builds, and perhaps some of other executions. -/
def Desk.Lists (d : Desk ι) (builds : List Build) : Prop :=
  d.visible ⊆ builds ∧ ∀ b ∈ builds, b ∈ d.visible ∨
    b.substitutions.lookup "_EXECUTION_ID" ≠ some (d.record .executionId)

/-- The configuration of a call, with the planner image at its time. -/
def Config.at (cfg : Config) (dates : Dates) (image : String) : Config :=
  { cfg with releasePlannerImage := image, graceOver := dates.graceOver }

def Desk.sem (cfg : Config) (dates : Dates) (image : ι → String) (i : ι) (d : Desk ι) :
    (c : Call) → Desk ι → c.Ans → Prop
  | .get, d', r =>
    d' = { d with
      warned := Function.update d.warned i (some ((d.warned i).getD (d.posted.any d.shows))) } ∧
      (r = .ok (some d.record) ∨ lost r)
  | .now, d', r => d' = d ∧ r = .ok (dates.text d.clock)
  | .tx t, d', r =>
    ∃ w, Release.sem (cfg.at dates (image i)) i d.world (.tx t) w r ∧ d' = d.note dates i w t r
  | .listBuilds _, d', r => d' = d ∧ ((∃ builds, d.Lists builds ∧ r = .ok builds) ∨ lost r)
  | .postBuild request, d', r => ∃ created : Option Build,
    (∀ b ∈ created, Created request b) ∧ d' = d.post i (image i) created ∧
    (lost r ∨ ∃ a, r = .ok a ∧ (a.code < 300 → ∀ b, a.build = .ok b → created = some b))
  | c, d', r =>
    ∃ w, Release.sem (cfg.at dates (image i)) i d.world c w r ∧ d' = { d with world := w }

/-- Time passes, or builds become visible. -/
def Desk.moves (d d' : Desk ι) : Prop :=
  (∃ t, d' = { d with clock := d.clock + t }) ∨
    ∃ q : Posted → Bool,
      d' = { d with posted := d.posted.map fun p => { p with visible := p.visible || q p } }

def Desk.system (cfg : Config) (dates : Dates) (image : ι → String) :
    System ι (Desk ι) Call.Ans where
  sem := Desk.sem cfg dates image
  env := Desk.moves

/-- What a transaction does: nothing, or its changes, with a permit just where a claim returns
`True`. -/
inductive Desk.Wrote (cfg : Config) (dates : Dates) (i : ι) (d : Desk ι) (t : Tx) (d' : Desk ι)
    (r : Except Err (Execution × Bool)) : Prop
  | nothing (hd : d' = d) (x : Err) (hr : r = .error x)
  | stored (cs : List Change) (flag : Bool) (hrun : t.run cfg d.record = .ok (cs, flag))
      (w : World ι) (hw : w.record = update cs d.record ∧ w.builds = d.world.builds)
      (hd : d' = { d with world := w })
      (hr : (∃ x, r = .error x) ∨ (r = .ok (w.record, flag) ∧ ∀ now, t ≠ .claimSubmission now) ∨
        (r = .ok (w.record, false) ∧ flag = false))
  | granted (now : String) (ht : t = .claimSubmission now) (cs : List Change)
      (hrun : t.run cfg d.record = .ok (cs, true))
      (w : World ι) (hw : w.record = update cs d.record ∧ w.builds = d.world.builds)
      (hd : d' = { d with
        world := w
        permits := ⟨(dates.parse now).getD 0, d.clock⟩ :: d.permits
        unspent := i :: d.unspent })
      (hr : r = .ok (w.record, true))

omit [DecidableEq ι] in
theorem Desk.note_error (dates : Dates) (i : ι) (d : Desk ι) (w : World ι) (t : Tx) (x : Err) :
    d.note dates i w t (.error x) = { d with world := w } := by
  unfold Desk.note
  split
  · next h => cases h
  · rfl

theorem Desk.wrote {cfg : Config} {dates : Dates} {image : ι → String} {i : ι} {d d' : Desk ι}
    {t : Tx} {r : Except Err (Execution × Bool)}
    (h : Desk.sem cfg dates image i d (.tx t) d' r) :
    d.Wrote (cfg.at dates (image i)) dates i t d' r := by
  obtain ⟨w, hs, rfl⟩ := h
  rcases hs with ⟨rfl, x, rfl⟩ | hs
  · exact .nothing (Desk.note_error ..) _ rfl
  rcases hr : t.run (cfg.at dates (image i)) d.world.record with x | ⟨cs, flag⟩ <;> rw [hr] at hs
  · obtain ⟨rfl, rfl⟩ := hs
    exact .nothing (Desk.note_error ..) _ rfl
  rcases hs with ⟨rfl, x, rfl⟩ | ⟨hw, rfl⟩
  · exact .stored cs flag hr (d.world.store t cs flag) ⟨rfl, rfl⟩ (Desk.note_error ..)
      (.inl ⟨_, rfl⟩)
  have hrec : w.record = update cs d.world.record ∧ w.builds = d.world.builds := by
    rw [hw]
    split_ifs <;> exact ⟨rfl, rfl⟩
  rw [← hrec.1]
  by_cases hc : ∃ now, t = .claimSubmission now
  · obtain ⟨now, rfl⟩ := hc
    rcases flag with _ | _
    · exact .stored cs false hr w hrec rfl (.inr (.inr ⟨rfl, rfl⟩))
    · exact .granted now rfl cs hr w hrec rfl rfl
  · refine .stored cs flag hr w hrec ?_ (.inr (.inl ⟨rfl, fun now ht => hc ⟨now, ht⟩⟩))
    unfold Desk.note
    split
    · exact absurd ⟨_, rfl⟩ hc
    · rfl

/-- A call on the execution. -/
inductive Submitter
  | submit (service : Service)
  | reconcile (service : Service)

def Submitter.program (cfg : Config) (digest : Digest) : Submitter → Program Execution
  | .submit service => Release.submit cfg digest service
  | .reconcile service => reconcileUncertainSubmission cfg digest service

/-- An attempt begins: no build is bound to the record, which is to be submitted, a planner's retry
is marked as pending, and only a main release has a planner. -/
structure Begun (e : Execution) : Prop where
  status : e .status = .submissionPending
  unbound : e .buildId = ""
  ordinary : e .bootstrapTicketId = ""
  retry : e .plannerRetryCount ≠ (0 : ℕ) → e .plannerRetryPending = true
  quality : e .operation = .prQuality → e .plannerHash = ""

/-- The calls at their start. -/
def Desk.calls (cfg : Config) (dates : Dates) (digest : Digest) (image : ι → String) (d : Desk ι)
    (callers : ι → Submitter) : Conf ι (Desk ι) Call.Ans Err Execution :=
  ⟨d, fun i => (callers i).program (cfg.at dates (image i)) digest⟩

/-- The build that a request creates, the `n`th one. -/
def BuildRequest.create (request : BuildRequest) (n : ℕ) : Build where
  id := "build-" ++ toString n
  name := ""
  status := some "QUEUED"
  logUrl := ""
  repository := request.repository
  revision := request.revision
  serviceAccount := request.serviceAccount
  substitutions := request.substitutions
  steps := []
  timed := false

/-- The request of `i` is answered without a failure, but for the response to a POST, which is
lost if `drop` says so; the build is created all the same. -/
def Desk.reply (cfg : Config) (dates : Dates) (o : Oracle) (image : ι → String) (drop : Bool)
    (i : ι) (d : Desk ι) : (c : Call) → Desk ι × c.Ans
  | .get =>
    ({ d with
      warned := Function.update d.warned i (some ((d.warned i).getD (d.posted.any d.shows))) },
      .ok (some d.record))
  | .now => (d, .ok (dates.text d.clock))
  | .tx t =>
    let a := honest (cfg.at dates (image i)) o i d.world (.tx t)
    (d.note dates i a.1 t a.2, a.2)
  | .listBuilds _ => (d, .ok d.visible)
  | .postBuild request =>
    let b := request.create d.world.builds
    (d.post i (image i) (some b),
      if drop then .error (.external "timed out") else .ok ⟨200, "", .ok b⟩)
  | c =>
    let a := honest (cfg.at dates (image i)) o i d.world c
    ({ d with world := a.1 }, a.2)

theorem Desk.reply_sem (cfg : Config) (dates : Dates) (o : Oracle) (image : ι → String)
    (drop : Bool) (i : ι) (d : Desk ι) (c : Call) :
    Desk.sem cfg dates image i d c (d.reply cfg dates o image drop i c).1
      (d.reply cfg dates o image drop i c).2 := by
  have h := honest_sem (cfg.at dates (image i)) o i d.world c
  cases c with
  | get => exact ⟨rfl, .inl rfl⟩
  | now => exact ⟨rfl, rfl⟩
  | listBuilds id => exact ⟨rfl, .inl ⟨_, ⟨fun b hb => hb, fun b hb => .inl hb⟩, rfl⟩⟩
  | postBuild request =>
    refine ⟨some (request.create d.world.builds), fun b hb => ?_, rfl, ?_⟩
    · obtain rfl := Option.mem_some_iff.1 hb
      exact ⟨by simp [BuildRequest.create], rfl, rfl, rfl, rfl⟩
    · rcases drop with _ | _
      · exact .inr ⟨_, rfl, fun _ b hb => congrArg some (Except.ok.inj hb)⟩
      · exact .inl ⟨_, rfl⟩
  | _ => exact ⟨_, h, rfl⟩

/-- A scripted step: a request is answered, time passes, or the builds become visible. -/
inductive DeskAct (ι : Type)
  | answer (i : ι) (drop : Bool)
  | wait (t : ℕ)
  | appear

def DeskAct.turn (cfg : Config) (dates : Dates) (o : Oracle) (image : ι → String) :
    DeskAct ι → Turn ι (Desk ι) Call.Ans
  | .answer i drop => .run i (Desk.reply cfg dates o image drop i)
  | .wait t => .move fun d => { d with clock := d.clock + t }
  | .appear => .move fun d => { d with posted := d.posted.map fun p => { p with visible := true } }

theorem DeskAct.turn_sound (cfg : Config) (dates : Dates) (o : Oracle) (image : ι → String)
    (a : DeskAct ι) : (a.turn cfg dates o image).Sound (Desk.system cfg dates image) := by
  cases a with
  | answer i drop => exact fun d c => Desk.reply_sem cfg dates o image drop i d c
  | wait t => exact fun d => .inl ⟨t, rfl⟩
  | appear => exact fun d => .inr ⟨fun _ => true, by simp⟩

theorem DeskAct.reach_play {cfg : Config} {dates : Dates} {o : Oracle} {image : ι → String}
    {C : ι → Desk ι → Call → Prop} {c : Conf ι (Desk ι) Call.Ans Err Execution}
    (script : List (DeskAct ι)) (h : c.Meets C (script.map (DeskAct.turn cfg dates o image))) :
    Reach (Desk.system cfg dates image) C c (c.play (script.map (DeskAct.turn cfg dates o image))) := by
  refine Interleave.reach_play (fun t ht => ?_) _ h
  obtain ⟨a, -, rfl⟩ := List.mem_map.1 ht
  exact a.turn_sound cfg dates o image

end Desk

section Demo

/-- Times as decimal numbers. -/
def decimalDates : Dates where
  text := Nat.repr
  parse s := some (Nat.ofDigitChars 10 s.toList 0)
  text_ne := by simp
  parse_text := by simp

def deskOracle : Oracle where
  now := "t"
  now_ne := by decide
  service := fun _ => some demoService
  build := fun _ => demoBuild
  builds := []
  post := ⟨503, "", .error .key⟩
  report := fun _ => none
  staged := ""
  id := ""
  url := ""

/-- An execution that is about to be submitted. -/
def deskStart (e : Execution) (posted : List Posted) : Desk (Fin 4) where
  world :=
    { record := e, head := "head", refs := [], releases := [], committed := [], seen := [],
      madeRefs := [], madeReleases := [], builds := 0, grants := [], permit := fun _ => false,
      cancelled := false, retired := false }
  clock := 0
  permits := []
  unspent := []
  posted := posted
  warned := fun _ => none

/-- Every request of `i`, `n` of them, the response to a POST being lost. -/
def lostAnswers (n : ℕ) (i : Fin 4) : List (DeskAct (Fin 4)) := List.replicate n (.answer i true)

end Demo

end Release
