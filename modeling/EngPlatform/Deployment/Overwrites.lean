import EngPlatform.Deployment.Backends
import EngPlatform.Deployment.Refreshes

/-!
# Reads and live deployments

Callbacks, read endpoints and webhooks run against one store, one request at a time. A deployment
that is stored as succeeded or rolled back stays what it is as long as nobody saves an item that
another has changed since it was read, no event of the build follows the one that made it live, and
no run of it is rejected for quota: the read endpoints leave a terminal item alone, and the webhook
changes only its run.
-/

set_option linter.dupNamespace false

namespace Deployment

open Interleave

/-- An item that is saved without a key is read back, and the others are left. -/
theorem get_save {ρ : Type} (docs : List (Record ρ)) (item : Item ρ) (id : String) :
    Firestore.get (Firestore.save docs item "") id
      = if item.id = id then some item else Firestore.get docs id := by
  have hsave : Firestore.save docs item ""
      = Firestore.put docs (item.record (Firestore.idempotencyKeyFor docs item.id)) := rfl
  rw [hsave]
  unfold Firestore.get Firestore.document Firestore.put
  rw [List.find?_cons]
  by_cases hid : item.id = id
  · subst hid
    simp [Item.record, Record.item]
  · rw [if_neg hid]
    simp only [Item.record, hid, decide_false, List.find?_filter]
    congr 2
    funext r
    by_cases hr : r.id = id
    · simp [hr, Ne.symm hid]
    · simp [hr]

namespace Overwrites

/-! ## The world -/

structure World where
  docs : List (Record Progress)
  eventSequence : String → ℕ

def World.get (w : World) (id : String) : Option DeploymentItem := Firestore.get w.docs id

/-- The providers may answer anything. -/
def sem (w : World) : (e : Request) → World → e.Answer → Prop
  | .item id, w', r => w' = w ∧ r = w.get id
  | .list serviceName limit _, w', r =>
    w' = w ∧ r = (Firestore.listForServiceWithTotal w.docs serviceName limit).1
  | .accept id sequence, w', r =>
    if sequence ≤ w.eventSequence id then w' = w ∧ r = false
    else
      w' = { w with eventSequence := Function.update w.eventSequence id sequence } ∧ r = true
  | .save _ _ new, w', _ => w' = { w with docs := Firestore.save w.docs new "" }
  | _, w', _ => w' = w

def system (ι : Type) : System ι World Request.Answer where
  sem := fun _ => sem
  env := fun _ _ => False

inductive Writer
  | acceptEvent (id : String) (payload : Payload) (now : String)
  | getDeployment (id : String)
  | listServiceDeployments (serviceName : String) (limit : ℕ)
  | handleDeploymentWorkflowRun (repository : String) (services : List String) (runId : ℕ)

variable (cfg : Settings) (parse : String → Option Int)

def Writer.program : Writer → Program Unit
  | .acceptEvent id payload now => Deployment.acceptEvent id payload now
  | .getDeployment id => Deployment.getDeployment cfg parse id
  | .listServiceDeployments serviceName limit =>
    Deployment.listServiceDeployments cfg parse serviceName limit
  | .handleDeploymentWorkflowRun repository services runId =>
    Deployment.handleDeploymentWorkflowRun cfg repository services runId

def start {ι : Type} (w : World) (writers : ι → Writer) :
    Conf ι World Request.Answer Raised Unit :=
  ⟨w, fun i => (writers i).program cfg parse⟩

/-! ## What is kept, and when -/

def isLive (item : DeploymentItem) : Prop := item.status = .succeeded ∨ item.status = .rolledBack

instance (item : DeploymentItem) : Decidable (isLive item) := inferInstanceAs (Decidable (_ ∨ _))

/-- The status, the production of an item and the results of its stages. -/
structure Kept (item item' : DeploymentItem) : Prop where
  status : item'.status = item.status
  productionRevision : item'.rest.productionRevision = item.rest.productionRevision
  productionUrl : item'.rest.productionUrl = item.rest.productionUrl
  stages : item'.rest.stages = item.rest.stages

theorem Kept.refl (item : DeploymentItem) : Kept item item := ⟨rfl, rfl, rfl, rfl⟩

theorem Kept.trans {a b c : DeploymentItem} (h : Kept a b) (h' : Kept b c) : Kept a c :=
  ⟨h'.1.trans h.1, h'.2.trans h.2, h'.3.trans h.3, h'.4.trans h.4⟩

theorem Kept.live {a b : DeploymentItem} (h : Kept a b) (hl : isLive a) : isLive b := by
  unfold isLive at *
  rw [h.status]
  exact hl

/-- The condition: who saves an item knows the stored one, and neither an event of the build nor a
quota failure is saved over a live one. -/
def Fresh {ι : Type} (_ : ι) (w : World) : Request → Prop
  | .save cause read new =>
    w.get new.id = some read ∧ (cause = .event ∨ cause = .quota → ¬ isLive read)
  | _ => True

/-- What the guards of the writers make of their saves. -/
def Guarded : Request → Prop
  | .save .refresh read new => new.id = read.id ∧ read.status ∉ terminalStatuses
  | .save .run read new => new.id = read.id ∧ Kept read new
  | _ => True

theorem not_live_of_open {item : DeploymentItem} (h : item.status ∉ terminalStatuses) :
    ¬ isLive item := by
  rintro (hs | hs) <;> exact h (by rw [hs]; decide)

/-! ## The writers are guarded -/

section Writers

variable {cfg} {parse}

theorem guarded {α : Type} {p : Program α} (h : p.Asks Silent) : p.Asks Guarded :=
  .mono (fun e he => by cases e <;> trivial) h

theorem perform_guarded {e : Request} (h : Guarded e) : (perform e).Asks Guarded := .call h

theorem silent {e : Request} (h : Silent e) : (perform e).Asks Guarded := guarded (.call h)

theorem refreshItem_asks (item : DeploymentItem) : (refreshItem cfg parse item).Asks Guarded := by
  refine .ite (fun _ => trivial) fun hopen => .handle (fun _ => ?_) ?_
  · trivial
  refine .bind_ends (fun refreshed h => ?_) (guarded refresh_asks) refresh_ends
  refine .ite (fun _ => ?_) fun _ => perform_guarded ⟨h.id, hopen⟩
  trivial

theorem withRun_kept (item : DeploymentItem) (run : Run) : Kept item (withRun item run) :=
  ⟨rfl, rfl, rfl, rfl⟩

theorem titledItem_asks (repository : String) (run : Run) (serviceName : String) :
    (titledItem repository run serviceName).Asks Guarded := by
  unfold titledItem
  split
  · trivial
  · refine .bind (fun _ => ?_) (silent rfl)
    trivial

theorem activeFor_asks (repository : String) (run : Run) (serviceName : String) :
    (activeFor repository run serviceName).Asks Guarded := by
  refine .bind (fun r => ?_) (titledItem_asks _ _ _)
  cases r with
  | none =>
    refine .bind (fun _ => ?_) (silent rfl)
    trivial
  | some item => trivial

theorem handleServiceRun_asks (repository : String) (run : Run) (serviceName : String) :
    (handleServiceRun cfg repository run serviceName).Asks Guarded := by
  refine .ite (fun _ => trivial) fun _ => .bind (fun r => ?_) (activeFor_asks _ _ _)
  cases r with
  | none => trivial
  | some active =>
    refine .bind (fun _ => ?_) (perform_guarded ⟨rfl, withRun_kept active run⟩)
    refine .bind (fun r => ?_) (silent rfl)
    cases r with
    | none => trivial
    | some execution =>
      refine .ite (fun _ => trivial) fun _ => .bind (fun b => ?_) (guarded (quota_asks _ _))
      cases b with
      | true => exact perform_guarded trivial
      | false => trivial

theorem acceptEvent_asks (id : String) (payload : Payload) (now : String) :
    (acceptEvent id payload now).Asks Guarded := by
  refine .bind (fun r => ?_) (silent rfl)
  refine .bind (fun r' => ?_) (silent rfl)
  refine .bind (fun execution => .bind (fun item => ?_) (guarded orRaise_asks)) (guarded orRaise_asks)
  refine .ite (fun _ => trivial) fun _ => .ite (fun _ => trivial) fun _ => ?_
  refine .ite (fun _ => trivial) fun _ => .bind (fun b => ?_) (silent rfl)
  refine .bind (fun _ => ?_) (guarded orRaise_asks)
  refine .bind (fun verified => ?_) (silent rfl)
  refine .ite (fun _ => trivial) fun _ => .bind (fun accepted => ?_) (silent rfl)
  refine .ite (fun _ => ?_) fun _ => trivial
  refine .bind (fun _ => ?_) (perform_guarded trivial)
  exact guarded setManagedStatus_asks

theorem program_asks (writer : Writer) : (writer.program cfg parse).Asks Guarded := by
  cases writer with
  | acceptEvent id payload now => exact acceptEvent_asks id payload now
  | getDeployment id =>
    exact .bind (fun r => .bind (fun item => refreshItem_asks item) (guarded orRaise_asks))
      (silent rfl)
  | listServiceDeployments serviceName limit =>
    exact .bind (fun items => .forM refreshItem_asks items) (silent rfl)
  | handleDeploymentWorkflowRun repository services runId =>
    refine .bind (fun r => ?_) (silent rfl)
    refine .bind (fun run => ?_) (guarded orRaise_asks)
    exact .ite (fun _ => trivial) fun _ => .forM (handleServiceRun_asks repository run) services

end Writers

/-! ## A step -/

/-- The deployment of an id is stored as it was live, or with what was kept of it. -/
def StoredAs (id : String) (live : DeploymentItem) (w : World) : Prop :=
  ∃ item, w.get id = some item ∧ Kept live item

variable {id : String} {live : DeploymentItem} {w w' : World}

theorem storedAs_save {read new : DeploymentItem} (h : StoredAs id live w)
    (hread : w.get new.id = some read) (hkept : new.id = id → Kept live read → Kept live new) :
    StoredAs id live { w with docs := Firestore.save w.docs new "" } := by
  obtain ⟨item, hget, hk⟩ := h
  have hsave := get_save w.docs new id
  by_cases hid : new.id = id
  · rw [if_pos hid] at hsave
    refine ⟨new, hsave, hkept hid ?_⟩
    rw [hid, hget] at hread
    exact Option.some.inj hread ▸ hk
  · rw [if_neg hid] at hsave
    exact ⟨item, hsave.trans hget, hk⟩

theorem sem_storedAs {ι : Type} {i : ι} {e : Request} {r : e.Answer} (hl : isLive live)
    (h : StoredAs id live w) (hg : Guarded e) (hf : Fresh i w e) (hs : sem w e w' r) :
    StoredAs id live w' := by
  cases e with
  | save cause read new =>
    obtain ⟨hread, hover⟩ := hf
    cases (show w' = _ from hs)
    refine storedAs_save h hread fun hid hk => ?_
    have hlive : isLive read := hk.live hl
    cases cause with
    | event => exact absurd hlive (hover (.inl rfl))
    | quota => exact absurd hlive (hover (.inr rfl))
    | refresh => exact absurd hlive (not_live_of_open hg.2)
    | run => exact hk.trans hg.2
  | accept id' sequence =>
    simp only [sem] at hs
    split at hs
    · rw [hs.1]
      exact h
    · rw [hs.1]
      exact h
  | item id' => exact hs.1 ▸ h
  | list serviceName limit forRun => exact hs.1 ▸ h
  | _ =>
    cases (show w' = w from hs)
    exact h

/-- Once a deployment is stored as succeeded or rolled back, nobody replaces its status or drops its
production and the results of its stages. -/
theorem live_deployment_kept {ι : Type} [DecidableEq ι] (cfg : Settings)
    (parse : String → Option Int) (writers : ι → Writer) {w : World}
    {c c' : Conf ι World Request.Answer Raised Unit} {id : String} {live : DeploymentItem}
    (h : Reach (system ι) (always _ _ _) (start cfg parse w writers) c)
    (hget : c.state.get id = some live) (hl : isLive live) (h' : Reach (system ι) Fresh c c') :
    ∃ item, c'.state.get id = some item ∧ Kept live item :=
  Reach.invariant_asks (J := StoredAs id live)
    (fun _ _ _ _ _ hJ hg hf hs => sem_storedAs hl hJ hg hf hs) (fun _ _ _ (he : False) => he.elim)
    (Reach.asks (fun i => program_asks (writers i)) h) ⟨live, hget, .refl live⟩ h'

/-! ## A run -/

section Demo

def demoSettings : Settings where
  cloudRunJob _ := false
  candidateRevision _ := "orders-api-ep-0123456789"
  workflowFile _ := "platform-deploy.yml"
  rollbackWorkflow := "platform-rollback.yml"
  serviceRepository _ := "acme/orders"
  fallbackEnabled _ := false

def demoItem : DeploymentItem where
  id := "41"
  serviceName := "orders-api"
  status := .promoting
  createdAt := "2026-10-01T10:00:00+00:00"
  rest :=
    { kind := .deploy, externalVerified := false, repository := "acme/orders", tag := "v1.4.0"
      sha := "5f1c", currentStage := "promote", stages := [], candidateRevision := ""
      candidateUrl := "", productionRevision := "", productionUrl := "", updatedAt := ""
      githubDeploymentId := some 41, githubRunId := none, githubRunUrl := "", logsUrl := ""
      error := "" }

/-- Production was validated. -/
def demoEvent : Event where
  stage := "validate-production"
  status := .succeeded
  candidateRevision := ""
  candidateUrl := ""
  productionRevision := "orders-api-ep-0123456789"
  productionUrl := "https://orders.example"
  error := ""

def demoWorld : World := ⟨[demoItem.record ""], fun _ => 0⟩

def demoWriters : Bool → Writer
  | false => .getDeployment "41"
  | true => .acceptEvent "41" ⟨"b1", "f1", 7, demoEvent⟩ "t1"

/-- A build that still runs. -/
def demoAnswer (w : World) : (e : Request) → World × e.Answer
  | .execution _ => (w, some ⟨"cloud_build", "f1", "b1", "log"⟩)
  | .saveExecution .. => (w, ())
  | .item id => (w, w.get id)
  | .list serviceName limit _ =>
    (w, (Firestore.listForServiceWithTotal w.docs serviceName limit).1)
  | .accept id sequence =>
    if sequence ≤ w.eventSequence id then (w, false)
    else ({ w with eventSequence := Function.update w.eventSequence id sequence }, true)
  | .save _ _ new => ({ w with docs := Firestore.save w.docs new "" }, ())
  | .build _ => (w, some ⟨"WORKING", some "log"⟩)
  | .verified .. => (w, true)
  | .runtime _ => (w, none)
  | .healthy .. => (w, true)
  | .jobSummary _ => (w, none)
  | .repo _ => (w, true)
  | .statuses _ => (w, none)
  | .workflowRun _ => (w, none)
  | .dispatchRuns .. => (w, none)
  | .jobs _ => (w, none)
  | .quotaAnnotations _ => (w, false)
  | .managedStatus _ => (w, true)

theorem demoAnswer_sem (w : World) (e : Request) :
    sem w e (demoAnswer w e).1 (demoAnswer w e).2 := by
  cases e with
  | accept id sequence =>
    simp only [sem, demoAnswer]
    split <;> exact ⟨rfl, rfl⟩
  | item id => exact ⟨rfl, rfl⟩
  | list serviceName limit forRun => exact ⟨rfl, rfl⟩
  | _ => exact rfl

def turns (i : Bool) (n : ℕ) : List (Turn Bool World Request.Answer) :=
  List.replicate n (.run i demoAnswer)

theorem turns_sound {script : List (Turn Bool World Request.Answer)}
    (h : ∀ t ∈ script, ∃ i, t = .run i demoAnswer) :
    ∀ t ∈ script, t.Sound (system Bool) := by
  intro t ht
  obtain ⟨i, rfl⟩ := h t ht
  exact demoAnswer_sem

theorem turns_run (i : Bool) (n : ℕ) : ∀ t ∈ turns i n, ∃ i, t = .run i demoAnswer :=
  fun _ ht => ⟨i, List.eq_of_mem_replicate ht⟩

abbrev demoStart : Conf Bool World Request.Answer Raised Unit :=
  start demoSettings (fun _ => none) demoWorld demoWriters

def demoLive : DeploymentItem := applyEvent demoItem demoEvent "t1"

/-- The callback saves, and the read endpoint then finds the item terminal. -/
theorem live_deployment_kept_demo :
    ∃ item, ((demoStart.play (turns true 6)).play (turns false 1)).state.get "41" = some item ∧
      Kept demoLive item :=
  live_deployment_kept demoSettings (fun _ => none) demoWriters
    (reach_play (turns_sound (turns_run true 6)) demoStart (meets_always _ _)) (by rfl)
    (.inl (by rfl)) (reach_play (turns_sound (turns_run false 1)) _ ⟨trivial, trivial⟩)

/-- A read endpoint that read the item before the callback saved it writes it back as building,
without the production that was validated. -/
theorem read_undoes_live :
    ¬ ∀ (c c' : Conf Bool World Request.Answer Raised Unit) (live : DeploymentItem),
      Reach (system Bool) (always _ _ _) demoStart c → c.state.get "41" = some live →
        isLive live → Reach (system Bool) (always _ _ _) c c' →
          ∃ item, c'.state.get "41" = some item ∧ Kept live item := by
  intro h
  have hc : Reach (system Bool) (always _ _ _) demoStart
      ((demoStart.play (turns false 5)).play (turns true 6)) :=
    (reach_play (turns_sound (turns_run false 5)) demoStart (meets_always _ _)).trans
      (reach_play (turns_sound (turns_run true 6)) _ (meets_always _ _))
  obtain ⟨item, hget, hk⟩ := h _ _ demoLive hc (by rfl) (.inl (by rfl))
    (reach_play (turns_sound (turns_run false 1)) _ (meets_always _ _))
  have hitem : item.status = .building := by
    have hstored : ((((demoStart.play (turns false 5)).play (turns true 6)).play
      (turns false 1)).state.get "41").map (·.status) = some .building := by rfl
    rw [hget] at hstored
    exact Option.some.inj hstored
  have := hk.status
  rw [hitem] at this
  cases this

end Demo

end Overwrites

end Deployment
