import EngPlatform.Deployment.Backends
import EngPlatform.Deployment.Refreshes

/-!
# The workflow run of a deployment

Commands store the deployments of a service and dispatch their runs, which become visible later.
The read endpoints and the webhook meanwhile look for the run of a deployment: by the run it has, by
the statuses of its GitHub Deployment, by the title of the run, or, where the run has no such title
or has not reported, by its SHA.

A run comes to no other deployment as long as, whenever the SHA is all there is, a run or a
deployment that fits is not there without the right one.
-/

set_option linter.dupNamespace false

namespace Deployment.Attribution

open Interleave

/-! ## The world -/

/-- A run, and the deployment it was dispatched for. -/
structure Dispatch where
  run : Run
  deployment : String

structure World where
  docs : List (Record Progress)
  dispatches : List Dispatch
  visible : ℕ → Bool

def World.get (w : World) (id : String) : Option DeploymentItem := Firestore.get w.docs id

def World.list (w : World) (serviceName : String) (limit : ℕ) : List DeploymentItem :=
  (Firestore.listForServiceWithTotal w.docs serviceName limit).1

def World.visibleRuns (w : World) : List Run :=
  (w.dispatches.map (·.run)).filter fun run => w.visible run.id

/-- The run was dispatched for the deployment. -/
def Own (w : World) (id : String) (r : ℕ) : Prop :=
  ∃ d ∈ w.dispatches, d.run.id = r ∧ d.deployment = id

/-- A run that has a title names the deployment that it was dispatched for: the workflows of the
platform take the id of the GitHub Deployment into their run name. -/
def Dispatch.Titled (d : Dispatch) : Prop :=
  ∀ kind id, correlated d.run.title = some (kind, id) → d.deployment = id

/-- An item whose run is its own, and whose id is that of its GitHub Deployment. -/
structure Sound (w : World) (item : DeploymentItem) : Prop where
  own : ∀ r, item.rest.githubRunId = some r → Own w item.id r
  deployment : ∀ g : ℕ, item.rest.githubDeploymentId = some g → item.id = toString g

/-- GitHub answers with the visible runs of a SHA, a run by its id, and the statuses that the run of
a deployment posts to its GitHub Deployment. -/
def sem (w : World) : (e : Request) → World → e.Answer → Prop
  | .item id, w', r => w' = w ∧ r = w.get id
  | .list serviceName limit _, w', r => w' = w ∧ r = w.list serviceName limit
  | .save _ _ new, w', _ => w' = { w with docs := Firestore.save w.docs new "" }
  | .workflowRun id, w', r =>
    w' = w ∧ ∀ run, r = some run → run ∈ w.visibleRuns ∧ run.id = id
  | .dispatchRuns item _, w', r =>
    w' = w ∧ ∀ runs, r = some runs →
      ∀ run, run ∈ runs ↔ run ∈ w.visibleRuns ∧ run.headSha = item.rest.sha
  | .statuses g, w', r =>
    w' = w ∧ ∀ statuses, r = some statuses → ∀ status ∈ statuses, ∀ id,
      Github.runId status.logUrl = some id → Own w (toString g) id
  | _, w', _ => w' = w

/-- A command stores an item, a run is dispatched, or runs become visible. -/
inductive Moves (w : World) : World → Prop
  | command (item : DeploymentItem) (key : String) (h : Sound w item) :
    Moves w { w with docs := Firestore.save w.docs item key }
  | dispatch (d : Dispatch) (h : d.Titled) : Moves w { w with dispatches := d :: w.dispatches }
  | appear (visible : ℕ → Bool) : Moves w { w with visible := visible }

def system (ι : Type) : System ι World Request.Answer where
  sem := fun _ => sem
  env := Moves

variable (cfg : Settings) (parse : String → Option Int)

inductive Reader
  | getDeployment (id : String)
  | listServiceDeployments (serviceName : String) (limit : ℕ)
  | handleDeploymentWorkflowRun (repository : String) (services : List String) (runId : ℕ)

def Reader.program : Reader → Program Unit
  | .getDeployment id => Deployment.getDeployment cfg parse id
  | .listServiceDeployments serviceName limit =>
    Deployment.listServiceDeployments cfg parse serviceName limit
  | .handleDeploymentWorkflowRun repository services runId =>
    Deployment.handleDeploymentWorkflowRun cfg repository services runId

def start {ι : Type} (readers : ι → Reader) : Conf ι World Request.Answer Raised Unit :=
  ⟨⟨[], [], fun _ => false⟩, fun i => (readers i).program cfg parse⟩

/-- Every stored run is the one dispatched for its deployment. -/
def Attributed (w : World) : Prop := ∀ id item r,
  w.get id = some item → item.rest.githubRunId = some r → Own w id r

/-- The condition. When the runs of a SHA are searched for the run of a deploy, the run of another
deployment fits only if its own is visible and fits. When the deployments are searched for that of
a run without a title, another open deploy of the SHA is listed only after its own, open one. -/
def Unmixed {ι : Type} (_ : ι) (w : World) : Request → Prop
  | .dispatchRuns item createdAt =>
    ∀ run ∈ w.visibleRuns, Github.isCandidate item createdAt run = true → ¬ Own w item.id run.id →
      ∃ own ∈ w.visibleRuns, Github.isCandidate item createdAt own = true ∧ Own w item.id own.id
  | .list serviceName limit (some (repository, run)) =>
    ∀ newer item older, w.list serviceName limit = newer ++ item :: older →
      isLegacyMatch repository run item = true → ¬ Own w item.id run.id →
        ∃ own ∈ newer, isLegacyMatch repository run own = true ∧ Own w own.id run.id
  | _ => True

/-! ## The discipline -/

section Facts

variable {w w' : World}

theorem Own.mono {id : String} {r : ℕ} (h : Own w id r)
    (hd : ∀ d ∈ w.dispatches, d ∈ w'.dispatches) : Own w' id r := by
  obtain ⟨d, hm, hr⟩ := h
  exact ⟨d, hd d hm, hr⟩

theorem Sound.mono {item : DeploymentItem} (h : Sound w item)
    (hd : ∀ d ∈ w.dispatches, d ∈ w'.dispatches) : Sound w' item :=
  ⟨fun r hr => (h.own r hr).mono hd, h.deployment⟩

theorem Sound.of_identity {item item' : DeploymentItem} (h : Sound w item)
    (hi : Identity item item')
    (hr : ∀ r, item'.rest.githubRunId = some r → Own w item.id r) : Sound w item' where
  own r he := by
    rw [hi.id]
    exact hr r he
  deployment g hg := by
    rw [hi.id]
    exact h.deployment g (hi.githubDeploymentId ▸ hg)

theorem Sound.of_sameRun {item item' : DeploymentItem} (h : Sound w item)
    (hi : SameRun item item') : Sound w item' :=
  h.of_identity hi.toIdentity fun r hr => h.own r (hi.githubRunId ▸ hr)

structure Inv (w : World) : Prop where
  sound : ∀ r ∈ w.docs, Sound w r.item
  titled : ∀ d ∈ w.dispatches, d.Titled

theorem Inv.start : Inv ⟨[], [], fun _ => false⟩ where
  sound _ hr := absurd hr List.not_mem_nil
  titled _ hd := absurd hd List.not_mem_nil

theorem mem_save {docs : List (Record Progress)} {item : DeploymentItem} {key : String}
    {r : Record Progress} (h : r ∈ Firestore.save docs item key) : r.item = item ∨ r ∈ docs := by
  have hput : ∀ {k}, r ∈ Firestore.put docs (item.record k) → r.item = item ∨ r ∈ docs := by
    intro k hr
    rcases List.mem_cons.1 hr with rfl | hr
    · exact .inl rfl
    · exact .inr (List.mem_filter.1 hr).1
  unfold Firestore.save at h
  simp only [] at h
  split at h
  · split at h
    · exact hput h
    · exact hput (List.mem_filter.1 h).1
  · exact hput h

theorem get_mem {id : String} {item : DeploymentItem} (h : w.get id = some item) :
    ∃ r ∈ w.docs, r.item = item ∧ item.id = id := by
  unfold World.get Firestore.get at h
  obtain ⟨r, hr, rfl⟩ := Option.map_eq_some_iff.1 h
  have hp := List.find?_some hr
  exact ⟨r, List.mem_of_find?_eq_some hr, rfl, of_decide_eq_true hp⟩

theorem list_mem {serviceName : String} {limit : ℕ} {item : DeploymentItem}
    (h : item ∈ w.list serviceName limit) : ∃ r ∈ w.docs, r.item = item := by
  unfold World.list Firestore.listForServiceWithTotal at h
  simp only [] at h
  split at h
  · have hm := Queries.sortBy_perm.mem_iff.1 (List.mem_of_mem_take h)
    obtain ⟨r, hr, he⟩ := List.mem_map.1 hm
    exact ⟨r, (Queries.mem_run.1 (Queries.mem_pages hr)).1, he⟩
  · obtain ⟨r, hr, he⟩ := List.mem_map.1 h
    exact ⟨r, (Queries.mem_run.1 (List.mem_of_mem_take hr)).1, he⟩

theorem Inv.save (h : Inv w) {item : DeploymentItem} {key : String} (hs : Sound w item) :
    Inv { w with docs := Firestore.save w.docs item key } where
  sound r hr := by
    rcases mem_save hr with he | hm
    · rw [he]
      exact ⟨hs.own, hs.deployment⟩
    · exact ⟨(h.sound r hm).own, (h.sound r hm).deployment⟩
  titled := h.titled

/-- A request leaves what is dispatched, and only a save changes what is stored. -/
theorem sem_cases {e : Request} {r : e.Answer} (h : sem w e w' r) :
    w' = w ∨ ∃ cause read new, e = .save cause read new ∧
      w' = { w with docs := Firestore.save w.docs new "" } := by
  cases e with
  | save cause read new => exact .inr ⟨cause, read, new, rfl, h⟩
  | item id => exact .inl h.1
  | list serviceName limit forRun => exact .inl h.1
  | workflowRun id => exact .inl h.1
  | dispatchRuns item createdAt => exact .inl h.1
  | statuses g => exact .inl h.1
  | _ => exact .inl h

theorem sem_dispatches {e : Request} {r : e.Answer} (h : sem w e w' r) :
    w'.dispatches = w.dispatches := by
  rcases sem_cases h with rfl | ⟨_, _, _, _, rfl⟩ <;> rfl

theorem Moves.dispatches (h : Moves w w') : ∀ d ∈ w.dispatches, d ∈ w'.dispatches := by
  cases h with
  | command item key hs => exact fun _ hd => hd
  | dispatch d ht => exact fun _ hd => .tail _ hd
  | appear visible => exact fun _ hd => hd

theorem Moves.inv (hi : Inv w) (h : Moves w w') : Inv w' := by
  cases h with
  | command item key hs => exact hi.save hs
  | dispatch d ht =>
    refine ⟨fun r hr => (hi.sound r hr).mono fun _ hd => .tail _ hd, fun e he => ?_⟩
    rcases List.mem_cons.1 he with rfl | he
    · exact ht
    · exact hi.titled e he
  | appear visible => exact ⟨fun r hr => (hi.sound r hr).mono fun _ hd => hd, hi.titled⟩

end Facts

/-- A writer saves only items whose run is their own, and counts on what has been dispatched. -/
def discipline (ι : Type) : Discipline ι World Request.Answer where
  toSystem := (system ι).restrict Unmixed
  Inv := Inv
  Allowed := fun _ w e => ∀ cause read new, e = .save cause read new → Sound w new
  Rely := fun _ w w' => ∀ d ∈ w.dispatches, d ∈ w'.dispatches
  rely_refl := fun _ _ _ hd => hd
  rely_trans := fun _ _ _ _ h h' d hd => h' d (h d hd)
  inv_sem := fun _ w e w' r hi ha hs => by
    rcases sem_cases hs.2 with rfl | ⟨cause, read, new, he, rfl⟩
    · exact hi
    · exact hi.save (ha cause read new he)
  rely_sem := fun _ _ _ _ _ _ _ _ _ hs d hd => by
    rw [sem_dispatches hs.2]
    exact hd
  inv_env := fun _ _ hi hs => hs.inv hi
  rely_env := fun _ _ _ _ hs => hs.dispatches

/-! ## The programs obey -/

section Programs

variable {cfg} {parse} {ι : Type} {i : ι} {w : World} {item : DeploymentItem}

theorem silent_allowed (s : World) (e : Request) (he : Silent e) (_ : (discipline ι).Inv s) :
    (discipline ι).Allowed i s e := by
  rintro cause read new rfl
  cases he

theorem sound_kept {A : Request → Prop} (item : DeploymentItem) :
    (discipline ι).Kept i A fun w => Sound w item where
  stable _ _ hr h := h.mono hr
  own _ _ _ _ _ _ _ hs h := h.mono fun d hd => by
    rw [sem_dispatches hs.2]
    exact hd

theorem own_kept {A : Request → Prop} (id : String) (r : ℕ) :
    (discipline ι).Kept i A fun w => Own w id r where
  stable _ _ hr h := h.mono hr
  own _ _ _ _ _ _ _ hs h := h.mono fun d hd => by
    rw [sem_dispatches hs.2]
    exact hd

/-- A read, with what its answer says of the state that it is made in. -/
theorem read_yields {e : Request} {P : e.Answer → World → Prop} (he : Silent e)
    (h : ∀ w r, Inv w → Unmixed i w e → sem w e w r → P r w) :
    (discipline ι).Yields i (perform e) P w := by
  refine .ask fun w₁ _ hi => ⟨silent_allowed w₁ e he hi, fun w₂ r hs _ => .pure ?_⟩
  rcases sem_cases hs.2 with rfl | ⟨_, _, _, rfl, _⟩
  · exact h w₂ r hi hs.1 hs.2
  · cases he

/-- A silent program keeps what the dispatches give, and returns what it ends in. -/
theorem silent_yields {α : Type} {p : Program α} {Q : α → Prop} {K : World → Prop}
    (hK : (discipline ι).Kept i Silent K) (hA : p.Asks Silent) (hE : p.Ends Q) (h : K w) :
    (discipline ι).Yields i p (fun a w => Q a ∧ K w) w :=
  Discipline.Yields.keep hK hA (.of_ends silent_allowed hA hE) h

theorem any_ends {α : Type} (p : Program α) : p.Ends fun _ => True := by
  induction p with
  | done a => trivial
  | raise x => trivial
  | ask e k ih => exact ih

theorem save_yields {cause : Cause} {read new : DeploymentItem} (h : Sound w new) :
    (discipline ι).Yields i (perform (.save cause read new)) (fun _ w => Sound w new) w := by
  refine .ask fun w₁ hr _ => ⟨?_, fun w₂ r hs _ => .pure ?_⟩
  · rintro _ _ _ ⟨⟩
    exact h.mono hr
  · have hstored : w₂ = { w₁ with docs := Firestore.save w₁.docs new "" } := hs.2
    rw [hstored]
    exact (h.mono hr).mono fun _ hd => hd

/-- Where the runs of the SHA have the own one whenever another fits, the only one that fits is the
own one. -/
theorem discover_own {createdAt : Int} {runs : List Run} {run : Run}
    (hruns : ∀ run, run ∈ runs ↔ run ∈ w.visibleRuns ∧ run.headSha = item.rest.sha)
    (hc : Unmixed i w (.dispatchRuns item createdAt))
    (h : Github.discoverDispatchRun item createdAt runs = some run) : Own w item.id run.id := by
  unfold Github.discoverDispatchRun at h
  split at h
  · rename_i only hfilter
    cases h
    have honly : run ∈ runs.filter (Github.isCandidate item createdAt) := by
      rw [hfilter]
      exact .head _
    obtain ⟨hm, hcand⟩ := List.mem_filter.1 honly
    by_contra hnot
    obtain ⟨own, hvis, hocand, hown⟩ := hc run ((hruns run).1 hm).1 hcand hnot
    have hsha : own.headSha = item.rest.sha := by
      unfold Github.isCandidate at hocand
      exact (of_decide_eq_true hocand).2.1
    have hmem : own ∈ runs.filter (Github.isCandidate item createdAt) :=
      List.mem_filter.2 ⟨(hruns own).2 ⟨hvis, hsha⟩, hocand⟩
    rw [hfilter, List.mem_singleton] at hmem
    exact hnot (hmem ▸ hown)
  · cases h

theorem discover_yields (createdAt : Option Int) :
    (discipline ι).Yields i (Github.discover cfg item createdAt)
      (fun o w => ∀ run, o = some run → Own w item.id run.id) w := by
  cases createdAt with
  | none => exact .pure fun run h => by cases h
  | some createdAt =>
    refine .ite (fun _ => .pure fun run h => by cases h) fun _ => ?_
    refine .bind (P := fun r w => ∀ runs, r = some runs → ∀ run,
      Github.discoverDispatchRun item createdAt runs = some run → Own w item.id run.id)
      (read_yields rfl fun w r _ hc hs runs hr run hd =>
        discover_own (hs.2 runs hr) hc hd) fun r w hr => ?_
    cases r with
    | none => exact .pure fun run h => by cases h
    | some runs => exact .pure fun run hd => hr runs rfl run hd

/-- A run id that is found in the statuses of a GitHub Deployment is one that they report. -/
theorem metadata_discovered : ∀ (statuses : List GithubStatus) (acc : DeploymentItem × Option ℕ) (r : ℕ),
    (statuses.foldl Github.readStatus acc).2 = some r →
      acc.2 = some r ∨ ∃ status ∈ statuses, Github.runId status.logUrl = some r
  | [], _, _, h => .inl h
  | status :: statuses, acc, r, h => by
    rcases metadata_discovered statuses _ r h with hacc | ⟨st, hst, hr⟩
    · have hstep : (Github.readStatus acc status).2 = acc.2.or (Github.runId status.logUrl) := by
        unfold Github.readStatus
        simp only []
        split
        · rfl
        · split <;> rfl
      rw [hstep] at hacc
      cases ha : acc.2 with
      | none =>
        rw [ha, Option.none_or] at hacc
        exact .inr ⟨status, .head _, hacc⟩
      | some r' =>
        rw [ha, Option.some_or] at hacc
        exact .inl hacc
    · exact .inr ⟨st, .tail _ hst, hr⟩

/-- The item that the metadata is read into, and the run that is found with it. -/
def Found (item : DeploymentItem) (r : Option (DeploymentItem × Option ℕ)) (w : World) : Prop :=
  ∀ found, r = some found → SameRun item found.1 ∧ Sound w item ∧
    ∀ id, found.2 = some id → Own w item.id id

theorem metadata_yields (h : Sound w item) :
    (discipline ι).Yields i (Github.metadata item) (Found item) w := by
  have hnone : Found item (some (item, none)) w := by
    rintro found ⟨⟩
    exact ⟨.refl item, h, fun _ hid => by cases hid⟩
  refine .ite (fun _ => .pure hnone) fun _ => ?_
  split
  · exact .pure hnone
  · rename_i g hg
    refine .bind (P := fun r w => Sound w item ∧ ∀ statuses, r = some statuses →
        ∀ status ∈ statuses, ∀ id, Github.runId status.logUrl = some id → Own w item.id id)
      ?_ fun r w hr => ?_
    · refine Discipline.Yields.mono (Discipline.Yields.keep (sound_kept item) (.call rfl)
        (read_yields (P := fun r w => ∀ statuses, r = some statuses →
          ∀ status ∈ statuses, ∀ id, Github.runId status.logUrl = some id →
            Own w (toString g) id) rfl fun w r _ _ hs => hs.2) h) fun r w hr => ⟨hr.2, ?_⟩
      rw [hr.2.deployment g hg]
      exact hr.1
    · cases r with
      | none => exact .pure fun found h => by cases h
      | some statuses =>
        refine .pure ?_
        rintro found ⟨⟩
        refine ⟨metadata_sameRun statuses (item, none), hr.1, fun id hid => ?_⟩
        rcases metadata_discovered statuses _ id hid with hacc | ⟨status, hm, hrun⟩
        · cases hacc
        · exact hr.2 statuses rfl status hm id hrun

/-- The run that a refresh finds is that of the item. -/
theorem findRun_yields {discovered : Option ℕ} (h : Sound w item)
    (hd : ∀ id, discovered = some id → Own w item.id id) :
    (discipline ι).Yields i (Github.findRun cfg parse item discovered)
      (fun o w => ∀ run, o = some (some run) → Own w item.id run.id) w := by
  unfold Github.findRun
  cases hor : item.rest.githubRunId.or discovered with
  | none =>
    simp only []
    refine .bind (discover_yields _) fun r w hr => .pure ?_
    rintro run ⟨⟩
    exact hr run rfl
  | some id =>
    simp only []
    have hown : Own w item.id id := by
      cases hrun : item.rest.githubRunId with
      | none =>
        rw [hrun, Option.none_or] at hor
        exact hd id hor
      | some r =>
        rw [hrun, Option.some_or] at hor
        exact h.own id (hrun.trans hor)
    refine .bind (Discipline.Yields.keep (own_kept item.id id) (.call rfl)
      (read_yields (P := fun r _ => ∀ run, r = some run → run.id = id) rfl
        fun w r _ _ hs run hr => (hs.2 run hr).2) hown) fun r w hr => ?_
    cases r with
    | none => exact .pure fun run h => by cases h
    | some run =>
      refine .pure ?_
      rintro _ ⟨⟩
      rw [hr.1 run rfl]
      exact hr.2

/-- The run is applied to an item that it is the own one of. -/
theorem applyRun_yields {run : Run} (h : Sound w item) (hown : Own w item.id run.id) :
    (discipline ι).Yields i (do
        let jobs ← perform (.jobs run.id)
        let jobs ← orRaise .provider jobs
        .done (Github.applyRun item run jobs))
      (fun item' w => Sound w item') w := by
  have hK : (discipline ι).Kept i Silent fun w => Sound w item ∧ Own w item.id run.id :=
    (sound_kept item).and (own_kept item.id run.id)
  refine .bind (silent_yields hK (perform_asks rfl) (any_ends _) ⟨h, hown⟩) fun r w hr => ?_
  refine .bind (silent_yields hK orRaise_asks (any_ends _) hr.2) fun jobs w hj => .pure ?_
  obtain ⟨hi, hrun⟩ := applyRun_spec run jobs
  refine hj.2.1.of_identity hi fun r hr => ?_
  rw [hrun] at hr
  cases hr
  exact hj.2.2

theorem github_yields (h : Sound w item) :
    (discipline ι).Yields i (Github.refresh cfg parse item) (fun item' w => Sound w item') w := by
  refine .bind (silent_yields (sound_kept item) (perform_asks rfl) (any_ends _) h) fun b w hb => ?_
  refine .ite (fun _ => .raise _) fun _ => ?_
  refine .bind_kept (sound_kept item) metadata_asks (metadata_yields hb.2) hb.2 fun r w hr hs => ?_
  rcases r with _ | ⟨found, discovered⟩
  · exact .pure (hs.of_identity ⟨rfl, rfl⟩ hs.own)
  · obtain ⟨hsame, -, hd⟩ := hr _ rfl
    have hfound : Sound w found := hs.of_sameRun hsame
    rw [← hsame.id] at hd
    refine .bind_kept (sound_kept found) (findRun_asks discovered) (findRun_yields hfound hd) hfound
      fun r w hr hs => ?_
    rcases r with _ | _ | run
    · exact .pure (hs.of_identity ⟨rfl, rfl⟩ hs.own)
    · exact .pure hs
    · exact applyRun_yields hs (hr run rfl)

theorem refresh_yields (h : Sound w item) :
    (discipline ι).Yields i (refresh cfg parse item) (fun item' w => Sound w item') w := by
  have hK : (discipline ι).Kept i Silent fun w => Sound w item := sound_kept item
  refine .ite (fun _ => .pure h) fun _ => ?_
  refine .bind (silent_yields hK (perform_asks rfl) (any_ends _) h) fun r w hr => ?_
  cases r with
  | none => exact github_yields hr.2
  | some execution =>
    refine .ite (fun _ => ?_) fun _ => github_yields hr.2
    refine .bind (silent_yields hK cloudBuild_asks cloudBuild_ends hr.2) fun refreshed w hc => ?_
    have hsound : Sound w refreshed := hc.2.of_sameRun hc.1
    refine .ite (fun _ => ?_) fun _ => .pure hsound
    exact .bind (silent_yields (sound_kept refreshed) setManagedStatus_asks (any_ends _) hsound)
      fun _ w h => .pure h.2

/-! ### The readers -/

theorem refreshItem_yields (h : Sound w item) :
    (discipline ι).Yields i (refreshItem cfg parse item) (fun _ _ => True) w := by
  refine .ite (fun _ => .pure trivial) fun _ => .catch ?_ fun _ _ => .pure trivial
  refine .bind (refresh_yields h) fun refreshed w hr => ?_
  exact .ite (fun _ => .pure trivial) fun _ => (save_yields hr).mono fun _ _ _ => trivial

theorem forM_yields {f : DeploymentItem → Program Unit}
    (hf : ∀ item w, Sound w item → (discipline ι).Yields i (f item) (fun _ _ => True) w) :
    ∀ (items : List DeploymentItem) {w : World}, (∀ item ∈ items, Sound w item) →
      (discipline ι).Yields i (items.forM f) (fun _ _ => True) w
  | [], _, _ => .pure trivial
  | item :: items, w, h => by
    have hK : (discipline ι).Kept i (fun _ => True) fun w => ∀ item ∈ items, Sound w item :=
      ⟨fun s s' hr hs item hm => (sound_kept (A := fun _ => True) item).stable s s' hr (hs item hm),
        fun s e s' r ha hi hal hs hk item hm =>
          (sound_kept (A := fun _ => True) item).own s e s' r ha hi hal hs (hk item hm)⟩
    exact .bind_kept hK (.any _) (hf item w (h item (.head _)))
      (fun item hm => h item (.tail _ hm)) fun _ w _ hs => forM_yields hf items hs

/-- A run that GitHub shows was dispatched for the deployment that its title names. -/
theorem titled_own (hi : Inv w) {run : Run} (hm : run ∈ w.visibleRuns) {kind : Kind} {id : String}
    (hc : correlated run.title = some (kind, id)) : Own w id run.id := by
  obtain ⟨d, hd, rfl⟩ := List.mem_map.1 (List.mem_filter.1 hm).1
  exact ⟨d, hd, rfl, hi.titled d hd kind id hc⟩

theorem get_yields {id : String} :
    (discipline ι).Yields i (perform (.item id))
      (fun r w => ∀ item, r = some item → Sound w item ∧ item.id = id) w := by
  refine read_yields rfl fun w r hi _ hs item hr => ?_
  obtain ⟨rec, hm, he, hid⟩ := get_mem (hs.2.symm.trans hr)
  exact ⟨he ▸ hi.sound rec hm, hid⟩

theorem list_yields {serviceName : String} {limit : ℕ} {forRun : Option (String × Run)} :
    (discipline ι).Yields i (perform (.list serviceName limit forRun))
      (fun items w => ∀ item ∈ items, Sound w item) w := by
  refine read_yields rfl fun w r hi _ hs item hm => ?_
  obtain ⟨-, rfl⟩ := hs
  obtain ⟨rec, hm, he⟩ := list_mem hm
  exact he ▸ hi.sound rec hm

/-- The first open deploy of the SHA is the one of the run, where any other comes after it. -/
theorem legacy_own {repository serviceName : String} {limit : ℕ} {run : Run}
    (hc : Unmixed i w (.list serviceName limit (some (repository, run))))
    (h : (w.list serviceName limit).find? (isLegacyMatch repository run) = some item) :
    Own w item.id run.id := by
  obtain ⟨hmatch, newer, older, hlist, hnone⟩ := List.find?_eq_some_iff_append.1 h
  by_contra hnot
  obtain ⟨own, hm, hown, -⟩ := hc newer item older hlist hmatch hnot
  have := hnone own hm
  rw [hown] at this
  cases this

/-- The item that a run is taken for, and that the run was dispatched for it. -/
def Taken (run : Run) (r : Option DeploymentItem) (w : World) : Prop :=
  ∀ item, r = some item → Sound w item ∧ Own w item.id run.id

theorem activeFor_yields {repository serviceName : String} {run : Run}
    (htitle : ∀ kind id, correlated run.title = some (kind, id) → Own w id run.id) :
    (discipline ι).Yields i (activeFor repository run serviceName) (Taken run) w := by
  refine .bind (P := Taken run) ?_ fun r w hr => ?_
  · unfold titledItem
    cases hc : correlated run.title with
    | none => exact .pure fun item h => by cases h
    | some named =>
      obtain ⟨kind, id⟩ := named
      refine .bind (Discipline.Yields.keep (own_kept id run.id) (.call rfl) get_yields
        (htitle kind id hc)) fun r w hr => .pure fun item hf => ?_
      obtain ⟨hs, hid⟩ := hr.1 item (Option.eq_some_of_filter_eq_some hf)
      exact ⟨hs, hid ▸ hr.2⟩
  · cases r with
    | some item => exact .pure fun item' he => hr item' he
    | none =>
      refine .bind (P := fun items w => ∀ item,
          items.find? (isLegacyMatch repository run) = some item → Sound w item ∧
            Own w item.id run.id)
        (read_yields rfl fun w r hi hc hs item hf => ?_) fun items w h => .pure fun item he =>
          h item he
      rw [hs.2] at hf
      obtain ⟨rec, hm, he⟩ := list_mem (List.mem_of_find?_eq_some hf)
      exact ⟨he ▸ hi.sound rec hm, legacy_own hc hf⟩

theorem handleServiceRun_yields {repository : String} {run : Run}
    (htitle : ∀ kind id, correlated run.title = some (kind, id) → Own w id run.id)
    (serviceName : String) :
    (discipline ι).Yields i (handleServiceRun cfg repository run serviceName) (fun _ _ => True)
      w := by
  refine .ite (fun _ => .pure trivial) fun _ => .bind (activeFor_yields htitle) fun r w hr => ?_
  cases r with
  | none => exact .pure trivial
  | some active =>
    obtain ⟨hs, hown⟩ := hr active rfl
    have hrun : Sound w (withRun active run) := hs.of_identity ⟨rfl, rfl⟩ fun r hr => by
      cases (show some run.id = some r from hr)
      exact hown
    have hK : (discipline ι).Kept i Silent fun w => Sound w (withRun active run) := sound_kept _
    refine .bind (save_yields hrun) fun _ w hrun => ?_
    refine .bind (silent_yields hK (perform_asks rfl) (any_ends _) hrun) fun r w hr => ?_
    cases r with
    | none => exact .pure trivial
    | some execution =>
      refine .ite (fun _ => .pure trivial) fun _ => ?_
      refine .bind (silent_yields hK (quota_asks _ _) (any_ends _) hr.2) fun b w hb => ?_
      cases b with
      | false => exact .pure trivial
      | true =>
        refine (save_yields ?_).mono fun _ _ _ => trivial
        exact hb.2.of_identity ⟨rfl, rfl⟩ hb.2.own

/-- What the runs that GitHub shows are titled with stays true. -/
theorem titles_kept {A : Request → Prop} (run : Run) :
    (discipline ι).Kept i A fun w =>
      ∀ kind id, correlated run.title = some (kind, id) → Own w id run.id where
  stable s s' hr h kind id hc := (own_kept (i := i) (A := A) id run.id).stable s s' hr (h kind id hc)
  own s e s' r ha hi hal hs h kind id hc :=
    (own_kept (A := A) id run.id).own s e s' r ha hi hal hs (h kind id hc)

theorem services_yields {repository : String} {run : Run} :
    ∀ (services : List String) {w : World},
      (∀ kind id, correlated run.title = some (kind, id) → Own w id run.id) →
      (discipline ι).Yields i (services.forM (handleServiceRun cfg repository run))
        (fun _ _ => True) w
  | [], _, _ => .pure trivial
  | serviceName :: services, _, h =>
    .bind_kept (titles_kept run) (.any _) (handleServiceRun_yields h serviceName) h
      fun _ _ _ hs => services_yields services hs

theorem handleRun_yields {repository : String} {services : List String} {runId : ℕ} :
    (discipline ι).Yields i (handleDeploymentWorkflowRun cfg repository services runId)
      (fun _ _ => True) w := by
  have hread : (discipline ι).Yields i (perform (.workflowRun runId)) (fun r w => ∀ run,
      r = some run → ∀ kind id, correlated run.title = some (kind, id) → Own w id run.id) w :=
    read_yields rfl fun w r hi _ hs run hr kind id hc => titled_own hi (hs.2 run hr).1 hc
  refine .bind hread fun r w hr => ?_
  cases r with
  | none => exact .raise _
  | some run => exact .ite (fun _ => .pure trivial) fun _ => services_yields services (hr run rfl)

theorem program_yields (reader : Reader) :
    (discipline ι).Yields i (reader.program cfg parse) (fun _ _ => True) w := by
  cases reader with
  | getDeployment id =>
    refine .bind get_yields fun r w hr => ?_
    cases r with
    | none => exact .raise _
    | some item => exact refreshItem_yields (hr item rfl).1
  | listServiceDeployments serviceName limit =>
    exact .bind list_yields fun items w h => forM_yields (fun _ _ => refreshItem_yields) items h
  | handleDeploymentWorkflowRun repository services runId => exact handleRun_yields

end Programs

/-! ## Runs -/

section Demo

def demoSettings : Settings where
  cloudRunJob _ := false
  candidateRevision _ := ""
  workflowFile _ := "platform-deploy.yml"
  rollbackWorkflow := "platform-rollback.yml"
  serviceRepository _ := "acme/orders"
  fallbackEnabled _ := false

/-- A deploy of v1.4.0, as the command stores it. -/
def demoDeploy (id : ℕ) (status : Status) : DeploymentItem where
  id := toString id
  serviceName := "orders-api"
  status := status
  createdAt := "2026-10-01T10:00:00+00:00"
  rest :=
    { kind := .deploy, externalVerified := false, repository := "acme/orders", tag := "v1.4.0"
      sha := "5f1c", currentStage := "queued", stages := [], candidateRevision := ""
      candidateUrl := "", productionRevision := "", productionUrl := "", updatedAt := ""
      githubDeploymentId := some id, githubRunId := none, githubRunUrl := "", logsUrl := ""
      error := "" }

theorem demoDeploy_sound (w : World) (id : ℕ) (status : Status) :
    Sound w (demoDeploy id status) where
  own _ h := by cases h
  deployment g h := by
    cases h
    rfl

/-- A run of the deployment, dispatched half a minute after it was created. -/
def demoDispatch (id : String) (r : ℕ) : Dispatch where
  run :=
    { id := r, htmlUrl := "", updatedAt := "", event := "workflow_dispatch", conclusion := ""
      headSha := "5f1c", headBranch := "v1.4.0", createdAt := some 30, path := ""
      title := "eng-platform-deploy-" ++ id }
  deployment := id

def demoAnswer (w : World) : (e : Request) → World × e.Answer
  | .execution _ => (w, none)
  | .saveExecution .. => (w, ())
  | .item id => (w, w.get id)
  | .list serviceName limit _ => (w, w.list serviceName limit)
  | .accept .. => (w, false)
  | .save _ _ new => ({ w with docs := Firestore.save w.docs new "" }, ())
  | .build _ => (w, none)
  | .verified .. => (w, true)
  | .runtime _ => (w, none)
  | .healthy .. => (w, true)
  | .jobSummary _ => (w, none)
  | .repo _ => (w, true)
  | .statuses _ => (w, some [])
  | .workflowRun id => (w, w.visibleRuns.find? (·.id = id))
  | .dispatchRuns item _ => (w, some (w.visibleRuns.filter (·.headSha = item.rest.sha)))
  | .jobs _ => (w, some [])
  | .quotaAnnotations _ => (w, false)
  | .managedStatus _ => (w, true)

theorem demoAnswer_sem (w : World) (e : Request) :
    sem w e (demoAnswer w e).1 (demoAnswer w e).2 := by
  cases e with
  | item id => exact ⟨rfl, rfl⟩
  | list serviceName limit forRun => exact ⟨rfl, rfl⟩
  | workflowRun id =>
    refine ⟨rfl, fun run hr => ?_⟩
    have hfind : w.visibleRuns.find? (·.id = id) = some run := hr
    have hid := List.find?_some hfind
    exact ⟨List.mem_of_find?_eq_some hfind, of_decide_eq_true hid⟩
  | dispatchRuns item createdAt =>
    refine ⟨rfl, ?_⟩
    rintro runs ⟨⟩ run
    rw [List.mem_filter, decide_eq_true_iff]
  | statuses g =>
    refine ⟨rfl, ?_⟩
    rintro statuses ⟨⟩ status hm
    exact absurd hm List.not_mem_nil
  | _ => exact rfl

abbrev store (id : ℕ) (status : Status) : Turn Unit World Request.Answer :=
  .move fun w => { w with docs := Firestore.save w.docs (demoDeploy id status) "" }

abbrev dispatched (id : String) (r : ℕ) : Turn Unit World Request.Answer :=
  .move fun w => { w with dispatches := demoDispatch id r :: w.dispatches }

abbrev shown (r : ℕ) : Turn Unit World Request.Answer :=
  .move fun w => { w with visible := fun r' => decide (r' = r) }

abbrev answered : Turn Unit World Request.Answer := .run () demoAnswer

theorem store_sound (id : ℕ) (status : Status) : (store id status).Sound (system Unit) :=
  fun w => .command (demoDeploy id status) "" (demoDeploy_sound w id status)

theorem dispatched_sound {id : String} {r : ℕ} (h : (demoDispatch id r).Titled) :
    (dispatched id r).Sound (system Unit) :=
  fun _ => .dispatch (demoDispatch id r) h

theorem shown_sound (r : ℕ) : (shown r).Sound (system Unit) := fun _ => .appear _

theorem answered_sound : answered.Sound (system Unit) := demoAnswer_sem

theorem titled_of {id : String} {r : ℕ} {named : Kind × String}
    (h : correlated (demoDispatch id r).run.title = some named) (hn : named.2 = id) :
    (demoDispatch id r).Titled := by
  intro kind id' h'
  rw [h] at h'
  cases h'
  exact hn.symm

theorem titled_41 : (demoDispatch "41" 7).Titled :=
  titled_of (by decide +kernel : correlated _ = some (.deploy, "41")) rfl

theorem titled_42 : (demoDispatch "42" 8).Titled :=
  titled_of (by decide +kernel : correlated _ = some (.deploy, "42")) rfl

abbrev webhookStart : Conf Unit World Request.Answer Raised Unit :=
  start demoSettings (fun _ => none) fun _ =>
    .handleDeploymentWorkflowRun "acme/orders" ["orders-api"] 7

/-- A deployment is stored and its run dispatched, and the webhook reads the run, the deployment
that it names, and saves it. -/
abbrev webhookScript : List (Turn Unit World Request.Answer) :=
  [store 41 .queued, dispatched "41" 7, shown 7, answered, answered, answered]

theorem webhookScript_sound : ∀ t ∈ webhookScript, t.Sound (system Unit) := by
  intro t ht
  simp only [List.mem_cons, List.not_mem_nil, or_false] at ht
  rcases ht with rfl | rfl | rfl | rfl | rfl | rfl
  · exact store_sound 41 .queued
  · exact dispatched_sound titled_41
  · exact shown_sound 7
  all_goals exact answered_sound

abbrev readStart : Conf Unit World Request.Answer Raised Unit :=
  start demoSettings (fun _ => some 0) fun _ => .getDeployment "41"

/-- A read endpoint reads the first deployment before its dispatch is rejected. A second one of the
same tag is dispatched, and its run, the only one of the SHA, is found for the first. -/
abbrev readScript : List (Turn Unit World Request.Answer) :=
  [store 41 .queued, answered, store 41 .failed, store 42 .queued, dispatched "42" 8, shown 8,
    answered, answered, answered, answered, answered, answered]

theorem readScript_sound : ∀ t ∈ readScript, t.Sound (system Unit) := by
  intro t ht
  simp only [List.mem_cons, List.not_mem_nil, or_false] at ht
  rcases ht with rfl | rfl | rfl | rfl | rfl | rfl | rfl | rfl | rfl | rfl | rfl | rfl
  · exact store_sound 41 .queued
  · exact answered_sound
  · exact store_sound 41 .failed
  · exact store_sound 42 .queued
  · exact dispatched_sound titled_42
  · exact shown_sound 8
  all_goals exact answered_sound

end Demo

end Deployment.Attribution
