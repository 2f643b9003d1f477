import EngPlatform.Executor.Jobs

/-!
# The schedules of a Job that is released

Any command of a release may fail, before or after it took effect. While a schedule is enabled the
Job is the one from before or the one to be released, never the one that only checks; and if a single
command fails, and it is not the resumption of a schedule, all schedules end as they began.
-/

set_option linter.dupNamespace false

namespace Executor.Jobs

open Interleave

/-! ## The world -/

/-- The operational specification of the Job, the states of all schedules, and how many commands may
still fail. -/
structure World where
  spec : Spec
  schedules : String → String
  faults : ℕ
  stable : spec.stable = spec

def World.withSpec (w : World) (s : Spec) : World :=
  { w with spec := s.stable, stable := s.stable_stable }

def World.setSchedule (w : World) (name state : String) : World :=
  { w with schedules := fun n => if n = name then state else w.schedules n }

/-- A specification that can be read replaces the one there is. -/
def World.replaced (w : World) : Except Error Spec → World
  | .ok s => w.withSpec s
  | .error _ => w

variable (e : Env) (apply : List String → Spec → Spec)

/-- The effect of a command; `apply` is what an update makes of a specification. -/
def World.after (w : World) : Command → World
  | .pause name => if w.schedules name = "ENABLED" then w.setSchedule name "PAUSED" else w
  | .resume name => if w.schedules name = "PAUSED" then w.setSchedule name "ENABLED" else w
  | .update flags => w.withSpec (apply flags w.spec)
  | .replace d => w.replaced (operationalSpec e d)
  | _ => w

/-- What a command needs to succeed. A callback may always be lost. -/
def World.Ready (w : World) : Command → Prop
  | .pause name => w.schedules name = "ENABLED"
  | .resume name => w.schedules name = "PAUSED"
  | .replace d => ∃ s, operationalSpec e d = .ok s
  | .emit _ _ => False
  | _ => True

/-- The answers of a command that succeeds. -/
def World.Answers (w : World) : (c : Command) → c.Answer → Prop
  | .describe, d => operationalSpec e d = .ok w.spec
  | .image, images => images = w.spec.containers.map Container.image
  | .schedule name, state => state = w.schedules name
  | _, _ => True

def World.spend (w : World) (n : ℕ) : World := { w with faults := n }

/-- A command on the world. Those of `may` fail as long as faults are left, with or without effect. -/
inductive Takes (may : Command → Prop) (w : World) : (c : Command) → World → c.Reply → Prop
  | answers {c : Command} {a : c.Answer} (h : w.Answers e c a) :
      Takes may w c (w.after e apply c) (.ok a)
  | unready {c : Command} (x : Error) (h : ¬w.Ready e c) : Takes may w c w (.error x)
  | fails {c : Command} (x : Error) (hc : may c) {n : ℕ} (hn : w.faults = n + 1) :
      Takes may w c (w.spend n) (.error x)
  | lost {c : Command} (x : Error) (hc : may c) {n : ℕ} (hn : w.faults = n + 1) :
      Takes may w c ((w.after e apply c).spend n) (.error x)

variable {e apply} {may : Command → Prop} {w w' w₀ : World} {c : Command} {α β : Type}

/-- Commands that leave the schedules alone. -/
def Command.Still : Command → Prop
  | .pause _ | .resume _ => False
  | _ => True

theorem World.after_still (hc : c.Still) : (w.after e apply c).schedules = w.schedules := by
  cases c with
  | pause name => exact hc.elim
  | resume name => exact hc.elim
  | replace d =>
    show (w.replaced (operationalSpec e d)).schedules = w.schedules
    cases operationalSpec e d <;> rfl
  | _ => rfl

theorem World.after_faults : (w.after e apply c).faults = w.faults := by
  cases c with
  | pause name =>
    show (if _ then w.setSchedule name "PAUSED" else w : World).faults = w.faults
    split <;> rfl
  | resume name =>
    show (if _ then w.setSchedule name "ENABLED" else w : World).faults = w.faults
    split <;> rfl
  | replace d =>
    show (w.replaced (operationalSpec e d)).faults = w.faults
    cases operationalSpec e d <;> rfl
  | _ => rfl

theorem Takes.still {r : c.Reply} (hc : c.Still) (h : Takes e apply may w c w' r) :
    w'.schedules = w.schedules := by
  cases h with
  | answers h => exact World.after_still hc
  | unready x h => rfl
  | fails x hm hn => rfl
  | lost x hm hn => exact World.after_still hc

theorem Takes.faults {r : c.Reply} (h : Takes e apply may w c w' r) : w'.faults ≤ w.faults := by
  cases h with
  | answers h => exact Nat.le_of_eq World.after_faults
  | unready x h => exact Nat.le_refl _
  | fails x hm hn =>
    show _ ≤ w.faults
    rw [hn]
    exact Nat.le_succ _
  | lost x hm hn =>
    show _ ≤ w.faults
    rw [hn]
    exact Nat.le_succ _

/-- A failure of a command that could succeed is a fault. -/
theorem Takes.fault {x : Error} (hc : w.Ready e c) (h : Takes e apply may w c w' (.error x)) :
    may c ∧ w'.faults < w.faults := by
  cases h with
  | unready x h => exact absurd hc h
  | fails x hm hn =>
    refine ⟨hm, ?_⟩
    show _ < w.faults
    rw [hn]
    exact Nat.lt_succ_self _
  | lost x hm hn =>
    refine ⟨hm, ?_⟩
    show _ < w.faults
    rw [hn]
    exact Nat.lt_succ_self _

theorem Takes.answer {a : c.Answer} (h : Takes e apply may w c w' (.ok a)) :
    w.Answers e c a ∧ w' = w.after e apply c := by
  cases h with
  | answers h => exact ⟨h, rfl⟩

/-! ## Parts that leave the schedules alone -/

/-- How a part ends that began in `w`: after a result with `S`, after an exception with a fault less
if `C` holds. -/
structure Part (w : World) (C : Prop) (S : α → World → Prop) (o : Except Raised α) (w' : World) :
    Prop where
  faults : w'.faults ≤ w.faults
  ok : ∀ a, o = .ok a → S a w'
  error : ∀ x, o = .error x → C → w'.faults < w.faults

/-- A part leaves the schedules as they are. -/
def Does (e : Env) (apply : List String → Spec → Spec) (may : Command → Prop) (C : Prop)
    (p : Exec α) (w : World) (S : α → World → Prop) : Prop :=
  Always (Takes e apply may) (fun w' => w'.schedules = w.schedules) (Part w C S) p w

namespace Does

variable {C : Prop} {S : α → World → Prop} {S' : β → World → Prop} {p : Exec α}

theorem pure {a : α} (h : S a w) : Does e apply may C (Pure.pure a) w S :=
  Always.pure rfl ⟨Nat.le_refl _, fun _ ho => (by cases ho; exact h), fun _ ho => by cases ho⟩

theorem raise {x : Raised} (h : ¬C) : Does e apply may C (Prog.raise x : Exec α) w S :=
  Always.raise rfl ⟨Nat.le_refl _, fun _ ho => (by cases ho), fun _ _ hc => absurd hc h⟩

theorem mono {R : α → World → Prop} (h : Does e apply may C p w S)
    (hs : ∀ a w', w'.schedules = w.schedules → S a w' → R a w') : Does e apply may C p w R :=
  Always.mono (fun _ h => h)
    (fun _ w' hw ho => ⟨ho.faults, fun a ha => hs a w' hw (ho.ok a ha), ho.error⟩) h

theorem bind {f : α → Exec β} (h : Does e apply may C p w S)
    (hf : ∀ a w', w'.schedules = w.schedules → S a w' → Does e apply may C (f a) w' S') :
    Does e apply may C (p >>= f) w S' := by
  refine Always.seq h (fun _ h => h) (fun a w' hw ho => ?_) fun x w' hw ho =>
    ⟨ho.faults, fun _ ha => (by cases ha), fun y hy => by
      cases hy
      exact ho.error x rfl⟩
  refine Always.mono (fun w'' hw'' => hw''.trans hw) (fun o w'' _ ho' => ?_)
    (hf a w' hw (ho.ok a rfl))
  exact ⟨Nat.le_trans ho'.faults ho.faults, ho'.ok,
    fun x hx hc => Nat.lt_of_lt_of_le (ho'.error x hx hc) ho.faults⟩

theorem exec (c : Command) (hc : c.Still) (hr : C → w.Ready e c) {S : c.Answer → World → Prop}
    (h : ∀ a, w.Answers e c a → S a (w.after e apply c)) :
    Does e apply may C (exec c) w S := by
  refine Always.ask rfl fun w' r ht => ?_
  rcases r with x | a
  · exact Always.raise (ht.still hc) ⟨ht.faults, fun _ ha => (by cases ha),
      fun _ _ hcond => (ht.fault (hr hcond)).2⟩
  · obtain ⟨ha, rfl⟩ := ht.answer
    exact ⟨World.after_still hc, ht.faults, fun _ ho => (by cases ho; exact h a ha),
      fun _ ho => by cases ho⟩

theorem emit {stage status : String} {S : Unit → World → Prop}
    (h : ∀ w', w'.schedules = w.schedules → w'.spec = w.spec → S () w') :
    Does e apply may C (emit stage status) w S := by
  refine Always.ask rfl fun w' r ht => ?_
  have hstill : (Command.emit stage status).Still := trivial
  have hspec : w'.spec = w.spec := by
    cases ht <;> rfl
  exact ⟨ht.still hstill, ht.faults, fun _ ho => (by cases ho; exact h w' (ht.still hstill) hspec),
    fun _ ho => by cases ho⟩

theorem attempt {r : Except Error α} (hc : C → ∃ a, r = .ok a) (h : ∀ a, r = .ok a → S a w) :
    Does e apply may C (attempt r) w S := by
  cases r with
  | ok a => exact .pure (h a rfl)
  | error x =>
    refine .raise fun hcond => ?_
    obtain ⟨a, ha⟩ := hc hcond
    cases ha

theorem ite {b : Prop} [Decidable b] {q : Exec α} (hp : b → Does e apply may C p w S)
    (hq : ¬b → Does e apply may C q w S) : Does e apply may C (if b then p else q) w S :=
  Always.ite hp hq

/-- An exception that is raised by another part. -/
theorem during {x : Raised} (h : Does e apply may C p w S) :
    Does e apply may C (during x p) w S := by
  refine Always.guard h (fun _ h => h) (fun a w' _ ho => ⟨ho.faults, fun b hb => ?_, fun _ hx => ?_⟩)
    fun y w' hw ho => Always.raise hw ⟨ho.faults, fun _ ha => (by cases ha),
      fun _ _ hcond => ho.error y rfl hcond⟩
  · cases hb
    exact ho.ok a rfl
  · cases hx

end Does

section Parts

variable {C : Prop} {image : String} {d before target : Definition} {container : Container}
variable {s : Spec}

/-- The specification is left as it is. -/
def Keeps (w : World) {α : Type} (_ : α) (w' : World) : Prop := w'.spec = w.spec

theorem jobImage_does (hc : C → ∃ image, image ≠ "" ∧
    w.spec.containers.map Container.image = [image]) :
    Does e apply may C jobImage w fun image w' =>
      w.spec.containers.map Container.image = [image] ∧ image ≠ "" ∧ w'.spec = w.spec := by
  unfold jobImage
  refine .bind (.exec .image trivial (fun _ => trivial) (S := fun images w' =>
    images = w.spec.containers.map Container.image ∧ w'.spec = w.spec) fun _ ha => ⟨ha, rfl⟩) ?_
  rintro images w' - ⟨himages, hspec⟩
  have hrefuse : (∀ image, image ≠ "" → images ≠ [image]) → ¬C := by
    intro hne hcond
    obtain ⟨image, hempty, heq⟩ := hc hcond
    exact hne image hempty (himages.trans heq)
  unfold onlyImage
  split
  · rename_i image
    refine .ite (fun hempty => .raise (hrefuse ?_)) fun hempty => .pure ⟨himages.symm, hempty, hspec⟩
    rintro image' hne ⟨⟩
    exact hne hempty
  · rename_i hnone
    exact .raise (hrefuse fun image _ himage => hnone image himage)

theorem snapshotUri_does {revision : String} (hr : jobRevision revision = true)
    (hc : C → validBucket e.evidenceBucket = true) :
    Does e apply may C (snapshotUri e revision) w fun _ w' =>
      validBucket e.evidenceBucket = true ∧ w'.spec = w.spec := by
  unfold snapshotUri
  refine .ite (fun h => absurd hr h) fun _ => .ite (fun h => .raise fun hcond => h (hc hcond)) ?_
  exact fun h => .pure ⟨not_not.1 h, rfl⟩

theorem saveDefinition_does (hc : C → validBucket e.evidenceBucket = true) :
    Does e apply may C (saveDefinition e d) w fun _ w' =>
      validBucket e.evidenceBucket = true ∧ w'.spec = w.spec := by
  unfold saveDefinition
  refine .bind (snapshotUri_does (e.digest_valid d) hc) ?_
  rintro _ w₁ - ⟨hb, h₁⟩
  refine .bind (.exec (.save _) trivial (fun _ => trivial) (S := Keeps w) fun _ _ => h₁) ?_
  exact fun _ w₂ _ h₂ => .pure ⟨hb, h₂⟩

theorem runtimeGrant_does {action : Action} {sha : String}
    (hc : C → exactCommit sha = true) :
    Does e apply may C (runtimeGrant action sha) w (Keeps w) :=
  .ite (fun _ => .exec (.grant action sha) trivial (fun _ => trivial) fun _ _ => rfl)
    fun h => .raise fun hcond => h (hc hcond)

/-- The container was released at an exact commit. -/
def Container.Exact (c : Container) : Prop :=
  ∃ sha, c.value "APP_RELEASE_SHA" = some sha ∧ exactCommit sha = true

theorem grantOf_does {action : Action} (hc : C → container.Exact) :
    Does e apply may C (grantOf action container) w (Keeps w) := by
  unfold grantOf
  split
  · rename_i sha hsha
    refine runtimeGrant_does fun hcond => ?_
    obtain ⟨sha', hsha', hexact⟩ := hc hcond
    cases hsha.symm.trans hsha'
    exact hexact
  · rename_i hsha
    refine .raise fun hcond => ?_
    obtain ⟨sha', hsha', -⟩ := hc hcond
    cases hsha.symm.trans hsha'

/-- A definition is only found to be in place where it is. -/
theorem verifySpec_does {message : String} (hd : operationalSpec e d = .ok s)
    (hc : C → w.spec = s) :
    Does e apply may C (verifySpec e d message) w fun _ w' => w'.spec = s := by
  unfold verifySpec
  refine .bind (.exec .describe trivial (fun _ => trivial) (S := fun now w' =>
    operationalSpec e now = .ok w.spec ∧ w'.spec = w.spec) fun _ ha => ⟨ha, rfl⟩) ?_
  rintro now w₁ - ⟨hnow, h₁⟩
  refine .bind (.attempt (fun _ => ⟨_, hnow⟩) (S := fun spec w' => spec = w.spec ∧ w'.spec = w.spec)
    fun spec h => ⟨?_, h₁⟩) ?_
  · cases hnow.symm.trans h
    rfl
  rintro _ w₂ - ⟨rfl, h₂⟩
  refine .bind (.attempt (fun _ => ⟨_, hd⟩) (S := fun spec w' => spec = s ∧ w'.spec = w.spec)
    fun spec h => ⟨?_, h₂⟩) ?_
  · cases hd.symm.trans h
    rfl
  rintro _ w₃ - ⟨rfl, h₃⟩
  exact .ite (fun hne => .raise fun hcond => hne (hc hcond)) fun heq =>
    .pure (h₃.trans (not_not.1 heq))

theorem replace_does (hd : operationalSpec e d = .ok s) :
    Does e apply may C (exec (.replace d)) w fun _ w' => w'.spec = s := by
  have hstable : s.stable = s := by
    unfold operationalSpec at hd
    split at hd
    · cases hd
    · cases hspec : d.spec with
      | none =>
        rw [hspec] at hd
        cases hd
      | some t =>
        rw [hspec] at hd
        cases hd
        exact t.stable_stable
  refine .exec (.replace d) trivial (fun _ => ⟨s, hd⟩) fun _ _ => ?_
  show (w.replaced (operationalSpec e d)).spec = s
  rw [hd]
  exact hstable

/-- The candidate that can only check its runtime. -/
def candidateSpec (e : Env) (apply : List String → Spec → Spec) (image : String)
    (args env : List String) (s : Spec) : Spec := (apply (candidateFlags e image env args) s).stable

/-- The release: the candidate with its own arguments again. -/
def releasedSpec (e : Env) (apply : List String → Spec → Spec) (image : String)
    (args env : List String) (s : Spec) : Spec :=
  (apply (promoteFlags args) (candidateSpec e apply image args env s)).stable

theorem stageJob_does {args : List String} (hargs : C → ∃ env, e.candidateArgs = .ok env)
    (himage : C → image ≠ "" ∧ ∀ env,
      (candidateSpec e apply image args env w.spec).containers.map Container.image = [image]) :
    Does e apply may C (stageJob e image args) w fun _ w' =>
      ∃ env, e.candidateArgs = .ok env ∧ w'.spec = candidateSpec e apply image args env w.spec := by
  unfold stageJob
  refine .bind (.emit (S := Keeps w) fun _ _ h => h) fun _ w₁ _ h₁ => ?_
  refine .bind (.attempt hargs (S := fun env w' => e.candidateArgs = .ok env ∧ w'.spec = w.spec)
    fun env h => ⟨h, h₁⟩) ?_
  rintro env w₂ - ⟨henv, h₂⟩
  refine .bind (.exec (.update _) trivial (fun _ => trivial) (S := fun _ w' =>
    w'.spec = candidateSpec e apply image args env w.spec) fun _ _ => ?_) fun _ w₃ _ h₃ => ?_
  · show (apply (candidateFlags e image env args) w₂.spec).stable = _
    rw [h₂]
    rfl
  refine .bind (jobImage_does fun hcond => ⟨image, (himage hcond).1, ?_⟩) ?_
  · rw [h₃]
    exact (himage hcond).2 env
  rintro updated w₄ - ⟨hupdated, -, h₄⟩
  refine .ite (fun hne => .raise fun hcond => hne ?_) fun _ => ?_
  · rw [h₃, (himage hcond).2 env] at hupdated
    exact (List.cons.inj hupdated).1.symm
  refine .bind (.emit (S := Keeps w₄) fun _ _ h => h) fun _ w₅ _ h₅ => ?_
  exact .emit fun w₆ _ h₆ => ⟨env, henv, ((h₆.trans h₅).trans h₄).trans h₃⟩

theorem promoteJob_does (hsha : C → exactCommit e.releaseSha = true)
    (hbucket : C → validBucket e.evidenceBucket = true)
    (hprevious : C → isRuntime container = true → container.Exact) :
    Does e apply may C (promoteJob e image container) w fun _ w' =>
      w'.spec = (apply (promoteFlags container.args) w.spec).stable := by
  unfold promoteJob
  refine .bind (runtimeGrant_does hsha) fun _ w₁ _ h₁ => ?_
  refine .bind (.exec .check trivial (fun _ => trivial) (S := Keeps w) fun _ _ => h₁) fun _ w₂ _ h₂ => ?_
  refine .bind (.emit (S := Keeps w) fun _ _ h => h.trans h₂) fun _ w₃ _ h₃ => ?_
  refine .bind (.emit (S := Keeps w) fun _ _ h => h.trans h₃) fun _ w₄ _ h₄ => ?_
  refine .bind (.exec (.update _) trivial (fun _ => trivial) (S := fun _ w' =>
    w'.spec = (apply (promoteFlags container.args) w.spec).stable) fun _ _ => ?_) fun _ w₅ _ h₅ => ?_
  · show (apply (promoteFlags container.args) w₄.spec).stable = _
    rw [h₄]
  refine .bind (.exec .describe trivial (fun _ => trivial) (S := fun _ w' => w'.spec = w₅.spec)
    fun _ _ => rfl)
    fun _ w₆ _ h₆ => ?_
  refine .bind (saveDefinition_does hbucket) ?_
  rintro _ w₇ - ⟨-, h₇⟩
  refine .bind (.emit (S := Keeps w₇) fun _ _ h => h) fun _ w₈ _ h₈ => ?_
  refine .bind (.ite (fun hb => grantOf_does fun hcond => hprevious hcond hb.1) fun _ => .pure rfl)
    (S := Keeps w₈) fun _ w₉ _ h₉ => ?_
  refine .bind (.emit (S := Keeps w₉) fun _ _ h => h) fun _ w₁₀ _ h₁₀ => .pure ?_
  exact ((((h₁₀.trans h₉).trans h₈).trans h₇).trans h₆).trans h₅

/-- A recovery that succeeds has the definition as it was. -/
theorem restoreJob_does {granted : Bool} (hb : operationalSpec e before = .ok s)
    (hsha : C → exactCommit e.releaseSha = true)
    (hprevious : C → isRuntime container = true → container.Exact) :
    Does e apply may C (restoreJob e before container granted) w fun _ w' => w'.spec = s := by
  unfold restoreJob
  refine .bind (.emit (S := Keeps w) fun _ _ h => h) fun _ w₁ _ h₁ => ?_
  refine .bind (.ite (fun hr => grantOf_does fun hcond => hprevious hcond hr) fun _ => .pure rfl)
    (S := Keeps w₁) fun _ w₂ _ h₂ => ?_
  refine .bind (replace_does hb) fun _ w₃ _ h₃ => ?_
  refine .bind (verifySpec_does hb fun _ => h₃) fun _ w₄ _ h₄ => ?_
  refine .bind (.ite (fun _ => runtimeGrant_does hsha) fun _ => .pure rfl) (S := Keeps w₄)
    fun _ w₅ _ h₅ => ?_
  exact .emit fun w₆ _ h₆ => (h₆.trans h₅).trans h₄

theorem operationalSpec_checkOnly (h : operationalSpec e target = .ok s) :
    ∃ s', operationalSpec e target.checkOnly = .ok s' := by
  unfold operationalSpec at h ⊢
  by_cases hname : target.kind ≠ "Job" ∨ target.name ≠ e.service
  · rw [if_pos hname] at h
    cases h
  · have hname' : ¬(target.checkOnly.kind ≠ "Job" ∨ target.checkOnly.name ≠ e.service) := hname
    rw [if_neg hname] at h
    rw [if_neg hname']
    cases hspec : target.spec with
    | none =>
      rw [hspec] at h
      cases h
    | some t =>
      have hsome : target.checkOnly.spec = some { t with
          containers := t.containers.modifyHead Container.checkOnly } := by
        unfold Definition.checkOnly
        rw [hspec]
        rfl
      rw [hsome]
      exact ⟨_, rfl⟩

theorem restoreTarget_does (ht : operationalSpec e target = .ok s) (hsha : C → container.Exact) :
    Does e apply may C (restoreTarget e target container) w fun _ w' => w'.spec = s := by
  obtain ⟨s', hcheck⟩ := operationalSpec_checkOnly ht
  unfold restoreTarget
  refine .bind (grantOf_does hsha) fun _ w₁ _ _ => ?_
  refine .bind (replace_does hcheck) fun _ w₂ _ _ => ?_
  refine .bind (.exec .check trivial (fun _ => trivial) (S := fun _ _ => True) fun _ _ => trivial)
    fun _ w₃ _ _ => ?_
  exact .bind (replace_does ht) fun _ w₄ _ h₄ => verifySpec_does ht fun _ => h₄

end Parts

/-! ## Pausing and resuming -/

section Pausing

variable {f₀ f : String → String} {active names last : List String} {name : String}

/-- The schedules of `active` were enabled and are paused, and all others are as in `f₀`. -/
structure Paused (f₀ : String → String) (active : List String) (f : String → String) : Prop where
  held : ∀ n, f n = if n ∈ active then "PAUSED" else f₀ n
  enabled : ∀ n ∈ active, f₀ n = "ENABLED"
  nodup : active.Nodup

theorem Paused.nil_iff : Paused f₀ [] f ↔ f = f₀ :=
  ⟨fun h => funext fun n => by simpa using h.held n,
    fun h => ⟨fun n => (by simp [h]), fun n hn => (by cases hn), List.nodup_nil⟩⟩

/-- No schedule is enabled that was not. -/
theorem Paused.sound (h : Paused f₀ active f) (n : String) (hn : f n = "ENABLED") :
    f₀ n = "ENABLED" := by
  by_cases hmem : n ∈ active
  · exact h.enabled n hmem
  · rwa [h.held n, if_neg hmem] at hn

/-- The first schedule is resumed. -/
theorem Paused.tail (h : Paused f₀ (name :: names) f) :
    Paused f₀ names fun n => if n = name then "ENABLED" else f n := by
  obtain ⟨hname, hnodup⟩ := List.nodup_cons.1 h.nodup
  refine ⟨fun n => ?_, fun n hn => h.enabled n (List.mem_cons_of_mem _ hn), hnodup⟩
  by_cases hn : n = name
  · rw [if_pos hn, hn, if_neg hname, h.enabled name List.mem_cons_self]
  · rw [if_neg hn, h.held n]
    simp [hn]

/-- One more schedule is paused. -/
theorem Paused.snoc (h : Paused f₀ active f) (hname : f name = "ENABLED") :
    Paused f₀ (active ++ [name]) fun n => if n = name then "PAUSED" else f n := by
  have hnot : name ∉ active := by
    intro hmem
    rw [h.held name, if_pos hmem] at hname
    exact absurd hname (by decide)
  refine ⟨fun n => ?_, fun n hn => ?_, ?_⟩
  · by_cases hn : n = name
    · rw [if_pos hn, if_pos (List.mem_append_right _ (List.mem_singleton.2 hn))]
    · rw [if_neg hn, h.held n]
      simp [hn]
  · rcases List.mem_append.1 hn with hn | hn
    · exact h.enabled n hn
    · rw [List.mem_singleton.1 hn]
      exact h.sound name hname
  · rw [List.nodup_append]
    refine ⟨h.nodup, List.pairwise_singleton _ _, fun a ha b hb hab => hnot ?_⟩
    rw [← List.mem_singleton.1 hb, ← hab]
    exact ha

/-- The specification is `s`, and no schedule is enabled that was not. -/
def Sound (f₀ : String → String) (s : Spec) (w : World) : Prop :=
  w.spec = s ∧ ∀ n, w.schedules n = "ENABLED" → f₀ n = "ENABLED"

/-- How a resumption ends: unless one of its commands fails, as it began. -/
structure Resumed (may : Command → Prop) (f₀ : String → String) (last : List String)
    (o : Except Raised α) (w : World) : Prop where
  ok : ∀ a, o = .ok a → w.schedules = f₀
  restored : (∀ n, ¬may (.resume n)) → w.schedules = f₀
  succeeds : (∀ n, ¬may (.resume n)) → last = [] → ∃ a, o = .ok a

/-- The last of the schedules may never have been paused. -/
theorem resume_always (hl : last.length ≤ 1) (hlast : ∀ n ∈ last, f₀ n = "ENABLED") :
    ∀ {names : List String} {w : World}, Paused f₀ names w.schedules →
      Always (Takes e apply may) (Sound f₀ w.spec) (Resumed may f₀ last)
        (resumeSchedules (names ++ last)) w
  | [], w, h => by
    have hw := Paused.nil_iff.1 h
    have hsound : Sound f₀ w.spec w := ⟨rfl, h.sound⟩
    cases last with
    | nil => exact Always.pure hsound ⟨fun _ _ => hw, fun _ => hw, fun _ _ => ⟨⟨⟩, rfl⟩⟩
    | cons n l =>
      have hempty : l = [] := List.eq_nil_of_length_eq_zero (by
        rw [List.length_cons] at hl
        omega)
      subst hempty
      have hn : w.schedules n ≠ "PAUSED" := by
        rw [hw, hlast n List.mem_cons_self]
        decide
      have hafter : w.after e apply (.resume n) = w := if_neg hn
      refine Always.ask hsound fun w' r ht => ?_
      have hsame : w'.schedules = w.schedules ∧ w'.spec = w.spec := by
        cases ht with
        | answers h => exact hafter.symm ▸ ⟨rfl, rfl⟩
        | unready x h => exact ⟨rfl, rfl⟩
        | fails x hm hn => exact ⟨rfl, rfl⟩
        | lost x hm hn => exact hafter.symm ▸ ⟨rfl, rfl⟩
      have hsound' : Sound f₀ w.spec w' := ⟨hsame.2, hsame.1 ▸ hsound.2⟩
      have hw' := hsame.1.trans hw
      cases r with
      | ok a => exact ⟨hsound', fun _ _ => hw', fun _ => hw', fun _ hne => by cases hne⟩
      | error x => exact ⟨hsound', fun _ _ => hw', fun _ => hw', fun _ hne => by cases hne⟩
  | n :: names, w, h => by
    have hn : w.schedules n = "PAUSED" := by
      rw [h.held n, if_pos List.mem_cons_self]
    have hafter : w.after e apply (.resume n) = w.setSchedule n "ENABLED" := if_pos hn
    refine Always.ask ⟨rfl, h.sound⟩ fun w' r ht => ?_
    cases ht with
    | answers ha =>
      rw [hafter]
      exact resume_always (w := w.setSchedule n "ENABLED") hl hlast h.tail
    | unready x hr => exact absurd hn hr
    | fails x hm hk =>
      exact ⟨⟨rfl, h.sound⟩, fun _ ho => (by cases ho), fun hno => absurd hm (hno n),
        fun hno => absurd hm (hno n)⟩
    | lost x hm hk =>
      rw [hafter]
      exact ⟨⟨rfl, h.tail.sound⟩, fun _ ho => (by cases ho), fun hno => absurd hm (hno n),
        fun hno => absurd hm (hno n)⟩

/-- An exception is raised again after all is resumed. -/
theorem giveUp_always {x : Raised} (hl : last.length ≤ 1) (hlast : ∀ n ∈ last, f₀ n = "ENABLED")
    (h : Paused f₀ names w.schedules) :
    Always (Takes e apply may) (Sound f₀ w.spec) (fun (o : Except Raised α) w' =>
      (∀ a, o ≠ .ok a) ∧ ((∀ n, ¬may (.resume n)) → w'.schedules = f₀))
      (giveUp (names ++ last) x) w := by
  unfold giveUp
  have hduring : Always (Takes e apply may) (Sound f₀ w.spec)
      (fun _ w' => (∀ n, ¬may (.resume n)) → w'.schedules = f₀)
      (during x (resumeSchedules (names ++ last))) w :=
    Always.guard (resume_always hl hlast h) (fun _ h => h) (fun _ _ _ ho => ho.restored)
      fun _ _ hs ho => Always.raise hs ho.restored
  refine Always.seq hduring (fun _ h => h) (fun _ w' hs ho => Always.raise hs ⟨?_, ho⟩)
    fun _ _ _ ho => ⟨?_, ho⟩
  · rintro a ⟨⟩
  · rintro a ⟨⟩

theorem gaveUp_always {x : Raised} (h : Paused f₀ names w.schedules) :
    Always (Takes e apply may) (Sound f₀ w.spec) (fun (o : Except Raised α) w' =>
      (∀ a, o ≠ .ok a) ∧ ((∀ n, ¬may (.resume n)) → w'.schedules = f₀)) (giveUp names x) w := by
  have hlast : ∀ n ∈ ([] : List String), f₀ n = "ENABLED" := fun _ hn => by cases hn
  have hgive := @giveUp_always e apply may w α f₀ names [] x (Nat.zero_le _) hlast h
  rwa [List.append_nil] at hgive

/-- What was paused, and that nothing of `names` is enabled any more. -/
structure Quiet (may : Command → Prop) (f₀ : String → String) (names : List String) (k : ℕ)
    (o : Except Raised (List String)) (w : World) : Prop where
  ok : ∀ active, o = .ok active → Paused f₀ active w.schedules ∧ w.faults ≤ k ∧
    ∀ n ∈ names, w.schedules n ≠ "ENABLED"
  error : ∀ x, o = .error x → (∀ n, ¬may (.resume n)) → w.schedules = f₀

theorem Quiet.mono {k k' : ℕ} {o : Except Raised (List String)} (h : Quiet may f₀ names k o w)
    (hk : k ≤ k') : Quiet may f₀ names k' o w where
  ok a ha := ⟨(h.ok a ha).1, Nat.le_trans (h.ok a ha).2.1 hk, (h.ok a ha).2.2⟩
  error := h.error

theorem pauseFrom_always : ∀ {names active quiet : List String} {w : World},
    Paused f₀ active w.schedules → (∀ n ∈ quiet, w.schedules n ≠ "ENABLED") →
    Always (Takes e apply may) (Sound f₀ w.spec) (Quiet may f₀ (quiet ++ names) w.faults)
      (pauseFrom names active) w
  | [], active, quiet, w, h, hq => by
    rw [List.append_nil]
    exact Always.pure ⟨rfl, h.sound⟩ ⟨fun _ ho => (by cases ho; exact ⟨h, Nat.le_refl _, hq⟩),
      fun _ ho => by cases ho⟩
  | name :: names, active, quiet, w, h, hq => by
    unfold pauseFrom
    have hread : Always (Takes e apply may) (Sound f₀ w.spec) (fun (o : Except Raised String) w' =>
        (∀ state, o = .ok state → state = w.schedules name ∧ w'.schedules = w.schedules ∧
          w'.spec = w.spec ∧ w'.faults ≤ w.faults) ∧
        (∀ x, o = .error x → (∀ n, ¬may (.resume n)) → w'.schedules = f₀))
        ((exec (.schedule name)).handle (giveUp active)) w := by
      refine Always.ask ⟨rfl, h.sound⟩ fun w' r ht => ?_
      have hstill : (Command.schedule name).Still := trivial
      have hsame := ht.still hstill
      have hspec : w'.spec = w.spec := by
        cases ht <;> rfl
      cases r with
      | ok state =>
        obtain ⟨hstate, -⟩ := ht.answer
        exact ⟨⟨hspec, hsame ▸ h.sound⟩,
          fun _ ho => (by cases ho; exact ⟨hstate, hsame, hspec, ht.faults⟩), fun _ ho => by cases ho⟩
      | error x =>
        have hgive := @gaveUp_always e apply may w' String f₀ active ⟨x, none⟩ (hsame ▸ h)
        rw [hspec] at hgive
        exact hgive.mono (fun _ h => h) fun o w'' _ ho =>
          ⟨fun a ha => absurd ha (ho.1 a), fun _ _ => ho.2⟩
    refine Always.seq hread (fun _ h => h) (fun state w₁ _ ho => ?_) fun x w₁ _ ho =>
      ⟨fun _ ha => (by cases ha), fun _ _ => ho.2 x rfl⟩
    obtain ⟨hstate, hsame, hspec, hfaults⟩ := ho.1 state rfl
    have hp₁ : Paused f₀ active w₁.schedules := hsame ▸ h
    have hq₁ : ∀ n ∈ quiet, w₁.schedules n ≠ "ENABLED" := hsame ▸ hq
    refine Always.ite (fun henabled => ?_) fun hnot => ?_
    · have hname : w₁.schedules name = "ENABLED" := by
        rw [hsame, ← hstate]
        exact henabled
      have hafter : w₁.after e apply (.pause name) = w₁.setSchedule name "PAUSED" := if_pos hname
      have hpause : Always (Takes e apply may) (Sound f₀ w.spec) (fun (o : Except Raised Unit) w' =>
          (∀ a, o = .ok a → w' = w₁.setSchedule name "PAUSED") ∧
          (∀ x, o = .error x → (∀ n, ¬may (.resume n)) → w'.schedules = f₀))
          ((exec (.pause name)).handle (giveUp (active ++ [name]))) w₁ := by
        refine Always.ask ⟨hspec, hp₁.sound⟩ fun w' r ht => ?_
        cases ht with
        | answers ha =>
          rw [hafter]
          exact ⟨⟨hspec, (hp₁.snoc hname).sound⟩, fun _ _ => rfl, fun _ ho => by cases ho⟩
        | unready x hr => exact absurd hname hr
        | fails x hm hk =>
          rename_i k
          have hgive := @giveUp_always e apply may (w₁.spend k) Unit f₀ active [name] ⟨x, none⟩
            (Nat.le_refl _) (fun n hn => List.mem_singleton.1 hn ▸ h.sound name (hsame ▸ hname)) hp₁
          exact hgive.mono (fun _ hs => ⟨hs.1.trans hspec, hs.2⟩) fun o w'' _ ho =>
            ⟨fun a ha => absurd ha (ho.1 a), fun _ _ => ho.2⟩
        | lost x hm hk =>
          rename_i k
          rw [hafter]
          have hgive := @gaveUp_always e apply may ((w₁.setSchedule name "PAUSED").spend k) Unit f₀
            (active ++ [name]) ⟨x, none⟩ (hp₁.snoc hname)
          exact hgive.mono (fun _ hs => ⟨hs.1.trans hspec, hs.2⟩) fun o w'' _ ho =>
            ⟨fun a ha => absurd ha (ho.1 a), fun _ _ => ho.2⟩
      refine Always.seq hpause (fun _ h => h) (fun a w₂ _ ho => ?_) fun x w₂ _ ho =>
        ⟨fun _ ha => (by cases ha), fun _ _ => ho.2 x rfl⟩
      rw [ho.1 a rfl]
      have hq₂ : ∀ n ∈ quiet ++ [name], (w₁.setSchedule name "PAUSED").schedules n ≠ "ENABLED" := by
        intro n hn
        show (if n = name then "PAUSED" else w₁.schedules n) ≠ "ENABLED"
        by_cases heq : n = name
        · rw [if_pos heq]
          decide
        · rw [if_neg heq]
          refine hq₁ n ?_
          rcases List.mem_append.1 hn with hn | hn
          · exact hn
          · exact absurd (List.mem_singleton.1 hn) heq
      have hrest : Always (Takes e apply may) (Sound f₀ w₁.spec)
          (Quiet may f₀ (quiet ++ [name] ++ names) w₁.faults)
          (pauseFrom names (active ++ [name])) (w₁.setSchedule name "PAUSED") :=
        pauseFrom_always (hp₁.snoc hname) hq₂
      rw [List.append_assoc, hspec] at hrest
      exact hrest.mono (fun _ h => h) fun o w₂ _ ho => ho.mono hfaults
    · have hq₂ : ∀ n ∈ quiet ++ [name], w₁.schedules n ≠ "ENABLED" := by
        intro n hn
        rcases List.mem_append.1 hn with hn | hn
        · exact hq₁ n hn
        · rw [List.mem_singleton.1 hn, hsame, ← hstate]
          exact hnot
      have hrest : Always (Takes e apply may) (Sound f₀ w₁.spec)
          (Quiet may f₀ (quiet ++ [name] ++ names) w₁.faults) (pauseFrom names active) w₁ :=
        pauseFrom_always hp₁ hq₂
      rw [List.append_assoc, hspec] at hrest
      exact hrest.mono (fun _ h => h) fun o w₂ _ ho => ho.mono hfaults

end Pausing

/-! ## Releases -/

section Releases

variable {names active : List String} {T E : Spec → Prop} {C : Prop} {p : Exec α}
variable {S : α → World → Prop} {image : String} {before target : Definition} {container : Container}

/-- No schedule is enabled that was not, and while one of `names` is enabled the Job is the one from
before or one of `T`. -/
def Guarded (names : List String) (w₀ : World) (T : Spec → Prop) (w : World) : Prop :=
  (∀ n, w.schedules n = "ENABLED" → w₀.schedules n = "ENABLED") ∧
    ((∃ n ∈ names, w.schedules n = "ENABLED") → w.spec = w₀.spec ∨ T w.spec)

/-- All schedules are as they were, and the Job is one of `T` after a result and one of `E` after an
exception. -/
structure Settled (w₀ : World) (T E : Spec → Prop) (o : Except Raised α) (w : World) : Prop where
  schedules : w.schedules = w₀.schedules
  ok : ∀ a, o = .ok a → T w.spec
  error : ∀ x, o = .error x → E w.spec

/-- A single command may fail, and it is not the resumption of a schedule. -/
structure Mild (may : Command → Prop) (w : World) : Prop where
  resume : ∀ n, ¬may (.resume n)
  faults : w.faults ≤ 1

/-- Nothing has changed. -/
def Here (w₀ w : World) : Prop := w.spec = w₀.spec ∧ w.schedules = w₀.schedules

theorem Here.guarded (h : Here w₀ w) : Guarded names w₀ T w :=
  ⟨fun _ hn => h.2 ▸ hn, fun _ => .inl h.1⟩

theorem Here.settled {o : Except Raised α} (h : Here w₀ w) (ho : ∀ a, o ≠ .ok a)
    (hE : E w₀.spec) : Settled w₀ T E o w :=
  ⟨h.2, fun a ha => absurd ha (ho a), fun _ _ => h.1 ▸ hE⟩

/-- Commands that have no effect. -/
def Command.Idle : Command → Prop
  | .pause _ | .resume _ | .update _ | .replace _ => False
  | _ => True

theorem Takes.idle {r : c.Reply} (hc : c.Idle) (h : Takes e apply may w c w' r) : Here w w' := by
  have hafter : w.after e apply c = w := by
    cases c <;> first | exact hc.elim | rfl
  cases h with
  | answers h => exact hafter.symm ▸ ⟨rfl, rfl⟩
  | unready x h => exact ⟨rfl, rfl⟩
  | fails x hm hn => exact ⟨rfl, rfl⟩
  | lost x hm hn => exact hafter.symm ▸ ⟨rfl, rfl⟩

theorem exec_idle (hc : c.Idle) : (exec c).Asks Command.Idle :=
  ⟨hc, fun r => by cases r <;> trivial⟩

theorem attempt_idle (r : Except Error α) : (attempt r).Asks Command.Idle := by
  cases r <;> trivial

theorem jobImage_idle : jobImage.Asks Command.Idle := by
  refine Prog.Asks.bind (fun images => ?_) (exec_idle trivial)
  unfold onlyImage
  split
  · exact .ite (fun _ => .raise _) fun _ => .pure _
  · exact .raise _

theorem snapshotUri_idle (revision : String) : (snapshotUri e revision).Asks Command.Idle :=
  .ite (fun _ => .raise _) fun _ => .ite (fun _ => .raise _) fun _ => .pure _

theorem saveDefinition_idle (d : Definition) : (saveDefinition e d).Asks Command.Idle :=
  .bind (fun _ => .bind (fun _ => .pure _) (exec_idle (c := .save _) trivial)) (snapshotUri_idle _)

theorem firstContainer_idle (d : Definition) : (firstContainer d).Asks Command.Idle := by
  unfold firstContainer
  split <;> trivial

/-- A part without effect, with what is known of its result. -/
theorem Does.here (hd : Does e apply may C p w S) (hp : p.Asks Command.Idle) (hw : Here w₀ w) :
    Always (Takes e apply may) (Here w₀) (fun o w' => ∀ a, o = .ok a → S a w' ∧ w'.faults ≤ w.faults)
      p w := by
  have hidle : Always (Takes e apply may) (Here w₀) (fun _ _ => True) p w :=
    Always.of_asks (R := fun _ w' => Here w₀ w') hp hw (fun w₁ c w₂ r h hc ht =>
      ⟨(ht.idle hc).1.trans h.1, (ht.idle hc).2.trans h.2⟩) (fun _ h => h) fun _ _ _ => trivial
  exact (hd.and hidle).mono (fun _ h => h.2) fun _ _ _ ho a ha => ⟨ho.1.ok a ha, ho.1.faults⟩

/-- A part without effect, and what follows it. -/
theorem here_bind {f : α → Exec β} {Q : Except Raised β → World → Prop}
    (hd : Does e apply may C p w S) (hp : p.Asks Command.Idle) (hw : Here w₀ w)
    (hf : ∀ a w', Here w₀ w' → S a w' → w'.faults ≤ w.faults →
      Always (Takes e apply may) (Guarded names w₀ T) Q (f a) w')
    (hQ : ∀ x w', Here w₀ w' → Q (.error x) w') :
    Always (Takes e apply may) (Guarded names w₀ T) Q (p >>= f) w :=
  Always.seq (hd.here hp hw) (fun _ h => h.guarded)
    (fun a w' h ho => hf a w' h (ho a rfl).1 (ho a rfl).2) fun x w' h _ => hQ x w' h

section Quiet

variable (hp : Paused w₀.schedules active w.schedules)
  (hq : ∀ n ∈ names, w.schedules n ≠ "ENABLED")

include hp hq in
/-- While the schedules are paused the Job may be anything. -/
theorem quiet_guarded (h : w'.schedules = w.schedules) : Guarded names w₀ T w' := by
  unfold Guarded
  rw [h]
  exact ⟨hp.sound, fun ⟨n, hn, henabled⟩ => absurd henabled (hq n hn)⟩

theorem sound_guarded {s : Spec} (hs : s = w₀.spec ∨ T s) (h : Sound w₀.schedules s w') :
    Guarded names w₀ T w' := ⟨h.2, fun _ => h.1.symm ▸ hs⟩

include hp hq in
/-- A recovery after a fault has everything as it was. -/
theorem recover_always {restore : Exec Unit} {x y : Raised}
    (hrestore : Does e apply may C restore w fun _ w' => w'.spec = w₀.spec) :
    Always (Takes e apply may) (Guarded names w₀ T) (fun (o : Except Raised α) w' =>
      (∀ a, o ≠ .ok a) ∧ (C → w.faults = 0 → (∀ n, ¬may (.resume n)) → Here w₀ w'))
      (during x restore >>= fun _ => giveUp active y) w := by
  refine Always.seq hrestore.during (fun w' h => quiet_guarded hp hq h) (fun _ w' h ho => ?_)
    fun z w' _ ho => ⟨fun a ha => (by cases ha), fun hcond hzero => ?_⟩
  · have hspec := ho.ok _ rfl
    have hgive := @gaveUp_always e apply may w' α w₀.schedules active y (h ▸ hp)
    have hspecs := hgive.and (hgive.mono (K := fun _ => True) (fun _ _ => trivial)
      (R := fun _ w'' => w''.spec = w'.spec) fun _ _ hs _ => hs.1)
    refine hspecs.mono (fun w'' hs => sound_guarded (.inl hspec) hs.1) fun o w'' _ ho' => ?_
    exact ⟨ho'.1.1, fun _ _ hmay => ⟨ho'.2.trans hspec, ho'.1.2 hmay⟩⟩
  · have := ho.error z rfl hcond
    omega

include hp in
/-- The schedules are resumed. -/
theorem resumed_always (hs : w.spec = w₀.spec ∨ T w.spec) :
    Always (Takes e apply may) (Guarded names w₀ T) (fun (o : Except Raised Unit) w' =>
      (∀ a, o = .ok a → w'.schedules = w₀.schedules) ∧ w'.spec = w.spec ∧
        ((∀ n, ¬may (.resume n)) → ∃ a, o = .ok a)) (resumeSchedules active) w := by
  have hlast : ∀ n ∈ ([] : List String), w₀.schedules n = "ENABLED" := fun _ hn => by cases hn
  have h := @resume_always e apply may w₀.schedules [] (Nat.zero_le _) hlast active w hp
  rw [List.append_nil] at h
  exact h.mono (fun w' hw => sound_guarded hs hw) fun o w' hw ho =>
    ⟨ho.ok, hw.1, fun hmay => ho.succeeds hmay rfl⟩

end Quiet

/-- What a deployment relies on: one that is well formed, and an update that sets the image. -/
structure Deployable (e : Env) (apply : List String → Spec → Spec) (image : String) (s : Spec) :
    Prop where
  args : ∃ env, e.candidateArgs = .ok env
  updates : ∀ args env,
    (candidateSpec e apply image args env s).containers.map Container.image = [image]
  release : exactCommit e.releaseSha = true
  previous : ∀ c, s.containers.head? = some c → isRuntime c = true → c.Exact

/-- The Job is completely released. -/
def Released (e : Env) (apply : List String → Spec → Spec) (image : String) (s s' : Spec) : Prop :=
  ∃ c env, s.containers.head? = some c ∧ e.candidateArgs = .ok env ∧
    s' = releasedSpec e apply image c.args env s

theorem firstContainer_does {d : Definition} (hd : operationalSpec e d = .ok s) :
    Does e apply may False (firstContainer d) w fun c _ => s.containers.head? = some c := by
  have hcontainers : (d.spec.bind fun s => s.containers.head?) = s.containers.head? := by
    unfold operationalSpec at hd
    split at hd
    · cases hd
    · cases hspec : d.spec with
      | none =>
        rw [hspec] at hd
        cases hd
      | some t =>
        rw [hspec] at hd
        cases hd
        rfl
  unfold firstContainer
  rw [hcontainers]
  cases hhead : s.containers.head? with
  | none => exact .raise id
  | some c => exact .pure rfl

theorem pauseSchedules_always (hw : Here w₀ w) :
    Always (Takes e apply may) (Guarded (e.schedules.getD []) w₀ T)
      (fun o w' => w'.spec = w₀.spec ∧ Quiet may w₀.schedules (e.schedules.getD []) w.faults o w')
      (pauseSchedules e) w := by
  unfold pauseSchedules
  cases e.schedules with
  | none =>
    exact Always.raise hw.guarded ⟨hw.1, fun _ ho => (by cases ho), fun _ _ _ => hw.2⟩
  | some names =>
    have hp : Paused w₀.schedules [] w.schedules := Paused.nil_iff.2 hw.2
    have h := @pauseFrom_always e apply may w₀.schedules names [] [] w hp fun _ hn => by cases hn
    rw [hw.1] at h
    exact h.mono (fun w' hs => sound_guarded (.inl rfl) hs) fun o w' hs ho => ⟨hs.1, ho⟩

/-- A `try` with its recovery: it is done, or all is as it was. -/
theorem tried_always {p : Exec α} {restore : Exec Unit} {y : Raised → Raised}
    (hp : Paused w₀.schedules active w.schedules) (hq : ∀ n ∈ names, w.schedules n ≠ "ENABLED")
    (hfaults : w.faults ≤ w₀.faults) (hcond : C → Mild may w₀)
    (hrestore : ∀ w', Does e apply may C restore w' fun _ w'' => w''.spec = w₀.spec)
    (hdoes : Does e apply may C p w S) :
    Always (Takes e apply may) (Guarded names w₀ T) (fun o w' =>
      (∀ a, o = .ok a → w'.schedules = w.schedules ∧ w'.faults ≤ w₀.faults ∧ S a w') ∧
      ∀ x, o = .error x → C → Here w₀ w')
      (p.handle fun x => during x restore >>= fun _ => giveUp active (y x)) w := by
  refine Always.guard hdoes (fun w' h => quiet_guarded hp hq h) (fun a w' h ho => ?_)
    fun x w' h ho => ?_
  · refine ⟨fun b hb => ?_, fun _ hx => by cases hx⟩
    cases hb
    exact ⟨h, Nat.le_trans ho.faults hfaults, ho.ok a rfl⟩
  · refine (recover_always (h ▸ hp) (h ▸ hq) (hrestore w')).mono (fun _ hg => hg)
      fun o w'' _ ho' => ?_
    refine ⟨fun a ha => absurd ha (ho'.1 a), fun _ _ hc => ho'.2 hc ?_ (hcond hc).resume⟩
    have := ho.error x rfl hc
    have := (hcond hc).faults
    omega

/-- The part of a deployment that follows the pause. -/
theorem released_always (hp : Paused w₀.schedules active w.schedules)
    (hq : ∀ n ∈ names, w.schedules n ≠ "ENABLED") (hspec : w.spec = w₀.spec)
    (hfaults : w.faults ≤ w₀.faults) (himage : image ≠ "")
    (hbefore : operationalSpec e before = .ok w₀.spec)
    (hcontainer : w₀.spec.containers.head? = some container)
    (hbucket : validBucket e.evidenceBucket = true) :
    Always (Takes e apply may) (Guarded names w₀ (Released e apply image w₀.spec))
      (fun o w' => Mild may w₀ → Deployable e apply image w₀.spec →
        Settled w₀ (Released e apply image w₀.spec) (· = w₀.spec) o w')
      (do
        (stageJob e image container.args).handle (recoverJob e before container active false)
        let result ← (promoteJob e image container).handle
          (recoverJob e before container active true)
        resumeSchedules active
        pure result) w := by
  have hsettled : ∀ {x : Raised} {w' : World}, Here w₀ w' → Settled w₀
      (Released e apply image w₀.spec) (· = w₀.spec) (.error x : Except Raised Result) w' :=
    fun h => h.settled (fun _ ho => by cases ho) rfl
  have hrestore : ∀ granted w', Does e apply may (Mild may w₀ ∧ Deployable e apply image w₀.spec)
      (restoreJob e before container granted) w' fun _ w'' => w''.spec = w₀.spec := fun _ _ =>
    restoreJob_does hbefore (fun hc => hc.2.release) fun hc => hc.2.previous container hcontainer
  refine Always.seq (tried_always hp hq hfaults And.left (hrestore false) (stageJob_does
    (fun hc => hc.2.args) fun hc => ⟨himage, fun env => hspec ▸ hc.2.updates _ env⟩))
    (fun _ h => h) (fun _ w₁ _ h₁ => ?_) fun x w₁ _ h₁ hmild hd => hsettled (h₁.2 x rfl ⟨hmild, hd⟩)
  obtain ⟨hsame₁, hfaults₁, env, henv, hspec₁⟩ := h₁.1 _ rfl
  refine Always.seq (tried_always (hsame₁ ▸ hp) (hsame₁ ▸ hq) hfaults₁ And.left (hrestore true)
    (promoteJob_does (fun hc => hc.2.release) (fun _ => hbucket)
      fun hc => hc.2.previous container hcontainer)) (fun _ h => h)
    (fun result w₂ _ h₂ => ?_) fun x w₂ _ h₂ hmild hd => hsettled (h₂.2 x rfl ⟨hmild, hd⟩)
  obtain ⟨hsame₂, hfaults₂, hspec₂⟩ := h₂.1 result rfl
  -- the Job is released when the schedules are resumed
  have hreleased : Released e apply image w₀.spec w₂.spec := by
    refine ⟨container, env, hcontainer, henv, ?_⟩
    rw [hspec₂, hspec₁, hspec]
    rfl
  refine Always.seq (resumed_always (hsame₂.trans hsame₁ ▸ hp) (.inr hreleased)) (fun _ h => h)
    (fun _ w₃ hg h₃ => Always.pure hg fun _ _ => ⟨h₃.1 _ rfl, fun _ _ => ?_, fun _ hx => by cases hx⟩)
    fun x w₃ _ h₃ hmild _ => ?_
  · rw [h₃.2.1]
    exact hreleased
  · obtain ⟨a, ha⟩ := h₃.2.2 hmild.resume
    cases ha

theorem deployJob_always (image : String) :
    Always (Takes e apply may) (Guarded (e.schedules.getD []) w (Released e apply image w.spec))
      (fun o w' => Mild may w → Deployable e apply image w.spec →
        Settled w (Released e apply image w.spec) (· = w.spec) o w')
      (deployJob e image) w := by
  have hw : Here w w := ⟨rfl, rfl⟩
  have hsettled : ∀ {x : Raised} {w' : World}, Here w w' → Mild may w →
      Deployable e apply image w.spec → Settled w
      (Released e apply image w.spec) (· = w.spec) (.error x : Except Raised Result) w' :=
    fun h _ _ => h.settled (fun _ ho => by cases ho) rfl
  unfold deployJob
  refine Always.ite (fun _ => Always.raise hw.guarded (hsettled hw)) fun himmutable => ?_
  have himage : image ≠ "" := by
    rintro rfl
    exact himmutable (by decide)
  refine here_bind (.exec .describe (C := False) trivial (fun _ => trivial)
    (S := fun d _ => operationalSpec e d = .ok w.spec) fun _ ha => ha) (exec_idle trivial) hw
    (fun before w₁ h₁ hbefore hf₁ => ?_) fun _ _ => hsettled
  refine here_bind (.attempt (C := False) False.elim (S := fun _ _ => True) fun _ _ => trivial)
    (attempt_idle _) h₁ (fun _ w₂ h₂ _ hf₂ => ?_) fun _ _ => hsettled
  refine here_bind (jobImage_does (C := False) False.elim) jobImage_idle h₂
    (fun _ w₃ h₃ _ hf₃ => ?_) fun _ _ => hsettled
  refine here_bind (saveDefinition_does (C := False) False.elim) (saveDefinition_idle before) h₃
    (fun _ w₄ h₄ hbucket hf₄ => ?_) fun _ _ => hsettled
  refine here_bind (firstContainer_does hbefore) (firstContainer_idle before) h₄
    (fun container w₅ h₅ hcontainer hf₅ => ?_) fun _ _ => hsettled
  refine Always.ite (fun _ => Always.raise h₅.guarded (hsettled h₅)) fun _ => ?_
  refine Always.seq (pauseSchedules_always h₅) (fun _ h => h) (fun active w₆ _ h₆ => ?_)
    fun x w₆ _ h₆ hmild hd => hsettled ⟨h₆.1, h₆.2.error x rfl hmild.resume⟩ hmild hd
  obtain ⟨hp, hf₆, hq⟩ := h₆.2.ok active rfl
  exact released_always hp hq h₆.1 (by omega) himage hbefore hcontainer hbucket.1

/-- A definition with the fingerprint that a rollback asks for. -/
def Audited (e : Env) (s : Spec) : Prop :=
  ∃ d, "job-" ++ e.digest d = e.targetRevision ∧ operationalSpec e d = .ok s

/-- The definitions with the fingerprint that a rollback asks for were released at a commit. -/
def Restorable (e : Env) : Prop :=
  ∀ d s c, "job-" ++ e.digest d = e.targetRevision → operationalSpec e d = .ok s →
    s.containers.head? = some c → c.Exact

/-- What follows the pause of a rollback. -/
theorem rolledBack_always {s : Spec} (hp : Paused w₀.schedules active w.schedules)
    (hq : ∀ n ∈ names, w.schedules n ≠ "ENABLED") (hfaults : w.faults ≤ w₀.faults)
    (hbefore : operationalSpec e before = .ok w₀.spec) (htarget : operationalSpec e target = .ok s)
    (hdigest : "job-" ++ e.digest target = e.targetRevision)
    (hcontainer : s.containers.head? = some container) :
    Always (Takes e apply may) (Guarded names w₀ (Audited e))
      (fun o w' => Mild may w₀ → Restorable e →
        Settled w₀ (Audited e) (fun s => s = w₀.spec ∨ Audited e s) o w')
      (do
        emit "rollback" "running"
        (restoreTarget e target container).handle (recoverRollback e before active)
        resumeSchedules active
        emit "rollback" "succeeded"
        let image ← jobImage
        pure (⟨"", e.targetRevision, image⟩ : Result)) w := by
  have hsettled : ∀ {x : Raised} {w' : World}, Here w₀ w' → Settled w₀ (Audited e)
      (fun s => s = w₀.spec ∨ Audited e s) (.error x : Except Raised Result) w' :=
    fun h => h.settled (fun _ ho => by cases ho) (.inl rfl)
  have haudited : Audited e s := ⟨target, hdigest, htarget⟩
  refine Always.ask (quiet_guarded hp hq rfl) fun w₁ r ht => ?_
  have hstill : (Command.emit "rollback" "running").Still := trivial
  have hsame₁ := ht.still hstill
  change Always _ _ _ ((restoreTarget e target container).handle
    (recoverRollback e before active) >>= _) w₁
  have hrestore : ∀ w', Does e apply may (Mild may w₀ ∧ Restorable e) (do
      exec (.replace before)
      verifySpec e before "Job rollback recovery could not be verified") w'
      fun _ w'' => w''.spec = w₀.spec := fun _ =>
    .bind (replace_does hbefore) fun _ _ _ h => verifySpec_does hbefore fun _ => h
  refine Always.seq (tried_always (y := id) (hsame₁ ▸ hp) (hsame₁ ▸ hq)
    (Nat.le_trans ht.faults hfaults) And.left hrestore (restoreTarget_does htarget
      fun hc => hc.2 target s container hdigest htarget hcontainer)) (fun _ h => h)
    (fun _ w₂ _ h₂ => ?_) fun x w₂ _ h₂ hmild hr => hsettled (h₂.2 x rfl ⟨hmild, hr⟩)
  obtain ⟨hsame₂, -, hspec₂⟩ := h₂.1 _ rfl
  have haudited₂ : Audited e w₂.spec := hspec₂ ▸ haudited
  refine Always.seq (resumed_always (hsame₂.trans hsame₁ ▸ hp) (.inr haudited₂)) (fun _ h => h)
    (fun _ w₃ hg₃ h₃ => ?_) fun x w₃ _ h₃ hmild _ => ?_
  · have haudited₃ : Audited e w₃.spec := h₃.2.1 ▸ haudited₂
    have hgood : ∀ {w' : World}, Here w₃ w' → Guarded names w₀ (Audited e) w' := fun h =>
      ⟨fun n hn => hg₃.1 n (h.2 ▸ hn), fun _ => .inr (h.1 ▸ haudited₃)⟩
    have hlast : (do
        emit "rollback" "succeeded"
        let image ← jobImage
        pure ⟨"", e.targetRevision, image⟩ : Exec Result).Asks Command.Idle :=
      .bind (fun _ => .bind (fun _ => .pure _) jobImage_idle) ⟨trivial, fun _ => trivial⟩
    refine Always.of_asks (R := fun _ w' => Here w₃ w') hlast ⟨rfl, rfl⟩
      (fun w₁ c w₂ r h hc ht => ⟨(ht.idle hc).1.trans h.1, (ht.idle hc).2.trans h.2⟩)
      (fun _ h => hgood h) fun o w' h _ _ => ?_
    exact ⟨h.2.trans (h₃.1 _ rfl), fun _ _ => h.1 ▸ haudited₃, fun _ _ => .inr (h.1 ▸ haudited₃)⟩
  · obtain ⟨a, ha⟩ := h₃.2.2 hmild.resume
    cases ha

theorem rollbackJob_always :
    Always (Takes e apply may) (Guarded (e.schedules.getD []) w (Audited e))
      (fun o w' => Mild may w → Restorable e →
        Settled w (Audited e) (fun s => s = w.spec ∨ Audited e s) o w')
      (rollbackJob e) w := by
  have hw : Here w w := ⟨rfl, rfl⟩
  have hsettled : ∀ {x : Raised} {w' : World}, Here w w' → Mild may w → Restorable e → Settled w
      (Audited e) (fun s => s = w.spec ∨ Audited e s) (.error x : Except Raised Result) w' :=
    fun h _ _ => h.settled (fun _ ho => by cases ho) (.inl rfl)
  unfold rollbackJob
  refine Always.ite (fun _ => Always.raise hw.guarded (hsettled hw)) fun hrevision => ?_
  refine here_bind (.exec .describe (C := False) trivial (fun _ => trivial)
    (S := fun d _ => operationalSpec e d = .ok w.spec) fun _ ha => ha) (exec_idle trivial) hw
    (fun before w₁ h₁ hbefore hf₁ => ?_) fun _ _ => hsettled
  refine here_bind (snapshotUri_does (C := False) (not_not.1 hrevision) False.elim)
    (snapshotUri_idle _) h₁ (fun _ w₂ h₂ _ hf₂ => ?_) fun _ _ => hsettled
  refine here_bind (.exec (.fetch _) (C := False) trivial (fun _ => trivial)
    (S := fun _ _ => True) fun _ _ => trivial) (exec_idle trivial) h₂
    (fun target w₃ h₃ _ hf₃ => ?_) fun _ _ => hsettled
  refine Always.ite (fun _ => Always.raise h₃.guarded (hsettled h₃)) fun hdigest => ?_
  refine here_bind (.attempt (C := False) False.elim
    (S := fun s _ => operationalSpec e target = .ok s) fun _ h => h)
    (attempt_idle _) h₃ (fun s w₄ h₄ htarget hf₄ => ?_) fun _ _ => hsettled
  refine here_bind (firstContainer_does htarget) (firstContainer_idle target) h₄
    (fun container w₅ h₅ hcontainer hf₅ => ?_) fun _ _ => hsettled
  refine Always.ite (fun _ => Always.raise h₅.guarded (hsettled h₅)) fun _ => ?_
  refine Always.seq (pauseSchedules_always h₅) (fun _ h => h) (fun active w₆ _ h₆ => ?_)
    fun x w₆ _ h₆ hmild hd => hsettled ⟨h₆.1, h₆.2.error x rfl hmild.resume⟩ hmild hd
  obtain ⟨hp, hf₆, hq⟩ := h₆.2.ok active rfl
  exact rolledBack_always hp hq (by omega) hbefore htarget (not_not.1 hdigest) hcontainer

/-- Every command has an outcome. -/
theorem takes_total (w : World) (c : Command) :
    ∃ w' r, Takes e apply may w c w' r := by
  have hdescribe : operationalSpec e ⟨"", "Job", e.service, some w.spec⟩ = .ok w.spec := by
    unfold operationalSpec
    rw [if_neg (by simp)]
    show (Except.ok w.spec.stable : Except Error Spec) = .ok w.spec
    rw [w.stable]
  cases c with
  | describe => exact ⟨_, .ok _, .answers hdescribe⟩
  | fetch revision => exact ⟨_, .ok ⟨"", "", "", none⟩, .answers trivial⟩
  | image => exact ⟨_, .ok _, .answers rfl⟩
  | schedule name => exact ⟨_, .ok _, .answers rfl⟩
  | _ => exact ⟨_, .ok (), .answers trivial⟩

/-- Whatever fails, no schedule is ever enabled that was not, and none is enabled while the Job is
neither the one from before nor the one that is released. -/
theorem schedules_guarded (e : Env) (apply : List String → Spec → Spec) (may : Command → Prop)
    (w : World) (image : String) :
    Always (Takes e apply may) (Guarded (e.schedules.getD []) w (Released e apply image w.spec))
        (fun _ _ => True) (deployJob e image) w ∧
      Always (Takes e apply may) (Guarded (e.schedules.getD []) w (Audited e))
        (fun _ _ => True) (rollbackJob e) w :=
  ⟨(deployJob_always image).mono (fun _ h => h) fun _ _ _ _ => trivial,
    rollbackJob_always.mono (fun _ h => h) fun _ _ _ _ => trivial⟩

/-- If a single command fails, and it is not the resumption of a schedule, a release ends with all
schedules as they were: with the Job released, or with an exception and the Job from before. A
rollback that has restored its target may still raise. -/
theorem single_fault_settled (hm : Mild may w) :
    (Deployable e apply image w.spec →
      Always (Takes e apply may) (fun _ => True)
        (Settled w (Released e apply image w.spec) (· = w.spec)) (deployJob e image) w) ∧
    (Restorable e →
      Always (Takes e apply may) (fun _ => True)
        (Settled w (Audited e) fun s => s = w.spec ∨ Audited e s) (rollbackJob e) w) :=
  ⟨fun hd => (deployJob_always image).mono (fun _ _ => trivial) fun _ _ _ ho => ho hm hd,
    fun hr => rollbackJob_always.mono (fun _ _ => trivial) fun _ _ _ ho => ho hm hr⟩

end Releases

section Demo

def demoContainer : Container where
  image := "repo/worker@sha256:old"
  args := ["-m", "cgm_sanplat_param.worker", "--type", "wm-sweep"]
  env := [("APP_RELEASE_SCOPE", "runtime-v1"),
    ("APP_RELEASE_SHA", "aaaaaaaaaaaaaaaaaaaaaaaaaaaaaaaaaaaaaaaa"),
    ("APP_RELEASE_RESOURCE", "cgm-artemis-wm-sweep-worker")]
  rest := ""

def demoTarget : Definition :=
  ⟨"", "Job", "cgm-artemis-wm-sweep-worker", some ⟨[], [], [demoContainer], ""⟩⟩

/-- Digests of the audited definition and of the others. -/
def demoDigest (d : Definition) : String :=
  if d = demoTarget then "00000000000000000000000000000000000000000000000000000000000000aa"
  else "00000000000000000000000000000000000000000000000000000000000000bb"

theorem demoDigest_valid (d : Definition) : jobRevision ("job-" ++ demoDigest d) = true := by
  unfold demoDigest
  split <;> decide +kernel

def demoEnv : Env where
  service := "cgm-artemis-wm-sweep-worker"
  releaseSha := "bbbbbbbbbbbbbbbbbbbbbbbbbbbbbbbbbbbbbbbb"
  targetRevision := "job-00000000000000000000000000000000000000000000000000000000000000aa"
  evidenceBucket := "evidence-bucket"
  schedules := some ["cgm-artemis-wm-sweep-hour", "cgm-artemis-wm-sweep-half"]
  candidateArgs := .ok ["--update-env-vars", "APP_RUNTIME_CHECK_ONLY=true"]
  digest := demoDigest
  digest_valid := demoDigest_valid

/-- The image that the flags of an update set. -/
def demoImage : List String → String → String
  | "--image" :: image :: _, _ => image
  | _, image => image

def demoApply (flags : List String) (s : Spec) : Spec :=
  { s with containers := s.containers.map fun c => { c with image := demoImage flags c.image } }

def demoWorld : World where
  spec := ⟨[], [], [demoContainer], ""⟩
  schedules := fun name => if name = "cgm-artemis-wm-sweep-hour" then "ENABLED" else "PAUSED"
  faults := 1
  stable := rfl

theorem demo_deployable :
    Deployable demoEnv demoApply "repo/worker@sha256:new" demoWorld.spec where
  args := ⟨_, rfl⟩
  updates _ _ := rfl
  release := by decide
  previous := by
    rintro c ⟨⟩ -
    exact ⟨_, rfl, by decide⟩

theorem demo_restorable : Restorable demoEnv := by
  intro d s c hdigest hs hc
  have hd : d = demoTarget := by
    by_contra hne
    have hother : demoDigest d = _ := if_neg hne
    have hdigest : "job-" ++ demoDigest d = demoEnv.targetRevision := hdigest
    rw [hother] at hdigest
    exact absurd hdigest (by decide)
  subst hd
  cases hs
  cases hc
  exact ⟨_, rfl, by decide⟩

theorem single_fault_settled_demo :
    Always (Takes demoEnv demoApply fun c => ∀ n, c ≠ .resume n) (fun _ => True)
        (Settled demoWorld (Released demoEnv demoApply "repo/worker@sha256:new" demoWorld.spec)
          (· = demoWorld.spec)) (deployJob demoEnv "repo/worker@sha256:new") demoWorld ∧
      Always (Takes demoEnv demoApply fun c => ∀ n, c ≠ .resume n) (fun _ => True)
        (Settled demoWorld (Audited demoEnv) fun s => s = demoWorld.spec ∨ Audited demoEnv s)
        (rollbackJob demoEnv) demoWorld := by
  have hmild : Mild (fun c => ∀ n, c ≠ .resume n) demoWorld := ⟨fun n h => h n rfl, Nat.le_refl 1⟩
  obtain ⟨hdeploy, hrollback⟩ := @single_fault_settled demoEnv demoApply _ demoWorld
    "repo/worker@sha256:new" hmild
  exact ⟨hdeploy demo_deployable, hrollback demo_restorable⟩

end Demo

end Executor.Jobs
