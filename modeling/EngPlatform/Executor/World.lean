import EngPlatform.Executor.Deployments
import Mathlib.Data.Finset.Insert
import Mathlib.Data.Finset.Erase

/-!
# The world of the executor

The traffic map of the service, its revisions and tags, and the commits that its runtime grants
authorize. A command succeeds, fails without effect, or fails after it took effect. Only
`updateService` makes a revision; a revision is never changed or deleted.
-/

set_option linter.dupNamespace false

namespace Executor

open Interleave

/-- `log` is every command that was run, in order; the traffic only names revisions that exist. -/
structure World where
  traffic : Traffic
  revisions : String → Option Revision
  tags : List Tag
  latest : String
  authorized : Finset String
  log : List Command
  exist : ∀ row ∈ traffic, (revisions row.1).isSome
  latestExists : (revisions latest).isSome

/-- The revisions that receive traffic. -/
def World.serving (w : World) : Traffic := w.traffic.filter (0 < ·.2)

/-- The name that Cloud Run gives to a revision. -/
def revisionName (e : Env) (suffix : String) : String := e.service ++ "-" ++ suffix

def World.create (w : World) (name : String) (r : Revision) : World :=
  { w with
    revisions := fun n => if n = name then some r else w.revisions n
    latest := name
    exist := by
      intro row hrow
      by_cases h : row.1 = name
      · simp [h]
      · simpa [h] using w.exist row hrow
    latestExists := by simp }

/-- The effect of a command. A new revision is `made`, and a new tag gets the URL `url`. -/
def World.after (e : Env) (made : Revision) (url : String) (w : World) : Command → World
  | .setTraffic t =>
    if h : ∀ row ∈ t, (w.revisions row.1).isSome then { w with traffic := t, exist := h } else w
  | .updateService _ suffix =>
    if w.revisions (revisionName e suffix) = none then w.create (revisionName e suffix) made else w
  | .tagRevision tag revision =>
    { w with tags := ⟨tag, revision, url⟩ :: w.tags.filter (·.tag ≠ tag) }
  | .grant .authorize sha => { w with authorized := insert sha w.authorized }
  | .grant _ sha => { w with authorized := w.authorized.erase sha }
  | _ => w

/-- What a command needs to find. -/
def World.Possible (e : Env) (w : World) : Command → Prop
  | .setTraffic t => ∀ row ∈ t, (w.revisions row.1).isSome
  | .updateService _ suffix => w.revisions (revisionName e suffix) = none
  | .tagRevision _ revision | .revision revision => (w.revisions revision).isSome
  | _ => True

/-- What the tag behind a URL serves. -/
def World.Serves (w : World) (url sha : String) : Prop :=
  ∀ row ∈ w.tags, row.url = url →
    ∀ r ∈ w.revisions row.revision, r.sha = some sha ∧ r.scope = some runtimeScope

/-- The answers of a command that succeeds. A probe only accepts the runtime that it expects. -/
def World.Answers (e : Env) (w : World) : (c : Command) → c.Answer → Prop
  | .traffic service, rows => service = e.service → rows = w.traffic
  | .tags, rows => rows = w.tags
  | .revision name, r => w.revisions name = some r
  | .latestRevision, name => name = w.latest
  | .ready url sha _, _ => w.Serves url sha
  | _, _ => True

def World.record (w : World) (c : Command) : World := { w with log := w.log ++ [c] }

/-- A command on the world, where those of `may` can fail. What it does not find makes it fail. -/
inductive Takes (e : Env) (may : Command → Prop) (w : World) :
    (c : Command) → World → c.Reply → Prop
  | answers {c : Command} {a : c.Answer} (made : Revision) (url : String) (hc : w.Possible e c)
      (h : w.Answers e c a) : Takes e may w c ((w.after e made url c).record c) (.ok a)
  | fails {c : Command} (x : Error) (hx : x.isRollback = false) (h : may c ∨ ¬w.Possible e c) :
      Takes e may w c (w.record c) (.error x)
  | lost {c : Command} (x : Error) (made : Revision) (url : String) (hx : x.isRollback = false)
      (h : may c) (hc : w.Possible e c) :
      Takes e may w c ((w.after e made url c).record c) (.error x)

section Kept

variable {e : Env} {may : Command → Prop} {w w' w'' : World} {c : Command}

/-- Commands that have no effect. -/
def Command.Idle : Command → Prop
  | .setTraffic _ | .updateService _ _ | .tagRevision _ _ | .grant _ _ => False
  | _ => True

/-- Commands that leave the traffic and the authorizations alone. -/
def Command.Quiet : Command → Prop
  | .setTraffic _ | .grant _ _ => False
  | _ => True

theorem Command.Idle.quiet (h : c.Idle) : c.Quiet := by
  cases c <;> trivial

/-- Nothing but the log. -/
structure Same (w w' : World) : Prop where
  traffic : w'.traffic = w.traffic
  revisions : w'.revisions = w.revisions
  tags : w'.tags = w.tags
  latest : w'.latest = w.latest
  authorized : w'.authorized = w.authorized
  log : ∃ cs, w'.log = w.log ++ cs ∧ ∀ c ∈ cs, c.Quiet

/-- Nothing but new revisions, tags and the log. -/
structure Apart (w w' : World) : Prop where
  traffic : w'.traffic = w.traffic
  authorized : w'.authorized = w.authorized
  revisions : ∀ name r, w.revisions name = some r → w'.revisions name = some r
  log : ∃ cs, w'.log = w.log ++ cs ∧ ∀ c ∈ cs, c.Quiet

theorem Same.refl (w : World) : Same w w := ⟨rfl, rfl, rfl, rfl, rfl, [], by simp, by simp⟩

theorem Apart.refl (w : World) : Apart w w := ⟨rfl, rfl, fun _ _ h => h, [], by simp, by simp⟩

theorem quiet_log_trans (h : ∃ cs, w'.log = w.log ++ cs ∧ ∀ c ∈ cs, c.Quiet)
    (h' : ∃ cs, w''.log = w'.log ++ cs ∧ ∀ c ∈ cs, c.Quiet) :
    ∃ cs, w''.log = w.log ++ cs ∧ ∀ c ∈ cs, c.Quiet := by
  obtain ⟨cs, hl, hq⟩ := h
  obtain ⟨cs', hl', hq'⟩ := h'
  refine ⟨cs ++ cs', by rw [hl', hl, List.append_assoc], fun c hc => ?_⟩
  rcases List.mem_append.1 hc with hc | hc
  · exact hq c hc
  · exact hq' c hc

theorem Same.trans (h : Same w w') (h' : Same w' w'') : Same w w'' :=
  ⟨h'.traffic.trans h.traffic, h'.revisions.trans h.revisions, h'.tags.trans h.tags,
    h'.latest.trans h.latest, h'.authorized.trans h.authorized, quiet_log_trans h.log h'.log⟩

theorem Same.apart (h : Same w w') : Apart w w' :=
  ⟨h.traffic, h.authorized, fun n r hr => by rw [h.revisions]; exact hr, h.log⟩

theorem Apart.trans (h : Apart w w') (h' : Apart w' w'') : Apart w w'' :=
  ⟨h'.traffic.trans h.traffic, h'.authorized.trans h.authorized,
    fun n r hr => h'.revisions n r (h.revisions n r hr), quiet_log_trans h.log h'.log⟩

theorem Apart.serving (h : Apart w w') : w'.serving = w.serving := by
  unfold World.serving
  rw [h.traffic]

/-- A command that fails in the end took effect, or not. -/
theorem Takes.cases {r : c.Reply} (h : Takes e may w c w' r) :
    w' = w.record c ∨ ∃ made url, w.Possible e c ∧ w' = (w.after e made url c).record c := by
  cases h with
  | answers made url hc _ => exact .inr ⟨made, url, hc, rfl⟩
  | fails x _ _ => exact .inl rfl
  | lost x made url _ _ hc => exact .inr ⟨made, url, hc, rfl⟩

theorem World.after_log (made : Revision) (url : String) : (w.after e made url c).log = w.log := by
  cases c with
  | setTraffic t =>
    show (if h : _ then _ else w : World).log = w.log
    split_ifs <;> rfl
  | updateService image suffix =>
    show (if _ then w.create _ made else w : World).log = w.log
    split_ifs <;> rfl
  | grant a sha => cases a <;> rfl
  | _ => rfl

/-- A run is a log that grows. -/
theorem Takes.log {r : c.Reply} (h : Takes e may w c w' r) : w'.log = w.log ++ [c] := by
  rcases h.cases with rfl | ⟨made, url, -, rfl⟩
  · rfl
  · show (w.after e made url c).log ++ [c] = _
    rw [World.after_log]

theorem World.after_idle (made : Revision) (url : String) (hc : c.Idle) :
    w.after e made url c = w := by
  cases c <;> first | exact hc.elim | rfl

theorem Takes.idle {r : c.Reply} (hc : c.Idle) (h : Takes e may w c w' r) :
    w' = w.record c := by
  rcases h.cases with rfl | ⟨made, url, -, rfl⟩
  · rfl
  · rw [World.after_idle made url hc]

theorem Takes.same {r : c.Reply} (hc : c.Idle) (h : Takes e may w c w' r) : Same w w' := by
  rw [h.idle hc]
  exact ⟨rfl, rfl, rfl, rfl, rfl, [c], rfl, by simpa using hc.quiet⟩

theorem Takes.not_rollback {x : Error} (h : Takes e may w c w' (.error x)) :
    x.isRollback = false := by
  cases h with
  | fails x hx _ => exact hx
  | lost x made url hx _ _ => exact hx

theorem Takes.answer {a : c.Answer} (h : Takes e may w c w' (.ok a)) :
    w.Possible e c ∧ w.Answers e c a ∧ ∃ made url, w' = (w.after e made url c).record c := by
  cases h with
  | answers made url hc h => exact ⟨hc, h, made, url, rfl⟩

/-- A new revision, or none. -/
theorem Takes.update {image suffix : String} {r : (Command.updateService image suffix).Reply}
    (h : Takes e may w (.updateService image suffix) w' r) : Apart w w' := by
  rcases h.cases with rfl | ⟨made, url, hn, rfl⟩
  · exact ⟨rfl, rfl, fun _ _ h => h, [_], rfl, by simp [Command.Quiet]⟩
  · have hn : w.revisions (revisionName e suffix) = none := hn
    have hw : w.after e made url (.updateService image suffix) =
        w.create (revisionName e suffix) made := if_pos hn
    rw [hw]
    refine ⟨rfl, rfl, fun n v hv => ?_, [_], rfl, by simp [Command.Quiet]⟩
    show (if n = revisionName e suffix then some made else w.revisions n) = some v
    rw [if_neg]
    · exact hv
    · rintro rfl
      rw [hn] at hv
      cases hv

theorem Takes.tag {tag revision : String} {r : (Command.tagRevision tag revision).Reply}
    (h : Takes e may w (.tagRevision tag revision) w' r) : Apart w w' := by
  rcases h.cases with rfl | ⟨made, url, -, rfl⟩ <;>
    exact ⟨rfl, rfl, fun _ _ h => h, [_], rfl, by simp [Command.Quiet]⟩

/-- An authorization only adds. -/
theorem Takes.authorize {sha : String} {r : (Command.grant .authorize sha).Reply}
    (h : Takes e may w (.grant .authorize sha) w' r) :
    w'.traffic = w.traffic ∧ w'.revisions = w.revisions ∧
      ∀ s ∈ w.authorized, s ∈ w'.authorized := by
  rcases h.cases with rfl | ⟨made, url, -, rfl⟩
  · exact ⟨rfl, rfl, fun s hs => hs⟩
  · exact ⟨rfl, rfl, fun s hs => Finset.mem_insert_of_mem hs⟩

theorem Takes.authorized {sha : String} (h : Takes e may w (.grant .authorize sha) w' (.ok ())) :
    sha ∈ w'.authorized := by
  obtain ⟨-, -, made, url, rfl⟩ := h.answer
  exact Finset.mem_insert_self sha _

theorem Takes.withdrawn {a : Action} (ha : a ≠ .authorize) {sha : String}
    (h : Takes e may w (.grant a sha) w' (.ok ())) : sha ∉ w'.authorized := by
  obtain ⟨-, -, made, url, rfl⟩ := h.answer
  cases a with
  | authorize => exact absurd rfl ha
  | retire => exact Finset.notMem_erase sha _
  | revoke => exact Finset.notMem_erase sha _

/-- The end of an authorization only takes its own commit away. -/
theorem Takes.withdraw {a : Action} (ha : a ≠ .authorize) {sha : String}
    {r : (Command.grant a sha).Reply} (h : Takes e may w (.grant a sha) w' r) :
    w'.traffic = w.traffic ∧ w'.revisions = w.revisions ∧
      ∀ s ∈ w.authorized, s ≠ sha → s ∈ w'.authorized := by
  rcases h.cases with rfl | ⟨made, url, -, rfl⟩
  · exact ⟨rfl, rfl, fun s hs _ => hs⟩
  · cases a with
    | authorize => exact absurd rfl ha
    | retire => exact ⟨rfl, rfl, fun s hs hne => Finset.mem_erase.2 ⟨hne, hs⟩⟩
    | revoke => exact ⟨rfl, rfl, fun s hs hne => Finset.mem_erase.2 ⟨hne, hs⟩⟩

theorem Takes.move {t : Traffic} {r : (Command.setTraffic t).Reply}
    (h : Takes e may w (.setTraffic t) w' r) :
    (w'.traffic = w.traffic ∨ w'.traffic = t) ∧ w'.revisions = w.revisions ∧
      w'.authorized = w.authorized := by
  rcases h.cases with rfl | ⟨made, url, hp, rfl⟩
  · exact ⟨.inl rfl, rfl, rfl⟩
  · have hw : w.after e made url (.setTraffic t) = { w with traffic := t, exist := hp } :=
      dif_pos hp
    rw [hw]
    exact ⟨.inr rfl, rfl, rfl⟩

theorem Takes.moved {t : Traffic} (h : Takes e may w (.setTraffic t) w' (.ok ())) :
    w'.traffic = t := by
  obtain ⟨hp, -, made, url, rfl⟩ := h.answer
  have hw : w.after e made url (.setTraffic t) = { w with traffic := t, exist := hp } :=
    dif_pos hp
  rw [hw]
  rfl

end Kept

section Script

instance (e : Env) (w : World) : ∀ c, Decidable (w.Possible e c)
  | .setTraffic t => inferInstanceAs (Decidable (∀ row ∈ t, (w.revisions row.1).isSome))
  | .updateService _ suffix =>
    inferInstanceAs (Decidable (w.revisions (revisionName e suffix) = none))
  | .tagRevision _ revision | .revision revision =>
    inferInstanceAs (Decidable ((w.revisions revision).isSome = true))
  | .traffic _ | .tags | .commitLabel _ | .latestRevision | .serviceUrl | .grant _ _
  | .identityToken | .ready _ _ _ | .smoke _ | .sleep | .boundary _ _ | .hook _ | .check _
  | .docker _ | .upload _ | .emit _ _ => .isTrue trivial

instance (w : World) (url sha : String) : Decidable (w.Serves url sha) :=
  inferInstanceAs (Decidable (∀ row ∈ w.tags, row.url = url →
    ∀ r ∈ w.revisions row.revision, r.sha = some sha ∧ r.scope = some runtimeScope))

instance (e : Env) (w : World) : ∀ (c : Command) (a : c.Answer), Decidable (w.Answers e c a)
  | .traffic service, rows =>
    inferInstanceAs (Decidable (service = e.service → rows = w.traffic))
  | .tags, rows => inferInstanceAs (Decidable (rows = w.tags))
  | .revision name, r => inferInstanceAs (Decidable (w.revisions name = some r))
  | .latestRevision, name => inferInstanceAs (Decidable (name = w.latest))
  | .ready url sha _, _ => inferInstanceAs (Decidable (w.Serves url sha))
  | .setTraffic _, _ | .commitLabel _, _ | .updateService _ _, _ | .tagRevision _ _, _
  | .serviceUrl, _ | .grant _ _, _ | .identityToken, _ | .smoke _, _ | .sleep, _ | .boundary _ _, _
  | .hook _, _ | .check _, _ | .docker _, _ | .upload _, _ | .emit _ _, _ => .isTrue trivial

/-- What happens to a command in a scripted run. -/
inductive Choice (c : Command)
  | answers (a : c.Answer)
  | fails (x : Error)
  | lost (x : Error)

/-- A script also says which revision is made, and under which URL it is tagged. -/
structure Script where
  made : Revision
  url : String
  choose : World → (c : Command) → Choice c

variable (e : Env) (may : Command → Prop) [DecidablePred may] (t : Script) {α : Type}

def Script.take (w : World) (c : Command) : Option (World × c.Reply) :=
  match t.choose w c with
  | .answers a =>
    if w.Possible e c ∧ w.Answers e c a then
      some ((w.after e t.made t.url c).record c, .ok a)
    else none
  | .fails x =>
    if x.isRollback = false ∧ (may c ∨ ¬w.Possible e c) then some (w.record c, .error x) else none
  | .lost x =>
    if x.isRollback = false ∧ may c ∧ w.Possible e c then
      some ((w.after e t.made t.url c).record c, .error x)
    else none

def Script.play : Exec α → World → Option (Except Raised α × World)
  | .done a, w => some (.ok a, w)
  | .raise x, w => some (.error x, w)
  | .ask c k, w =>
    match t.take e may w c with
    | some (w', r) => Script.play (k r) w'
    | none => none

variable {e may t}

theorem Script.takes {w w' : World} {c : Command} {r : c.Reply}
    (h : t.take e may w c = some (w', r)) : Takes e may w c w' r := by
  unfold Script.take at h
  rcases hc : t.choose w c with a | x | x <;> rw [hc] at h <;> simp only [] at h <;>
    split_ifs at h with hi <;> cases h
  · exact .answers _ _ hi.1 hi.2
  · exact .fails x hi.1 hi.2
  · exact .lost x _ _ hi.1 hi.2.1 hi.2.2

/-- A script that comes to an end is a run. -/
theorem Script.ends : ∀ {p : Exec α} {w w' : World} {o : Except Raised α},
    t.play e may p w = some (o, w') → Ends (Takes e may) p w o w'
  | .done a, w, w', o, h => by
    cases h
    exact .here _ _
  | .raise x, w, w', o, h => by
    cases h
    exact .here _ _
  | .ask c k, w, w', o, h => by
    unfold Script.play at h
    rcases ht : t.take e may w c with _ | ⟨w₁, r⟩ <;> rw [ht] at h
    · cases h
    · exact .ask (Script.takes ht) (Script.ends h)

end Script

section Demo

/-- A deployment of the job dispatcher. -/
def demoEnv : Env where
  phase := .full
  service := "cgm-artemis-job-dispatcher"
  releaseSha := "bbbbbbbbbbbbbbbbbbbbbbbbbbbbbbbbbbbbbbbb"
  fingerprint := "0123456789abcdef"
  profile := ⟨"cgm-artemis-job-dispatcher", [], [], [], [], ""⟩
  privateRuntime := false
  pairedWebSha := ""
  targetRevision := ""
  evidenceBucket := "evidence"
  deploymentId := "deployment-1"
  imageName := "dispatcher"
  continuation := none

def demoRevision (sha : String) : Revision where
  sha := some sha
  scope := some runtimeScope
  resource := some "cgm-artemis-job-dispatcher"
  serviceLabel := "cgm-artemis-job-dispatcher"
  commitLabel := sha
  image := "dispatcher@sha256:1"
  imageDigest := "dispatcher@sha256:1"
  isReady := true
  specSha256 := "spec"

def demoSha : String := "aaaaaaaaaaaaaaaaaaaaaaaaaaaaaaaaaaaaaaaa"

/-- The revision of one commit has all of the traffic. -/
def demoWorld (authorized : Finset String) : World where
  traffic := [("cgm-artemis-job-dispatcher-1", 100)]
  revisions := fun n =>
    if n = "cgm-artemis-job-dispatcher-1" then some (demoRevision demoSha) else none
  tags := []
  latest := "cgm-artemis-job-dispatcher-1"
  authorized := authorized
  log := []
  exist := by decide
  latestExists := by decide

/-- What a command answers that does not fail. -/
def demoAnswer (w : World) : (c : Command) → c.Answer
  | .traffic _ => w.traffic
  | .tags => w.tags
  | .revision name => (w.revisions name).getD (demoRevision "")
  | .latestRevision => w.latest
  | .commitLabel _ | .identityToken => ""
  | .serviceUrl => "https://dispatcher.run.app"
  | .docker step => if step = "inspect" then demoEnv.releaseSha else "sha256:1"
  | .smoke _ => true
  | .setTraffic _ | .updateService _ _ | .tagRevision _ _ | .grant _ _ | .ready _ _ _ | .sleep
  | .boundary _ _ | .hook _ | .check _ | .upload _ | .emit _ _ => ()

/-- The run in which one command fails, without effect. -/
def demoScript (failing : Command) : Script where
  made := demoRevision demoEnv.releaseSha
  url := "https://candidate.run.app"
  choose := fun w c =>
    if c = failing then .fails (.command "exit status 1") else .answers (demoAnswer w c)

end Demo

end Executor
