import EngPlatform.Release.Planner

/-!
# The world of one execution

What the programs of the release service act on: the stored record, the repository's default
branch, tags and Releases, the committed reports. Beside it the world remembers what the properties
are about: the tags, Releases and builds that were asked for on behalf of the execution, the plans
that were stored since its publication was first granted, and who was granted a submission.

A request is answered or fails, and a failed one may have taken effect. The default branch moves by
itself.
-/

set_option linter.dupNamespace false

namespace Release

/-- A tag; an annotated one points to a tag object, which is resolved to its commit. -/
structure Ref where
  tag : String
  sha : String
  annotated : Bool
  deriving DecidableEq, Repr

def Ref.commit (cfg : Config) (r : Ref) : String :=
  if r.annotated then cfg.tagObject r.sha else r.sha

structure GitHubRelease where
  tag : String
  body : String
  draft : Bool
  prerelease : Bool
  id : String
  url : String
  deriving DecidableEq, Repr

structure World (ι : Type) where
  record : Execution
  head : String
  refs : List Ref
  releases : List GitHubRelease
  committed : List Report
  seen : List Build
  madeRefs : List String
  madeReleases : List String
  builds : ℕ
  grants : List (Option Plan)
  permit : ι → Bool
  cancelled : Bool
  retired : Bool

/-- The response to a build submission: its status code, the diagnostic of a rejected one, and the
build of an accepted one. -/
structure Submitted where
  code : ℕ
  message : String
  build : Except Err Build

/-- A request to the store, to Cloud Build, to GitHub or to another service. `publishing` marks
that `publish_release` is entered with a record. -/
inductive Call
  | get
  | tx (t : Tx)
  | now
  | managed (service : String)
  | catalog (service : String)
  | getBuild (id : String)
  | listBuilds (executionId : String)
  | postBuild (request : BuildRequest)
  | pendingReport (hash : String)
  | stageReport (report : Report) (expected : String)
  | saveReport (report : Report) (expected : String)
  | check (kind conclusion summary : String)
  | publishing (execution : Execution)
  | defaultSha
  | getRef (tag : String)
  | gitTag (sha : String)
  | createRef (tag sha : String)
  | getRelease (tag : String)
  | createRelease (tag body sha : String)
  | external (name : String)

@[reducible] def Call.Val : Call → Type
  | .get => Option Execution
  | .tx _ => Execution × Bool
  | .now | .defaultSha | .gitTag _ | .stageReport _ _ => String
  | .catalog _ => Option Service
  | .getBuild _ => Build
  | .listBuilds _ => List Build
  | .postBuild _ => Submitted
  | .pendingReport _ => Option Report
  | .saveReport _ _ => Report × String
  | .getRef _ => Option Ref
  | .getRelease _ => Option GitHubRelease
  | .createRelease _ _ _ => GitHubRelease
  | _ => Unit

abbrev Call.Ans (c : Call) : Type := Except Err c.Val

abbrev Program (α : Type) := Interleave.Prog Call.Ans Err α

/-- What `P` says of the transaction that a request makes, if it makes one. -/
def Call.onTx (P : Tx → Prop) : Call → Prop
  | .tx t => P t
  | _ => True

instance (P : Tx → Prop) [DecidablePred P] : DecidablePred (Call.onTx P) := fun e => by
  cases e
  case tx t => exact inferInstanceAs (Decidable (P t))
  all_goals exact .isTrue trivial

def perform (c : Call) : Program c.Val := .ask c .lift

/-- A grant of the publication: a claim, or a canary approval. -/
def isGrant (cs : List Change) : Bool :=
  (lookup .publishClaimedAt cs).isSome || lookup .canaryApproved cs = some true

def Tx.isCancel : Tx → Bool
  | .cancelRelease _ => true
  | _ => false

/-- The claims after which a build is posted. -/
def Tx.isClaim : Tx → Bool
  | .claimSubmission _ | .claimQualityBootstrapDispatch _ _ _ => true
  | _ => false

section World

variable {ι : Type} [DecidableEq ι]

/-- The changes of a transaction are stored. -/
def World.store (w : World ι) (t : Tx) (cs : List Change) (flag : Bool) : World ι :=
  { w with
    record := update cs w.record
    grants :=
      if isGrant cs ∨ w.grants ≠ [] then update cs w.record .releasePlan :: w.grants else []
    cancelled := w.cancelled || (t.isCancel && flag)
    retired := w.retired || lookup .status cs = some .superseded }

def World.allow (w : World ι) (i : ι) (b : Bool) : World ι :=
  { w with permit := Function.update w.permit i b }

/-- The failures outside of the service's own checks. -/
def lost {α : Type} (r : Except Err α) : Prop := ∃ m, r = .error (.external m)

/-- What the requests of the program `i` do to the world, and how they are answered. -/
def sem (cfg : Config) (i : ι) (w : World ι) : (c : Call) → World ι → c.Ans → Prop
  | .get, w', r => w' = w ∧ (r = .ok (some w.record) ∨ lost r)
  | .tx t, w', r =>
    (w' = w ∧ lost r) ∨
    match t.run cfg w.record with
    | .error x => w' = w ∧ r = .error x
    | .ok (cs, flag) =>
      (w' = w.store t cs flag ∧ lost r) ∨
      (w' = (if t.isClaim ∧ flag then (w.store t cs flag).allow i true else w.store t cs flag) ∧
        r = .ok (update cs w.record, flag))
  | .now, w', r => w' = w ∧ ∃ t, t ≠ "" ∧ r = .ok t
  | .getBuild _, w', r =>
    (∃ b, w' = { w with seen := b :: w.seen } ∧ r = .ok b) ∨ (w' = w ∧ ∃ x, r = .error x)
  | .postBuild _, w', r =>
    w' = { w.allow i false with builds := w.builds + 1 } ∧ ((∃ a, r = .ok a) ∨ lost r)
  | .saveReport report expected, w', r =>
    (w' = { w with
        committed := { report with commitSha := lower report.commitSha } :: w.committed } ∧
      (lost r ∨ r = .ok ({ report with commitSha := lower report.commitSha }, report.hash)) ∧
      (expected ≠ "" → report.hash = expected)) ∨
    (w' = w ∧ ∃ x, r = .error x)
  | .publishing _, w', r => w' = w ∧ r = .ok ()
  | .defaultSha, w', r => w' = w ∧ (r = .ok w.head ∨ lost r)
  | .getRef tag, w', r => w' = w ∧ (r = .ok (w.refs.find? (·.tag = tag)) ∨ lost r)
  | .gitTag sha, w', r => w' = w ∧ (r = .ok (cfg.tagObject sha) ∨ lost r)
  | .createRef tag sha, w', r =>
    (w' = w ∧ lost r) ∨
    ((∀ ref ∈ w.refs, ref.tag ≠ tag) ∧ (r = .ok () ∨ lost r) ∧
      w' = { w with refs := ⟨tag, sha, false⟩ :: w.refs, madeRefs := tag :: w.madeRefs })
  | .getRelease tag, w', r => w' = w ∧ (r = .ok (w.releases.find? (·.tag = tag)) ∨ lost r)
  | .createRelease tag body _, w', r =>
    (w' = w ∧ lost r) ∨
    ((∀ release ∈ w.releases, release.tag ≠ tag) ∧ ∃ id url,
      (r = .ok ⟨tag, body, false, false, id, url⟩ ∨ lost r) ∧
      w' = { w with
        releases := ⟨tag, body, false, false, id, url⟩ :: w.releases
        madeReleases := tag :: w.madeReleases })
  | _, w', _ => w' = w

def moves (w w' : World ι) : Prop := ∃ h, w' = { w with head := h }

def system (cfg : Config) : Interleave.System ι (World ι) Call.Ans where
  sem := sem cfg
  env := moves

/-- What the world around the execution answers where nothing fails. -/
structure Oracle where
  now : String
  now_ne : now ≠ ""
  service : String → Option Service
  build : String → Build
  builds : List Build
  post : Submitted
  report : String → Option Report
  staged : String
  id : String
  url : String

/-- The requests of the program `i`, answered without a failure. -/
def honest (cfg : Config) (o : Oracle) (i : ι) (w : World ι) : (c : Call) → World ι × c.Ans
  | .get => (w, .ok (some w.record))
  | .tx t =>
    match t.run cfg w.record with
    | .error x => (w, .error x)
    | .ok (cs, flag) =>
      (if t.isClaim ∧ flag then (w.store t cs flag).allow i true else w.store t cs flag,
        .ok (update cs w.record, flag))
  | .now => (w, .ok o.now)
  | .catalog name => (w, .ok (o.service name))
  | .getBuild id => ({ w with seen := o.build id :: w.seen }, .ok (o.build id))
  | .listBuilds _ => (w, .ok o.builds)
  | .postBuild _ => ({ w.allow i false with builds := w.builds + 1 }, .ok o.post)
  | .pendingReport hash => (w, .ok (o.report hash))
  | .stageReport _ _ => (w, .ok o.staged)
  | .saveReport report expected =>
    if expected ≠ "" ∧ report.hash ≠ expected then
      (w, .error (.evidence "Quality report hash does not match callback"))
    else ({ w with
        committed := { report with commitSha := lower report.commitSha } :: w.committed },
      .ok ({ report with commitSha := lower report.commitSha }, report.hash))
  | .defaultSha => (w, .ok w.head)
  | .getRef tag => (w, .ok (w.refs.find? (·.tag = tag)))
  | .gitTag sha => (w, .ok (cfg.tagObject sha))
  | .createRef tag sha =>
    if ∀ ref ∈ w.refs, ref.tag ≠ tag then
      ({ w with refs := ⟨tag, sha, false⟩ :: w.refs, madeRefs := tag :: w.madeRefs }, .ok ())
    else (w, .error (.external "Reference already exists"))
  | .getRelease tag => (w, .ok (w.releases.find? (·.tag = tag)))
  | .createRelease tag body _ =>
    if ∀ release ∈ w.releases, release.tag ≠ tag then
      ({ w with
        releases := ⟨tag, body, false, false, o.id, o.url⟩ :: w.releases
        madeReleases := tag :: w.madeReleases }, .ok ⟨tag, body, false, false, o.id, o.url⟩)
    else (w, .error (.external "Validation Failed"))
  | .managed _ | .check _ _ _ | .publishing _ | .external _ => (w, .ok ())

theorem honest_sem (cfg : Config) (o : Oracle) (i : ι) (w : World ι) (c : Call) :
    sem cfg i w c (honest cfg o i w c).1 (honest cfg o i w c).2 := by
  cases c with
  | tx t =>
    rcases hr : t.run cfg w.record with x | ⟨cs, flag⟩
    · simp [sem, honest, hr]
    · simp [sem, honest, hr]
  | now => exact ⟨rfl, _, o.now_ne, rfl⟩
  | getBuild id => exact .inl ⟨_, rfl, rfl⟩
  | postBuild request => exact ⟨rfl, .inl ⟨_, rfl⟩⟩
  | saveReport report expected =>
    by_cases he : expected ≠ "" ∧ report.hash ≠ expected
    · simp [sem, honest, he]
    · refine .inl ?_
      simp only [honest, if_neg he]
      exact ⟨trivial, .inr trivial, fun h => by tauto⟩
  | createRef tag sha =>
    by_cases hn : ∀ ref ∈ w.refs, ref.tag ≠ tag
    · exact .inr ⟨hn, .inl (by simp only [honest, if_pos hn]), by simp only [honest, if_pos hn]⟩
    · exact .inl ⟨by simp only [honest, if_neg hn], _, by simp only [honest, if_neg hn]; rfl⟩
  | createRelease tag body sha =>
    by_cases hn : ∀ release ∈ w.releases, release.tag ≠ tag
    · exact .inr ⟨hn, o.id, o.url, .inl (by simp only [honest, if_pos hn]),
        by simp only [honest, if_pos hn]⟩
    · exact .inl ⟨by simp only [honest, if_neg hn], _, by simp only [honest, if_neg hn]; rfl⟩
  | _ => simp [sem, honest]

end World

end Release
