import Mathlib.Data.Rat.Init
import Mathlib.Order.Defs.LinearOrder
import Mathlib.Algebra.Order.Ring.Unbundled.Rat
import EngPlatform.Lib.Asks

/-!
# Quality reports in the object store

`save_report` replaces the report of a service and a commit unless an orchestrated one is there,
which it reads first. `save_immutable_report` stores an orchestrated report once: its index object
is created only if it is absent, and an index object that is there has to agree.
-/

set_option linter.dupNamespace false

namespace Quality

open Interleave

inductive CheckStatus
  | passed
  | failed
  | skipped
  deriving DecidableEq, Repr

structure Check where
  name : String
  category : String
  status : CheckStatus
  findings : ℤ
  blockingFindings : ℤ
  durationSeconds : ℚ
  details : String
  reportPath : String
  deriving DecidableEq, Repr

/-- `QualityReportCreate`. -/
structure Create where
  serviceName : String
  repository : String
  commitSha : String
  branch : String
  profile : String
  workflowRunUrl : String
  generatedAt : String
  coverage : Option ℚ
  coverageThreshold : Option ℚ
  policyVersion : String
  baseSha : String
  differentialCoverage : Option ℚ
  differentialThreshold : Option ℚ
  changedLines : Option ℕ
  coveredChangedLines : Option ℕ
  toolVersions : List (String × String)
  checks : List Check
  deriving DecidableEq, Repr

inductive GateStatus
  | passed
  | failed
  deriving DecidableEq, Repr

/-- `QualityReport`; `_as_create` is `create`. -/
structure Report where
  create : Create
  qualityGateStatus : GateStatus
  receivedAt : String
  deriving DecidableEq, Repr

structure Provenance where
  fingerprint : String
  provider : String
  providerRunId : String
  executorDigest : String
  profileHash : String
  policyHash : String
  operation : String
  deriving DecidableEq, Repr

/-- What an object holds: a report, or a wrapper with its hash and provenance. -/
inductive Data
  | plain (report : Report)
  | wrapped (reportHash : String) (provenance : Provenance) (report : Report)
  deriving DecidableEq, Repr

/-- `_report_payload`. -/
def Data.report : Data → Report
  | .plain report => report
  | .wrapped _ _ report => report

/-- `isinstance(value.get("provenance"), dict)`. -/
def Data.orchestrated : Data → Bool
  | .plain _ => false
  | .wrapped _ _ _ => true

/-- `current.get("provenance", {}).get("fingerprint")`. -/
def Data.fingerprint : Data → Option String
  | .plain _ => none
  | .wrapped _ provenance _ => some provenance.fingerprint

/-- `data.get("generated_at", "")`; a wrapper has that field in its report. -/
def Data.generatedAt : Data → String
  | .plain report => report.create.generatedAt
  | .wrapped _ _ _ => ""

/-- `_safe`. -/
def safe (value : String) : String :=
  value.map fun c => if c.isAlphanum || c = '.' || c = '_' || c = '-' then c else '_'

/-- The name of an object, without the prefix. -/
inductive Name
  | report (service commit : String)
  | latest (service : String)
  | evidence (service commit hash : String)
  | executionEvidence (service commit fingerprint : String)
  deriving DecidableEq, Repr

/-- `_object_name`. -/
def objectName (p : Create) : Name := .report (safe p.serviceName) p.commitSha.toLower

inductive Raised
  | conflict (detail : String)
  | http (status : ℕ) (detail : String)
  | other (name : String)
  deriving DecidableEq, Repr

/-- A request to the store. `replacing` marks the read that decides whether the object may be
replaced. -/
inductive Call
  | read (name : Name) (replacing : Bool)
  | write (name : Name) (data : Data)
  | create (name : Name) (data : Data)
  | now

@[reducible] def Call.Val : Call → Type
  | .read _ _ => Option Data
  | .write _ _ => Unit
  | .create _ _ => Bool
  | .now => String

abbrev Call.Ans (c : Call) : Type := Except Raised c.Val

abbrev Program (α : Type) := Prog Call.Ans Raised α

def perform (c : Call) : Program c.Val := .ask c .lift

def refuse (b : Prop) [Decidable b] (x : Raised) : Program Unit :=
  if b then .raise x else .done ()

/-- The catalog's answers: whether a resource is only observed, and whether a report of another
policy has policy errors. And `_report_hash`. -/
structure Rules where
  observed : String → Bool
  policyErrors : Create → Bool
  hash : Create → String

section

variable (rules : Rules)

/-- `_status`. -/
def status (p : Create) : GateStatus :=
  if p.policyVersion ≠ "oss-v1" then
    if rules.policyErrors p then .failed else .passed
  else
    match p.coverage, p.coverageThreshold with
    | some coverage, some threshold =>
      if coverage < threshold ∨ p.checks.any fun c => c.status = .failed then .failed else .passed
    | _, _ => if p.checks.any fun c => c.status = .failed then .failed else .passed

/-- `require_managed_service_name`. -/
def requireManaged (p : Create) : Program Unit :=
  refuse (rules.observed p.serviceName)
    (.http 409 "Resource is observation-only; management is disabled")

/-- The report of a payload, received at `now`. -/
def received (p : Create) (now : String) : Report :=
  ⟨{ p with commitSha := p.commitSha.toLower }, status rules p, now⟩

/-- The latest report is replaced unless its date is later. -/
def saveLatest (date : Data → String) (data : Data) : Program Unit := do
  let name := Name.latest (safe data.report.create.serviceName)
  let current ← perform (.read name false)
  match current with
  | none => perform (.write name data)
  | some d =>
    if date d ≤ data.report.create.generatedAt then perform (.write name data)
    else pure ()

/-- `save_report`. -/
def saveReport (p : Create) : Program Report := do
  requireManaged rules p
  let now ← perform .now
  let report := received rules p now
  let existing ← perform (.read (objectName p) true)
  match existing with
  | some (.wrapped _ _ r) =>
    if rules.hash r.create = rules.hash p then pure r
    else .raise (.conflict "Orchestrated quality evidence cannot be overwritten")
  | _ => do
    perform (.write (objectName p) (.plain report))
    saveLatest Data.generatedAt (.plain report)
    pure report

/-- The arguments of `save_immutable_report`. -/
structure Immutable where
  payload : Create
  provenance : Provenance
  expectedHash : String
  deriving DecidableEq, Repr

variable (x : Immutable)

def Immutable.hash : String := rules.hash x.payload

/-- `index_name`. -/
def Immutable.indexName : Name :=
  if x.provenance.operation = "main_release" then objectName x.payload
  else .executionEvidence (safe x.payload.serviceName) x.payload.commitSha.toLower
    (safe x.provenance.fingerprint)

/-- The stored evidence is that of the call. -/
def Immutable.agrees (d : Data) : Bool :=
  rules.hash d.report.create = x.hash rules && d.fingerprint = some x.provenance.fingerprint

/-- The refusal of an index object that does not agree. -/
def Immutable.conflict (d : Data) : Raised :=
  if rules.hash d.report.create = x.hash rules ∧ d.fingerprint.all (· = "") then
    .conflict "Legacy quality evidence cannot authorize an orchestrated release"
  else .conflict "Conflicting quality evidence already exists for service and commit"

/-- `save_immutable_report`. -/
def saveImmutableReport : Program (Report × String) := do
  requireManaged rules x.payload
  refuse (x.expectedHash ≠ "" ∧ x.hash rules ≠ x.expectedHash)
    (.conflict "Quality report hash does not match callback")
  let now ← perform .now
  let report := received rules x.payload now
  let wrapper := Data.wrapped (x.hash rules) x.provenance report
  let current ← perform (.read x.indexName false)
  match current with
  | some d =>
    if x.agrees rules d then pure (d.report, x.hash rules)
    else .raise (x.conflict rules d)
  | none => do
    let _ ← perform (.create (.evidence (safe x.payload.serviceName) x.payload.commitSha.toLower
      (x.hash rules)) wrapper)
    let created ← perform (.create x.indexName wrapper)
    if created then do
      saveLatest (fun d => d.report.create.generatedAt) wrapper
      pure (report, x.hash rules)
    else do
      -- another process created the index object first
      let current ← perform (.read x.indexName false)
      match current with
      | some d =>
        if x.agrees rules d then pure (d.report, x.hash rules)
        else .raise (.conflict "Concurrent quality evidence conflicts with this report")
      | none => .raise (.other "ValidationError")

end

/-- A call of the store. -/
inductive Request
  | replace (p : Create)
  | immutable (x : Immutable)
  deriving DecidableEq, Repr

/-- What a call returns; `save_report` returns no hash. -/
structure Response where
  report : Report
  hash : Option String
  deriving DecidableEq, Repr

def Request.program (rules : Rules) : Request → Program Response
  | .replace p => do
    let r ← saveReport rules p
    pure ⟨r, none⟩
  | .immutable x => do
    let r ← saveImmutableReport rules x
    pure ⟨r.1, some r.2⟩

end Quality
