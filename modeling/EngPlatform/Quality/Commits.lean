import EngPlatform.Lib.Solo
import EngPlatform.Quality.Agreement

/-!
# Commits of quality evidence

The object store holds JSON: a report is dumped into it and parsed again when it is read. A call may
be cut after any of its writes, and be made again with the same arguments.
-/

set_option linter.dupNamespace false

namespace Seal

open CodePoints Interleave

variable {F : Type} (num : Numbers F)

/-! ## Payloads -/

/-- What the model admits. -/
structure Valid (p : QualityReportCreate F) : Prop where
  serviceName : isServiceName p.serviceName = true
  repository : 1 ≤ p.repository.length ∧ p.repository.length ≤ 256
  commitSha : isCommit p.commitSha = true
  profile : isProfile p.profile = true
  coverage : ∀ x ∈ p.coverage, num.percent x = true
  coverageThreshold : ∀ x ∈ p.coverageThreshold, num.percent x = true
  differentialCoverage : ∀ x ∈ p.differentialCoverage, num.percent x = true
  differentialThreshold : ∀ x ∈ p.differentialThreshold, num.percent x = true
  changedLines : ∀ n ∈ p.changedLines, 0 ≤ n
  coveredChangedLines : ∀ n ∈ p.coveredChangedLines, 0 ≤ n
  checks : p.checks ≠ []

variable {num}

theorem percentField_some {value : Option (Json F)} {r : Option F} (h : percentField num value = some r) :
    ∀ x ∈ r, num.percent x = true := by
  intro x hx
  have hsome : ∀ v : Json F, ((floatOf num v).filter fun x => num.percent x).map some = some r →
      num.percent x = true := by
    intro v hv
    obtain ⟨y, hy, rfl⟩ := Option.map_eq_some_iff.mp hv
    obtain rfl : y = x := Option.some.inj hx
    exact (Option.filter_eq_some_iff.mp hy).2
  unfold percentField at h
  split at h
  · obtain rfl := Option.some.inj h
    cases hx
  · obtain rfl := Option.some.inj h
    cases hx
  · exact hsome _ h

theorem countField_some {value : Option (Json F)} {r : Option Int} (h : countField num value = some r) :
    ∀ n ∈ r, 0 ≤ n := by
  intro n hn
  have hsome : ∀ v : Json F, ((intOf num v).filter fun n => 0 ≤ n).map some = some r → 0 ≤ n := by
    intro v hv
    obtain ⟨m, hm, rfl⟩ := Option.map_eq_some_iff.mp hv
    obtain rfl : m = n := Option.some.inj hn
    exact of_decide_eq_true (Option.filter_eq_some_iff.mp hm).2
  unfold countField at h
  split at h
  · obtain rfl := Option.some.inj h
    cases hn
  · obtain rfl := Option.some.inj h
    cases hn
  · exact hsome _ h

theorem filter_some {α : Type} {o : Option α} {p : α → Bool} {a : α} (h : o.filter p = some a) : p a = true :=
  (Option.filter_eq_some_iff.mp h).2

/-- What is parsed is admitted. -/
theorem parseReport_valid {raw : RawReport F} {p : QualityReportCreate F} (h : parseReport num raw = some p) :
    Valid num p := by
  unfold parseReport at h
  dsimp only at h
  split at h
  · cases h
  · obtain ⟨serviceName, hservice, h⟩ := Option.bind_eq_some_iff.mp h
    obtain ⟨repository, hrepository, h⟩ := Option.bind_eq_some_iff.mp h
    obtain ⟨commitSha, hcommit, h⟩ := Option.bind_eq_some_iff.mp h
    obtain ⟨branch, -, h⟩ := Option.bind_eq_some_iff.mp h
    obtain ⟨profile, hprofile, h⟩ := Option.bind_eq_some_iff.mp h
    obtain ⟨workflowRunUrl, -, h⟩ := Option.bind_eq_some_iff.mp h
    obtain ⟨generatedAt, -, h⟩ := Option.bind_eq_some_iff.mp h
    obtain ⟨coverage, hcoverage, h⟩ := Option.bind_eq_some_iff.mp h
    obtain ⟨coverageThreshold, hcoverageThreshold, h⟩ := Option.bind_eq_some_iff.mp h
    obtain ⟨policyVersion, -, h⟩ := Option.bind_eq_some_iff.mp h
    obtain ⟨baseSha, -, h⟩ := Option.bind_eq_some_iff.mp h
    obtain ⟨differentialCoverage, hdifferential, h⟩ := Option.bind_eq_some_iff.mp h
    obtain ⟨differentialThreshold, hdifferentialThreshold, h⟩ := Option.bind_eq_some_iff.mp h
    obtain ⟨changedLines, hchanged, h⟩ := Option.bind_eq_some_iff.mp h
    obtain ⟨coveredChangedLines, hcovered, h⟩ := Option.bind_eq_some_iff.mp h
    obtain ⟨toolVersions, -, h⟩ := Option.bind_eq_some_iff.mp h
    obtain ⟨items, -, h⟩ := Option.bind_eq_some_iff.mp h
    obtain ⟨checks, -, h⟩ := Option.bind_eq_some_iff.mp h
    split at h
    · cases h
    next hchecks =>
    obtain rfl := Option.some.inj h
    exact
      { serviceName := filter_some hservice
        repository := by simpa using filter_some hrepository
        commitSha := filter_some hcommit
        profile := filter_some hprofile
        coverage := percentField_some hcoverage
        coverageThreshold := percentField_some hcoverageThreshold
        differentialCoverage := percentField_some hdifferential
        differentialThreshold := percentField_some hdifferentialThreshold
        changedLines := countField_some hchanged
        coveredChangedLines := countField_some hcovered
        checks := hchecks }

theorem percentField_dump {r : Option F} (h : ∀ x ∈ r, num.percent x = true) :
    percentField num (some (orNull .float r)) = some r := by
  cases r with
  | none => rfl
  | some x => simp [percentField, orNull, floatOf, Option.filter, h x rfl]

theorem countField_dump {r : Option Int} (h : ∀ n ∈ r, 0 ≤ n) :
    countField num (some (orNull .int r)) = some r := by
  cases r with
  | none => rfl
  | some n => simp [countField, orNull, intOf, Option.filter, h n rfl]

theorem textMembers_dump : ∀ members : List (Text × Text),
    textMembers (members.map fun m => (m.1, (.str m.2 : Json F))) = some members
  | [] => rfl
  | (key, s) :: members => by
    rw [List.map_cons, textMembers, textMembers_dump members]
    rfl

theorem parseCheck_dump (check : QualityCheck F) : parseCheck num (some (dumpCheck check)) = some check := by
  have hstatus : statusField (some (.str (text check.status.text) : Json F)) = some check.status := by
    cases check.status <;> rfl
  have hparse : parseCheck num (some (dumpCheck check)) =
      (statusField (some (.str (text check.status.text) : Json F))).bind fun status =>
        some { check with status } := rfl
  rw [hparse, hstatus]
  rfl

theorem parseChecks_dump : ∀ checks : List (QualityCheck F),
    (checks.map fun check => some (dumpCheck check)).mapM (parseCheck num) = some checks
  | [] => rfl
  | check :: checks => by
    rw [List.map_cons, List.mapM_cons, parseCheck_dump, parseChecks_dump checks]
    rfl

/-- A payload that is dumped is parsed as it was. -/
theorem parseReport_dump {p : QualityReportCreate F} (h : Valid num p) : parseReport num (modelDump p) = some p := by
  have hfilter {α : Type} {a : α} {q : α → Bool} (hq : q a = true) : (some a).filter q = some a := by
    simp [Option.filter, hq]
  have hrepository : (decide (1 ≤ p.repository.length) && decide (p.repository.length ≤ 256)) = true := by
    simp [h.repository]
  unfold parseReport modelDump
  simp only [List.isEmpty_nil, Option.bind_eq_bind, strField, hfilter h.serviceName, Option.bind_some,
    hfilter h.commitSha, hfilter h.profile, percentField_dump h.coverage, percentField_dump h.coverageThreshold,
    percentField_dump h.differentialCoverage, percentField_dump h.differentialThreshold,
    countField_dump h.changedLines, countField_dump h.coveredChangedLines, textsField, textMembers_dump,
    parseChecks_dump]
  rw [Option.filter, if_pos hrepository]
  simp [h.checks]

/-! ## The store -/

/-- `QualityGateStatus`. -/
inductive ReportStatus
  | passed
  | failed
  | running
  | stale
  | notConfigured
  deriving DecidableEq

def ReportStatus.text : ReportStatus → String
  | .passed => "PASSED"
  | .failed => "FAILED"
  | .running => "RUNNING"
  | .stale => "STALE"
  | .notConfigured => "NOT_CONFIGURED"

structure QualityReport (F : Type) where
  create : QualityReportCreate F
  qualityGateStatus : ReportStatus
  receivedAt : Text

/-- A report as a dict. -/
structure Stored (F : Type) where
  create : RawReport F
  qualityGateStatus : Option (Json F)
  receivedAt : Option (Json F)

/-- The value of `provenance`: there is none, it is no dict, or a dict. -/
inductive ProvenanceValue (F : Type)
  | absent
  | other
  | dict (members : List (Text × Json F))

/-- An object that is a dict with members: the report in it or that it is, and the members beside. -/
structure Object (F : Type) where
  report : Stored F
  generatedAt : Text
  provenance : ProvenanceValue F

/-- The name of an object, without the prefix. -/
inductive ObjectName
  | report (service commit : Text)
  | latest (service : Text)
  | evidence (service commit hash : Text)
  | executionEvidence (service commit fingerprint : Text)
  | pending (execution hash : Text)
  deriving DecidableEq

/-- `_safe`. -/
def safe (value : Text) : Text :=
  value.map fun c =>
    if (48 ≤ c && c ≤ 57) || (65 ≤ c && c ≤ 90) || (97 ≤ c && c ≤ 122) || c = 46 || c = 95 || c = 45 then c else 95

/-- `str.lower`, of a text in ASCII. -/
def lower (s : Text) : Text := s.map fun c => if 65 ≤ c && c ≤ 90 then c + 32 else c

inductive Refused
  | conflict (detail : String)
  | http (status : ℕ) (detail : String)
  | validation
  | seal (x : Raised)
  deriving DecidableEq

/-- What the calls take from elsewhere: the catalog's answer, the gate's, and the digest. -/
structure Site (F : Type) where
  observed : Text → Bool
  status : QualityReportCreate F → ReportStatus
  digest : Text → Text

/-- A request. -/
inductive StoreCall (F : Type)
  | now
  | read (name : ObjectName)
  | write (name : ObjectName) (object : Object F)
  | create (name : ObjectName) (object : Object F)

abbrev StoreCall.Ans : StoreCall F → Type
  | .now => Text
  | .read _ => Option (Object F)
  | .write .. => Unit
  | .create .. => Bool

abbrev Code (F α : Type) : Type := Prog (StoreCall.Ans (F := F)) Refused α

def call (c : StoreCall F) : Code F c.Ans := .call c

def refuseIf (b : Prop) [Decidable b] (x : Refused) : Code F Unit := if b then .raise x else pure ()

variable (num) (site : Site F)

def reportHash (p : QualityReportCreate F) : Except Refused Text :=
  match apiHash num site.digest p with
  | .ok hash => .ok hash
  | .error x => .error (.seal x)

def statusOf (value : Option (Json F)) : Option ReportStatus :=
  [ReportStatus.passed, .failed, .running, .stale, .notConfigured].find? fun status => isText value status.text

/-- `QualityReport.model_validate`. -/
def parseStored (value : Stored F) : Option (QualityReport F) := do
  let create ← parseReport num value.create
  let status ← statusOf value.qualityGateStatus
  let receivedAt ← strField value.receivedAt none
  some ⟨create, status, receivedAt⟩

/-- `report.model_dump(mode="json")`. -/
def dumpStored (report : QualityReport F) : Stored F :=
  ⟨modelDump report.create, some (.str (text report.qualityGateStatus.text)), some (.str report.receivedAt)⟩

/-- `_as_create`. -/
def asCreate (value : Stored F) : Option (QualityReportCreate F) :=
  if value.qualityGateStatus.isSome || value.receivedAt.isSome then do
    let report ← parseStored num value
    parseReport num (modelDump report.create)
  else parseReport num value.create

/-- `.get("fingerprint")` of the provenance. -/
def ProvenanceValue.fingerprint : ProvenanceValue F → Option (Json F)
  | .absent => none
  | .other => some (.str [])
  | .dict members => members.lookup (text "fingerprint")

def ProvenanceValue.isDict : ProvenanceValue F → Bool
  | .dict _ => true
  | _ => false

def isString (value : Option (Json F)) (s : Text) : Bool :=
  match value with
  | some (.str t) => t = s
  | _ => false

/-- `not value`. -/
def isFalsy : Option (Json F) → Bool
  | none | some .null | some (.bool false) | some (.str []) | some (.list []) | some (.dict []) => true
  | some (.int n) => n = 0
  | some (.float x) => num.whole x = some 0
  | _ => false

/-- `_report_hash(_as_create(value))`. -/
def storedHash (value : Stored F) : Except Refused Text :=
  match asCreate num value with
  | none => .error .validation
  | some create => reportHash num site create

/-! ## The calls -/

/-- The report of a payload, received at `now`. -/
def received (p : QualityReportCreate F) (now : Text) : QualityReport F :=
  ⟨{ p with commitSha := lower p.commitSha }, site.status p, now⟩

def requireManaged (p : QualityReportCreate F) : Code F Unit :=
  refuseIf (site.observed p.serviceName = true) (.http 409 "Resource is observation-only; management is disabled")

/-- The checks that staged and immutable reports share. -/
def calculatedHash (p : QualityReportCreate F) (expectedHash : Text) : Code F Text := do
  requireManaged site p
  let hash ← Prog.lift (reportHash num site p)
  refuseIf (expectedHash ≠ [] ∧ hash ≠ expectedHash) (.conflict "Quality report hash does not match callback")
  pure hash

def objectName (p : QualityReportCreate F) : ObjectName := .report (safe p.serviceName) (lower p.commitSha)

/-- The arguments of `save_immutable_report`. -/
structure Evidence (F : Type) where
  payload : QualityReportCreate F
  fingerprint : Text
  provider : Text
  providerRunId : Text
  executorDigest : Text
  profileHash : Text
  policyHash : Text
  operation : Text
  expectedHash : Text

def Evidence.indexName (x : Evidence F) : ObjectName :=
  if x.operation = text "main_release" then objectName x.payload
  else .executionEvidence (safe x.payload.serviceName) (lower x.payload.commitSha) (safe x.fingerprint)

def Evidence.provenance (x : Evidence F) : ProvenanceValue F :=
  .dict [(text "fingerprint", .str x.fingerprint), (text "provider", .str x.provider),
    (text "provider_run_id", .str x.providerRunId), (text "executor_digest", .str x.executorDigest),
    (text "profile_hash", .str x.profileHash), (text "policy_hash", .str x.policyHash),
    (text "operation", .str x.operation)]

/-- A wrapper has no date of its own. -/
def Evidence.wrapper (x : Evidence F) (report : QualityReport F) : Object F :=
  ⟨dumpStored report, [], x.provenance⟩

def plain (report : QualityReport F) : Object F :=
  ⟨dumpStored report, report.create.generatedAt, .absent⟩

/-- `str(payload.get("generated_at", ""))`. -/
def datedAt (value : Stored F) : Text := ((value.create.fields.get .generatedAt).map (shown num)).getD []

/-- The latest report is replaced unless its date is later. -/
def saveLatest (dateOf : Object F → Text) (object : Object F) (report : QualityReport F) : Code F Unit := do
  let latest ← call (.read (.latest (safe report.create.serviceName)))
  match latest with
  | none => call (.write (.latest (safe report.create.serviceName)) object)
  | some o =>
    if keyLe (dateOf o) report.create.generatedAt = true then
      call (.write (.latest (safe report.create.serviceName)) object)
    else pure ()

/-- `_report_payload` and its model. -/
def reportOf (o : Object F) : Code F (QualityReport F) :=
  match parseStored num o.report with
  | none => .raise .validation
  | some report => pure report

/-- The evidence that is there is compared with that of the call. -/
def compareCurrent (x : Evidence F) (hash : Text) (o : Object F) : Code F (QualityReport F × Text) :=
  match storedHash num site o.report with
  | .error _ => .raise (.conflict "Existing quality evidence is unreadable")
  | .ok current =>
    if current = hash ∧ isString o.provenance.fingerprint x.fingerprint = true then do
      let report ← reportOf num o
      pure (report, hash)
    else if current = hash ∧ isFalsy num o.provenance.fingerprint = true then
      .raise (.conflict "Legacy quality evidence cannot authorize an orchestrated release")
    else .raise (.conflict "Conflicting quality evidence already exists for service and commit")

/-- Another process has created the index object. -/
def compareConcurrent (x : Evidence F) (hash : Text) (o : Object F) : Code F (QualityReport F × Text) :=
  match storedHash num site o.report with
  | .error e => .raise e
  | .ok current =>
    if current = hash ∧ isString o.provenance.fingerprint x.fingerprint = true then do
      let report ← reportOf num o
      pure (report, hash)
    else .raise (.conflict "Concurrent quality evidence conflicts with this report")

/-- The write of the index object, and what follows it. -/
def createIndex (x : Evidence F) (hash : Text) (report : QualityReport F) : Code F (QualityReport F × Text) := do
  let created ← call (.create x.indexName (x.wrapper report))
  if created then do
    saveLatest (fun o => datedAt num o.report) (x.wrapper report) report
    pure (report, hash)
  else do
    let current ← call (.read x.indexName)
    match current with
    | none => .raise .validation
    | some o => compareConcurrent num site x hash o

/-- The writes of new evidence. -/
def createEvidence (x : Evidence F) (hash : Text) (report : QualityReport F) : Code F (QualityReport F × Text) := do
  let _ ← call (.create (.evidence (safe report.create.serviceName) report.create.commitSha hash) (x.wrapper report))
  createIndex num site x hash report

/-- `save_immutable_report`, after its checks. -/
def commitEvidence (x : Evidence F) (hash : Text) : Code F (QualityReport F × Text) := do
  let now ← call .now
  let current ← call (.read x.indexName)
  match current with
  | some o => compareCurrent num site x hash o
  | none => createEvidence num site x hash (received site x.payload now)

/-- `save_immutable_report`. -/
def saveImmutableReport (x : Evidence F) : Code F (QualityReport F × Text) := do
  let hash ← calculatedHash num site x.payload x.expectedHash
  commitEvidence num site x hash

/-- `save_pending_report`, after its checks. -/
def commitPending (execution : Text) (p : QualityReportCreate F) (hash : Text) : Code F Text := do
  let created ← call (.create (.pending (safe execution) hash) ⟨⟨modelDump p, none, none⟩, [], .absent⟩)
  if created then pure hash
  else do
    let current ← call (.read (.pending (safe execution) hash))
    match current with
    | none => .raise .validation
    | some o => do
      let existing ← Prog.lift (storedHash num site o.report)
      refuseIf (existing ≠ hash) (.conflict "Pending quality report conflicts")
      pure hash

/-- `save_pending_report`. -/
def savePendingReport (execution : Text) (p : QualityReportCreate F) (expectedHash : Text) : Code F Text := do
  let hash ← calculatedHash num site p expectedHash
  commitPending num site execution p hash

/-- The report that is there is returned where its hash is that of the payload. -/
def keepEqual (existing hash : Except Refused Text) (report : QualityReport F) : Code F (QualityReport F) := do
  let existing ← Prog.lift existing
  let hash ← Prog.lift hash
  if existing = hash then pure report
  else .raise (.conflict "Orchestrated quality evidence cannot be overwritten")

/-- The report that is there is that of the payload, or it is refused. -/
def keepOrchestrated (p : QualityReportCreate F) (o : Object F) : Code F (QualityReport F) := do
  let report ← reportOf num o
  keepEqual (storedHash num site (dumpStored report)) (reportHash num site p) report

/-- `save_report`, after its check. -/
def commitReport (p : QualityReportCreate F) : Code F (QualityReport F) := do
  let now ← call .now
  let existing ← call (.read (objectName p))
  match existing.filter fun o => o.provenance.isDict with
  | some o => keepOrchestrated num site p o
  | none => do
    call (.write (objectName p) (plain (received site p now)))
    saveLatest (fun o => o.generatedAt) (plain (received site p now)) (received site p now)
    pure (received site p now)

/-- `save_report`. -/
def saveReport (p : QualityReportCreate F) : Code F (QualityReport F) := do
  requireManaged site p
  commitReport num site p

/-! ## The world -/

/-- The objects; one that is no JSON dict or an empty one is there, and reads as nothing. -/
abbrev Objects (F : Type) : Type := ObjectName → Option (Option (Object F))

def storeSem (w : Objects F) : (c : StoreCall F) → Objects F → c.Ans → Prop
  | .now, w', _ => w' = w
  | .read name, w', r => w' = w ∧ r = (w name).join
  | .write name object, w', _ => w' = Function.update w name (some (some object))
  | .create name object, w', r =>
    if (w name).isSome then w' = w ∧ r = false
    else w' = Function.update w name (some (some object)) ∧ r = true

/-! ## What is stored is read back -/

variable {num} {site}

theorem statusOf_text (status : ReportStatus) : statusOf (some (.str (text status.text) : Json F)) = some status := by
  cases status <;> rfl

theorem parseStored_dump {report : QualityReport F} (h : Valid num report.create) :
    parseStored num (dumpStored report) = some report := by
  unfold parseStored dumpStored
  rw [parseReport_dump h, statusOf_text]
  rfl

theorem asCreate_dump {report : QualityReport F} (h : Valid num report.create) :
    asCreate num (dumpStored report) = some report.create := by
  have hkeys : ((dumpStored report).qualityGateStatus.isSome || (dumpStored report).receivedAt.isSome) = true := rfl
  unfold asCreate
  rw [if_pos hkeys, parseStored_dump h]
  exact parseReport_dump h

/-- What is parsed as a report is that of its payload. -/
theorem asCreate_parsed {value : Stored F} {report : QualityReport F} (h : parseStored num value = some report) :
    Valid num report.create ∧ asCreate num value = some report.create := by
  have hparsed := h
  unfold parseStored at h
  obtain ⟨create, hcreate, h⟩ := Option.bind_eq_some_iff.mp h
  obtain ⟨status, hstatus, h⟩ := Option.bind_eq_some_iff.mp h
  obtain ⟨receivedAt, -, h⟩ := Option.bind_eq_some_iff.mp h
  obtain rfl := Option.some.inj h
  have hvalid := parseReport_valid hcreate
  refine ⟨hvalid, ?_⟩
  have hsome : value.qualityGateStatus.isSome = true := by
    cases hvalue : value.qualityGateStatus with
    | none =>
      rw [hvalue] at hstatus
      cases hstatus
    | some v => rfl
  unfold asCreate
  rw [hsome, Bool.true_or, if_pos rfl, hparsed]
  exact parseReport_dump hvalid

theorem lower_commit {s : Text} (h : isCommit s = true) : isCommit (lower s) = true := by
  unfold isCommit at h ⊢
  simp only [Bool.and_eq_true, decide_eq_true_eq, List.all_eq_true] at h ⊢
  refine ⟨⟨by simpa [lower] using h.1.1, by simpa [lower] using h.1.2⟩, fun c hc => ?_⟩
  obtain ⟨c', hc', rfl⟩ := List.mem_map.mp hc
  have hhex := h.2 c' hc'
  simp only [Bool.or_eq_true, Bool.and_eq_true, decide_eq_true_eq] at hhex ⊢
  split_ifs with hupper
  · omega
  · omega

theorem received_valid {p : QualityReportCreate F} (h : Valid num p) (now : Text) :
    Valid num (received site p now).create :=
  { h with commitSha := lower_commit h.commitSha }

theorem reportHash_eq_ok {p : QualityReportCreate F} {hash : Text} :
    reportHash num site p = .ok hash ↔ apiHash num site.digest p = .ok hash := by
  unfold reportHash
  cases apiHash num site.digest p with
  | error x => constructor <;> intro h <;> cases h
  | ok value => simp

theorem reportHash_ok {p : QualityReportCreate F} {hash : Text} (h : reportHash num site p = .ok hash) :
    hash = site.digest (reportText num (modelDump p)) :=
  (apiHash_ok (reportHash_eq_ok.mp h)).2

/-- The evidence of the call is in the index object. -/
def Settles (num : Numbers F) (site : Site F) (x : Evidence F) (hash : Text) (report : QualityReport F)
    (w : Objects F) : Prop :=
  ∃ o, w x.indexName = some (some o) ∧ storedHash num site o.report = .ok hash ∧
    isString o.provenance.fingerprint x.fingerprint = true ∧ parseStored num o.report = some report

/-- The call has created its index object. -/
def Wrote (site : Site F) (x : Evidence F) (now : Text) (w : Objects F) : Prop :=
  w x.indexName = some (some (x.wrapper (received site x.payload now)))

theorem provenance_fingerprint (x : Evidence F) : isString x.provenance.fingerprint x.fingerprint = true := by
  have hfingerprint : x.provenance.fingerprint = some (.str x.fingerprint) := by
    unfold Evidence.provenance ProvenanceValue.fingerprint
    simp only [List.lookup_cons, beq_self_eq_true]
  rw [hfingerprint]
  exact decide_eq_true rfl

theorem Wrote.settles {x : Evidence F} {hash now : Text} {w : Objects F} (h : Wrote site x now w)
    (hvalid : Valid num x.payload) (hhash : reportHash num site x.payload = .ok hash)
    (hlower : lower x.payload.commitSha = x.payload.commitSha) :
    Settles num site x hash (received site x.payload now) w := by
  refine ⟨_, h, ?_, provenance_fingerprint x, parseStored_dump (received_valid hvalid now)⟩
  have hcreate : asCreate num (dumpStored (received site x.payload now)) = some x.payload := by
    rw [asCreate_dump (received_valid hvalid now)]
    unfold received
    rw [hlower]
  change storedHash num site (dumpStored (received site x.payload now)) = .ok hash
  unfold storedHash
  rw [hcreate]
  exact hhash

/-! ## The hash of a payload -/

/-- The value of a member of a dumped payload. -/
def memberOf (p : QualityReportCreate F) (k : ReportKey) : Json F := ((modelDump p).fields.get k).getD .null

theorem reportText_dump (num : Numbers F) (p : QualityReportCreate F) : reportText num (modelDump p) =
    object (ReportKey.all.map (fun k => (text k.text, dumps num (memberOf p k))) ++
      [(text "checks", array ((p.checks.map fun check => some (dumpCheck check)).map (itemText num)))]) := by
  unfold reportText Dict.members
  rw [show (modelDump p).fields.others = [] from rfl, dumpsValues, List.append_nil]
  refine congrArg (fun l => object (l ++ _)) ?_
  exact List.filterMap_eq_map_iff_forall_eq_some.mpr fun k _ => rfl

theorem dumpsText_commit {s : Text} (h : isCommit s = true) :
    dumpsText s = 34 :: (s ++ [34]) ∧ ∀ c ∈ dumpsText s, c ∉ delimiters := by
  have hhex : ∀ c ∈ s, 48 ≤ c ∧ c ≤ 102 ∧ c ≠ 92 ∧ c ≠ 93 := by
    intro c hc
    unfold isCommit at h
    simp only [Bool.and_eq_true, decide_eq_true_eq, List.all_eq_true] at h
    have := h.2 c hc
    simp only [Bool.or_eq_true, Bool.and_eq_true, decide_eq_true_eq] at this
    omega
  have hescape : s.flatMap escapeCharacter = s := by
    have hall : ∀ c ∈ s, escapeCharacter c = [c] := by
      intro c hc
      have := hhex c hc
      unfold escapeCharacter
      rw [if_neg (by omega), if_neg (by omega), if_neg (by omega), if_neg (by omega), if_neg (by omega),
        if_neg (by omega), if_neg (by omega), if_neg (by omega)]
    rw [List.flatMap_congr hall]
    simp
  unfold dumpsText
  rw [hescape]
  refine ⟨rfl, fun c hc => ?_⟩
  unfold delimiters
  rcases List.mem_cons.mp hc with rfl | hc
  · decide
  · rcases List.mem_append.mp hc with hc | hc
    · have := hhex c hc
      simp only [List.mem_cons, List.not_mem_nil, or_false, not_or]
      omega
    · rw [List.mem_singleton.mp hc]
      decide

/-- The text of a payload determines its commit. -/
theorem commit_of_text {p : QualityReportCreate F} {commit : Text} (h : isCommit p.commitSha = true)
    (h' : isCommit commit = true)
    (heq : reportText num (modelDump { p with commitSha := commit }) = reportText num (modelDump p)) :
    commit = p.commitSha := by
  let z : List Pairing := ReportKey.all.map (fun k => (text k.text,
      dumps num (memberOf { p with commitSha := commit } k), dumps num (memberOf p k))) ++
    [(text "checks", array ((p.checks.map fun check => some (dumpCheck check)).map (itemText num)),
      array ((p.checks.map fun check => some (dumpCheck check)).map (itemText num)))]
  have hleft : reportText num (modelDump { p with commitSha := commit }) = object (lefts z) := by
    rw [reportText_dump, lefts, List.map_append, List.map_map]
    rfl
  have hright : reportText num (modelDump p) = object (rights z) := by
    rw [reportText_dump, rights, List.map_append, List.map_map]
    rfl
  obtain ⟨htext, hplain⟩ := dumpsText_commit h
  obtain ⟨htext', hplain'⟩ := dumpsText_commit h'
  have haligned : ∀ t ∈ z, Aligned t.2.1 t.2.2 := by
    intro t ht
    rcases List.mem_append.mp ht with ht | ht
    · obtain ⟨k, -, rfl⟩ := List.mem_map.mp ht
      cases k with
      | commitSha => exact .of_plain hplain' hplain
      | _ => exact .rfl
    · obtain rfl := List.mem_singleton.mp ht
      exact .rfl
  rw [hleft, hright, object_eq_iff haligned] at heq
  have hcommit : dumpsText commit = dumpsText p.commitSha :=
    heq _ (List.mem_append_left _ (List.mem_map.mpr ⟨.commitSha, by decide, rfl⟩))
  rw [htext, htext'] at hcommit
  exact List.append_cancel_right (List.cons.inj hcommit).2

/-! ## One call alone -/

theorem storeSem_total (w : Objects F) (c : StoreCall F) : ∃ w' r, storeSem w c w' r := by
  cases c with
  | now => exact ⟨w, ([] : Text), rfl⟩
  | read name => exact ⟨w, (w name).join, rfl, rfl⟩
  | write name object => exact ⟨_, (), rfl⟩
  | create name object =>
    by_cases hthere : (w name).isSome
    · exact ⟨w, false, by simp [storeSem, hthere]⟩
    · exact ⟨Function.update w name (some (some object)), true, by simp [storeSem, hthere]⟩

/-- The call has an end, and every end is a result with `Q`. -/
def Gives {α : Type} (p : Code F α) (w : Objects F) (Q : α → Objects F → Prop) : Prop :=
  (∃ o w', Ends storeSem p w o w') ∧ ∀ o w', Ends storeSem p w o w' → ∃ a, o = .ok a ∧ Q a w'

theorem Gives.of_always {α : Type} {p : Code F α} {w : Objects F} {J : Objects F → Prop}
    {Q : α → Objects F → Prop} (h : Always storeSem J (fun o w' => ∃ a, o = .ok a ∧ Q a w') p w) : Gives p w Q :=
  ⟨ends_exists storeSem_total p w, fun _ _ hend => h.ends hend⟩

theorem Gives.mono {α : Type} {p : Code F α} {w : Objects F} {Q R : α → Objects F → Prop} (h : Gives p w Q)
    (hQR : ∀ a w', Q a w' → R a w') : Gives p w R := by
  refine ⟨h.1, fun o w' hend => ?_⟩
  obtain ⟨a, ho, hQ⟩ := h.2 o w' hend
  exact ⟨a, ho, hQR a w' hQ⟩

theorem always_now {α : Type} {J : Objects F → Prop} {Q : Except Refused α → Objects F → Prop} {k : Text → Code F α}
    {w : Objects F} (hJ : J w) (h : ∀ now, Always storeSem J Q (k now) w) :
    Always storeSem J Q (call .now >>= k) w := by
  refine .ask hJ fun w' now hw => ?_
  obtain rfl : w' = w := hw
  exact h now

theorem always_read {α : Type} {J : Objects F → Prop} {Q : Except Refused α → Objects F → Prop} {name : ObjectName}
    {k : Option (Object F) → Code F α} {w : Objects F} (hJ : J w) (h : Always storeSem J Q (k (w name).join) w) :
    Always storeSem J Q (call (.read name) >>= k) w := by
  refine .ask hJ fun w' r hw => ?_
  obtain ⟨rfl, rfl⟩ : w' = w ∧ r = (w name).join := hw
  exact h

theorem always_write {α : Type} {J : Objects F → Prop} {Q : Except Refused α → Objects F → Prop} {name : ObjectName}
    {object : Object F} {k : Unit → Code F α} {w : Objects F} (hJ : J w)
    (h : Always storeSem J Q (k ()) (Function.update w name (some (some object)))) :
    Always storeSem J Q (call (.write name object) >>= k) w := by
  refine .ask hJ fun w' r hw => ?_
  obtain rfl : w' = Function.update w name (some (some object)) := hw
  exact h

theorem always_create {α : Type} {J : Objects F → Prop} {Q : Except Refused α → Objects F → Prop}
    {name : ObjectName} {object : Object F} {k : Bool → Code F α} {w : Objects F} (hJ : J w)
    (hthere : (w name).isSome → Always storeSem J Q (k false) w)
    (habsent : w name = none → Always storeSem J Q (k true) (Function.update w name (some (some object)))) :
    Always storeSem J Q (call (.create name object) >>= k) w := by
  refine .ask hJ fun w' r hw => ?_
  by_cases hname : (w name).isSome
  · obtain ⟨rfl, rfl⟩ : w' = w ∧ r = false := by simpa only [storeSem, if_pos hname] using hw
    exact hthere hname
  · obtain ⟨rfl, rfl⟩ : w' = Function.update w name (some (some object)) ∧ r = true := by
      simpa only [storeSem, if_neg hname] using hw
    exact habsent (by simpa using hname)

/-- The checks refuse in every state, or in none. -/
theorem calculatedHash_cases (p : QualityReportCreate F) (expectedHash : Text) :
    (∃ e, calculatedHash num site p expectedHash = .raise e) ∨
    ∃ hash, ¬site.observed p.serviceName = true ∧ reportHash num site p = .ok hash ∧
      calculatedHash num site p expectedHash = .done hash := by
  unfold calculatedHash requireManaged refuseIf
  by_cases hobserved : site.observed p.serviceName = true
  · left
    rw [if_pos hobserved]
    exact ⟨_, rfl⟩
  · rw [if_neg hobserved]
    cases hhash : reportHash num site p with
    | error e => exact .inl ⟨e, rfl⟩
    | ok hash =>
      by_cases hexpected : expectedHash ≠ [] ∧ hash ≠ expectedHash
      · left
        refine ⟨.conflict "Quality report hash does not match callback", ?_⟩
        simp [hexpected, Prog.lift]
      · right
        refine ⟨hash, hobserved, rfl, ?_⟩
        change refuseIf _ _ >>= _ = _
        unfold refuseIf
        rw [if_neg hexpected]
        rfl

theorem Ends.raise {α : Type} {e : Refused} {a : α} {w w' : Objects F}
    (h : Ends storeSem (Prog.raise e : Code F α) w (.ok a) w') : False := by
  cases h

/-- The call of a payload that can succeed is that after the checks. -/
theorem save_checked {x : Evidence F} {w w' : Objects F} {out : QualityReport F × Text}
    (h : Ends storeSem (saveImmutableReport num site x) w (.ok out) w') :
    ∃ hash, ¬site.observed x.payload.serviceName = true ∧ reportHash num site x.payload = .ok hash ∧
      saveImmutableReport num site x = commitEvidence num site x hash := by
  rcases calculatedHash_cases x.payload x.expectedHash with ⟨e, he⟩ | ⟨hash, hobserved, hhash, hok⟩
  · unfold saveImmutableReport at h
    rw [he] at h
    exact (Ends.raise h).elim
  · refine ⟨hash, hobserved, hhash, ?_⟩
    unfold saveImmutableReport
    rw [hok]
    rfl

/-! ## Evidence that is there -/

theorem compareCurrent_settled {x : Evidence F} {hash : Text} {o : Object F} {report : QualityReport F}
    (hhash : storedHash num site o.report = .ok hash)
    (hfingerprint : isString o.provenance.fingerprint x.fingerprint = true)
    (hreport : parseStored num o.report = some report) :
    compareCurrent num site x hash o = .done (report, hash) := by
  unfold compareCurrent
  rw [hhash]
  dsimp only
  rw [if_pos ⟨rfl, hfingerprint⟩]
  unfold reportOf
  rw [hreport]
  rfl

/-- Evidence that settles the call is returned, and nothing is written. -/
theorem commit_settled {x : Evidence F} {hash : Text} {report : QualityReport F} {w : Objects F}
    (h : Settles num site x hash report w) :
    Always storeSem (fun w' => w' = w) (fun o _ => o = .ok (report, hash)) (commitEvidence num site x hash) w := by
  obtain ⟨o, ho, hhash, hfingerprint, hreport⟩ := h
  refine always_now rfl fun now => always_read rfl ?_
  rw [ho]
  change Always _ _ _ (compareCurrent num site x hash o) w
  rw [compareCurrent_settled hhash hfingerprint hreport]
  exact ⟨rfl, rfl⟩

theorem compareCurrent_cases (x : Evidence F) (hash : Text) (o : Object F) :
    (∃ e, compareCurrent num site x hash o = .raise e) ∨
    ∃ report, compareCurrent num site x hash o = .done (report, hash) ∧
      storedHash num site o.report = .ok hash ∧ isString o.provenance.fingerprint x.fingerprint = true ∧
      parseStored num o.report = some report := by
  unfold compareCurrent
  cases hstored : storedHash num site o.report with
  | error e => exact .inl ⟨_, rfl⟩
  | ok current =>
    dsimp only
    by_cases hsame : current = hash ∧ isString o.provenance.fingerprint x.fingerprint = true
    · rw [if_pos hsame]
      unfold reportOf
      cases hreport : parseStored num o.report with
      | none => exact .inl ⟨_, rfl⟩
      | some report => exact .inr ⟨report, rfl, congrArg _ hsame.1, hsame.2, rfl⟩
    · rw [if_neg hsame]
      by_cases hlegacy : current = hash ∧ isFalsy num o.provenance.fingerprint = true
      · rw [if_pos hlegacy]
        exact .inl ⟨_, rfl⟩
      · rw [if_neg hlegacy]
        exact .inl ⟨_, rfl⟩

/-! ## New evidence -/

theorem saveLatest_always {J : Objects F → Prop} {Q : Except Refused Unit → Objects F → Prop}
    {object : Object F} {report : QualityReport F} {w : Objects F} (dateOf : Object F → Text)
    (hJ : J w) (hwrite : J (Function.update w (.latest (safe report.create.serviceName)) (some (some object))))
    (hQ : ∀ w', J w' → Q (.ok ()) w') : Always storeSem J Q (saveLatest dateOf object report) w := by
  have hcall : Always storeSem J Q (call (.write (.latest (safe report.create.serviceName)) object)) w := by
    refine ⟨hJ, fun w' r hw => ?_⟩
    obtain rfl : w' = _ := hw
    exact ⟨hwrite, hQ _ hwrite⟩
  refine always_read hJ ?_
  cases (w (.latest (safe report.create.serviceName))).join with
  | none => exact hcall
  | some o => exact .ite (fun _ => hcall) fun _ => ⟨hJ, hQ _ hJ⟩

theorem indexName_ne_latest (x : Evidence F) (service : Text) : x.indexName ≠ .latest service := by
  unfold Evidence.indexName objectName
  split_ifs <;> exact fun h => by cases h

theorem indexName_ne_evidence (x : Evidence F) (service commit hash : Text) :
    x.indexName ≠ .evidence service commit hash := by
  unfold Evidence.indexName objectName
  split_ifs <;> exact fun h => by cases h

theorem createIndex_absent {x : Evidence F} {hash now : Text} {w : Objects F} (habsent : w x.indexName = none) :
    Always storeSem (fun w' => w' x.indexName = none ∨ ∃ now, Wrote site x now w')
      (fun o w' => ∃ now, o = .ok (received site x.payload now, hash) ∧ Wrote site x now w')
      (createIndex num site x hash (received site x.payload now)) w := by
  refine always_create (.inl habsent) (fun hthere => ?_) fun _ => ?_
  · rw [habsent] at hthere
    cases hthere
  · have hwrote : Wrote site x now
        (Function.update w x.indexName (some (some (x.wrapper (received site x.payload now))))) :=
      Function.update_self ..
    have hlatest : Wrote site x now (Function.update
        (Function.update w x.indexName (some (some (x.wrapper (received site x.payload now)))))
        (.latest (safe (received site x.payload now).create.serviceName))
        (some (some (x.wrapper (received site x.payload now))))) := by
      unfold Wrote
      rw [Function.update_of_ne (indexName_ne_latest x _)]
      exact hwrote
    have hsave := saveLatest_always (Q := fun o w' => o = .ok () ∧ Wrote site x now w')
      (fun o => datedAt num o.report) hwrote hlatest fun w' hw' => ⟨rfl, hw'⟩
    refine hsave.seq (fun w' hw' => .inr ⟨now, hw'⟩) (fun a w' hw' _ => ?_) fun e w' _ he => ?_
    · exact ⟨.inr ⟨now, hw'⟩, now, rfl, hw'⟩
    · cases he.1

/-- Where the index object is absent, the call creates it. -/
theorem commit_absent {x : Evidence F} {hash : Text} {w : Objects F} (habsent : w x.indexName = none) :
    Always storeSem (fun w' => w' x.indexName = none ∨ ∃ now, Wrote site x now w')
      (fun o w' => ∃ now, o = .ok (received site x.payload now, hash) ∧ Wrote site x now w')
      (commitEvidence num site x hash) w := by
  refine always_now (.inl habsent) fun now => always_read (.inl habsent) ?_
  rw [habsent]
  change Always _ _ _ (createEvidence num site x hash (received site x.payload now)) w
  refine always_create (.inl habsent) (fun _ => createIndex_absent habsent) fun _ => createIndex_absent ?_
  rw [Function.update_of_ne (indexName_ne_evidence x _ _ _), habsent]

theorem createIndex_unreadable {x : Evidence F} {hash : Text} {report : QualityReport F} {w : Objects F}
    (h : w x.indexName = some none) :
    Always storeSem (fun _ => True) (fun o _ => ∃ e, o = .error e) (createIndex num site x hash report) w := by
  refine always_create trivial (fun _ => always_read trivial ?_) fun hnone => ?_
  · rw [h]
    exact ⟨trivial, _, rfl⟩
  · rw [h] at hnone
    cases hnone

/-- A call that succeeds has found its evidence, or no index object. -/
theorem commit_ok {x : Evidence F} {hash : Text} {out : QualityReport F × Text} {w w' : Objects F}
    (h : Ends storeSem (commitEvidence num site x hash) w (.ok out) w') :
    out.2 = hash ∧ (Settles num site x hash out.1 w ∨ w x.indexName = none) := by
  have hrun : Always storeSem (fun _ => True)
      (fun o _ => ∀ out, o = .ok out → out.2 = hash ∧ (Settles num site x hash out.1 w ∨ w x.indexName = none))
      (commitEvidence num site x hash) w := by
    rcases hindex : w x.indexName with _ | _ | o
    · refine (commit_absent hindex).mono (fun _ _ => trivial) fun o _ _ ⟨now, ho, _⟩ out hout => ?_
      obtain rfl := Except.ok.inj (ho.symm.trans hout)
      exact ⟨rfl, .inr rfl⟩
    · have hfails : ∀ (now : Text) (w₁ : Objects F), w₁ x.indexName = some none → Always storeSem (fun _ => True)
          (fun o _ => ∀ out, o = .ok out → out.2 = hash ∧ (Settles num site x hash out.1 w ∨ w x.indexName = none))
          (createIndex num site x hash (received site x.payload now)) w₁ := by
        intro now w₁ hw₁
        refine (createIndex_unreadable hw₁).mono (fun _ h => h) fun o _ _ ⟨e, he⟩ out hout => ?_
        rw [he] at hout
        cases hout
      rw [← hindex]
      refine always_now trivial fun now => always_read trivial ?_
      rw [hindex]
      change Always _ _ _ (createEvidence num site x hash (received site x.payload now)) w
      refine always_create trivial (fun _ => ?_) fun _ => ?_
      · rw [← hindex]
        exact hfails now w hindex
      · rw [← hindex]
        refine hfails now _ ?_
        rw [Function.update_of_ne (indexName_ne_evidence x _ _ _), hindex]
    · refine always_now trivial fun now => always_read trivial ?_
      rw [hindex]
      change Always _ _ _ (compareCurrent num site x hash o) w
      rcases compareCurrent_cases x hash o with
        ⟨e, he⟩ | ⟨report, hdone, hhash, hfingerprint, hreport⟩
      · rw [he]
        exact ⟨trivial, fun out hout => by cases hout⟩
      · rw [hdone]
        refine ⟨trivial, fun out hout => ?_⟩
        obtain rfl := Except.ok.inj hout
        exact ⟨rfl, .inl ⟨o, hindex, hhash, hfingerprint, hreport⟩⟩
  exact hrun.ends h out rfl

/-! ## Calls that are made again -/

/-- The retries of the calls with the evidence `x`: after a success, and after a crash anywhere in a
call that would have succeeded. -/
structure Retryable (num : Numbers F) (site : Site F) (x : Evidence F) : Prop where
  immutable : ∀ {w w₁ out}, Ends storeSem (saveImmutableReport num site x) w (.ok out) w₁ →
    Gives (saveImmutableReport num site x) w₁ fun out' _ => out' = out
  crashed : ∀ {w w₁ out p w'}, Ends storeSem (saveImmutableReport num site x) w (.ok out) w₁ →
    Runs storeSem (saveImmutableReport num site x) w p w' →
    Gives (saveImmutableReport num site x) w' fun out' w₂ =>
      out'.2 = out.2 ∧ out'.1.create = out.1.create ∧ out'.1.qualityGateStatus = out.1.qualityGateStatus ∧
      (∀ o, w' x.indexName = some (some o) → parseStored num o.report = some out'.1) ∧
      Gives (saveImmutableReport num site x) w₂ fun out'' _ => out'' = out'
  pending : ∀ {execution w w₁ hash p w'},
    Ends storeSem (savePendingReport num site execution x.payload x.expectedHash) w (.ok hash) w₁ →
    Runs storeSem (savePendingReport num site execution x.payload x.expectedHash) w p w' →
    Gives (savePendingReport num site execution x.payload x.expectedHash) w' fun hash' _ => hash' = hash
  orchestrated : x.operation = text "main_release" → ∀ {w w₁ out},
    Ends storeSem (saveImmutableReport num site x) w (.ok out) w₁ →
    Gives (saveReport num site x.payload) w₁ fun report _ =>
      ∀ o, w₁ x.indexName = some (some o) → o.provenance.isDict = true → report = out.1
  replaced : ∀ {w w₁ report p w'}, Ends storeSem (saveReport num site x.payload) w (.ok report) w₁ →
    Runs storeSem (saveReport num site x.payload) w p w' →
    Gives (saveReport num site x.payload) w' fun report' _ =>
      report'.create = report.create ∧ report'.qualityGateStatus = report.qualityGateStatus

/-- Evidence that settles the call is returned by it. -/
theorem gives_settled {x : Evidence F} {hash : Text} {report : QualityReport F} {w : Objects F}
    (h : Settles num site x hash report w) :
    Gives (commitEvidence num site x hash) w fun out w' => out = (report, hash) ∧ w' = w :=
  .of_always ((commit_settled h).mono (fun _ hw => hw) fun _ _ hw ho => ⟨_, ho, rfl, hw⟩)

section Again

variable {x : Evidence F} {hash : Text} {w w₁ : Objects F} {out : QualityReport F × Text}

/-- What a call that succeeds has led to, wherever it is cut. -/
theorem commit_visits {w' : Objects F} {p : Code F (QualityReport F × Text)}
    (h : Ends storeSem (commitEvidence num site x hash) w (.ok out) w₁)
    (hr : Runs storeSem (commitEvidence num site x hash) w p w') :
    Settles num site x hash out.1 w' ∨
      (∃ now, out.1 = received site x.payload now) ∧ (w' x.indexName = none ∨ ∃ now, Wrote site x now w') := by
  rcases (commit_ok h).2 with hsettles | habsent
  · left
    obtain rfl : w' = w := (commit_settled hsettles).visits hr
    exact hsettles
  · right
    obtain ⟨now, hout, -⟩ := (commit_absent habsent).ends h
    exact ⟨⟨now, congrArg Prod.fst (Except.ok.inj hout)⟩, (commit_absent habsent).visits hr⟩

variable (hvalid : Valid num x.payload) (hhash : reportHash num site x.payload = .ok hash)
  (hlower : lower x.payload.commitSha = x.payload.commitSha)

include hvalid hhash hlower

/-- After a success the evidence is there. -/
theorem commit_settles (h : Ends storeSem (commitEvidence num site x hash) w (.ok out) w₁) :
    Settles num site x hash out.1 w₁ := by
  rcases (commit_ok h).2 with hsettles | habsent
  · obtain rfl : w₁ = w := (commit_settled hsettles).visits h
    exact hsettles
  · obtain ⟨now, hout, hwrote⟩ := (commit_absent habsent).ends h
    rw [Except.ok.inj hout]
    exact hwrote.settles hvalid hhash hlower

theorem commit_again (h : Ends storeSem (commitEvidence num site x hash) w (.ok out) w₁) :
    Gives (commitEvidence num site x hash) w₁ fun out' _ => out' = out := by
  refine (gives_settled (commit_settles hvalid hhash hlower h)).mono fun out' _ hout => ?_
  rw [hout.1, ← (commit_ok h).1]

theorem commit_crashed {w' : Objects F} {p : Code F (QualityReport F × Text)}
    (h : Ends storeSem (commitEvidence num site x hash) w (.ok out) w₁)
    (hr : Runs storeSem (commitEvidence num site x hash) w p w') :
    Gives (commitEvidence num site x hash) w' fun out' w₂ =>
      out'.2 = out.2 ∧ out'.1.create = out.1.create ∧ out'.1.qualityGateStatus = out.1.qualityGateStatus ∧
      (∀ o, w' x.indexName = some (some o) → parseStored num o.report = some out'.1) ∧
      Gives (commitEvidence num site x hash) w₂ fun out'' _ => out'' = out' := by
  have hsame : out.2 = hash := (commit_ok h).1
  -- a report that settles the call is given again, and once more
  have hsettled : ∀ report, Settles num site x hash report w' → report.create = out.1.create →
      report.qualityGateStatus = out.1.qualityGateStatus →
      Gives (commitEvidence num site x hash) w' fun out' w₂ =>
        out'.2 = out.2 ∧ out'.1.create = out.1.create ∧ out'.1.qualityGateStatus = out.1.qualityGateStatus ∧
        (∀ o, w' x.indexName = some (some o) → parseStored num o.report = some out'.1) ∧
        Gives (commitEvidence num site x hash) w₂ fun out'' _ => out'' = out' := by
    intro report hreport hcreate hstatus
    refine (gives_settled hreport).mono ?_
    rintro out' w₂ ⟨rfl, rfl⟩
    refine ⟨hsame.symm, hcreate, hstatus, fun o ho => ?_, (gives_settled hreport).mono fun _ _ hout => hout.1⟩
    obtain ⟨o', ho', -, -, hparsed⟩ := hreport
    obtain rfl : o = o' := Option.some.inj (Option.some.inj (ho.symm.trans ho'))
    exact hparsed
  rcases commit_visits h hr with hsettles | ⟨⟨now, hout⟩, hnone | ⟨now', hwrote⟩⟩
  · exact hsettled _ hsettles rfl rfl
  · refine .of_always ((commit_absent hnone).mono (fun _ hw => hw) ?_)
    rintro o w₂ - ⟨now', rfl, hwrote⟩
    refine ⟨_, rfl, hsame.symm, ?_, ?_, fun o ho => ?_, ?_⟩
    · rw [hout]
      rfl
    · rw [hout]
      rfl
    · rw [hnone] at ho
      cases ho
    · exact (gives_settled (hwrote.settles hvalid hhash hlower)).mono fun _ _ h => h.1
  · refine hsettled _ (hwrote.settles hvalid hhash hlower) ?_ ?_
    · rw [hout]
      rfl
    · rw [hout]
      rfl

end Again

/-! ## Staged reports -/

section Pending

variable {execution hash : Text} {p : QualityReportCreate F} {w : Objects F}

/-- The staged report is there. -/
def Staged (num : Numbers F) (site : Site F) (execution hash : Text) (w : Objects F) : Prop :=
  ∃ o, w (.pending (safe execution) hash) = some (some o) ∧ storedHash num site o.report = .ok hash

theorem pending_stays (hvalid : Valid num p) (hhash : reportHash num site p = .ok hash)
    (h : w (.pending (safe execution) hash) = none ∨ Staged num site execution hash w) :
    Always storeSem (fun w' => w' (.pending (safe execution) hash) = none ∨ Staged num site execution hash w')
      (fun o _ => o = .ok hash) (commitPending num site execution p hash) w := by
  refine always_create h (fun hthere => always_read h ?_) fun _ => ⟨.inr ⟨_, Function.update_self .., ?_⟩, rfl⟩
  · obtain ⟨o, ho, hstored⟩ := h.resolve_left fun hnone => by
      rw [hnone] at hthere
      cases hthere
    have hrefuse : ¬hash ≠ hash := fun hne => hne rfl
    rw [ho]
    change Always _ _ _ (Prog.lift (storedHash num site o.report) >>= _) w
    rw [hstored]
    change Always _ _ _ (refuseIf _ _ >>= _) w
    unfold refuseIf
    rw [if_neg hrefuse]
    exact ⟨h, rfl⟩
  · unfold storedHash
    rw [show asCreate num (⟨modelDump p, none, none⟩ : Stored F) = some p from parseReport_dump hvalid]
    exact hhash

/-- A call that succeeds has found the staged report, or nothing. -/
theorem pending_ok {hash' : Text} {w₁ : Objects F}
    (h : Ends storeSem (commitPending num site execution p hash) w (.ok hash') w₁) :
    w (.pending (safe execution) hash) = none ∨ Staged num site execution hash w := by
  have hrun : Always storeSem (fun _ => True) (fun o _ => ∀ hash', o = .ok hash' →
      w (.pending (safe execution) hash) = none ∨ Staged num site execution hash w)
      (commitPending num site execution p hash) w := by
    refine always_create trivial (fun hthere => always_read trivial ?_) fun hnone => ⟨trivial, fun _ _ => .inl hnone⟩
    rcases hobject : w (.pending (safe execution) hash) with _ | _ | o
    · exact ⟨trivial, fun _ ho => by cases ho⟩
    · exact ⟨trivial, fun _ ho => by cases ho⟩
    · change Always _ _ _ (Prog.lift (storedHash num site o.report) >>= _) w
      cases hstored : storedHash num site o.report with
      | error e => exact ⟨trivial, fun _ ho => by cases ho⟩
      | ok existing =>
        change Always _ _ _ (refuseIf _ _ >>= _) w
        unfold refuseIf
        by_cases hsame : existing ≠ hash
        · rw [if_pos hsame]
          exact ⟨trivial, fun _ ho => by cases ho⟩
        · rw [if_neg hsame]
          rw [not_not.mp hsame] at hstored
          exact ⟨trivial, fun _ _ => .inr ⟨o, hobject, hstored⟩⟩
  exact hrun.ends h hash' rfl

end Pending

/-! ## Plain reports -/

section Report

variable {p : QualityReportCreate F} {w : Objects F}

theorem keepEqual_cases (existing hash : Except Refused Text) (report : QualityReport F) :
    (∃ e, keepEqual existing hash report = .raise e) ∨ keepEqual existing hash report = .done report := by
  cases existing with
  | error e => exact .inl ⟨e, rfl⟩
  | ok existing =>
    cases hash with
    | error e => exact .inl ⟨e, rfl⟩
    | ok hash =>
      by_cases hsame : existing = hash
      · exact .inr (if_pos hsame)
      · exact .inl ⟨_, if_neg hsame⟩

theorem keepOrchestrated_cases (p : QualityReportCreate F) (o : Object F) :
    (∃ e, keepOrchestrated num site p o = .raise e) ∨ ∃ report, keepOrchestrated num site p o = .done report := by
  unfold keepOrchestrated reportOf
  cases parseStored num o.report with
  | none => exact .inl ⟨_, rfl⟩
  | some report => exact (keepEqual_cases _ _ report).imp_right fun h => ⟨report, h⟩

/-- Orchestrated evidence that hashes as the payload does is kept. -/
theorem keepOrchestrated_same {hash : Text} {o : Object F} {report : QualityReport F}
    (hhash : reportHash num site p = .ok hash) (hstored : storedHash num site o.report = .ok hash)
    (hreport : parseStored num o.report = some report) : keepOrchestrated num site p o = .done report := by
  obtain ⟨hvalid, hcreate⟩ := asCreate_parsed hreport
  have hdumped : storedHash num site (dumpStored report) = .ok hash := by
    unfold storedHash at hstored ⊢
    rw [hcreate] at hstored
    rw [asCreate_dump hvalid]
    exact hstored
  unfold keepOrchestrated reportOf
  rw [hreport, hhash]
  change keepEqual (storedHash num site (dumpStored report)) (.ok hash) report = _
  rw [hdumped]
  exact if_pos rfl

theorem commit_kept {o : Object F} (hkept : (w (objectName p)).join.filter (fun o => o.provenance.isDict) = some o) :
    Always storeSem (fun w' => w' = w)
      (fun r _ => (∃ report, r = .ok report ∧ keepOrchestrated num site p o = .done report) ∨
        ∃ e, r = .error e ∧ keepOrchestrated num site p o = .raise e) (commitReport num site p) w := by
  refine always_now rfl fun now => always_read rfl ?_
  rw [hkept]
  change Always _ _ _ (keepOrchestrated num site p o) w
  rcases keepOrchestrated_cases p o with ⟨e, he⟩ | ⟨report, hreport⟩
  · rw [he]
    exact ⟨rfl, .inr ⟨e, rfl, rfl⟩⟩
  · rw [hreport]
    exact ⟨rfl, .inl ⟨report, rfl, rfl⟩⟩

theorem commit_replaced (hplain : (w (objectName p)).join.filter (fun o => o.provenance.isDict) = none) :
    Always storeSem (fun w' => (w' (objectName p)).join.filter (fun o => o.provenance.isDict) = none)
      (fun r _ => ∃ now, r = .ok (received site p now)) (commitReport num site p) w := by
  refine always_now hplain fun now => always_read hplain ?_
  rw [hplain]
  have hwritten : ((Function.update w (objectName p) (some (some (plain (received site p now)))))
      (objectName p)).join.filter (fun o => o.provenance.isDict) = none := by
    rw [Function.update_self]
    rfl
  have hlatest : ((Function.update (Function.update w (objectName p) (some (some (plain (received site p now)))))
      (.latest (safe (received site p now).create.serviceName)) (some (some (plain (received site p now)))))
      (objectName p)).join.filter (fun o => o.provenance.isDict) = none := by
    rw [Function.update_of_ne (fun h => by cases h)]
    exact hwritten
  refine always_write hplain ?_
  refine (saveLatest_always (Q := fun r _ => r = .ok ()) (fun o => o.generatedAt) hwritten hlatest fun _ _ => rfl).seq
    (fun _ h => h) (fun _ w' hw' _ => ⟨hw', now, rfl⟩) fun e w' _ he => ?_
  cases he

end Report

theorem saveReport_managed {p : QualityReportCreate F} (h : ¬site.observed p.serviceName = true) :
    saveReport num site p = commitReport num site p := by
  unfold saveReport requireManaged refuseIf
  rw [if_neg h]
  rfl

theorem saveReport_ok {p : QualityReportCreate F} {w w₁ : Objects F} {report : QualityReport F}
    (h : Ends storeSem (saveReport num site p) w (.ok report) w₁) :
    saveReport num site p = commitReport num site p := by
  by_cases hobserved : site.observed p.serviceName = true
  · unfold saveReport requireManaged refuseIf at h
    rw [if_pos hobserved] at h
    exact (Ends.raise h).elim
  · exact saveReport_managed hobserved

theorem savePending_ok {execution hash' expectedHash : Text} {p : QualityReportCreate F} {w w₁ : Objects F}
    (h : Ends storeSem (savePendingReport num site execution p expectedHash) w (.ok hash') w₁) :
    ∃ hash, reportHash num site p = .ok hash ∧
      savePendingReport num site execution p expectedHash = commitPending num site execution p hash := by
  rcases calculatedHash_cases p expectedHash with ⟨e, he⟩ | ⟨hash, -, hhash, hok⟩
  · unfold savePendingReport at h
    rw [he] at h
    exact (Ends.raise h).elim
  · refine ⟨hash, hhash, ?_⟩
    unfold savePendingReport
    rw [hok]
    rfl

theorem pending_again {execution hash expectedHash : Text} {q : QualityReportCreate F} {w w₁ w' : Objects F}
    {p : Code F Text} (hvalid : Valid num q)
    (h : Ends storeSem (savePendingReport num site execution q expectedHash) w (.ok hash) w₁)
    (hr : Runs storeSem (savePendingReport num site execution q expectedHash) w p w') :
    Gives (savePendingReport num site execution q expectedHash) w' fun hash' _ => hash' = hash := by
  obtain ⟨calculated, hhash, heq⟩ := savePending_ok h
  rw [heq] at h hr ⊢
  have hstays := pending_stays hvalid hhash (pending_ok h)
  obtain rfl : hash = calculated := Except.ok.inj (hstays.ends h)
  exact .of_always ((pending_stays hvalid hhash (hstays.visits hr)).mono (fun _ hw => hw) fun _ _ _ ho => ⟨_, ho, rfl⟩)

theorem report_again {q : QualityReportCreate F} {w w₁ w' : Objects F} {report : QualityReport F}
    {p : Code F (QualityReport F)} (h : Ends storeSem (saveReport num site q) w (.ok report) w₁)
    (hr : Runs storeSem (saveReport num site q) w p w') :
    Gives (saveReport num site q) w' fun report' _ =>
      report'.create = report.create ∧ report'.qualityGateStatus = report.qualityGateStatus := by
  have heq := saveReport_ok h
  rw [heq] at h hr ⊢
  cases hkept : (w (objectName q)).join.filter fun o => o.provenance.isDict with
  | some o =>
    have hrun : Always storeSem _ _ (commitReport num site q) w := commit_kept hkept
    obtain rfl : w' = w := hrun.visits hr
    rcases hrun.ends h with ⟨report₁, hreport₁, hkeep⟩ | ⟨e, he, -⟩
    · obtain rfl := Except.ok.inj hreport₁
      refine .of_always (hrun.mono (fun _ hw => hw) fun r _ _ ho => ?_)
      rcases ho with ⟨report', rfl, hkeep'⟩ | ⟨e, rfl, hkeep'⟩
      · obtain rfl : report = report' := Prog.done.inj (hkeep.symm.trans hkeep')
        exact ⟨report, rfl, rfl, rfl⟩
      · cases hkeep.symm.trans hkeep'
    · cases he
  | none =>
    have hrun : Always storeSem _ _ (commitReport num site q) w := commit_replaced hkept
    obtain ⟨now, hreport⟩ := hrun.ends h
    obtain rfl := Except.ok.inj hreport
    refine .of_always ((commit_replaced (hrun.visits hr)).mono (fun _ hw => hw) fun r _ _ ho => ?_)
    obtain ⟨now', rfl⟩ := ho
    exact ⟨_, rfl, rfl, rfl⟩

/-- Evidence that the call has stored is kept by a plain report of the same payload. -/
theorem orchestrated_again {x : Evidence F} {hash : Text} {report : QualityReport F} {w : Objects F}
    (hmain : x.operation = text "main_release") (hobserved : ¬site.observed x.payload.serviceName = true)
    (hhash : reportHash num site x.payload = .ok hash) (h : Settles num site x hash report w) :
    Gives (saveReport num site x.payload) w fun report' _ =>
      ∀ o, w x.indexName = some (some o) → o.provenance.isDict = true → report' = report := by
  obtain ⟨o, ho, hstored, -, hreport⟩ := h
  have hname : objectName x.payload = x.indexName := by
    unfold Evidence.indexName
    rw [if_pos hmain]
  have hread : (w (objectName x.payload)).join = some o := by
    rw [hname, ho]
    rfl
  rw [saveReport_managed hobserved]
  by_cases hdict : o.provenance.isDict = true
  · have hkept : (w (objectName x.payload)).join.filter (fun o => o.provenance.isDict) = some o := by
      rw [hread, Option.filter, if_pos hdict]
    refine .of_always ((commit_kept hkept).mono (fun _ hw => hw) fun r _ _ hr => ?_)
    have hkeep := keepOrchestrated_same hhash hstored hreport
    rcases hr with ⟨report', rfl, hkeep'⟩ | ⟨e, rfl, hkeep'⟩
    · obtain rfl : report = report' := Prog.done.inj (hkeep.symm.trans hkeep')
      exact ⟨report, rfl, fun _ _ _ => rfl⟩
    · cases hkeep.symm.trans hkeep'
  · have hplain : (w (objectName x.payload)).join.filter (fun o => o.provenance.isDict) = none := by
      rw [hread, Option.filter, if_neg hdict]
    refine .of_always ((commit_replaced hplain).mono (fun _ hw => hw) fun r _ _ hr => ?_)
    obtain ⟨now, rfl⟩ := hr
    refine ⟨_, rfl, fun o' ho' hdict' => absurd hdict' ?_⟩
    obtain rfl : o = o' := Option.some.inj (Option.some.inj (ho.symm.trans ho'))
    exact hdict

/-- Evidence is retried where the commit is in lower case. -/
theorem retryable_of_lower {x : Evidence F} (hvalid : Valid num x.payload)
    (hlower : lower x.payload.commitSha = x.payload.commitSha) : Retryable num site x where
  immutable h := by
    obtain ⟨hash, -, hhash, heq⟩ := save_checked h
    rw [heq] at h ⊢
    exact commit_again hvalid hhash hlower h
  crashed h hr := by
    obtain ⟨hash, -, hhash, heq⟩ := save_checked h
    rw [heq] at h hr ⊢
    exact commit_crashed hvalid hhash hlower h hr
  pending h hr := pending_again hvalid h hr
  orchestrated hmain w w₁ out h := by
    obtain ⟨hash, hobserved, hhash, heq⟩ := save_checked h
    rw [heq] at h
    exact orchestrated_again hmain hobserved hhash (commit_settles hvalid hhash hlower h)
  replaced h hr := report_again h hr

/-! ## A commit in upper case -/

/-- The digest tells the payload from the payload with its commit in lower case. -/
def Apart (num : Numbers F) (site : Site F) (p : QualityReportCreate F) : Prop :=
  site.digest (reportText num (modelDump { p with commitSha := lower p.commitSha })) =
      site.digest (reportText num (modelDump p)) →
    reportText num (modelDump { p with commitSha := lower p.commitSha }) = reportText num (modelDump p)

/-- The evidence that a call has created conflicts with the call where the commit is not in lower case. -/
theorem commit_conflicts {x : Evidence F} {hash now : Text} {w : Objects F} (hvalid : Valid num x.payload)
    (hhash : reportHash num site x.payload = .ok hash) (hdigest : Apart num site x.payload)
    (hupper : lower x.payload.commitSha ≠ x.payload.commitSha) (hwrote : Wrote site x now w) :
    Always storeSem (fun _ => True) (fun o _ => ∃ detail, o = .error (.conflict detail))
      (commitEvidence num site x hash) w := by
  refine always_now trivial fun _ => always_read trivial ?_
  rw [hwrote]
  change Always _ _ _ (compareCurrent num site x hash (x.wrapper (received site x.payload now))) w
  have hne : ∀ current, storedHash num site (x.wrapper (received site x.payload now)).report = .ok current →
      current ≠ hash := by
    rintro current hcurrent rfl
    unfold storedHash at hcurrent
    rw [show asCreate num (x.wrapper (received site x.payload now)).report = _ from
      asCreate_dump (received_valid hvalid now)] at hcurrent
    have htext := hdigest ((reportHash_ok hcurrent).symm.trans (reportHash_ok hhash))
    exact hupper (commit_of_text hvalid.commitSha (lower_commit hvalid.commitSha) htext)
  unfold compareCurrent
  generalize storedHash num site (x.wrapper (received site x.payload now)).report = stored at hne
  cases stored with
  | error e => exact ⟨trivial, _, rfl⟩
  | ok current =>
    dsimp only
    rw [if_neg fun h => hne current rfl h.1, if_neg fun h => hne current rfl h.1]
    exact ⟨trivial, _, rfl⟩

theorem lower_of_retryable {x : Evidence F} (hvalid : Valid num x.payload)
    (hok : ∃ w out w₁, Ends storeSem (saveImmutableReport num site x) w (.ok out) w₁)
    (hdigest : Apart num site x.payload) (h : Retryable num site x) :
    lower x.payload.commitSha = x.payload.commitSha := by
  by_contra hupper
  obtain ⟨_, _, _, hsomewhere⟩ := hok
  obtain ⟨hash, -, hhash, heq⟩ := save_checked hsomewhere
  -- the first call, where nothing is stored
  have hfirst : Always storeSem _ _ (commitEvidence num site x hash) fun _ => none := commit_absent rfl
  obtain ⟨o, w₁, hend⟩ := ends_exists storeSem_total (commitEvidence num site x hash) fun _ => none
  obtain ⟨now, rfl, hwrote⟩ := hfirst.ends hend
  have hagain := h.immutable (w := fun _ => none) (by rw [heq]; exact hend)
  rw [heq] at hagain
  obtain ⟨⟨o, w₂, hend₂⟩, hgives⟩ := hagain
  obtain ⟨out, rfl, -⟩ := hgives o w₂ hend₂
  obtain ⟨detail, hconflict⟩ := (commit_conflicts hvalid hhash hdigest hupper hwrote).ends hend₂
  cases hconflict

/-- A call that passes its checks succeeds where nothing is stored. -/
theorem save_empty {x : Evidence F} {hash : Text}
    (h : calculatedHash num site x.payload x.expectedHash = .done hash) :
    ∃ w out w₁, Ends storeSem (saveImmutableReport num site x) w (.ok out) w₁ := by
  have heq : saveImmutableReport num site x = commitEvidence num site x hash := by
    unfold saveImmutableReport
    rw [h]
    rfl
  obtain ⟨o, w₁, hend⟩ := ends_exists storeSem_total (commitEvidence num site x hash) fun _ => none
  obtain ⟨now, rfl, -⟩ := (commit_absent rfl).ends hend
  rw [heq]
  exact ⟨_, _, _, hend⟩

/-- Commits of evidence are retryable if and only if the payload's commit is in lower case. -/
theorem evidence_retryable_iff {x : Evidence F} (hvalid : Valid num x.payload)
    (hok : ∃ w out w₁, Ends storeSem (saveImmutableReport num site x) w (.ok out) w₁)
    (hdigest : Apart num site x.payload) :
    Retryable num site x ↔ lower x.payload.commitSha = x.payload.commitSha :=
  ⟨lower_of_retryable hvalid hok hdigest, retryable_of_lower hvalid⟩

/-- A main release's evidence for a commit. -/
def mainEvidence (commitSha : Text) : Evidence ℕ where
  payload :=
    { serviceName := text "smarti-api", repository := text "org/smarti", commitSha, branch := text "main",
      profile := text "python", workflowRunUrl := [], generatedAt := text "2026-01-05T10:00:00+00:00",
      coverage := some 91, coverageThreshold := some 80, policyVersion := text "oss-v1", baseSha := [],
      differentialCoverage := none, differentialThreshold := none, changedLines := some 12,
      coveredChangedLines := none, toolVersions := [(text "pytest", text "8.4")],
      checks := [⟨text "Tests", text "tests", .passed, 0, 0, 31, [], []⟩] }
  fingerprint := text "print"
  provider := text "cloud_build"
  providerRunId := text "run"
  executorDigest := text "digest"
  profileHash := text "profile"
  policyHash := text "policy"
  operation := text "main_release"
  expectedHash := []

/-- Nothing is observation-only. -/
def managedSite : Site ℕ := ⟨fun _ => false, fun _ => .passed, id⟩

theorem mainEvidence_valid {commitSha : Text} (h : isCommit commitSha = true) :
    Valid wholes (mainEvidence commitSha).payload where
  serviceName := by
    change isServiceName (text "smarti-api") = true
    decide +kernel
  repository := by
    change 1 ≤ (text "org/smarti").length ∧ (text "org/smarti").length ≤ 256
    decide +kernel
  commitSha := h
  profile := by
    change isProfile (text "python") = true
    decide +kernel
  coverage := by
    rintro x ⟨⟩
    decide
  coverageThreshold := by
    rintro x ⟨⟩
    decide
  differentialCoverage := by rintro x ⟨⟩
  differentialThreshold := by rintro x ⟨⟩
  changedLines := by
    rintro n ⟨⟩
    decide
  coveredChangedLines := by rintro n ⟨⟩
  checks := List.cons_ne_nil _ _

theorem mainEvidence_saves {commitSha : Text}
    (h : (apiHash wholes id (mainEvidence commitSha).payload).toOption.isSome = true) :
    ∃ w out w₁, Ends storeSem (saveImmutableReport wholes managedSite (mainEvidence commitSha)) w (.ok out) w₁ := by
  cases hash : apiHash wholes id (mainEvidence commitSha).payload with
  | error e =>
    rw [hash] at h
    cases h
  | ok value =>
    have hreport : reportHash wholes managedSite (mainEvidence commitSha).payload = .ok value :=
      reportHash_eq_ok.mpr hash
    have hdone : calculatedHash wholes managedSite (mainEvidence commitSha).payload [] = .done value := by
      unfold calculatedHash
      rw [hreport]
      rfl
    exact save_empty hdone

/-- The hashes of the two cases, evaluated together. -/
theorem mainEvidence_hashed :
    (isCommit (text "abcdef0") = true ∧
      (apiHash wholes id (mainEvidence (text "abcdef0")).payload).toOption.isSome = true) ∧
    isCommit (text "ABCDEF0") = true ∧
      (apiHash wholes id (mainEvidence (text "ABCDEF0")).payload).toOption.isSome = true := by
  decide +kernel

theorem evidence_retryable_iff_demo : Retryable wholes managedSite (mainEvidence (text "abcdef0")) ↔
    lower (text "abcdef0") = text "abcdef0" :=
  evidence_retryable_iff (mainEvidence_valid mainEvidence_hashed.1.1)
    (mainEvidence_saves mainEvidence_hashed.1.2) fun h => h

/-- A commit in upper case: its evidence is stored, and the call that is made again conflicts with it. -/
theorem upper_commit_is_not_retryable : isCommit (text "ABCDEF0") = true ∧
    ¬Retryable wholes managedSite (mainEvidence (text "ABCDEF0")) := by
  obtain ⟨hcommit, hhashed⟩ := mainEvidence_hashed.2
  refine ⟨hcommit, fun h => ?_⟩
  have hlower := lower_of_retryable (mainEvidence_valid hcommit) (mainEvidence_saves hhashed)
    (fun h => h) h
  revert hlower
  decide +kernel

end Seal
