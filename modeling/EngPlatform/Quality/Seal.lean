import EngPlatform.Lib.CodePoints
import Mathlib.Data.List.Sort
import Mathlib.Algebra.Order.Ring.Int
import Mathlib.Tactic.SplitIfs

/-!
# The seal of a quality report

The quality engine runs the gate, adds its own checks, normalizes the report and seals it with the
hash of its JSON. The API parses the report that it is sent into its model and hashes that again.

A dict is kept as the values of the keys that the code names, with whatever else is in it. Two JSON
values that are equal after transport are the same, and a float is finite, as JSON has no other.
-/

set_option linter.dupNamespace false

namespace Seal

open CodePoints

/-! ## JSON -/

inductive Json (F : Type)
  | null
  | bool (b : Bool)
  | int (n : Int)
  | float (x : F)
  | str (s : Text)
  | list (items : List (Json F))
  | dict (members : List (Text × Json F))

/-- Python's floats, and what pydantic makes of values of another type: `whole` of a float without a
fraction, `parse` and `parseInt` of a text. `shown` is `str` of what is not a text. A float is never
printed as an integer is, and without a comma or a bracket. -/
structure Numbers (F : Type) where
  zero : F
  eighty : F
  ofInt : Int → Option F
  ofText : Text → Option F
  repr : F → Text
  percent : F → Bool
  whole : F → Option Int
  parse : Text → Option F
  parseInt : Text → Option Int
  shown : Json F → Text
  repr_ne : ∀ x (n : Int), repr x ≠ text (toString n)
  repr_plain : ∀ x, ∀ c ∈ repr x, c ∉ ([44, 93, 125] : Text)

variable {F : Type} (num : Numbers F)

def lowerHex (d : ℕ) : ℕ := if d < 10 then 48 + d else 87 + d

/-- A character in a JSON string that need not be ASCII. -/
def escapeCharacter (c : ℕ) : Text :=
  if c = 34 then text "\\\""
  else if c = 92 then text "\\\\"
  else if c = 10 then text "\\n"
  else if c = 13 then text "\\r"
  else if c = 9 then text "\\t"
  else if c = 12 then text "\\f"
  else if c = 8 then text "\\b"
  else if c < 32 then text "\\u00" ++ [lowerHex (c / 16), lowerHex (c % 16)]
  else [c]

def dumpsText (s : Text) : Text := 34 :: (s.flatMap escapeCharacter ++ [34])

/-- `",".join(texts)`. -/
def joined : List Text → Text
  | [] => []
  | [t] => t
  | t :: t' :: ts => t ++ 44 :: joined (t' :: ts)

/-- The order of two keys. -/
def keyLe : Text → Text → Bool
  | [], _ => true
  | _ :: _, [] => false
  | a :: s, b :: t => a < b || (a == b && keyLe s t)

def sortKeys (members : List (Text × Text)) : List (Text × Text) :=
  members.insertionSort fun m m' => keyLe m.1 m'.1

def dumpsMember (member : Text × Text) : Text := dumpsText member.1 ++ 58 :: member.2

def array (items : List Text) : Text := 91 :: (joined items ++ [93])

/-- An object with sorted keys, of members whose values have been dumped. -/
def object (members : List (Text × Text)) : Text :=
  123 :: (joined ((sortKeys members).map dumpsMember) ++ [125])

mutual

/-- `json.dumps(value, sort_keys=True, separators=(",", ":"), ensure_ascii=False)`. -/
def dumps : Json F → Text
  | .null => text "null"
  | .bool b => text (if b then "true" else "false")
  | .int n => text (toString n)
  | .float x => num.repr x
  | .str s => dumpsText s
  | .list items => array (dumpsItems items)
  | .dict members => object (dumpsValues members)

def dumpsItems : List (Json F) → List Text
  | [] => []
  | item :: items => dumps item :: dumpsItems items

def dumpsValues : List (Text × Json F) → List (Text × Text)
  | [] => []
  | (key, value) :: members => (key, dumps value) :: dumpsValues members

end

/-! ## Reports as dicts -/

inductive Raised
  | executor (detail : String)
  | other (name : String)
  deriving DecidableEq

/-- The keys of a check, in alphabetical order. -/
inductive CheckKey
  | blockingFindings
  | category
  | details
  | durationSeconds
  | findings
  | name
  | reportPath
  | status
  deriving DecidableEq

/-- The keys of a report beside `checks`, in alphabetical order. -/
inductive ReportKey
  | baseSha
  | branch
  | changedLines
  | commitSha
  | coverage
  | coverageThreshold
  | coveredChangedLines
  | differentialCoverage
  | differentialThreshold
  | generatedAt
  | policyVersion
  | profile
  | repository
  | serviceName
  | toolVersions
  | workflowRunUrl
  deriving DecidableEq

def CheckKey.all : List CheckKey :=
  [.blockingFindings, .category, .details, .durationSeconds, .findings, .name, .reportPath, .status]

def CheckKey.text : CheckKey → String
  | .blockingFindings => "blocking_findings"
  | .category => "category"
  | .details => "details"
  | .durationSeconds => "duration_seconds"
  | .findings => "findings"
  | .name => "name"
  | .reportPath => "report_path"
  | .status => "status"

def ReportKey.all : List ReportKey :=
  [.baseSha, .branch, .changedLines, .commitSha, .coverage, .coverageThreshold, .coveredChangedLines,
    .differentialCoverage, .differentialThreshold, .generatedAt, .policyVersion, .profile, .repository,
    .serviceName, .toolVersions, .workflowRunUrl]

def ReportKey.text : ReportKey → String
  | .baseSha => "base_sha"
  | .branch => "branch"
  | .changedLines => "changed_lines"
  | .commitSha => "commit_sha"
  | .coverage => "coverage"
  | .coverageThreshold => "coverage_threshold"
  | .coveredChangedLines => "covered_changed_lines"
  | .differentialCoverage => "differential_coverage"
  | .differentialThreshold => "differential_threshold"
  | .generatedAt => "generated_at"
  | .policyVersion => "policy_version"
  | .profile => "profile"
  | .repository => "repository"
  | .serviceName => "service_name"
  | .toolVersions => "tool_versions"
  | .workflowRunUrl => "workflow_run_url"

structure Dict (κ F : Type) where
  get : κ → Option (Json F)
  others : List (Text × Json F)

/-- A check that is not a dict is `none`. -/
abbrev Item (F : Type) : Type := Option (Dict CheckKey F)

/-- The checks are `none` when they are missing or not a list. -/
structure RawReport (F : Type) where
  fields : Dict ReportKey F
  checks : Option (List (Item F))

def Dict.members {κ : Type} (d : Dict κ F) (keys : List κ) (name : κ → String) : List (Text × Text) :=
  keys.filterMap (fun k => (d.get k).map fun v => (text (name k), dumps num v)) ++ dumpsValues num d.others

def itemText : Item F → Text
  | none => text "null"
  | some check => object (check.members num CheckKey.all CheckKey.text)

def reportText (report : RawReport F) : Text :=
  object (report.fields.members num ReportKey.all ReportKey.text ++
    match report.checks with
    | none => []
    | some items => [(text "checks", array (items.map (itemText num)))])

/-- `value == s`. -/
def isText (value : Option (Json F)) (s : String) : Bool :=
  match value with
  | some (.str t) => t = text s
  | _ => false

def isFailed (item : Item F) : Bool :=
  match item with
  | some check => isText (check.get .status) "FAILED"
  | none => false

/-! ## Normalizing and hashing -/

/-- `float(value)`. -/
def toFloat : Json F → Option F
  | .bool b => num.ofInt (if b then 1 else 0)
  | .int n => num.ofInt n
  | .float x => some x
  | .str s => num.ofText s
  | _ => none

def isPercentage : ReportKey → Bool
  | .coverage | .coverageThreshold | .differentialCoverage | .differentialThreshold => true
  | _ => false

/-- A percentage as a float; null stays. -/
def percentage : Json F → Option (Json F)
  | .null => some .null
  | value => (toFloat num value).map .float

/-- The defaults of a report. -/
def reportDefault : ReportKey → Option (Json F)
  | .branch | .workflowRunUrl | .baseSha => some (.str [])
  | .policyVersion => some (.str (text "oss-v1"))
  | .coverage | .coverageThreshold | .differentialCoverage | .differentialThreshold => some .null
  | .changedLines | .coveredChangedLines => some .null
  | .toolVersions => some (.dict [])
  | _ => none

def checkDefault : CheckKey → Option (Json F)
  | .findings | .blockingFindings => some (.int 0)
  | .details | .reportPath => some (.str [])
  | _ => none

/-- The percentages are converted, and what is missing is filled in. -/
def normalizeFields (fields : Dict ReportKey F) : Except Raised (Dict ReportKey F) :=
  if ReportKey.all.all fun k => !isPercentage k || (fields.get k).all fun v => (percentage num v).isSome then
    .ok { fields with
      get := fun k =>
        ((fields.get k).bind fun v => if isPercentage k then percentage num v else some v).or
          (reportDefault k) }
  else .error (.other "float")

def normalizeCheck : Item F → Except Raised (Item F)
  | none => .error (.executor "Quality report contains an invalid check")
  | some check =>
    match toFloat num ((check.get .durationSeconds).getD (.float num.zero)) with
    | none => .error (.other "float")
    | some duration => .ok (some { check with
        get := fun k =>
          if k = .durationSeconds then some (.float duration) else (check.get k).or (checkDefault k) })

/-- `_normalize_report`. -/
def normalizeReport (report : RawReport F) : Except Raised (RawReport F) := do
  let fields ← normalizeFields num report.fields
  match report.checks with
  | none | some [] => .error (.executor "Quality report does not contain checks")
  | some (item :: items) => do
    let checks ← (item :: items).mapM (normalizeCheck num)
    .ok ⟨fields, some checks⟩

/-- `text.encode()`. -/
def encode (s : Text) : Except Raised Text :=
  if s.any fun c => 0xD800 ≤ c && c ≤ 0xDFFF then .error (.other "UnicodeEncodeError") else .ok s

/-- `_report_hash` of the engine, for a digest of the encoded text. -/
def engineHash (digest : Text → Text) (report : RawReport F) : Except Raised Text := do
  let normalized ← normalizeReport num report
  let encoded ← encode (reportText num normalized)
  .ok (digest encoded)

/-! ## The engine -/

structure Identity where
  executionId : Text
  fingerprint : Text
  serviceName : Text
  repository : Text
  headSha : Text
  baseSha : Text
  operation : Text
  profileHash : Text
  providerRunId : Text
  deriving DecidableEq

/-- An extra check of a profile. -/
structure Extra where
  name : Text
  category : Text
  blocking : Bool

structure Profile (F : Type) where
  runtime : Text
  coverageThreshold : Json F
  timeoutSeconds : F
  extra : List Extra
  containerSmoke : Bool

def shown : Json F → Text
  | .str s => s
  | value => num.shown value

/-- The fields that identify a report. -/
def expectedFields (identity : Identity) (profile : Profile F) : List (ReportKey × Text) :=
  [(.serviceName, identity.serviceName), (.repository, identity.repository),
    (.commitSha, identity.headSha), (.baseSha, identity.baseSha), (.policyVersion, text "oss-v2"),
    (.profile, profile.runtime)]

def ofCategory (category : String) (items : List (Item F)) : List (Dict CheckKey F) :=
  items.filterMap fun item => item.filter fun check => isText (check.get .category) category

/-- A mandatory result is recorded once, passed or failed, with as many findings. -/
def validateMandatory (profile : Profile F) (items : List (Item F)) (category : String) :
    Except Raised Unit :=
  match profile.extra.reverse.find? fun extra => extra.category = text category with
  | none =>
    if ofCategory category items ≠ [] then
      .error (.executor "Unexpected mandatory Smarti quality result")
    else .ok ()
  | some extra =>
    match ofCategory category items with
    | [check] =>
      let failed : Int := if isFailed (some check) then 1 else 0
      match check.get .name, check.get .findings, check.get .blockingFindings with
      | some (.str name), some (.int findings), some (.int blocking) =>
        if name ≠ extra.name ∨ ¬(isText (check.get .status) "PASSED" ∨ isFailed (some check)) ∨
            findings ≠ failed ∨ blocking ≠ failed then
          .error (.executor "Mandatory Smarti quality result is inconsistent")
        else .ok ()
      | _, _, _ => .error (.executor "Mandatory Smarti quality result is inconsistent")
    | _ => .error (.executor "Required Smarti quality result was not recorded once")

def validateSmoke (profile : Profile F) (items : List (Item F)) : Except Raised Unit :=
  let smoke := (ofCategory "container_smoke" items).length
  if profile.containerSmoke ∧ smoke ≠ 1 then
    .error (.executor "Required API container smoke was not recorded")
  else if ¬profile.containerSmoke ∧ smoke ≠ 0 then
    .error (.executor "Unexpected API container smoke result")
  else .ok ()

/-- `_validate_report`. -/
def validateReport (digest : Text → Text) (report : RawReport F) (identity : Identity)
    (profile : Profile F) : Except Raised Text := do
  let normalized ← normalizeReport num report
  if (expectedFields identity profile).any fun expected =>
      shown num ((normalized.fields.get expected.1).getD (.str [])) ≠ expected.2 then
    .error (.executor "Quality report identity does not match execution")
  else
    let items := normalized.checks.getD []
    validateMandatory profile items "smarti_ux"
    validateMandatory profile items "smarti_postgres"
    validateSmoke profile items
    engineHash num digest normalized

def checkOf (name category status : Text) (findings blocking : Int) (duration : F) (details : Text) :
    Dict CheckKey F where
  get
    | .name => some (.str name)
    | .category => some (.str category)
    | .status => some (.str status)
    | .findings => some (.int findings)
    | .blockingFindings => some (.int blocking)
    | .durationSeconds => some (.float duration)
    | .details => some (.str details)
    | .reportPath => some (.str [])
  others := []

/-- What became of an extra check's command: `tail` is the last line of its output. -/
structure Outcome (F : Type) where
  failed : Bool
  duration : F
  tail : Text

/-- `_extra_check`. -/
def extraCheck (extra : Extra) (outcome : Outcome F) : Dict CheckKey F :=
  let details := outcome.tail.take 500
  checkOf extra.name extra.category
    (text (if outcome.failed ∧ extra.blocking then "FAILED" else "PASSED"))
    (if outcome.failed then 1 else 0) (if outcome.failed ∧ extra.blocking then 1 else 0)
    outcome.duration
    (if outcome.failed ∧ ¬extra.blocking then (text "Advisory check failed: " ++ details).take 500
      else details)

/-- The JSON object in the file of the container smoke test. -/
structure External (F : Type) where
  schemaVersion : Option (Json F)
  check : Dict CheckKey F

/-- `value == 1`. -/
def isOne : Option (Json F) → Bool
  | some (.int n) => n = 1
  | some (.bool b) => b
  | some (.float x) => num.whole x = some 1
  | _ => false

/-- The value of an `isinstance(value, int)`; a boolean is one. -/
def asInteger : Option (Json F) → Option Int
  | some (.int n) => some n
  | some (.bool b) => some (if b then 1 else 0)
  | _ => none

/-- `_external_check`, of a file that is safe and holds JSON. -/
def externalCheck : Option (External F) → Except Raised (Dict CheckKey F)
  | none => .error (.executor "API container smoke result is invalid")
  | some value =>
    if value.schemaVersion.isNone ∨ (CheckKey.all.any fun k => (value.check.get k).isNone) ∨
        ¬value.check.others.isEmpty ∨ ¬isOne num value.schemaVersion ∨
        ¬isText (value.check.get .category) "container_smoke" ∨
        ¬(isText (value.check.get .status) "PASSED" ∨ isFailed (some value.check)) ∨
        (asInteger (value.check.get .findings)).isNone ∨
        asInteger (value.check.get .blockingFindings) ≠
          some (if isFailed (some value.check) then 1 else 0) then
      .error (.executor "API container smoke result is invalid")
    else .ok value.check

def integrityCheck (clean : Bool) : Dict CheckKey F :=
  checkOf (text "Source integrity") (text "identity") (text (if clean then "PASSED" else "FAILED"))
    (if clean then 0 else 1) (if clean then 0 else 1) num.zero
    (text (if clean then "Tracked source remained unchanged during quality."
      else "Quality commands modified tracked source files."))

/-- `_timeout_report`. -/
def timeoutReport (identity : Identity) (profile : Profile F) (now : Text) : RawReport F where
  fields :=
    { get := fun
        | .policyVersion => some (.str (text "oss-v2"))
        | .serviceName => some (.str identity.serviceName)
        | .repository => some (.str identity.repository)
        | .commitSha => some (.str identity.headSha)
        | .baseSha => some (.str identity.baseSha)
        | .branch => some (.str (text
            (if identity.operation = text "main_release" then "main" else "pull-request")))
        | .profile => some (.str profile.runtime)
        | .workflowRunUrl => some (.str [])
        | .generatedAt => some (.str now)
        | .coverage => some .null
        | .coverageThreshold => some profile.coverageThreshold
        | .differentialCoverage => some .null
        | .differentialThreshold => some (.float num.eighty)
        | .changedLines => some .null
        | .coveredChangedLines => some .null
        | .toolVersions => some (.dict [])
      others := [] }
  checks := some [some (checkOf (text "Quality execution deadline") (text "engine") (text "FAILED") 1 1
    profile.timeoutSeconds (text "Quality profile exceeded its server-owned deadline."))]

/-- The gate ran out of time, or ended with what is in its report's file. -/
inductive Gate (F : Type)
  | timedOut
  | ended (report : Option (RawReport F))

/-- What a run of the quality step is given. -/
structure Inputs (F : Type) where
  identity : Identity
  profile : Profile F
  gate : Gate F
  outcomes : Extra → Outcome F
  external : Except Raised (Option (External F))
  clean : Bool
  now : Text

def anyFailed (checks : Option (List (Item F))) : Bool := (checks.getD []).any isFailed

/-- The gate exits with 1 if one of its checks has failed, and is given 124 when it is killed. -/
def gateReturncode (gate : Gate F) : ℕ :=
  match gate with
  | .timedOut => 124
  | .ended report => if anyFailed (report.bind RawReport.checks) then 1 else 0

def gateReport (input : Inputs F) : Except Raised (RawReport F) :=
  match input.gate with
  | .timedOut => .ok (timeoutReport num input.identity input.profile input.now)
  | .ended (some report) => .ok report
  | .ended none => .error (.executor "Quality gate did not produce a valid report")

/-- The report with the checks that the engine adds. -/
def assembled (input : Inputs F) : Except Raised (RawReport F) := do
  let report ← gateReport num input
  match report.checks with
  | none => .error (.other "append")
  | some items => do
    let extras := input.profile.extra.map fun extra => some (extraCheck extra (input.outcomes extra))
    let smoke ← (if input.profile.containerSmoke then do
        let file ← input.external
        let check ← externalCheck num file
        .ok [some check]
      else .ok [] : Except Raised (List (Item F)))
    .ok { report with
      checks := some (items ++ extras ++ smoke ++ [some (integrityCheck num input.clean)]) }

def resultKind : Text := text "eng-platform-quality-result"

structure Manifest (F : Type) where
  schemaVersion : ℕ
  kind : Text
  identity : Identity
  status : String
  reportHash : Text
  report : RawReport F

/-- `_run_quality`, from the report on. -/
def runQuality (digest : Text → Text) (input : Inputs F) : Except Raised (Manifest F) := do
  let report ← assembled num input
  let reportHash ← validateReport num digest report input.identity input.profile
  let normalized ← normalizeReport num report
  let failed := gateReturncode input.gate ≠ 0 ∨ anyFailed report.checks
  .ok ⟨1, resultKind, input.identity, if failed then "quality_failed" else "quality_passed", reportHash,
    normalized⟩

/-- `_read_manifest`. -/
def readManifest (digest : Text → Text) (identity : Identity) (profile : Profile F)
    (manifest : Manifest F) : Except Raised (Manifest F × String) :=
  if manifest.schemaVersion ≠ 1 ∨ manifest.kind ≠ resultKind ∨
      { manifest.identity with providerRunId := identity.providerRunId } ≠ identity then
    .error (.executor "Quality result manifest identity mismatch")
  else if manifest.identity.providerRunId ≠ identity.providerRunId then
    .error (.executor "Quality result provider identity mismatch")
  else if manifest.status ≠ "quality_passed" ∧ manifest.status ≠ "quality_failed" then
    .error (.executor "Quality result status is invalid")
  else do
    let calculated ← validateReport num digest manifest.report identity profile
    if calculated ≠ manifest.reportHash then .error (.executor "Quality result hash mismatch")
    else if decide (manifest.status = "quality_failed") ≠ anyFailed manifest.report.checks then
      .error (.executor "Quality result status does not match its checks")
    else .ok (manifest, manifest.status)

/-! ## The API -/

inductive CheckStatus
  | passed
  | failed
  | skipped
  deriving DecidableEq

def CheckStatus.text : CheckStatus → String
  | .passed => "PASSED"
  | .failed => "FAILED"
  | .skipped => "SKIPPED"

structure QualityCheck (F : Type) where
  name : Text
  category : Text
  status : CheckStatus
  findings : Int
  blockingFindings : Int
  durationSeconds : F
  details : Text
  reportPath : Text

structure QualityReportCreate (F : Type) where
  serviceName : Text
  repository : Text
  commitSha : Text
  branch : Text
  profile : Text
  workflowRunUrl : Text
  generatedAt : Text
  coverage : Option F
  coverageThreshold : Option F
  policyVersion : Text
  baseSha : Text
  differentialCoverage : Option F
  differentialThreshold : Option F
  changedLines : Option Int
  coveredChangedLines : Option Int
  toolVersions : List (Text × Text)
  checks : List (QualityCheck F)

/-- A `str` field. -/
def strField (value : Option (Json F)) (default : Option Text) : Option Text :=
  match value with
  | none => default
  | some (.str s) => some s
  | _ => none

/-- What is taken for an `int`. -/
def intOf : Json F → Option Int
  | .int n => some n
  | .bool b => some (if b then 1 else 0)
  | .float x => num.whole x
  | .str s => num.parseInt s
  | _ => none

/-- What is taken for a `float`. -/
def floatOf : Json F → Option F
  | .float x => some x
  | .int n => num.ofInt n
  | .bool b => num.ofInt (if b then 1 else 0)
  | .str s => num.parse s
  | _ => none

/-- `float | None`, between 0 and 100. -/
def percentField (value : Option (Json F)) : Option (Option F) :=
  match value with
  | none | some .null => some none
  | some value => ((floatOf num value).filter fun x => num.percent x).map some

/-- `int | None`, not negative. -/
def countField (value : Option (Json F)) : Option (Option Int) :=
  match value with
  | none | some .null => some none
  | some value => ((intOf num value).filter fun n => 0 ≤ n).map some

def textMembers : List (Text × Json F) → Option (List (Text × Text))
  | [] => some []
  | (key, .str s) :: members => (textMembers members).map ((key, s) :: ·)
  | _ => none

/-- `dict[str, str]`. -/
def textsField (value : Option (Json F)) : Option (List (Text × Text)) :=
  match value with
  | none => some []
  | some (.dict members) => textMembers members
  | _ => none

def statusField (value : Option (Json F)) : Option CheckStatus :=
  [CheckStatus.passed, .failed, .skipped].find? fun status => isText value status.text

def isAlphanumeric (c : ℕ) : Bool := (48 ≤ c && c ≤ 57) || (97 ≤ c && c ≤ 122)

/-- `^[a-z0-9][a-z0-9-]*[a-z0-9]$`, of at most 128 characters. -/
def isServiceName (s : Text) : Bool :=
  2 ≤ s.length && s.length ≤ 128 && s.all (fun c => isAlphanumeric c || c = 45) &&
    s.head?.all isAlphanumeric && s.getLast?.all isAlphanumeric

/-- `^[0-9a-fA-F]+$`, of 7 to 64 characters. -/
def isCommit (s : Text) : Bool :=
  7 ≤ s.length && s.length ≤ 64 &&
    s.all fun c => (48 ≤ c && c ≤ 57) || (65 ≤ c && c ≤ 70) || (97 ≤ c && c ≤ 102)

def isProfile (s : Text) : Bool := ["python", "node", "go", "static"].any fun profile => s = text profile

/-- `QualityCheck.model_validate`. -/
def parseCheck (item : Item F) : Option (QualityCheck F) := do
  let check ← item
  if ¬check.others.isEmpty then none
  else
    let name ← strField (check.get .name) none
    let category ← strField (check.get .category) none
    let status ← statusField (check.get .status)
    let findings ← intOf num ((check.get .findings).getD (.int 0))
    let blocking ← intOf num ((check.get .blockingFindings).getD (.int 0))
    let duration ← floatOf num ((check.get .durationSeconds).getD (.float num.zero))
    let details ← strField (check.get .details) (some [])
    let reportPath ← strField (check.get .reportPath) (some [])
    some ⟨name, category, status, findings, blocking, duration, details, reportPath⟩

/-- `QualityReportCreate.model_validate`. -/
def parseReport (report : RawReport F) : Option (QualityReportCreate F) := do
  let get := report.fields.get
  if ¬report.fields.others.isEmpty then none
  else
    let serviceName ← (strField (get .serviceName) none).filter isServiceName
    let repository ← (strField (get .repository) none).filter fun s => 1 ≤ s.length && s.length ≤ 256
    let commitSha ← (strField (get .commitSha) none).filter isCommit
    let branch ← strField (get .branch) (some [])
    let profile ← (strField (get .profile) none).filter isProfile
    let workflowRunUrl ← strField (get .workflowRunUrl) (some [])
    let generatedAt ← strField (get .generatedAt) none
    let coverage ← percentField num (get .coverage)
    let coverageThreshold ← percentField num (get .coverageThreshold)
    let policyVersion ← strField (get .policyVersion) (some (text "oss-v1"))
    let baseSha ← strField (get .baseSha) (some [])
    let differentialCoverage ← percentField num (get .differentialCoverage)
    let differentialThreshold ← percentField num (get .differentialThreshold)
    let changedLines ← countField num (get .changedLines)
    let coveredChangedLines ← countField num (get .coveredChangedLines)
    let toolVersions ← textsField (get .toolVersions)
    let items ← report.checks
    let checks ← items.mapM (parseCheck num)
    if checks = [] then none
    else
      some ⟨serviceName, repository, commitSha, branch, profile, workflowRunUrl, generatedAt, coverage,
        coverageThreshold, policyVersion, baseSha, differentialCoverage, differentialThreshold,
        changedLines, coveredChangedLines, toolVersions, checks⟩

def orNull {α : Type} (f : α → Json F) : Option α → Json F
  | none => .null
  | some a => f a

def dumpCheck (check : QualityCheck F) : Dict CheckKey F where
  get k := some <| match k with
    | .name => .str check.name
    | .category => .str check.category
    | .status => .str (text check.status.text)
    | .findings => .int check.findings
    | .blockingFindings => .int check.blockingFindings
    | .durationSeconds => .float check.durationSeconds
    | .details => .str check.details
    | .reportPath => .str check.reportPath
  others := []

/-- `payload.model_dump(mode="json")`. -/
def modelDump (payload : QualityReportCreate F) : RawReport F where
  fields :=
    { get := fun k => some <| match k with
        | .serviceName => .str payload.serviceName
        | .repository => .str payload.repository
        | .commitSha => .str payload.commitSha
        | .branch => .str payload.branch
        | .profile => .str payload.profile
        | .workflowRunUrl => .str payload.workflowRunUrl
        | .generatedAt => .str payload.generatedAt
        | .coverage => orNull .float payload.coverage
        | .coverageThreshold => orNull .float payload.coverageThreshold
        | .policyVersion => .str payload.policyVersion
        | .baseSha => .str payload.baseSha
        | .differentialCoverage => orNull .float payload.differentialCoverage
        | .differentialThreshold => orNull .float payload.differentialThreshold
        | .changedLines => orNull .int payload.changedLines
        | .coveredChangedLines => orNull .int payload.coveredChangedLines
        | .toolVersions => .dict (payload.toolVersions.map fun m => (m.1, .str m.2))
      others := [] }
  checks := some (payload.checks.map fun check => some (dumpCheck check))

/-- `_report_hash` of the API. -/
def apiHash (digest : Text → Text) (payload : QualityReportCreate F) : Except Raised Text := do
  let encoded ← encode (reportText num (modelDump payload))
  .ok (digest encoded)

/-- A catalog service, as far as the policy reads it. -/
structure CatalogService where
  managed : Bool
  repository : Option Text
  profile : Text

/-- What the policy asks besides the checks: that the repositories are the same, what the timestamp
says, and what the coverage. -/
structure Policy (F : Type) where
  sameRepository : Text → Text → Bool
  timestampErrors : Text → List String
  coverageErrors : QualityReportCreate F → CatalogService → List String

def requiredCategories (profile : Text) : List String :=
  let all := ["setup", "tests", "lint", "typecheck", "sast", "dependencies", "secrets",
    "misconfiguration"] ++
      if profile = text "go" then ["format", "build"]
      else if profile = text "python" then ["format"]
      else ["build"]
  if profile = text "static" then all.filter fun c => c ≠ "tests" ∧ c ≠ "typecheck" else all

def isFullCommit (s : Text) : Bool :=
  s.length = 40 && s.all fun c => (48 ≤ c && c ≤ 57) || (97 ≤ c && c ≤ 102)

/-- `policy_errors`. -/
def policyErrors (policy : Policy F) (report : QualityReportCreate F) : Option CatalogService → List String
  | none => ["Unknown catalog service"]
  | some service =>
    match service.managed, service.repository with
    | true, some repository =>
      (if ¬policy.sameRepository report.repository repository ∨ report.profile ≠ service.profile then
        ["Repository or profile does not match the catalog"] else []) ++
      (if report.policyVersion ≠ text "oss-v2" then ["Release requires oss-v2 evidence"] else []) ++
      (if ¬isFullCommit report.commitSha then ["Release requires a full commit SHA"] else []) ++
      (if ¬isFullCommit report.baseSha ∨ report.baseSha = report.commitSha then
        ["Missing or invalid comparison base"] else []) ++
      policy.timestampErrors report.generatedAt ++
      (if ¬(report.checks.map QualityCheck.category).Nodup then ["Duplicate check categories"] else []) ++
      ((requiredCategories report.profile).filter fun category =>
        match report.checks.reverse.find? fun check => check.category = text category with
        | some check => check.status ≠ .passed
        | none => true).map (fun category => "Required check not passed: " ++ category) ++
      (if report.checks.any fun check => check.status = .failed || 0 < check.blockingFindings then
        ["Blocking findings or failed checks"] else []) ++
      policy.coverageErrors report service
    | _, _ => ["Observation-only resource is not eligible for release quality"]

inductive GateStatus
  | passed
  | failed
  deriving DecidableEq

/-- `_status`, with what the catalog has for the service; `below` is that a coverage is under its
threshold. -/
def apiStatus (policy : Policy F) (below : F → F → Bool) (catalog : Option CatalogService)
    (payload : QualityReportCreate F) : GateStatus :=
  if payload.policyVersion ≠ text "oss-v1" then
    if policyErrors policy payload catalog ≠ [] then .failed else .passed
  else
    let coverageFailed : Bool := match payload.coverage, payload.coverageThreshold with
      | some coverage, some threshold => below coverage threshold
      | _, _ => false
    if coverageFailed ∨ payload.checks.any fun check => check.status = .failed then .failed else .passed

end Seal
