import EngPlatform.Circuit.Record
import EngPlatform.Lib.Prog

/-!
# The operations on a circuit

Every operation writes the document in one transaction, given here as a function of the document it
reads. Only `record_probe` reads the document before, in a request of its own.
-/

set_option linter.dupNamespace false

namespace Circuit

/-- The hashes of an idempotency key, and of a request: its repository, workflow, requester in
lower case, and reason. -/
structure Hashes where
  key : String → String
  request : String → String → String → String → String

/-- What a transaction returns: the circuit with a flag, the circuit a former request is remembered
by, a granted lease, a grant, or nothing. -/
inductive Reply
  | circuit (circuit : Document) (created : Bool)
  | previous (circuit : Snapshot)
  | lease (token : Option String)
  | granted (granted : Bool)
  | done
  deriving DecidableEq

/-- The document after a transaction and what it returns, or what it raises. -/
abbrev Outcome : Type := Except Err (Option Document × Reply)

def take (n : ℕ) (s : String) : String := String.ofList (s.toList.take n)

/-- The code points that `str.strip` strips. -/
def isSpace (c : Char) : Bool :=
  let n := c.toNat
  (9 ≤ n ∧ n ≤ 13) ∨ (28 ≤ n ∧ n ≤ 32) ∨ n = 0x85 ∨ n = 0xa0 ∨ n = 0x1680 ∨
    (0x2000 ≤ n ∧ n ≤ 0x200a) ∨ n = 0x2028 ∨ n = 0x2029 ∨ n = 0x202f ∨ n = 0x205f ∨ n = 0x3000

/-- `not s.strip()`. -/
def isBlank (s : String) : Bool := s.toList.all isSpace

def modePropagationLeaseSeconds : ℚ := 300

def modePropagationRetrySeconds : ℚ := 60

def modePropagationRefreshSeconds : ℚ := 600

def probeRequestLimit : ℕ := 128

/-- `open_circuit`. -/
def openCircuit (stored : Option Document) (owner reason repository runId evidence now : String) :
    Outcome :=
  let value : Document :=
    { blank owner now with
      state := .opened
      reason := take 256 reason
      repository := repository
      runId := runId
      evidence := take 1000 evidence
      openedAt := now }
  match stored with
  | none => .ok (some value, .circuit value true)
  | some current =>
    if current.state = .opened then .ok (stored, .circuit current false)
    else
      let value := { value with probeRequests := current.probeRequests }
      .ok (some value, .circuit value true)

/-- `mode_propagation_due`. -/
def modePropagationDue (circuit : Document) (now : ℚ) : Bool :=
  if circuit.state ≠ .opened then false
  else
    match circuit.modePropagation with
    | none => true
    | some propagation =>
      match propagation.retryAfter with
      | none => true
      | some retryAfter => ¬(now < retryAfter ∧ retryAfter ≤
          now + modePropagationRefreshSeconds + modePropagationLeaseSeconds)

/-- `claim_mode_propagation`. -/
def claimModePropagation (stored : Option Document) (token : String) (now : ℚ) : Outcome :=
  match stored with
  | none => .ok (none, .lease none)
  | some current =>
    if modePropagationDue current now then
      .ok (some { current with
        modePropagation := some ⟨token, some (now + modePropagationLeaseSeconds)⟩ },
        .lease (some token))
    else .ok (stored, .lease none)

/-- `finish_mode_propagation`. -/
def finishModePropagation (stored : Option Document) (token : String) (succeeded : Bool)
    (now : ℚ) : Outcome :=
  let interval :=
    if succeeded then modePropagationRefreshSeconds else modePropagationRetrySeconds
  match stored with
  | none => .ok (none, .done)
  | some current =>
    if current.state = .opened ∧ current.modePropagation.any (·.token = token) then
      .ok (some { current with modePropagation := some ⟨"", some (now + interval)⟩ }, .done)
    else .ok (stored, .done)

/-- `reserve_probe`. -/
def reserveProbe (hashes : Hashes) (stored : Option Document)
    (repository workflow requestedBy reason idempotencyKey nonce now : String) : Outcome :=
  if isBlank reason ∨ reason.length > 500 then
    .error (.conflict "reason must contain 1 to 500 characters")
  else if isBlank idempotencyKey ∨ idempotencyKey.length > 128 then
    .error (.conflict "idempotency_key must contain 1 to 128 characters")
  else
    let key := hashes.key idempotencyKey
    let fingerprint := hashes.request repository workflow requestedBy reason
    let probe : Probe :=
      { status := .requested
        dispatchStatus := .reserved
        nonce := nonce
        repository := repository
        workflow := workflow
        requestedBy := requestedBy
        requestedAt := now
        requestKey := key
        runId := none
        conclusion := none
        jobsStarted := none
        completedAt := none }
    match stored with
    | none => .error (.conflict "GitHub Actions circuit is not open")
    | some current =>
      match current.probeRequests.lookup key with
      | some previous =>
        if previous.fingerprint ≠ fingerprint then
          .error (.conflict "idempotency_key is already bound to another request")
        else
          match previous.circuit with
          | some circuit => .ok (stored, .previous circuit)
          | none => .error .key
      | none =>
        if current.state ≠ .opened then
          .error (.conflict "GitHub Actions circuit is not open")
        else if current.probe.any (·.status = .requested) then
          .error (.conflict "A health probe is already pending; verify its outcome first")
        else if current.probeRequests.keys.length ≥ probeRequestLimit then
          .error (.conflict
            "Health probe request history is full; operator review is required")
        else
          let current := { current with
            probe := some probe
            updatedAt := now
            probeRequests := current.probeRequests.insert key ⟨fingerprint, none⟩ }
          let current := { current with probeRequests := probeHistory current }
          .ok (some current, .circuit current true)

/-- `finish_probe_dispatch`. -/
def finishProbeDispatch (stored : Option Document) (nonce : String) (dispatchStatus : Dispatch)
    (now : String) : Outcome :=
  if dispatchStatus ∉ ([.dispatched, .uncertain, .notDispatched] : List Dispatch) then
    .error (.value "Invalid health probe dispatch status")
  else
    match stored with
    | none => .error (.value "Health probe reservation changed")
    | some current =>
      match current.probe with
      | none => .error (.value "Health probe reservation changed")
      | some probe =>
        if probe.nonce ≠ nonce then .error (.value "Health probe reservation changed")
        else
          let current := { current with
            probe := some { probe with
              dispatchStatus := dispatchStatus
              status :=
                if dispatchStatus = Dispatch.notDispatched ∧ probe.status = ProbeStatus.requested then
                  .cancelled
                else probe.status }
            updatedAt := now }
          let current := { current with probeRequests := probeHistory current }
          .ok (some current, .circuit current true)

/-- The transaction of `record_probe`, with the probe it read before. -/
def verifyProbe (stored : Option Document) (requested : Probe)
    (repository workflow runId conclusion : String) (jobsStarted : ℤ) (now : String) : Outcome :=
  match stored with
  | none => .error (.value "GitHub Actions circuit does not exist")
  | some current =>
    match current.probe with
    | none => .error (.value "Health probe does not match a requested open-circuit probe")
    | some expected =>
      if current.state ≠ .opened ∨ expected.status ≠ .requested ∨
          expected.repository ≠ repository ∨ expected.workflow ≠ workflow ∨
          expected.nonce ≠ requested.nonce then
        .error (.value "Health probe does not match a requested open-circuit probe")
      else
        let current := { current with
          probe := some { requested with
            status := .verified
            repository := repository
            workflow := workflow
            runId := some runId
            conclusion := some conclusion
            jobsStarted := some jobsStarted
            completedAt := some now
            dispatchStatus := expected.dispatchStatus }
          updatedAt := now }
        let current := { current with probeRequests := probeHistory current }
        .ok (some current, .circuit current true)

/-- The probe used a runner and succeeded in the given run. -/
def Probe.succeeded (probe : Probe) (runId : String) : Bool :=
  probe.status = .verified ∧ probe.runId.getD "None" = runId ∧ probe.conclusion = some "success" ∧
    1 ≤ probe.jobsStarted.getD 0

/-- `close_after_successful_probe`. -/
def closeAfterSuccessfulProbe (stored : Option Document) (runId now : String) : Outcome :=
  match stored with
  | none => .error (.value "GitHub Actions circuit does not exist")
  | some current =>
    if current.state ≠ .opened ∨ ¬current.probe.any (·.succeeded runId) then
      .error (.value "A successful started health probe is required")
    else
      let current := { current with
        state := .closed
        closedAt := now
        updatedAt := now
        closeReason := "successful_health_probe" }
      let current := { current with probeRequests := probeHistory current }
      .ok (some current, .circuit current true)

/-- `f"{month}:{threshold}"`. -/
def alertMarker (month : String) (threshold : ℤ) : String := month ++ ":" ++ toString threshold

/-- `claim_usage_alert`. -/
def claimUsageAlert (stored : Option Document) (owner month : String) (threshold : ℤ)
    (observedMinutes : ℚ) (now : String) : Outcome :=
  let marker := alertMarker month threshold
  let current := get owner stored
  if marker ∈ current.usageAlerts then .ok (stored, .granted false)
  else
    .ok (some { current with
      owner := owner
      usageAlerts := current.usageAlerts.insert marker ⟨threshold, observedMinutes, now⟩
      updatedAt := now }, .granted true)

/-- The transactions, each with the arguments of its operation and the time it was made at. -/
inductive Tx
  | openCircuit (owner reason repository runId evidence now : String)
  | claimModePropagation (token : String) (now : ℚ)
  | finishModePropagation (token : String) (succeeded : Bool) (now : ℚ)
  | reserveProbe (repository workflow requestedBy reason idempotencyKey nonce now : String)
  | finishProbeDispatch (nonce : String) (dispatchStatus : Dispatch) (now : String)
  | verifyProbe (requested : Probe) (repository workflow runId conclusion : String)
    (jobsStarted : ℤ) (now : String)
  | closeAfterSuccessfulProbe (runId now : String)
  | claimUsageAlert (owner month : String) (threshold : ℤ) (observedMinutes : ℚ) (now : String)
  deriving DecidableEq

def Tx.run (hashes : Hashes) (stored : Option Document) : Tx → Outcome
  | .openCircuit owner reason repository runId evidence now =>
    Circuit.openCircuit stored owner reason repository runId evidence now
  | .claimModePropagation token now => Circuit.claimModePropagation stored token now
  | .finishModePropagation token succeeded now =>
    Circuit.finishModePropagation stored token succeeded now
  | .reserveProbe repository workflow requestedBy reason idempotencyKey nonce now =>
    Circuit.reserveProbe hashes stored repository workflow requestedBy reason idempotencyKey
      nonce now
  | .finishProbeDispatch nonce dispatchStatus now =>
    Circuit.finishProbeDispatch stored nonce dispatchStatus now
  | .verifyProbe requested repository workflow runId conclusion jobsStarted now =>
    Circuit.verifyProbe stored requested repository workflow runId conclusion jobsStarted now
  | .closeAfterSuccessfulProbe runId now => Circuit.closeAfterSuccessfulProbe stored runId now
  | .claimUsageAlert owner month threshold observedMinutes now =>
    Circuit.claimUsageAlert stored owner month threshold observedMinutes now

end Circuit
