import EngPlatform.Lib.Cas
import Mathlib.Algebra.Order.Ring.Int
import Mathlib.Data.Int.ConditionallyCompleteOrder
import Mathlib.Order.ConditionallyCompleteLattice.Basic

/-!
# The log budget's record and its two transforms

One document per quota project holds the permits still charged, the queue of waiting participants
and the earliest time of the next grant. `record` validates it as read and drops what has expired,
`acquire` is what `reserve` makes of it and `complete` what `finish` does; both run by
compare-and-swap.

Times are the server's, in microseconds. A document has the six keys of the schema and its values their types, so
of the shape checks only those on the values are left.
-/

set_option linter.dupNamespace false

namespace LogBudget

/-- `timedelta(seconds=n)`. -/
def seconds (n : ℤ) : ℤ := n * 1000000

def cadenceSeconds : ℤ := 5
def maxAttempts : ℕ := 12
def maxCasAttempts : ℕ := 3
def maxWaiters : ℕ := 4096
def maxQueuePollSeconds : ℤ := 10
def waiterGraceSeconds : ℤ := 25
def waiterTtlSeconds : ℤ := maxQueuePollSeconds + waiterGraceSeconds
def schemaVersion : ℤ := 3

structure Permit where
  token : String
  participant : String
  reservedAt : ℤ
  completedAt : Option ℤ
  deriving DecidableEq, Repr

structure Waiter where
  participant : String
  enqueuedAt : ℤ
  lastSeenAt : ℤ
  deriving DecidableEq, Repr

structure Document where
  schemaVersion : ℤ
  quotaProjectId : String
  attempts : List Permit
  waiters : List Waiter
  nextDue : ℤ
  updatedAt : ℤ
  deriving DecidableEq, Repr

inductive Err
  | runtime (message : String)
  | value (message : String)
  | timeout (message : String)
  | rpc
  deriving DecidableEq, Repr

/-- `fullmatch` of `[0-9a-f]{n}`. -/
def isHex (n : ℕ) (s : String) : Bool :=
  s.length == n && s.toList.all fun c => c.isDigit || ('a' ≤ c && c ≤ 'f')

def isParticipant (s : String) : Bool := isHex 64 s

def isToken (s : String) : Bool := isHex 32 s

/-- `_participant`. -/
def checkParticipant (value : String) : Except Err Unit :=
  if isParticipant value then .ok () else .error (.value "Invalid log budget participant")

/-- `_timestamp` with a `now`. -/
def timestamp (value now : ℤ) : Except Err ℤ :=
  if value > now then .error (.runtime "Invalid log budget timestamp") else .ok value

/-- A completion that has been charged for its 60 seconds. -/
def settled (now : ℤ) : Option ℤ → Bool
  | none => false
  | some completed => completed ≤ now - seconds 60

/-- One round of `_record`'s loop over the permits: the tokens and pending participants seen. -/
def checkPermit (now : ℤ) (seenTokens pending : List String) (value : Permit) :
    Except Err (List String) := do
  if !isToken value.token || value.token ∈ seenTokens || !isParticipant value.participant then
    .error (.runtime "Invalid log budget identity")
  let reserved ← timestamp value.reservedAt now
  match value.completedAt with
  | none =>
    if value.participant ∈ pending then
      .error (.runtime "Duplicate pending log budget participant")
    else .ok (value.participant :: pending)
  | some completed => do
    let completed ← timestamp completed now
    if completed < reserved then .error (.runtime "Invalid log budget completion")
    else .ok pending

/-- The permits that are still charged, and the participants that have a pending one. -/
def scanAttempts (now : ℤ) :
    List String → List String → List Permit → Except Err (List Permit × List String)
  | _, pending, [] => .ok ([], pending)
  | seenTokens, pending, value :: rest => do
    let pending ← checkPermit now seenTokens pending value
    let (attempts, pending) ← scanAttempts now (value.token :: seenTokens) pending rest
    .ok (if settled now value.completedAt then attempts else value :: attempts, pending)

/-- One round of `_record`'s loop over the queue. -/
def checkWaiter (now : ℤ) (pending seenWaiters : List String) (previousEnqueued : Option ℤ)
    (value : Waiter) : Except Err Unit := do
  if !isParticipant value.participant || value.participant ∈ seenWaiters ||
      value.participant ∈ pending then
    .error (.runtime "Invalid log budget waiter identity")
  let enqueued ← timestamp value.enqueuedAt now
  let lastSeen ← timestamp value.lastSeenAt now
  if enqueued > lastSeen || previousEnqueued.any (enqueued < ·) then
    .error (.runtime "Invalid log budget waiter order")

/-- A waiter seen within `WAITER_TTL_SECONDS`. -/
def live (now : ℤ) (w : Waiter) : Bool := w.lastSeenAt ≥ now - seconds waiterTtlSeconds

/-- The live part of the queue. -/
def scanWaiters (now : ℤ) (pending : List String) :
    List String → Option ℤ → List Waiter → Except Err (List Waiter)
  | _, _, [] => .ok []
  | seenWaiters, previousEnqueued, value :: rest => do
    checkWaiter now pending seenWaiters previousEnqueued value
    let waiters ←
      scanWaiters now pending (value.participant :: seenWaiters) (some value.enqueuedAt) rest
    .ok (if live now value then value :: waiters else waiters)

/-- What a transform is given: the document as read, and what of it still counts. -/
structure View where
  record : Document
  attempts : List Permit
  waiters : List Waiter
  deriving DecidableEq, Repr

/-- The document a quota project starts from. -/
def fresh (quotaProject : String) (now : ℤ) : Document :=
  ⟨LogBudget.schemaVersion, quotaProject, [], [], now, now⟩

/-- `_record`. -/
def record (quotaProject : String) (now : ℤ) : Option Document → Except Err View
  | none => .ok ⟨fresh quotaProject now, [], []⟩
  | some doc => do
    if doc.schemaVersion ≠ LogBudget.schemaVersion || doc.quotaProjectId ≠ quotaProject then
      .error (.runtime "Incompatible log budget record")
    let _ ← timestamp doc.updatedAt now
    if doc.attempts.length > maxAttempts || doc.waiters.length > maxWaiters then
      .error (.runtime "Invalid log budget record")
    let (attempts, pending) ← scanAttempts now [] [] doc.attempts
    let waiters ← scanWaiters now pending [] none doc.waiters
    .ok ⟨doc, attempts, waiters⟩

inductive LogDeferralReason
  | pending
  | overload
  | budget
  | queue
  | cadence
  deriving DecidableEq, Repr

structure Reservation where
  allowed : Bool
  serverTime : ℤ
  nextPollSeconds : ℤ := cadenceSeconds
  token : String := ""
  queuePosition : Option ℕ := none
  queueWaitSeconds : Option ℤ := none
  overloaded : Bool := false
  deferralReason : Option LogDeferralReason := none
  deriving DecidableEq, Repr

/-- `math.ceil(d.total_seconds())`. -/
def ceilSeconds (d : ℤ) : ℤ := -(-d / 1000000)

/-- When the first of a full set of permits could stop being charged. -/
def available (now : ℤ) (attempts : List Permit) : Option ℤ :=
  (attempts.map fun item => item.completedAt.getD now + seconds 60).min?

/-- `_wait_seconds`. -/
def waitSeconds (now : ℤ) (record : Document) (attempts : List Permit) (position : ℕ) : ℤ :=
  let due :=
    if attempts.length ≥ maxAttempts then
      max record.nextDue ((available now attempts).getD record.nextDue)
    else record.nextDue
  max 0 (ceilSeconds (due - now)) + (position - 1) * cadenceSeconds

/-- The permit is this participant's and not completed. -/
def Permit.pendingOf (item : Permit) (participant : String) : Bool :=
  item.participant == participant && item.completedAt == none

/-- The queue with this participant in it as of `now`, and where. -/
def enqueue (participant : String) (now : ℤ) (waiters : List Waiter) :
    Option (List Waiter × ℕ) :=
  match waiters.findIdx? fun item => item.participant == participant with
  | none =>
    if waiters.length ≥ maxWaiters then none
    else some (waiters ++ [⟨participant, now, now⟩], waiters.length)
  | some index => some (waiters.modify index fun w => { w with lastSeenAt := now }, index)

/-- `reserve`'s transform: a permit if it is this caller's turn, else its place in the queue. -/
def acquire (participant token : String) (now : ℤ) (v : View) :
    Except Err (Reservation × Option Document) :=
  if v.attempts.any fun item => item.pendingOf participant then
    .ok ({ allowed := false, serverTime := now, nextPollSeconds := 60,
           deferralReason := some .pending }, none)
  else
    match enqueue participant now v.waiters with
    | none =>
      .ok ({ allowed := false, serverTime := now, nextPollSeconds := 60, overloaded := true,
             deferralReason := some .overload }, none)
    | some (waiters, index) =>
      let replacement : Document :=
        { v.record with attempts := v.attempts, waiters := waiters, updatedAt := now }
      if index = 0 ∧ now ≥ v.record.nextDue ∧ v.attempts.length < maxAttempts then
        .ok ({ allowed := true, serverTime := now, token := token },
          some { replacement with
            waiters := waiters.drop 1
            attempts := v.attempts ++ [⟨token, participant, now, none⟩]
            nextDue := now + seconds cadenceSeconds })
      else
        let wait := waitSeconds now v.record v.attempts (index + 1)
        .ok ({ allowed := false, serverTime := now,
               nextPollSeconds := max cadenceSeconds (min maxQueuePollSeconds wait),
               queuePosition := some (index + 1), queueWaitSeconds := some wait,
               deferralReason := some
                 (if v.attempts.length ≥ maxAttempts then .budget
                  else if index > 0 then .queue else .cadence) },
          if replacement ≠ v.record then some replacement else none)

/-- From a missing document the caller's turn comes at once. -/
example : (acquire "a" "t" 0 ⟨fresh "p" 0, [], []⟩).toOption.map Prod.fst =
    some { allowed := true, serverTime := 0, token := "t" } := by decide

/-- The permits with the one of this token completed. -/
def markCompleted (token : String) (now : ℤ) (attempts : List Permit) : List Permit :=
  attempts.modify (attempts.findIdx fun item => item.token == token)
    fun item => { item with completedAt := some now }

/-- `finish`'s transform: the owner's permit is charged until 60 seconds after `now`. -/
def complete (participant token : String) (now : ℤ) (v : View) :
    Except Err (Unit × Option Document) :=
  match v.attempts.find? fun item => item.token == token with
  | none => .error (.runtime "Log reservation is missing")
  | some permit =>
    if permit.participant ≠ participant then .error (.runtime "Log reservation is missing")
    else if permit.completedAt ≠ none then .ok ((), none)
    else
      .ok ((), some { v.record with
        attempts := markCompleted token now v.attempts
        waiters := v.waiters
        updatedAt := now })

/-- What ends a call outside of `record` and its transform. -/
def fault : Cas.Fault → Err
  | .deadline => .timeout "Runtime log deadline expired"
  | .unavailable => .rpc
  | .contended => .runtime "Log budget is contended"

/-- A call of the module, with the token `uuid4` gives a reservation. -/
inductive Call
  | reserve (participant token : String)
  | finish (participant token : String)
  deriving DecidableEq, Repr

inductive Result
  | reservation (r : Reservation)
  | finished
  deriving DecidableEq, Repr

/-- The checks on a call's arguments. -/
def Call.check : Call → Except Err Unit
  | .reserve participant _ => checkParticipant participant
  | .finish participant token => do
    checkParticipant participant
    if !isToken token then .error (.value "Invalid log budget token")

/-- What a call makes of the document it has read. -/
def Call.transform (quotaProject : String) (c : Call) (now : ℤ) (doc : Option Document) :
    Except Err (Result × Option Document) := do
  let v ← record quotaProject now doc
  match c with
  | .reserve participant token => do
    let (r, replacement) ← acquire participant token now v
    .ok (.reservation r, replacement)
  | .finish participant token => do
    let (_, replacement) ← complete participant token now v
    .ok (.finished, replacement)

/-- `reserve` and `finish`: the arguments are checked, then the transform runs. -/
def Call.run (quotaProject : String) (c : Call) :
    Interleave.Prog (Cas.Answer ℤ Document) Err Result := do
  Interleave.Prog.lift c.check
  Cas.compareAndSwap fault maxCasAttempts (c.transform quotaProject)

end LogBudget
