import Mathlib.Data.List.Basic

/-!
# The record of a release execution

A release execution is one document that every part of the release service reads and updates field
by field. A field that was never written reads as the falsy value of its type, which is how the
source reads a missing key. An update is a list of changes, the last one of a field counting.
-/

set_option linter.dupNamespace false

namespace Release

/-- A release status. `blank` is the empty text, `other` a text outside the list. -/
inductive Status
  | received
  | waitingGithub
  | submissionPending
  | submitting
  | submissionFailed
  | runningQuality
  | qualityPassed
  | qualityFailed
  | releasePlanned
  | publishPending
  | noRelease
  | released
  | superseded
  | failed
  | unknown
  | blank
  | other (text : String)
  deriving DecidableEq, Repr

instance : LawfulBEq Status := inferInstance

inductive Operation
  | prQuality
  | mainRelease
  deriving DecidableEq, Repr

inductive Provider
  | githubActions
  | cloudBuild
  deriving DecidableEq, Repr

inductive ReleaseType
  | patch
  | minor
  | major
  | none
  deriving DecidableEq, Repr

/-- `ReleasePlan`. -/
structure Plan where
  nextVersion : String
  gitTag : String
  releaseType : ReleaseType
  notes : String
  configHash : String
  deriving DecidableEq, Repr

/-- The reserved provider selection; a locked one may not change. -/
structure Selection where
  effective : String
  locked : Bool
  deriving DecidableEq, Repr

/-- The types of the record's fields. -/
inductive Ty
  | text
  | flag
  | count
  | texts
  | status
  | operation
  | provider
  | plan
  | selection
  deriving DecidableEq

@[reducible] def Ty.Val : Ty → Type
  | .text => String
  | .flag => Bool
  | .count => ℕ
  | .texts => List String
  | .status => Status
  | .operation => Operation
  | .provider => Provider
  | .plan => Option Plan
  | .selection => Option Selection

/-- How a field reads that was never written. -/
def Ty.blank : (t : Ty) → t.Val
  | .text => ""
  | .flag => false
  | .count => (0 : ℕ)
  | .texts => ([] : List String)
  | .status => Status.blank
  | .operation => Operation.prQuality
  | .provider => Provider.githubActions
  | .plan => (none : Option Plan)
  | .selection => (none : Option Selection)

inductive Field
  | executionId
  | fingerprint
  | repository
  | serviceName
  | operation
  | headSha
  | baseSha
  | profileHash
  | executorDigest
  | policyHash
  | plannerHash
  | provider
  | status
  | providerSelection
  | triggerEvent
  | createdAt
  | updatedAt
  | ticketId
  | bootstrapTicketId
  | bootstrapNonce
  | bootstrapDispatchTokenHash
  | bootstrapDispatchStarted
  | bootstrapDispatchStartedAt
  | bootstrapBuildRequestHash
  | bootstrapBuildVerified
  | bootstrapVerifiedRequestHash
  | buildId
  | providerRunId
  | githubRunId
  | buildName
  | logsUrl
  | providerStatus
  | pullRequestNumber
  | repositoryId
  | previousBuildIds
  | sourceTokenIssuedAt
  | sourceTokenBuildId
  | sourceTokenProviderRunId
  | eventTokenHash
  | eventTokenIssuedAt
  | eventTokenBuildId
  | eventTokenProviderRunId
  | eventAdmittedAt
  | eventSequence
  | engineEventStatus
  | pendingReportHash
  | reportHash
  | evidenceCommitted
  | releasePlan
  | providerTerminalSuccess
  | releaseEngineFailed
  | releaseError
  | error
  | plannerRetryCount
  | plannerRetryChecked
  | plannerRetryPending
  | plannerRetryImage
  | plannerRetryPreviousBuildId
  | plannerRetryRequestedAt
  | plannerRetryCompletedAt
  | plannerRemediationRetryChecked
  | plannerRemediationRetryPending
  | plannerRemediationRetryPreviousBuildId
  | plannerRemediationRetryImage
  | plannerRemediationRetryHash
  | plannerContractRetryChecked
  | plannerContractRetryPending
  | plannerContractRetryPreviousBuildId
  | plannerContractRetryImage
  | plannerContractRetryHash
  | uncertainSince
  | reconciliationAttempts
  | publishClaimedAt
  | publicationUncertain
  | canaryApproved
  | checkIds
  | extra (name : String)
  deriving DecidableEq, Repr

@[reducible] def Field.ty : Field → Ty
  | .operation => .operation
  | .provider => .provider
  | .status => .status
  | .providerSelection => .selection
  | .releasePlan => .plan
  | .previousBuildIds | .checkIds => .texts
  | .eventSequence | .plannerRetryCount | .reconciliationAttempts | .pullRequestNumber => .count
  | .bootstrapDispatchStarted | .bootstrapBuildVerified | .evidenceCommitted
  | .providerTerminalSuccess | .releaseEngineFailed | .plannerRetryChecked | .plannerRetryPending
  | .plannerRemediationRetryChecked | .plannerRemediationRetryPending
  | .plannerContractRetryChecked | .plannerContractRetryPending | .publicationUncertain
  | .canaryApproved => .flag
  | _ => .text

abbrev Field.Val (f : Field) : Type := f.ty.Val

instance (t : Ty) : DecidableEq t.Val :=
  match t with
  | .text => inferInstanceAs (DecidableEq String)
  | .flag => inferInstanceAs (DecidableEq Bool)
  | .count => inferInstanceAs (DecidableEq ℕ)
  | .texts => inferInstanceAs (DecidableEq (List String))
  | .status => inferInstanceAs (DecidableEq Status)
  | .operation => inferInstanceAs (DecidableEq Operation)
  | .provider => inferInstanceAs (DecidableEq Provider)
  | .plan => inferInstanceAs (DecidableEq (Option Plan))
  | .selection => inferInstanceAs (DecidableEq (Option Selection))

/-- The document of one execution. -/
abbrev Execution := (f : Field) → f.Val

/-- One entry of an update. -/
abbrev Change := (f : Field) × f.Val

/-- `changes.get(f)`: the last entry of the field counts. -/
def lookup (f : Field) : List Change → Option f.Val
  | [] => none
  | c :: cs =>
    match lookup f cs with
    | some v => some v
    | none => if h : c.1 = f then some (h ▸ c.2) else none

/-- `current.update(changes)`. -/
def update (cs : List Change) (e : Execution) : Execution :=
  fun f => (lookup f cs).getD (e f)

@[simp] theorem lookup_nil (f : Field) : lookup f [] = none := rfl

@[simp] theorem lookup_cons_self (f : Field) (v : f.Val) (cs : List Change) :
    lookup f (⟨f, v⟩ :: cs) = some ((lookup f cs).getD v) := by
  rw [lookup]
  rcases lookup f cs with _ | w <;> simp

@[simp] theorem lookup_cons_ne {f g : Field} (h : g ≠ f) (v : g.Val) (cs : List Change) :
    lookup f (⟨g, v⟩ :: cs) = lookup f cs := by
  rw [lookup, dif_neg h]
  cases lookup f cs <;> rfl

theorem lookup_append (f : Field) : ∀ cs cs' : List Change,
    lookup f (cs ++ cs') = (lookup f cs').or (lookup f cs)
  | [], cs' => by simp
  | c :: cs, cs' => by
    rw [List.cons_append, lookup, lookup, lookup_append f cs cs']
    rcases lookup f cs' with _ | v <;> rfl

theorem lookup_eq_none {f : Field} : ∀ {cs : List Change}, (∀ c ∈ cs, c.1 ≠ f) →
    lookup f cs = none
  | [], _ => rfl
  | c :: cs, h => by
    rw [lookup_cons_ne (h c List.mem_cons_self)]
    exact lookup_eq_none fun c' hc' => h c' (List.mem_cons_of_mem _ hc')

theorem update_apply (cs : List Change) (e : Execution) (f : Field) :
    update cs e f = (lookup f cs).getD (e f) := rfl

/-- The fields of given changes are read off. -/
theorem fields_free {l : List Field} {cs : List Change}
    (h : (cs.all fun c => c.1 ∉ l) = true) : ∀ c ∈ cs, c.1 ∉ l :=
  fun c hc => of_decide_eq_true (List.all_eq_true.1 h c hc)

/-- A field that is not written keeps its value. -/
theorem update_of_none {cs : List Change} {e : Execution} {f : Field} (h : lookup f cs = none) :
    update cs e f = e f := by
  rw [update_apply, h]
  rfl

theorem update_of_some {cs : List Change} {e : Execution} {f : Field} {v : f.Val}
    (h : lookup f cs = some v) : update cs e f = v := by
  rw [update_apply, h]
  rfl

/-- A document without any entry. -/
def emptyExecution : Execution := fun f => f.ty.blank

/-- The fields of an execution's identity. -/
def identityFields : List Field :=
  [.executionId, .fingerprint, .repository, .serviceName, .operation, .headSha, .baseSha,
    .profileHash, .executorDigest, .policyHash, .plannerHash]

/-- `s.startswith(p)`. -/
def startsWith (p s : String) : Bool := p.toList.isPrefixOf s.toList

/-- The keys that start with `bootstrap_`. -/
def Field.isBootstrap : Field → Bool
  | .bootstrapTicketId | .bootstrapNonce | .bootstrapDispatchTokenHash
  | .bootstrapDispatchStarted | .bootstrapDispatchStartedAt | .bootstrapBuildRequestHash
  | .bootstrapBuildVerified | .bootstrapVerifiedRequestHash => true
  | .extra name => startsWith "bootstrap_" name
  | _ => false

/-- The keys that start with `planner_retry` or `reconciliation_attempt`. -/
def Field.isRetry : Field → Bool
  | .plannerRetryCount | .plannerRetryChecked | .plannerRetryPending | .plannerRetryImage
  | .plannerRetryPreviousBuildId | .plannerRetryRequestedAt | .plannerRetryCompletedAt
  | .reconciliationAttempts => true
  | .extra name => startsWith "planner_retry" name || startsWith "reconciliation_attempt" name
  | _ => false

/-- What is raised on the way. `external` is any failure outside of this service's own checks. -/
inductive Err
  | value (message : String)
  | key
  | runtime (message : String)
  | build (message : String)
  | conflict (message : String)
  | evidence (message : String)
  | http (code : ℕ) (detail : String)
  | external (message : String)
  deriving DecidableEq, Repr

/-- `str(exc)`. -/
def Err.text : Err → String
  | .value m | .runtime m | .build m | .conflict m | .evidence m | .external m => m
  | .key => "execution_id"
  | .http code detail => toString code ++ ": " ++ detail

end Release
