import EngPlatform.Release.Store

/-!
# Reserving an execution

An execution is reserved under the fingerprint of its intent, which is also the name of its
document: a second reservation of the same intent finds the first one.
-/

set_option linter.dupNamespace false

namespace Release

/-- What a reservation asks for. -/
structure Reservation where
  repository : String
  serviceName : String
  operation : Operation
  headSha : String
  baseSha : String
  branch : String
  profileHash : String
  executorDigest : String
  policyHash : String
  plannerHash : String
  provider : Provider
  deliveryId : String
  providerSelection : Option Selection
  triggerEvent : String
  deriving DecidableEq, Repr

/-- The values that `fingerprint` hashes. -/
structure Intent where
  repository : String
  serviceName : String
  operation : Operation
  headSha : String
  baseSha : String
  profileHash : String
  executorDigest : String
  policyHash : String
  plannerHash : String
  deriving DecidableEq, Repr

def Reservation.intent (r : Reservation) : Intent where
  repository := lower r.repository
  serviceName := r.serviceName
  operation := r.operation
  headSha := lower r.headSha
  baseSha := lower r.baseSha
  profileHash := r.profileHash
  executorDigest := r.executorDigest
  policyHash := r.policyHash
  plannerHash := if r.operation = .mainRelease then r.plannerHash else ""

/-- `fingerprint`, with the hash of an intent. -/
def fingerprint (sha : Intent → String) (r : Reservation) : String := sha r.intent

/-- The document that `reserve` stores. -/
def Reservation.value (r : Reservation) (fingerprintValue now : String) : Execution :=
  update [⟨.executionId, fingerprintValue⟩, ⟨.fingerprint, fingerprintValue⟩,
    ⟨.repository, r.repository⟩, ⟨.serviceName, r.serviceName⟩, ⟨.operation, r.operation⟩,
    ⟨.headSha, lower r.headSha⟩, ⟨.baseSha, lower r.baseSha⟩, ⟨.extra "branch", r.branch⟩,
    ⟨.profileHash, r.profileHash⟩, ⟨.executorDigest, r.executorDigest⟩,
    ⟨.policyHash, r.policyHash⟩, ⟨.plannerHash, r.plannerHash⟩, ⟨.provider, r.provider⟩,
    ⟨.status, if r.provider = .githubActions then .waitingGithub else .submissionPending⟩,
    ⟨.extra "delivery_id", r.deliveryId⟩, ⟨.providerSelection, r.providerSelection⟩,
    ⟨.triggerEvent, r.triggerEvent⟩, ⟨.eventSequence, (0 : ℕ)⟩, ⟨.createdAt, now⟩,
    ⟨.updatedAt, now⟩] emptyExecution

/-- The fields that a reservation has to agree in with the execution it finds. -/
def reservedFields : List Field :=
  [.fingerprint, .repository, .serviceName, .operation, .headSha, .baseSha, .profileHash,
    .executorDigest, .policyHash, .plannerHash]

/-- `reserve`, with the document that is stored under the fingerprint. -/
def reserve (sha : Intent → String) (stored : Option Execution) (fingerprintValue : String)
    (r : Reservation) (now : String) : Except Err (Execution × Bool) :=
  if fingerprintValue ≠ fingerprint sha r then
    .error (.value "Release execution fingerprint does not match identity")
  else
    let value := r.value fingerprintValue now
    match stored with
    | some current =>
      if reservedFields.any fun f => current f ≠ value f then
        .error (.value "Release execution identity cannot change")
      else .ok (current, false)
    | none => .ok (value, true)

end Release
