import Mathlib.Data.List.AList
import Mathlib.Data.Rat.Defs
import Mathlib.Algebra.Order.Ring.Rat

/-!
# The circuit's document

One document an owner: whether GitHub Actions is believed to reject the owner's jobs, the health
probe that was last reserved, the requests that ever reserved one, and the usage alerts that were
emitted. A document that does not exist reads as an empty one.
-/

set_option linter.dupNamespace false

namespace Circuit

inductive State
  | opened
  | closed
  deriving DecidableEq, Repr

inductive ProbeStatus
  | requested
  | verified
  | cancelled
  deriving DecidableEq, Repr

/-- What became of a probe's dispatch. `other` is a text outside the list. -/
inductive Dispatch
  | reserved
  | dispatched
  | uncertain
  | notDispatched
  | other (text : String)
  deriving DecidableEq, Repr

structure Probe where
  status : ProbeStatus
  dispatchStatus : Dispatch
  nonce : String
  repository : String
  workflow : String
  requestedBy : String
  requestedAt : String
  requestKey : String
  runId : Option String
  conclusion : Option String
  jobsStarted : Option ℤ
  completedAt : Option String
  deriving DecidableEq, Repr

/-- The fields of a probe that its clients may see. -/
structure PublicProbe where
  repository : String
  workflow : String
  status : ProbeStatus
  dispatchStatus : Dispatch
  requestedAt : String
  completedAt : Option String
  runId : Option String
  conclusion : Option String
  jobsStarted : Option ℤ
  deriving DecidableEq, Repr

structure Snapshot where
  state : State
  probe : PublicProbe
  deriving DecidableEq, Repr

/-- What is remembered of a request that reserved a probe. -/
structure Request where
  fingerprint : String
  circuit : Option Snapshot
  deriving DecidableEq, Repr

/-- The lease of a mode propagation; no `retryAfter` is one that is not a finite number. -/
structure Propagation where
  token : String
  retryAfter : Option ℚ
  deriving DecidableEq, Repr

structure Alert where
  threshold : ℤ
  observedMinutes : ℚ
  emittedAt : String
  deriving DecidableEq, Repr

abbrev Dict (β : Type) : Type := AList fun _ : String => β

structure Document where
  owner : String
  state : State
  reason : String
  repository : String
  runId : String
  evidence : String
  openedAt : String
  closedAt : String
  closeReason : String
  updatedAt : String
  probe : Option Probe
  probeRequests : Dict Request
  modePropagation : Option Propagation
  usageAlerts : Dict Alert
  deriving DecidableEq

/-- What is raised on the way. `external` is any failure outside of the circuit's own checks. -/
inductive Err
  | value (message : String)
  | conflict (message : String)
  | key
  | external (message : String)
  deriving DecidableEq, Repr

/-- A document with nothing but its owner, a closed circuit and the time. -/
def blank (owner now : String) : Document where
  owner := owner
  state := .closed
  reason := ""
  repository := ""
  runId := ""
  evidence := ""
  openedAt := ""
  closedAt := ""
  closeReason := ""
  updatedAt := now
  probe := none
  probeRequests := ∅
  modePropagation := none
  usageAlerts := ∅

/-- `get(owner)`, from the document there is. -/
def get (owner : String) (stored : Option Document) : Document := stored.getD (blank owner "")

def Probe.public (p : Probe) : PublicProbe where
  repository := p.repository
  workflow := p.workflow
  status := p.status
  dispatchStatus := p.dispatchStatus
  requestedAt := p.requestedAt
  completedAt := p.completedAt
  runId := p.runId
  conclusion := p.conclusion
  jobsStarted := p.jobsStarted

/-- `_probe_history`: the stored probe's request remembers how the circuit stands. -/
def probeHistory (current : Document) : Dict Request :=
  match current.probe with
  | none => current.probeRequests
  | some p =>
    if p.requestKey = "" then current.probeRequests
    else
      match current.probeRequests.lookup p.requestKey with
      | none => current.probeRequests
      | some r => current.probeRequests.insert p.requestKey
          { r with circuit := some ⟨current.state, p.public⟩ }

/-- Remembering how the circuit stands neither forgets a request nor adds one. -/
theorem mem_probeHistory (current : Document) (key : String) :
    key ∈ probeHistory current ↔ key ∈ current.probeRequests := by
  unfold probeHistory
  rcases current.probe with _ | p
  · rfl
  dsimp only
  by_cases hk : p.requestKey = ""
  · rw [if_pos hk]
  rw [if_neg hk]
  rcases hr : current.probeRequests.lookup p.requestKey with _ | r
  · rfl
  · have hp : p.requestKey ∈ current.probeRequests := AList.lookup_isSome.1 (by rw [hr]; rfl)
    simp only [AList.mem_insert]
    constructor
    · rintro (rfl | h)
      · exact hp
      · exact h
    · exact .inr

theorem length_probeHistory (current : Document) :
    (probeHistory current).keys.length = current.probeRequests.keys.length := by
  refine List.Perm.length_eq ((List.perm_ext_iff_of_nodup (AList.keys_nodup _)
    (AList.keys_nodup _)).2 fun key => ?_)
  rw [← AList.mem_keys, ← AList.mem_keys]
  exact mem_probeHistory current key

end Circuit
