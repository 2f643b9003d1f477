import Mathlib.Data.Nat.Notation
import Mathlib.Logic.Function.Basic
import EngPlatform.Lib.Yields

/-!
# Operational secrets

The document of a service's configuration, its operations and its manifests. `reserve` and `finalize`
are transactions over them; between the two `publish` adds a version, which is never retried.
`snapshot` reads the document twice, and asks the provider for every version in between.
-/

set_option linter.dupNamespace false

namespace Secrets

open Interleave

/-- The router makes it of a UUID. -/
structure OperationId where
  text : String
  nonempty : text ≠ ""
  deriving DecidableEq

structure OperationalSecret where
  key : String
  secretId : String
  description : String
  required : Bool
  editable : Bool

/-- What the functions read of a service. -/
structure Service where
  projectId : String
  operationalSecrets : List OperationalSecret

def resource (service : Service) (secret : OperationalSecret) : String :=
  "projects/" ++ service.projectId ++ "/secrets/" ++ secret.secretId

/-! ## The documents -/

inductive Status
  | publishing
  | saved
  deriving DecidableEq

def Status.text : Status → String
  | .publishing => "PUBLISHING"
  | .saved => "SAVED"

/-- What `reserve` puts into a record. -/
structure Request where
  key : String
  requestedBy : String
  createdAt : String
  deriving DecidableEq

/-- The document of an operation; `finalize` makes one without a request of a missing one. -/
structure Record where
  request : Option (OperationId × Request)
  generation : ℕ
  status : Status
  version : Option String
  deriving DecidableEq

/-- The document of the service; a missing one has generation 0 and no versions. -/
structure Document where
  generation : ℕ
  versions : String → Option String
  appliedVersions : String → Option String
  activeOperation : Option OperationId

structure Manifest where
  versions : String → Option String
  generation : ℕ

structure Store where
  document : Document
  operations : OperationId → Option Record
  manifests : ℕ → Option Manifest

def Store.start (appliedVersions : String → Option String) : Store where
  document := ⟨0, fun _ => none, appliedVersions, none⟩
  operations _ := none
  manifests _ := none

inductive Raised
  | conflict (detail : String)
  | runtime (detail : String)
  | keyError
  | outside (name : String)
  deriving DecidableEq

/-- The transaction of `reserve`. -/
def Store.reserve (store : Store) (operationId : OperationId) (request : Request) (generation : ℕ) :
    Store × Except Raised (Option Record) :=
  match store.operations operationId with
  | some previous =>
    match previous.request with
    | none => (store, .error .keyError)
    | some (_, first) =>
      if first.key ≠ request.key ∨ first.requestedBy ≠ request.requestedBy then
        (store, .error (.conflict "Operation belongs to another request"))
      else if previous.status = .saved then (store, .ok (some previous))
      else (store, .error (.conflict "Operation requires reconciliation"))
  | none =>
    if store.document.activeOperation.isSome then
      (store, .error (.conflict "A secret operation requires reconciliation"))
    else if store.document.generation ≠ generation then
      (store, .error (.conflict "Configuration changed; refresh before saving"))
    else
      ({ store with
          document := { store.document with activeOperation := some operationId }
          operations := Function.update store.operations operationId
            (some ⟨some (operationId, request), generation, .publishing, none⟩) },
        .ok none)

/-- The transaction of `finalize`. -/
def Store.finalize (store : Store) (secretKey : String) (operationId : OperationId) (version : String) :
    Store × Except Raised Record :=
  if store.document.activeOperation ≠ some operationId then
    (store, .error (.conflict "Operation requires reconciliation"))
  else
    let versions := Function.update store.document.versions secretKey (some version)
    let generation := store.document.generation + 1
    let record : Record :=
      ⟨(store.operations operationId).bind Record.request, generation, .saved, some version⟩
    ({ document := { store.document with versions, generation, activeOperation := none }
       operations := Function.update store.operations operationId (some record)
       manifests := Function.update store.manifests generation (some ⟨versions, generation⟩) },
      .ok record)

/-! ## Publishing and taking snapshots -/

/-- What a call asks of the world: the catalog's barrier, a client, a transaction, the provider. A
call of `add_secret_version` says which operation it is for, and a read of the state who reads. -/
inductive Ask
  | managed
  | writer
  | database
  | reserve (operationId : OperationId) (request : Request) (generation : ℕ)
  | addSecretVersion (operationId : OperationId) (parent value : String)
  | finalize (operationId : OperationId) (secretKey version : String)
  | state
  | getSecretVersion (name : String)

abbrev Ask.Val : Ask → Type
  | .managed | .writer | .database => Unit
  | .reserve .. => Option Record
  | .addSecretVersion .. => String
  | .finalize .. => Record
  | .state => Document
  | .getSecretVersion _ => Bool

abbrev Ask.Ans (a : Ask) : Type := Except Raised a.Val

abbrev Code (α : Type) : Type := Prog Ask.Ans Raised α

def perform (a : Ask) : Code a.Val := .ask a Prog.lift

/-- What `publish` returns. -/
structure Published where
  operationId : OperationId
  status : Status
  version : String
  generation : ℕ
  deriving DecidableEq

def Record.shown (record : Record) : Except Raised Published :=
  match record.request, record.version with
  | some (operationId, _), some version => .ok ⟨operationId, record.status, version, record.generation⟩
  | _, _ => .error .keyError

/-- `name.rsplit("/", 1)[-1]`. -/
def lastSegment (name : String) : String :=
  String.ofList (name.toList.reverse.takeWhile fun c => c ≠ '/').reverse

variable (decimal : Char → Bool)

/-- `text.isdecimal()`, for the characters that are decimal. -/
def isDecimal (text : String) : Bool := text ≠ "" && text.toList.all decimal

def reserve (operationId : OperationId) (request : Request) (generation : ℕ) : Code (Option Record) := do
  perform .managed
  perform (.reserve operationId request generation)

def finalize (operationId : OperationId) (secretKey version : String) : Code Record := do
  perform .managed
  perform (.finalize operationId secretKey version)

/-- `publish`; the request holds the secret's key. -/
def publish (service : Service) (secret : OperationalSecret) (value : String) (operationId : OperationId)
    (generation : ℕ) (requestedBy createdAt : String) : Code Published := do
  perform .managed
  perform .writer
  perform .database
  let previous ← reserve operationId ⟨secret.key, requestedBy, createdAt⟩ generation
  match previous with
  | some previous => Prog.lift previous.shown
  | none =>
    let name ← perform (.addSecretVersion operationId (resource service secret) value)
    let number := lastSegment name
    if isDecimal decimal number then
      let record ← finalize operationId secret.key number
      Prog.lift record.shown
    else Prog.raise (.runtime "Secret Manager returned an invalid version")

def state : Code Document := do
  perform .managed
  perform .database
  perform .state

structure Item where
  key : String
  description : String
  required : Bool
  editable : Bool
  configured : Bool
  pendingVersion : Option String
  appliedVersion : Option String

/-- A value that is there and not empty. -/
def given (value : Option String) : Option String := value.filter fun text => text ≠ ""

def metadataItem (service : Service) (current : Document) (secret : OperationalSecret) : Code Item := do
  let version := current.versions secret.key
  let applied := current.appliedVersions secret.key
  let enabled ← match given version with
    | none => pure false
    | some number =>
      perform (.getSecretVersion (resource service secret ++ "/versions/" ++ number))
  pure ⟨secret.key, secret.description, secret.required, secret.editable, enabled,
    if version = applied then none else version, applied⟩

structure Metadata where
  items : List Item
  generation : ℕ
  blocked : Bool

def metadataItems (service : Service) (current : Document) : List OperationalSecret → Code (List Item)
  | [] => pure []
  | secret :: secrets => do
    let item ← metadataItem service current secret
    let items ← metadataItems service current secrets
    pure (item :: items)

def metadata (service : Service) : Code Metadata := do
  perform .managed
  let current ← state
  if service.operationalSecrets = [] then pure () else perform .writer
  let items ← metadataItems service current service.operationalSecrets
  pure ⟨items, current.generation, current.activeOperation.isSome⟩

structure Snapshot where
  generation : ℕ
  secrets : String → Option String

def reference (service : Service) (secret : OperationalSecret) (version : String) : String :=
  resource service secret ++ "/versions/" ++ version

/-- A secret is put into the dict if it has a version. -/
def addReference (service : Service) (current : Document) (secrets : String → Option String)
    (secret : OperationalSecret) : String → Option String :=
  match given (current.versions secret.key) with
  | none => secrets
  | some version => Function.update secrets secret.key (some (reference service secret version))

/-- The dict of the secrets that have a version; of two with one key the last stays. -/
def references (service : Service) (current : Document) : String → Option String :=
  service.operationalSecrets.foldl (addReference service current) fun _ => none

def snapshot (service : Service) : Code Snapshot := do
  perform .managed
  let current ← state
  if current.activeOperation.isSome then
    Prog.raise (.conflict "A secret operation requires reconciliation")
  else
    let available ← metadata service
    if available.items.any fun item => item.required && !item.configured then
      Prog.raise (.conflict "Required operational secrets are not configured")
    else if available.generation ≠ current.generation then
      Prog.raise (.conflict "Configuration changed; retry deployment")
    else pure ⟨current.generation, references service current⟩

/-! ## The world -/

/-- Beside the documents, the world remembers whose operation each is, which operations a version was
asked for, the versions that were made, and what each call has read. -/
structure World (ι : Type) where
  store : Store
  owner : OperationId → Option ι
  added : List OperationId
  created : List (OperationId × String)
  reads : ι → List Store

def World.start {ι : Type} (appliedVersions : String → Option String) : World ι where
  store := .start appliedVersions
  owner _ := none
  added := []
  created := []
  reads _ := []

variable {ι : Type} [DecidableEq ι]

def World.add (w : World ι) (operationId : OperationId) : World ι :=
  { w with added := operationId :: w.added }

def World.create (w : World ι) (operationId : OperationId) (name : String) : World ι :=
  { w with added := operationId :: w.added, created := (operationId, name) :: w.created }

/-- The world after a transaction of `reserve`. -/
def World.reserve (w : World ι) (i : ι) (operationId : OperationId) (request : Request) (generation : ℕ) :
    World ι :=
  { w with
    store := (w.store.reserve operationId request generation).1
    owner :=
      match (w.store.reserve operationId request generation).2 with
      | .ok none => Function.update w.owner operationId (some i)
      | _ => w.owner }

def World.finalize (w : World ι) (operationId : OperationId) (secretKey version : String) : World ι :=
  { w with store := (w.store.finalize secretKey operationId version).1 }

def World.read (w : World ι) (i : ι) : World ι :=
  { w with reads := Function.update w.reads i (w.reads i ++ [w.store]) }

def lost {α : Type} (r : Except Raised α) : Prop := ∃ x, r = .error x

/-- A request may fail before it has done anything, and the answer to one that was done may be
lost. -/
def sem (i : ι) (w : World ι) : (a : Ask) → World ι → a.Ans → Prop
  | .reserve operationId request generation, w', r =>
    (w' = w ∧ lost r) ∨ (w' = w.reserve i operationId request generation ∧
      (r = (w.store.reserve operationId request generation).2 ∨ lost r))
  | .addSecretVersion operationId _ _, w', r =>
    (w' = w.add operationId ∧ lost r) ∨
      ∃ name, w' = w.create operationId name ∧ (r = .ok name ∨ lost r)
  | .finalize operationId secretKey version, w', r =>
    (w' = w ∧ lost r) ∨ (w' = w.finalize operationId secretKey version ∧
      (r = (w.store.finalize secretKey operationId version).2 ∨ lost r))
  | .state, w', r => (w' = w ∧ lost r) ∨ (w' = w.read i ∧ r = .ok w.store.document)
  | _, w', _ => w' = w

def system (ι : Type) [DecidableEq ι] : System ι (World ι) Ask.Ans where
  sem := sem
  env _ _ := False

/-! ## Calls -/

inductive Call
  | publish (service : Service) (secret : OperationalSecret) (value : String) (operationId : OperationId)
    (generation : ℕ) (requestedBy createdAt : String)
  | snapshot (service : Service)

inductive Result
  | published (published : Published)
  | snapshot (snapshot : Snapshot)

def Call.code : Call → Code Result
  | .publish service secret value operationId generation requestedBy createdAt => do
    let published ← Secrets.publish decimal service secret value operationId generation requestedBy createdAt
    pure (.published published)
  | .snapshot service => do
    let snapshot ← Secrets.snapshot service
    pure (.snapshot snapshot)

/-- Any calls, none of which has begun. -/
def begin (appliedVersions : String → Option String) (calls : ι → Call) :
    Conf ι (World ι) Ask.Ans Raised Result :=
  ⟨.start appliedVersions, fun i => (calls i).code decimal⟩

end Secrets
