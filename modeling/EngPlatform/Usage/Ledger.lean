import Mathlib.Data.List.Find
import Mathlib.Data.Nat.Notation

/-!
# The ledger of Cloud Build usage

`normalize` makes a ledger row of a build that the provider lists, with the execution that the
build is bound to, and `put_build` merges the row with the stored one. Times are exact, in
microseconds; a row's key, the digest of the build's name, stands as region and build id.
-/

set_option linter.dupNamespace false

namespace Usage

inductive Region
  | usCentral1
  | global
  deriving DecidableEq

def Region.text : Region → String
  | .usCentral1 => "us-central1"
  | .global => "global"

def regions : List Region := [.usCentral1, .global]

structure Key where
  region : Region
  buildId : String
  deriving DecidableEq

inductive Category
  | deployment
  | releaseQuality
  | other
  deriving DecidableEq

/-- What the link of a build reads of an execution: its `sha` for a deployment, its `head_sha` for
the release quality, and every build id that it has had. -/
structure Execution where
  provider : String
  buildIds : List String
  fingerprint : String
  serviceName : String
  repository : String
  sha : String
  deriving DecidableEq

/-- A build as the provider returns it; an absent text is empty, and an absent `projectId` or
`name` is `none`. -/
structure Build where
  id : String
  projectId : Option String
  name : Option String
  status : String
  createTime : Int
  startTime : Option Int
  finishTime : Option Int
  deploymentId : String
  executionId : String
  requestFingerprint : String
  serviceName : String
  repository : String
  sourceRepository : String
  sourceRevision : String
  deriving DecidableEq

structure Row where
  key : Key
  status : String
  createdAt : Int
  startedAt : Option Int
  finishedAt : Option Int
  complete : Bool
  category : Category
  executionId : String
  observedAt : Int
  deriving DecidableEq

/-- `store.execution`, at one time. -/
abbrev Executions := Category → String → Option Execution

def Build.boundTo (build : Build) (execution : Execution) : Bool :=
  execution.provider == "cloud_build" && execution.buildIds.contains build.id
    && execution.fingerprint != "" && build.requestFingerprint == execution.fingerprint
    && build.serviceName == execution.serviceName && build.repository == execution.repository
    && build.sourceRepository != "" && build.sourceRevision == execution.sha

/-- `_execution_link`: the first of the two ids whose execution is bound to the build. -/
def executionLink (executions : Executions) (build : Build) : Category × String :=
  let candidates := [(Category.deployment, build.deploymentId),
    (.releaseQuality, build.executionId)]
  let bound := candidates.find? fun entry =>
    entry.2 != "" && (executions entry.1 entry.2).any (build.boundTo ·)
  bound.getD (.other, "")

def terminal : List String :=
  ["SUCCESS", "FAILURE", "CANCELLED", "TIMEOUT", "INTERNAL_ERROR", "EXPIRED"]

/-- The provider's names have the project by its id or by its number. -/
def nameMatches (project : String) (region : Region) (build : Build) : Bool :=
  match build.name with
  | none => true
  | some name =>
    name == "projects/" ++ project ++ "/locations/" ++ region.text ++ "/builds/" ++ build.id
      || (match name.splitOn "/" with
        | [projects, number, locations, place, builds, id] =>
          projects == "projects" && number != "" && number.all Char.isDigit
            && build.projectId == some project && locations == "locations"
            && place == region.text && builds == "builds" && id == build.id
        | _ => false)

def normalize (project : String) (executions : Executions) (region : Region) (build : Build)
    (now : Int) : Except String Row :=
  if build.id = "" ∨ '/' ∈ build.id.toList ∨ build.projectId.getD project ≠ project then
    .error "Build identity does not match the inventory project"
  else if ¬ nameMatches project region build then
    .error "Build location does not match inventory"
  else
    let link := executionLink executions build
    let ended := build.startTime.any fun start => build.finishTime.any (· < start)
    if ended then .error "Build finish precedes start"
    else .ok {
      key := ⟨region, build.id⟩
      status := build.status
      createdAt := build.createTime
      startedAt := build.startTime
      finishedAt := build.finishTime
      complete := build.status ∈ terminal
        ∧ (build.finishTime.isSome ∨ build.startTime.isNone)
      category := link.1
      executionId := link.2
      observedAt := now }

theorem normalize_key {project : String} {executions : Executions} {region : Region}
    {build : Build} {now : Int} {row : Row}
    (h : normalize project executions region build now = .ok row) :
    row.key = ⟨region, build.id⟩ := by
  unfold normalize at h
  split at h
  · cases h
  split at h
  · cases h
  simp only [] at h
  split at h <;> cases h
  rfl

/-! ## The stored rows -/

def find (rows : List Row) (key : Key) : Option Row := rows.find? (·.key = key)

/-- The ledger after a document has been set. -/
def set (rows : List Row) (row : Row) : List Row :=
  if (find rows row.key).isSome then rows.map fun r => if r.key = row.key then row else r
  else rows ++ [row]

def Row.linked (row : Row) : Prop := row.category ≠ .other ∧ row.executionId ≠ ""

instance (row : Row) : Decidable row.linked := inferInstanceAs (Decidable (_ ∧ _))

/-- The transform of `put_build`. -/
def merge (current : Option Row) (row : Row) : Row :=
  match current with
  | none => row
  | some current =>
    if current.complete ∧ ¬ row.complete then current
    else if row.observedAt < current.observedAt then current
    else if current.linked ∧ row.category = .other then
      { row with category := current.category, executionId := current.executionId }
    else row

def putBuild (rows : List Row) (row : Row) : List Row := set rows (merge (find rows row.key) row)

theorem find_set (rows : List Row) (row : Row) (key : Key) :
    find (set rows row) key = if key = row.key then some row else find rows key := by
  unfold set
  split
  · rename_i hs
    have hmap : find (rows.map fun r => if r.key = row.key then row else r) key
        = (find rows key).map fun r => if r.key = row.key then row else r := by
      unfold find
      rw [List.find?_map]
      refine congrArg (Option.map _) (List.find?_congr fun r _ => ?_)
      simp only [Function.comp]
      split <;> simp_all
    rw [hmap]
    split
    · subst key
      obtain ⟨r, hr⟩ := Option.isSome_iff_exists.1 hs
      have hk : r.key = row.key := by simpa using List.find?_some hr
      rw [hr, Option.map_some, if_pos hk]
    · rename_i hne
      cases hf : find rows key with
      | none => rfl
      | some r =>
        have hk : r.key = key := by simpa using List.find?_some hf
        rw [Option.map_some, if_neg (hk ▸ hne)]
  · rename_i hs
    unfold find at hs ⊢
    rw [List.find?_append]
    split
    · subst key
      rw [Option.not_isSome_iff_eq_none.1 hs]
      simp
    · rename_i hne
      simp [Ne.symm hne]

theorem find_key {rows : List Row} {key : Key} {row : Row} (h : find rows key = some row) :
    row.key = key := by
  simpa using List.find?_some h

theorem merge_key {current : Option Row} {row : Row} (h : ∀ r, current = some r → r.key = row.key) :
    (merge current row).key = row.key := by
  unfold merge
  split
  · rfl
  · rename_i r
    split
    · exact h r rfl
    split
    · exact h r rfl
    split <;> rfl

theorem find_putBuild (rows : List Row) (row : Row) (key : Key) :
    find (putBuild rows row) key
      = if key = row.key then some (merge (find rows key) row) else find rows key := by
  have hk : (merge (find rows row.key) row).key = row.key := merge_key fun _ => find_key
  unfold putBuild
  rw [find_set, hk]
  split
  · subst key
    rfl
  · rfl

/-- A row that is put over a linked one has no link, or the same one. -/
def SameLink (current : Option Row) (row : Row) : Prop :=
  ∀ r, current = some r → r.linked → row.category = .other
    ∨ (row.category = r.category ∧ row.executionId = r.executionId)

/-- What a row never loses. -/
structure Row.Keeps (row row' : Row) : Prop where
  complete : row.complete = true → row'.complete = true
  linked : row.linked → row'.category = row.category ∧ row'.executionId = row.executionId

theorem Row.Keeps.refl (row : Row) : row.Keeps row := ⟨id, fun _ => ⟨rfl, rfl⟩⟩

theorem Row.Keeps.trans {row row' row'' : Row} (h : row.Keeps row') (h' : row'.Keeps row'') :
    row.Keeps row'' where
  complete hc := h'.complete (h.complete hc)
  linked hl := by
    obtain ⟨h1, h2⟩ := h.linked hl
    obtain ⟨h3, h4⟩ := h'.linked ⟨h1 ▸ hl.1, h2 ▸ hl.2⟩
    exact ⟨h3.trans h1, h4.trans h2⟩

theorem merge_keeps {current row : Row} (h : SameLink (some current) row) :
    current.Keeps (merge (some current) row) := by
  unfold merge
  simp only []
  split
  · exact .refl current
  rename_i hc
  split
  · exact .refl current
  split
  · rename_i hl
    exact ⟨fun hcur => not_not.1 fun hn => hc ⟨hcur, hn⟩, fun _ => ⟨rfl, rfl⟩⟩
  · rename_i hl
    refine ⟨fun hcur => not_not.1 fun hn => hc ⟨hcur, hn⟩, fun hlink => ?_⟩
    exact (h current rfl hlink).resolve_left fun ho => hl ⟨hlink, ho⟩

end Usage
