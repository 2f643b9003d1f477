import EngPlatform.Lib.Queries

/-!
# Listing release executions

`list_for_repository` and `iter_due` read Firestore by ordered and filtered queries, and fall back
to a scan when a count shows a document that an index would skip. The collection also holds the
bootstrap ticket, a document of its own id that misses some of the fields, and the counts are
corrected for it. Each is next to what the in-memory branch gives.
-/

set_option linter.dupNamespace false

namespace Release.Listing

open Queries

variable {ρ : Type}

/-- `QUALITY_BOOTSTRAP_TICKET_ID`. -/
def qualityBootstrapTicketId : String := "artemis-pr172-quality-bootstrap-v1"

def bootstrapDocumentId : String := "__bootstrap_ticket_" ++ qualityBootstrapTicketId

/-- A document of the collection. `status` and `operation` may also be there and be null; `rest` is
every field that the listings only carry. -/
structure Row (ρ : Type) where
  name : String
  ticketId : Option String
  executionId : String
  repository : Option String
  operation : Option (Option String)
  status : Option (Option String)
  createdAt : Option String
  updatedAt : Option String
  provider : Option String
  engineEventStatus : Option String
  releaseEngineFailed : Option Bool
  evidenceCommitted : Option Bool
  bootstrapTicketId : String
  reportHash : String
  buildId : String
  plannerRetryCount : ℕ
  plannerRetryChecked : Bool
  plannerRemediationRetryChecked : Bool
  plannerContractRetryChecked : Bool
  plannerRemediationRetryImage : String
  plannerRemediationRetryHash : String
  rest : ρ

def nullable : Option String → Value
  | none => .null
  | some s => .text s

instance : Document (Row ρ) where
  name := Row.name
  field f v :=
    match f with
    | "repository" => v.repository.map .text
    | "operation" => v.operation.map nullable
    | "status" => v.status.map nullable
    | "created_at" => v.createdAt.map .text
    | "provider" => v.provider.map .text
    | "engine_event_status" => v.engineEventStatus.map .text
    | "release_engine_failed" => v.releaseEngineFailed.map .bool
    | "evidence_committed" => v.evidenceCommitted.map .bool
    | _ => none

def Row.isTicket (v : Row ρ) : Bool := v.ticketId = some qualityBootstrapTicketId

/-- `value.get("status")`, where null and missing are one. -/
def Row.statusIs (v : Row ρ) (s : String) : Bool := v.status.join = some s

def Row.operationIs (v : Row ρ) (s : String) : Bool := v.operation.join = some s

def terminal : List String := ["quality_failed", "no_release", "released", "superseded", "failed"]

def Row.terminal (v : Row ρ) : Bool := v.status.join.any (· ∈ Listing.terminal)

def sha256Hex (s : String) : Bool :=
  s.length = 64 ∧ s.toList.all (· ∈ "0123456789abcdef".toList)

/-- What follows the last `@sha256:` of an image. -/
def imageDigest (image : String) : String :=
  match (image.splitOn "@sha256:").tail.getLast? with
  | some digest => digest
  | none => ""

/-- `planner_retry_candidate` with both of its allowances. -/
def Row.plannerRetryCandidate (v : Row ρ) : Bool :=
  let attemptAvailable :=
    (v.plannerRetryCount = 0 ∧ ¬v.plannerRetryChecked) ∨
    (v.plannerRetryCount = 1 ∧ v.plannerRetryChecked ∧ ¬v.plannerRemediationRetryChecked) ∨
    (v.plannerRetryCount = 2 ∧ v.plannerRemediationRetryChecked ∧
      ¬v.plannerContractRetryChecked ∧ sha256Hex (imageDigest v.plannerRemediationRetryImage) ∧
      sha256Hex v.plannerRemediationRetryHash)
  v.bootstrapTicketId = "" ∧ v.statusIs "failed" ∧ v.provider = some "cloud_build" ∧
    v.operationIs "main_release" ∧ v.releaseEngineFailed = some true ∧
    v.engineEventStatus = some "quality_passed" ∧ v.evidenceCommitted = some true ∧
    v.reportHash ≠ "" ∧ attemptAvailable ∧ v.buildId ≠ ""

/-- What the scheduler reconciles. -/
def Row.due (v : Row ρ) : Bool :=
  (!v.terminal || v.plannerRetryCandidate) && !v.isTicket &&
    !(v.operationIs "pr_quality" && v.statusIs "quality_passed")

/-- The sort of `iter_due`. -/
def Row.lastUpdate (v : Row ρ) : String ×ₗ String := toLex (v.updatedAt.getD "", v.executionId)

/-- The sort of `list_for_repository`, which is reversed. -/
def Row.newness (v : Row ρ) : (String ×ₗ String)ᵒᵈ :=
  OrderDual.toDual (toLex (v.createdAt.getD "", v.executionId))

/-! ## In memory -/

namespace InMemory

variable (values : List (Row ρ))

def listForRepository (repositoryNames : List String) (limit : ℕ) : List (Row ρ) :=
  (sortBy Row.newness (values.filter fun v =>
    v.repository.any (· ∈ repositoryNames) && !v.isTicket)).take limit

def iterDue : List (Row ρ) := sortBy Row.lastUpdate (values.filter Row.due)

end InMemory

/-! ## In Firestore -/

namespace Firestore

variable (docs : List (Row ρ))

/-- `_excluded_fence_missing_field`. -/
def excludedFenceMissingField (misses : Row ρ → Bool) : ℕ :=
  match docs.find? (·.name = bootstrapDocumentId) with
  | none => 0
  | some fence => if fence.isTicket && misses fence then 1 else 0

/-- The documents of `query` that `indexed` skips, less the bootstrap ticket. -/
def legacyRows (query indexed : Query (Row ρ)) (misses : Row ρ → Bool) : ℕ :=
  let missing := query.count docs - indexed.count docs
  if missing ≠ 0 then missing - excludedFenceMissingField docs misses else missing

def ofRepository (name : String) : Query (Row ρ) :=
  Query.all.whereEq "repository" (.text name)

/-- The rows that the loop over the pages of one repository keeps. -/
def keepRows (limit : ℕ) (legacy : Bool) : List (Row ρ) → ℕ → List (Row ρ)
  | [], _ => []
  | v :: rows, kept =>
    if v.isTicket then keepRows limit legacy rows kept
    else if limit ≤ kept + 1 ∧ ¬legacy then [v]
    else v :: keepRows limit legacy rows (kept + 1)

def rowsOf (limit : ℕ) (name : String) : List (Row ρ) :=
  let base := ofRepository name
  let ordered := base.orderBy "created_at" true
  let legacy := legacyRows docs base ordered (fun fence =>
    fence.repository = some name ∧ fence.createdAt = none) ≠ 0
  let query := if legacy then base else ordered
  keepRows limit legacy (query.iterPages docs (max 1 limit)) 0

def listForRepository (repositoryNames : List String) (limit : ℕ) : List (Row ρ) :=
  if limit = 0 then []
  else (sortBy Row.newness (repositoryNames.flatMap (rowsOf docs limit))).take limit

def knownOperations : List Value := [.text "main_release", .text "pr_quality"]

def passedQuery : Query (Row ρ) :=
  let legacyOperations := legacyRows docs Query.all
    (Query.all.whereIn "operation" knownOperations) fun fence =>
      !(fence.operationIs "main_release" || fence.operationIs "pr_quality")
  let passed := Query.all.whereEq "status" (.text "quality_passed")
  if legacyOperations ≠ 0 then passed
  else passed.whereEq "operation" (.text "main_release")

def failedQuery : Query (Row ρ) :=
  Query.all
    |>.whereEq "status" (.text "failed")
    |>.whereEq "provider" (.text "cloud_build")
    |>.whereEq "operation" (.text "main_release")
    |>.whereEq "release_engine_failed" (.bool true)
    |>.whereEq "engine_event_status" (.text "quality_passed")
    |>.whereEq "evidence_committed" (.bool true)

def dueQueries : List (Query (Row ρ)) :=
  let missing := legacyRows docs Query.all (Query.all.whereNotNull "status") fun fence =>
    fence.status.join = none
  if missing ≠ 0 then [Query.all]
  else
    [Query.all.whereNotIn "status" ((terminal ++ ["quality_passed"]).map .text),
      passedQuery docs, failedQuery]

/-- `by_id[value["execution_id"]] = value`. -/
def setById (byId : List (Row ρ)) (v : Row ρ) : List (Row ρ) :=
  if byId.any (·.executionId = v.executionId) then
    byId.map fun w => if w.executionId = v.executionId then v else w
  else byId ++ [v]

def iterDue (pageSize : ℕ) : List (Row ρ) :=
  let rows := (dueQueries docs).flatMap fun query => query.iterPages docs pageSize
  sortBy Row.lastUpdate ((rows.filter Row.due).foldl setById [])

end Firestore

/-! ## The counts -/

section Counts

variable {docs : List (Row ρ)}

theorem excluded_cases (misses : Row ρ → Bool) :
    Firestore.excludedFenceMissingField docs misses = 0 ∨
      Firestore.excludedFenceMissingField docs misses = 1 ∧
        ∃ fence ∈ docs, fence.isTicket = true ∧ misses fence = true := by
  unfold Firestore.excludedFenceMissingField
  cases hf : docs.find? (·.name = bootstrapDocumentId) with
  | none => exact .inl rfl
  | some fence =>
    simp only []
    split
    · rename_i hc
      exact .inr ⟨rfl, fence, List.mem_of_find?_eq_some hf, Bool.and_eq_true_iff.1 hc⟩
    · exact .inl rfl

/-- Where no legacy row is counted, the index skips at most the bootstrap ticket. -/
theorem ticket_of_skipped {query indexed : Query (Row ρ)} {misses : Row ρ → Bool}
    (hsub : ∀ v, indexed.keep v = true → query.keep v = true)
    (hmiss : ∀ v, misses v = true → query.keep v = true ∧ indexed.keep v = false)
    (h : Firestore.legacyRows docs query indexed misses = 0) {v : Row ρ} (hm : v ∈ docs)
    (hq : query.keep v = true) (hi : indexed.keep v = false) : v.isTicket = true := by
  have hcount : query.count docs = _ := count_skipped hsub
  have hv : v ∈ docs.filter fun d => query.keep d && !indexed.keep d :=
    List.mem_filter.2 ⟨hm, by rw [hq, hi]; rfl⟩
  have hpos := List.length_pos_of_mem hv
  unfold Firestore.legacyRows at h
  simp only [] at h
  rw [if_pos (by omega)] at h
  rcases excluded_cases misses with h0 | ⟨h1, fence, hf, ht, hfm⟩
  · rw [h0] at h
    omega
  · obtain ⟨hfq, hfi⟩ := hmiss fence hfm
    have hfs : fence ∈ docs.filter fun d => query.keep d && !indexed.keep d :=
      List.mem_filter.2 ⟨hf, by rw [hfq, hfi]; rfl⟩
    rw [h1] at h
    obtain ⟨only, honly⟩ := List.length_eq_one_iff.1
      (show (docs.filter fun d => query.keep d && !indexed.keep d).length = 1 by omega)
    rw [honly, List.mem_singleton] at hv hfs
    rw [hv, ← hfs]
    exact ht

end Counts

/-! ## The content of the collection -/

/-- Documents of distinct ids, where an execution carries its own id. The bootstrap ticket carries
the id of the execution that consumed it. -/
structure Content (ρ : Type) where
  docs : List (Row ρ)
  distinct : Distinct docs
  named : ∀ v ∈ docs, v.isTicket = false → v.executionId = v.name

/-- The spellings of one repository. -/
structure Aliases where
  names : List String
  distinct : names.Nodup

section Keys

variable (c : Content ρ) {p : Row ρ → Bool}

theorem Content.ids_nodup (hp : ∀ v, p v = true → v.isTicket = false) :
    ((c.docs.filter p).map Row.executionId).Nodup := by
  have hmap : (c.docs.filter p).map Row.executionId = (c.docs.filter p).map Row.name :=
    List.map_congr_left fun v hv =>
      c.named v (List.mem_filter.1 hv).1 (hp v (List.mem_filter.1 hv).2)
  rw [hmap]
  exact c.distinct.filter

theorem Content.updates_nodup (hp : ∀ v, p v = true → v.isTicket = false) :
    ((c.docs.filter p).map Row.lastUpdate).Nodup := by
  refine List.Nodup.of_map (fun k : String ×ₗ String => (ofLex k).2) ?_
  rw [List.map_map]
  exact c.ids_nodup hp

theorem Content.newness_nodup (hp : ∀ v, p v = true → v.isTicket = false) :
    ((c.docs.filter p).map Row.newness).Nodup := by
  refine List.Nodup.of_map
    (fun k : (String ×ₗ String)ᵒᵈ => (ofLex (OrderDual.ofDual k)).2) ?_
  rw [List.map_map]
  exact c.ids_nodup hp

theorem Content.id_inj {v w : Row ρ} (hv : v ∈ c.docs) (hw : w ∈ c.docs)
    (htv : v.isTicket = false) (htw : w.isTicket = false)
    (h : v.executionId = w.executionId) : v = w :=
  Queries.Distinct.eq c.distinct hv hw ((c.named v hv htv).symm.trans (h.trans (c.named w hw htw)))

end Keys

/-! ## The executions of a repository -/

section Repository

variable {limit : ℕ} {name : String}

theorem keepRows_legacy : ∀ (rows : List (Row ρ)) (kept : ℕ),
    Firestore.keepRows limit true rows kept = rows.filter fun v => !v.isTicket
  | [], _ => rfl
  | v :: rows, kept => by
    unfold Firestore.keepRows
    cases ht : v.isTicket with
    | true => simp [ht, keepRows_legacy rows kept]
    | false => simp [ht, keepRows_legacy rows (kept + 1)]

theorem keepRows_ordered : ∀ (rows : List (Row ρ)) (kept : ℕ), kept < limit →
    Firestore.keepRows limit false rows kept
      = (rows.filter fun v => !v.isTicket).take (limit - kept)
  | [], _, _ => by simp [Firestore.keepRows]
  | v :: rows, kept, h => by
    unfold Firestore.keepRows
    cases ht : v.isTicket with
    | true => simp [ht, keepRows_ordered rows kept h]
    | false =>
      obtain ⟨n, hn⟩ := Nat.exists_eq_add_of_lt h
      rw [List.filter_cons_of_pos (by simp [ht]), show limit - kept = n + 1 by omega,
        List.take_succ_cons]
      by_cases hl : limit ≤ kept + 1
      · simp [hl, show n = 0 by omega]
      · simp [hl, keepRows_ordered rows (kept + 1) (by omega), show limit - (kept + 1) = n by omega]

/-- The executions of one spelling. -/
def spelled (docs : List (Row ρ)) (name : String) : List (Row ρ) :=
  docs.filter fun v => v.repository = some name && !v.isTicket

theorem ofRepository_keep (v : Row ρ) :
    (Firestore.ofRepository name).keep v = decide (v.repository = some name) := by
  rw [Bool.eq_iff_iff]
  unfold Firestore.ofRepository Query.whereEq Query.all
  simp only [Document.field, Bool.true_and, beq_iff_eq, decide_eq_true_eq]
  cases v.repository <;> simp

theorem spelled_not_ticket (v : Row ρ) :
    (decide (v.repository = some name) && !v.isTicket) = true → v.isTicket = false := by
  intro h
  simpa using (Bool.and_eq_true_iff.1 h).2

/-- The executions in the order of the index. -/
def indexed (docs : List (Row ρ)) (name : String) : List (Row ρ) :=
  (((Firestore.ofRepository name).orderBy "created_at" true).run docs).filter fun v => !v.isTicket

theorem createdAt_of_keep {v : Row ρ}
    (h : ((Firestore.ofRepository name).orderBy "created_at" true).keep v = true) :
    ∃ t, v.createdAt = some t := by
  have := (Bool.and_eq_true_iff.1 h).2
  exact Option.isSome_iff_exists.1 (by simpa [Document.field] using this)

/-- Unless a legacy row was counted, the index has all of the executions. -/
theorem indexed_perm {c : Content ρ}
    (h : Firestore.legacyRows c.docs (Firestore.ofRepository name)
      ((Firestore.ofRepository name).orderBy "created_at" true)
      (fun fence => fence.repository = some name ∧ fence.createdAt = none) = 0) :
    (indexed c.docs name).Perm (spelled c.docs name) := by
  refine (run_perm.filter _).trans (List.Perm.of_eq ?_)
  rw [List.filter_filter]
  refine List.filter_congr fun v hm => ?_
  rw [← ofRepository_keep, Bool.and_comm]
  cases ht : v.isTicket with
  | true => simp
  | false =>
    rw [Bool.not_false, Bool.and_true, Bool.and_true]
    cases hq : (Firestore.ofRepository name).keep v with
    | false => simp [Query.orderBy, hq]
    | true =>
      by_contra hi
      have hmiss : ∀ w : Row ρ, decide (w.repository = some name ∧ w.createdAt = none) = true →
          (Firestore.ofRepository name).keep w = true ∧
            ((Firestore.ofRepository name).orderBy "created_at" true).keep w = false := by
        intro w hw
        obtain ⟨hr, hc⟩ := of_decide_eq_true hw
        refine ⟨by rw [ofRepository_keep, decide_eq_true hr], ?_⟩
        simp [Query.orderBy, Document.field, hc]
      have := ticket_of_skipped (fun w hw => (Bool.and_eq_true_iff.1 hw).1) hmiss h hm hq
        (Bool.eq_false_of_not_eq_true hi)
      rw [ht] at this
      cases this

/-- The index is in the order of the sort. -/
theorem indexed_pairwise (c : Content ρ) :
    (indexed c.docs name).Pairwise fun v w => v.newness ≤ w.newness := by
  refine ((run_pairwise c.distinct).filter _).imp_of_mem fun {v w} hv hw hb => ?_
  obtain ⟨hv, htv⟩ := List.mem_filter.1 hv
  obtain ⟨hw, htw⟩ := List.mem_filter.1 hw
  obtain ⟨hvm, hvk⟩ := mem_run.1 hv
  obtain ⟨hwm, hwk⟩ := mem_run.1 hw
  obtain ⟨t, ht⟩ := createdAt_of_keep hvk
  obtain ⟨t', ht'⟩ := createdAt_of_keep hwk
  have hidv := c.named v hvm (by simpa using htv)
  have hidw := c.named w hwm (by simpa using htw)
  have hle : ((Firestore.ofRepository name).orderBy "created_at" true).key w
      ≤ ((Firestore.ofRepository name).orderBy "created_at" true).key v :=
    le_of_lt (of_decide_eq_true hb)
  refine OrderDual.toDual_le_toDual.2 ?_
  simp only [Query.key, Query.orderBy, Option.bind_some, Document.field, Document.name, ht, ht',
    Option.map_some, Prod.Lex.toLex_le_toLex] at hle
  simp only [ht, ht', hidv, hidw, Option.getD_some, Prod.Lex.toLex_le_toLex]
  rcases hle with hlt | ⟨heq, hname⟩
  · exact .inl (Value.text_lt.1 (WithBot.coe_lt_coe.1 hlt))
  · exact .inr ⟨Value.text.inj (WithBot.coe_injective heq), hname⟩

/-- The rows of one spelling are among its executions, and the newest of them are the newest of
those. -/
theorem rowsOf_spec (c : Content ρ) (hl : 0 < limit) :
    (Firestore.rowsOf c.docs limit name).Subperm (spelled c.docs name) ∧
      (sortBy Row.newness (Firestore.rowsOf c.docs limit name)).take limit
        = (sortBy Row.newness (spelled c.docs name)).take limit := by
  have hnodup : ((spelled c.docs name).map Row.newness).Nodup := c.newness_nodup spelled_not_ticket
  unfold Firestore.rowsOf
  simp only []
  split
  · rename_i hlegacy
    rw [iterPages_eq c.distinct (by omega), decide_eq_true hlegacy, keepRows_legacy]
    have hperm : ((Firestore.ofRepository name).run c.docs |>.filter fun v => !v.isTicket).Perm
        (spelled c.docs name) := by
      refine (run_perm.filter _).trans (List.Perm.of_eq ?_)
      rw [List.filter_filter]
      exact List.filter_congr fun v _ => by rw [ofRepository_keep, Bool.and_comm]
    refine ⟨hperm.subperm, ?_⟩
    rw [sortBy_congr hperm.symm hnodup]
  · rename_i hlegacy
    rw [iterPages_eq c.distinct (by omega), decide_eq_false hlegacy, keepRows_ordered _ _ hl,
      Nat.sub_zero]
    have hperm := indexed_perm (c := c) (not_not.1 hlegacy)
    have hsort : sortBy Row.newness (spelled c.docs name) = indexed c.docs name :=
      sortBy_eq hperm.symm hnodup (indexed_pairwise c)
    refine ⟨((List.take_sublist _ _).subperm).trans hperm.subperm, ?_⟩
    rw [hsort]
    have hnodup' : ((indexed c.docs name).map Row.newness).Nodup :=
      nodup_of_subperm hperm.subperm hnodup
    have hcut : sortBy Row.newness ((indexed c.docs name).take limit)
        = (indexed c.docs name).take limit :=
      sortBy_eq .rfl (List.Nodup.sublist ((List.take_sublist _ _).map _) hnodup')
        ((indexed_pairwise c).sublist (List.take_sublist _ _))
    exact (congrArg (List.take limit) hcut).trans (by rw [List.take_take, Nat.min_self])

theorem mem_spelled {docs : List (Row ρ)} {v : Row ρ} :
    v ∈ spelled docs name ↔ v ∈ docs ∧ v.repository = some name ∧ v.isTicket = false := by
  unfold spelled
  rw [List.mem_filter, Bool.and_eq_true, decide_eq_true_eq, Bool.not_eq_true']

/-- The executions of every spelling are those of the repository. -/
theorem spelled_perm (c : Content ρ) (aliases : Aliases) :
    (aliases.names.flatMap (spelled c.docs)).Perm
      (c.docs.filter fun v => v.repository.any (· ∈ aliases.names) && !v.isTicket) := by
  have hdocs : c.docs.Nodup := Queries.Distinct.nodup c.distinct
  refine (List.perm_ext_iff_of_nodup ?_ (hdocs.filter _)).2 fun v => ?_
  · refine List.nodup_flatMap.2 ⟨fun _ _ => hdocs.filter _, ?_⟩
    refine aliases.distinct.imp fun {m n} hne => ?_
    intro v hm hn
    have hmn := (mem_spelled.1 hm).2.1.symm.trans (mem_spelled.1 hn).2.1
    exact hne (Option.some.inj hmn)
  · rw [List.mem_flatMap, List.mem_filter, Bool.and_eq_true, Bool.not_eq_true']
    constructor
    · rintro ⟨name, hname, hv⟩
      obtain ⟨hm, hr, ht⟩ := mem_spelled.1 hv
      exact ⟨hm, by simp [hr, hname], ht⟩
    · rintro ⟨hm, hr, ht⟩
      cases hrep : v.repository with
      | none => simp [hrep] at hr
      | some name => exact ⟨name, by simpa [hrep] using hr, mem_spelled.2 ⟨hm, hrep, ht⟩⟩

theorem listForRepository_eq (c : Content ρ) (aliases : Aliases) (limit : ℕ) :
    Firestore.listForRepository c.docs aliases.names limit
      = InMemory.listForRepository c.docs aliases.names limit := by
  unfold Firestore.listForRepository InMemory.listForRepository
  split
  · rename_i h
    rw [h, List.take_zero]
  · rename_i h
    have hperm := spelled_perm c aliases
    have hnodup : ((aliases.names.flatMap (spelled c.docs)).map Row.newness).Nodup :=
      (hperm.map _).nodup_iff.2 (c.newness_nodup fun v hv => by
        simpa using (Bool.and_eq_true_iff.1 hv).2)
    have hl := Nat.pos_of_ne_zero h
    rw [take_sortBy_flatMap hnodup (fun _ _ => (rowsOf_spec c hl).1)
      (fun _ _ => (rowsOf_spec c hl).2), sortBy_congr hperm hnodup]

end Repository

/-! ## The executions that are due -/

section Due

variable {c : Content ρ} {v : Row ρ}

theorem due_not_ticket : v.due = true → v.isTicket = false := by
  intro h
  unfold Row.due at h
  cases ht : v.isTicket with
  | false => rfl
  | true => simp [ht] at h

theorem setById_cases {byId : List (Row ρ)}
    (h : ∀ w ∈ byId, w.executionId = v.executionId → w = v) :
    v ∈ byId ∧ Firestore.setById byId v = byId ∨
      v ∉ byId ∧ Firestore.setById byId v = byId ++ [v] := by
  unfold Firestore.setById
  by_cases hv : v ∈ byId
  · refine .inl ⟨hv, ?_⟩
    rw [if_pos (List.any_eq_true.2 ⟨v, hv, decide_eq_true rfl⟩)]
    refine (List.map_congr_left fun w hw => ?_).trans (List.map_id _)
    split
    · rename_i hid
      exact (h w hw hid).symm
    · rfl
  · refine .inr ⟨hv, if_neg fun hany => ?_⟩
    obtain ⟨w, hw, hid⟩ := List.any_eq_true.1 hany
    exact hv (h w hw (of_decide_eq_true hid) ▸ hw)

/-- Documents that differ in their ids are each kept once. -/
theorem byId_spec : ∀ {rows byId : List (Row ρ)},
    (∀ v ∈ byId ++ rows, ∀ w ∈ byId ++ rows, v.executionId = w.executionId → v = w) →
      byId.Nodup → (rows.foldl Firestore.setById byId).Nodup ∧
        ∀ v, v ∈ rows.foldl Firestore.setById byId ↔ v ∈ byId ++ rows
  | [], byId, _, hn => ⟨hn, fun v => by rw [List.append_nil]; rfl⟩
  | w :: rows, byId, h, hn => by
    have hset := setById_cases fun x (hx : x ∈ byId) hid =>
      h x (by simp [hx]) w (by simp) hid
    have hmem : ∀ x, x ∈ Firestore.setById byId w ↔ x ∈ byId ∨ x = w := by
      intro x
      rcases hset with ⟨hw, heq⟩ | ⟨-, heq⟩ <;> rw [heq]
      · exact ⟨.inl, fun hx => hx.elim id fun he => he ▸ hw⟩
      · rw [List.mem_append, List.mem_singleton]
    have hnext : (Firestore.setById byId w).Nodup := by
      rcases hset with ⟨-, heq⟩ | ⟨hw, heq⟩ <;> rw [heq]
      · exact hn
      · rw [← List.concat_eq_append]
        exact hn.concat hw
    have hin : ∀ x ∈ Firestore.setById byId w ++ rows, x ∈ byId ++ w :: rows := by
      intro x hx
      rcases List.mem_append.1 hx with hx | hx
      · rcases (hmem x).1 hx with hx | rfl <;> simp [*]
      · simp [hx]
    obtain ⟨hdone, hiff⟩ := byId_spec
      (fun x hx y hy => h x (hin x hx) y (hin y hy)) hnext
    refine ⟨hdone, fun x => (hiff x).trans ?_⟩
    rw [List.mem_append, hmem, List.mem_append, List.mem_cons, or_assoc]

theorem keep_of_status (h : Firestore.legacyRows c.docs Query.all
      (Query.all.whereNotNull "status") (fun fence => decide (fence.status.join = none)) = 0)
    (hm : v ∈ c.docs) (ht : v.isTicket = false) : ∃ s, v.status = some (some s) := by
  have hkeep : (Query.all.whereNotNull "status").keep v = true := by
    by_contra hi
    have := ticket_of_skipped (fun _ _ => rfl) (fun w hw => ⟨rfl, ?_⟩) h hm rfl
      (Bool.eq_false_of_not_eq_true hi)
    · rw [ht] at this
      cases this
    · have hw := of_decide_eq_true hw
      unfold Query.whereNotNull
      simp only [Document.field, Query.all]
      rcases hs : w.status with _ | _ | s
      · rfl
      · rfl
      · simp [hs] at hw
  unfold Query.whereNotNull at hkeep
  simp only [Document.field, Query.all] at hkeep
  rcases hs : v.status with _ | _ | s
  · simp [hs] at hkeep
  · simp [hs, nullable] at hkeep
  · exact ⟨s, rfl⟩

theorem operation_of_known (h : Firestore.legacyRows c.docs Query.all
      (Query.all.whereIn "operation" Firestore.knownOperations)
      (fun fence => !(fence.operationIs "main_release" || fence.operationIs "pr_quality")) = 0)
    (hm : v ∈ c.docs) (ht : v.isTicket = false) :
    v.operationIs "main_release" = true ∨ v.operationIs "pr_quality" = true := by
  have hiff : ∀ w : Row ρ, (Query.all.whereIn "operation" Firestore.knownOperations).keep w
      = (w.operationIs "main_release" || w.operationIs "pr_quality") := by
    intro w
    unfold Query.whereIn Query.all Row.operationIs Firestore.knownOperations
    simp only [Document.field, Bool.true_and]
    rcases w.operation with _ | _ | s
    · rfl
    · simp [nullable]
    · rw [Bool.eq_iff_iff]
      simp [nullable]
  have hkeep : (Query.all.whereIn "operation" Firestore.knownOperations).keep v = true := by
    by_contra hi
    have := ticket_of_skipped (fun _ _ => rfl)
      (fun w hw => ⟨rfl, by rw [hiff]; simpa using hw⟩) h hm rfl
      (Bool.eq_false_of_not_eq_true hi)
    rw [ht] at this
    cases this
  rw [hiff, Bool.or_eq_true] at hkeep
  exact hkeep

theorem statusIs_iff {s t : String} (hs : v.status = some (some s)) :
    v.statusIs t = true ↔ s = t := by
  unfold Row.statusIs
  rw [hs, decide_eq_true_eq]
  exact ⟨fun h => Option.some.inj h, congrArg some⟩

theorem failed_keep (h : v.plannerRetryCandidate = true) :
    (Firestore.failedQuery : Query (Row ρ)).keep v = true := by
  unfold Row.plannerRetryCandidate Row.statusIs Row.operationIs at h
  simp only [decide_eq_true_eq] at h
  obtain ⟨-, hs, hp, ho, hr, he, hc, -⟩ := h
  have hs' : v.status = some (some "failed") := by
    rcases hv : v.status with _ | _ | s <;> simp [hv] at hs ⊢
    exact hs
  have ho' : v.operation = some (some "main_release") := by
    rcases hv : v.operation with _ | _ | s <;> simp [hv] at ho ⊢
    exact ho
  simp [Firestore.failedQuery, Query.whereEq, Query.all, Document.field, hs', hp, ho', hr, he, hc,
    nullable]

/-- Every execution that is due is in one of the queries. -/
theorem exists_query (hm : v ∈ c.docs) (hdue : v.due = true) :
    ∃ query ∈ Firestore.dueQueries c.docs, query.keep v = true := by
  have ht := due_not_ticket hdue
  unfold Firestore.dueQueries
  simp only []
  split
  · exact ⟨Query.all, .head _, rfl⟩
  rename_i hmissing
  obtain ⟨s, hs⟩ := keep_of_status (not_not.1 hmissing) hm ht
  unfold Row.due at hdue
  rw [Bool.and_eq_true, Bool.and_eq_true] at hdue
  obtain ⟨⟨hopen, -⟩, hpassed⟩ := hdue
  by_cases hp : s = "quality_passed"
  · refine ⟨Firestore.passedQuery c.docs, .tail _ (.head _), ?_⟩
    have hstatus : (Query.all.whereEq "status" (.text "quality_passed")).keep v = true := by
      simp [Query.whereEq, Query.all, Document.field, hs, hp, nullable]
    unfold Firestore.passedQuery
    simp only []
    split
    · exact hstatus
    · rename_i hop
      have hmain : v.operationIs "main_release" = true := by
        rcases operation_of_known (not_not.1 hop) hm ht with hmain | hpr
        · exact hmain
        · rw [hpr, (statusIs_iff hs).2 hp] at hpassed
          cases hpassed
      have ho : v.operation = some (some "main_release") := by
        unfold Row.operationIs at hmain
        rcases hv : v.operation with _ | _ | o <;> simp [hv] at hmain ⊢
        exact hmain
      simp [Query.whereEq, Query.all, Document.field, hs, hp, ho, nullable]
  · rw [Bool.or_eq_true, Bool.not_eq_true'] at hopen
    rcases hopen with hopen | hcand
    · refine ⟨_, .head _, ?_⟩
      unfold Row.terminal at hopen
      rw [hs] at hopen
      have hn : s ∉ terminal := by simpa using hopen
      have hskip : Value.text s ∉ (terminal ++ ["quality_passed"]).map .text := by
        intro hmem
        obtain ⟨t, ht, he⟩ := List.mem_map.1 hmem
        obtain rfl := Value.text.inj he
        rcases List.mem_append.1 ht with ht | ht
        · exact hn ht
        · exact hp (List.mem_singleton.1 ht)
      unfold Query.whereNotIn Query.all
      simp only [Document.field, hs, Option.map_some, Option.any_some, nullable, Bool.true_and]
      exact decide_eq_true ⟨nofun, hskip⟩
    · exact ⟨_, .tail _ (.tail _ (.head _)), failed_keep hcand⟩

/-- Rows that share no id are collected as they are. -/
theorem byId_collects {rows : List (Row ρ)}
    (h : ∀ v ∈ rows, ∀ w ∈ rows, v.executionId = w.executionId → v = w) :
    (rows.foldl Firestore.setById []).Nodup ∧
      ∀ v, v ∈ rows.foldl Firestore.setById [] ↔ v ∈ rows :=
  byId_spec h List.nodup_nil

theorem iterDue_eq (c : Content ρ) {pageSize : ℕ} (h : 0 < pageSize) :
    Firestore.iterDue c.docs pageSize = InMemory.iterDue c.docs := by
  unfold Firestore.iterDue InMemory.iterDue
  simp only []
  have hrows : ∀ v, v ∈ ((Firestore.dueQueries c.docs).flatMap fun query =>
      query.iterPages c.docs pageSize).filter Row.due ↔ v ∈ c.docs.filter Row.due := by
    intro v
    rw [List.mem_filter, List.mem_filter, List.mem_flatMap]
    constructor
    · rintro ⟨⟨query, -, hv⟩, hdue⟩
      rw [iterPages_eq c.distinct h] at hv
      exact ⟨(mem_run.1 hv).1, hdue⟩
    · rintro ⟨hm, hdue⟩
      obtain ⟨query, hq, hk⟩ := exists_query hm hdue
      refine ⟨⟨query, hq, ?_⟩, hdue⟩
      rw [iterPages_eq c.distinct h]
      exact mem_run.2 ⟨hm, hk⟩
  have hinj : ∀ v ∈ c.docs.filter Row.due, ∀ w ∈ c.docs.filter Row.due,
      v.executionId = w.executionId → v = w := fun v hv w hw =>
    c.id_inj (List.mem_filter.1 hv).1 (List.mem_filter.1 hw).1
      (due_not_ticket (List.mem_filter.1 hv).2) (due_not_ticket (List.mem_filter.1 hw).2)
  obtain ⟨hnodup, hmem⟩ := byId_collects fun v hv w hw =>
    hinj v ((hrows v).1 hv) w ((hrows w).1 hw)
  have hperm : (c.docs.filter Row.due).Perm
      ((((Firestore.dueQueries c.docs).flatMap fun query =>
        query.iterPages c.docs pageSize).filter Row.due).foldl Firestore.setById []) :=
    (List.perm_ext_iff_of_nodup ((Queries.Distinct.nodup c.distinct).filter _) hnodup).2 fun v =>
      ((hmem v).trans (hrows v)).symm
  exact (sortBy_congr hperm (c.updates_nodup fun v => due_not_ticket)).symm

end Due

/-- The indexed reads are the plain scan. -/
theorem indexed_reads_are_the_scan (c : Content ρ) (aliases : Aliases) :
    (∀ pageSize, 0 < pageSize →
      Firestore.iterDue c.docs pageSize = InMemory.iterDue c.docs) ∧
    ∀ limit, Firestore.listForRepository c.docs aliases.names limit
      = InMemory.listForRepository c.docs aliases.names limit :=
  ⟨fun _ h => iterDue_eq c h, listForRepository_eq c aliases⟩

end Release.Listing
