import EngPlatform.Deployment.Store

/-!
# One deployment store behind two backends

`save` keeps the ids of both backends distinct and every key but the empty one on one record, and
leaves both with the same records. Over the same records every read of the Firestore side, ordered
queries, counts, legacy scans and pages, comes to what the scan of the local file gives.
-/

set_option linter.dupNamespace false

namespace Deployment

open Queries

variable {ρ : Type}

/-- No two records have one key, but for the empty one. -/
def KeyedOnce (records : List (Record ρ)) : Prop :=
  ∀ r ∈ records, ∀ r' ∈ records, r.key ≠ "" → r.key = r'.key → r.id = r'.id

theorem idempotencyKey_iff {r : Record ρ} {key : String} (hk : key ≠ "") :
    r.idempotencyKey = some key ↔ r.key = key := by
  unfold Record.key
  cases r.idempotencyKey with
  | none => simpa using Ne.symm hk
  | some k => simp

theorem find?_perm {α : Type} {p : α → Bool} {l l' : List α} (h : l.Perm l')
    (hu : ∀ a ∈ l, ∀ b ∈ l, p a = true → p b = true → a = b) : l.find? p = l'.find? p := by
  cases hf : l.find? p with
  | none =>
    symm
    rw [List.find?_eq_none] at hf ⊢
    exact fun a hm => hf a (h.mem_iff.2 hm)
  | some a =>
    have ha := List.mem_of_find?_eq_some hf
    have hp := List.find?_some hf
    obtain ⟨b, hb⟩ := Option.isSome_iff_exists.1
      (List.find?_isSome.2 ⟨a, h.mem_iff.1 ha, hp⟩)
    rw [hb, hu a ha b (h.mem_iff.2 (List.mem_of_find?_eq_some hb)) hp (List.find?_some hb)]

/-- The only match of a filter, first in whatever list the matches come. -/
theorem head?_eq_find? {α : Type} {p : α → Bool} {l matches' : List α}
    (hm : ∀ a, a ∈ matches' ↔ a ∈ l ∧ p a = true)
    (hu : ∀ a ∈ l, ∀ b ∈ l, p a = true → p b = true → a = b) :
    matches'.head? = l.find? p := by
  cases matches' with
  | nil =>
    symm
    rw [List.head?_nil, List.find?_eq_none]
    exact fun a ha hp => nomatch (hm a).2 ⟨ha, hp⟩
  | cons a as =>
    obtain ⟨ha, hp⟩ := (hm a).1 (.head _)
    obtain ⟨b, hb⟩ := Option.isSome_iff_exists.1 (List.find?_isSome.2 ⟨a, ha, hp⟩)
    rw [List.head?_cons, hb,
      hu a ha b (List.mem_of_find?_eq_some hb) hp (List.find?_some hb)]

/-- Both stores hold the same records. -/
structure Same (docs records : List (Record ρ)) : Prop where
  perm : docs.Perm records
  distinct : Distinct records
  keyed : KeyedOnce records

section Agree

variable {docs records : List (Record ρ)}

theorem Same.distinct_docs (h : Same docs records) : Distinct docs := h.distinct.perm h.perm.symm

theorem Distinct.eq_of_id {l : List (Record ρ)} (hd : Distinct l) {r r' : Record ρ} (h : r ∈ l)
    (h' : r' ∈ l) (hi : r.id = r'.id) : r = r' := Queries.Distinct.eq hd h h' hi

theorem document_eq (h : Same docs records) (id : String) :
    Firestore.document docs id = LocalFile.record records id := by
  refine find?_perm h.perm fun a ha b hb hpa hpb => ?_
  simp only [decide_eq_true_eq] at hpa hpb
  exact Distinct.eq_of_id h.distinct_docs ha hb (hpa.trans hpb.symm)

theorem recordOfKey_eq (h : Same docs records) {key : String} (hk : key ≠ "") :
    Firestore.recordOfKey docs key = records.find? (·.idempotencyKey = some key) := by
  unfold Firestore.recordOfKey
  rw [if_neg hk, List.head?_take, if_neg Nat.one_ne_zero]
  refine head?_eq_find? (fun r => ?_) fun a ha b hb hpa hpb => ?_
  · rw [mem_run, h.perm.mem_iff]
    refine and_congr_right fun _ => ?_
    simp only [Query.whereEq, Query.all, Document.field, Bool.true_and, beq_iff_eq,
      decide_eq_true_eq]
    cases r.idempotencyKey <;> simp
  · simp only [decide_eq_true_eq, idempotencyKey_iff hk] at hpa hpb
    exact Distinct.eq_of_id h.distinct ha hb
      (h.keyed a ha b hb (hpa ▸ hk) (hpa.trans hpb.symm))

theorem ages_nodup {l : List (Record ρ)} (hd : Distinct l) :
    ((l.map (·.item)).map Item.age).Nodup := by
  refine List.Nodup.of_map (fun k : String ×ₗ String => (ofLex k).2) ?_
  rw [List.map_map, List.map_map]
  exact hd

theorem duals_nodup {l : List (Record ρ)} (hd : Distinct l) :
    ((l.map (·.item)).map fun item => OrderDual.toDual item.age).Nodup :=
  ages_nodup hd

theorem newestFirst_congr {l l' : List (Record ρ)} (hd : Distinct l) (h : l.Perm l') :
    newestFirst (l.map (·.item)) = newestFirst (l'.map (·.item)) :=
  sortBy_congr (h.map _) (duals_nodup hd)

theorem ofService_filter (service : String) :
    docs.filter (Firestore.ofService service).keep = docs.filter (·.serviceName = service) := by
  refine List.filter_congr fun r _ => ?_
  rw [Bool.eq_iff_iff]
  simp [Firestore.ofService, Query.whereEq, Query.all, Document.field]

theorem ofService_perm (h : Same docs records) (service : String) :
    ((Firestore.ofService service).run docs).Perm
      (records.filter (·.serviceName = service)) := by
  refine run_perm.trans ?_
  rw [ofService_filter]
  exact h.perm.filter _

theorem ofService_count (h : Same docs records) (service : String) :
    (Firestore.ofService service).count docs
      = (records.filter (·.serviceName = service)).length := by
  rw [← length_run]
  exact (ofService_perm h service).length_eq

/-- Where no record of the service misses its time of creation, the ordered query is the sort. -/
theorem newest_run (h : Same docs records) {service : String}
    (hc : (Firestore.newest service).count docs = (Firestore.ofService service).count docs) :
    ((Firestore.newest service).run docs).map (·.item)
      = newestFirst ((records.filter (·.serviceName = service)).map (·.item)) := by
  have hall := count_orderBy.1 hc
  have hfilter : docs.filter (Firestore.newest service).keep
      = docs.filter (Firestore.ofService service).keep := by
    refine List.filter_congr fun r hm => ?_
    cases hk : (Firestore.ofService service).keep r with
    | false => simp [Firestore.newest, Query.orderBy, hk]
    | true => simp [Firestore.newest, Query.orderBy, hk, hall r hm hk]
  have hperm : ((Firestore.newest service).run docs).Perm
      (records.filter (·.serviceName = service)) := by
    refine run_perm.trans ?_
    rw [hfilter, ofService_filter]
    exact h.perm.filter _
  symm
  refine sortBy_eq (hperm.symm.map _) (duals_nodup h.distinct.filter) ?_
  rw [List.pairwise_map]
  refine (run_pairwise h.distinct_docs).imp_of_mem fun {r r'} hr hr' hb => ?_
  have hsome : ∀ r ∈ (Firestore.newest service).run docs, ∃ t, r.createdAt = some t := by
    intro r hr
    have := (Bool.and_eq_true_iff.1 (mem_run.1 hr).2).2
    exact Option.isSome_iff_exists.1 (by simpa [Document.field] using this)
  obtain ⟨t, ht⟩ := hsome r hr
  obtain ⟨t', ht'⟩ := hsome r' hr'
  have hlt : (Firestore.newest service).key r' < (Firestore.newest service).key r :=
    of_decide_eq_true hb
  show r'.item.age ≤ r.item.age
  have hle := le_of_lt hlt
  simp only [Query.key, Firestore.newest, Query.orderBy, Option.bind_some, Document.field,
    Document.name, ht, ht', Option.map_some, Prod.Lex.toLex_le_toLex] at hle
  simp only [Item.age, Record.item, ht, ht', Option.getD_some, Prod.Lex.toLex_le_toLex]
  rcases hle with hlt | ⟨heq, hid⟩
  · exact .inl (Value.text_lt.1 (WithBot.coe_lt_coe.1 hlt))
  · exact .inr ⟨Value.text.inj (WithBot.coe_injective heq), hid⟩


/-! ### The newest deployment of each service -/

/-- The items of a service, newest first. -/
def itemsOf (records : List (Record ρ)) (service : String) : List (Item ρ) :=
  newestFirst ((records.filter (·.serviceName = service)).map (·.item))

theorem argmax_eq (h : Same docs records) {service : String} :
    ((((Firestore.ofService service).iterPages docs 200).map (·.item)).argmax Item.age)
      = (itemsOf records service).head? := by
  rw [iterPages_eq h.distinct_docs (by decide)]
  have hperm := (ofService_perm h service).map (·.item)
  cases hmax : (((Firestore.ofService service).run docs).map (·.item)).argmax Item.age with
  | none =>
    rw [List.argmax_eq_none.1 hmax] at hperm
    unfold itemsOf
    rw [List.nil_perm.1 hperm, newestFirst, sortBy_nil, List.head?_nil]
  | some m =>
    symm
    refine head?_sortBy (duals_nodup h.distinct.filter)
      (hperm.mem_iff.1 (List.argmax_mem hmax)) fun a ha => ?_
    exact OrderDual.toDual_le_toDual.2
      (List.le_of_mem_argmax (hperm.mem_iff.2 ha) hmax)

/-- Where every document has its time of creation, so have those of a service. -/
theorem newest_count {service : String}
    (hl : Query.all.count docs = (Query.all.orderBy "created_at" false).count docs) :
    (Firestore.newest service).count docs = (Firestore.ofService service).count docs :=
  count_orderBy.2 fun r hm _ => count_orderBy.1 hl.symm r hm rfl

theorem latestForService_eq (h : Same docs records) (service : String) :
    Firestore.latestForService docs
        (Query.all.count docs ≠ (Query.all.orderBy "created_at" false).count docs) service
      = (itemsOf records service).head? := by
  unfold Firestore.latestForService
  split
  · exact argmax_eq h
  · rename_i hc
    have hcount : (Firestore.newest service).count docs
        = (Firestore.ofService service).count docs := by
      by_cases hl : Query.all.count docs = (Query.all.orderBy "created_at" false).count docs
      · exact newest_count hl
      · by_contra hne
        exact hc ⟨decide_eq_true hl, Ne.symm hne⟩
    rw [List.head?_take, if_neg Nat.one_ne_zero, ← List.head?_map, newest_run h hcount]
    rfl

theorem lookup_filterMap {f : String → Option (Item ρ)} (service : String) :
    ∀ services : List String,
      (services.filterMap fun s => (f s).map (s, ·)).lookup service
        = if service ∈ services then f service else none
  | [] => rfl
  | s :: services => by
    have ih := lookup_filterMap (f := f) service services
    by_cases hs : service = s
    · subst hs
      cases hf : f service with
      | none =>
        rw [List.filterMap_cons_none (by rw [hf]; rfl), ih, hf, ite_self, ite_self]
      | some item =>
        rw [List.filterMap_cons_some (by rw [hf]; rfl), List.lookup_cons_self,
          if_pos List.mem_cons_self]
    · have hmem : (service ∈ s :: services) = (service ∈ services) := by simp [hs]
      cases hf : f s with
      | none =>
        rw [List.filterMap_cons_none (by rw [hf]; rfl), ih]
        simp only [hmem]
      | some item =>
        rw [List.filterMap_cons_some (by rw [hf]; rfl), List.lookup_cons,
          beq_false_of_ne hs, ih]
        simp only [hmem]

/-- `setdefault` keeps the first item of a service. -/
theorem setdefault_lookup (service : String) : ∀ (items : List (Item ρ))
    (latest : List (String × Item ρ)),
    (items.foldl (fun latest item =>
        if (latest.lookup item.serviceName).isSome then latest
        else latest ++ [(item.serviceName, item)]) latest).lookup service
      = (latest.lookup service).or (items.find? (·.serviceName = service))
  | [], latest => by rw [List.foldl_nil, List.find?_nil, Option.or_none]
  | item :: items, latest => by
    rw [List.foldl_cons, setdefault_lookup service items, List.find?_cons]
    by_cases hs : item.serviceName = service
    · subst hs
      cases hl : latest.lookup item.serviceName with
      | none => simp [hl, List.lookup_append]
      | some _ => simp [hl]
    · have hne : (service == item.serviceName) = false := beq_false_of_ne (Ne.symm hs)
      by_cases hl : (latest.lookup item.serviceName).isSome
      · simp [hl, hs]
      · simp [hl, hs, List.lookup_append, List.lookup_cons, hne]

theorem latest_eq (h : Same docs records) (services : List String) (service : String) :
    (Firestore.latestForServices docs services).lookup service
      = (LocalFile.latestForServices records services).lookup service := by
  unfold Firestore.latestForServices LocalFile.latestForServices
  simp only []
  rw [lookup_filterMap, setdefault_lookup, List.lookup_nil, Option.none_or]
  unfold newestFirst
  rw [find?_sortBy (duals_nodup h.distinct.filter), List.filter_map, List.filter_filter]
  rw [latestForService_eq h]
  by_cases hs : service ∈ services
  · rw [if_pos (by simpa using hs)]
    unfold itemsOf newestFirst
    congr 3
    refine List.filter_congr fun r _ => ?_
    by_cases hr : r.serviceName = service
    · simp [Record.item, hr, hs]
    · simp [Record.item, hr]
  · rw [if_neg (by simpa using hs)]
    rw [List.filter_eq_nil_iff.2]
    · rw [List.map_nil, sortBy_nil, List.head?_nil]
    · intro r _ hr
      simp only [Function.comp_apply, Record.item, Bool.and_eq_true, decide_eq_true_eq] at hr
      exact hs (hr.1 ▸ hr.2)

theorem list_eq (h : Same docs records) (service : String) (limit : ℕ) :
    Firestore.listForServiceWithTotal docs service limit
      = LocalFile.listForServiceWithTotal records service limit := by
  unfold Firestore.listForServiceWithTotal LocalFile.listForServiceWithTotal
  simp only [ofService_count h, List.length_map]
  split
  · rw [iterPages_eq h.distinct_docs (by decide)]
    have hperm := ofService_perm h service
    rw [newestFirst_congr (h.distinct.filter.perm hperm.symm) hperm]
  · rename_i hc
    rw [List.map_take, newest_run h ((not_not.1 hc).trans (ofService_count h service).symm)]

/-! ### The unfinished deployments -/

theorem terminal_text {status : Status} :
    Value.text status.text ∈ terminalStatuses.map (.text ·.text) ↔ status ∈ terminalStatuses := by
  cases status <;> decide

theorem notIn_keep {r : Record ρ} (h : r.status.isSome = true) :
    (Query.all.whereNotIn "status" (terminalStatuses.map (.text ·.text))).keep r
      = r.unfinished := by
  obtain ⟨status, hs⟩ := Option.isSome_iff_exists.1 h
  rw [Bool.eq_iff_iff]
  unfold Query.whereNotIn Query.all Record.unfinished
  simp only [Document.field, hs, Option.map_some, Option.any_some, Option.all_some, Bool.true_and,
    decide_eq_true_eq, terminal_text]
  exact ⟨fun hr => hr.2, fun hr => ⟨nofun, hr⟩⟩

theorem status_of_count
    (hc : (Query.all.whereNotNull "status").count docs = Query.all.count docs) :
    ∀ r ∈ docs, r.status.isSome = true := by
  intro r hm
  have hk := keep_of_count (fun _ _ => rfl) hc r hm rfl
  unfold Query.whereNotNull at hk
  simp only [Document.field] at hk
  cases hs : r.status with
  | some _ => rfl
  | none => simp [hs] at hk

theorem unfinished_eq (h : Same docs records) {pageSize : ℕ} (hs : 0 < pageSize) :
    Firestore.iterUnfinished docs pageSize = LocalFile.iterUnfinished records := by
  unfold Firestore.iterUnfinished LocalFile.iterUnfinished
  simp only []
  refine (sortBy_congr (List.Perm.map _ ?_) (ages_nodup h.distinct.filter)).symm
  rw [iterPages_eq h.distinct_docs hs]
  refine (h.perm.symm.filter _).trans (List.Perm.symm ?_)
  split
  · refine (run_perm.filter _).trans ?_
    rw [List.filter_filter]
    simp [Query.all]
  · rename_i hc
    refine (run_perm.filter _).trans ?_
    rw [List.filter_filter]
    refine List.Perm.of_eq (List.filter_congr fun r hm => ?_)
    rw [notIn_keep (status_of_count (not_not.1 hc) r hm), Bool.and_self]

end Agree

/-! ### A save -/

section Save

variable {docs records : List (Record ρ)} {item : Item ρ} {key : String}

/-- The record that `save` writes. -/
def savedRecord (records : List (Record ρ)) (item : Item ρ) (key : String) : Record ρ :=
  item.record (if key = "" then LocalFile.idempotencyKeyFor records item.id else key)

def keptRecords (records : List (Record ρ)) (item : Item ρ) (key : String) : List (Record ρ) :=
  records.filter fun r => r.id ≠ item.id ∧ (key = "" ∨ r.idempotencyKey ≠ some key)

theorem local_save :
    LocalFile.save records item key
      = keptRecords records item key ++ [savedRecord records item key] := rfl

@[simp] theorem savedRecord_id : (savedRecord records item key).id = item.id := rfl

theorem savedRecord_key :
    (savedRecord records item key).key
      = if key = "" then LocalFile.idempotencyKeyFor records item.id else key := rfl

theorem mem_kept {r : Record ρ} :
    r ∈ keptRecords records item key
      ↔ r ∈ records ∧ r.id ≠ item.id ∧ (key = "" ∨ r.key ≠ key) := by
  unfold keptRecords
  rw [List.mem_filter, decide_eq_true_eq]
  by_cases hk : key = ""
  · simp [hk]
  · simp [hk, idempotencyKey_iff hk]

/-- The record of an id gives its key. -/
theorem keyFor_of_mem (hd : Distinct records) {r : Record ρ} (hm : r ∈ records) :
    LocalFile.idempotencyKeyFor records r.id = r.key := by
  have hf : LocalFile.record records r.id = some r := by
    unfold LocalFile.record
    have hsome : (records.find? (·.id = r.id)).isSome = true :=
      List.find?_isSome.2 ⟨r, hm, by rw [decide_eq_true_eq]⟩
    obtain ⟨r', hr'⟩ := Option.isSome_iff_exists.1 hsome
    have hp := List.find?_some hr'
    have hi : r'.id = r.id := of_decide_eq_true hp
    rw [hr', Distinct.eq_of_id hd (List.mem_of_find?_eq_some hr') hm hi]
  unfold LocalFile.idempotencyKeyFor
  rw [hf]
  rfl

theorem keyFor_of_notMem {id : String} (h : ∀ r ∈ records, r.id ≠ id) :
    LocalFile.idempotencyKeyFor records id = "" := by
  have hf : LocalFile.record records id = none :=
    List.find?_eq_none.2 fun r hm => by simpa using h r hm
  unfold LocalFile.idempotencyKeyFor
  rw [hf]
  rfl

theorem save_distinct (hd : Distinct records) : Distinct (LocalFile.save records item key) := by
  rw [local_save]
  unfold Distinct
  rw [List.map_append, List.nodup_append]
  refine ⟨hd.filter, List.nodup_singleton _, ?_⟩
  intro i hi j hj
  obtain ⟨r, hr, rfl⟩ := List.mem_map.1 hi
  rw [List.map_singleton, List.mem_singleton] at hj
  subst hj
  exact (mem_kept.1 hr).2.1

/-- The key of the record that is written is on no other. -/
theorem savedRecord_once (hd : Distinct records) (hk : KeyedOnce records) {r : Record ρ}
    (hr : r ∈ keptRecords records item key) (hne : r.key ≠ "") :
    r.key ≠ (savedRecord records item key).key := by
  obtain ⟨hm, hid, hkey⟩ := mem_kept.1 hr
  rw [savedRecord_key]
  split
  · intro heq
    by_cases hex : ∃ r' ∈ records, r'.id = item.id
    · obtain ⟨r', hm', hid'⟩ := hex
      rw [← hid', keyFor_of_mem hd hm'] at heq
      exact hid ((hk r hm r' hm' hne heq).trans hid')
    · rw [keyFor_of_notMem fun r' hm' hid' => hex ⟨r', hm', hid'⟩] at heq
      exact hne heq
  · rename_i hempty
    exact hkey.resolve_left hempty

theorem save_keyed (hd : Distinct records) (hk : KeyedOnce records) :
    KeyedOnce (LocalFile.save records item key) := by
  intro r hr r' hr' hne heq
  rw [local_save, List.mem_append, List.mem_singleton] at hr hr'
  rcases hr with hr | rfl
  · rcases hr' with hr' | rfl
    · exact hk r (mem_kept.1 hr).1 r' (mem_kept.1 hr').1 hne heq
    · exact absurd heq (savedRecord_once hd hk hr hne)
  · rcases hr' with hr' | rfl
    · exact absurd heq.symm (savedRecord_once hd hk hr' (heq ▸ hne))
    · rfl

theorem intent_spec (h : Same docs records) (key : String) :
    (Firestore.recordOfKey docs key = none ∧ (key = "" ∨ ∀ r ∈ docs, r.key ≠ key)) ∨
      ∃ intent, Firestore.recordOfKey docs key = some intent ∧ key ≠ "" ∧
        ∀ r ∈ docs, r.key = key ↔ r.id = intent.id := by
  by_cases hk : key = ""
  · exact .inl ⟨if_pos hk, .inl hk⟩
  rw [recordOfKey_eq h hk]
  cases hf : records.find? (·.idempotencyKey = some key) with
  | none =>
    refine .inl ⟨rfl, .inr fun r hm hr => ?_⟩
    have := List.find?_eq_none.1 hf r (h.perm.mem_iff.1 hm)
    exact this (decide_eq_true ((idempotencyKey_iff hk).2 hr))
  | some intent =>
    have hm := List.mem_of_find?_eq_some hf
    have hp := List.find?_some hf
    have hi : intent.key = key := (idempotencyKey_iff hk).1 (of_decide_eq_true hp)
    refine .inr ⟨intent, rfl, hk, fun r hr => ⟨fun hrk => ?_, fun hid => ?_⟩⟩
    · exact h.keyed r (h.perm.mem_iff.1 hr) intent hm (hrk ▸ hk) (hrk.trans hi.symm)
    · rw [Distinct.eq_of_id h.distinct (h.perm.mem_iff.1 hr) hm hid, hi]

theorem keptRecords_eq (h : ∀ r ∈ docs, r.id ≠ item.id → key = "" ∨ r.key ≠ key) :
    keptRecords docs item key = docs.filter (·.id ≠ item.id) := by
  refine List.filter_congr fun r hm => ?_
  rw [Bool.eq_iff_iff, decide_eq_true_eq, decide_eq_true_eq]
  refine ⟨fun hr => hr.1, fun hid => ⟨hid, ?_⟩⟩
  rcases h r hm hid with hk | hk
  · exact .inl hk
  · by_cases he : key = ""
    · exact .inl he
    · exact .inr fun hr => hk ((idempotencyKey_iff he).1 hr)

/-- The Firestore side writes the same record and keeps the same ones. -/
theorem firestore_save (h : Same docs records) :
    Firestore.save docs item key = savedRecord docs item key :: keptRecords docs item key := by
  have hput : Firestore.put docs (savedRecord docs item key)
      = savedRecord docs item key :: docs.filter (·.id ≠ item.id) := rfl
  have hkey : LocalFile.idempotencyKeyFor docs item.id
      = ((Firestore.document docs item.id).map (·.key)).getD "" := rfl
  unfold savedRecord at hput ⊢
  rw [hkey] at hput ⊢
  unfold Firestore.save
  dsimp only
  rw [hput]
  rcases intent_spec h key with ⟨hnone, hkeys⟩ | ⟨intent, hsome, hne, hkeys⟩
  · simp only [hnone]
    rw [keptRecords_eq fun r hm _ => hkeys.imp_right fun hk => hk r hm]
  · simp only [hsome]
    split
    · rename_i hid
      rw [keptRecords_eq fun r hm hr => .inr fun hk => hr (((hkeys r hm).1 hk).trans hid)]
    · rename_i hid
      unfold Firestore.delete
      have hkeep : decide ((savedRecord docs item key).id ≠ intent.id) = true :=
        decide_eq_true (Ne.symm hid)
      rw [List.filter_cons]
      refine (if_pos hkeep).trans ?_
      rw [List.filter_filter]
      refine congrArg (_ :: ·) (List.filter_congr fun r hm => ?_)
      rw [Bool.eq_iff_iff]
      simp only [Bool.and_eq_true, decide_eq_true_eq, hne, false_or, ne_eq,
        idempotencyKey_iff hne, hkeys r hm]
      exact and_comm

theorem savedRecord_eq (h : Same docs records) :
    savedRecord docs item key = savedRecord records item key := by
  have hk : LocalFile.idempotencyKeyFor docs item.id
      = LocalFile.idempotencyKeyFor records item.id :=
    congrArg (fun r => (r.map Record.key).getD "") (document_eq h item.id)
  unfold savedRecord
  rw [hk]

theorem Same.save (h : Same docs records) :
    Same (Firestore.save docs item key) (LocalFile.save records item key) where
  perm := by
    rw [firestore_save h, local_save, savedRecord_eq h]
    exact ((h.perm.filter _).cons _).trans (List.perm_append_singleton _ _).symm
  distinct := save_distinct h.distinct
  keyed := save_keyed h.distinct h.keyed

end Save

/-! ## Any number of saves -/

/-- What a store holds before the first of the saves: one record an id, and a key on one of them.
Any of them may miss its status, its time of creation or its key. -/
structure Content (ρ : Type) where
  records : List (Record ρ)
  distinct : Distinct records
  keyed : KeyedOnce records

def Firestore.saved (docs : List (Record ρ)) (saves : List (Item ρ × String)) : List (Record ρ) :=
  saves.foldl (fun docs s => Firestore.save docs s.1 s.2) docs

def LocalFile.saved (records : List (Record ρ)) (saves : List (Item ρ × String)) :
    List (Record ρ) :=
  saves.foldl (fun records s => LocalFile.save records s.1 s.2) records

theorem Same.saved : ∀ (saves : List (Item ρ × String)) {docs records : List (Record ρ)},
    Same docs records → Same (Firestore.saved docs saves) (LocalFile.saved records saves)
  | [], _, _, h => h
  | _ :: saves, _, _, h => Same.saved saves h.save

/-- Every read answers the same on both sides. -/
structure Agree (docs records : List (Record ρ)) : Prop where
  get : ∀ id, Firestore.get docs id = LocalFile.get records id
  findByIdempotencyKey : ∀ key,
    Firestore.findByIdempotencyKey docs key = LocalFile.findByIdempotencyKey records key
  idempotencyKeyFor : ∀ id,
    Firestore.idempotencyKeyFor docs id = LocalFile.idempotencyKeyFor records id
  listForServiceWithTotal : ∀ service limit,
    Firestore.listForServiceWithTotal docs service limit
      = LocalFile.listForServiceWithTotal records service limit
  latestForServices : ∀ services service,
    (Firestore.latestForServices docs services).lookup service
      = (LocalFile.latestForServices records services).lookup service
  countForService : ∀ service,
    Firestore.countForService docs service = LocalFile.countForService records service
  iterUnfinished : ∀ pageSize, 0 < pageSize →
    Firestore.iterUnfinished docs pageSize = LocalFile.iterUnfinished records

theorem Same.agree {docs records : List (Record ρ)} (h : Same docs records) :
    Agree docs records where
  get id := congrArg (Option.map Record.item) (document_eq h id)
  findByIdempotencyKey key := by
    unfold Firestore.findByIdempotencyKey LocalFile.findByIdempotencyKey
    by_cases hk : key = ""
    · simp [Firestore.recordOfKey, hk]
    · rw [recordOfKey_eq h hk, if_neg hk]
  idempotencyKeyFor id := congrArg (fun r => (r.map Record.key).getD "") (document_eq h id)
  listForServiceWithTotal := list_eq h
  latestForServices := latest_eq h
  countForService service := by
    rw [LocalFile.countForService, List.countP_eq_length_filter]
    exact ofService_count h service
  iterUnfinished _ hs := unfinished_eq h hs

end Deployment
