import EngPlatform.Lib.Acts
import EngPlatform.Releases.Registry
import Mathlib.Data.List.Find
import Mathlib.Data.List.Nodup

/-!
# The release history in Firestore and in the local file

`save_release` for a payload with a release id, on both backends. The transaction in Firestore
reads only the documents of the payload's own services, and the local path reads every record of
the release id. The rows of either backend are those of the registry.
-/

set_option linter.dupNamespace false

namespace Releases

/-! ## The payload -/

structure ServiceRevision where
  serviceName : String
  revision : String
  action : Action
  deriving DecidableEq

/-- The fields that go into a stored record beside the item. -/
structure Remarks where
  triggeredBy : String
  rollbackFromVersion : String
  notes : String
  deriving DecidableEq

/-- A payload with a release id and distinct services, and the time that it is saved at. -/
structure ReleaseCreateRequest where
  immutable : Identity
  status : String
  releaseId : String
  services : List ServiceRevision
  githubRunUrl : String
  remarks : Remarks
  now : String
  nonempty : services ≠ []
  identified : releaseId ≠ ""
  distinct : (services.map (·.serviceName)).Nodup

def normalizeService (service : ServiceRevision) : ServiceRevision :=
  if service.revision ≠ "" ∨ service.action ∈ [.unchanged, .notIncluded, .missing] then service
  else { service with revision := "", action := .missing }

def ReleaseCreateRequest.items (payload : ReleaseCreateRequest) : List ReleaseItem :=
  payload.services.map fun service => {
    serviceName := service.serviceName
    status := payload.status
    releaseId := payload.releaseId
    immutable := payload.immutable
    revision := (normalizeService service).revision
    action := (normalizeService service).action
    githubRunUrl := payload.githubRunUrl
    createdAt := payload.now }

/-- A stored record. -/
structure Row where
  item : ReleaseItem
  remarks : Remarks
  deriving DecidableEq

/-- `observationOnly` is the refusal of a service that is not managed, and `invalidDocument` that
of a document name by the Firestore client. -/
inductive SaveError
  | conflict (text : String)
  | observationOnly
  | invalidDocument
  deriving DecidableEq

def conflicting {α : Type} : Except String α → Except SaveError α
  | .ok a => .ok a
  | .error text => .error (.conflict text)

/-! ## Firestore -/

abbrev Documents := String → Option Row

def documentName (releaseId service : String) : String := releaseId ++ "-" ++ service

/-- A record that the reservation does not take for a row of the item. -/
def Row.differs (row : Row) (payload : ReleaseCreateRequest) (item : ReleaseItem) : Bool :=
  row.item.releaseId ≠ payload.releaseId || row.item.serviceName ≠ item.serviceName
    || row.item.immutable ≠ payload.immutable

/-- The documents after the transaction has set those of the items. -/
def Documents.put (docs : Documents) (payload : ReleaseCreateRequest)
    (items : List ReleaseItem) : Documents := fun name =>
  match items.find? (documentName payload.releaseId ·.serviceName = name) with
  | some item => some ⟨item, payload.remarks⟩
  | none => docs name

/-- The items with the records that their documents have. -/
def Documents.existing (docs : Documents) (payload : ReleaseCreateRequest) :
    List (ReleaseItem × Row) :=
  payload.items.filterMap fun item =>
    (docs (documentName payload.releaseId item.serviceName)).map (item, ·)

/-- `_firestore_create_release`; `valid` is what the client accepts as a document name. -/
def firestoreCreateRelease (valid : String → Bool) (docs : Documents)
    (payload : ReleaseCreateRequest) : Except SaveError (Documents × List ReleaseItem) :=
  if payload.items.all fun item => valid (documentName payload.releaseId item.serviceName) then
    let existing := docs.existing payload
    if existing.any fun entry => entry.2.differs payload entry.1 then
      .error (.conflict immutableText)
    else if existing = [] then .ok (docs.put payload payload.items, payload.items)
    else if existing.length ≠ payload.items.length then .error (.conflict missingText)
    else conflicting do
      let advanced ← existing.mapM fun entry => advanceRelease entry.2.item entry.1
      .ok (docs.put payload (advanced.filter (· ∉ existing.map (·.2.item))), advanced)
  else .error .invalidDocument

/-! ## The local file -/

def localRow (records : List Row) (releaseId service : String) : Option Row :=
  records.find? fun row => row.item.releaseId = releaseId ∧ row.item.serviceName = service

/-- The records with those of the advanced items updated; a service has one record. -/
def updateRecords (records : List Row) (payload : ReleaseCreateRequest)
    (advanced : List ReleaseItem) : List Row :=
  records.map fun row =>
    if row.item.releaseId = payload.releaseId then
      match advanced.find? (·.serviceName = row.item.serviceName) with
      | some item => { row with item := item }
      | none => row
    else row

def localSaveRelease (records : List Row) (payload : ReleaseCreateRequest) :
    Except SaveError (List Row × List ReleaseItem) :=
  let existing := records.filter (·.item.releaseId = payload.releaseId)
  if existing = [] then
    .ok (records ++ payload.items.map fun item => ⟨item, payload.remarks⟩, payload.items)
  else if existing.any (·.item.immutable ≠ payload.immutable) then
    .error (.conflict immutableText)
  else if payload.items.all fun item =>
      (localRow records payload.releaseId item.serviceName).isSome then
    conflicting do
      let advanced ← payload.items.mapM fun item =>
        advanceRelease
          (((localRow records payload.releaseId item.serviceName).map (·.item)).getD item) item
      .ok (updateRecords records payload advanced, advanced)
  else .error (.conflict missingText)

/-! ## The two backends and the registry -/

def Documents.rows (docs : Documents) : Rows := fun releaseId service =>
  ((docs (documentName releaseId service)).map (·.item)).filter fun item =>
    item.releaseId = releaseId ∧ item.serviceName = service

def localRows (records : List Row) : Rows := fun releaseId service =>
  (localRow records releaseId service).map (·.item)

/-- A result of a backend with the state `view` is a result of the registry, or both refuse. -/
inductive Refines {σ : Type} (view : σ → Rows) :
    Except SaveError (σ × List ReleaseItem) → Except String (Rows × List ReleaseItem) → Prop
  | ok (s : σ) (out : List ReleaseItem) : Refines view (.ok (s, out)) (.ok (view s, out))
  | conflict (text text' : String) : Refines view (.error (.conflict text)) (.error text')

def accepts {σ : Type} : Except SaveError (σ × List ReleaseItem) → Bool
  | .ok _ => true
  | .error _ => false

theorem Refines.of_ok {σ : Type} {view : σ → Rows} {s : σ} {out : List ReleaseItem}
    {r : Except String (Rows × List ReleaseItem)} (h : Refines view (.ok (s, out)) r) :
    r = .ok (view s, out) := by
  cases h
  rfl

theorem Refines.of_error {σ : Type} {view : σ → Rows} {e : SaveError}
    {r : Except String (Rows × List ReleaseItem)} (h : Refines view (.error e) r) :
    ∃ text, e = .conflict text := by
  cases h
  exact ⟨_, rfl⟩

theorem Refines.refused {σ : Type} {view : σ → Rows} {text : String}
    {r : Except SaveError (σ × List ReleaseItem)} (h : Refines view r (.error text)) :
    accepts r = false := by
  cases h
  rfl

theorem Refines.accepted {σ : Type} {view : σ → Rows} {rows : Rows} {out : List ReleaseItem}
    {r : Except SaveError (σ × List ReleaseItem)} (h : Refines view r (.ok (rows, out))) :
    accepts r = true := by
  cases h
  rfl

section Payload

variable {payload : ReleaseCreateRequest} {rows : Rows}

theorem items_services : payload.items.map (·.serviceName) = payload.services.map (·.serviceName) := by
  simp [ReleaseCreateRequest.items, Function.comp_def]

theorem items_nodup : (payload.items.map (·.serviceName)).Nodup :=
  items_services ▸ payload.distinct

theorem items_ne_nil : payload.items ≠ [] := by
  simpa [ReleaseCreateRequest.items] using payload.nonempty

theorem items_identity : ∀ item ∈ payload.items,
    item.releaseId = payload.releaseId ∧ item.immutable = payload.immutable := by
  intro item hm
  obtain ⟨service, -, rfl⟩ := List.mem_map.1 hm
  exact ⟨rfl, rfl⟩

/-- What the registry does with a payload. -/
noncomputable def Rows.save (rows : Rows) (payload : ReleaseCreateRequest) :
    Except String (Rows × List ReleaseItem) :=
  rows.register payload.releaseId payload.immutable payload.items

theorem save_mismatch {service : String} {item : ReleaseItem}
    (h : rows payload.releaseId service = some item) (hne : item.immutable ≠ payload.immutable) :
    rows.save payload = .error immutableText := by
  unfold Rows.save Rows.register
  rw [if_neg fun hn => by simp [hn service] at h, if_pos ⟨service, item, h, hne⟩]

theorem save_missing {service : String} {old item : ReleaseItem}
    (h : rows payload.releaseId service = some old) (hm : item ∈ payload.items)
    (hn : rows payload.releaseId item.serviceName = none) :
    ∃ text, rows.save payload = .error text := by
  unfold Rows.save Rows.register
  rw [if_neg fun hn => by simp [hn service] at h]
  split
  · exact ⟨_, rfl⟩
  · rw [if_pos ⟨item, hm, hn⟩]
    exact ⟨_, rfl⟩

theorem save_new (h : ∀ service, rows payload.releaseId service = none) :
    rows.save payload = .ok (rows.write payload.releaseId payload.items, payload.items) := by
  unfold Rows.save Rows.register
  rw [if_pos h]

theorem save_advance {service : String} {old : ReleaseItem}
    (h : rows payload.releaseId service = some old)
    (hu : ∀ service item, rows payload.releaseId service = some item →
      item.immutable = payload.immutable)
    (hall : ∀ item ∈ payload.items, rows payload.releaseId item.serviceName ≠ none) :
    rows.save payload = (do
      let advanced ← payload.items.mapM fun item =>
        advanceRelease ((rows payload.releaseId item.serviceName).getD item) item
      .ok (rows.write payload.releaseId advanced, advanced)) := by
  unfold Rows.save Rows.register
  rw [if_neg fun hn => by simp [hn service] at h, if_neg, if_neg]
  · rintro ⟨item, hm, hn⟩
    exact hall item hm hn
  · rintro ⟨service, item, hs, hne⟩
    exact hne (hu service item hs)

end Payload

/-! ### The local file -/

section Local

variable {records : List Row} {payload : ReleaseCreateRequest}

/-- A release id has one record of a service. -/
def Single (records : List Row) : Prop :=
  (records.map fun row => (row.item.releaseId, row.item.serviceName)).Nodup

theorem localRow_none : (∀ service, localRows records payload.releaseId service = none) ↔
    records.filter (·.item.releaseId = payload.releaseId) = [] := by
  simp only [localRows, localRow, Option.map_eq_none_iff, List.find?_eq_none,
    List.filter_eq_nil_iff, decide_eq_true_eq, not_and]
  exact ⟨fun h row hm hid => h _ row hm hid rfl, fun h _ row hm hid => absurd hid (h row hm)⟩

theorem Single.localRow {row : Row} (hs : Single records) (hm : row ∈ records) :
    localRow records row.item.releaseId row.item.serviceName = some row := by
  unfold Single at hs
  unfold Releases.localRow
  induction records with
  | nil => cases hm
  | cons r records ih =>
    rw [List.map_cons, List.nodup_cons] at hs
    rcases List.mem_cons.1 hm with rfl | hm
    · simp
    · have hne : ¬ (r.item.releaseId = row.item.releaseId
          ∧ r.item.serviceName = row.item.serviceName) := by
        rintro ⟨h1, h2⟩
        refine hs.1 ?_
        rw [h1, h2]
        exact List.mem_map_of_mem (f := fun row : Row =>
          (row.item.releaseId, row.item.serviceName)) hm
      rw [List.find?_cons_of_neg (by simpa using hne)]
      exact ih hs.2 hm

theorem localRows_append (hnew : ∀ service, localRows records payload.releaseId service = none) :
    localRows (records ++ payload.items.map fun item => ⟨item, payload.remarks⟩)
      = (localRows records).write payload.releaseId payload.items := by
  have hfind : ∀ releaseId service,
      localRows (payload.items.map fun item => ⟨item, payload.remarks⟩) releaseId service
        = if releaseId = payload.releaseId then payload.items.find? (·.serviceName = service)
          else none := by
    intro releaseId service
    simp only [localRows, localRow, List.find?_map, Option.map_map, Function.comp_def]
    split
    · subst releaseId
      rw [Option.map_id']
      exact List.find?_congr fun item hm => by simp [(items_identity item hm).1]
    · rename_i hid
      rw [Option.map_eq_none_iff, List.find?_eq_none]
      intro item hm
      simp [(items_identity item hm).1, Ne.symm hid]
  funext releaseId service
  unfold Rows.write
  have happ : localRows (records ++ payload.items.map fun item => ⟨item, payload.remarks⟩)
      releaseId service = (localRows records releaseId service).or
        (localRows (payload.items.map fun item => ⟨item, payload.remarks⟩) releaseId service) := by
    simp only [localRows, localRow, List.find?_append]
    cases List.find? _ records <;> simp
  rw [happ, hfind]
  split
  · subst releaseId
    rw [hnew service]
    simp
  · simp

theorem localRows_update {advanced : List ReleaseItem}
    (hid : ∀ item ∈ advanced, item.releaseId = payload.releaseId)
    (hall : ∀ item ∈ advanced, localRows records payload.releaseId item.serviceName ≠ none) :
    localRows (updateRecords records payload advanced)
      = (localRows records).write payload.releaseId advanced := by
  let update (row : Row) : Row :=
    if row.item.releaseId = payload.releaseId then
      match advanced.find? (·.serviceName = row.item.serviceName) with
      | some item => { row with item := item }
      | none => row
    else row
  have hkey : ∀ row, (update row).item.releaseId = row.item.releaseId
      ∧ (update row).item.serviceName = row.item.serviceName := by
    intro row
    simp only [update]
    split
    · rename_i hr
      split
      · rename_i item hf
        exact ⟨(hid item (List.mem_of_find?_eq_some hf)).trans hr.symm,
          by simpa using List.find?_some hf⟩
      · exact ⟨rfl, rfl⟩
    · exact ⟨rfl, rfl⟩
  have hfind : ∀ releaseId service, localRow (updateRecords records payload advanced) releaseId
      service = (localRow records releaseId service).map update := by
    intro releaseId service
    unfold localRow updateRecords
    rw [List.find?_map]
    refine congrArg (Option.map update) (List.find?_congr fun row _ => ?_)
    show decide ((update row).item.releaseId = _ ∧ (update row).item.serviceName = _) = _
    rw [(hkey row).1, (hkey row).2]
  funext releaseId service
  unfold Rows.write
  rw [localRows, hfind]
  cases hr : localRow records releaseId service with
  | none =>
    split
    · subst releaseId
      cases hf : advanced.find? (·.serviceName = service) with
      | none => simp [localRows, hr]
      | some item =>
        have hs : item.serviceName = service := by simpa using List.find?_some hf
        exact absurd (by simp [localRows, hs, hr]) (hall item (List.mem_of_find?_eq_some hf))
    · simp [localRows, hr]
  | some row =>
    have hrow := List.find?_some hr
    simp only [decide_eq_true_eq] at hrow
    obtain ⟨rfl, rfl⟩ := hrow
    simp only [localRows, hr, Option.map_some, update]
    split
    · cases advanced.find? (·.serviceName = row.item.serviceName) <;> simp
    · rfl

theorem local_refines (hs : Single records) (hw : (localRows records).WellFormed) :
    Refines localRows (localSaveRelease records payload) ((localRows records).save payload) := by
  unfold localSaveRelease
  by_cases he : records.filter (·.item.releaseId = payload.releaseId) = []
  · have hnew := localRow_none.2 he
    simp only [he, if_true]
    rw [save_new hnew, ← localRows_append hnew]
    exact .ok _ _
  simp only [he, if_false]
  obtain ⟨row, hrow⟩ := List.exists_mem_of_ne_nil _ he
  obtain ⟨hm, hid⟩ := List.mem_filter.1 hrow
  simp only [decide_eq_true_eq] at hid
  have hold : localRows records payload.releaseId row.item.serviceName = some row.item := by
    simp [localRows, ← hid, hs.localRow hm]
  split
  · rename_i hany
    obtain ⟨row', hrow', hne⟩ := List.any_eq_true.1 hany
    obtain ⟨hm', hid'⟩ := List.mem_filter.1 hrow'
    simp only [decide_eq_true_eq] at hid' hne
    have hold' : localRows records payload.releaseId row'.item.serviceName = some row'.item := by
      simp [localRows, ← hid', hs.localRow hm']
    rw [save_mismatch hold' hne]
    exact .conflict _ _
  rename_i hany
  have hsame : row.item.immutable = payload.immutable := by
    by_contra hne
    exact hany (List.any_eq_true.2 ⟨row, hrow, by simpa using hne⟩)
  have hu : ∀ service item, localRows records payload.releaseId service = some item →
      item.immutable = payload.immutable :=
    fun service item h => (hw.uniform _ _ _ _ _ h hold).trans hsame
  split
  · rename_i hall
    have hall' : ∀ item ∈ payload.items,
        localRows records payload.releaseId item.serviceName ≠ none := by
      intro item hm
      have := List.all_eq_true.1 hall item hm
      simp [localRows, ← Option.isSome_iff_ne_none, this]
    rw [save_advance hold hu hall']
    have hrows : ∀ service, (localRow records payload.releaseId service).map (·.item) =
        localRows records payload.releaseId service := fun _ => rfl
    simp only [hrows]
    cases ha : payload.items.mapM fun item =>
        advanceRelease ((localRows records payload.releaseId item.serviceName).getD item) item with
    | error text => exact .conflict _ _
    | ok advanced =>
      have hreg := advanced_registered hw items_identity hu ha
      have hpres : ∀ item ∈ advanced,
          localRows records payload.releaseId item.serviceName ≠ none := by
        intro item hm
        have hmem := List.mem_map_of_mem (f := ReleaseItem.serviceName) hm
        rw [hreg.services] at hmem
        obtain ⟨item', hm', heq⟩ := List.mem_map.1 hmem
        exact heq ▸ hall' item' hm'
      show Refines localRows (.ok (updateRecords records payload advanced, advanced))
        (.ok ((localRows records).write payload.releaseId advanced, advanced))
      rw [← localRows_update (fun item h => (hreg.identity item h).1) hpres]
      exact .ok _ _
  · rename_i hall
    simp only [List.all_eq_true, not_forall] at hall
    obtain ⟨item, hm', hn⟩ := hall
    obtain ⟨text, ht⟩ := save_missing hold hm' (by simpa [localRows] using hn)
    rw [ht]
    exact .conflict _ _

theorem update_key {advanced : List ReleaseItem}
    (hid : ∀ item ∈ advanced, item.releaseId = payload.releaseId) :
    (updateRecords records payload advanced).map
        (fun row => (row.item.releaseId, row.item.serviceName))
      = records.map fun row => (row.item.releaseId, row.item.serviceName) := by
  unfold updateRecords
  rw [List.map_map]
  refine List.map_congr_left fun row _ => ?_
  simp only [Function.comp]
  split
  · rename_i hr
    split
    · rename_i item hf
      have hs : item.serviceName = row.item.serviceName := by simpa using List.find?_some hf
      rw [hid item (List.mem_of_find?_eq_some hf), hs, hr]
    · rfl
  · rfl

theorem Single.append (hs : Single records)
    (hnew : ∀ service, localRows records payload.releaseId service = none) :
    Single (records ++ payload.items.map fun item => ⟨item, payload.remarks⟩) := by
  have hkeys : (payload.items.map fun item => (item.releaseId, item.serviceName)).Nodup :=
    List.Nodup.of_map Prod.snd (by simpa [Function.comp_def] using items_nodup)
  unfold Single at hs ⊢
  rw [List.map_append, List.map_map, List.nodup_append]
  refine ⟨hs, hkeys, ?_⟩
  rintro key hk _ hk' rfl
  obtain ⟨row, hm, rfl⟩ := List.mem_map.1 hk
  obtain ⟨item, hm', heq⟩ := List.mem_map.1 hk'
  have hid : row.item.releaseId = payload.releaseId :=
    (congrArg Prod.fst heq).symm.trans (items_identity item hm').1
  have := hnew row.item.serviceName
  rw [← hid] at this
  simp [localRows, Single.localRow hs hm] at this

/-- The records of an id keep one of each service. -/
theorem local_single (hs : Single records) (hw : (localRows records).WellFormed)
    {records' : List Row} {out : List ReleaseItem}
    (h : localSaveRelease records payload = .ok (records', out)) : Single records' := by
  have hreg := (register_ok hw items_identity
    (Refines.of_ok (h ▸ local_refines hs hw))).2
  simp only [localSaveRelease] at h
  split at h
  · cases h
    exact hs.append (localRow_none.2 ‹_›)
  split at h
  · cases h
  split at h
  · cases ha : payload.items.mapM fun item => advanceRelease
        (((localRow records payload.releaseId item.serviceName).map (·.item)).getD item) item with
    | error text =>
      rw [ha] at h
      cases h
    | ok advanced =>
      rw [ha] at h
      cases h
      unfold Single
      rw [update_key fun item hm => (hreg.identity item hm).1]
      exact hs
  · cases h

end Local

/-! ### Firestore -/

section Firestore

variable {docs : Documents} {payload : ReleaseCreateRequest} {valid : String → Bool}

/-- The client accepts the document names of the payload, and one of these documents exists exactly
when the release id has a row. -/
structure Aligned (valid : String → Bool) (docs : Documents) (payload : ReleaseCreateRequest) :
    Prop where
  valid : ∀ service ∈ payload.services,
    valid (documentName payload.releaseId service.serviceName) = true
  known : (∃ service, docs.rows payload.releaseId service ≠ none)
    ↔ ∃ service ∈ payload.services,
      docs (documentName payload.releaseId service.serviceName) ≠ none

theorem documentName_injective {releaseId service service' : String}
    (h : documentName releaseId service = documentName releaseId service') :
    service = service' := by
  unfold documentName at h
  simpa [String.append_assoc] using h

theorem rows_some {releaseId service : String} {item : ReleaseItem} :
    docs.rows releaseId service = some item ↔
      ∃ row, docs (documentName releaseId service) = some row ∧ row.item = item
        ∧ item.releaseId = releaseId ∧ item.serviceName = service := by
  unfold Documents.rows
  simp only [Option.filter_eq_some_iff, Option.map_eq_some_iff, decide_eq_true_eq]
  constructor
  · rintro ⟨⟨row, h, hi⟩, h1, h2⟩
    exact ⟨row, h, hi, h1, h2⟩
  · rintro ⟨row, h, hi, h1, h2⟩
    exact ⟨⟨row, h, hi⟩, h1, h2⟩

theorem mem_existing {item : ReleaseItem} {row : Row} : (item, row) ∈ docs.existing payload ↔
    item ∈ payload.items ∧ docs (documentName payload.releaseId item.serviceName) = some row := by
  simp [Documents.existing]

theorem mem_services {service : String} : (∃ s ∈ payload.services, s.serviceName = service) ↔
    ∃ item ∈ payload.items, item.serviceName = service := by
  simp [ReleaseCreateRequest.items]

/-- What the transaction finds is an own row of the id, unless it raises. -/
theorem own_row {item : ReleaseItem} {row : Row} (hm : (item, row) ∈ docs.existing payload)
    (hd : row.differs payload item = false) :
    docs.rows payload.releaseId item.serviceName = some row.item
      ∧ row.item.immutable = payload.immutable := by
  simp only [Row.differs, ne_eq, Bool.or_eq_false_iff, decide_eq_false_iff_not, not_not] at hd
  exact ⟨rows_some.2 ⟨row, (mem_existing.1 hm).2, rfl, hd.1.1, hd.1.2⟩, hd.2⟩

/-- The documents that the transaction sets have no foreign row. -/
theorem put_rows {items : List ReleaseItem} (hid : ∀ item ∈ items,
      item.releaseId = payload.releaseId)
    (hown : ∀ item ∈ items, ∀ row,
      docs (documentName payload.releaseId item.serviceName) = some row →
      row.item.releaseId = payload.releaseId) :
    (docs.put payload items).rows = docs.rows.write payload.releaseId items := by
  funext releaseId service
  unfold Documents.rows Documents.put Rows.write
  by_cases hr : releaseId = payload.releaseId
  · subst hr
    simp only [if_true]
    have hfind : items.find? (documentName payload.releaseId ·.serviceName
          = documentName payload.releaseId service)
        = items.find? (·.serviceName = service) :=
      List.find?_congr fun item _ => decide_eq_decide.2
        ⟨documentName_injective, congrArg _⟩
    rw [hfind]
    cases hf : items.find? (·.serviceName = service) with
    | none => simp
    | some item =>
      have hs : item.serviceName = service := by simpa using List.find?_some hf
      simp [Option.filter, hs, hid item (List.mem_of_find?_eq_some hf)]
  · simp only [hr, if_false]
    cases hf : items.find? (documentName payload.releaseId ·.serviceName
        = documentName releaseId service) with
    | none => rfl
    | some item =>
      have hm := List.mem_of_find?_eq_some hf
      have hn : documentName payload.releaseId item.serviceName = documentName releaseId service :=
        by simpa using List.find?_some hf
      have hnone : docs.rows releaseId service = none := by
        rw [Option.eq_none_iff_forall_ne_some]
        intro item' hs
        obtain ⟨row, hrow, rfl, hid', -⟩ := rows_some.1 hs
        exact hr (hid'.symm.trans (hown item hm row (hn ▸ hrow)))
      unfold Documents.rows at hnone
      rw [hnone]
      simp [Option.filter, hid item hm, Ne.symm hr]

theorem existing_nil : docs.existing payload = [] ↔ ∀ item ∈ payload.items,
    docs (documentName payload.releaseId item.serviceName) = none := by
  simp [Documents.existing, List.filterMap_eq_nil_iff]

/-- As many records as items are a record for each item. -/
theorem existing_full (h : (docs.existing payload).length = payload.items.length) :
    ∀ item ∈ payload.items, docs (documentName payload.releaseId item.serviceName) ≠ none := by
  intro item hm hn
  refine absurd h (Nat.ne_of_lt ?_)
  unfold Documents.existing
  generalize payload.items = items at hm
  induction items with
  | nil => cases hm
  | cons a items ih =>
    rw [List.filterMap_cons]
    rcases List.mem_cons.1 hm with rfl | hm
    · rw [hn]
      exact Nat.lt_succ_of_le (List.length_filterMap_le _ _)
    · have := ih hm
      split
      · exact Nat.lt_succ_of_lt this
      · exact Nat.succ_lt_succ this

theorem existing_mapM (hown : ∀ entry ∈ docs.existing payload, entry.2.differs payload entry.1 = false)
    (hfull : ∀ item ∈ payload.items,
      docs (documentName payload.releaseId item.serviceName) ≠ none) :
    (docs.existing payload).mapM (fun entry => advanceRelease entry.2.item entry.1)
      = payload.items.mapM fun item =>
        advanceRelease ((docs.rows payload.releaseId item.serviceName).getD item) item := by
  have hrow : ∀ item ∈ payload.items, ∀ row,
      docs (documentName payload.releaseId item.serviceName) = some row →
      docs.rows payload.releaseId item.serviceName = some row.item :=
    fun item hm row hr => (own_row (mem_existing.2 ⟨hm, hr⟩)
      (hown _ (mem_existing.2 ⟨hm, hr⟩))).1
  unfold Documents.existing
  generalize payload.items = items at hfull hrow
  induction items with
  | nil => rfl
  | cons item items ih =>
    obtain ⟨row, hr⟩ := Option.ne_none_iff_exists'.1 (hfull item (.head _))
    rw [List.filterMap_cons, hr, Option.map_some, List.mapM_cons, List.mapM_cons,
      ih (fun i h => hfull i (.tail _ h)) fun i h => hrow i (.tail _ h),
      hrow item (.head _) row hr, Option.getD_some]

/-- A document has the name of its row. -/
def Documents.Named (docs : Documents) : Prop :=
  ∀ name row, docs name = some row →
    name = documentName row.item.releaseId row.item.serviceName

theorem put_named {items : List ReleaseItem} (hn : docs.Named)
    (hid : ∀ item ∈ items, item.releaseId = payload.releaseId) : (docs.put payload items).Named := by
  intro name row h
  unfold Documents.put at h
  split at h
  · rename_i item hf
    cases h
    have hname : documentName payload.releaseId item.serviceName = name := by
      simpa using List.find?_some hf
    rw [← hname, hid item (List.mem_of_find?_eq_some hf)]
  · exact hn name row h

theorem firestore_named {docs' : Documents} {out : List ReleaseItem} (hn : docs.Named)
    (h : firestoreCreateRelease valid docs payload = .ok (docs', out))
    (hs : docs.rows.save payload = .ok (docs'.rows, out)) (hw : docs.rows.WellFormed) :
    docs'.Named := by
  have hreg := (register_ok hw items_identity hs).2
  simp only [firestoreCreateRelease] at h
  split at h
  case isFalse => cases h
  split at h
  · cases h
  split at h
  · cases h
    exact put_named hn fun item hm => (items_identity item hm).1
  split at h
  · cases h
  cases ha : (docs.existing payload).mapM fun entry => advanceRelease entry.2.item entry.1 with
  | error text =>
    rw [ha] at h
    cases h
  | ok advanced =>
    rw [ha] at h
    cases h
    exact put_named hn fun item hm => (hreg.identity item (List.mem_of_mem_filter hm)).1

theorem firestore_new (hvalid : (payload.items.all fun item =>
      valid (documentName payload.releaseId item.serviceName)) = true)
    (hfree : ∀ item ∈ payload.items,
      docs (documentName payload.releaseId item.serviceName) = none) :
    firestoreCreateRelease valid docs payload
      = .ok (docs.put payload payload.items, payload.items) := by
  unfold firestoreCreateRelease
  simp [hvalid, existing_nil.2 hfree]

theorem firestore_differs (hvalid : (payload.items.all fun item =>
      valid (documentName payload.releaseId item.serviceName)) = true)
    (hd : ((docs.existing payload).any fun entry => entry.2.differs payload entry.1) = true) :
    firestoreCreateRelease valid docs payload = .error (.conflict immutableText) := by
  unfold firestoreCreateRelease
  rw [if_pos hvalid]
  simp only [hd, if_true]

theorem firestore_refines (ha : Aligned valid docs payload) (hw : docs.rows.WellFormed) :
    Refines Documents.rows (firestoreCreateRelease valid docs payload)
      (docs.rows.save payload) := by
  unfold firestoreCreateRelease
  rw [if_pos (List.all_eq_true.2 fun item hm => by
    obtain ⟨service, hs, hn⟩ := mem_services.2 ⟨item, hm, rfl⟩
    exact hn ▸ ha.valid service hs)]
  by_cases hany : (docs.existing payload).any fun entry => entry.2.differs payload entry.1
  · simp only [hany, if_true]
    obtain ⟨⟨item, row⟩, hm, hd⟩ := List.any_eq_true.1 hany
    obtain ⟨hi, hrow⟩ := mem_existing.1 hm
    obtain ⟨text, ht⟩ : ∃ text, docs.rows.save payload = .error text := by
      cases ho : docs.rows payload.releaseId item.serviceName with
      | none =>
        obtain ⟨service, hs, hn⟩ := mem_services.2 ⟨item, hi, rfl⟩
        obtain ⟨service', hne⟩ := ha.known.2 ⟨service, hs, by simp [hn, hrow]⟩
        obtain ⟨old, hold⟩ := Option.ne_none_iff_exists'.1 hne
        exact save_missing hold hi ho
      | some old =>
        obtain ⟨row', hrow', rfl, h1, h2⟩ := rows_some.1 ho
        cases hrow.symm.trans hrow'
        refine ⟨_, save_mismatch ho ?_⟩
        simpa [Row.differs, h1, h2] using hd
    rw [ht]
    exact .conflict _ _
  have hown : ∀ entry ∈ docs.existing payload, entry.2.differs payload entry.1 = false :=
    fun entry hm => by simpa using fun hd => hany (List.any_eq_true.2 ⟨entry, hm, hd⟩)
  simp only [hany, Bool.false_eq_true, if_false]
  split
  · rename_i he
    have hfree := existing_nil.1 he
    have hnew : ∀ service, docs.rows payload.releaseId service = none := by
      intro service
      by_contra hn
      obtain ⟨s, hs, hd⟩ := ha.known.1 ⟨service, hn⟩
      obtain ⟨item, hm, heq⟩ := mem_services.1 ⟨s, hs, rfl⟩
      exact hd (heq ▸ hfree item hm)
    rw [save_new hnew, ← put_rows (fun item hm => (items_identity item hm).1)
      fun item hm row hr => by simp [hfree item hm] at hr]
    exact .ok _ _
  rename_i he
  obtain ⟨⟨item₀, row₀⟩, hm₀⟩ := List.exists_mem_of_ne_nil _ he
  obtain ⟨hold, hsame⟩ := own_row hm₀ (hown _ hm₀)
  have hu : ∀ service item, docs.rows payload.releaseId service = some item →
      item.immutable = payload.immutable :=
    fun service item h => (hw.uniform _ _ _ _ _ h hold).trans hsame
  split
  · rename_i hlen
    obtain ⟨item, hm, hn⟩ : ∃ item ∈ payload.items,
        docs (documentName payload.releaseId item.serviceName) = none := by
      by_contra hall
      refine hlen ?_
      unfold Documents.existing
      rw [List.length_filterMap_eq_countP, List.countP_eq_length]
      intro item hm
      rw [Option.isSome_map, Option.isSome_iff_ne_none]
      exact fun hn => hall ⟨item, hm, hn⟩
    obtain ⟨text, ht⟩ := save_missing hold hm
      (show docs.rows payload.releaseId item.serviceName = none by simp [Documents.rows, hn])
    rw [ht]
    exact .conflict _ _
  rename_i hlen
  have hfull := existing_full (not_not.1 hlen)
  have hfull' : ∀ item ∈ payload.items,
      docs.rows payload.releaseId item.serviceName ≠ none := by
    intro item hm
    obtain ⟨row, hr⟩ := Option.ne_none_iff_exists'.1 (hfull item hm)
    have hex := mem_existing.2 ⟨hm, hr⟩
    simp [(own_row hex (hown _ hex)).1]
  rw [save_advance hold hu hfull', existing_mapM hown hfull]
  cases hadv : payload.items.mapM fun item =>
      advanceRelease ((docs.rows payload.releaseId item.serviceName).getD item) item with
  | error text => exact .conflict _ _
  | ok advanced =>
    have hreg := advanced_registered hw items_identity hu hadv
    show Refines Documents.rows (.ok (docs.put payload (advanced.filter
      (· ∉ (docs.existing payload).map (·.2.item))), advanced))
      (.ok (docs.rows.write payload.releaseId advanced, advanced))
    rw [← write_filter (p := (· ∉ (docs.existing payload).map (·.2.item)))
      (hreg.services ▸ items_nodup) fun item _ hp => ?_, ← put_rows]
    · exact .ok _ _
    · exact fun item hm => (hreg.identity item (List.mem_of_mem_filter hm)).1
    · intro item hm row hr
      have hmem := List.mem_map_of_mem (f := ReleaseItem.serviceName) (List.mem_of_mem_filter hm)
      rw [hreg.services] at hmem
      obtain ⟨item', hm', heq⟩ := List.mem_map.1 hmem
      have hex := mem_existing.2 ⟨hm', heq ▸ hr⟩
      exact (hw.keyed _ _ _ (own_row hex (hown _ hex)).1).1
    · obtain ⟨item', row, hm, rfl⟩ : ∃ item' row, (item', row) ∈ docs.existing payload
          ∧ row.item = item := by
        simpa using hp
      have hrow := (own_row hm (hown _ hm)).1
      exact (hw.keyed _ _ _ hrow).2 ▸ hrow

end Firestore

/-! ## A sequence of calls -/

/-- The guard of `save_release`; `managed` says what the catalog does not hold for observation only. -/
def saveRelease {σ : Type} (managed : String → Bool)
    (create : σ → ReleaseCreateRequest → Except SaveError (σ × List ReleaseItem)) (s : σ)
    (payload : ReleaseCreateRequest) : Except SaveError (σ × List ReleaseItem) :=
  if payload.services.all fun service => managed service.serviceName then create s payload
  else .error .observationOnly

/-- The state that a call leaves. -/
def after {σ : Type} (s : σ) : Except SaveError (σ × List ReleaseItem) → σ
  | .ok (s', _) => s'
  | .error _ => s

/-- The same calls on both backends. -/
structure Stores where
  docs : Documents
  records : List Row

def Stores.empty : Stores := ⟨fun _ => none, []⟩

section Calls

variable (valid managed : String → Bool)

def Stores.firestore (s : Stores) (payload : ReleaseCreateRequest) :
    Except SaveError (Documents × List ReleaseItem) :=
  saveRelease managed (firestoreCreateRelease valid) s.docs payload

def Stores.localFile (s : Stores) (payload : ReleaseCreateRequest) :
    Except SaveError (List Row × List ReleaseItem) :=
  saveRelease managed localSaveRelease s.records payload

def Stores.save (s : Stores) (payload : ReleaseCreateRequest) : Option Stores :=
  some ⟨after s.docs (s.firestore valid managed payload),
    after s.records (s.localFile managed payload)⟩

/-- What a call may do to the rows of a backend. -/
structure Outcome (rows rows' : Rows) (payload : ReleaseCreateRequest)
    (result : Except SaveError (List ReleaseItem)) : Prop where
  written : ∀ items, result = .ok items →
    items.map (·.serviceName) = payload.services.map (·.serviceName)
      ∧ ∀ item ∈ items, rows' payload.releaseId item.serviceName = some item
  raised : ∀ e, result = .error e → rows' = rows
    ∧ ((∀ service ∈ payload.services, managed service.serviceName = true) →
      ∃ text, e = .conflict text)
  immutable : rows'.WellFormed
  evolves : rows.Evolves rows'

/-- Every document, and every record, is the row of its own release id and service. -/
structure Stores.Rowed (s : Stores) : Prop where
  docs : ∀ name row, s.docs name = some row →
    s.docs.rows row.item.releaseId row.item.serviceName = some row.item
  records : ∀ row ∈ s.records,
    localRows s.records row.item.releaseId row.item.serviceName = some row.item

/-- Both backends do what they may, and accept or reject together. -/
structure Stores.Immutable (s : Stores) (payload : ReleaseCreateRequest) : Prop where
  rowed : ∀ s', s.save valid managed payload = some s' → s'.Rowed
  firestore : Outcome managed s.docs.rows
    (after s.docs (s.firestore valid managed payload)).rows payload
    ((s.firestore valid managed payload).map (·.2))
  localFile : Outcome managed (localRows s.records)
    (localRows (after s.records (s.localFile managed payload))) payload
    ((s.localFile managed payload).map (·.2))
  together : accepts (s.firestore valid managed payload) = accepts (s.localFile managed payload)

variable {valid managed}

theorem outcome_of_refines {σ : Type} {view : σ → Rows}
    {create : σ → ReleaseCreateRequest → Except SaveError (σ × List ReleaseItem)} {s : σ}
    {payload : ReleaseCreateRequest} (hw : (view s).WellFormed)
    (h : (∀ service ∈ payload.services, managed service.serviceName = true) →
      Refines view (create s payload) ((view s).save payload)) :
    Outcome managed (view s) (view (after s (saveRelease managed create s payload))) payload
      ((saveRelease managed create s payload).map (·.2)) := by
  unfold saveRelease
  split
  · rename_i hm
    have href := h (List.all_eq_true.1 hm)
    cases hc : create s payload with
    | error e =>
      rw [hc] at href
      obtain ⟨text, rfl⟩ := href.of_error
      exact ⟨fun _ h => (by cases h), fun e he => ⟨rfl, fun _ => ⟨text, by cases he; rfl⟩⟩, hw, .refl _⟩
    | ok r =>
      obtain ⟨s', out⟩ := r
      obtain ⟨hrows, hreg⟩ := register_ok hw items_identity (Refines.of_ok (hc ▸ href))
      show Outcome managed (view s) (view s') payload (.ok out)
      rw [hrows]
      refine ⟨?_, fun _ h => (by cases h), hreg.wellFormed hw, hreg.evolves⟩
      rintro _ ⟨⟩
      exact ⟨hreg.services.trans items_services, fun item hm =>
        write_same (hreg.services ▸ items_nodup) hm rfl⟩
  · rename_i hm
    exact ⟨fun _ h => (by cases h), fun e _ => ⟨rfl, fun hall => absurd (List.all_eq_true.2 hall) hm⟩, hw,
      .refl _⟩

/-- The two backends hold the same rows. -/
structure Stores.Inv (s : Stores) : Prop where
  same : s.docs.rows = localRows s.records
  wellFormed : s.docs.rows.WellFormed
  single : Single s.records
  named : s.docs.Named

theorem Inv.empty : Stores.empty.Inv where
  same := rfl
  wellFormed := ⟨fun _ _ _ h => (by cases h), fun _ _ _ _ _ h => by cases h⟩
  single := .nil
  named _ _ h := by cases h

theorem Stores.Inv.rowed {s : Stores} (hi : s.Inv) : s.Rowed where
  docs name row h := rows_some.2 ⟨row, hi.named name row h ▸ h, rfl, rfl, rfl⟩
  records row hm := by simp [localRows, hi.single.localRow hm]

/-- The condition on a call, in the state that it finds. -/
def Stores.Aligned (valid managed : String → Bool) (s : Stores)
    (payload : ReleaseCreateRequest) : Prop :=
  (∀ service ∈ payload.services, managed service.serviceName = true) →
    Releases.Aligned valid s.docs payload

section Call

variable {s : Stores} {payload : ReleaseCreateRequest}

theorem Stores.Inv.local (hi : s.Inv) (payload : ReleaseCreateRequest) :
    Refines localRows (localSaveRelease s.records payload) (s.docs.rows.save payload) :=
  hi.same ▸ local_refines hi.single (hi.same ▸ hi.wellFormed)

theorem save_together (hi : s.Inv) (ha : Releases.Aligned valid s.docs payload) :
    (∃ docs' records' out, firestoreCreateRelease valid s.docs payload = .ok (docs', out)
        ∧ localSaveRelease s.records payload = .ok (records', out)
        ∧ Stores.Inv ⟨docs', records'⟩)
      ∨ ∃ text text', firestoreCreateRelease valid s.docs payload = .error (.conflict text)
        ∧ localSaveRelease s.records payload = .error (.conflict text') := by
  have hf := firestore_refines ha hi.wellFormed
  have hl := hi.local payload
  generalize hs : s.docs.rows.save payload = r at hf hl
  cases hfr : firestoreCreateRelease valid s.docs payload with
  | ok f =>
    rw [hfr] at hf
    obtain ⟨docs', out⟩ := f
    obtain rfl := hf.of_ok
    cases hlr : localSaveRelease s.records payload with
    | ok l =>
      rw [hlr] at hl
      obtain ⟨records', out'⟩ := l
      obtain ⟨hrows, rfl⟩ := Prod.mk.inj (Except.ok.inj hl.of_ok)
      obtain ⟨hw, hreg⟩ := register_ok hi.wellFormed items_identity hs
      exact .inl ⟨docs', records', out, rfl, rfl, hrows, hw ▸ hreg.wellFormed hi.wellFormed,
        local_single hi.single (hi.same ▸ hi.wellFormed) hlr, firestore_named hi.named hfr
          (Refines.of_ok (hfr ▸ firestore_refines ha hi.wellFormed)) hi.wellFormed⟩
    | error e =>
      rw [hlr] at hl
      cases hl
  | error e =>
    rw [hfr] at hf
    cases hf with
    | conflict text text' =>
      cases hlr : localSaveRelease s.records payload with
      | ok l =>
        rw [hlr] at hl
        cases hl.of_ok
      | error e =>
        rw [hlr] at hl
        cases hl with
        | conflict text'' => exact .inr ⟨text, text'', rfl, rfl⟩

theorem save_inv {s' : Stores} (hi : s.Inv) (ha : s.Aligned valid managed payload)
    (h : s.save valid managed payload = some s') : s'.Inv := by
  obtain rfl := Option.some.inj h
  unfold Stores.firestore Stores.localFile saveRelease
  by_cases hm : payload.services.all fun service => managed service.serviceName
  · simp only [hm, if_true]
    rcases save_together hi (ha (List.all_eq_true.1 hm)) with
      ⟨docs', records', out, hf, hl, hi'⟩ | ⟨text, text', hf, hl⟩
    · rw [hf, hl]
      exact hi'
    · rw [hf, hl]
      exact hi
  · simp only [hm]
    exact hi

theorem immutable_of_aligned (hi : s.Inv) (ha : s.Aligned valid managed payload) :
    s.Immutable valid managed payload := by
  refine ⟨fun s' h => (save_inv hi ha h).rowed,
    outcome_of_refines hi.wellFormed fun hm => firestore_refines (ha hm) hi.wellFormed,
    outcome_of_refines (hi.same ▸ hi.wellFormed) fun _ => hi.same ▸ hi.local payload, ?_⟩
  unfold Stores.firestore Stores.localFile saveRelease
  by_cases hm : payload.services.all fun service => managed service.serviceName
  · simp only [hm, if_true]
    rcases save_together hi (ha (List.all_eq_true.1 hm)) with
      ⟨docs', records', out, hf, hl, -⟩ | ⟨text, text', hf, hl⟩ <;> rw [hf, hl] <;> rfl
  · simp only [hm]
    rfl

/-- A document of another pair, or an id whose rows are all of other services, parts the two. -/
theorem aligned_of_immutable (hi : s.Inv) (h : s.Immutable valid managed payload) :
    s.Aligned valid managed payload := by
  intro hm
  let docs := s.docs
  have hguard : (payload.services.all fun service => managed service.serviceName) = true :=
    List.all_eq_true.2 hm
  have hf : s.firestore valid managed payload = firestoreCreateRelease valid s.docs payload := by
    unfold Stores.firestore saveRelease
    rw [if_pos hguard]
  have hl : s.localFile managed payload = localSaveRelease s.records payload := by
    unfold Stores.localFile saveRelease
    rw [if_pos hguard]
  have hvalid : (payload.items.all fun item =>
      valid (documentName payload.releaseId item.serviceName)) = true := by
    by_contra hv
    have herr : s.firestore valid managed payload = .error .invalidDocument := by
      rw [hf]
      unfold firestoreCreateRelease
      rw [if_neg hv]
    obtain ⟨text, ht⟩ := (h.firestore.raised .invalidDocument (by rw [herr]; rfl)).2 hm
    cases ht
  have htog := h.together
  rw [hf, hl] at htog
  refine ⟨fun service hs => ?_, ?_, ?_⟩
  · obtain ⟨item, hmi, hn⟩ := mem_services.1 ⟨service, hs, rfl⟩
    exact hn ▸ List.all_eq_true.1 hvalid item hmi
  · rintro ⟨service, hne⟩
    obtain ⟨old, hold⟩ := Option.ne_none_iff_exists'.1 hne
    by_contra hnone
    have hfree : ∀ item ∈ payload.items,
        docs (documentName payload.releaseId item.serviceName) = none := by
      intro item hmi
      by_contra hd
      obtain ⟨service, hs, hn⟩ := mem_services.2 ⟨item, hmi, rfl⟩
      exact hnone ⟨service, hs, hn ▸ hd⟩
    obtain ⟨item, hmi⟩ := List.exists_mem_of_ne_nil _ items_ne_nil
    obtain ⟨text, ht⟩ := save_missing hold hmi
      (show docs.rows payload.releaseId item.serviceName = none by
        simp [Documents.rows, hfree item hmi])
    have hlr := hi.local payload
    rw [ht] at hlr
    rw [firestore_new hvalid hfree, hlr.refused] at htog
    cases htog
  · rintro ⟨service, hs, hne⟩
    by_contra hnone
    have hnew : ∀ service, docs.rows payload.releaseId service = none :=
      fun service => not_not.1 fun hn => hnone ⟨service, hn⟩
    have hlr := hi.local payload
    rw [save_new hnew] at hlr
    obtain ⟨row, hr⟩ := Option.ne_none_iff_exists'.1 hne
    obtain ⟨item, hmi, hn⟩ := mem_services.1 ⟨service, hs, rfl⟩
    have hex : (item, row) ∈ docs.existing payload := mem_existing.2 ⟨hmi, hn ▸ hr⟩
    have hd : row.differs payload item = true := by
      by_contra hd
      have := (own_row hex (by simpa using hd)).1
      simp [hnew] at this
    rw [firestore_differs hvalid (List.any_eq_true.2 ⟨_, hex, hd⟩), hlr.accepted] at htog
    cases htog

end Call

end Calls

/-- Over any sequence of calls, the release identities are immutable in both backends, and these
accept and reject the same calls, if and only if every call names documents that the client accepts,
one of which exists exactly when its release id has a row. -/
theorem release_identity_immutable (valid managed : String → Bool)
    (calls : List ReleaseCreateRequest) :
    Acts.Each (Stores.save valid managed) (Stores.Immutable valid managed) .empty calls
      ↔ Acts.Each (Stores.save valid managed) (Stores.Aligned valid managed) .empty calls :=
  Acts.each_congr Inv.empty (fun _ _ _ hi ha h => save_inv hi ha h) fun _ _ hi =>
    ⟨aligned_of_immutable hi, immutable_of_aligned hi⟩

def demoRequest (service sha : String) : ReleaseCreateRequest where
  immutable := ⟨"owner/repository", "1.0.0", "", sha, "sha256:d"⟩
  status := "candidate"
  releaseId := "release"
  services := [⟨service, "revision", .deployed⟩]
  githubRunUrl := ""
  remarks := ⟨"github-actions", "", ""⟩
  now := "2026-10-01T00:00:00+00:00"
  nonempty := nofun
  identified := by decide
  distinct := List.nodup_singleton _

/-- The same id for another service with another commit: Firestore has two rows of the id with two
commits, and the local file refuses the second call. -/
theorem identity_reused :
    ¬ Acts.Each (Stores.save (fun _ => true) fun _ => true)
      (Stores.Immutable (fun _ => true) fun _ => true) .empty
      [demoRequest "api" "a", demoRequest "web" "b"] := by
  intro h
  exact absurd (h.2 _ rfl).1.together (by decide)

end Releases
