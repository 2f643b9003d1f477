import Mathlib.Data.List.Nodup
import Mathlib.Logic.Basic

/-!
# The registry of releases

A release id names one release, and has one row for each service that it was registered with. A
registration of an id that has no rows creates them; a registration of an id that has rows must
repeat its identity, name services that it has, and advances their rows.
-/

set_option linter.dupNamespace false

namespace Releases

inductive Action
  | released
  | promoted
  | deployed
  | rolledBack
  | unchanged
  | notIncluded
  | missing
  deriving DecidableEq

/-- What a release id never changes. -/
structure Identity where
  repository : String
  version : String
  releaseGroupId : String
  sourceSha : String
  artifactDigest : String
  deriving DecidableEq

structure ReleaseItem where
  serviceName : String
  status : String
  releaseId : String
  immutable : Identity
  revision : String
  action : Action
  githubRunUrl : String
  createdAt : String
  deriving DecidableEq

def phaseText : String := "Release phase already has a different revision or action"
def backwardsText : String := "Release status cannot move backwards or skip its lifecycle"
def promotionText : String := "Promotion must preserve the registered candidate revision"
def immutableText : String := "Release identity already exists with different immutable inputs"
def missingText : String := "Release identity is missing one of its service rows"

def transitions : String → List String
  | "candidate" => ["promoted", "rolled_back"]
  | "promoted" => ["rolled_back"]
  | _ => []

def advanceRelease (existing requested : ReleaseItem) : Except String ReleaseItem :=
  if existing.status = requested.status then
    if (existing.revision, existing.action) ≠ (requested.revision, requested.action) then
      .error phaseText
    else .ok existing
  else if requested.status ∉ transitions existing.status then .error backwardsText
  else if requested.status = "promoted" ∧ existing.revision ≠ requested.revision then
    .error promotionText
  else .ok requested

/-- A row stays, or its status moves on and a promotion keeps its revision. -/
inductive Advances (a : ReleaseItem) : ReleaseItem → Prop
  | same : Advances a a
  | moved {b : ReleaseItem} (h : b.status ∈ transitions a.status)
      (hr : b.status = "promoted" → b.revision = a.revision) : Advances a b

theorem advanceRelease_ok {existing requested item : ReleaseItem}
    (h : advanceRelease existing requested = .ok item) :
    Advances existing item ∧ (item = existing ∨ item = requested) := by
  unfold advanceRelease at h
  split at h
  · split at h <;> cases h
    exact ⟨.same, .inl rfl⟩
  · split at h
    · cases h
    · split at h <;> cases h
      rename_i ht hp
      refine ⟨.moved (not_not.1 ht) fun hs => ?_, .inr rfl⟩
      exact (not_not.1 fun hn => hp ⟨hs, hn⟩).symm

/-! ## The registry -/

/-- The row of a release id and a service. -/
abbrev Rows := String → String → Option ReleaseItem

def Rows.write (rows : Rows) (id : String) (items : List ReleaseItem) : Rows := fun id' service =>
  if id' = id then (items.find? (·.serviceName = service)).or (rows id' service)
  else rows id' service

open Classical in
/-- What a registration does to the rows, and what it returns. -/
noncomputable def Rows.register (rows : Rows) (id : String) (immutable : Identity)
    (items : List ReleaseItem) : Except String (Rows × List ReleaseItem) :=
  if ∀ service, rows id service = none then .ok (rows.write id items, items)
  else if ∃ service item, rows id service = some item ∧ item.immutable ≠ immutable then
    .error immutableText
  else if ∃ item ∈ items, rows id item.serviceName = none then .error missingText
  else do
    let advanced ← items.mapM fun item =>
      advanceRelease ((rows id item.serviceName).getD item) item
    .ok (rows.write id advanced, advanced)

structure Rows.WellFormed (rows : Rows) : Prop where
  keyed : ∀ id service item, rows id service = some item →
    item.releaseId = id ∧ item.serviceName = service
  uniform : ∀ id service service' item item', rows id service = some item →
    rows id service' = some item' → item.immutable = item'.immutable

/-- Every row stays under its key with its identity, and advances. -/
def Rows.Evolves (rows rows' : Rows) : Prop :=
  ∀ id service item, rows id service = some item →
    ∃ item', rows' id service = some item' ∧ item'.immutable = item.immutable
      ∧ Advances item item'

theorem Rows.Evolves.refl (rows : Rows) : rows.Evolves rows :=
  fun _ _ item h => ⟨item, h, rfl, .same⟩

section Register

variable {rows : Rows} {id : String} {immutable : Identity} {items : List ReleaseItem}

theorem write_same {service : String} {item : ReleaseItem} (hn : (items.map (·.serviceName)).Nodup)
    (h : item ∈ items) (hs : item.serviceName = service) :
    rows.write id items id service = some item := by
  have hf : items.find? (·.serviceName = service) = some item := by
    induction items with
    | nil => cases h
    | cons a items ih =>
      rw [List.map_cons, List.nodup_cons] at hn
      rcases List.mem_cons.1 h with rfl | h
      · simp [hs]
      · have hne : a.serviceName ≠ service := by
          rintro rfl
          exact hn.1 (hs ▸ List.mem_map_of_mem h)
        simpa [hne] using ih hn.2 h
  simp [Rows.write, hf]

theorem write_cases {id' service : String} {item : ReleaseItem}
    (h : rows.write id items id' service = some item) :
    (id' = id ∧ item ∈ items ∧ item.serviceName = service) ∨ rows id' service = some item := by
  unfold Rows.write at h
  split at h
  · cases hf : items.find? (·.serviceName = service) with
    | none => exact .inr (by simpa [hf] using h)
    | some i =>
      simp only [hf, Option.some_or, Option.some.injEq] at h
      subst h
      exact .inl ⟨‹_›, List.mem_of_find?_eq_some hf, by simpa using List.find?_some hf⟩
  · exact .inr h

theorem write_none {service : String} (h : ∀ item ∈ items, item.serviceName ≠ service) :
    rows.write id items id service = rows id service := by
  have hf : items.find? (·.serviceName = service) = none := by
    simpa [List.find?_eq_none] using h
  simp [Rows.write, hf]

/-- Rows that already have their item need not be written. -/
theorem write_filter {p : ReleaseItem → Bool} (hn : (items.map (·.serviceName)).Nodup)
    (hkeep : ∀ item ∈ items, p item = false → rows id item.serviceName = some item) :
    rows.write id (items.filter p) = rows.write id items := by
  have hn' : ((items.filter p).map (·.serviceName)).Nodup :=
    hn.sublist (List.filter_sublist.map _)
  funext id' service
  by_cases hid : id' = id
  · subst hid
    by_cases hex : ∃ item ∈ items, item.serviceName = service
    · obtain ⟨item, hm, hs⟩ := hex
      rw [write_same hn hm hs]
      cases hp : p item with
      | true => exact write_same hn' (List.mem_filter.2 ⟨hm, hp⟩) hs
      | false =>
        rw [write_none, ← hs]
        · exact hkeep item hm hp
        · intro item' hm' hs'
          obtain ⟨hm', hp'⟩ := List.mem_filter.1 hm'
          have heq : item' = item := List.inj_on_of_nodup_map hn hm' hm (hs'.trans hs.symm)
          rw [heq, hp] at hp'
          cases hp'
    · rw [write_none fun item hm hs => hex ⟨item, hm, hs⟩,
        write_none fun item hm hs => hex ⟨item, List.mem_of_mem_filter hm, hs⟩]
  · simp [Rows.write, hid]

/-- The rows that a registration writes are the ones of its services, and keep what they had. -/
structure Registered (rows : Rows) (id : String) (immutable : Identity)
    (items out : List ReleaseItem) : Prop where
  services : out.map (·.serviceName) = items.map (·.serviceName)
  identity : ∀ item ∈ out, item.releaseId = id ∧ item.immutable = immutable
  advances : ∀ item ∈ out, ∀ old, rows id item.serviceName = some old → Advances old item
  uniform : ∀ service old, rows id service = some old → old.immutable = immutable

theorem mapM_forall₂ {α β : Type} {f : α → Except String β} : ∀ {l : List α} {out : List β},
    l.mapM f = .ok out → List.Forall₂ (fun a b => f a = .ok b) l out
  | [], out, h => by
    cases h
    exact .nil
  | a :: l, out, h => by
    rw [List.mapM_cons] at h
    cases hf : f a with
    | error e => rw [hf] at h; cases h
    | ok b =>
      rw [hf] at h
      cases hl : l.mapM f with
      | error e => rw [show (Except.ok b >>= fun b => _) = _ from rfl, hl] at h; cases h
      | ok bs =>
        rw [show (Except.ok b >>= fun b => _) = _ from rfl, hl] at h
        cases h
        exact .cons hf (mapM_forall₂ hl)

/-- The advanced items have the services of the requested ones, in their order. -/
theorem advanced_registered (hw : rows.WellFormed)
    (hi : ∀ item ∈ items, item.releaseId = id ∧ item.immutable = immutable)
    (hu : ∀ service old, rows id service = some old → old.immutable = immutable)
    {out : List ReleaseItem}
    (h : items.mapM (fun item =>
      advanceRelease ((rows id item.serviceName).getD item) item) = .ok out) :
    Registered rows id immutable items out := by
  have hf := mapM_forall₂ h
  have hone : ∀ item item', item ∈ items →
      advanceRelease ((rows id item.serviceName).getD item) item = .ok item' →
      item'.serviceName = item.serviceName ∧ item'.releaseId = id ∧ item'.immutable = immutable
        ∧ ∀ old, rows id item.serviceName = some old → Advances old item' := by
    intro item item' hm ha
    obtain ⟨hadv, heq⟩ := advanceRelease_ok ha
    cases ho : rows id item.serviceName with
    | none =>
      rw [ho, Option.getD_none, or_self] at heq
      subst heq
      exact ⟨rfl, (hi _ hm).1, (hi _ hm).2, nofun⟩
    | some old =>
      rw [ho, Option.getD_some] at hadv heq
      refine ⟨?_, ?_, ?_, fun _ h => Option.some.inj h ▸ hadv⟩ <;> rcases heq with rfl | rfl
      · exact (hw.keyed _ _ _ ho).2
      · rfl
      · exact (hw.keyed _ _ _ ho).1
      · exact (hi _ hm).1
      · exact hu _ _ ho
      · exact (hi _ hm).2
  clear h
  suffices hs : out.map (·.serviceName) = items.map (·.serviceName) ∧ ∀ item' ∈ out,
      ∃ item ∈ items, item'.serviceName = item.serviceName ∧ item'.releaseId = id
        ∧ item'.immutable = immutable
        ∧ ∀ old, rows id item.serviceName = some old → Advances old item' by
    refine ⟨hs.1, fun item' hm => ?_, fun item' hm old ho => ?_, hu⟩
    · obtain ⟨item, -, -, h1, h2, -⟩ := hs.2 item' hm
      exact ⟨h1, h2⟩
    · obtain ⟨item, -, h1, -, -, h2⟩ := hs.2 item' hm
      exact h2 old (h1 ▸ ho)
  induction hf with
  | nil => exact ⟨rfl, nofun⟩
  | @cons a b as bs hab _ ih =>
    obtain ⟨ih1, ih2⟩ := ih (fun i h => hi i (.tail _ h)) fun i i' h => hone i i' (.tail _ h)
    have hb := hone a b (.head _) hab
    refine ⟨by rw [List.map_cons, List.map_cons, ih1, hb.1], fun item' hm => ?_⟩
    rcases List.mem_cons.1 hm with rfl | hm
    · exact ⟨a, .head _, hb⟩
    · obtain ⟨i, hmi, h⟩ := ih2 item' hm
      exact ⟨i, .tail _ hmi, h⟩

/-- What a registration that is accepted does. -/
theorem register_ok (hw : rows.WellFormed)
    (hi : ∀ item ∈ items, item.releaseId = id ∧ item.immutable = immutable)
    {rows' : Rows} {out : List ReleaseItem}
    (h : rows.register id immutable items = .ok (rows', out)) :
    rows' = rows.write id out ∧ Registered rows id immutable items out := by
  unfold Rows.register at h
  split at h
  · rename_i hnone
    cases h
    exact ⟨rfl, rfl, hi, fun item _ old ho => by simp [hnone] at ho,
      fun service old ho => by simp [hnone] at ho⟩
  · split at h
    · cases h
    · rename_i huni
      have hu : ∀ service old, rows id service = some old → old.immutable = immutable :=
        fun service old ho => not_not.1 fun hne => huni ⟨service, old, ho, hne⟩
      split at h
      · cases h
      · cases ha : items.mapM fun item =>
            advanceRelease ((rows id item.serviceName).getD item) item with
        | error e =>
          rw [ha] at h
          cases h
        | ok advanced =>
          rw [ha] at h
          cases h
          exact ⟨rfl, advanced_registered hw hi hu ha⟩

theorem Registered.wellFormed {out : List ReleaseItem} (hw : rows.WellFormed)
    (h : Registered rows id immutable items out) : (rows.write id out).WellFormed := by
  have hmem : ∀ service item, rows.write id out id service = some item →
      item.immutable = immutable := by
    intro service item hs
    rcases write_cases hs with ⟨-, hm, -⟩ | hs
    · exact (h.identity item hm).2
    · exact h.uniform service item hs
  refine ⟨fun id' service item hs => ?_, fun id' service service' item item' hs hs' => ?_⟩
  · rcases write_cases hs with ⟨rfl, hm, hn⟩ | hs
    · exact ⟨(h.identity item hm).1, hn⟩
    · exact hw.keyed id' service item hs
  · by_cases hid : id' = id
    · subst hid
      rw [hmem service item hs, hmem service' item' hs']
    · simp only [Rows.write, hid, if_false] at hs hs'
      exact hw.uniform id' service service' item item' hs hs'

theorem Registered.evolves {out : List ReleaseItem}
    (h : Registered rows id immutable items out) : rows.Evolves (rows.write id out) := by
  intro id' service item hs
  by_cases hid : id' = id
  · subst hid
    cases hf : out.find? (·.serviceName = service) with
    | none => exact ⟨item, by simp [Rows.write, hf, hs], rfl, .same⟩
    | some item' =>
      have hm := List.mem_of_find?_eq_some hf
      have hn : item'.serviceName = service := by simpa using List.find?_some hf
      refine ⟨item', by simp [Rows.write, hf], ?_, h.advances item' hm item (hn ▸ hs)⟩
      rw [(h.identity item' hm).2, h.uniform service item hs]
  · exact ⟨item, by simp [Rows.write, hid, hs], rfl, .same⟩

end Register

end Releases
