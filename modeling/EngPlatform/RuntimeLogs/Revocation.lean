import EngPlatform.RuntimeLogs.Caches
import EngPlatform.Lib.Asks
import Mathlib.Data.List.Nodup
import Mathlib.Tactic.SplitIfs

/-!
# Logs of a revoked policy are not served

A cache is registered until it is discarded, and only a registered cache is stored into. A cache that
is not registered any more is empty and invalidated, if a call that cannot read the catalog takes no
other call's cache out of the registry.
-/

set_option linter.dupNamespace false

namespace RuntimeLogs

open Interleave Discipline

variable {ω : Type} {site : Site ω}

/-! ## The registry -/

/-- A cache that was made is registered under its key, or invalidated and empty. -/
structure Sound (site : Site ω) (s : State) : Prop where
  keys : (s.registry.map (·.1)).Nodup
  made : ∀ row ∈ s.registry, row.2 < s.next ∧ s.keyOf site row.2 = row.1 ∧
    (s.caches row.2).invalidated = false
  live : ∀ b, b < s.next → (s.keyOf site b, b) ∈ s.registry ∨ (s.caches b).invalidated = true
  clean : ∀ b, (s.caches b).invalidated = true → (s.caches b).entries = []
  blank : ∀ b, s.next ≤ b → (s.caches b).entries = []

/-- What every section leaves alone: the resources of the caches that were made, and that they are
invalidated. -/
structure Kept (s s' : State) : Prop where
  next : s.next ≤ s'.next
  resource : ∀ b, b < s.next → (s'.caches b).resource = (s.caches b).resource
  invalidated : ∀ b, b < s.next → (s.caches b).invalidated = true → (s'.caches b).invalidated = true

theorem Kept.refl (s : State) : Kept s s := ⟨Nat.le_refl _, fun _ _ => rfl, fun _ _ h => h⟩

theorem Kept.trans {s s' s'' : State} (h : Kept s s') (h' : Kept s' s'') : Kept s s'' where
  next := Nat.le_trans h.next h'.next
  resource b hb := (h'.resource b (Nat.lt_of_lt_of_le hb h.next)).trans (h.resource b hb)
  invalidated b hb hi := h'.invalidated b (Nat.lt_of_lt_of_le hb h.next) (h.invalidated b hb hi)

theorem Kept.keyOf {s s' : State} (h : Kept s s') {b : ℕ} (hb : b < s.next) :
    s'.keyOf site b = s.keyOf site b := by
  unfold State.keyOf
  rw [h.resource b hb]

section Registry

variable {s : State} {b : ℕ}

theorem find_some {key : CacheKey} (h : s.find key = some b) : (key, b) ∈ s.registry := by
  obtain ⟨row, hrow, rfl⟩ := Option.map_eq_some_iff.mp h
  have hkey := List.find?_some hrow
  have : row.1 = key := of_decide_eq_true hkey
  exact this ▸ List.mem_of_find?_eq_some hrow

theorem Sound.find (hs : Sound site s) {key : CacheKey} (h : (key, b) ∈ s.registry) :
    s.find key = some b := by
  unfold State.find
  cases hf : s.registry.find? fun row => row.1 = key with
  | none =>
    have := List.find?_eq_none.mp hf _ h
    simp at this
  | some row =>
    have hfound := List.find?_some hf
    have hkey : row.1 = key := of_decide_eq_true hfound
    have hmem := List.mem_of_find?_eq_some hf
    rw [List.inj_on_of_nodup_map hs.keys hmem h hkey]
    rfl

/-- A change of a cache that leaves its resource, its entries and its mark. -/
theorem Sound.modify (hs : Sound site s) {f : Cache → Cache} (hr : ∀ c, (f c).resource = c.resource)
    (he : ∀ c, (f c).entries = c.entries) (hi : ∀ c, (f c).invalidated = c.invalidated) :
    Sound site (s.modify b f) ∧ Kept s (s.modify b f) := by
  have hsame (b' : ℕ) : ((s.modify b f).caches b').resource = (s.caches b').resource ∧
      ((s.modify b f).caches b').entries = (s.caches b').entries ∧
      ((s.modify b f).caches b').invalidated = (s.caches b').invalidated := by
    by_cases hb : b' = b
    · subst hb
      simp [State.modify, hr, he, hi]
    · simp [State.modify, hb]
  have hkey (b' : ℕ) : (s.modify b f).keyOf site b' = s.keyOf site b' := by
    unfold State.keyOf
    rw [(hsame b').1]
  refine ⟨⟨hs.keys, fun row hrow => ?_, fun b' hb' => ?_, fun b' h => ?_, fun b' h => ?_⟩,
    ⟨Nat.le_refl _, fun b' _ => (hsame b').1, fun b' _ h => ?_⟩⟩
  · rw [hkey, (hsame row.2).2.2]
    exact hs.made row hrow
  · rw [hkey, (hsame b').2.2]
    exact hs.live b' hb'
  · rw [(hsame b').2.2] at h
    rw [(hsame b').2.1]
    exact hs.clean b' h
  · rw [(hsame b').2.1]
    exact hs.blank b' h
  · rw [(hsame b').2.2]
    exact h

/-- The caches whose rows are taken out are discarded, and no others. -/
theorem Sound.remove (hs : Sound site s) {s' : State} {p : CacheKey × ℕ → Bool}
    (hregistry : s'.registry = s.registry.filter p) (hnext : s'.next = s.next)
    (hgone : ∀ row ∈ s.registry, p row = false → s'.caches row.2 = (s.caches row.2).discard)
    (hleft : ∀ c, s'.caches c = s.caches c ∨ s'.caches c = (s.caches c).discard)
    (hstay : ∀ row ∈ s.registry, p row = true → s'.caches row.2 = s.caches row.2) :
    Sound site s' ∧ Kept s s' := by
  have hresource (c : ℕ) : (s'.caches c).resource = (s.caches c).resource := by
    rcases hleft c with h | h
    · rw [h]
    · rw [h]
      rfl
  have hkey (c : ℕ) : s'.keyOf site c = s.keyOf site c := by
    unfold State.keyOf
    rw [hresource]
  have hmark (c : ℕ) (h : (s.caches c).invalidated = true) : (s'.caches c).invalidated = true := by
    rcases hleft c with h' | h'
    · rw [h']
      exact h
    · rw [h']
      rfl
  refine ⟨⟨?_, fun row hrow => ?_, fun c hc => ?_, fun c h => ?_, fun c h => ?_⟩,
    ⟨Nat.le_of_eq hnext.symm, fun c _ => hresource c, fun c _ => hmark c⟩⟩
  · rw [hregistry]
    exact (List.filter_sublist.map _).nodup hs.keys
  · rw [hregistry] at hrow
    obtain ⟨hrow, hp⟩ := List.mem_filter.mp hrow
    rw [hkey, hstay row hrow hp, hnext]
    exact hs.made row hrow
  · rw [hkey, hregistry]
    rw [hnext] at hc
    rcases hs.live c hc with h | h
    · cases hp : p (s.keyOf site c, c) with
      | true => exact .inl (List.mem_filter.mpr ⟨h, hp⟩)
      | false =>
        refine .inr ?_
        rw [hgone _ h hp]
        rfl
    · exact .inr (hmark c h)
  · rcases hleft c with h' | h' <;> rw [h'] at h ⊢
    · exact hs.clean c h
    · rfl
  · rw [hnext] at h
    rcases hleft c with h' | h' <;> rw [h']
    · exact hs.blank c h
    · rfl

theorem Sound.reconcile (hs : Sound site s) (items : List Resource) :
    Sound site (s.reconcile site items) ∧ Kept s (s.reconcile site items) := by
  refine hs.remove (p := fun row => row.1 ∈ items.map (cacheKey site)) rfl rfl ?_ ?_ ?_
  · intro row hrow hp
    refine if_pos (List.mem_map.mpr ⟨row, List.mem_filter.mpr ⟨hrow, ?_⟩, rfl⟩)
    exact decide_eq_true (of_decide_eq_false hp)
  · intro c
    unfold State.reconcile
    dsimp only
    split
    · exact .inr rfl
    · exact .inl rfl
  · intro row hrow hp
    refine if_neg fun hmem => ?_
    obtain ⟨row', hrow', heq⟩ := List.mem_map.mp hmem
    obtain ⟨hrow', hp'⟩ := List.mem_filter.mp hrow'
    have hkey := (hs.made row hrow).2.1
    rw [← heq, (hs.made row' hrow').2.1] at hkey
    rw [hkey] at hp'
    exact of_decide_eq_true hp' (of_decide_eq_true hp)

/-- What a catalog lacks is invalidated once it has been put into effect. -/
theorem Sound.missing (hs : Sound site s) {items : List Resource} (hb : b ∈ s.missing site items) :
    b < s.next ∧ ((s.reconcile site items).caches b).invalidated = true := by
  obtain ⟨hlt, hkey⟩ := List.mem_filter.mp hb
  have hlt := List.mem_range.mp hlt
  refine ⟨hlt, ?_⟩
  rcases hs.live b hlt with h | h
  · have hgone : (s.reconcile site items).caches b = (s.caches b).discard := by
      refine if_pos (List.mem_map.mpr ⟨_, List.mem_filter.mpr ⟨h, ?_⟩, rfl⟩)
      exact decide_eq_true (of_decide_eq_true hkey)
    rw [hgone]
    rfl
  · exact (hs.reconcile items).2.invalidated b hlt h

/-- A cache is discarded and its key popped, where no other is registered under it. -/
theorem Sound.pop (hs : Sound site s)
    (hone : s.find (s.keyOf site b) = none ∨ s.find (s.keyOf site b) = some b) :
    Sound site ((s.modify b Cache.discard).pop (s.keyOf site b)) ∧
      Kept s ((s.modify b Cache.discard).pop (s.keyOf site b)) := by
  refine hs.remove (p := fun row => row.1 ≠ s.keyOf site b) rfl rfl ?_ ?_ ?_
  · rintro ⟨key, c⟩ hrow hp
    have hkey : key = s.keyOf site b := by simpa using hp
    have hfind := hs.find (hkey ▸ hrow)
    obtain rfl : c = b := by
      rcases hone with h | h <;> rw [h] at hfind
      · cases hfind
      · exact (Option.some.inj hfind).symm
    exact Function.update_self ..
  · intro c
    by_cases hc : c = b
    · subst hc
      exact .inr (Function.update_self ..)
    · exact .inl (Function.update_of_ne hc ..)
  · rintro ⟨key, c⟩ hrow hp
    refine Function.update_of_ne ?_ ..
    rintro rfl
    have := (hs.made _ hrow).2.1
    simp [this] at hp

theorem Sound.sameKey (hs : Sound site s)
    (hone : s.find (s.keyOf site b) = none ∨ s.find (s.keyOf site b) = some b) {c : ℕ}
    (hc : c ∈ s.sameKey site b) :
    c < s.next ∧ (((s.modify b Cache.discard).pop (s.keyOf site b)).caches c).invalidated = true := by
  obtain ⟨hlt, hkey⟩ := List.mem_filter.mp hc
  have hlt := List.mem_range.mp hlt
  have hkey : s.keyOf site c = s.keyOf site b := of_decide_eq_true hkey
  refine ⟨hlt, ?_⟩
  rcases hs.live c hlt with h | h
  · have hfind := hs.find h
    rw [hkey] at hfind
    obtain rfl : c = b := by
      rcases hone with h | h <;> rw [h] at hfind
      · cases hfind
      · exact (Option.some.inj hfind).symm
    simp [State.pop, State.modify, Cache.discard]
  · exact (hs.pop hone).2.invalidated c hlt h

theorem oldest_mem : ∀ {rows : List (CacheKey × ℕ)} {row : CacheKey × ℕ}, s.oldest rows = some row →
    row ∈ rows
  | [], _, h => by cases h
  | row :: rows, row', h => by
    unfold State.oldest at h
    cases hbest : s.oldest rows with
    | none =>
      rw [hbest] at h
      obtain rfl := Option.some.inj h
      exact List.mem_cons_self ..
    | some best =>
      rw [hbest] at h
      dsimp only at h
      split_ifs at h
      · obtain rfl := Option.some.inj h
        exact List.mem_cons_of_mem _ (oldest_mem hbest)
      · obtain rfl := Option.some.inj h
        exact List.mem_cons_self ..

/-- What makes room: nothing, or the eviction of a registered cache. -/
theorem makeRoom_cases {s' : State} (h : s.makeRoom = some s') :
    s' = s ∧ s.evicted = [] ∨
      ∃ key evicted, (key, evicted) ∈ s.registry ∧ s' = (s.pop key).modify evicted Cache.discard ∧
        s.evicted = [evicted] := by
  unfold State.makeRoom at h
  unfold State.evicted
  split_ifs at h with hroom
  · exact .inl ⟨(Option.some.inj h).symm, if_pos hroom⟩
  · cases ho : s.oldest (s.registry.filter fun row => !(s.caches row.2).locked) with
    | none =>
      rw [ho] at h
      cases h
    | some row =>
      rw [ho] at h
      refine .inr ⟨row.1, row.2, (List.mem_filter.mp (oldest_mem ho)).1, (Option.some.inj h).symm, ?_⟩
      rw [if_neg hroom]
      rfl

theorem makeRoom_none (h : s.makeRoom = none) : s.evicted = [] := by
  unfold State.makeRoom at h
  unfold State.evicted
  split_ifs at h with hroom
  · cases ho : s.oldest (s.registry.filter fun row => !(s.caches row.2).locked) with
    | none =>
      rw [if_neg hroom]
      rfl
    | some row =>
      rw [ho] at h
      cases h

theorem Sound.makeRoom (hs : Sound site s) {s' : State} (h : s.makeRoom = some s') :
    Sound site s' ∧ Kept s s' ∧ (∀ c ∈ s.evicted, c < s.next ∧ (s'.caches c).invalidated = true) ∧
      (∀ key, s.find key = none → s'.find key = none) ∧ s'.next = s.next := by
  rcases makeRoom_cases h with ⟨rfl, hnone⟩ | ⟨key, evicted, hrow, rfl, hone⟩
  · refine ⟨hs, .refl _, fun c hc => ?_, fun _ h => h, rfl⟩
    rw [hnone] at hc
    cases hc
  · have hkey := (hs.made _ hrow).2.1
    dsimp only at hkey
    subst hkey
    have hpop := hs.pop (b := evicted) (.inr (hs.find hrow))
    refine ⟨hpop.1, hpop.2, fun c hc => ?_, fun key h => ?_, rfl⟩
    · rw [hone, List.mem_singleton] at hc
      subst hc
      exact ⟨(hs.made _ hrow).1, by simp [State.pop, State.modify, Cache.discard]⟩
    · cases hf : ((s.pop (s.keyOf site evicted)).modify evicted Cache.discard).find key with
      | none => rfl
      | some c =>
        have hmem := (List.mem_filter.mp (find_some hf)).1
        rw [hs.find hmem] at h
        cases h

/-- A new cache is registered under a key that has none. -/
theorem Sound.insert (hs : Sound site s) (resource : Resource)
    (hnone : s.find (cacheKey site resource) = none) :
    Sound site (s.insert site resource) ∧ Kept s (s.insert site resource) := by
  have hold (c : ℕ) (hc : c < s.next) : (s.insert site resource).caches c = s.caches c :=
    Function.update_of_ne (by omega) ..
  have hnew : (s.insert site resource).caches s.next = Cache.new resource := Function.update_self ..
  have hnext : (s.insert site resource).next = s.next + 1 := rfl
  have hkey (c : ℕ) (hc : c < s.next) : (s.insert site resource).keyOf site c = s.keyOf site c := by
    unfold State.keyOf
    rw [hold c hc]
  have hkey' : (s.insert site resource).keyOf site s.next = cacheKey site resource := by
    unfold State.keyOf
    rw [hnew]
    rfl
  have hfresh : cacheKey site resource ∉ s.registry.map (·.1) := by
    intro hmem
    obtain ⟨row, hrow, hrowKey⟩ := List.mem_map.mp hmem
    have hfound : (cacheKey site resource, row.2) ∈ s.registry := hrowKey ▸ hrow
    rw [hs.find hfound] at hnone
    cases hnone
  refine ⟨⟨?_, fun row hrow => ?_, fun c hc => ?_, fun c h => ?_, fun c h => ?_⟩,
    ⟨Nat.le_succ _, fun c hc => by rw [hold c hc], fun c hc h => by rw [hold c hc]; exact h⟩⟩
  · have happend : (s.insert site resource).registry.map (·.1) =
        s.registry.map (·.1) ++ [cacheKey site resource] := by simp [State.insert]
    rw [happend]
    refine List.nodup_append.mpr ⟨hs.keys, List.nodup_singleton _, ?_⟩
    intro key hmem key' hmem' heq
    rw [List.mem_singleton] at hmem'
    exact hfresh (hmem' ▸ heq ▸ hmem)
  · rcases List.mem_append.mp hrow with hrow | hrow
    · obtain ⟨hlt, hrowKey, hlive⟩ := hs.made row hrow
      rw [hkey _ hlt, hold _ hlt]
      exact ⟨by omega, hrowKey, hlive⟩
    · obtain rfl := List.mem_singleton.mp hrow
      dsimp only
      rw [hkey', hnew]
      exact ⟨by omega, rfl, rfl⟩
  · by_cases hlt : c < s.next
    · rw [hkey c hlt, hold c hlt]
      rcases hs.live c hlt with h | h
      · exact .inl (List.mem_append_left _ h)
      · exact .inr h
    · obtain rfl : c = s.next := by omega
      rw [hkey']
      exact .inl (List.mem_append_right _ (List.mem_singleton_self _))
  · by_cases hlt : c = s.next
    · subst hlt
      rw [hnew]
      rfl
    · have hsame : (s.insert site resource).caches c = s.caches c := Function.update_of_ne hlt ..
      rw [hsame] at h ⊢
      exact hs.clean c h
  · have hsame : (s.insert site resource).caches c = s.caches c :=
      Function.update_of_ne (by omega) ..
    rw [hsame]
    exact hs.blank c (by omega)

theorem Sound.touch (hs : Sound site s) (now : Int) :
    Sound site (s.touch b now) ∧ Kept s (s.touch b now) :=
  hs.modify (fun _ => rfl) (fun _ => rfl) (fun _ => rfl)

/-- What `_cache` returns is registered under the resource's key, and what it drops is invalidated. -/
theorem Sound.cache (hs : Sound site s) (resource : Resource) (items : List Resource) (now : Int) :
    Sound site (s.cache site resource items now).1 ∧ Kept s (s.cache site resource items now).1 ∧
      (∀ b, (s.cache site resource items now).2 = some b → b < (s.cache site resource items now).1.next ∧
        (s.cache site resource items now).1.keyOf site b = cacheKey site resource) ∧
      ∀ b ∈ s.cacheDrops site resource items,
        b < s.next ∧ ((s.cache site resource items now).1.caches b).invalidated = true := by
  obtain ⟨hr, hkept⟩ := hs.reconcile items
  have hmissing (b : ℕ) (hb : b ∈ s.missing site items) := hs.missing hb
  unfold State.cache State.cacheDrops
  dsimp only
  by_cases hin : cacheKey site resource ∈ items.map (cacheKey site)
  · rw [if_neg (not_not.mpr hin)]
    cases hfind : (s.reconcile site items).find (cacheKey site resource) with
    | some b =>
      obtain ⟨htouch, hkept'⟩ := hr.touch (b := b) now
      obtain ⟨hlt, hkey, -⟩ := hr.made _ (find_some hfind)
      refine ⟨htouch, hkept.trans hkept', ?_, fun c hc => ?_⟩
      · rintro c ⟨⟩
        exact ⟨hlt, (hkept'.keyOf hlt).trans hkey⟩
      · have hc' : c ∈ s.missing site items := by simpa using hc
        obtain ⟨hlt', hinv⟩ := hmissing c hc'
        exact ⟨hlt', hkept'.invalidated c hlt' hinv⟩
    | none =>
      dsimp only
      cases hroom : (s.reconcile site items).makeRoom with
      | none =>
        refine ⟨hr, hkept, nofun, fun c hc => hmissing c ?_⟩
        simpa [makeRoom_none hroom] using hc
      | some s' =>
        obtain ⟨hs', hkept', hevicted, hnone, hnext⟩ := hr.makeRoom hroom
        obtain ⟨hinsert, hkept''⟩ := hs'.insert resource (hnone _ hfind)
        obtain ⟨htouch, hkept₃⟩ := hinsert.touch (b := s'.next) now
        have hlt : s'.next < (s'.insert site resource).next := Nat.lt_succ_self _
        have hkey : (s'.insert site resource).keyOf site s'.next = cacheKey site resource := by
          have hnew : (s'.insert site resource).caches s'.next = Cache.new resource := Function.update_self ..
          unfold State.keyOf
          rw [hnew]
          rfl
        have hall := (hkept'.trans hkept'').trans hkept₃
        refine ⟨htouch, hkept.trans hall, ?_, fun c hc => ?_⟩
        · rintro c ⟨⟩
          exact ⟨hlt, (hkept₃.keyOf hlt).trans hkey⟩
        · rcases List.mem_append.mp hc with hc | hc
          · obtain ⟨hlt', hinv⟩ := hmissing c hc
            exact ⟨hlt', hall.invalidated c hlt' hinv⟩
          · rw [if_pos ⟨hin, rfl⟩] at hc
            obtain ⟨hlt', hinv⟩ := hevicted c hc
            have hlt'' : c < s'.next := hnext ▸ hlt'
            exact ⟨hlt', (hkept''.trans hkept₃).invalidated c hlt'' hinv⟩
  · rw [if_pos hin]
    refine ⟨hr, hkept, nofun, fun c hc => hmissing c ?_⟩
    simpa [hin] using hc

/-- What `_is_current` accepts is registered and in the catalog, and what it drops is invalidated. -/
theorem Sound.current (hs : Sound site s) {items : Option (List Resource)}
    (hone : items = none → s.find (s.keyOf site b) = none ∨ s.find (s.keyOf site b) = some b) :
    Sound site (s.current site b items).1 ∧ Kept s (s.current site b items).1 ∧
      ((s.current site b items).2 = true → ∃ l, items = some l ∧ s.keyOf site b ∈ l.map (cacheKey site)) ∧
      ∀ c ∈ s.currentDrops site b items, c < s.next ∧ ((s.current site b items).1.caches c).invalidated = true := by
  cases items with
  | none =>
    obtain ⟨hpop, hkept⟩ := hs.pop (hone rfl)
    exact ⟨hpop, hkept, nofun, fun c hc => hs.sameKey (hone rfl) hc⟩
  | some items =>
    obtain ⟨hr, hkept⟩ := hs.reconcile items
    refine ⟨hr, hkept, fun hpassed => ⟨items, rfl, ?_⟩, fun c hc => hs.missing hc⟩
    have hfind : (s.reconcile site items).find ((s.reconcile site items).keyOf site b) = some b := by
      have hregistered := hpassed
      unfold State.current State.registered at hregistered
      simp only [Bool.and_eq_true, decide_eq_true_eq] at hregistered
      exact hregistered.2
    have hrow := find_some hfind
    have hin : (s.reconcile site items).keyOf site b ∈ items.map (cacheKey site) :=
      of_decide_eq_true (List.mem_filter.mp hrow).2
    have hlt : b < s.next := (hr.made _ hrow).1
    rwa [hkept.keyOf hlt] at hin

/-! ### The bound -/

theorem oldestEntry_mem : ∀ {entries : List LogEntry} {entry : LogEntry}, oldestEntry entries = some entry →
    entry ∈ entries
  | [], _, h => by cases h
  | entry :: entries, entry', h => by
    unfold oldestEntry at h
    cases hbest : oldestEntry entries with
    | none =>
      rw [hbest] at h
      obtain rfl := Option.some.inj h
      exact List.mem_cons_self ..
    | some best =>
      rw [hbest] at h
      dsimp only at h
      split_ifs at h
      · obtain rfl := Option.some.inj h
        exact List.mem_cons_of_mem _ (oldestEntry_mem hbest)
      · obtain rfl := Option.some.inj h
        exact List.mem_cons_self ..

theorem drop_entries (row : Row) : row.drop.cache = row.cache ∧ ∀ e ∈ row.drop.entries, e ∈ row.entries := by
  unfold Row.drop
  cases oldestEntry row.entries with
  | none => exact ⟨rfl, fun _ h => h⟩
  | some entry => exact ⟨rfl, fun _ h => List.mem_of_mem_erase h⟩

/-- The loop only takes entries away. -/
theorem drain_entries : ∀ (fuel : ℕ) {rows : List Row} {row : Row}, row ∈ s.drain site fuel rows →
    ∃ row' ∈ rows, row.cache = row'.cache ∧ ∀ e ∈ row.entries, e ∈ row'.entries
  | 0, rows, row, h => ⟨row, h, rfl, fun _ he => he⟩
  | fuel + 1, rows, row, h => by
    unfold State.drain at h
    dsimp only at h
    by_cases hover : site.bufferEntries < (rows.map fun row => row.entries.length).sum ∨
        site.bufferBytes < (rows.map (Row.bytes site)).sum
    · rw [if_pos hover] at h
      split at h
      · exact ⟨row, h, rfl, fun _ he => he⟩
      · obtain ⟨row', hrow', hcache, hentries⟩ := drain_entries fuel h
        obtain ⟨row'', hrow'', rfl⟩ := List.mem_map.mp hrow'
        refine ⟨row'', hrow'', ?_⟩
        split_ifs at hcache hentries
        · obtain ⟨hsame, hsub⟩ := drop_entries row''
          exact ⟨hcache.trans hsame, fun e he => hsub e (hentries e he)⟩
        · exact ⟨hcache, hentries⟩
    · rw [if_neg hover] at h
      exact ⟨row, h, rfl, fun _ he => he⟩

/-- After the bound, a cache has entries that it had, or that it was given. -/
theorem bound_cache (site : Site ω) (s : State) (target : ℕ) (updated : List LogEntry) (c : ℕ) :
    ((s.bound site target updated).caches c).resource = (s.caches c).resource ∧
      ((s.bound site target updated).caches c).invalidated = (s.caches c).invalidated ∧
      (((s.bound site target updated).caches c) = s.caches c ∨
        (∃ row ∈ s.registry, row.2 = c) ∧ ∀ e ∈ ((s.bound site target updated).caches c).entries,
          e ∈ (s.caches c).entries ∨ c = target ∧ e ∈ updated) := by
  unfold State.bound
  dsimp only
  split
  · exact ⟨rfl, rfl, .inl rfl⟩
  next row hrow =>
  have hcache : row.cache = c := of_decide_eq_true (List.find?_some (p := fun row : Row => decide (row.cache = c)) hrow)
  obtain ⟨row', hrow', hsame, hsub⟩ := drain_entries _ (List.mem_of_find?_eq_some hrow)
  obtain ⟨entry, hentry, rfl⟩ := List.mem_map.mp hrow'
  dsimp only at hsame hsub
  have hc : entry.2 = c := hsame.symm.trans hcache
  refine ⟨rfl, rfl, .inr ⟨⟨entry, hentry, hc⟩, fun e he => ?_⟩⟩
  have he' := hsub e he
  split_ifs at he' with htarget
  · exact .inr ⟨hc.symm.trans htarget, he'⟩
  · exact .inl (hc ▸ he')

/-- A sample is stored into a registered cache; the others lose entries at most. -/
theorem Sound.publish (hs : Sound site s) (updated : List LogEntry) (clipped : Bool) (serverTime : Int) :
    Sound site (s.publish site b updated clipped serverTime).1 ∧
      Kept s (s.publish site b updated clipped serverTime).1 ∧
      ((s.publish site b updated clipped serverTime).2 = true → b < s.next ∧ (s.caches b).invalidated = false) ∧
      ∀ c, ∀ e ∈ ((s.publish site b updated clipped serverTime).1.caches c).entries,
        e ∈ (s.caches c).entries ∨ c = b ∧ e ∈ updated := by
  unfold State.publish
  split_ifs with hregistered
  · have hbound (c : ℕ) := bound_cache site s b updated c
    have hkey (c : ℕ) : (s.bound site b updated).keyOf site c = s.keyOf site c := by
      unfold State.keyOf
      rw [(hbound c).1]
    have hsound : Sound site (s.bound site b updated) := by
      refine ⟨hs.keys, fun row hrow => ?_, fun c hc => ?_, fun c h => ?_, fun c h => ?_⟩
      · rw [hkey, (hbound row.2).2.1]
        exact hs.made row hrow
      · rw [hkey, (hbound c).2.1]
        exact hs.live c hc
      · rcases (hbound c).2.2 with hsame | ⟨⟨row, hrow, rfl⟩, -⟩
        · rw [hsame] at h ⊢
          exact hs.clean c h
        · rw [(hbound row.2).2.1, (hs.made row hrow).2.2] at h
          cases h
      · rcases (hbound c).2.2 with hsame | ⟨⟨row, hrow, rfl⟩, -⟩
        · rw [hsame]
          exact hs.blank c h
        · have hlt := (hs.made row hrow).1
          have hge : s.next ≤ row.2 := h
          omega
    have hkept : Kept s (s.bound site b updated) :=
      ⟨Nat.le_refl _, fun c _ => (hbound c).1, fun c _ h => (hbound c).2.1.trans h⟩
    obtain ⟨hmodify, hkept'⟩ := hsound.modify (b := b)
      (f := fun c => { c with fields := { c.fields with
          truncated := c.fields.truncated || clipped
          lastSuccess := some serverTime
          status := if c.fields.cacheEvicted then .stale else .fresh
          errors := 0 } }) (fun _ => rfl) (fun _ => rfl) (fun _ => rfl)
    refine ⟨hmodify, hkept.trans hkept', fun _ => ?_, fun c e he => ?_⟩
    · unfold State.registered at hregistered
      simp only [Bool.and_eq_true, decide_eq_true_eq, Bool.not_eq_true'] at hregistered
      exact ⟨(hs.made _ (find_some hregistered.2)).1, hregistered.1⟩
    · have hentries (c : ℕ) : ((((s.bound site b updated).modify b fun c =>
          { c with fields := { c.fields with
            truncated := c.fields.truncated || clipped
            lastSuccess := some serverTime
            status := if c.fields.cacheEvicted then .stale else .fresh
            errors := 0 } }).caches c).entries) = ((s.bound site b updated).caches c).entries := by
        by_cases hc : c = b
        · subst hc
          simp [State.modify]
        · simp [State.modify, hc]
      rw [hentries] at he
      rcases (hbound c).2.2 with hsame | ⟨-, hsub⟩
      · rw [hsame] at he
        exact .inl he
      · exact hsub e he
  · exact ⟨hs, .refl s, nofun, fun c e he => .inl he⟩

end Registry

/-! ## The log -/

section Log

variable {ι : Type} [DecidableEq ι]

/-- The call that an event is of. -/
def Event.actor : Event ω ι → Option ι
  | .found i _ | .read i _ | .checked i _ _ _ | .locked i _ _ | .fetched i _ _ | .stored i _ | .released i _
  | .took i _ _ => some i
  | .dropped _ => none

/-- The events of a call, the newest first. -/
def traceOf (i : ι) (log : List (Event ω ι)) : List (Event ω ι) := log.filter fun e => e.actor = some i

theorem traceOf_cons {i : ι} {e : Event ω ι} (h : e.actor = some i) (log : List (Event ω ι)) :
    traceOf i (e :: log) = e :: traceOf i log := by
  unfold traceOf
  rw [List.filter_cons, if_pos (decide_eq_true h)]

theorem traceOf_drops (i : ι) (caches : List ℕ) (log : List (Event ω ι)) :
    traceOf i (drops caches ++ log) = traceOf i log := by
  unfold traceOf
  rw [List.filter_append]
  have hnone : (drops caches : List (Event ω ι)).filter (fun e => e.actor = some i) = [] := by
    refine List.filter_eq_nil_iff.mpr fun e he => ?_
    obtain ⟨b, -, rfl⟩ := List.mem_map.mp he
    simp [Event.actor]
  rw [hnone, List.nil_append]

/-- The entry was in a page that was fetched for the cache, by a call whose guard had passed on a catalog
with the cache's key. -/
def Sourced (site : Site ω) (s : State) (log : List (Event ω ι)) (b : ℕ) (entry : LogEntry) : Prop :=
  ∃ i page items raw window time clip post, (Event.fetched i b page :: post) <:+ log ∧
    (traceOf i post).head? = some (.checked i b (some items) true) ∧
    s.keyOf site b ∈ items.map (cacheKey site) ∧ raw ∈ page ∧
    site.normalize raw (s.caches b).resource window time = some (entry, clip)

/-- The refresh is over: nothing was due, the cache was being refreshed by another, or its lock has been
released. -/
def Refreshed (i : ι) (b : ℕ) (trace : List (Event ω ι)) : Prop :=
  trace.head? = some (.found i b) ∨ trace.head? = some (.locked i b false) ∨ trace.head? = some (.released i b)

/-- After its refresh the call has read a catalog, and found its cache current. -/
def Rechecked (i : ι) (b : ℕ) (trace : List (Event ω ι)) : Prop :=
  ∃ items rest, trace = .checked i b (some items) true :: .read i (some items) :: rest ∧ Refreshed i b rest

/-- What is true of an event and of the log before it. -/
def Fine (site : Site ω) (s : State) (log : List (Event ω ι)) : Event ω ι → Prop
  | .dropped b => b < s.next ∧ (s.caches b).invalidated = true
  | .checked _ b items passed => passed = true → b < s.next ∧
    ∃ l, items = some l ∧ s.keyOf site b ∈ l.map (cacheKey site)
  | .stored _ b => b < s.next ∧ .dropped b ∉ log
  | .took i b entries => b < s.next ∧ .dropped b ∉ log ∧ Rechecked i b (traceOf i log) ∧
    ∀ e ∈ entries, Sourced site s log b e
  | _ => True

structure Inv (site : Site ω) (w : World ω ι) : Prop where
  sound : Sound site w.state
  sourced : ∀ b, ∀ e ∈ (w.state.caches b).entries, Sourced site w.state w.log b e
  log : ∀ e post, (e :: post) <:+ w.log → Fine site w.state post e

variable {s s' : State} {log log' : List (Event ω ι)} {b : ℕ} {entry : LogEntry}

theorem Sourced.mono (h : Sourced site s log b entry) (hkept : Kept s s') (hb : b < s.next)
    (hlog : log <:+ log') : Sourced site s' log' b entry := by
  obtain ⟨i, page, items, raw, window, time, clip, post, hpost, hhead, hkey, hraw, hnormal⟩ := h
  refine ⟨i, page, items, raw, window, time, clip, post, hpost.trans hlog, hhead, ?_, hraw, ?_⟩
  · rw [hkept.keyOf hb]
    exact hkey
  · rw [hkept.resource b hb]
    exact hnormal

theorem Fine.mono {e : Event ω ι} (h : Fine site s log e) (hkept : Kept s s') : Fine site s' log e := by
  have hlt {b : ℕ} (hb : b < s.next) : b < s'.next := Nat.lt_of_lt_of_le hb hkept.next
  cases e with
  | dropped b => exact ⟨hlt h.1, hkept.invalidated b h.1 h.2⟩
  | checked i b items passed =>
    intro hp
    obtain ⟨hb, l, hl, hkey⟩ := h hp
    refine ⟨hlt hb, l, hl, ?_⟩
    rw [hkept.keyOf hb]
    exact hkey
  | stored i b => exact ⟨hlt h.1, h.2⟩
  | took i b entries =>
    obtain ⟨hb, hdropped, hrechecked, hentries⟩ := h
    exact ⟨hlt hb, hdropped, hrechecked, fun e he => (hentries e he).mono hkept hb (List.suffix_refl _)⟩
  | _ => trivial

theorem fine_append {events : List (Event ω ι)}
    (hnew : ∀ pre e post, events = pre ++ e :: post → Fine site s (post ++ log) e)
    (hold : ∀ e post, (e :: post) <:+ log → Fine site s post e) :
    ∀ e post, (e :: post) <:+ events ++ log → Fine site s post e := by
  induction events with
  | nil => exact hold
  | cons e' events ih =>
    intro e post h
    rw [List.cons_append, List.suffix_cons_iff] at h
    rcases h with h | h
    · obtain ⟨rfl, rfl⟩ := List.cons.inj h
      exact hnew [] e events rfl
    · refine ih (fun pre e post heq => hnew (e' :: pre) e post ?_) e post h
      rw [heq, List.cons_append]

/-- A section that keeps the registry sound, adds only entries that were fetched under a guard, and whose
events are as they should be. -/
theorem Inv.note {w : World ω ι} (hI : Inv site w) {events : List (Event ω ι)} (hsound : Sound site s')
    (hkept : Kept w.state s')
    (hentries : ∀ b, ∀ e ∈ (s'.caches b).entries,
      e ∈ (w.state.caches b).entries ∨ b < w.state.next ∧ Sourced site w.state w.log b e)
    (hevents : ∀ pre e post, events = pre ++ e :: post → Fine site s' (post ++ w.log) e) :
    Inv site (w.note s' events) where
  sound := hsound
  sourced b e he := by
    have hlog : w.log <:+ events ++ w.log := List.suffix_append ..
    rcases hentries b e he with hold | ⟨hb, hnew⟩
    · have hb : b < w.state.next := by
        by_contra hge
        rw [hI.sound.blank b (by omega)] at hold
        cases hold
      exact (hI.sourced b e hold).mono hkept hb hlog
    · exact hnew.mono hkept hb hlog
  log := fine_append hevents fun e post h => (hI.log e post h).mono hkept

theorem drops_fine {caches : List ℕ}
    (h : ∀ b ∈ caches, b < s.next ∧ (s.caches b).invalidated = true) {e : Event ω ι}
    (he : e ∈ (drops caches : List (Event ω ι))) (log : List (Event ω ι)) : Fine site s log e := by
  obtain ⟨b, hb, rfl⟩ := List.mem_map.mp he
  exact h b hb

/-- A call that cannot read the catalog takes no other call's cache out of the registry. -/
def Tidy (site : Site ω) (_ : ι) (w : World ω ι) : Ask ω → Prop
  | .current b none =>
    w.state.find (w.state.keyOf site b) = none ∨ w.state.find (w.state.keyOf site b) = some b
  | _ => True

/-- What a call may ask for. -/
def Allowed (site : Site ω) (i : ι) (w : World ω ι) : Ask ω → Prop
  | .current b _ => b < w.state.next
  | .fetch b _ _ => ∃ items, (traceOf i w.log).head? = some (.checked i b (some items) true)
  | .publish b updated _ _ => b < w.state.next ∧ ∀ e ∈ updated, Sourced site w.state w.log b e
  | .take b => Rechecked i b (traceOf i w.log)
  | _ => True

/-- What the others leave to a call. -/
structure Rely (i : ι) (w w' : World ω ι) : Prop where
  log : w.log <:+ w'.log
  trace : traceOf i w'.log = traceOf i w.log
  kept : Kept w.state w'.state

theorem Rely.refl (i : ι) (w : World ω ι) : Rely i w w := ⟨List.suffix_refl _, rfl, .refl _⟩

theorem Rely.trans {i : ι} {w w' w'' : World ω ι} (h : Rely i w w') (h' : Rely i w' w'') : Rely i w w'' :=
  ⟨h.log.trans h'.log, h'.trace.trans h.trace, h.kept.trans h'.kept⟩

/-- What a request does: a section with its events. -/
structure Effect (site : Site ω) (i : ι) (w w' : World ω ι) : Prop where
  note : ∃ s' events, w' = w.note s' events ∧ Kept w.state s' ∧
    ∀ e ∈ events, e.actor = none ∨ e.actor = some i
  inv : Inv site w'

theorem Effect.rely {i j : ι} {w w' : World ω ι} (h : Effect site i w w') (hne : i ≠ j) : Rely j w w' := by
  obtain ⟨s', events, rfl, hkept, hactor⟩ := h.note
  refine ⟨List.suffix_append .., ?_, hkept⟩
  unfold World.note traceOf
  dsimp only
  rw [List.filter_append]
  have hnone : events.filter (fun e => e.actor = some j) = [] := by
    refine List.filter_eq_nil_iff.mpr fun e he => ?_
    rcases hactor e he with h | h
    · rw [h]
      simp
    · rw [h]
      simpa using hne
  rw [hnone, List.nil_append]

/-! ### What a request does -/

variable {i : ι} {w w' : World ω ι}

theorem Effect.idle (hI : Inv site w) : Effect site i w w :=
  ⟨⟨w.state, [], rfl, .refl _, nofun⟩, hI⟩

/-- A section that keeps the entries, with one event of the call. -/
theorem Effect.single (hI : Inv site w) (hsound : Sound site s') (hkept : Kept w.state s')
    (hentries : ∀ b, (s'.caches b).entries = (w.state.caches b).entries) {e : Event ω ι}
    (hactor : e.actor = some i) (hfine : Fine site s' w.log e) : Effect site i w (w.note s' [e]) := by
  refine ⟨⟨s', [e], rfl, hkept, fun e' he' => ?_⟩, hI.note hsound hkept (fun b e' he' => ?_) ?_⟩
  · obtain rfl := List.mem_singleton.mp he'
    exact .inr hactor
  · rw [hentries b] at he'
    exact .inl he'
  · rintro pre e' post heq
    obtain ⟨rfl, rfl, rfl⟩ : pre = [] ∧ e' = e ∧ post = [] := by
      cases pre with
      | nil => simpa [eq_comm] using heq
      | cons e'' pre => simp at heq
    exact hfine

theorem modify_effect (hI : Inv site w) {b : ℕ} {f : Cache → Cache} (hr : ∀ c, (f c).resource = c.resource)
    (he : ∀ c, (f c).entries = c.entries) (hi : ∀ c, (f c).invalidated = c.invalidated)
    {events : List (Event ω ι)} (hevents : ∀ e ∈ events, e.actor = some i ∧ ∀ s log, Fine site s log e) :
    Effect site i w (w.note (w.state.modify b f) events) := by
  obtain ⟨hsound, hkept⟩ := hI.sound.modify (b := b) hr he hi
  refine ⟨⟨_, events, rfl, hkept, fun e h => .inr (hevents e h).1⟩, hI.note hsound hkept (fun c e h => ?_) ?_⟩
  · have hsame : ((w.state.modify b f).caches c).entries = (w.state.caches c).entries := by
      by_cases hc : c = b
      · subst hc
        simp [State.modify, he]
      · simp [State.modify, hc]
    rw [hsame] at h
    exact .inl h
  · intro pre e post heq
    exact (hevents e (by rw [heq]; exact List.mem_append_right _ (List.mem_cons_self ..))).2 _ _

/-- The entries after a section that only discards caches, makes new ones or changes their fields. -/
def Fewer (s s' : State) : Prop := ∀ b, ∀ e ∈ (s'.caches b).entries, e ∈ (s.caches b).entries

theorem Fewer.trans {s s' s'' : State} (h : Fewer s s') (h' : Fewer s' s'') : Fewer s s'' :=
  fun b e he => h b e (h' b e he)

theorem modify_fewer (s : State) (b : ℕ) {f : Cache → Cache}
    (h : ∀ c, ∀ e ∈ (f c).entries, e ∈ c.entries) : Fewer s (s.modify b f) := by
  intro c e he
  by_cases hc : c = b
  · subst hc
    simp only [State.modify, Function.update_self] at he
    exact h _ e he
  · simpa [State.modify, hc] using he

theorem reconcile_fewer (s : State) (items : List Resource) : Fewer s (s.reconcile site items) := by
  intro c e he
  unfold State.reconcile at he
  dsimp only at he
  split_ifs at he
  · cases he
  · exact he

theorem current_fewer (site : Site ω) (s : State) (b : ℕ) (items : Option (List Resource)) :
    Fewer s (s.current site b items).1 := by
  cases items with
  | none => exact modify_fewer s b fun c e he => by cases he
  | some items => exact reconcile_fewer s items

theorem cache_fewer (site : Site ω) (s : State) (resource : Resource) (items : List Resource) (now : Int) :
    Fewer s (s.cache site resource items now).1 := by
  have htouch (s : State) (b : ℕ) : Fewer s (s.touch b now) := modify_fewer s b fun c e he => he
  unfold State.cache
  dsimp only
  by_cases hin : cacheKey site resource ∈ items.map (cacheKey site)
  · rw [if_neg (not_not.mpr hin)]
    split
    · exact (reconcile_fewer s items).trans (htouch _ _)
    · split
      · exact reconcile_fewer s items
      next s' hroom =>
        have hevict : Fewer (s.reconcile site items) s' := by
          rcases makeRoom_cases hroom with ⟨rfl, -⟩ | ⟨key, evicted, -, rfl, -⟩
          · exact fun _ _ h => h
          · exact modify_fewer _ evicted fun c e he => by cases he
        have hinsert : Fewer s' (s'.insert site resource) := by
          intro c e he
          by_cases hc : c = s'.next
          · subst hc
            simp only [State.insert, Function.update_self] at he
            cases he
          · simpa [State.insert, hc] using he
        exact (((reconcile_fewer s items).trans hevict).trans hinsert).trans (htouch _ _)
  · rw [if_pos hin]
    exact reconcile_fewer s items

theorem current_effect (hI : Inv site w) {b : ℕ} {items : Option (List Resource)}
    (htidy : Tidy site i w (.current b items)) (hb : b < w.state.next) :
    Effect site i w (w.current site i b items) := by
  have hone : items = none →
      w.state.find (w.state.keyOf site b) = none ∨ w.state.find (w.state.keyOf site b) = some b := by
    rintro rfl
    exact htidy
  obtain ⟨hsound, hkept, hpassed, hdrops⟩ := hI.sound.current hone
  have hfewer := current_fewer site w.state b items
  refine ⟨⟨_, _, rfl, hkept, fun e he => ?_⟩, hI.note hsound hkept (fun c e he => .inl (hfewer c e he)) ?_⟩
  · rcases List.mem_cons.mp he with rfl | he
    · exact .inr rfl
    · obtain ⟨c, -, rfl⟩ := List.mem_map.mp he
      exact .inl rfl
  · intro pre e post heq
    have hdropped : ∀ c ∈ w.state.currentDrops site b items,
        c < (w.state.current site b items).1.next ∧
          ((w.state.current site b items).1.caches c).invalidated = true :=
      fun c hc => ⟨Nat.lt_of_lt_of_le (hdrops c hc).1 hkept.next, (hdrops c hc).2⟩
    cases pre with
    | nil =>
      obtain ⟨rfl, -⟩ := List.cons.inj heq
      intro hp
      obtain ⟨l, hl, hkey⟩ := hpassed hp
      refine ⟨Nat.lt_of_lt_of_le hb hkept.next, l, hl, ?_⟩
      rw [hkept.keyOf hb]
      exact hkey
    | cons e' pre =>
      have hmem : e ∈ (drops (w.state.currentDrops site b items) : List (Event ω ι)) := by
        rw [(List.cons.inj heq).2]
        exact List.mem_append_right _ (List.mem_cons_self ..)
      exact drops_fine hdropped hmem _

theorem cache_effect (hI : Inv site w) (resource : Resource) (items : List Resource) (now : Int) :
    Effect site i w (w.cache site i resource items now) := by
  obtain ⟨hsound, hkept, -, hdrops⟩ := hI.sound.cache resource items now
  have hfewer := cache_fewer site w.state resource items now
  have hevents : ∀ e ∈ (((w.state.cache site resource items now).2.map (Event.found i)).toList ++
      drops (w.state.cacheDrops site resource items) : List (Event ω ι)),
      (∃ b, e = .found i b) ∨ e ∈ (drops (w.state.cacheDrops site resource items) : List (Event ω ι)) := by
    intro e he
    rcases List.mem_append.mp he with he | he
    · obtain ⟨b, -, rfl⟩ := Option.map_eq_some_iff.mp (Option.mem_toList.mp he)
      exact .inl ⟨b, rfl⟩
    · exact .inr he
  refine ⟨⟨_, _, rfl, hkept, fun e he => ?_⟩, hI.note hsound hkept (fun c e he => .inl (hfewer c e he)) ?_⟩
  · rcases hevents e he with ⟨b, rfl⟩ | he
    · exact .inr rfl
    · obtain ⟨c, -, rfl⟩ := List.mem_map.mp he
      exact .inl rfl
  · intro pre e post heq
    have he : e ∈ pre ++ e :: post := List.mem_append_right _ (List.mem_cons_self ..)
    rcases hevents e (heq ▸ he) with ⟨b, rfl⟩ | he
    · trivial
    · exact drops_fine (fun c hc => ⟨Nat.lt_of_lt_of_le (hdrops c hc).1 hkept.next, (hdrops c hc).2⟩) he _

theorem not_dropped (hI : Inv site w) {b : ℕ} (h : (w.state.caches b).invalidated = false) :
    .dropped b ∉ w.log := by
  intro hmem
  obtain ⟨pre, post, hlog⟩ := List.append_of_mem hmem
  have hfine := hI.log (.dropped b) post ⟨pre, hlog.symm⟩
  rw [hfine.2] at h
  cases h

theorem publish_effect (hI : Inv site w) {b : ℕ} {updated : List LogEntry} (clipped : Bool) (serverTime : Int)
    (hupdated : ∀ e ∈ updated, Sourced site w.state w.log b e) (hb : b < w.state.next) :
    Effect site i w (w.publish site i b updated clipped serverTime) := by
  obtain ⟨hsound, hkept, hstored, hentries⟩ := hI.sound.publish (b := b) updated clipped serverTime
  have hentries' (c : ℕ) (e : LogEntry)
      (he : e ∈ ((w.state.publish site b updated clipped serverTime).1.caches c).entries) :
      e ∈ (w.state.caches c).entries ∨ c < w.state.next ∧ Sourced site w.state w.log c e := by
    rcases hentries c e he with h | ⟨rfl, h⟩
    · exact .inl h
    · exact .inr ⟨hb, hupdated e h⟩
  unfold World.publish
  cases hok : (w.state.publish site b updated clipped serverTime).2 with
  | false => exact ⟨⟨_, [], rfl, hkept, nofun⟩, hI.note hsound hkept hentries' (by simp)⟩
  | true =>
    refine ⟨⟨_, [.stored i b], rfl, hkept, fun e he => ?_⟩, hI.note hsound hkept hentries' ?_⟩
    · obtain rfl := List.mem_singleton.mp he
      exact .inr rfl
    · intro pre e post heq
      obtain ⟨rfl, rfl, rfl⟩ : pre = [] ∧ e = .stored i b ∧ post = [] := by
        cases pre with
        | nil => simpa [eq_comm] using heq
        | cons e'' pre => simp at heq
      exact ⟨Nat.lt_of_lt_of_le hb hkept.next, not_dropped hI (hstored hok).2⟩

theorem sem_effect {a : Ask ω} {r : a.Ans} (hI : Inv site w) (htidy : Tidy site i w a)
    (hal : Allowed site i w a) (h : sem site i w a w' r) : Effect site i w w' := by
  cases a with
  | monotonic | clock | outside what | reserve =>
    obtain rfl : w' = w := h
    exact .idle hI
  | resource | fields | kept =>
    obtain ⟨-, rfl⟩ := h
    exact .idle hI
  | catalog =>
    obtain ⟨-, rfl⟩ := h
    exact .single hI hI.sound (.refl _) (fun _ => rfl) rfl trivial
  | cache resource items =>
    obtain ⟨now, -, rfl⟩ := h
    exact cache_effect hI resource items now
  | current b items =>
    obtain ⟨-, rfl⟩ := h
    exact current_effect hI htidy hal
  | set b f =>
    obtain rfl := h
    exact modify_effect (f := fun c => { c with fields := f c.fields }) hI (fun _ => rfl) (fun _ => rfl)
      (fun _ => rfl) fun e (he : e ∈ ([] : List (Event ω ι))) => absurd he List.not_mem_nil
  | acquire b =>
    obtain ⟨-, rfl⟩ := h
    cases r with
    | false => exact .single hI hI.sound (.refl _) (fun _ => rfl) rfl trivial
    | true =>
      refine modify_effect (f := fun c => { c with locked := true }) hI (fun _ => rfl) (fun _ => rfl)
        (fun _ => rfl) fun e he => ?_
      obtain rfl := List.mem_singleton.mp he
      exact ⟨rfl, fun _ _ => trivial⟩
  | release b =>
    obtain rfl := h
    refine modify_effect (f := fun c => { c with locked := false }) hI (fun _ => rfl) (fun _ => rfl)
      (fun _ => rfl) fun e he => ?_
    obtain rfl := List.mem_singleton.mp he
    exact ⟨rfl, fun _ _ => trivial⟩
  | fetch b since serverTime =>
    rcases h with ⟨x, -, rfl⟩ | ⟨page, more, -, rfl⟩
    · exact .idle hI
    · exact .single hI hI.sound (.refl _) (fun _ => rfl) rfl trivial
  | publish b updated clipped serverTime =>
    rcases h with ⟨x, -, rfl⟩ | ⟨-, rfl⟩
    · exact .idle hI
    · exact publish_effect hI clipped serverTime hal.2 hal.1
  | take b =>
    simp only [sem] at h
    split_ifs at h with hinvalidated
    · obtain ⟨-, rfl⟩ := h
      exact .idle hI
    · obtain ⟨-, rfl⟩ := h
      refine .single hI hI.sound (.refl _) (fun _ => rfl) rfl ?_
      have hchecked : b < w.state.next := by
        obtain ⟨items, rest, htrace, -⟩ := hal
        have hin : (.checked i b (some items) true : Event ω ι) ∈ traceOf i w.log := by
          rw [htrace]
          exact List.mem_cons_self ..
        have hmem := (List.mem_filter.mp hin).1
        obtain ⟨pre, post, hlog⟩ := List.append_of_mem hmem
        exact (hI.log _ post ⟨pre, hlog.symm⟩ rfl).1
      exact ⟨hchecked, not_dropped hI (by simpa using hinvalidated), hal, fun e he => hI.sourced b e he⟩

/-! ## The contract of a call -/

def discipline (ι : Type) [DecidableEq ι] (site : Site ω) : Discipline ι (World ω ι) (Ask.Ans (ω := ω)) where
  toSystem := (system ω ι site).restrict (Tidy site)
  Inv := Inv site
  Allowed := Allowed site
  Rely := Rely
  rely_refl := Rely.refl
  rely_trans _ _ _ _ := Rely.trans
  inv_sem _ _ _ _ _ hI hal h := (sem_effect hI h.1 hal h.2).inv
  rely_sem _ _ _ _ _ _ hne hI hal h := (sem_effect hI h.1 hal h.2).rely hne
  inv_env w w' hI h := by
    obtain ⟨catalog, rfl⟩ := h
    exact ⟨hI.sound, hI.sourced, hI.log⟩
  rely_env i w w' _ h := by
    obtain ⟨catalog, rfl⟩ := h
    exact ⟨List.suffix_refl _, rfl, .refl _⟩

/-- The cache was made for that resource. -/
def Own (b : ℕ) (resource : Resource) (w : World ω ι) : Prop :=
  b < w.state.next ∧ (w.state.caches b).resource = resource

/-- The requests that are allowed to any call that has the cache. -/
def Free (b : ℕ) : Ask ω → Prop
  | .fetch .. | .publish .. | .take _ => False
  | .current c _ => c = b
  | _ => True

variable {b : ℕ} {resource : Resource} {trace : List (Event ω ι)}

/-- What any request leaves: the log only grows, and the caches stay those of their resources. -/
structure Later (w w' : World ω ι) : Prop where
  log : w.log <:+ w'.log
  kept : Kept w.state w'.state

omit [DecidableEq ι] in
theorem Own.later (h : Own b resource w) (hl : Later w w') : Own b resource w' :=
  ⟨Nat.lt_of_lt_of_le h.1 hl.kept.next, (hl.kept.resource b h.1).trans h.2⟩

theorem Rely.later (h : Rely i w w') : Later w w' := ⟨h.log, h.kept⟩

theorem sem_later {a : Ask ω} {r : a.Ans} (hI : Inv site w) (hal : Allowed site i w a)
    (hs : (discipline ι site).sem i w a w' r) : Later w w' := by
  obtain ⟨s', events, rfl, hkept, -⟩ := (sem_effect hI hs.1 hal hs.2).note
  exact ⟨List.suffix_append .., hkept⟩

/-- A fact that lasts. -/
def Lasts (K : World ω ι → Prop) : Prop := ∀ w w', Later w w' → K w → K w'

theorem Lasts.stable {K : World ω ι → Prop} (h : Lasts K) : (discipline ι site).Stable i K :=
  fun w w' hr hK => h w w' hr.later hK

/-- The events of the call so far. -/
def Traced (i : ι) (trace : List (Event ω ι)) (w : World ω ι) : Prop := traceOf i w.log = trace

theorem traced_stable (trace : List (Event ω ι)) : (discipline ι site).Stable i (Traced i trace) :=
  fun _ _ hr h => hr.trace.trans h

theorem ask_yields {a : Ask ω} {P : a.Ans → World ω ι → Prop} (h : ∀ w₁, Rely i w w₁ → Inv site w₁ →
      Allowed site i w₁ a ∧ ∀ w₂ r, (discipline ι site).sem i w₁ a w₂ r → Inv site w₂ → P r w₂) :
    (discipline ι site).Yields i (ask a) P w := by
  refine Yields.ask fun w₁ hr hI => ⟨(h w₁ hr hI).1, fun w₂ r hs hI₂ => Yields.pure ?_⟩
  exact (h w₁ hr hI).2 w₂ r hs hI₂

/-- A request that leaves the world as it is. -/
theorem same_yields {a : Ask ω} {K : World ω ι → Prop} (hal : ∀ w, Allowed site i w a)
    (hsame : ∀ w w' r, sem site i w a w' r → w' = w) (hK : (discipline ι site).Stable i K) (h : K w) :
    (discipline ι site).Yields i (ask a) (fun _ w' => K w') w := by
  refine ask_yields fun w₁ hr _ => ⟨hal w₁, fun w₂ r hs _ => ?_⟩
  obtain rfl := hsame _ _ _ hs.2
  exact hK _ _ hr h

theorem outside_yields (what : Outside) {K : World ω ι → Prop} (hK : (discipline ι site).Stable i K) (h : K w) :
    (discipline ι site).Yields i (outside what) (fun _ w' => K w') w := by
  refine (same_yields (a := .outside what) (fun _ => trivial) (fun _ _ _ hs => hs) hK h).bind fun r w' h' => ?_
  exact Yields.lift fun _ _ => h'

/-- What lasts is kept in all that is allowed to any call that has the cache. -/
theorem free_yields {α : Type} {K : World ω ι → Prop} (hK : Lasts K) (hown : ∀ w, K w → Own b resource w) :
    ∀ {p : Code ω α} {w : World ω ι}, p.Asks (Free b) → K w → (discipline ι site).Yields i p (fun _ w' => K w') w
  | .done _, _, _, h => .pure h
  | .raise x, _, _, _ => .raise x
  | .ask a k, w, hp, h => by
    refine Yields.ask fun w₁ hr hI => ?_
    have h₁ := hK w w₁ hr.later h
    have hal : Allowed site i w₁ a := by
      have ha := hp.1
      cases a with
      | current c items =>
        obtain rfl : c = b := ha
        exact (hown w₁ h₁).1
      | fetch | publish | take => exact ha.elim
      | _ => trivial
    exact ⟨hal, fun w₂ r hs _ => free_yields hK hown (hp.2 r) (hK w₁ w₂ (sem_later hI hal hs) h₁)⟩

omit [DecidableEq ι] in
theorem own_lasts (b : ℕ) (resource : Resource) : Lasts (Own b resource : World ω ι → Prop) :=
  fun _ _ hl h => h.later hl

/-- `_is_current` adds a reading and a check to what the call has done. -/
theorem isCurrent_yields (ho : Own b resource w) (ht : Traced i trace w) :
    (discipline ι site).Yields i (isCurrent b) (fun passed w' => Own b resource w' ∧ (passed = true →
      ∃ items, Traced i (.checked i b (some items) true :: .read i (some items) :: trace) w')) w := by
  have hread : (discipline ι site).Yields i (ask (ω := ω) .catalog) (fun items w' =>
      Own b resource w' ∧ Traced i (.read i items :: trace) w') w := by
    refine ask_yields fun w₁ hr hI => ⟨trivial, fun w₂ items hs _ => ?_⟩
    obtain ⟨-, rfl, rfl⟩ := hs
    have ho₁ : Own b resource w₁ := ho.later hr.later
    refine ⟨ho₁, (traceOf_cons rfl _).trans ?_⟩
    exact congrArg _ (hr.trace.trans ht)
  refine hread.bind fun items w₁ ⟨ho₁, ht₁⟩ => ?_
  refine ask_yields fun w₂ hr hI => ?_
  have ho₂ := ho₁.later hr.later
  have hal : Allowed site i w₂ (.current b items) := ho₂.1
  refine ⟨hal, fun w₃ passed hs hI₃ => ⟨ho₂.later (sem_later hI hal hs), fun hp => ?_⟩⟩
  obtain ⟨-, hpassed, rfl⟩ := hs
  subst hp
  have hbefore : traceOf i w₂.log = _ := hr.trace.trans ht₁
  cases items with
  | none => cases hpassed
  | some items =>
    refine ⟨items, (traceOf_cons rfl _).trans ?_⟩
    change _ :: traceOf i (drops _ ++ w₂.log) = _
    rw [traceOf_drops, ← hpassed]
    exact congrArg _ hbefore

/-! ### A refresh -/

theorem ask_asks {a : Ask ω} (h : Free b a) : (ask a).Asks (Free b) := ⟨h, fun _ => trivial⟩

theorem outside_asks (b : ℕ) (what : Outside) : (outside (ω := ω) what).Asks (Free b) :=
  Prog.Asks.bind (fun _ => .lift _) (ask_asks trivial)

theorem isCurrent_asks (b : ℕ) : (isCurrent (ω := ω) b).Asks (Free b) := by
  unfold isCurrent
  exact Prog.Asks.bind (fun items => ask_asks (a := .current b items) rfl) (ask_asks trivial)

theorem dispatchGuard_asks (b : ℕ) : (dispatchGuard (ω := ω) b).Asks (Free b) :=
  Prog.Asks.bind (fun _ => Prog.Asks.ite (fun _ => outside_asks b _) fun _ => .raise _) (isCurrent_asks b)

theorem fail_asks (b : ℕ) : (fail (ω := ω) b).Asks (Free b) := by
  unfold fail
  refine Prog.Asks.bind (fun _ => ?_) (ask_asks trivial)
  exact ask_asks trivial

theorem reserveSample_asks (b : ℕ) (now : Int) : (reserveSample (ω := ω) b now).Asks (Free b) := by
  unfold reserveSample
  refine Prog.Asks.bind (fun _ => ?_) (ask_asks trivial)
  refine Prog.Asks.ite (fun _ => .pure _) fun _ => ?_
  refine Prog.Asks.bind (fun _ => ?_) (isCurrent_asks b)
  refine Prog.Asks.ite (fun _ => ?_) fun _ => .pure _
  refine Prog.Asks.bind (fun _ => ?_) (ask_asks trivial)
  refine Prog.Asks.bind (fun _ => ?_) (outside_asks b _)
  refine Prog.Asks.bind (fun _ => ?_) (outside_asks b _)
  refine Prog.Asks.bind (fun _ => ?_) (ask_asks trivial)
  exact Prog.Asks.bind (fun _ => .pure _) (.lift _)

theorem finishSample_asks (b : ℕ) : (finishSample (ω := ω) b).Asks (Free b) := by
  unfold finishSample
  refine Prog.Asks.handle (fun _ => ?_) (outside_asks b _)
  refine Prog.Asks.bind (fun _ => ?_) (ask_asks trivial)
  exact ask_asks trivial

/-- A passed guard is the last that the call has done. -/
def Guarded (i : ι) (b : ℕ) (w : World ω ι) : Prop :=
  ∃ items, (traceOf i w.log).head? = some (.checked i b (some items) true)

theorem Guarded.rely (h : Guarded i b w) (hr : Rely i w w') : Guarded i b w' := by
  obtain ⟨items, h⟩ := h
  exact ⟨items, hr.trace ▸ h⟩

theorem dispatchGuard_yields (ho : Own b resource w) :
    (discipline ι site).Yields i (dispatchGuard b) (fun _ w' => Own b resource w' ∧ Guarded i b w') w := by
  refine (isCurrent_yields ho rfl).bind fun passed w₁ ⟨ho₁, hpassed⟩ => ?_
  refine Yields.ite (fun hp => ?_) fun _ => .raise _
  obtain ⟨items, ht⟩ := hpassed hp
  have hguarded : Guarded i b w₁ := ⟨items, by rw [ht]; rfl⟩
  exact outside_yields .authorize (Stable.and (own_lasts b resource).stable fun _ _ hr h => h.rely hr) ⟨ho₁, hguarded⟩

/-- What `normalize` makes of the page may be served from the cache. -/
def PageOf (site : Site ω) (b : ℕ) (resource : Resource) (page : List ω) (w : World ω ι) : Prop :=
  Own b resource w ∧ ∀ raw ∈ page, ∀ window time entry clip,
    site.normalize raw resource window time = some (entry, clip) → Sourced site w.state w.log b entry

theorem pageOf_lasts (site : Site ω) (b : ℕ) (resource : Resource) (page : List ω) :
    Lasts (PageOf site b resource page : World ω ι → Prop) := by
  rintro w w' hl ⟨ho, h⟩
  refine ⟨ho.later hl, fun raw hraw window time entry clip hnormal => ?_⟩
  exact (h raw hraw window time entry clip hnormal).mono hl.kept ho.1 hl.log

theorem mem_trace {e : Event ω ι} {log : List (Event ω ι)} (h : (traceOf i log).head? = some e) : e ∈ log :=
  (List.mem_filter.mp (List.mem_of_mem_head? h)).1

theorem Inv.checked (hI : Inv site w) {items : List Resource}
    (h : .checked i b (some items) true ∈ w.log) : b < w.state.next ∧
      w.state.keyOf site b ∈ items.map (cacheKey site) := by
  obtain ⟨pre, post, hlog⟩ := List.append_of_mem h
  obtain ⟨hb, l, hl, hkey⟩ := hI.log _ post ⟨pre, hlog.symm⟩ rfl
  obtain rfl := Option.some.inj hl
  exact ⟨hb, hkey⟩

theorem fetchPage_yields (ho : Own b resource w) (since serverTime : Int) :
    (discipline ι site).Yields i (fetchPage b since serverTime)
      (fun page w' => PageOf site b resource page.1 w') w := by
  have hown : (discipline ι site).Stable i (Own b resource) := (own_lasts b resource).stable
  refine (outside_yields .deadline hown ho).bind fun _ w₁ h₁ => ?_
  refine (outside_yields .scope hown h₁).bind fun _ w₂ h₂ => ?_
  refine (outside_yields .client hown h₂).bind fun _ w₃ h₃ => ?_
  refine (outside_yields .scope hown h₃).bind fun _ w₄ h₄ => ?_
  refine (dispatchGuard_yields h₄).bind fun _ w₅ ⟨h₅, hguarded⟩ => ?_
  have hfetch : (discipline ι site).Yields i (ask (.fetch b since serverTime)) (fun answer w' =>
      ∀ page, answer = .ok page → PageOf site b resource page.1 w') w₅ := by
    refine ask_yields fun w₆ hr hI => ?_
    have h₆ := h₅.later hr.later
    have hguarded₆ := hguarded.rely hr
    refine ⟨hguarded₆, fun w₇ answer hs _ page hok => ?_⟩
    subst hok
    rcases hs.2 with ⟨x, hx, -⟩ | ⟨raws, more, hx, rfl⟩
    · cases hx
    · obtain rfl := Except.ok.inj hx
      obtain ⟨items, hhead⟩ := hguarded₆
      refine ⟨h₆, fun raw hraw window time entry clip hnormal => ?_⟩
      have hkey := (hI.checked (mem_trace hhead)).2
      exact ⟨i, raws, items, raw, window, time, clip, w₆.log, List.suffix_refl _, hhead, hkey, hraw,
        by rw [← h₆.2] at hnormal; exact hnormal⟩
  refine hfetch.bind fun answer w₆ h₆ => ?_
  refine Yields.lift_bind fun page hok => ?_
  refine (outside_yields .deadline (pageOf_lasts site b resource page.1).stable (h₆ page hok)).bind fun _ w₇ h₇ => .pure h₇

/-- Entries that may be served from the cache. -/
def AllSourced (site : Site ω) (b : ℕ) (resource : Resource) (entries : List LogEntry) (w : World ω ι) : Prop :=
  Own b resource w ∧ ∀ e ∈ entries, Sourced site w.state w.log b e

theorem allSourced_lasts (site : Site ω) (b : ℕ) (resource : Resource) (entries : List LogEntry) :
    Lasts (AllSourced site b resource entries : World ω ι → Prop) := by
  rintro w w' hl ⟨ho, h⟩
  exact ⟨ho.later hl, fun e he => (h e he).mono hl.kept ho.1 hl.log⟩

theorem mem_put {entries : List LogEntry} {entry e : LogEntry} (h : e ∈ put entries entry) :
    e ∈ entries ∨ e = entry := by
  unfold put at h
  split_ifs at h
  · obtain ⟨e', he', heq⟩ := List.mem_map.mp h
    split_ifs at heq
    · exact .inr heq.symm
    · exact .inl (heq ▸ he')
  · rcases List.mem_append.mp h with h | h
    · exact .inl h
    · exact .inr (List.mem_singleton.mp h)

theorem normalizePage_yields (window serverTime : Int) : ∀ (page : List ω) (updated : List LogEntry)
    (clipped : Bool) {w : World ω ι}, PageOf site b resource page w → AllSourced site b resource updated w →
    (discipline ι site).Yields i (normalizePage site resource window serverTime page updated clipped)
      (fun sample w' => AllSourced site b resource sample.1 w') w
  | [], updated, clipped, w, _, h => .pure h
  | raw :: page, updated, clipped, w, hpage, h => by
    unfold normalizePage
    have hboth : Lasts fun w' : World ω ι =>
        PageOf site b resource (raw :: page) w' ∧ AllSourced site b resource updated w' :=
      fun w w' hl h => ⟨pageOf_lasts site b resource _ w w' hl h.1, allSourced_lasts site b resource _ w w' hl h.2⟩
    refine (outside_yields .deadline hboth.stable ⟨hpage, h⟩).bind fun _ w₁ ⟨hpage₁, h₁⟩ => ?_
    have htail : PageOf site b resource page w₁ := ⟨hpage₁.1, fun raw' hraw => hpage₁.2 raw' (List.mem_cons_of_mem _ hraw)⟩
    cases hnormal : site.normalize raw resource window serverTime with
    | none => exact normalizePage_yields window serverTime page updated clipped htail h₁
    | some result =>
      obtain ⟨entry, clip⟩ := result
      refine normalizePage_yields window serverTime page _ _ htail ⟨h₁.1, fun e he => ?_⟩
      rcases mem_put he with he | rfl
      · exact h₁.2 e he
      · exact hpage₁.2 raw (List.mem_cons_self ..) _ _ _ _ hnormal

/-- A step of a refresh that any call may make. -/
theorem own_yields {α : Type} {p : Code ω α} (hp : p.Asks (Free b)) (ho : Own b resource w) :
    (discipline ι site).Yields i p (fun _ w' => Own b resource w') w :=
  free_yields (own_lasts b resource) (fun _ h => h) hp ho

theorem fetchSample_yields (ho : Own b resource w) (reservation : Reservation) :
    (discipline ι site).Yields i (fetchSample site b resource reservation) (fun _ w' => Own b resource w') w := by
  unfold fetchSample
  have hown : (discipline ι site).Stable i (Own b resource) := (own_lasts b resource).stable
  refine Yields.bind (own_yields (ask_asks (a := .monotonic) trivial) ho) fun now w₁ h₁ => ?_
  refine Yields.bind (own_yields (ask_asks ?_) h₁) fun _ w₂ h₂ => ?_
  · trivial
  refine Yields.bind (own_yields (ask_asks ?_) h₂) fun fields w₃ h₃ => ?_
  · trivial
  refine (outside_yields .deadline hown h₃).bind fun _ w₄ h₄ => ?_
  refine (own_yields (dispatchGuard_asks b) h₄).bind fun _ w₅ h₅ => ?_
  refine (outside_yields .scope hown h₅).bind fun _ w₆ h₆ => ?_
  refine (outside_yields .query hown h₆).bind fun _ w₇ h₇ => ?_
  refine (fetchPage_yields h₇ _ _).bind fun page w₈ h₈ => ?_
  have hpage : Lasts (PageOf site b resource page.1 : World ω ι → Prop) := pageOf_lasts site b resource page.1
  refine (outside_yields .deadline hpage.stable h₈).bind fun _ w₉ h₉ => ?_
  have hkept : (discipline ι site).Yields i (ask (.kept b (reservation.serverTime - site.lookback)))
      (fun kept w' => PageOf site b resource page.1 w' ∧ AllSourced site b resource kept w') w₉ := by
    refine ask_yields fun w₁ hr hI => ⟨trivial, fun w₂ kept hs _ => ?_⟩
    obtain ⟨-, rfl, rfl⟩ := hs
    have hpage₁ := hpage _ _ hr.later h₉
    exact ⟨hpage₁, hpage₁.1, fun e he => hI.sourced b e (List.mem_of_mem_filter he)⟩
  refine hkept.bind fun kept w₁₀ ⟨hpage₁₀, hkept₁₀⟩ => ?_
  have htake : PageOf site b resource (page.1.take site.pageSize) w₁₀ :=
    ⟨hpage₁₀.1, fun raw hraw => hpage₁₀.2 raw (List.mem_of_mem_take hraw)⟩
  refine (normalizePage_yields _ _ _ _ _ htake hkept₁₀).bind fun sample w₁₁ h₁₁ => ?_
  have hsample : Lasts (AllSourced site b resource sample.1 : World ω ι → Prop) :=
    allSourced_lasts site b resource sample.1
  refine (outside_yields .deadline hsample.stable h₁₁).bind fun _ w₁₂ h₁₂ => ?_
  refine (free_yields hsample (fun _ h => h.1) (isCurrent_asks b) h₁₂).bind fun current w₁₃ h₁₃ => ?_
  refine Yields.ite (fun _ => ?_) fun _ => .pure h₁₃.1
  have hpublish : (discipline ι site).Yields i (ask (.publish b sample.1 sample.2 reservation.serverTime))
      (fun _ w' => Own b resource w') w₁₃ := by
    refine ask_yields fun w₁ hr hI => ?_
    have h₁ := hsample _ _ hr.later h₁₃
    have hal : Allowed site i w₁ (.publish b sample.1 sample.2 reservation.serverTime) := ⟨h₁.1.1, h₁.2⟩
    exact ⟨hal, fun w₂ r hs _ => h₁.1.later (sem_later hI hal hs)⟩
  refine hpublish.bind fun answer w₁₄ h₁₄ => ?_
  exact Yields.lift_bind fun _ _ => .pure h₁₄

theorem sample_yields (ho : Own b resource w) (reservation : Reservation) :
    (discipline ι site).Yields i (sample site b resource reservation) (fun _ w' => Own b resource w') w := by
  unfold sample
  refine Yields.bind (own_yields (ask_asks ?_) ho) fun _ w₁ h₁ => ?_
  · trivial
  refine Yields.ite (fun _ => fetchSample_yields h₁ reservation) fun _ => own_yields ?_ h₁
  refine Prog.Asks.bind (fun now => ?_) (ask_asks (a := .monotonic) trivial)
  exact ask_asks trivial

/-- What the call has done ends with its refresh. -/
def Ended (i : ι) (b : ℕ) (resource : Resource) (w : World ω ι) : Prop :=
  Own b resource w ∧ Refreshed i b (traceOf i w.log)

theorem release_yields (ho : Own b resource w) :
    (discipline ι site).Yields i (ask (.release b)) (fun _ w' => Ended i b resource w') w := by
  refine ask_yields fun w₁ hr hI => ⟨trivial, fun w₂ r hs _ => ?_⟩
  refine ⟨(ho.later hr.later).later (sem_later (a := .release b) hI trivial hs), .inr (.inr ?_)⟩
  obtain rfl := hs.2
  change (traceOf i (_ :: w₁.log)).head? = _
  rw [traceOf_cons rfl]
  rfl

/-- The handler of a failure is entered with the cache that the call has. -/
theorem handled_yields {α : Type} {p : Code ω α} {g : Raised → Code ω α}
    (hp : (discipline ι site).Yields i p (fun _ w' => Own b resource w') w) (ho : Own b resource w)
    (hg : ∀ x, (g x).Asks (Free b)) :
    (discipline ι site).Yields i (p.handle g) (fun _ w' => Own b resource w') w := by
  refine Yields.handle (A := fun _ => True) (K := Own b resource) ⟨?_, ?_⟩ (Prog.Asks.any p) hp ho ?_
  · exact (own_lasts b resource).stable
  · exact fun w a w' r _ hI hal hs h => h.later (sem_later hI hal hs)
  · exact fun x w' h => own_yields (hg x) h

theorem refreshLocked_yields (ho : Own b resource w) (now : Int) :
    (discipline ι site).Yields i (refreshLocked site b now) (fun _ w' => Ended i b resource w') w := by
  unfold refreshLocked
  have hresource : (discipline ι site).Yields i (ask (ω := ω) (.resource b)) (fun r w' =>
      r = resource ∧ Own b resource w') w := by
    refine ask_yields fun w₁ hr hI => ⟨trivial, fun w₂ r hs _ => ?_⟩
    obtain ⟨-, rfl, rfl⟩ := hs
    exact ⟨(ho.later hr.later).2, ho.later hr.later⟩
  refine hresource.bind fun r w₁ ⟨hr, h₁⟩ => ?_
  subst hr
  have hreserved : (discipline ι site).Yields i (reserveSample b now) (fun _ w' => Own b r w') w₁ :=
    own_yields (reserveSample_asks b now) h₁
  have hreserve := handled_yields (g := fun _ => do fail b; pure none) hreserved h₁
    fun _ => Prog.Asks.bind (fun _ => .pure _) (fail_asks b)
  refine hreserve.bind fun reservation w₂ h₂ => ?_
  cases reservation with
  | none => exact release_yields h₂
  | some reservation =>
    refine (handled_yields (sample_yields h₂ reservation) h₂ fun _ => fail_asks b).bind fun _ w₃ h₃ => ?_
    refine Yields.ite (fun _ => ?_) fun _ => release_yields h₃
    exact (own_yields (finishSample_asks b) h₃).bind fun _ w₄ h₄ => release_yields h₄

/-- The call has its cache, and has done nothing with it. -/
def Began (i : ι) (b : ℕ) (resource : Resource) (w : World ω ι) : Prop :=
  Own b resource w ∧ (traceOf i w.log).head? = some (.found i b)

theorem Began.rely (h : Began i b resource w) (hr : Rely i w w') : Began i b resource w' :=
  ⟨h.1.later hr.later, hr.trace ▸ h.2⟩

theorem refresh_yields (h : Began i b resource w) :
    (discipline ι site).Yields i (refresh site b) (fun _ w' => Ended i b resource w') w := by
  unfold refresh
  have hbegan : (discipline ι site).Stable i (Began i b resource) := fun _ _ hr h => h.rely hr
  refine Yields.bind (same_yields (a := .monotonic) (fun _ => trivial) (fun _ _ _ hs => hs) hbegan h)
    fun now w₁ h₁ => ?_
  refine Yields.bind (same_yields (a := .fields b) (fun _ => trivial) (fun _ _ _ hs => hs.2) hbegan h₁)
    fun fields w₂ h₂ => ?_
  refine Yields.ite (fun _ => .pure ⟨h₂.1, .inl h₂.2⟩) fun _ => ?_
  have hacquire : (discipline ι site).Yields i (ask (ω := ω) (.acquire b)) (fun acquired w' =>
      Own b resource w' ∧ (acquired = false → Ended i b resource w')) w₂ := by
    refine ask_yields fun w₃ hr hI => ⟨trivial, fun w₄ acquired hs _ => ?_⟩
    have ho := (h₂.1.later hr.later).later (sem_later (a := .acquire b) hI trivial hs)
    refine ⟨ho, fun hacquired => ⟨ho, .inr (.inl ?_)⟩⟩
    obtain ⟨-, -, rfl⟩ := hs
    subst hacquired
    change (traceOf i (_ :: w₃.log)).head? = _
    rw [traceOf_cons rfl]
    rfl
  refine hacquire.bind fun acquired w₃ ⟨ho, hend⟩ => ?_
  refine Yields.ite (fun _ => refreshLocked_yields ho now) fun hacquired => .pure (hend ?_)
  exact Bool.eq_false_iff.mpr hacquired

/-! ### A call -/

/-- The entries were taken from a cache of the resource. -/
def Taken (site : Site ω) (i : ι) (resource : Resource) (entries : List LogEntry) (w : World ω ι) : Prop :=
  ∃ b es post, (Event.took i b es :: post) <:+ w.log ∧ b < w.state.next ∧
    w.state.keyOf site b = cacheKey site resource ∧ ∀ e ∈ entries, e ∈ es

omit [DecidableEq ι] in
theorem taken_lasts (site : Site ω) (i : ι) (resource : Resource) (entries : List LogEntry) :
    Lasts (Taken site i resource entries) := by
  rintro w w' hl ⟨b, es, post, hpost, hb, hkey, hsub⟩
  exact ⟨b, es, post, hpost.trans hl.log, Nat.lt_of_lt_of_le hb hl.kept.next, (hl.kept.keyOf hb).trans hkey, hsub⟩

theorem found_yields (call : Call) :
    (discipline ι site).Yields i (ask (.cache call.resource call.items)) (fun found w' => ∀ b, found = some b →
      ∃ resource, cacheKey site resource = cacheKey site call.resource ∧ Began i b resource w') w := by
  refine ask_yields fun w₁ hr hI => ⟨trivial, fun w₂ found hs _ b hb => ?_⟩
  subst hb
  obtain ⟨-, now, hfound, rfl⟩ := hs
  obtain ⟨-, -, hkey, -⟩ := hI.sound.cache call.resource call.items now
  obtain ⟨hlt, hkey⟩ := hkey b hfound.symm
  refine ⟨_, hkey, ⟨hlt, rfl⟩, ?_⟩
  change (traceOf i ((((w₁.state.cache site call.resource call.items now).2.map (Event.found i)).toList ++
    drops _) ++ w₁.log)).head? = _
  rw [← hfound]
  change (traceOf i (_ :: (drops _ ++ w₁.log))).head? = _
  rw [traceOf_cons rfl]
  rfl

theorem take_yields {items : List Resource} {t : List (Event ω ι)} (ho : Own b resource w)
    (ht : Traced i (.checked i b (some items) true :: .read i (some items) :: t) w)
    (hrefreshed : Refreshed i b t) :
    (discipline ι site).Yields i (ask (ω := ω) (.take b)) (fun taken w' => ∀ fields entries,
      taken = some (fields, entries) → Taken site i resource entries w' ∧ Own b resource w') w := by
  refine ask_yields fun w₁ hr hI => ?_
  have hal : Allowed site i w₁ (.take b) := ⟨items, t, hr.trace.trans ht, hrefreshed⟩
  refine ⟨hal, fun w₂ taken hs _ fields entries htaken => ?_⟩
  subst htaken
  have ho₁ := ho.later hr.later
  have hsem : sem site i w₁ (.take b) w₂ (some (fields, entries)) := hs.2
  simp only [sem] at hsem
  split_ifs at hsem with hinvalidated
  · cases hsem.1
  · obtain ⟨heq, rfl⟩ := hsem
    obtain ⟨-, rfl⟩ := Prod.mk.inj (Option.some.inj heq)
    refine ⟨⟨b, _, w₁.log, List.suffix_refl _, ho₁.1, ?_, fun e he => he⟩, ho₁⟩
    exact congrArg _ ho₁.2

theorem checkDeadline_asks (b : ℕ) : ∀ entries : List LogEntry, (checkDeadline (ω := ω) entries).Asks (Free b)
  | [] => trivial
  | _ :: entries => Prog.Asks.bind (fun _ => checkDeadline_asks b entries) (outside_asks b _)

theorem respond_entries (query : Query) (window now monotonic : Int) (fields : Meta) (entries : List LogEntry) :
    ∀ e ∈ (respond site query window now monotonic fields entries).entries, e ∈ entries := by
  intro e he
  exact List.mem_of_mem_filter (List.mem_mergeSort.mp (List.mem_of_mem_take he))

/-- How a call ends: what it serves was taken from a cache of its resource. -/
def Ends (site : Site ω) (i : ι) (resource : Resource) : Except Raised Response → World ω ι → Prop
  | .ok response, w => response.entries ≠ [] → Taken site i resource response.entries w
  | .error _, _ => True

theorem readLogs_yields (call : Call) : (discipline ι site).Yields i
    (readLogs site call.resource call.items call.query)
    (fun response w' => Ends site i call.resource (.ok response) w') w := by
  unfold readLogs
  have hempty (status : Status) (window : Int) (w : World ω ι) :
      Ends site i call.resource (.ok (empty status window)) w := fun h => absurd rfl h
  refine Yields.bind (same_yields (a := .clock) (K := fun _ => True) (fun _ => trivial) (fun _ _ _ hs => hs)
    (fun _ _ _ h => h) trivial) fun now w₁ _ => ?_
  refine Yields.ite (fun _ => .raise _) fun _ => ?_
  refine Yields.ite (fun _ => .pure (hempty _ _ _)) fun _ => ?_
  refine (found_yields call).bind fun found w₂ h₂ => ?_
  cases found with
  | none => exact .pure fun h => absurd rfl h
  | some b =>
    obtain ⟨resource, hkey, hbegan⟩ := h₂ b rfl
    refine (refresh_yields hbegan).bind fun _ w₃ ⟨ho₃, hrefreshed⟩ => ?_
    refine (isCurrent_yields ho₃ rfl).bind fun current w₄ ⟨ho₄, hcurrent⟩ => ?_
    refine Yields.ite (fun hc => ?_) fun _ => .pure (hempty _ _ _)
    obtain ⟨items, ht⟩ := hcurrent hc
    have hstable : (discipline ι site).Stable i fun w => Own b resource w ∧
        Traced i (.checked i b (some items) true :: .read i (some items) :: traceOf i w₃.log) w :=
      Stable.and (own_lasts b resource).stable (traced_stable _)
    refine Yields.bind (same_yields (a := .clock) (fun _ => trivial) (fun _ _ _ hs => hs) hstable ⟨ho₄, ht⟩)
      fun now w₅ ⟨ho₅, ht₅⟩ => ?_
    refine (take_yields ho₅ ht₅ hrefreshed).bind fun taken w₆ h₆ => ?_
    cases taken with
    | none => exact .pure (hempty _ _ _)
    | some taken =>
      obtain ⟨fields, entries⟩ := taken
      have hlasts : Lasts fun w : World ω ι => Taken site i resource entries w ∧ Own b resource w := by
        intro w w' hl h
        exact ⟨taken_lasts site i resource entries w w' hl h.1, h.2.later hl⟩
      have hfree {α : Type} {p : Code ω α} {w : World ω ι} (hp : p.Asks (Free b))
          (h : Taken site i resource entries w ∧ Own b resource w) : (discipline ι site).Yields i p
            (fun _ w' => Taken site i resource entries w' ∧ Own b resource w') w :=
        free_yields hlasts (fun _ h => h.2) hp h
      refine (hfree (ask_asks (a := .monotonic) trivial) (h₆ fields entries rfl)).bind fun monotonic w₇ h₇ => ?_
      refine (hfree (checkDeadline_asks b entries) h₇).bind fun _ w₈ h₈ => .pure ?_
      intro _
      obtain ⟨c, es, post, hpost, hlt, hc, hsub⟩ := h₈.1
      refine ⟨c, es, post, hpost, hlt, hc.trans hkey, fun e he => hsub e ?_⟩
      exact respond_entries _ _ _ _ _ _ e he

theorem Inv.start (site : Site ω) (catalog : Option (List Resource)) :
    Inv site (World.start catalog : World ω ι) where
  sound :=
    { keys := List.nodup_nil
      made := fun _ h => absurd h List.not_mem_nil
      live := fun b h => absurd h (Nat.not_lt_zero b)
      clean := fun _ _ => rfl
      blank := fun _ _ => rfl }
  sourced _ _ h := absurd h List.not_mem_nil
  log _ _ h := by simp [World.start] at h

theorem ends_stable (site : Site ω) (i : ι) (resource : Resource) (o : Except Raised Response) :
    (discipline ι site).Stable i (Ends site i resource o) := by
  intro w w' hr h
  cases o with
  | error x => trivial
  | ok response => exact fun hne => taken_lasts site i resource _ w w' hr.later (h hne)

/-- The entry was in a page that was fetched for a resource with that key, by a call whose guard had passed
on a catalog with the key. -/
def FetchedUnderGuard (site : Site ω) (key : CacheKey) (log : List (Event ω ι)) (entry : LogEntry) : Prop :=
  ∃ j b page items raw resource window time clip post, (Event.fetched j b page :: post) <:+ log ∧
    (traceOf j post).head? = some (.checked j b (some items) true) ∧ key ∈ items.map (cacheKey site) ∧
    raw ∈ page ∧ cacheKey site resource = key ∧ site.normalize raw resource window time = some (entry, clip)

/-- The entries of the response were taken from a cache that had not been dropped, after a refresh and after
another reading of the catalog, which had the key; and each was fetched under a guard. -/
def Served (site : Site ω) (i : ι) (key : CacheKey) (response : Response) (log : List (Event ω ι)) : Prop :=
  response.entries ≠ [] → ∃ b es post, (Event.took i b es :: post) <:+ log ∧
    (∀ e ∈ response.entries, e ∈ es) ∧ .dropped b ∉ post ∧
    (∃ items rest, traceOf i post = .checked i b (some items) true :: .read i (some items) :: rest ∧
      Refreshed i b rest ∧ key ∈ items.map (cacheKey site)) ∧
    ∀ e ∈ response.entries, FetchedUnderGuard site key post e

theorem Taken.served {response : Response} (hI : Inv site w)
    (h : response.entries ≠ [] → Taken site i resource response.entries w) :
    Served site i (cacheKey site resource) response w.log := by
  intro hne
  obtain ⟨b, es, post, hpost, hb, hkey, hsub⟩ := h hne
  obtain ⟨-, hdropped, ⟨items, rest, htrace, hrefreshed⟩, hsourced⟩ := hI.log _ post hpost
  have hchecked : (.checked i b (some items) true : Event ω ι) ∈ post := by
    refine mem_trace (i := i) ?_
    rw [htrace]
    rfl
  have hmem : (.checked i b (some items) true : Event ω ι) ∈ w.log :=
    hpost.subset (List.mem_cons_of_mem _ hchecked)
  refine ⟨b, es, post, hpost, hsub, hdropped, ⟨items, rest, htrace, hrefreshed, ?_⟩, fun e he => ?_⟩
  · rw [← hkey]
    exact (hI.checked hmem).2
  · obtain ⟨j, page, items, raw, window, time, clip, post', hpost', hhead, hin, hraw, hnormal⟩ :=
      hsourced e (hsub e he)
    rw [hkey] at hin
    exact ⟨j, b, page, items, raw, _, window, time, clip, post', hpost', hhead, hin, hraw, hkey, hnormal⟩

/-- What holds of the events, and of the responses, in every state. -/
structure Unrevoked (site : Site ω) (calls : ι → Call)
    (c : Conf ι (World ω ι) (Ask.Ans (ω := ω)) Raised Response) : Prop where
  served : ∀ i response, c.pool i = .done response →
    Served site i (cacheKey site (calls i).resource) response c.state.log
  took : ∀ i b es post, (Event.took i b es :: post) <:+ c.state.log → .dropped b ∉ post
  stored : ∀ i b post, (Event.stored i b :: post) <:+ c.state.log → .dropped b ∉ post

/-- In every run in which no call takes the cache of another out of the registry because it cannot read the
catalog. -/
theorem revoked_logs_not_served {catalog : Option (List Resource)} {calls : ι → Call}
    {c : Conf ι (World ω ι) (Ask.Ans (ω := ω)) Raised Response}
    (h : Reach (system ω ι site) (Tidy site) (begin site catalog calls) c) : Unrevoked site calls c := by
  have hbegin : Good (discipline ι site) (fun i => Ends site i (calls i).resource) (begin site catalog calls) := by
    refine ⟨Inv.start site catalog, fun i => Obeys.mono (fun o w' ho => ?_) _ (readLogs_yields (calls i))⟩
    rcases o with x | response
    · trivial
    · exact ho response rfl
  have hgood : Good (discipline ι site) (fun i => Ends site i (calls i).resource) c :=
    good_reach (D := discipline ι site) (fun i o => ends_stable site i (calls i).resource o) hbegin h.restrict
  have hI : Inv site c.state := hgood.1
  refine ⟨fun i response hdone => ?_, fun i b es post hpost => ?_, fun i b post hpost => ?_⟩
  · have ho : (discipline ι site).Obeys i (c.pool i) (Ends site i (calls i).resource) c.state := hgood.2 i
    rw [hdone] at ho
    exact Taken.served hI ho
  · exact (hI.log _ post hpost).2.1
  · exact (hI.log _ post hpost).2

/-- The answer of a request that does not fail. -/
def serve (site : Site ω) (page : List ω) (i : ι) (w : World ω ι) : (a : Ask ω) → World ω ι × a.Ans
  | .monotonic | .clock => (w, (0 : Int))
  | .outside _ => (w, .ok ())
  | .reserve => (w, .ok ⟨true, 0, 5, noQueue⟩)
  | .catalog => (w.note w.state [.read i w.catalog], w.catalog)
  | .cache resource items => (w.cache site i resource items 0, (w.state.cache site resource items 0).2)
  | .current cache items => (w.current site i cache items, (w.state.current site cache items).2)
  | .resource cache => (w, (w.state.caches cache).resource)
  | .fields cache => (w, (w.state.caches cache).fields)
  | .set cache f => ({ w with state := w.state.setFields cache f }, ())
  | .acquire cache =>
    if (w.state.caches cache).locked then (w.note w.state [.locked i cache false], false)
    else (w.note (w.state.setLocked cache true) [.locked i cache true], true)
  | .release cache => (w.note (w.state.setLocked cache false) [.released i cache], ())
  | .fetch cache _ _ => (w.note w.state [.fetched i cache page], .ok (page, false))
  | .kept cache window => (w, (w.state.caches cache).entries.filter fun entry => window ≤ entry.timestamp)
  | .publish cache updated clipped serverTime => (w.publish site i cache updated clipped serverTime,
    .ok (w.state.publish site cache updated clipped serverTime).2)
  | .take cache =>
    if (w.state.caches cache).invalidated then (w, none)
    else (w.took i cache, some ((w.state.caches cache).fields, (w.state.caches cache).entries))

omit [DecidableEq ι] in
theorem serve_sem (site : Site ω) (page : List ω) (i : ι) (w : World ω ι) (a : Ask ω) :
    sem site i w a (serve site page i w a).1 (serve site page i w a).2 := by
  cases a with
  | monotonic | clock | outside what | reserve | set cache f | release cache => exact rfl
  | catalog | current | resource | fields | kept => exact ⟨rfl, rfl⟩
  | cache => exact ⟨0, rfl, rfl⟩
  | acquire cache =>
    unfold serve
    cases hlocked : (w.state.caches cache).locked <;> simp [sem, hlocked]
  | fetch => exact .inr ⟨page, false, rfl, rfl⟩
  | publish => exact .inr ⟨rfl, rfl⟩
  | take cache =>
    unfold serve
    cases hinvalidated : (w.state.caches cache).invalidated <;> simp [sem, hinvalidated]

end Log

section Demo

def demoEntry : LogEntry := ⟨"entry", 0, 0, none, none, none, "content"⟩

def demoSite : Site Unit where
  digest _ := "policy"
  normalize _ _ _ _ := some (demoEntry, false)
  size _ := 10
  mentions _ _ := true
  valid _ := true
  enabled := true
  mockMode := false
  bufferEntries := 10
  bufferBytes := 1000
  pageSize := 10
  lookback := 60 * second

def demoResource : Resource := ⟨"orders", "project", "region", "service", true, ["octocat"]⟩

def demoCalls : Fin 3 → Call := fun _ => ⟨demoResource, [demoResource], ⟨10, 60 * second, 0, "", none, none, none⟩⟩

def turns (n : ℕ) (i : Fin 3) : List (Turn (Fin 3) (World Unit (Fin 3)) (Ask.Ans (ω := Unit))) :=
  List.replicate n (.run i (serve demoSite [()] i))

def catalogBecomes (catalog : Option (List Resource)) : Turn (Fin 3) (World Unit (Fin 3)) (Ask.Ans (ω := Unit)) :=
  .move fun w => { w with catalog }

def servedEntries : Code Unit Response → List LogEntry
  | .done response => response.entries
  | _ => []

abbrev DemoConf : Type := Conf (Fin 3) (World Unit (Fin 3)) (Ask.Ans (ω := Unit)) Raised Response

def demoBegin : DemoConf := begin demoSite (some [demoResource]) demoCalls

instance (i : Fin 3) (w : World Unit (Fin 3)) (a : Ask Unit) : Decidable (Tidy demoSite i w a) :=
  match a with
  | .current b none => inferInstanceAs (Decidable (_ = none ∨ _ = some b))
  | .current _ (some _) => isTrue trivial
  | .monotonic | .clock | .catalog | .outside _ | .reserve | .fetch .. | .cache .. | .resource _ | .fields _
  | .set .. | .acquire _ | .release _ | .kept .. | .publish .. | .take _ => isTrue trivial

theorem turns_sound {n : ℕ} {i : Fin 3} {t : Turn (Fin 3) (World Unit (Fin 3)) (Ask.Ans (ω := Unit))}
    (ht : t ∈ turns n i) : t.Sound (system Unit (Fin 3) demoSite) := by
  obtain ⟨-, rfl⟩ := List.mem_replicate.mp ht
  exact fun w a => serve_sem demoSite _ i w a

theorem catalogBecomes_sound (catalog : Option (List Resource)) :
    (catalogBecomes catalog).Sound (system Unit (Fin 3) demoSite) := fun _ => ⟨catalog, rfl⟩

/-- The catalog loses the resource and has it again; two calls read its logs. -/
def returnedRun : DemoConf :=
  demoBegin.play (turns 7 0 ++ catalogBecomes (some []) :: (turns 3 0 ++
    catalogBecomes (some [demoResource]) :: turns 50 1))

theorem revoked_logs_not_served_demo : servedEntries (returnedRun.pool 1) = [demoEntry] ∧
    .dropped 0 ∈ returnedRun.state.log ∧ Unrevoked demoSite demoCalls returnedRun := by
  have hrun : Reach (system Unit (Fin 3) demoSite) (Tidy demoSite) demoBegin returnedRun := by
    refine reach_play (fun t ht => ?_) demoBegin (by decide +kernel)
    simp only [List.mem_append, List.mem_cons] at ht
    rcases ht with ht | rfl | ht | rfl | ht
    · exact turns_sound ht
    · exact catalogBecomes_sound _
    · exact turns_sound ht
    · exact catalogBecomes_sound _
    · exact turns_sound ht
  exact ⟨by decide +kernel, by decide +kernel, revoked_logs_not_served hrun⟩

/-- Call 0 has a cache that was discarded. It cannot read the catalog, and takes the cache of call 1 out of
the registry; when the resource is removed, call 2 no longer finds that cache to discard it. -/
def revokedRun : DemoConf :=
  demoBegin.play (turns 7 0 ++ catalogBecomes (some []) :: (turns 3 0 ++
    catalogBecomes (some [demoResource]) :: (turns 43 1 ++ catalogBecomes none :: (turns 2 0 ++
    catalogBecomes (some [demoResource]) :: (turns 7 2 ++ catalogBecomes (some []) :: (turns 2 2 ++
    turns 4 1))))))

theorem popped_cache_is_served :
    Reach (system Unit (Fin 3) demoSite) (always _ _ _) demoBegin revokedRun ∧
      servedEntries (revokedRun.pool 1) = [demoEntry] ∧
      revokedRun.state.log.take 6 = [.took 1 1 [demoEntry], .checked 2 2 (some []) false, .dropped 0, .dropped 1,
        .dropped 2, .read 2 (some [])] ∧
      ¬Unrevoked demoSite demoCalls revokedRun := by
  have hlog : revokedRun.state.log = .took 1 1 [demoEntry] :: revokedRun.state.log.tail := by decide +kernel
  refine ⟨reach_play (fun t ht => ?_) demoBegin (meets_always _ _), by decide +kernel, by decide +kernel, ?_⟩
  · simp only [List.mem_append, List.mem_cons] at ht
    rcases ht with ht | rfl | ht | rfl | ht | rfl | ht | rfl | ht | rfl | ht | ht
    · exact turns_sound ht
    · exact catalogBecomes_sound _
    · exact turns_sound ht
    · exact catalogBecomes_sound _
    · exact turns_sound ht
    · exact catalogBecomes_sound _
    · exact turns_sound ht
    · exact catalogBecomes_sound _
    · exact turns_sound ht
    · exact catalogBecomes_sound _
    · exact turns_sound ht
    · exact turns_sound ht
  · intro h
    refine h.took 1 1 [demoEntry] revokedRun.state.log.tail ?_ (by decide +kernel)
    exact hlog ▸ List.suffix_refl _

end Demo

end RuntimeLogs
