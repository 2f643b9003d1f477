import EngPlatform.Mcp.World

/-!
# What a request of the provider keeps

An accepted activation brings a hash, and for a code an identity, that no grant had before, so each
step keeps the invariant. The others keep what a call drew and consumed, and activate nothing in
its name.
-/

set_option linter.dupNamespace false

namespace Mcp

open Interleave Discipline

section Steps

variable {ι : Type} {key : String → String} {i : ι} {w w' : World ι}

theorem apply_cases {a : Activation} {now : ℕ} {current : Option Grant} {g : Grant}
    (h : a.apply now current = some g) :
    (∃ c, a.cause = .code c ∧ current = none ∧ g = a.grant none) ∨
      ∃ g₀, a.cause = .refresh g₀.refreshHash g₀.generation ∧ current = some g₀ ∧
        g₀.revokedAt = 0 ∧ g = a.grant (some g₀) := by
  unfold Activation.apply at h
  rcases hc : a.cause with c | ⟨previous, generation⟩ <;> rcases current with _ | g₀ <;>
    simp only [hc, reduceCtorEq, Option.some.injEq] at h
  · exact .inl ⟨c, rfl, rfl, h.symm⟩
  · by_cases hn : g₀.revokedAt ≠ 0 ∨ g₀.generation ≠ generation ∨ g₀.refreshHash ≠ previous ∨
        g₀.expiresAt ≤ now ∨ g₀.clientId ≠ a.clientId
    · rw [if_pos hn] at h
      cases h
    · rw [if_neg hn] at h
      simp only [not_or, not_not] at hn
      obtain ⟨hr, hg, hh, -, -⟩ := hn
      refine .inr ⟨g₀, ?_, rfl, hr, (Option.some.inj h).symm⟩
      rw [hg, hh]

theorem apply_source {a : Activation} {now : ℕ} {current : Option Grant} {g : Grant}
    (h : a.apply now current = some g) : g.source = "mcp" ∧ g.refreshHash = a.refreshHash := by
  rcases apply_cases h with ⟨c, -, -, rfl⟩ | ⟨g₀, -, -, -, rfl⟩ <;> exact ⟨rfl, rfl⟩

@[simp] theorem revoke_source (g : Grant) (now : ℕ) : (g.revoke now).source = g.source := by
  unfold Grant.revoke
  split <;> rfl

@[simp] theorem revoke_refreshHash (g : Grant) (now : ℕ) :
    (g.revoke now).refreshHash = g.refreshHash := by
  unfold Grant.revoke
  split <;> rfl

theorem revoke_revokedAt {g : Grant} {now : ℕ} (hs : g.source = "mcp") (hn : 0 < now) :
    (g.revoke now).revokedAt ≠ 0 := by
  unfold Grant.revoke
  rw [if_pos hs]
  by_cases hr : g.revokedAt = 0
  · simp only [if_pos hr]
    omega
  · simpa only [if_neg hr] using hr

/-- The writer of an activation names it. -/
theorem Inv.entry (hI : Inv key w) {a b : Granted ι} (ha : a ∈ w.granted) (hb : b ∈ w.granted)
    (h : a.writer = b.writer) : a = b :=
  List.inj_on_of_nodup_map hI.writer ha hb h

/-- Two activations with one refresh hash are the same. -/
theorem Inv.hash_entry (hk : Function.Injective key) (hI : Inv key w) {a b : Granted ι}
    (ha : a ∈ w.granted) (hb : b ∈ w.granted) (h : a.refreshHash = b.refreshHash) : a = b :=
  hI.entry ha hb (World.Drew.unique hk (hI.hash a ha) (h ▸ hI.hash b hb))

section Grant

variable {a : Activation} {now : ℕ} {g : Grant}

/-- A hash that `i` drew is none of those that were granted. -/
theorem Allowed.new_hash (hk : Function.Injective key) (hI : Inv key w)
    (hal : Allowed key i w (.activate a)) {b : Granted ι} (hb : b ∈ w.granted) :
    b.refreshHash ≠ a.refreshHash := by
  intro h
  exact hal.1 b hb (World.Drew.unique hk (hI.hash b hb) (h ▸ hal.2.1))

/-- An identity that `i` drew is none of those that were granted. -/
theorem Allowed.new_identity (hk : Function.Injective key) (hI : Inv key w)
    (hal : Allowed key i w (.activate a)) {c : String} (hc : a.cause = .code c) {b : Granted ι}
    (hb : b ∈ w.granted) : b.identity ≠ a.identity := by
  intro h
  obtain ⟨b', hb', hid, c', hc'⟩ := hI.origin b hb
  have hd := (hI.created b' hb' c' hc').2
  rw [hid, h] at hd
  exact hal.1 b' hb' (World.Drew.unique hk hd (hal.2.2 c hc).2)

/-- A refresh hash that was exchanged, or is being, is that of no grant afterwards. -/
theorem grant_hash (hk : Function.Injective key) (hI : Inv key w)
    (hal : Allowed key i w (.activate a)) (ha : a.apply now (w.sessions a.identity) = some g)
    {b : Granted ι} (hb : b ∈ w.granted)
    (hold : ∀ id g', id ≠ a.identity → w.sessions id = some g' → g'.refreshHash ≠ b.refreshHash) :
    ∀ id g', (w.grant i a g).sessions id = some g' → g'.refreshHash ≠ b.refreshHash := by
  intro id g' hg'
  by_cases hid : id = a.identity
  · subst hid
    have hgg : g = g' := by simpa [World.grant, World.withSession] using hg'
    subst hgg
    rw [(apply_source ha).2]
    exact (hal.new_hash hk hI hb).symm
  · refine hold id g' hid ?_
    simpa [World.grant, World.withSession, hid] using hg'

/-- The session of another grant has another hash. -/
theorem Inv.session_hash (hk : Function.Injective key) (hI : Inv key w) {id id' : String}
    {g g' : Grant} (h : w.sessions id = some g) (h' : w.sessions id' = some g') (hne : id' ≠ id) :
    g'.refreshHash ≠ g.refreshHash := by
  intro he
  obtain ⟨-, a, ha, hid, hh⟩ := hI.session id g h
  obtain ⟨-, b, hb, hid', hh'⟩ := hI.session id' g' h'
  obtain rfl := hI.hash_entry hk ha hb (by rw [hh, hh', he])
  exact hne (hid'.symm.trans hid)

theorem Inv.grant (hk : Function.Injective key) (hI : Inv key w)
    (hal : Allowed key i w (.activate a)) (ha : a.apply now (w.sessions a.identity) = some g) :
    Inv key (w.grant i a g) where
  apart := hI.apart
  code := hI.code
  consumer := hI.consumer
  writer := by
    refine List.nodup_cons.2 ⟨fun h => ?_, hI.writer⟩
    obtain ⟨b, hb, hw⟩ := List.mem_map.1 h
    exact hal.1 b hb hw
  hash b hb := by
    rcases List.mem_cons.1 hb with rfl | hb
    exacts [hal.2.1, hI.hash b hb]
  created b hb c hc := by
    rcases List.mem_cons.1 hb with rfl | hb
    exacts [hal.2.2 c hc, hI.created b hb c hc]
  origin b hb := by
    rcases List.mem_cons.1 hb with rfl | hb
    · rcases apply_cases ha with ⟨c, hc, -, -⟩ | ⟨g₀, -, hg₀, -, -⟩
      · exact ⟨_, List.mem_cons_self, rfl, c, hc⟩
      · obtain ⟨-, b, hb, hid, -⟩ := hI.session _ _ hg₀
        obtain ⟨b', hb', hid', hc⟩ := hI.origin b hb
        exact ⟨b', List.mem_cons_of_mem _ hb', hid'.trans hid, hc⟩
    · obtain ⟨b', hb', h⟩ := hI.origin b hb
      exact ⟨b', List.mem_cons_of_mem _ hb', h⟩
  session id g' hg' := by
    by_cases hid : id = a.identity
    · subst hid
      have hgg : g = g' := by simpa [World.grant, World.withSession] using hg'
      subst hgg
      obtain ⟨hs, hh⟩ := apply_source ha
      exact ⟨hs, _, List.mem_cons_self, rfl, hh.symm⟩
    · obtain ⟨hs, b, hb, h⟩ := hI.session id g'
        (by simpa [World.grant, World.withSession, hid] using hg')
      exact ⟨hs, b, List.mem_cons_of_mem _ hb, h⟩
  exchanged b hb h n hc := by
    -- the session that a refresh changes still has the hash that is exchanged
    have hcur : ∀ h n, a.cause = .refresh h n → ∃ g₀, w.sessions a.identity = some g₀ ∧
        g₀.refreshHash = h := by
      intro h n hc
      rcases apply_cases ha with ⟨c, hc', -, -⟩ | ⟨g₀, hc', hg₀, -, -⟩
      · rw [hc'] at hc
        cases hc
      · rw [hc'] at hc
        cases hc
        exact ⟨g₀, hg₀, rfl⟩
    rcases List.mem_cons.1 hb with rfl | hb
    · obtain ⟨g₀, hg₀, rfl⟩ := hcur h n hc
      obtain ⟨-, b, hb, -, hh⟩ := hI.session _ _ hg₀
      refine ⟨⟨b, List.mem_cons_of_mem _ hb, hh⟩, ?_, fun b' hb' m hm => ?_⟩
      · rw [← hh]
        refine grant_hash hk hI hal ha hb fun id g' hid hg' => ?_
        rw [hh]
        exact hI.session_hash hk hg₀ hg' hid
      · rcases List.mem_cons.1 hb' with rfl | hb'
        · rfl
        · exact absurd rfl ((hI.exchanged b' hb' _ m hm).2.1 _ _ hg₀)
    · obtain ⟨⟨b', hb', rfl⟩, hs, hu⟩ := hI.exchanged b hb h n hc
      refine ⟨⟨b', List.mem_cons_of_mem _ hb', rfl⟩,
        grant_hash hk hI hal ha hb' fun id g' _ hg' => hs id g' hg', fun d hd m hm => ?_⟩
      rcases List.mem_cons.1 hd with rfl | hd
      · obtain ⟨g₀, hg₀, hh⟩ := hcur _ m hm
        exact absurd hh (hs _ _ hg₀)
      · exact hu d hd m hm
  revoked id hr := by
    obtain ⟨hg, hs⟩ := hI.revoked id hr
    obtain ⟨b, hb, hid⟩ := isGrant_iff.1 hg
    refine ⟨isGrant_iff.2 ⟨b, List.mem_cons_of_mem _ hb, hid⟩, fun g' hg' => ?_⟩
    by_cases hne : id = a.identity
    · rcases apply_cases ha with ⟨c, hc, -, -⟩ | ⟨g₀, -, hg₀, h0, -⟩
      · exact absurd (hid.trans hne) (hal.new_identity hk hI hc hb)
      · exact absurd h0 (hs g₀ (hne ▸ hg₀))
    · exact hs g' (by simpa [World.grant, World.withSession, hne] using hg')

end Grant

theorem Inv.consume {k : String} {c : Code} (hI : Inv key w) (hc : w.codes k = some c) :
    Inv key (w.consume i k) where
  apart := hI.apart
  code k' hk' := by
    by_cases h : k' = k
    · subst h
      simp [World.consume] at hk'
    · simp only [World.consume, Function.update_of_ne h] at hk' ⊢
      exact hI.code k' hk'
  consumer k' hk' := by
    by_cases h : k' = k
    · subst h
      exact (hI.code k' (by rw [hc]; nofun)).2
    · simp only [World.consume, Function.update_of_ne h] at hk'
      exact hI.consumer k' hk'
  writer := hI.writer
  hash := hI.hash
  created a ha c' hc' := by
    obtain ⟨h, hd⟩ := hI.created a ha c' hc'
    refine ⟨?_, hd⟩
    have hne : c' ≠ k := by
      rintro rfl
      rw [(hI.code c' (by rw [hc]; nofun)).1] at h
      cases h
    simpa only [World.consume, Function.update_of_ne hne] using h
  origin := hI.origin
  session := hI.session
  exchanged := hI.exchanged
  revoked := hI.revoked

/-- The sessions lose a document, or a document that keeps its source, its refresh hash and its
revocation. -/
theorem Inv.sessions (hI : Inv key w) {id : String} {o : Option Grant} {revoked : String → Bool}
    (ho : ∀ g, o = some g → ∃ g₀, w.sessions id = some g₀ ∧ g.source = g₀.source ∧
      g.refreshHash = g₀.refreshHash ∧ (w.revoked id = true → g₀.revokedAt ≠ 0 → g.revokedAt ≠ 0))
    (hr : ∀ id', revoked id' = true → w.revoked id' = true ∨ id' = id ∧ w.isGrant id = true ∧
      ∀ g, o = some g → g.revokedAt ≠ 0) :
    Inv key { w.withSession id o with revoked } where
  apart := hI.apart
  code := hI.code
  consumer := hI.consumer
  writer := hI.writer
  hash := hI.hash
  created := hI.created
  origin := hI.origin
  session id' g hg := by
    by_cases h : id' = id
    · subst h
      obtain ⟨g₀, hg₀, hs, hh, -⟩ := ho g (by simpa [World.withSession] using hg)
      rw [hs, hh]
      exact hI.session id' g₀ hg₀
    · exact hI.session id' g (by simpa [World.withSession, h] using hg)
  exchanged a ha h n hc := by
    obtain ⟨hb, hs, hu⟩ := hI.exchanged a ha h n hc
    refine ⟨hb, fun id' g hg => ?_, hu⟩
    by_cases hid : id' = id
    · subst hid
      obtain ⟨g₀, hg₀, -, hh, -⟩ := ho g (by simpa [World.withSession] using hg)
      rw [hh]
      exact hs id' g₀ hg₀
    · exact hs id' g (by simpa [World.withSession, hid] using hg)
  revoked id' hr' := by
    rcases hr id' hr' with hold | ⟨rfl, hg, hn⟩
    · obtain ⟨hg, hs⟩ := hI.revoked id' hold
      refine ⟨hg, fun g hgg => ?_⟩
      by_cases hid : id' = id
      · subst hid
        obtain ⟨g₀, hg₀, -, -, hk⟩ := ho g (by simpa [World.withSession] using hgg)
        exact hk hold (hs g₀ hg₀)
      · exact hs g (by simpa [World.withSession, hid] using hgg)
    · exact ⟨hg, fun g hgg => hn g (by simpa [World.withSession] using hgg)⟩

theorem Inv.revoke {id : String} {now : ℕ} (hI : Inv key w) (hn : 0 < now) :
    Inv key (w.revoke id now) := by
  refine hI.sessions (fun g hg => ?_) fun id' hr => ?_
  · obtain ⟨g₀, hg₀, rfl⟩ := Option.map_eq_some_iff.1 hg
    exact ⟨g₀, hg₀, by simp, by simp, fun _ _ => revoke_revokedAt (hI.session id g₀ hg₀).1 hn⟩
  · by_cases hid : id' = id
    · subst hid
      rw [Function.update_self, Bool.or_eq_true] at hr
      refine hr.imp_right fun hg => ⟨rfl, hg, fun g hgg => ?_⟩
      obtain ⟨g₀, hg₀, rfl⟩ := Option.map_eq_some_iff.1 hgg
      exact revoke_revokedAt (hI.session id' g₀ hg₀).1 hn
    · rw [Function.update_of_ne hid] at hr
      exact .inl hr

/-- What a request does. -/
theorem sem_cases {c : Call} {r : c.Ans} (h : sem i w c w' r) :
    (∃ a now g, c = .activate a ∧ a.apply now (w.sessions a.identity) = some g ∧
        w' = w.grant i a g) ∨
      (∃ k x, c = .consume k ∧ w.codes k = some x ∧ w' = w.consume i k) ∨
      (∃ id now, c = .revoke id ∧ 0 < now ∧ w' = w.revoke id now) ∨
      (∃ o, w.fresh o ∧ w' = { w with owner := Function.update w.owner o (some i) }) ∨
      Quiet w w' ∧ w'.owner = w.owner := by
  have hq : w' = w → Quiet w w' ∧ w'.owner = w.owner := by
    rintro rfl
    exact ⟨.refl _, rfl⟩
  cases c with
  | opaqueId =>
    rcases h with ⟨hw, -⟩ | ⟨o, -, hf, hw⟩
    exacts [.inr (.inr (.inr (.inr (hq hw)))), .inr (.inr (.inr (.inl ⟨o, hf, hw⟩)))]
  | time | get | session => exact .inr (.inr (.inr (.inr (hq h.1))))
  | save kind key x =>
    rcases h with ⟨hw, -⟩ | ⟨rfl, -⟩
    exacts [.inr (.inr (.inr (.inr (hq hw)))),
      .inr (.inr (.inr (.inr ⟨⟨rfl, rfl, rfl, rfl, rfl, rfl⟩, rfl⟩)))]
  | delete kind key =>
    rcases h with ⟨hw, -⟩ | ⟨rfl, -⟩
    exacts [.inr (.inr (.inr (.inr (hq hw)))),
      .inr (.inr (.inr (.inr ⟨⟨rfl, rfl, rfl, rfl, rfl, rfl⟩, rfl⟩)))]
  | consume k =>
    rcases h with ⟨hw, -⟩ | ⟨x, hx, hw, -⟩
    exacts [.inr (.inr (.inr (.inr (hq hw)))), .inr (.inl ⟨k, x, rfl, hx, hw⟩)]
  | activate a =>
    rcases h with ⟨hw, -⟩ | ⟨now, g, -, ha, hw, -⟩
    exacts [.inr (.inr (.inr (.inr (hq hw)))), .inl ⟨a, now, g, rfl, ha, hw⟩]
  | revoke id =>
    rcases h with ⟨hw, -⟩ | ⟨now, hn, hw, -⟩
    exacts [.inr (.inr (.inr (.inr (hq hw)))), .inr (.inr (.inl ⟨id, now, rfl, hn, hw⟩))]
  | purgeSession | saveAudit => exact .inr (.inr (.inr (.inr (hq h))))

theorem inv_sem (hk : Function.Injective key) (hI : Inv key w) {c : Call} {r : c.Ans}
    (hal : Allowed key i w c) (h : sem i w c w' r) : Inv key w' := by
  rcases sem_cases h with ⟨a, now, g, rfl, ha, rfl⟩ | ⟨k, x, rfl, hx, rfl⟩ |
    ⟨id, now, rfl, hn, rfl⟩ | ⟨o, hf, rfl⟩ | ⟨hq, ho⟩
  · exact hI.grant hk hal ha
  · exact hI.consume hx
  · exact hI.revoke hn
  · refine hI.quiet ⟨rfl, rfl, rfl, rfl, rfl, rfl⟩ (fun o' j hj => ?_) fun o' ho' => ?_
    · have hne : o' ≠ o := by
        rintro rfl
        rw [hf.1] at hj
        cases hj
      simpa [Function.update_of_ne hne] using hj
    · by_cases hne : o' = o
      · exact hne ▸ hf.2
      · exact hI.apart o' (by simpa [Function.update_of_ne hne] using ho')
  · refine hI.quiet hq (fun o j hj => ?_) fun o hne => ?_
    · rwa [ho]
    · exact hI.apart o (by rwa [ho] at hne)

/-- Every request keeps what was drawn, what was granted and what was revoked. -/
theorem sem_keeps {c : Call} {r : c.Ans} (h : sem i w c w' r) :
    (∀ o j, w.owner o = some j → w'.owner o = some j) ∧ w.granted ⊆ w'.granted ∧
      ∀ id, w.revoked id = true → w'.revoked id = true := by
  rcases sem_cases h with ⟨a, now, g, rfl, ha, rfl⟩ | ⟨k, x, rfl, hx, rfl⟩ |
    ⟨id, now, rfl, hn, rfl⟩ | ⟨o, hf, rfl⟩ | ⟨hq, ho⟩
  · exact ⟨fun _ _ h => h, fun _ h => List.mem_cons_of_mem _ h, fun _ h => h⟩
  · exact ⟨fun _ _ h => h, fun _ h => h, fun _ h => h⟩
  · refine ⟨fun _ _ h => h, fun _ h => h, fun id' hr => ?_⟩
    by_cases hid : id' = id
    · subst hid
      simp [World.revoke, hr]
    · simpa [World.revoke, Function.update_of_ne hid] using hr
  · refine ⟨fun o' j hj => ?_, fun _ h => h, fun _ h => h⟩
    have hne : o' ≠ o := by
      rintro rfl
      rw [hf.1] at hj
      cases hj
    simpa [Function.update_of_ne hne] using hj
  · rw [ho, hq.granted, hq.revoked]
    exact ⟨fun _ _ h => h, fun _ h => h, fun _ h => h⟩

/-- A code that was consumed stays so. -/
theorem sem_consumer (hI : Inv key w) {c : Call} {r : c.Ans} (h : sem i w c w' r) {k : String}
    {j : ι} (hj : w.consumer k = some j) : w'.consumer k = some j := by
  rcases sem_cases h with ⟨a, now, g, rfl, ha, rfl⟩ | ⟨k', x, rfl, hx, rfl⟩ |
    ⟨id, now, rfl, hn, rfl⟩ | ⟨o, hf, rfl⟩ | ⟨hq, ho⟩
  · exact hj
  · have hne : k ≠ k' := by
      rintro rfl
      rw [(hI.code k (by rw [hx]; nofun)).1] at hj
      cases hj
    simpa [World.consume, Function.update_of_ne hne] using hj
  · exact hj
  · exact hj
  · rwa [hq.consumer]

theorem sem_unspent {c : Call} {r : c.Ans} {j : ι} (h : sem i w c w' r)
    (hj : i ≠ j ∨ ∀ a, c ≠ .activate a) (hu : Unspent j w) : Unspent j w' := by
  rcases sem_cases h with ⟨a, now, g, rfl, ha, rfl⟩ | ⟨k', x, rfl, hx, rfl⟩ |
    ⟨id, now, rfl, hn, rfl⟩ | ⟨o, hf, rfl⟩ | ⟨hq, ho⟩
  · intro b hb
    rcases List.mem_cons.1 hb with rfl | hb
    · exact hj.resolve_right fun hn => hn a rfl
    · exact hu b hb
  · exact hu
  · exact hu
  · exact hu
  · exact hq.unspent hu

theorem rely_sem (hI : Inv key w) {c : Call} {r : c.Ans} {j : ι} (hij : i ≠ j)
    (h : sem i w c w' r) : Rely j w w' where
  owner o ho := (sem_keeps h).1 o j ho
  consumer _ hk := sem_consumer hI h hk
  unspent := sem_unspent h (.inl hij)
  granted := (sem_keeps h).2.1
  revoked := (sem_keeps h).2.2

theorem inv_moves (hk : Function.Injective key) (hI : Inv key w) (h : Moves key w w') :
    Inv key w' := by
  cases h with
  | consent o c hf =>
    refine { hI with apart := ?_, code := ?_, consumer := ?_ }
    · intro o' ho'
      have hne : o' ≠ o := by
        rintro rfl
        exact ho' hf.1
      simpa [Function.update_of_ne hne] using hI.apart o' ho'
    · intro k hk'
      by_cases hko : k = key o
      · subst hko
        refine ⟨?_, o, rfl, by simp⟩
        by_contra hc
        obtain ⟨o', ho', hx⟩ := hI.consumer _ hc
        obtain rfl := hk ho'
        rw [hf.2] at hx
        cases hx
      · obtain ⟨hn, o', ho', hx⟩ := hI.code k (by simpa [Function.update_of_ne hko] using hk')
        refine ⟨hn, o', ho', ?_⟩
        simp [Function.update_apply, hx]
    · intro k hk'
      obtain ⟨o', ho', hx⟩ := hI.consumer k hk'
      refine ⟨o', ho', ?_⟩
      simp [Function.update_apply, hx]
  | forgetCode k =>
    refine { hI with code := fun k' hk' => ?_ }
    by_cases hkk : k' = k
    · subst hkk
      simp at hk'
    · exact hI.code k' (by simpa [Function.update_of_ne hkk] using hk')
  | forgetToken kind k =>
    exact hI.quiet ⟨rfl, rfl, rfl, rfl, rfl, rfl⟩ (fun _ _ h => h) hI.apart
  | forgetSession id => exact hI.sessions nofun fun _ h => .inl h
  | workspaces id g workspaceIds hg =>
    refine hI.sessions (fun g' hg' => ?_) fun _ h => .inl h
    cases hg'
    exact ⟨g, hg, rfl, rfl, fun _ h => h⟩

theorem rely_moves (h : Moves key w w') : Rely i w w' := by
  cases h <;> exact ⟨fun _ h => h, fun _ h => h, fun h => h, fun _ h => h, fun _ h => h⟩

/-- The contract of the provider's calls. -/
def contract (ι : Type) (hk : Function.Injective key) : Discipline ι (World ι) Call.Ans where
  toSystem := system ι key
  Inv := Inv key
  Allowed := Allowed key
  Rely := Rely
  rely_refl := Rely.refl
  rely_trans _ _ _ _ := Rely.trans
  inv_sem _ _ _ _ _ hI hal h := inv_sem hk hI hal h
  rely_sem _ _ _ _ _ _ hij hI _ h := rely_sem hI hij h
  inv_env _ _ hI h := inv_moves hk hI h
  rely_env _ _ _ _ h := rely_moves h

end Steps

end Mcp
