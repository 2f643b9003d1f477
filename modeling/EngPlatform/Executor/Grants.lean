import EngPlatform.Executor.Facts
import Mathlib.Data.Set.Insert

/-!
# No traffic without authorization

In every state that a run of `deploy_runtime`, `promote_candidate` or `rollback_runtime` visits,
every runtime that receives traffic has an authorized commit, whichever of its commands fail. A
deployment that ends with an exception after its recovery leaves its commit unauthorized.
-/

set_option linter.dupNamespace false

namespace Executor

open Interleave

/-- Every runtime that receives traffic has an authorized commit. -/
def World.Authorized (w : World) : Prop :=
  ∀ row ∈ w.serving, ∀ r, w.revisions row.1 = some r → r.scope = some runtimeScope →
    ∃ sha ∈ w.authorized, r.sha = some sha

/-- The commit of a revision, which is empty where its variable is missing. -/
def Revision.commit (r : Revision) : String := r.sha.getD ""

/-- A revision that receives traffic has the commit. -/
def World.ServesCommit (w : World) (sha : String) : Prop :=
  ∃ row ∈ w.serving, ∃ r, w.revisions row.1 = some r ∧ r.commit = sha

/-- An exception that no step of a recovery raised. -/
def Raised.Recovered (x : Raised) : Prop := x.context = none ∨ x.error.isRollback = true

variable {e : Env} {may : Command → Prop} {w w' w₀ w₁ : World} {α : Type}

theorem World.Authorized.apart (h : w.Authorized) (ha : Apart w w') : w'.Authorized := by
  intro row hrow r hr hs
  rw [ha.serving] at hrow
  obtain ⟨r', hr'⟩ := Option.isSome_iff_exists.1 (w.exist row (List.mem_filter.1 hrow).1)
  have hr'' := ha.revisions row.1 r' hr'
  rw [hr] at hr''
  cases hr''
  obtain ⟨sha, hsha, hrs⟩ := h row hrow r hr' hs
  exact ⟨sha, by rwa [ha.authorized], hrs⟩

theorem World.ServesCommit.apart {sha : String} (h : w'.ServesCommit sha) (ha : Apart w w') :
    w.ServesCommit sha := by
  obtain ⟨row, hrow, r, hr, hs⟩ := h
  rw [ha.serving] at hrow
  obtain ⟨r', hr'⟩ := Option.isSome_iff_exists.1 (w.exist row (List.mem_filter.1 hrow).1)
  have hr'' := ha.revisions row.1 r' hr'
  rw [hr] at hr''
  cases hr''
  exact ⟨row, hrow, r, hr', hs⟩

section Held

/-- The traffic map is one of `T`, and the commits of `S` are authorized. -/
structure Held (w₁ : World) (T : Set Traffic) (S : Set String) (w : World) : Prop where
  revisions : w.revisions = w₁.revisions
  serving : w.serving ∈ T
  authorized : ∀ sha ∈ S, sha ∈ w.authorized

/-- The commits of `S` are enough for the traffic maps of `T`. -/
def World.Covers (w₁ : World) (T : Set Traffic) (S : Set String) : Prop :=
  ∀ t ∈ T, ∀ row ∈ t, ∀ r, w₁.revisions row.1 = some r → r.scope = some runtimeScope →
    ∃ sha ∈ S, r.sha = some sha

variable {T T' : Set Traffic} {S S' : Set String} {sha : String}

namespace Held

theorem authorizes (h : Held w₁ T S w) (hc : w₁.Covers T S) : w.Authorized := by
  intro row hrow r hr hs
  rw [h.revisions] at hr
  obtain ⟨sha, hsha, hrs⟩ := hc _ h.serving row hrow r hr hs
  exact ⟨sha, h.authorized sha hsha, hrs⟩

theorem weaken (h : Held w₁ T S w) (hT : T ⊆ T') (hS : S' ⊆ S) : Held w₁ T' S' w :=
  ⟨h.revisions, hT h.serving, fun sha hsha => h.authorized sha (hS hsha)⟩

theorem same (h : Held w₁ T S w) (hs : Same w w') : Held w₁ T S w' := by
  refine ⟨hs.revisions.trans h.revisions, ?_, fun sha hsha => ?_⟩
  · rw [hs.apart.serving]
    exact h.serving
  · rw [hs.authorized]
    exact h.authorized sha hsha

theorem authorize {r : (Command.grant .authorize sha).Reply} (h : Held w₁ T S w)
    (ht : Takes e may w (.grant .authorize sha) w' r) : Held w₁ T S w' := by
  obtain ⟨htr, hr, ha⟩ := ht.authorize
  refine ⟨hr.trans h.revisions, ?_, fun s hs => ha s (h.authorized s hs)⟩
  unfold World.serving
  rw [htr]
  exact h.serving

theorem authorized_ok (h : Held w₁ T S w)
    (ht : Takes e may w (.grant .authorize sha) w' (.ok ())) : Held w₁ T (insert sha S) w' := by
  obtain ⟨hr, hs, ha⟩ := h.authorize ht
  refine ⟨hr, hs, ?_⟩
  rintro s (rfl | hs)
  · exact ht.authorized
  · exact ha s hs

theorem withdraw {a : Action} (ha : a ≠ .authorize) {r : (Command.grant a sha).Reply}
    (h : Held w₁ T S w) (hS : sha ∉ S) (ht : Takes e may w (.grant a sha) w' r) :
    Held w₁ T S w' := by
  obtain ⟨htr, hr, hk⟩ := ht.withdraw ha
  refine ⟨hr.trans h.revisions, ?_, fun s hs => hk s (h.authorized s hs) ?_⟩
  · unfold World.serving
    rw [htr]
    exact h.serving
  · rintro rfl
    exact hS hs

theorem move {t : Traffic} {r : (Command.setTraffic t).Reply} (h : Held w₁ T S w)
    (ht : t.filter (0 < ·.2) ∈ T) (hs : Takes e may w (.setTraffic t) w' r) :
    Held w₁ T S w' := by
  obtain ⟨htr, hr, ha⟩ := hs.move
  refine ⟨hr.trans h.revisions, ?_, fun s hs => by rw [ha]; exact h.authorized s hs⟩
  unfold World.serving
  rcases htr with htr | htr <;> rw [htr]
  · exact h.serving
  · exact ht

theorem moved {t : Traffic} (h : Held w₁ T S w)
    (hs : Takes e may w (.setTraffic t) w' (.ok ())) :
    Held w₁ {t.filter (0 < ·.2)} S w' := by
  obtain ⟨-, hr, ha⟩ := hs.move
  refine ⟨hr.trans h.revisions, ?_, fun s hs => by rw [ha]; exact h.authorized s hs⟩
  unfold World.serving
  rw [hs.moved]
  rfl

end Held

end Held

section Recovery

variable {T : Set Traffic} {S : Set String} {sha candidate : String}

/-- The authorized commits of the runtimes that receive traffic. -/
def World.runtimes (w : World) : Set String :=
  {sha | ∃ row ∈ w.serving, ∃ r, w.revisions row.1 = some r ∧ r.scope = some runtimeScope ∧
    r.sha = some sha}

/-- The traffic as it was, or all of it on the candidate. -/
def either (w₁ : World) (candidate : String) : Set Traffic := {w₁.serving, [(candidate, 100)]}

theorem covers_serving (h : w₁.Authorized) : w₁.Covers {w₁.serving} w₁.runtimes := by
  rintro t rfl row hrow r hr hs
  obtain ⟨sha, -, hrs⟩ := h row hrow r hr hs
  exact ⟨sha, ⟨row, hrow, r, hr, hs, hrs⟩, hrs⟩

theorem covers_candidate {S : Set String} (hS : sha ∈ S)
    (hc : ∀ r, w₁.revisions candidate = some r → r.scope = some runtimeScope → r.sha = some sha) :
    w₁.Covers {[(candidate, 100)]} S := by
  rintro t rfl row hrow r hr hs
  rw [List.mem_singleton] at hrow
  subst hrow
  exact ⟨sha, hS, hc r hr hs⟩

theorem covers_either (h : w₁.Authorized)
    (hc : ∀ r, w₁.revisions candidate = some r → r.scope = some runtimeScope → r.sha = some sha) :
    w₁.Covers (either w₁ candidate) (insert sha w₁.runtimes) := by
  rintro t (rfl | rfl) row hrow r hr hs
  · obtain ⟨sha', hsha', hrs⟩ := covers_serving h _ rfl row hrow r hr hs
    exact ⟨sha', .inr hsha', hrs⟩
  · exact covers_candidate (.inl rfl) hc _ rfl row hrow r hr hs

theorem held_start (h : w₁.Authorized) : Held w₁ {w₁.serving} w₁.runtimes w₁ := by
  refine ⟨rfl, rfl, ?_⟩
  rintro sha ⟨row, hrow, r, hr, hs, hrs⟩
  obtain ⟨sha', hsha', hrs'⟩ := h row hrow r hr hs
  rw [hrs] at hrs'
  cases hrs'
  exact hsha'

/-- Parts that are kept by what they ask. -/
def Keeping (S : Set String) : Command → Prop
  | .setTraffic _ | .updateService _ _ | .tagRevision _ _ => False
  | .grant a sha => a = .authorize ∨ sha ∉ S
  | _ => True

theorem Held.keeping {c : Command} {r : c.Reply} (h : Held w₁ T S w) (hc : Keeping S c)
    (ht : Takes e may w c w' r) : Held w₁ T S w' := by
  by_cases hi : c.Idle
  · exact h.same (ht.same hi)
  · cases c with
    | grant a sha =>
      by_cases ha : a = .authorize
      · subst ha
        exact h.authorize ht
      · exact h.withdraw ha (hc.resolve_left ha) ht
    | setTraffic t => exact hc.elim
    | updateService image suffix => exact hc.elim
    | tagRevision tag revision => exact hc.elim
    | _ => exact absurd trivial hi

theorem Command.Idle.keeping {c : Command} (h : c.Idle) : Keeping S c := by
  cases c <;> trivial

/-- A part that neither moves traffic nor withdraws one of the commits. -/
theorem held_always {p : Exec α} (hp : p.Asks (Keeping S)) (hc : w₁.Covers T S)
    (h : Held w₁ T S w) :
    Always (Takes e may) World.Authorized (fun _ w' => Held w₁ T S w') p w :=
  (kept_always hp (fun _ _ _ _ hc h ht => h.keeping hc ht) h).mono
    (fun _ h => h.authorizes hc) fun _ _ h _ => h

theorem runtimeGrant_asks {a : Action} (h : a = .authorize ∨ sha ∉ S) :
    (runtimeGrant a sha).Asks (Keeping S) := .ite (fun _ => exec_asks h) fun _ => refuse_asks _

/-- After a part that only authorizes: the commits of `G` are authorized if it returns. -/
structure Grows (w₁ : World) (T : Set Traffic) (S : Set String) (G : String → Prop) (w : World)
    (o : Except Raised Unit) (w' : World) : Prop where
  held : Held w₁ T S w'
  grows : ∀ s ∈ w.authorized, s ∈ w'.authorized
  authorized : o = .ok () → ∀ s, G s → s ∈ w'.authorized
  error : ∀ x, o = .error x → x.error.isRollback = false

theorem Grows.raise {G : String → Prop} {x : Raised} (h : Held w₁ T S w)
    (hx : x.error.isRollback = false) : Grows w₁ T S G w (.error x) w := by
  refine ⟨h, fun _ hs => hs, by rintro ⟨⟩, ?_⟩
  rintro _ ⟨⟩
  exact hx

theorem Grows.pure {G : String → Prop} (h : Held w₁ T S w) (hG : ∀ s, ¬G s) :
    Grows w₁ T S G w (.ok ()) w :=
  ⟨h, fun _ hs => hs, fun _ s hs => absurd hs (hG s), by rintro _ ⟨⟩⟩

theorem authorize_always (hc : w₁.Covers T S) (h : Held w₁ T S w) :
    Always (Takes e may) World.Authorized (Grows w₁ T S (fun s => s = sha) w)
      (runtimeGrant .authorize sha) w := by
  have hw := h.authorizes hc
  refine Always.ite (fun _ => exec_always hw (fun _ w' ht => ?_) fun x w' ht => ?_)
    fun _ => .raise hw (.raise h rfl)
  · refine ⟨(h.authorize ht).authorizes hc, h.authorize ht, ht.authorize.2.2, ?_, by rintro _ ⟨⟩⟩
    rintro - s rfl
    exact ht.authorized
  · refine ⟨(h.authorize ht).authorizes hc, h.authorize ht, ht.authorize.2.2, by rintro ⟨⟩, ?_⟩
    rintro _ ⟨⟩
    exact ht.not_rollback

theorem each_authorizes {f : α → Exec Unit} {G : α → String → Prop} (hc : w₁.Covers T S)
    (hf : ∀ a w, Held w₁ T S w →
      Always (Takes e may) World.Authorized (Grows w₁ T S (G a) w) (f a) w) :
    ∀ (l : List α) (w : World), Held w₁ T S w → Always (Takes e may) World.Authorized
      (Grows w₁ T S (fun s => ∃ a ∈ l, G a s) w) (each l f) w
  | [], w, h => .pure (h.authorizes hc) (.pure h (by simp))
  | a :: l, w, h => by
    refine Always.seq (hf a w h) (fun _ h => h) (fun _ w₂ _ h₂ => ?_) fun x w₂ _ h₂ => ?_
    · refine (each_authorizes hc hf l w₂ h₂.held).mono (fun _ h => h) fun o w₃ _ h₃ => ?_
      refine ⟨h₃.held, fun s hs => h₃.grows s (h₂.grows s hs), ?_, h₃.error⟩
      rintro ho s ⟨b, hb, hs⟩
      rcases List.mem_cons.1 hb with rfl | hb
      · exact h₃.grows s (h₂.authorized rfl s hs)
      · exact h₃.authorized ho s ⟨b, hb, hs⟩
    · exact ⟨h₂.held, h₂.grows, by rintro ⟨⟩, fun y hy => by cases hy; exact h₂.error x rfl⟩

theorem authorizeConfigs_always (hc : w₁.Covers T S) (configs : List Revision)
    (h : Held w₁ T S w) : Always (Takes e may) World.Authorized
      (Grows w₁ T S (fun s => ∃ r ∈ configs, isRuntime r = true ∧ r.sha = some s) w)
      (authorizeConfigs configs) w := by
  refine each_authorizes (G := fun r s => isRuntime r = true ∧ r.sha = some s) hc ?_ configs w h
  intro r w h
  refine Always.ite (fun hr => ?_) fun hr => .pure (h.authorizes hc) (.pure h fun s hs => hr hs.1)
  rcases hsha : r.sha with _ | sha
  · exact .raise (h.authorizes hc) (.raise h rfl)
  · refine (authorize_always hc h).mono (fun _ h => h) fun o w' _ hg => ⟨hg.held, hg.grows, ?_,
      hg.error⟩
    rintro ho s ⟨-, hs⟩
    cases hs
    exact hg.authorized ho sha rfl

theorem authorizeStaged_always (hc : w₁.Covers T S) (c : Continuation) (h : Held w₁ T S w) :
    Always (Takes e may) World.Authorized
      (Grows w₁ T S (fun s => ∃ row ∈ c.previousRuntime,
        (independentRuntime e && row.2.scope = runtimeScope) = true ∧ row.2.sha = s) w)
      (authorizeStaged e c) w := by
  refine each_authorizes (G := fun (row : String × RuntimeRow) s =>
    (independentRuntime e && row.2.scope = runtimeScope) = true ∧ row.2.sha = s) hc ?_ _ w h
  intro row w h
  refine Always.ite (fun hr => ?_) fun hr => .pure (h.authorizes hc) (.pure h fun s hs => hr hs.1)
  refine (authorize_always hc h).mono (fun _ h => h) fun o w' _ hg => ⟨hg.held, hg.grows, ?_,
    hg.error⟩
  rintro ho s ⟨-, rfl⟩
  exact hg.authorized ho _ rfl

/-- What a recovery leaves: a release that did not serve before is not authorized. -/
structure Revoked (e : Env) (shas : List String) (o : Except Raised Unit) (w : World) : Prop where
  revoked : o = .ok () → e.releaseSha ∈ w.authorized → e.releaseSha ∈ shas
  error : ∀ x, o = .error x → x.error.isRollback = false

/-- The end of a recovery, when the traffic is as it was. -/
theorem revoke_always (hw₁ : w₁.Authorized) {shas : List String} (promoted : Bool)
    (hshas : e.releaseSha ∉ shas → e.releaseSha ∉ w₁.runtimes)
    (h : Held w₁ {w₁.serving} w₁.runtimes w) :
    Always (Takes e may) World.Authorized (Revoked e shas) (do
      if true ∧ e.releaseSha ∉ shas then runtimeGrant .revoke e.releaseSha else pure ()
      if promoted then emit "rollback" "succeeded" else pure ()) w := by
  have hc := covers_serving hw₁
  have hrest : ∀ w, Held w₁ {w₁.serving} w₁.runtimes w →
      (e.releaseSha ∈ w.authorized → e.releaseSha ∈ shas) →
      Always (Takes e may) World.Authorized (Revoked e shas)
        (if promoted then emit "rollback" "succeeded" else pure ()) w := by
    intro w h hr
    refine Always.ite (fun _ => ?_) fun _ => .pure (h.authorizes hc) ⟨fun _ => hr, by rintro _ ⟨⟩⟩
    refine ⟨h.authorizes hc, fun w' r hs => ?_⟩
    have hc' : (Command.emit "rollback" "succeeded").Idle := trivial
    have hsame : Same w w' := hs.same hc'
    refine ⟨(h.same hsame).authorizes hc, fun _ hm => hr ?_, by rintro _ ⟨⟩⟩
    rwa [hsame.authorized] at hm
  refine Always.ite (fun hne => Always.bind ?_) fun hin => hrest w h fun _ => by simpa using hin
  · have hn := hshas hne.2
    have ha : Action.revoke ≠ .authorize := nofun
    refine Always.ite (fun _ => exec_always (h.authorizes hc) (fun _ w' ht => ?_) fun x w' ht => ?_)
      fun _ => .raise (h.authorizes hc) ⟨by rintro ⟨⟩, ?_⟩
    · have h' := h.withdraw ha hn ht
      exact ⟨h'.authorizes hc, hrest w' h' fun hm => absurd hm (ht.withdrawn ha)⟩
    · refine ⟨(h.withdraw ha hn ht).authorizes hc, by rintro ⟨⟩, ?_⟩
      rintro _ ⟨⟩
      exact ht.not_rollback
    · rintro _ ⟨⟩
      rfl

theorem positive_serving (w : World) : w.serving.filter (0 < ·.2) = w.serving := by
  unfold World.serving
  rw [List.filter_filter]
  simp

/-- The recovery of a promotion: it authorizes, moves the traffic back, and revokes. -/
theorem restoreGranted_promoted (hw₁ : w₁.Authorized) {candidate message : String}
    {shas : List String} {authorize : Exec Unit}
    (hcand : ∀ r, w₁.revisions candidate = some r → r.scope = some runtimeScope →
      r.sha = some e.releaseSha)
    (hshas : e.releaseSha ∉ shas → e.releaseSha ∉ w₁.runtimes)
    (hauth : Always (Takes e may) World.Authorized (fun o w' =>
      (o = .ok () → Held w₁ (either w₁ candidate) (insert e.releaseSha w₁.runtimes) w') ∧
        ∀ x, o = .error x → x.error.isRollback = false) authorize w) :
    Always (Takes e may) World.Authorized (Revoked e shas)
      (restoreGranted e authorize w₁.serving message shas true true) w := by
  have hc := covers_either hw₁ hcand
  have herr : ∀ {x : Raised} {w : World}, x.error.isRollback = false →
      Revoked e shas (.error x) w := fun hx => ⟨by rintro ⟨⟩, by rintro _ ⟨⟩; exact hx⟩
  refine Always.seq hauth (fun _ h => h) (fun _ w₂ _ h₂ => ?_) fun x w₂ _ h₂ => herr (h₂.2 x rfl)
  have h₂ := h₂.1 rfl
  have hm : ∀ {w r}, Takes e may w₂ (.setTraffic w₁.serving) w r →
      Held w₁ (either w₁ candidate) (insert e.releaseSha w₁.runtimes) w := fun ht =>
    h₂.move (.inl (positive_serving w₁)) ht
  refine Always.bind (exec_always (h₂.authorizes hc) (fun _ w₃ ht => ⟨(hm ht).authorizes hc, ?_⟩)
    fun x w₃ ht => ⟨(hm ht).authorizes hc, herr ht.not_rollback⟩)
  refine Always.seq (traffic_always w₃) (fun _ hs => ((hm ht).same hs).authorizes hc)
    (fun current w₄ hs hcur => ?_) fun x w₄ hs hx => herr (hx.2 x rfl)
  have h₄ := (hm ht).same hs
  have hcur : current = w₃.serving := hcur.1 current rfl
  refine Always.ite (fun _ => .raise (h₄.authorizes hc) (herr rfl)) fun heq =>
    revoke_always hw₁ true hshas ?_
  refine ⟨h₄.revisions, ?_, fun sha hsha => h₄.authorized sha (.inr hsha)⟩
  rw [hs.apart.serving, ← hcur]
  exact not_not.1 heq

/-- The recovery when no traffic was moved. -/
theorem restoreGranted_kept (hw₁ : w₁.Authorized) {message : String} {shas : List String}
    {authorize : Exec Unit} {previous : Traffic}
    (hshas : e.releaseSha ∉ shas → e.releaseSha ∉ w₁.runtimes)
    (h : Held w₁ {w₁.serving} w₁.runtimes w) :
    Always (Takes e may) World.Authorized (Revoked e shas)
      (restoreGranted e authorize previous message shas true false) w :=
  revoke_always hw₁ false hshas h

/-- A handler raises, and what its exception tells of its recovery is kept. -/
theorem reraise_always {J : World → Prop} {shas : List String} {restore : Exec Unit}
    {message : String} {x : Raised} (promoted : Bool)
    (h : Always (Takes e may) J (Revoked e shas) restore w) :
    Always (Takes e may) J (fun o w' => ∃ y, o = .error y ∧
        (y.Recovered → e.releaseSha ∈ w'.authorized → e.releaseSha ∈ shas))
      (during x restore >>= fun _ => (reraise promoted message x : Exec α)) w := by
  refine Always.bind (Always.guard h (fun _ h => h) (fun _ w' hJ hr => ?_) fun y w' hJ hr => ?_)
  · unfold reraise
    exact Always.ite (fun _ => .raise hJ ⟨_, rfl, fun _ => hr.revoked rfl⟩) fun _ =>
      .raise hJ ⟨_, rfl, fun _ => hr.revoked rfl⟩
  · refine .raise hJ ⟨_, rfl, ?_⟩
    rintro (hn | hn)
    · cases hn
    · rw [show _ = false from hr.error y rfl] at hn
      cases hn

end Recovery

section Deployments

variable {candidate : String}

/-- Nothing was asked of the grants, which are as they were. -/
def Ungranted (w w' : World) : Prop :=
  w'.authorized = w.authorized ∧ ∀ a sha, .grant a sha ∈ w'.log → .grant a sha ∈ w.log

/-- What a deployment ends with. After an exception that no step of its recovery raised, its commit
is not authorized, unless it served before, or the deployment did not come to its grants. -/
def Withdrawn (e : Env) (w : World) (o : Except Raised α) (w' : World) : Prop :=
  ∀ x, o = .error x → x.Recovered →
    Ungranted w w' ∨ (e.releaseSha ∈ w'.authorized → w.ServesCommit e.releaseSha)

theorem Apart.ungranted (h : Apart w w') : Ungranted w w' := by
  refine ⟨h.authorized, fun a sha hm => ?_⟩
  obtain ⟨cs, hl, hq⟩ := h.log
  rw [hl] at hm
  rcases List.mem_append.1 hm with hm | hm
  · exact hm
  · exact (hq _ hm).elim

theorem Apart.withdrawn {o : Except Raised α} (h : Apart w w') : Withdrawn e w o w' :=
  fun _ _ _ => .inl h.ungranted

theorem runtimes_configs {configs : List Revision}
    (h : Described (fun row r => w₁.revisions row.1 = some r) w₁.serving configs) :
    (∀ s ∈ w₁.runtimes, ∃ r ∈ configs, isRuntime r = true ∧ r.sha = some s) ∧
      ∀ s ∈ configs.map (·.sha.getD ""), w₁.ServesCommit s := by
  constructor
  · rintro s ⟨row, hrow, r, hr, hscope, hs⟩
    obtain ⟨r', hr', hrr⟩ := h.1 row hrow
    rw [hr] at hrr
    cases hrr
    exact ⟨r, hr', by simp [isRuntime, hscope], hs⟩
  · intro s hs
    obtain ⟨r, hr, rfl⟩ := List.mem_map.1 hs
    obtain ⟨row, hrow, hrr⟩ := h.2 r hr
    exact ⟨row, hrow, r, hrr, rfl⟩

theorem runtimes_staged {rows : List (String × RuntimeRow)}
    (h : Described (fun row out => ∃ r, w₁.revisions row.1 = some r ∧
      out = (row.1, RuntimeRow.of r)) w₁.serving rows) :
    (∀ s ∈ w₁.runtimes, ∃ row ∈ rows, row.2.scope = runtimeScope ∧ row.2.sha = s) ∧
      ∀ s ∈ rows.map (·.2.sha), w₁.ServesCommit s := by
  constructor
  · rintro s ⟨row, hrow, r, hr, hscope, hs⟩
    obtain ⟨out, hout, r', hr', rfl⟩ := h.1 row hrow
    rw [hr] at hr'
    cases hr'
    exact ⟨_, hout, by simp [RuntimeRow.of, hscope], by simp [RuntimeRow.of, hs]⟩
  · intro s hs
    obtain ⟨out, hout, rfl⟩ := List.mem_map.1 hs
    obtain ⟨row, hrow, r, hr, rfl⟩ := h.2 out hout
    exact ⟨row, hrow, r, hr, rfl⟩

theorem World.Releases.commit (h : w₁.Releases e candidate) :
    ∀ r, w₁.revisions candidate = some r → r.scope = some runtimeScope →
      r.sha = some e.releaseSha := by
  intro r hr _
  obtain ⟨r', hr', hs, -⟩ := h
  rw [hr] at hr'
  cases hr'
  exact hs

/-- The traffic is as it was or moved, and enough is authorized to authorize the rest. -/
def Moved (e : Env) (w₁ : World) (candidate : String) (w : World) : Prop :=
  Held w₁ (either w₁ candidate) (insert e.releaseSha w₁.runtimes) w ∨
    Held w₁ {[(candidate, 100)]} {e.releaseSha} w

theorem Moved.same (h : Moved e w₁ candidate w) (hs : Same w w') : Moved e w₁ candidate w' :=
  h.imp (·.same hs) (·.same hs)

theorem Moved.authorizes (hw₁ : w₁.Authorized) (hcand : w₁.Releases e candidate)
    (h : Moved e w₁ candidate w) : w.Authorized := by
  rcases h with h | h
  · exact h.authorizes (covers_either hw₁ hcand.commit)
  · exact h.authorizes (covers_candidate (Set.mem_singleton _) hcand.commit)

/-- Whatever the traffic is, the commits that served before are authorized again. -/
theorem authorize_back {authorize : Exec Unit} {G : String → Prop} (hw₁ : w₁.Authorized)
    (hcand : w₁.Releases e candidate) (hG : ∀ s ∈ w₁.runtimes, G s)
    (ha : ∀ {T S w}, w₁.Covers T S → Held w₁ T S w →
      Always (Takes e may) World.Authorized (Grows w₁ T S G w) authorize w)
    (h : Moved e w₁ candidate w) :
    Always (Takes e may) World.Authorized (fun o w' =>
      (o = .ok () → Held w₁ (either w₁ candidate) (insert e.releaseSha w₁.runtimes) w') ∧
        ∀ x, o = .error x → x.error.isRollback = false) authorize w := by
  rcases h with h | h
  · exact (ha (covers_either hw₁ hcand.commit) h).mono (fun _ h => h)
      fun o w' _ hg => ⟨fun _ => hg.held, hg.error⟩
  · refine (ha (covers_candidate (Set.mem_singleton _) hcand.commit) h).mono (fun _ h => h)
      fun o w' _ hg => ⟨fun ho => ⟨hg.held.revisions, .inr hg.held.serving, ?_⟩, hg.error⟩
    rintro s (rfl | hs)
    · exact hg.held.authorized _ rfl
    · exact hg.authorized ho s (hG s hs)

theorem recoverRuntime_always {configs : List Revision} {x : Raised} {promoted : Bool}
    (hw₁ : w₁.Authorized) (hcand : w₁.Releases e candidate)
    (hd : Described (fun row r => w₁.revisions row.1 = some r) w₁.serving configs)
    (h : if promoted then Moved e w₁ candidate w else Held w₁ {w₁.serving} w₁.runtimes w) :
    Always (Takes e may) World.Authorized (fun o w' => ∃ y, o = .error y ∧
        (y.Recovered → e.releaseSha ∈ w'.authorized → e.releaseSha ∈ configs.map (·.sha.getD "")))
      (recoverRuntime e w₁.serving configs promoted x : Exec α) w := by
  have hG := (runtimes_configs hd).1
  have hn : e.releaseSha ∉ configs.map (·.sha.getD "") → e.releaseSha ∉ w₁.runtimes := by
    intro hn hs
    obtain ⟨r, hr, -, hrs⟩ := hG _ hs
    exact hn (List.mem_map.2 ⟨r, hr, by rw [hrs]; rfl⟩)
  refine reraise_always promoted ?_
  cases promoted with
  | true =>
    refine emit_bind (Moved.authorizes hw₁ hcand h) fun w' hs =>
      restoreGranted_promoted hw₁ hcand.commit hn ?_
    exact authorize_back hw₁ hcand hG (fun hc h => authorizeConfigs_always hc configs h)
      (Moved.same h hs)
  | false =>
    exact emit_bind (Held.authorizes h (covers_serving hw₁)) fun w' hs =>
      restoreGranted_kept hw₁ hn (Held.same h hs)

theorem recoverStaged_always {c : Continuation} {x : Raised} {promoted : Bool}
    (hi : independentRuntime e = true) (hw₁ : w₁.Authorized)
    (hcand : w₁.Releases e c.candidateRevision) (hprev : c.previousTraffic = w₁.serving)
    (hd : Described (fun row out => ∃ r, w₁.revisions row.1 = some r ∧
      out = (row.1, RuntimeRow.of r)) w₁.serving c.previousRuntime)
    (h : if promoted then Moved e w₁ c.candidateRevision w
      else Held w₁ {w₁.serving} w₁.runtimes w) :
    Always (Takes e may) World.Authorized (fun o w' => ∃ y, o = .error y ∧
        (y.Recovered → e.releaseSha ∈ w'.authorized →
          e.releaseSha ∈ c.previousRuntime.map (·.2.sha)))
      (recoverStaged e c promoted x : Exec α) w := by
  have hG : ∀ s ∈ w₁.runtimes, ∃ row ∈ c.previousRuntime,
      (independentRuntime e && row.2.scope = runtimeScope) = true ∧ row.2.sha = s := by
    intro s hs
    obtain ⟨row, hrow, hscope, hsha⟩ := (runtimes_staged hd).1 s hs
    exact ⟨row, hrow, by simp [hi, hscope], hsha⟩
  have hn : e.releaseSha ∉ c.previousRuntime.map (·.2.sha) → e.releaseSha ∉ w₁.runtimes := by
    intro hn hs
    obtain ⟨row, hrow, -, hsha⟩ := hG _ hs
    exact hn (List.mem_map.2 ⟨row, hrow, hsha⟩)
  refine reraise_always promoted ?_
  unfold restoreStaged
  rw [hi, hprev]
  cases promoted with
  | true =>
    refine restoreGranted_promoted hw₁ hcand.commit hn ?_
    exact authorize_back hw₁ hcand hG (fun hc h => authorizeStaged_always hc c h) h
  | false => exact restoreGranted_kept hw₁ hn h

theorem retireConfigs_asks (configs : List Revision) :
    (retireConfigs e configs).Asks (Keeping {e.releaseSha}) := by
  refine each_asks fun r _ => .ite (fun hr => runtimeGrant_asks (.inr ?_)) fun _ => .pure ()
  simpa using (Bool.and_eq_true_iff.1 hr).2

theorem retireStaged_asks (c : Continuation) :
    (retireStaged e c).Asks (Keeping {e.releaseSha}) := by
  refine each_asks fun row _ => .ite (fun hr => runtimeGrant_asks (.inr ?_)) fun _ => .pure ()
  simpa using hr.2

/-- The traffic is moved, and what follows only retires other commits. -/
theorem move_always {f : Unit → Exec α} (hw₁ : w₁.Authorized) (hcand : w₁.Releases e candidate)
    (hf : (f ()).Asks (Keeping {e.releaseSha}))
    (h : Held w₁ {w₁.serving} (insert e.releaseSha w₁.runtimes) w) :
    Always (Takes e may) World.Authorized (fun _ w' => Moved e w₁ candidate w')
      (exec (.setTraffic [(candidate, 100)]) >>= f) w := by
  have hc := covers_candidate (Set.mem_singleton _) hcand.commit
  have h' : Held w₁ (either w₁ candidate) (insert e.releaseSha w₁.runtimes) w :=
    h.weaken (by rintro _ rfl; exact .inl rfl) (Set.Subset.refl _)
  have hm : ∀ {w' r}, Takes e may w (.setTraffic [(candidate, 100)]) w' r →
      Held w₁ (either w₁ candidate) (insert e.releaseSha w₁.runtimes) w' := fun ht =>
    h'.move (t := [(candidate, 100)]) (.inr rfl) ht
  have hce := covers_either hw₁ hcand.commit
  refine Always.bind (exec_always (h'.authorizes hce) (fun _ w' ht => ?_) fun x w' ht => ?_)
  · refine ⟨(hm ht).authorizes hce, ?_⟩
    have h₂ : Held w₁ {[(candidate, 100)]} {e.releaseSha} w' :=
      (h'.moved ht).weaken (by rintro _ rfl; rfl) (by rintro _ rfl; exact .inl rfl)
    exact (held_always hf hc h₂).mono (fun _ h => h) fun _ _ _ h => .inr h
  · exact ⟨(hm ht).authorizes hce, .inl (hm ht)⟩

/-- The release is authorized, and what follows has no effect. -/
theorem grant_always {f : Unit → Exec Unit} (hw₁ : w₁.Authorized)
    (hf : (f ()).Asks Command.Idle) :
    Always (Takes e may) World.Authorized (fun o w' => Held w₁ {w₁.serving} w₁.runtimes w' ∧
        (o = .ok () → Held w₁ {w₁.serving} (insert e.releaseSha w₁.runtimes) w'))
      (runtimeGrant .authorize e.releaseSha >>= f) w₁ := by
  have hc := covers_serving hw₁
  refine Always.seq (authorize_always hc (held_start hw₁)) (fun _ h => h) (fun _ w₂ _ hg => ?_)
    fun x w₂ _ hg => ⟨hg.held, by rintro ⟨⟩⟩
  have h₂ : Held w₁ {w₁.serving} (insert e.releaseSha w₁.runtimes) w₂ := by
    refine ⟨hg.held.revisions, hg.held.serving, ?_⟩
    rintro s (rfl | hs)
    · exact hg.authorized rfl _ rfl
    · exact hg.held.authorized s hs
  refine (held_always (hf.mono fun _ h => h.keeping) ?_ h₂).mono (fun _ h => h)
    fun o w₃ _ h => ⟨h.weaken (Set.Subset.refl _) (Set.subset_insert _ _), fun _ => h⟩
  intro t ht row hrow r hr hs
  obtain ⟨sha, hsha, hrs⟩ := hc t ht row hrow r hr hs
  exact ⟨sha, .inr hsha, hrs⟩

/-- An exception, after which the release is only authorized if it served before, or a step of the
recovery failed. -/
def Ended (e : Env) (w₁ : World) (o : Except Raised α) (w : World) : Prop :=
  ∃ y, o = .error y ∧
    (y.Recovered → e.releaseSha ∈ w.authorized → w₁.ServesCommit e.releaseSha)

/-- The two parts of a `try`, each with its recovery. -/
theorem promotion_always {first : Exec Unit} {second : Exec α} {r₁ : Raised → Exec Unit}
    {r₂ : Raised → Exec α}
    (hfirst : Always (Takes e may) World.Authorized (fun o w' =>
      Held w₁ {w₁.serving} w₁.runtimes w' ∧
        (o = .ok () → Held w₁ {w₁.serving} (insert e.releaseSha w₁.runtimes) w')) first w₁)
    (hsecond : ∀ w, Held w₁ {w₁.serving} (insert e.releaseSha w₁.runtimes) w →
      Always (Takes e may) World.Authorized (fun _ w' => Moved e w₁ candidate w') second w)
    (hr₁ : ∀ x w, Held w₁ {w₁.serving} w₁.runtimes w →
      Always (Takes e may) World.Authorized (Ended e w₁) (r₁ x) w)
    (hr₂ : ∀ x w, Moved e w₁ candidate w →
      Always (Takes e may) World.Authorized (Ended e w₁) (r₂ x) w) :
    Always (Takes e may) World.Authorized (fun o w' => ∀ x, o = .error x → x.Recovered →
        e.releaseSha ∈ w'.authorized → w₁.ServesCommit e.releaseSha)
      (first.handle r₁ >>= fun _ => second.handle r₂) w₁ := by
  refine Always.bind (Always.guard hfirst (fun _ h => h) (fun _ w₂ _ h₂ => ?_) fun x w₂ _ h₂ => ?_)
  · refine Always.guard (hsecond w₂ (h₂.2 rfl)) (fun _ h => h)
      (fun _ _ _ _ => by rintro _ ⟨⟩) fun x w₃ _ h₃ => (hr₂ x w₃ h₃).mono (fun _ h => h) ?_
    rintro o w₄ - ⟨y, rfl, hy⟩ _ ⟨⟩
    exact hy
  · refine (hr₁ x w₂ h₂.1).mono (fun _ h => h) ?_
    rintro o w₃ - ⟨y, rfl, hy⟩ _ ⟨⟩
    exact hy

theorem promoteRuntime_always {configs : List Revision} {url image : String}
    (hw₁ : w₁.Authorized) (hcand : w₁.Releases e candidate)
    (hd : Described (fun row r => w₁.revisions row.1 = some r) w₁.serving configs) :
    Always (Takes e may) World.Authorized (fun o w' => ∀ x, o = .error x → x.Recovered →
        e.releaseSha ∈ w'.authorized → w₁.ServesCommit e.releaseSha)
      (promoteRuntime e w₁.serving configs candidate url image) w₁ := by
  have hback : ∀ {β : Type} (promoted : Bool) (x : Raised) (w : World),
      (if promoted then Moved e w₁ candidate w else Held w₁ {w₁.serving} w₁.runtimes w) →
      Always (Takes e may) World.Authorized (Ended e w₁)
        (recoverRuntime e w₁.serving configs promoted x : Exec β) w := by
    intro β promoted x w h
    refine (recoverRuntime_always hw₁ hcand hd h).mono (fun _ h => h) ?_
    rintro o w' - ⟨y, rfl, hy⟩
    exact ⟨y, rfl, fun hr hm => (runtimes_configs hd).2 _ (hy hr hm)⟩
  refine promotion_always (grant_always hw₁ ?_) (fun w h => move_always hw₁ hcand ?_ h)
    (hback false) (hback true)
  · refine .bind (fun _ => .bind (fun _ => ?_) ?_) (runtimeReady_asks _ _ _)
    · exact emit_asks trivial
    · exact emit_asks trivial
  · refine .bind (fun _ => .bind (fun _ => .bind (fun _ => .bind (fun _ => .bind (fun _ =>
      .bind (fun _ => .pure _) ?_) (retireConfigs_asks configs)) ?_) ?_) ?_) ?_
    · exact emit_asks trivial
    · exact (runtimeReady_asks _ _ _).mono fun _ h => h.keeping
    · exact emit_asks trivial
    · exact exec_asks trivial
    · exact emit_asks trivial

theorem promoteStaged_always {c : Continuation} (hi : independentRuntime e = true)
    (hw₁ : w₁.Authorized) (hcand : w₁.Releases e c.candidateRevision)
    (hprev : c.previousTraffic = w₁.serving)
    (hd : Described (fun row out => ∃ r, w₁.revisions row.1 = some r ∧
      out = (row.1, RuntimeRow.of r)) w₁.serving c.previousRuntime) :
    Always (Takes e may) World.Authorized (fun o w' => ∀ x, o = .error x → x.Recovered →
        e.releaseSha ∈ w'.authorized → w₁.ServesCommit e.releaseSha) (promoteStaged e c) w₁ := by
  have hback : ∀ {β : Type} (promoted : Bool) (x : Raised) (w : World),
      (if promoted then Moved e w₁ c.candidateRevision w
        else Held w₁ {w₁.serving} w₁.runtimes w) →
      Always (Takes e may) World.Authorized (Ended e w₁) (recoverStaged e c promoted x : Exec β)
        w := by
    intro β promoted x w h
    refine (recoverStaged_always hi hw₁ hcand hprev hd h).mono (fun _ h => h) ?_
    rintro o w' - ⟨y, rfl, hy⟩
    exact ⟨y, rfl, fun hr hm => (runtimes_staged hd).2 _ (hy hr hm)⟩
  unfold promoteStaged
  simp only [hi, if_true]
  refine promotion_always (grant_always hw₁ ?_) (fun w h => move_always hw₁ hcand ?_ h)
    (hback false) (hback true)
  · refine .bind (fun _ => .bind (fun _ => ?_) (runHooks_asks _)) (runtimeReady_asks _ _ _)
    exact emit_asks trivial
  · refine .bind (fun _ => .bind (fun _ => .bind (fun _ => .bind (fun _ => .bind (fun _ =>
      .bind (fun _ => .bind (fun _ => .pure _) ?_) (retireStaged_asks c)) ?_) ?_) ?_) ?_) ?_
    · exact emit_asks trivial
    · exact (runtimeReady_asks _ _ _).mono fun _ h => h.keeping
    · exact (verifyPrivateBoundary_asks _).mono fun _ h => h.keeping
    · exact emit_asks trivial
    · exact exec_asks trivial
    · exact emit_asks trivial

theorem deployRuntime_always (image : String) (hw : w.Authorized) :
    Always (Takes e may) World.Authorized (Withdrawn e w) (deployRuntime e image) w := by
  have hJ : ∀ {w'}, Apart w w' → w'.Authorized := fun h => hw.apart h
  refine Always.seq (traffic_always w) (fun _ h => hJ h.apart) (fun previous w₁ h₁ hprev => ?_)
    fun x w₁ h₁ _ => h₁.apart.withdrawn
  obtain rfl : previous = w.serving := hprev.1 previous rfl
  refine Always.seq (revisions_always w.serving w₁) (fun _ h => hJ (h₁.trans h).apart)
    (fun configs w₂ h₂ hd => ?_) fun x w₂ h₂ _ => (h₁.trans h₂).apart.withdrawn
  have h₂ := h₁.trans h₂
  have hd := hd configs rfl
  rw [h₁.revisions] at hd
  refine Always.seq (idle_always verifyArtemisWeb_asks w₂) (fun _ h => hJ (h₂.trans h).apart)
    (fun _ w₃ h₃ _ => ?_) fun x w₃ h₃ _ => (h₂.trans h₃).apart.withdrawn
  have h₃ := (h₂.trans h₃).apart
  refine Always.seq (deployCandidate_always image w₃) (fun _ h => hJ (h₃.trans h))
    (fun c w₄ h₄ ht => ?_) fun x w₄ h₄ _ => (h₃.trans h₄).withdrawn
  have h₄ := h₃.trans h₄
  refine emit_bind (hJ h₄) fun w₅ h₅ => ?_
  have ht := (ht c rfl).same h₅
  have h₅ := h₄.trans h₅.apart
  refine Always.seq (runtimeReady_always c.2 e.releaseSha true w₅)
    (fun _ h => hJ (h₅.trans h.apart)) (fun _ w₆ h₆ hready => ?_)
    fun x w₆ h₆ _ => (h₅.trans h₆.apart).withdrawn
  have hcand := (ht.releases (hready rfl)).same h₆
  have h₆ := h₅.trans h₆.apart
  have hd' : Described (fun row r => w₆.revisions row.1 = some r) w₆.serving configs := by
    rw [h₆.serving]
    exact ⟨fun row hrow => (hd.1 row hrow).imp fun r h => ⟨h.1, h₆.revisions _ _ h.2⟩,
      fun r hr => (hd.2 r hr).imp fun row h => ⟨h.1, h₆.revisions _ _ h.2⟩⟩
  rw [← h₆.serving]
  refine (promoteRuntime_always (hJ h₆) hcand hd').mono (fun _ h => h) fun o w' _ h => ?_
  exact fun x hx hr => .inr fun hm => (h x hx hr hm).apart h₆

theorem promoteCandidate_always (hi : independentRuntime e = true) (hw : w.Authorized) :
    Always (Takes e may) World.Authorized (Withdrawn e w) (promoteCandidate e) w := by
  have hJ : ∀ {w'}, Same w w' → w'.Authorized := fun h => hw.apart h.apart
  have hout : ∀ {w' : World} {x : Raised}, Same w w' →
      Withdrawn e w (.error x : Except Raised Result) w' := fun h => h.apart.withdrawn
  refine Always.seq (idle_always loadContinuation_asks w) (fun _ h => hJ h) (fun c w₁ h₁ _ => ?_)
    fun x w₁ h₁ _ => hout h₁
  refine Always.seq (traffic_always w₁) (fun _ h => hJ (h₁.trans h)) (fun current w₂ h₂ hcur => ?_)
    fun x w₂ h₂ _ => hout (h₁.trans h₂)
  have hcur : current = w₁.serving := hcur.1 current rfl
  have h₂ := h₁.trans h₂
  refine Always.ite (fun _ => .raise (hJ h₂) (hout h₂)) fun heq => ?_
  have hprev : c.previousTraffic = w.serving := by
    rw [← not_not.1 heq, hcur, h₁.apart.serving]
  refine Always.seq (previousRuntime_always c.previousTraffic w₂) (fun _ h => hJ (h₂.trans h))
    (fun rows w₃ h₃ hd => ?_) fun x w₃ h₃ _ => hout (h₂.trans h₃)
  have hd := hd rows rfl
  have h₃ := h₂.trans h₃
  refine Always.ite (fun _ => .raise (hJ h₃) (hout h₃)) fun heq => ?_
  rw [hprev, h₂.revisions, not_not.1 heq] at hd
  refine Always.seq (candidateFacts_always c.imageDigest c.candidateRevision c.candidateUrl w₃)
    (fun _ h => hJ (h₃.trans h)) (fun spec w₄ h₄ ht => ?_) fun x w₄ h₄ _ => hout (h₃.trans h₄)
  have ht := (ht spec rfl).same h₄
  have h₄ := h₃.trans h₄
  refine Always.ite (fun _ => .raise (hJ h₄) (hout h₄)) fun _ => ?_
  refine Always.seq (idle_always (verifyPrivateBoundary_asks c.candidateUrl) w₄)
    (fun _ h => hJ (h₄.trans h)) (fun _ w₅ h₅ _ => ?_) fun x w₅ h₅ _ => hout (h₄.trans h₅)
  have ht := ht.same h₅
  have h₅ := h₄.trans h₅
  refine Always.seq (idle_always verifyArtemisWeb_asks w₅) (fun _ h => hJ (h₅.trans h))
    (fun _ w₆ h₆ _ => ?_) fun x w₆ h₆ _ => hout (h₅.trans h₆)
  have ht := ht.same h₆
  have h₆ := h₅.trans h₆
  refine Always.ite (fun _ => ?_) fun hn => absurd hi hn
  refine Always.seq (runtimeReady_always c.candidateUrl e.releaseSha true w₆)
    (fun _ h => hJ (h₆.trans h)) (fun _ w₇ h₇ hready => ?_) fun x w₇ h₇ _ => hout (h₆.trans h₇)
  have hcand := (ht.releases (hready rfl)).same h₇
  have h₇ := h₆.trans h₇
  rw [← h₇.apart.serving] at hprev hd
  rw [← h₇.revisions] at hd
  refine (promoteStaged_always hi (hJ h₇) hcand hprev hd).mono (fun _ h => h) fun o w' _ h => ?_
  exact fun x hx hr => .inr fun hm => (h x hx hr hm).apart h₇.apart

theorem rollbackRuntime_always (hw : w.Authorized) :
    Always (Takes e may) World.Authorized (fun _ _ => True) (rollbackRuntime e) w := by
  have hJ : ∀ {w'}, Same w w' → w'.Authorized := fun h => hw.apart h.apart
  refine Always.seq (revision_always e.targetRevision (.refl w)) (fun _ h => hJ h)
    (fun values w₁ h₁ hr => ?_) fun _ _ _ _ => trivial
  have hr : w.revisions e.targetRevision = some values := hr values rfl
  refine Always.ite (fun _ => .raise (hJ h₁) trivial) fun _ => ?_
  refine Always.seq (traffic_always w₁) (fun _ h => hJ (h₁.trans h)) (fun previous w₂ h₂ hprev => ?_)
    fun _ _ _ _ => trivial
  have hprev : previous = w.serving := (hprev.1 previous rfl).trans h₁.apart.serving
  have h₂ := h₁.trans h₂
  refine Always.seq (idle_always verifyArtemisWeb_asks w₂) (fun _ h => hJ (h₂.trans h))
    (fun _ w₃ h₃ _ => ?_) fun _ _ _ _ => trivial
  have h₃ := (held_start hw).same (h₂.trans h₃)
  have hcov := covers_serving hw
  by_cases hx : exactCommit (values.sha.getD "") = true
  · have hsha : values.sha = some (values.sha.getD "") := by
      rcases hs : values.sha with _ | sha
      · rw [hs] at hx
        exact absurd hx (by decide)
      · rfl
    have hcov' : w.Covers (either w e.targetRevision) (insert (values.sha.getD "") w.runtimes) := by
      refine covers_either hw fun r hr' _ => ?_
      rw [hr] at hr'
      cases hr'
      exact hsha
    refine Always.seq (authorize_always hcov h₃) (fun _ h => h) (fun _ w₄ _ hg => ?_)
      fun _ _ _ _ => trivial
    have h₄ : Held w (either w e.targetRevision) (insert (values.sha.getD "") w.runtimes) w₄ := by
      refine ⟨hg.held.revisions, .inl hg.held.serving, ?_⟩
      rintro s (rfl | hs)
      · exact hg.authorized rfl _ rfl
      · exact hg.held.authorized s hs
    have hmove : ∀ (w₅ : World) (c : Command) (w₆ : World) (r : c.Reply),
        (c.Idle ∨ c = .setTraffic w.serving ∨ c = .setTraffic [(e.targetRevision, 100)]) →
        Held w (either w e.targetRevision) (insert (values.sha.getD "") w.runtimes) w₅ →
        Takes e may w₅ c w₆ r →
        Held w (either w e.targetRevision) (insert (values.sha.getD "") w.runtimes) w₆ := by
      rintro w₅ c w₆ r (hc | rfl | rfl) h ht
      · exact h.same (ht.same hc)
      · exact h.move (.inl (positive_serving w)) ht
      · exact h.move (t := [(e.targetRevision, 100)]) (.inr rfl) ht
    refine (kept_always ?_ hmove h₄).mono (fun _ h => h.authorizes hcov') fun _ _ _ _ => trivial
    refine .bind (fun _ => .bind (fun _ => .pure _) (emit_asks (.inl trivial)))
      (.handle (fun x => ?_) (.bind (fun _ => .bind (fun _ => .bind (fun _ => .pure _) ?_) ?_) ?_))
    · rw [hprev]
      exact .bind (fun _ => .raise x) (.handle (fun _ => .raise _) (exec_asks (.inr (.inl rfl))))
    · exact (runtimeReady_asks _ _ _).mono fun _ h => .inl h
    · exact exec_asks (.inl trivial)
    · exact exec_asks (.inr (.inr rfl))
  · have hrefuse : runtimeGrant .authorize (values.sha.getD "") =
        refuse "runtime grant requires an exact commit" := if_neg hx
    rw [hrefuse]
    exact .raise (h₃.authorizes hcov) trivial

/-- Whatever fails, and wherever the run is cut: the runtimes that receive traffic are authorized.
An exception that no step of a recovery raised leaves the release unauthorized, unless it served
before, or the run ended before it asked anything of the grants. -/
theorem traffic_authorized (e : Env) (may : Command → Prop) (image : String) (w : World)
    (hw : w.Authorized) :
    (∀ p w', Runs (Takes e may) (deployRuntime e image) w p w' → w'.Authorized) ∧
      (∀ p w', Runs (Takes e may) (rollbackRuntime e) w p w' → w'.Authorized) ∧
      (∀ o w', Ends (Takes e may) (deployRuntime e image) w o w' → Withdrawn e w o w') ∧
      (independentRuntime e = true →
        (∀ p w', Runs (Takes e may) (promoteCandidate e) w p w' → w'.Authorized) ∧
          ∀ o w', Ends (Takes e may) (promoteCandidate e) w o w' → Withdrawn e w o w') := by
  refine ⟨fun p w' h => (deployRuntime_always image hw).visits h,
    fun p w' h => (rollbackRuntime_always hw).visits h,
    fun o w' h => (deployRuntime_always image hw).ends h, fun hi => ?_⟩
  exact ⟨fun p w' h => (promoteCandidate_always hi hw).visits h,
    fun o w' h => (promoteCandidate_always hi hw).ends h⟩

end Deployments

section Demo

theorem demoWorld_authorized {authorized : Finset String} (h : demoSha ∈ authorized) :
    (demoWorld authorized).Authorized := by
  intro row _ r hr _
  have hr : (if row.1 = "cgm-artemis-job-dispatcher-1" then some (demoRevision demoSha) else none) =
      some r := hr
  split_ifs at hr
  cases hr
  exact ⟨demoSha, h, rfl⟩

/-- Every probe of the new production fails: the traffic moves back. -/
def demoRollback : Script := demoScript (.ready "https://dispatcher.run.app" demoEnv.releaseSha false)

theorem traffic_authorized_demo : ∃ x w',
    Ends (Takes demoEnv fun _ => True) (deployRuntime demoEnv "dispatcher@sha256:1")
      (demoWorld {demoSha}) (.error x) w' ∧ x.Recovered ∧ w'.Authorized ∧
      w'.serving = (demoWorld {demoSha}).serving ∧ demoEnv.releaseSha ∉ w'.authorized := by
  have hrun : ((demoRollback.play demoEnv (fun _ => True)
      (deployRuntime demoEnv "dispatcher@sha256:1") (demoWorld {demoSha})).map fun r =>
        (r.1.toOption, r.2.serving)) = some (none, (demoWorld {demoSha}).serving) := by
    decide +kernel
  have hlast : ((demoRollback.play demoEnv (fun _ => True)
      (deployRuntime demoEnv "dispatcher@sha256:1") (demoWorld {demoSha})).all fun r =>
        (match r.1 with | .ok _ => false | .error x => x.error.isRollback) &&
        (demoEnv.releaseSha ∉ r.2.authorized)) = true := by
    decide +kernel
  obtain ⟨⟨o, w'⟩, hplay, hw'⟩ := Option.map_eq_some_iff.1 hrun
  rw [hplay] at hlast
  have hends := Script.ends hplay
  have hw : (demoWorld {demoSha}).Authorized := demoWorld_authorized (Finset.mem_singleton_self _)
  have hauth := (traffic_authorized demoEnv (fun _ => True) "dispatcher@sha256:1"
    (demoWorld {demoSha}) hw).1 _ _ hends
  cases o with
  | ok r => cases hw'
  | error x =>
    have hl : x.error.isRollback = true ∧ demoEnv.releaseSha ∉ w'.authorized := by
      simpa using hlast
    exact ⟨x, w', hends, .inr hl.1, hauth, congrArg Prod.snd hw', hl.2⟩

/-- An authorization of the release from before stays when the first command fails. -/
theorem authorized_before : ¬∀ (e : Env) (image : String) (w : World), w.Authorized →
    ∀ x w', Ends (Takes e fun _ => True) (deployRuntime e image) w (.error x) w' → x.Recovered →
      e.releaseSha ∈ w'.authorized → w.ServesCommit e.releaseSha := by
  intro h
  let w := demoWorld {demoSha, demoEnv.releaseSha}
  have hw : w.Authorized := demoWorld_authorized (Finset.mem_insert_self _ _)
  have hfails : Takes demoEnv (fun _ => True) w (.traffic demoEnv.service) _ (.error _) :=
    .fails (.command "exit status 1") rfl (.inl trivial)
  have hends : Ends (Takes demoEnv fun _ => True) (deployRuntime demoEnv "dispatcher@sha256:1") w
      (.error ⟨.command "exit status 1", none⟩) _ := .ask hfails (.here _ _)
  obtain ⟨row, hrow, r, hr, hs⟩ := h demoEnv "dispatcher@sha256:1" w hw _ _ hends (.inl rfl)
    (Finset.mem_insert_of_mem (Finset.mem_singleton_self _))
  have hr : (if row.1 = "cgm-artemis-job-dispatcher-1" then some (demoRevision demoSha) else none) =
      some r := hr
  split_ifs at hr
  cases hr
  exact absurd hs (by decide +kernel)

end Demo

end Executor
