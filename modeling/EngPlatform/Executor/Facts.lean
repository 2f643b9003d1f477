import EngPlatform.Executor.World

/-!
# What the parts of a deployment do

Which parts have no effect at all, what the others leave alone, and what their answers tell.
-/

set_option linter.dupNamespace false

namespace Executor

open Interleave

variable {e : Env} {may : Command → Prop} {w w' w₁ : World} {α β : Type}

section Asking

variable {P : Command → Prop}

theorem exec_asks {c : Command} (hc : P c) : (exec c).Asks P :=
  ⟨hc, fun r => by cases r <;> trivial⟩

theorem refuse_asks (message : String) : (refuse message : Exec α).Asks P := trivial

theorem emit_asks {stage status : String} (hc : P (.emit stage status)) :
    (emit stage status).Asks P := ⟨hc, fun _ => trivial⟩

theorem each_asks {f : α → Exec Unit} : ∀ {l : List α}, (∀ a ∈ l, (f a).Asks P) →
    (each l f).Asks P
  | [], _ => .pure ()
  | _ :: _, h =>
    .bind (fun _ => each_asks fun a ha => h a (List.mem_cons_of_mem _ ha)) (h _ List.mem_cons_self)

theorem collect_asks {f : α → Exec β} (h : ∀ a, (f a).Asks P) :
    ∀ l : List α, (collect l f).Asks P
  | [] => .pure []
  | a :: l => .bind (fun _ => .bind (fun _ => .pure _) (collect_asks h l)) (h a)

theorem traffic_asks (service : String) : (traffic service).Asks Command.Idle :=
  .bind (fun _ => .ite (fun _ => refuse_asks _) fun _ => .pure _) (exec_asks trivial)

theorem runtimeReadyOnce_asks (url sha : String) (candidate : Bool) :
    (runtimeReadyOnce e url sha candidate).Asks Command.Idle := by
  refine .ite (fun _ => ?_) fun _ => exec_asks trivial
  exact .bind (fun _ => .bind (fun _ => exec_asks trivial) (exec_asks trivial)) (exec_asks trivial)

theorem runtimeReady_asks (url sha : String) (candidate : Bool) :
    (runtimeReady e url sha candidate).Asks Command.Idle := by
  suffices h : ∀ n, (runtimeReadyAttempts e url sha candidate n).Asks Command.Idle from h 5
  intro n
  induction n with
  | zero => exact runtimeReadyOnce_asks url sha candidate
  | succ n ih =>
    exact .handle (fun x => .ite (fun _ => ih) fun _ => .raise x)
      (runtimeReadyOnce_asks url sha candidate)

theorem smokeAttempts_asks (url : String) : ∀ n, (smokeAttempts url n).Asks Command.Idle
  | 0 => .pure ()
  | n + 1 => by
    have ih := smokeAttempts_asks url n
    refine .bind (fun _ => .ite (fun _ => .pure ()) fun _ => ih)
      (.handle (fun x => ?_) (exec_asks trivial))
    exact .ite (fun _ => refuse_asks _) fun _ => .bind (fun _ => .pure _) (exec_asks trivial)

theorem smoke_asks (url : String) : (smoke e url).Asks Command.Idle := by
  refine .ite (fun _ => ?_) fun _ => smokeAttempts_asks url 5
  refine .bind (fun _ => .bind (fun _ => smokeAttempts_asks url 5) ?_) ?_
  · exact exec_asks trivial
  · exact exec_asks trivial

theorem runHooks_asks (names : List String) : (runHooks names).Asks Command.Idle :=
  each_asks (f := fun name => exec (.hook name)) fun _ _ => exec_asks trivial

theorem verifyArtemisWeb_asks : (verifyArtemisWeb e).Asks Command.Idle := by
  refine .ite (fun _ => .pure ()) fun _ => ?_
  refine .bind (fun rows => each_asks fun row _ => ?_) (traffic_asks _)
  exact .bind (fun _ => .ite (fun _ => refuse_asks _) fun _ => .pure ()) (exec_asks trivial)

theorem verifyPrivateBoundary_asks (url : String) :
    (verifyPrivateBoundary e url).Asks Command.Idle := by
  refine .ite (fun _ => ?_) fun _ => .pure ()
  exact .bind (fun _ => .bind (fun _ => exec_asks trivial) (exec_asks trivial)) (exec_asks trivial)

theorem previousRuntime_asks (rows : Traffic) : (previousRuntime rows).Asks Command.Idle :=
  collect_asks (fun _ => .bind (fun _ => .pure _) (exec_asks trivial)) rows

theorem candidateFacts_asks (image revision url : String) :
    (candidateFacts e image revision url).Asks Command.Idle := by
  refine .bind (fun _ => .bind (fun r => ?_) (exec_asks trivial)) (exec_asks trivial)
  refine .ite (fun _ => refuse_asks _) fun _ => ?_
  refine .bind (fun rows => ?_) (exec_asks trivial)
  split
  · exact .ite (fun _ => refuse_asks _) fun _ => .pure _
  · exact refuse_asks _

theorem loadContinuation_asks : (loadContinuation e).Asks P := by
  unfold loadContinuation
  split
  · exact refuse_asks _
  · exact .ite (fun _ => .pure _) fun _ => refuse_asks _

end Asking

section Idle

/-- A program without effect. -/
theorem idle_always {p : Exec α} (hp : p.Asks Command.Idle) (w : World) :
    Always (Takes e may) (Same w) (fun _ _ => True) p w :=
  Always.of_asks (R := Same) hp (Same.refl w) (fun _ _ _ _ hR hc hs => hR.trans (hs.same hc))
    (fun _ h => h) fun _ _ _ => trivial

/-- A program whose commands all keep a fact. -/
theorem kept_always {A : Command → Prop} {K : World → Prop} {p : Exec α} (hp : p.Asks A)
    (hA : ∀ w c w' r, A c → K w → Takes e may w c w' r → K w') (hw : K w) :
    Always (Takes e may) K (fun _ _ => True) p w :=
  Always.of_asks (R := fun _ w' => K w') hp hw (fun _ _ _ _ hR hc hs => hA _ _ _ _ hc hR hs)
    (fun _ h => h) fun _ _ _ => trivial

theorem emit_bind {J : World → Prop} {Q : Except Raised α → World → Prop} {stage status : String}
    {f : Unit → Exec α} (hw : J w) (h : ∀ w', Same w w' → Always (Takes e may) J Q (f ()) w') :
    Always (Takes e may) J Q (emit stage status >>= f) w := by
  have hc : (Command.emit stage status).Idle := trivial
  exact ⟨hw, fun w' r hs => h w' (hs.same hc)⟩

theorem exec_always {J : World → Prop} {c : Command} {Q : Except Raised c.Answer → World → Prop}
    (hw : J w) (hok : ∀ a w', Takes e may w c w' (.ok a) → J w' ∧ Q (.ok a) w')
    (herr : ∀ x w', Takes e may w c w' (.error x) → J w' ∧ Q (.error ⟨x, none⟩) w') :
    Always (Takes e may) J Q (exec c) w := by
  refine ⟨hw, fun w' r hs => ?_⟩
  cases r with
  | ok a => exact hok a w' hs
  | error x => exact herr x w' hs

/-- An answer of a command without effect. -/
theorem idle_answer {c : Command} (hc : c.Idle) (w : World) :
    Always (Takes e may) (Same w) (fun o _ => ∀ a, o = .ok a → w.Answers e c a) (exec c) w := by
  refine exec_always (Same.refl w) (fun a w' h => ⟨h.same hc, ?_⟩)
    fun x w' h => ⟨h.same hc, by rintro _ ⟨⟩⟩
  rintro _ ⟨⟩
  exact h.answer.2.1

/-- `_traffic` of the service. -/
theorem traffic_always (w : World) :
    Always (Takes e may) (Same w)
      (fun o _ => (∀ rows, o = .ok rows → rows = w.serving) ∧
        ∀ x, o = .error x → x.error.isRollback = false) (traffic e.service) w := by
  have hc : (Command.traffic e.service).Idle := trivial
  refine Always.bind (exec_always (Same.refl w) (fun rows w' h => ⟨h.same hc, ?_⟩)
    fun x w' h => ⟨h.same hc, ?_, ?_⟩)
  · have hrows : rows = w.traffic := h.answer.2.1 rfl
    refine Always.ite (fun _ => .raise (h.same hc) ⟨?_, ?_⟩) fun _ => .pure (h.same hc) ⟨?_, ?_⟩
    · rintro _ ⟨⟩
    · rintro _ ⟨⟩
      rfl
    · rintro _ ⟨⟩
      rw [hrows]
      rfl
    · rintro _ ⟨⟩
  · rintro _ ⟨⟩
  · rintro _ ⟨⟩
    exact h.not_rollback

/-- Each row of the one list has a row of the other that it is related to. -/
def Described (R : α → β → Prop) (l : List α) (bs : List β) : Prop :=
  (∀ a ∈ l, ∃ b ∈ bs, R a b) ∧ ∀ b ∈ bs, ∃ a ∈ l, R a b

theorem collect_always {f : α → Exec β} {R : α → β → Prop}
    (hf : ∀ a w₁, Same w w₁ → Always (Takes e may) (Same w)
      (fun o _ => ∀ b, o = .ok b → R a b) (f a) w₁) :
    ∀ (l : List α) (w₁ : World), Same w w₁ → Always (Takes e may) (Same w)
      (fun o _ => ∀ bs, o = .ok bs → Described R l bs) (collect l f) w₁
  | [], w₁, h₁ => .pure h₁ (by rintro _ ⟨⟩; exact ⟨by simp, by simp⟩)
  | a :: l, w₁, h₁ => by
    refine Always.seq (hf a w₁ h₁) (fun _ h => h) (fun b w₂ h₂ hb => ?_)
      fun x _ _ _ => by rintro _ ⟨⟩
    refine Always.seq (collect_always hf l w₂ h₂) (fun _ h => h) (fun bs w₃ h₃ hbs => ?_)
      fun x _ _ _ => by rintro _ ⟨⟩
    refine .pure h₃ ?_
    rintro _ ⟨⟩
    have hd := hbs bs rfl
    have hab := hb b rfl
    constructor
    · intro a' ha'
      rcases List.mem_cons.1 ha' with rfl | ha'
      · exact ⟨b, List.mem_cons_self, hab⟩
      · obtain ⟨b', hb', hr⟩ := hd.1 a' ha'
        exact ⟨b', List.mem_cons_of_mem _ hb', hr⟩
    · intro b' hb'
      rcases List.mem_cons.1 hb' with rfl | hb'
      · exact ⟨a, List.mem_cons_self, hab⟩
      · obtain ⟨a', ha', hr⟩ := hd.2 b' hb'
        exact ⟨a', List.mem_cons_of_mem _ ha', hr⟩

theorem revision_always (name : String) {w₁ : World} (h₁ : Same w w₁) :
    Always (Takes e may) (Same w) (fun o _ => ∀ r, o = .ok r → w.revisions name = some r)
      (exec (.revision name)) w₁ := by
  have hc : (Command.revision name).Idle := trivial
  refine exec_always h₁ (fun r w₂ h => ⟨h₁.trans (h.same hc), ?_⟩)
    fun x w₂ h => ⟨h₁.trans (h.same hc), by rintro _ ⟨⟩⟩
  rintro _ ⟨⟩
  rw [← h₁.revisions]
  exact h.answer.2.1

/-- The revisions of a traffic map, each as it is. -/
theorem revisions_always (rows : Traffic) (w : World) :
    Always (Takes e may) (Same w) (fun o _ => ∀ rs, o = .ok rs →
        Described (fun row r => w.revisions row.1 = some r) rows rs)
      (collect rows fun row => exec (.revision row.1)) w :=
  collect_always (R := fun (row : String × ℕ) r => w.revisions row.1 = some r)
    (fun row _ h₁ => revision_always row.1 h₁) rows w (.refl w)

/-- `_previous_runtime` of a revision. -/
def RuntimeRow.of (r : Revision) : RuntimeRow :=
  ⟨r.sha.getD "", r.scope.getD "", r.resource.getD "", r.specSha256⟩

theorem previousRuntime_always (rows : Traffic) (w : World) :
    Always (Takes e may) (Same w) (fun o _ => ∀ rs, o = .ok rs →
        Described (fun row out => ∃ r, w.revisions row.1 = some r ∧
          out = (row.1, RuntimeRow.of r)) rows rs) (previousRuntime rows) w := by
  refine collect_always (R := fun (row : String × ℕ) out => ∃ r, w.revisions row.1 = some r ∧
    out = (row.1, RuntimeRow.of r)) (fun row w₁ h₁ => ?_) rows w (.refl w)
  refine Always.seq (revision_always row.1 h₁) (fun _ h => h) (fun r w₂ h₂ hr => ?_)
    fun x _ _ _ => by rintro _ ⟨⟩
  refine .pure h₂ ?_
  rintro _ ⟨⟩
  exact ⟨r, hr r rfl, rfl⟩

/-- A probe that succeeds shows what the tag behind its URL serves. -/
theorem runtimeReady_always (url sha : String) (candidate : Bool) (w : World) :
    Always (Takes e may) (Same w) (fun o _ => o = .ok () → w.Serves url sha)
      (runtimeReady e url sha candidate) w := by
  have hprobe : ∀ w₁, Same w w₁ → Always (Takes e may) (Same w)
      (fun o _ => o = .ok () → w.Serves url sha) (exec (.ready url sha candidate)) w₁ := by
    intro w₁ h₁
    have hc : (Command.ready url sha candidate).Idle := trivial
    refine exec_always h₁ (fun _ w₂ h => ⟨h₁.trans (h.same hc), fun _ => ?_⟩)
      fun x w₂ h => ⟨h₁.trans (h.same hc), by rintro ⟨⟩⟩
    have hs : w₁.Serves url sha := h.answer.2.1
    unfold World.Serves at hs ⊢
    rwa [h₁.tags, h₁.revisions] at hs
  have honce : ∀ w₁, Same w w₁ → Always (Takes e may) (Same w)
      (fun o _ => o = .ok () → w.Serves url sha) (runtimeReadyOnce e url sha candidate) w₁ := by
    intro w₁ h₁
    refine Always.ite (fun _ => ?_) fun _ => hprobe w₁ h₁
    refine Always.seq (idle_always (exec_asks (c := .serviceUrl) trivial) w₁)
      (fun _ h => h₁.trans h) (fun _ w₂ h₂ _ => ?_) fun x w₂ _ _ => by rintro ⟨⟩
    refine Always.seq (idle_always (exec_asks (c := .identityToken) trivial) w₂)
      (fun _ h => (h₁.trans h₂).trans h) (fun _ w₃ h₃ _ => ?_) fun x w₃ _ _ => by rintro ⟨⟩
    exact hprobe w₃ ((h₁.trans h₂).trans h₃)
  suffices h : ∀ n w₁, Same w w₁ → Always (Takes e may) (Same w)
      (fun o _ => o = .ok () → w.Serves url sha) (runtimeReadyAttempts e url sha candidate n) w₁
    from h 5 w (.refl w)
  intro n
  induction n with
  | zero => exact honce
  | succ n ih =>
    intro w₁ h₁
    refine Always.guard (honce w₁ h₁) (fun _ h => h) (fun _ _ _ h => h) fun x w₂ h₂ _ => ?_
    exact Always.ite (fun _ => ih w₂ h₂) fun _ => .raise h₂ (by rintro ⟨⟩)

end Idle

section Candidate

/-- The tag of a revision that exists. -/
def World.Tagged (w : World) (revision url : String) : Prop :=
  (w.revisions revision).isSome ∧ ∃ row ∈ w.tags, row.revision = revision ∧ row.url = url

/-- A revision of the release. -/
def World.Releases (w : World) (e : Env) (revision : String) : Prop :=
  ∃ r, w.revisions revision = some r ∧ r.sha = some e.releaseSha ∧ r.scope = some runtimeScope

theorem World.Tagged.same {revision url : String} (h : w.Tagged revision url) (hs : Same w w') :
    w'.Tagged revision url := by
  unfold World.Tagged
  rwa [hs.revisions, hs.tags]

theorem World.Tagged.releases {revision url : String} (h : w.Tagged revision url)
    (hs : w.Serves url e.releaseSha) : w.Releases e revision := by
  obtain ⟨hr, row, hrow, rfl, hu⟩ := h
  obtain ⟨r, hr⟩ := Option.isSome_iff_exists.1 hr
  exact ⟨r, hr, hs row hrow hu r hr⟩

theorem World.Releases.same {revision : String} (h : w.Releases e revision) (hs : Same w w') :
    w'.Releases e revision := by
  unfold World.Releases
  rwa [hs.revisions]

/-- `_deploy_candidate` moves no traffic, and returns the revision behind the tag. -/
theorem deployCandidate_always (image : String) (w : World) :
    Always (Takes e may) (Apart w) (fun o w' => ∀ c, o = .ok c → w'.Tagged c.1 c.2)
      (deployCandidate e image) w := by
  have hidle : ∀ {β : Type} {p : Exec β} {w₁ : World}, p.Asks Command.Idle → Apart w w₁ →
      Always (Takes e may) (Apart w) (fun _ w' => Same w₁ w') p w₁ := fun hp h₁ =>
    (idle_always hp _).mono (fun _ h => h₁.trans h.apart) fun _ _ h _ => h
  refine Always.seq (hidle (emit_asks trivial) (.refl w)) (fun _ h => h) (fun _ w₁ h₁ _ => ?_)
    fun x _ _ _ => by rintro _ ⟨⟩
  refine Always.seq (hidle (exec_asks (c := .check _) trivial) h₁) (fun _ h => h)
    (fun _ w₂ h₂ _ => ?_) fun x _ _ _ => by rintro _ ⟨⟩
  refine Always.bind (exec_always h₂ (fun _ w₃ h => ⟨h₂.trans h.update, ?_⟩)
    fun x _ h => ⟨h₂.trans h.update, by rintro _ ⟨⟩⟩)
  have h₃ := h₂.trans h.update
  have hc : Command.latestRevision.Idle := trivial
  refine Always.bind (exec_always h₃ (fun candidate w₄ h => ⟨h₃.trans (h.same hc).apart, ?_⟩)
    fun x _ h => ⟨h₃.trans (h.same hc).apart, by rintro _ ⟨⟩⟩)
  have h₄ := h₃.trans (h.same hc).apart
  have hlast : candidate = w₃.latest := h.answer.2.1
  have hexists : (w₄.revisions candidate).isSome := by
    rw [hlast, ← (h.same hc).latest]
    exact w₄.latestExists
  refine Always.bind (exec_always h₄ (fun _ w₅ h => ⟨h₄.trans h.tag, ?_⟩)
    fun x _ h => ⟨h₄.trans h.tag, by rintro _ ⟨⟩⟩)
  have h₅ := h₄.trans h.tag
  obtain ⟨-, -, made, url, hw₅⟩ := h.answer
  have htags : w₅.tags = ⟨candidateTag e, candidate, url⟩ ::
      w₄.tags.filter (·.tag ≠ candidateTag e) := by rw [hw₅]; rfl
  have htagged : w₅.Tagged candidate url :=
    ⟨by rw [hw₅]; exact hexists, _, by rw [htags]; exact List.mem_cons_self, rfl, rfl⟩
  have hc : Command.tags.Idle := trivial
  refine Always.bind (exec_always h₅ (fun rows w₆ h => ⟨h₅.trans (h.same hc).apart, ?_⟩)
    fun x _ h => ⟨h₅.trans (h.same hc).apart, by rintro _ ⟨⟩⟩)
  have h₆ := h₅.trans (h.same hc).apart
  have hrows : rows.find? (·.tag = candidateTag e) = some ⟨candidateTag e, candidate, url⟩ := by
    rw [show rows = w₅.tags from h.answer.2.1, htags]
    simp
  unfold Always.next
  simp only [hrows]
  refine Always.ite (fun _ => .raise h₆ (by rintro _ ⟨⟩)) fun _ => ?_
  refine Always.seq (hidle (emit_asks trivial) h₆) (fun _ h => h) (fun _ w₇ h₇ hs => ?_)
    fun x _ _ _ => by rintro _ ⟨⟩
  refine .pure h₇ ?_
  rintro _ ⟨⟩
  exact (htagged.same (h.same hc)).same hs

/-- `_candidate_facts` finds the tag of a revision that exists. -/
theorem candidateFacts_always (image revision url : String) (w : World) :
    Always (Takes e may) (Same w) (fun o _ => ∀ spec, o = .ok spec → w.Tagged revision url)
      (candidateFacts e image revision url) w := by
  refine Always.seq (idle_always (exec_asks (c := .check _) trivial) w) (fun _ h => h)
    (fun _ w₁ h₁ _ => ?_) fun x _ _ _ => by rintro _ ⟨⟩
  refine Always.seq (idle_answer (c := .revision revision) trivial w₁) (fun _ h => h₁.trans h)
    (fun r w₂ h₂ hr => ?_) fun x _ _ _ => by rintro _ ⟨⟩
  have h₂' := h₁.trans h₂
  have hr : w₁.revisions revision = some r := hr r rfl
  refine Always.ite (fun _ => .raise h₂' (by rintro _ ⟨⟩)) fun _ => ?_
  refine Always.seq (idle_answer (c := .tags) trivial w₂) (fun _ h => h₂'.trans h)
    (fun rows w₃ h₃ hrows => ?_) fun x _ _ _ => by rintro _ ⟨⟩
  have h₃' := h₂'.trans h₃
  have hrows : rows = w₂.tags := hrows rows rfl
  split
  · rename_i row hrow
    refine Always.ite (fun _ => .raise h₃' (by rintro _ ⟨⟩)) fun hne => .pure h₃' ?_
    rintro _ ⟨⟩
    have hmem : row ∈ rows := by
      have : row ∈ rows.filter (·.tag = candidateTag e) := by rw [hrow]; exact List.mem_cons_self
      exact (List.mem_filter.1 this).1
    refine ⟨?_, row, ?_, ?_⟩
    · rw [← h₁.revisions, hr]
      rfl
    · rw [← h₂'.tags, ← hrows]
      exact hmem
    · simpa [not_or] using hne
  · exact .raise h₃' (by rintro _ ⟨⟩)

end Candidate

end Executor
