import EngPlatform.Executor.Facts

/-!
# The restoration of the traffic

A deployment in which at most one command fails, however often, ends with all traffic on the
candidate, or with an exception and the traffic as it was.
-/

set_option linter.dupNamespace false

namespace Executor

open Interleave

/-- Commands whose failure is an answer: there is no image under the tag, there is no cache, and the
callback is lost. -/
def Command.isMiss : Command → Bool
  | .emit _ _ => true
  | .docker step => step = "pull" || step = "cache"
  | _ => false

/-- The commands that can fail, when `culprit` is the one that does. -/
def Fails (culprit : Option Command) (c : Command) : Prop := culprit = some c ∨ c.isMiss = true

instance (culprit : Option Command) : DecidablePred (Fails culprit) := fun c =>
  inferInstanceAs (Decidable (culprit = some c ∨ c.isMiss = true))

variable {e : Env} {culprit : Option Command} {may : Command → Prop} {w w' w'' w₀ w₁ : World}
variable {c : Command} {α β : Type} {P P' : Command → Prop}

section Steady

/-- Commands that do not move traffic. -/
def Command.Steady (c : Command) : Prop := ∀ t, c ≠ .setTraffic t

/-- The traffic is what it was. -/
structure Stays (w w' : World) : Prop where
  traffic : w'.traffic = w.traffic
  revisions : ∀ name r, w.revisions name = some r → w'.revisions name = some r
  log : w.log <+: w'.log

theorem Stays.refl (w : World) : Stays w w := ⟨rfl, fun _ _ h => h, List.prefix_rfl⟩

theorem Stays.trans (h : Stays w w') (h' : Stays w' w'') : Stays w w'' :=
  ⟨h'.traffic.trans h.traffic, fun n r hr => h'.revisions n r (h.revisions n r hr),
    h.log.trans h'.log⟩

theorem Stays.serving (h : Stays w w') : w'.serving = w.serving := by
  unfold World.serving
  rw [h.traffic]

theorem Stays.exists {name : String} (h : Stays w w') (hr : (w.revisions name).isSome) :
    (w'.revisions name).isSome := by
  obtain ⟨r, hr⟩ := Option.isSome_iff_exists.1 hr
  rw [h.revisions name r hr]
  rfl

theorem Apart.stays (h : Apart w w') : Stays w w' := by
  refine ⟨h.traffic, h.revisions, ?_⟩
  obtain ⟨cs, hl, -⟩ := h.log
  rw [hl]
  exact List.prefix_append _ _

theorem Takes.stays {r : c.Reply} (hc : c.Steady) (h : Takes e may w c w' r) : Stays w w' := by
  have hlog : w.log <+: w'.log := by
    rw [h.log]
    exact List.prefix_append _ _
  by_cases hi : c.Idle
  · exact (h.same hi).apart.stays
  · cases c with
    | updateService image suffix => exact h.update.stays
    | tagRevision tag revision => exact h.tag.stays
    | setTraffic t => exact absurd rfl (hc t)
    | grant a sha =>
      by_cases ha : a = .authorize
      · subst ha
        exact ⟨h.authorize.1, fun n r hr => by rw [h.authorize.2.1]; exact hr, hlog⟩
      · exact ⟨(h.withdraw ha).1, fun n r hr => by rw [(h.withdraw ha).2.1]; exact hr, hlog⟩
    | _ => exact absurd trivial hi

theorem Command.Idle.steady (h : c.Idle) : c.Steady := by
  rintro t rfl
  exact h

/-- A part that does not move traffic. -/
theorem steady_always {p : Exec α} (hp : p.Asks Command.Steady) (w : World) :
    Always (Takes e may) (Stays w) (fun _ _ => True) p w :=
  kept_always hp (fun _ _ _ _ hc h ht => h.trans (ht.stays hc)) (.refl w)

theorem runtimeGrant_steady (a : Action) (sha : String) :
    (runtimeGrant a sha).Asks Command.Steady :=
  .ite (fun _ => exec_asks (by rintro t ⟨⟩)) fun _ => refuse_asks _

theorem emit_steady (stage status : String) : (emit stage status).Asks Command.Steady :=
  emit_asks (by rintro t ⟨⟩)

theorem deployCandidate_steady (image : String) :
    (deployCandidate e image).Asks Command.Steady := by
  refine .bind (fun _ => .bind (fun _ => .bind (fun _ => .bind (fun candidate => .bind (fun _ =>
    .bind (fun rows => ?_) ?_) ?_) ?_) ?_) ?_) (emit_steady _ _)
  · split
    · exact .ite (fun _ => refuse_asks _) fun _ => .bind (fun _ => .pure _) (emit_steady _ _)
    · exact refuse_asks _
  all_goals exact exec_asks (by rintro t ⟨⟩)

theorem imageForTag_steady : (imageForTag e).Asks Command.Steady := by
  have hdocker : ∀ step, (exec (.docker step)).Asks Command.Steady := fun _ =>
    exec_asks (by rintro t ⟨⟩)
  have hlast : ∀ (digest : String) (message : String),
      (if "sha256:".toList.isPrefixOf digest.toList then pure (e.imageName ++ "@" ++ digest)
        else refuse message : Exec String).Asks Command.Steady := fun _ _ =>
    .ite (fun _ => .pure _) fun _ => refuse_asks _
  refine .bind (fun _ => .bind (fun existing => .ite (fun _ => ?_) fun _ => ?_) ?_) (hdocker _)
  · refine .bind (fun _ => .ite (fun _ => refuse_asks _) fun _ => ?_) (hdocker _)
    exact .bind (fun _ => hlast _ _) (hdocker _)
  · have hbuild : ∀ _ : Unit, (do
        let _ ← exec (.docker "build")
        let _ ← exec (.docker "push")
        let digest ← exec (.docker "digest")
        if "sha256:".toList.isPrefixOf digest.toList then pure (e.imageName ++ "@" ++ digest)
        else refuse "Artifact Registry did not return an immutable digest" :
          Exec String).Asks Command.Steady := fun _ =>
      .bind (fun _ => .bind (fun _ => .bind (fun _ => hlast _ _) (hdocker _)) (hdocker _))
        (hdocker _)
    refine .bind (fun cache => .ite (fun _ => .bind hbuild (emit_steady _ _)) fun _ => hbuild ()) ?_
    refine .handle (fun x => ?_) (hdocker _)
    split
    · exact .pure _
    · exact .raise _
  · refine .handle (fun x => ?_) (.bind (fun _ => .pure _) (hdocker _))
    split
    · exact .pure _
    · exact .raise _

end Steady

section Candid

/-- A program that raises nothing but the failure of one of the commands of `P`. -/
def Candid (P : Command → Prop) : Exec α → Prop
  | .done _ => True
  | .raise _ => False
  | .ask c k => (c.isMiss = true → ∀ r, Candid P (k r)) ∧
      (c.isMiss = false → P c ∧ ∀ a, Candid P (k (.ok a)))

/-- The command that fails is one of `P`. -/
def Blames (culprit : Option Command) (P : Command → Prop) : Prop := ∃ c, culprit = some c ∧ P c

theorem Candid.pure (a : α) : Candid P (Pure.pure a : Exec α) := trivial

theorem Candid.exec (hm : c.isMiss = false) (hc : P c) : Candid P (exec c) :=
  ⟨fun h => absurd (hm.symm.trans h) (by decide), fun _ => ⟨hc, fun _ => trivial⟩⟩

theorem Candid.bind {f : α → Exec β} (hf : ∀ a, Candid P (f a)) :
    ∀ {p : Exec α}, Candid P p → Candid P (p >>= f)
  | .done a, _ => hf a
  | .raise _, h => h.elim
  | .ask _ _, h => ⟨fun hm r => Candid.bind hf (h.1 hm r),
    fun hm => ⟨(h.2 hm).1, fun a => Candid.bind hf ((h.2 hm).2 a)⟩⟩

theorem Candid.handle {g : Raised → Exec α} :
    ∀ {p : Exec α}, Candid P p → Candid P (p.handle g)
  | .done _, h => h
  | .raise _, h => h.elim
  | .ask _ _, h => ⟨fun hm r => Candid.handle (h.1 hm r),
    fun hm => ⟨(h.2 hm).1, fun a => Candid.handle ((h.2 hm).2 a)⟩⟩

theorem Candid.ite {b : Prop} [Decidable b] {p q : Exec α} (hp : b → Candid P p)
    (hq : ¬b → Candid P q) : Candid P (if b then p else q) := by
  by_cases hb : b
  · rw [if_pos hb]
    exact hp hb
  · rw [if_neg hb]
    exact hq hb

theorem Candid.emit (stage status : String) : Candid P (emit stage status) :=
  ⟨fun _ _ => trivial, by rintro ⟨⟩⟩

theorem Candid.each {f : α → Exec Unit} : ∀ {l : List α}, (∀ a ∈ l, Candid P (f a)) →
    Candid P (each l f)
  | [], _ => trivial
  | _ :: _, h => Candid.bind (fun _ => Candid.each fun a ha => h a (List.mem_cons_of_mem _ ha))
      (h _ List.mem_cons_self)

/-- What it raises is blamed on its commands, when these find what they need. -/
theorem candid_always (hP : ∀ c (w : World), P c → w.Possible e c) {p : Exec α} (hp : Candid P p)
    (w : World) : Always (Takes e (Fails culprit)) (fun _ => True)
      (fun o _ => ∀ x, o = .error x → Blames culprit P) p w := by
  induction p generalizing w with
  | done a => exact ⟨trivial, by rintro _ ⟨⟩⟩
  | raise x => exact hp.elim
  | ask c k ih =>
    refine ⟨trivial, fun w' r hs => ?_⟩
    cases hm : c.isMiss with
    | true => exact ih r (hp.1 hm r) w'
    | false =>
      obtain ⟨hc, hk⟩ := hp.2 hm
      rcases r with x | a
      · have hblame : Blames culprit P := by
          cases hs with
          | fails x hx h =>
            rcases h with (h | h) | h
            · exact ⟨c, h, hc⟩
            · rw [hm] at h
              cases h
            · exact absurd (hP c w hc) h
          | lost x made url hx h _ =>
            rcases h with h | h
            · exact ⟨c, h, hc⟩
            · rw [hm] at h
              cases h
        exact Always.of_asks (R := fun _ _ => True) (.any _) trivial
          (fun _ _ _ _ _ _ _ => trivial) (fun _ _ => trivial) fun _ _ _ _ _ => hblame
      · exact ih _ (hk a) w'

/-- A candid part that moves no traffic, and what follows it. -/
theorem candid_bind (hP : ∀ c (w : World), P c → w.Possible e c) {p : Exec α} {f : α → Exec β}
    {Q : Except Raised β → World → Prop} (hp : Candid P p) (hs : p.Asks Command.Steady)
    (herr : ∀ x w', Stays w w' → Blames culprit P → Q (.error x) w')
    (hok : ∀ a w', Stays w w' →
      Always (Takes e (Fails culprit)) (fun _ => True) Q (f a) w') :
    Always (Takes e (Fails culprit)) (fun _ => True) Q (p >>= f) w :=
  Always.seq ((candid_always hP hp w).and (steady_always hs w)) (fun _ _ => trivial)
    (fun a w' hs' _ => hok a w' hs'.2) fun x w' hs' h => herr x w' hs'.2 (h.1 x rfl)

/-- The commands after the traffic was moved. -/
def Forward : Command → Prop
  | .serviceUrl | .identityToken | .ready _ _ _ | .smoke _ | .sleep | .boundary _ _ | .hook _ =>
    True
  | .grant a _ => a ≠ .authorize
  | _ => False

theorem forward_possible (c : Command) (w : World) (h : Forward c) : w.Possible e c := by
  cases c <;> trivial

theorem Forward.steady (h : Forward c) : c.Steady := by
  rintro t rfl
  exact h

theorem runtimeReady_candid (url sha : String) (candidate : Bool) :
    Candid Forward (runtimeReady e url sha candidate) := by
  have honce : Candid Forward (runtimeReadyOnce e url sha candidate) := by
    refine Candid.ite (fun _ => ?_) fun _ => Candid.exec rfl trivial
    refine Candid.bind (fun _ => Candid.bind (fun _ => ?_) ?_) ?_
    · exact Candid.exec rfl trivial
    · exact Candid.exec rfl trivial
    · exact Candid.exec rfl trivial
  exact Candid.handle honce

theorem smokeAttempts_candid (url : String) : ∀ n, Candid Forward (smokeAttempts url n)
  | 0 => trivial
  | n + 1 => by
    have ih := smokeAttempts_candid url n
    exact Candid.bind (fun _ => Candid.ite (fun _ => Candid.pure ()) fun _ => ih)
      (Candid.handle (Candid.exec rfl trivial))

theorem smoke_candid (url : String) : Candid Forward (smoke e url) := by
  refine Candid.ite (fun _ => ?_) fun _ => smokeAttempts_candid url 5
  refine Candid.bind (fun _ => Candid.bind (fun _ => smokeAttempts_candid url 5) ?_) ?_
  · exact Candid.exec rfl trivial
  · exact Candid.exec rfl trivial

theorem runHooks_candid (names : List String) : Candid Forward (runHooks names) :=
  Candid.each (f := fun name => exec (.hook name)) fun _ _ => Candid.exec rfl trivial

theorem verifyPrivateBoundary_candid (url : String) :
    Candid Forward (verifyPrivateBoundary e url) := by
  refine Candid.ite (fun _ => ?_) fun _ => trivial
  refine Candid.bind (fun _ => Candid.bind (fun _ => ?_) ?_) ?_
  · exact Candid.exec rfl trivial
  · exact Candid.exec rfl trivial
  · exact Candid.exec rfl trivial

theorem runtimeGrant_candid {a : Action} {sha : String} (hx : exactCommit sha = true)
    (hP : P (.grant a sha)) : Candid P (runtimeGrant a sha) :=
  Candid.ite (fun _ => Candid.exec rfl hP) fun h => absurd hx h

end Candid

section Recovery

variable {previous : Traffic}

def Authorizes : Command → Prop
  | .grant a _ => a = .authorize
  | _ => False

/-- The commands of a recovery up to the move of the traffic. -/
def Backward (previous : Traffic) (c : Command) : Prop := Authorizes c ∨ c = .setTraffic previous

theorem authorizes_possible (c : Command) (w : World) (h : Authorizes c) : w.Possible e c := by
  cases c <;> trivial

/-- A traffic map that can be set, and that sets what was read. -/
def World.Restorable (w : World) (previous : Traffic) : Prop :=
  (∀ row ∈ previous, (w.revisions row.1).isSome) ∧ previous.filter (0 < ·.2) = previous

theorem World.Restorable.stays (h : w.Restorable previous) (hs : Stays w w') :
    w'.Restorable previous := ⟨fun row hrow => hs.exists (h.1 row hrow), h.2⟩

theorem World.restorable_serving (w : World) : w.Restorable w.serving := by
  refine ⟨fun row hrow => w.exist row (List.mem_filter.1 hrow).1, ?_⟩
  unfold World.serving
  rw [List.filter_filter]
  simp

/-- A part that moves no traffic keeps what serves. -/
theorem serving_always {p : Exec α} (hp : p.Asks Command.Steady) (h : w.serving = previous) :
    Always (Takes e may) (fun _ => True) (fun _ w' => w'.serving = previous) p w :=
  (steady_always hp w).mono (fun _ _ => trivial) fun _ _ hs _ => hs.serving.trans h

/-- The traffic is moved back. -/
theorem move_back {Q : Except Raised α → World → Prop} {f : Unit → Exec α}
    (hw : w.Restorable previous) (hb : ¬Blames culprit (Backward previous))
    (hok : ∀ w', w'.serving = previous →
      Always (Takes e (Fails culprit)) (fun _ => True) Q (f ()) w') :
    Always (Takes e (Fails culprit)) (fun _ => True) Q (exec (.setTraffic previous) >>= f) w := by
  have hnot : ¬Fails culprit (.setTraffic previous) := by
    rintro (h | h)
    · exact hb ⟨_, h, .inr rfl⟩
    · cases h
  refine Always.bind (exec_always trivial (fun _ w' hs => ⟨trivial, hok w' ?_⟩) fun x w' hs => ?_)
  · unfold World.serving
    rw [hs.moved]
    exact hw.2
  · cases hs with
    | fails x hx h => exact absurd hw.1 (h.resolve_left hnot)
    | lost x made url hx h _ => exact absurd h hnot

/-- The end of a recovery moves no traffic. -/
theorem revoke_steady (shas : List String) (granted promoted : Bool) :
    (do
      if granted ∧ e.releaseSha ∉ shas then runtimeGrant .revoke e.releaseSha else pure ()
      if promoted then emit "rollback" "succeeded" else pure () : Exec Unit).Asks
        Command.Steady := by
  have hemit : ∀ _ : Unit, (if promoted then emit "rollback" "succeeded" else pure () :
      Exec Unit).Asks Command.Steady := fun _ => .ite (fun _ => emit_steady _ _) fun _ => .pure ()
  exact .ite (fun _ => .bind hemit (runtimeGrant_steady _ _)) fun _ => hemit ()

/-- The recovery of a promotion, when none of its commands up to the move fails. -/
theorem restoreGranted_serving {authorize : Exec Unit} {message : String} {shas : List String}
    {granted : Bool} (hauth : Candid Authorizes authorize) (hsteady : authorize.Asks Command.Steady)
    (hw : w.Restorable previous) (hb : ¬Blames culprit (Backward previous)) :
    Always (Takes e (Fails culprit)) (fun _ => True) (fun _ w' => w'.serving = previous)
      (restoreGranted e authorize previous message shas granted true) w := by
  refine candid_bind authorizes_possible hauth hsteady (fun x w' _ hblame => ?_) fun _ w' hs =>
    move_back (hw.stays hs) hb fun w₂ h₂ => ?_
  · obtain ⟨c, hc, ha⟩ := hblame
    exact absurd ⟨c, hc, .inl ha⟩ hb
  · refine serving_always ?_ h₂
    refine .bind (fun current => ?_) ((traffic_asks _).mono fun _ h => h.steady)
    exact .ite (fun _ => .bind (fun _ => revoke_steady _ _ _) (refuse_asks _)) fun _ =>
      revoke_steady _ _ _

/-- Nothing moves the traffic but a move to what serves already. -/
theorem back_always {p : Exec α}
    (hp : p.Asks fun c => c.Steady ∨ c = .setTraffic previous) (hw : w.Restorable previous)
    (h : w.serving = previous) :
    Always (Takes e may) (fun _ => True) (fun _ w' => w'.serving = previous) p w := by
  refine (kept_always (K := fun w' => w'.serving = previous) hp ?_ h).mono (fun _ _ => trivial)
    fun _ _ h _ => h
  rintro w₁ c w₂ r (hc | rfl) h₁ hs
  · exact (hs.stays hc).serving.trans h₁
  · unfold World.serving at h₁ ⊢
    rcases hs.move.1 with ht | ht <;> rw [ht]
    · exact h₁
    · exact hw.2

theorem restoreGranted_asks {authorize : Exec Unit} {message : String} {shas : List String}
    {granted promoted : Bool} (hsteady : authorize.Asks Command.Steady) :
    (restoreGranted e authorize previous message shas granted promoted).Asks
      fun c => c.Steady ∨ c = .setTraffic previous := by
  have hrest := (revoke_steady (e := e) shas granted promoted).mono
    fun c h => (.inl h : c.Steady ∨ c = .setTraffic previous)
  refine .ite (fun _ => ?_) fun _ => hrest
  refine .bind (fun _ => .bind (fun _ => .bind (fun current => .ite (fun _ =>
    .bind (fun _ => hrest) (refuse_asks _)) fun _ => hrest) ?_) (exec_asks (.inr rfl))) ?_
  · exact (traffic_asks _).mono fun _ h => .inl h.steady
  · exact hsteady.mono fun _ h => .inl h

/-- A program that never returns. -/
def Raises : Exec α → Prop
  | .done _ => False
  | .raise _ => True
  | .ask _ k => ∀ r, Raises (k r)

theorem Raises.raise (x : Raised) : Raises (.raise x : Exec α) := trivial

theorem Raises.bind {f : α → Exec β} (hf : ∀ a, Raises (f a)) :
    ∀ p : Exec α, Raises (p >>= f)
  | .done a => hf a
  | .raise _ => trivial
  | .ask _ k => fun r => Raises.bind hf (k r)

theorem raises_always : ∀ {p : Exec α} {w : World}, Raises p →
    Always (Takes e may) (fun _ => True) (fun o _ => ∃ x, o = .error x) p w
  | .done _, _, h => h.elim
  | .raise x, _, _ => ⟨trivial, x, rfl⟩
  | .ask _ _, _, h => ⟨trivial, fun _ r _ => raises_always (h r)⟩

theorem reraise_raises (promoted : Bool) (message : String) (x : Raised) :
    Raises (reraise promoted message x : Exec α) := by
  unfold reraise
  split <;> trivial

theorem reraise_steady (promoted : Bool) (message : String) (x : Raised) :
    (reraise promoted message x : Exec α).Asks P := by
  unfold reraise
  split <;> trivial

end Recovery

section Deployments

variable {candidate : String}

/-- What a deployment from `w` ends with. -/
def Settled (w : World) : Except Raised Result → World → Prop
  | .ok r, w' => (∃ cs, w'.log = w.log ++ cs ∧ .emit "validate-production" "succeeded" ∈ cs) ∧
      w'.serving = [(r.candidateRevision, 100)]
  | .error _, w' => w'.serving = w.serving

/-- Every runtime that receives traffic has an exact commit. -/
def World.Exact (w : World) : Prop :=
  ∀ row ∈ w.serving, ∀ r, w.revisions row.1 = some r → isRuntime r = true →
    exactCommit (r.sha.getD "") = true

theorem retireConfigs_candid {configs : List Revision}
    (h : ∀ r ∈ configs, isRuntime r = true → exactCommit (r.sha.getD "") = true) :
    Candid Forward (retireConfigs e configs) := by
  refine Candid.each fun r hr => Candid.ite (fun hi => ?_) fun _ => Candid.pure ()
  exact runtimeGrant_candid (h r hr (Bool.and_eq_true_iff.1 hi).1) nofun

theorem authorizeConfigs_candid {configs : List Revision}
    (h : ∀ r ∈ configs, isRuntime r = true → exactCommit (r.sha.getD "") = true) :
    Candid Authorizes (authorizeConfigs configs) := by
  refine Candid.each fun r hr => Candid.ite (fun hi => ?_) fun _ => Candid.pure ()
  have hx := h r hr hi
  rcases hs : r.sha with _ | sha
  · rw [hs] at hx
    exact absurd hx (by decide)
  · rw [hs] at hx
    exact runtimeGrant_candid hx rfl

theorem authorizeConfigs_steady (configs : List Revision) :
    (authorizeConfigs configs).Asks Command.Steady := by
  refine each_asks fun r _ => .ite (fun _ => ?_) fun _ => .pure ()
  rcases r.sha with _ | sha
  · exact .raise _
  · exact runtimeGrant_steady _ _

theorem retireStaged_candid {c : Continuation}
    (h : ∀ row ∈ c.previousRuntime, row.2.scope = runtimeScope →
      exactCommit row.2.sha = true) : Candid Forward (retireStaged e c) := by
  refine Candid.each fun row hrow => Candid.ite (fun hi => ?_) fun _ => Candid.pure ()
  exact runtimeGrant_candid (h row hrow hi.1) nofun

theorem authorizeStaged_candid {c : Continuation}
    (h : ∀ row ∈ c.previousRuntime, row.2.scope = runtimeScope →
      exactCommit row.2.sha = true) : Candid Authorizes (authorizeStaged e c) := by
  refine Candid.each fun row hrow => Candid.ite (fun hi => ?_) fun _ => Candid.pure ()
  exact runtimeGrant_candid (h row hrow (by simpa using (Bool.and_eq_true_iff.1 hi).2)) rfl

theorem authorizeStaged_steady (c : Continuation) :
    (authorizeStaged e c).Asks Command.Steady :=
  each_asks fun _ _ => .ite (fun _ => runtimeGrant_steady _ _) fun _ => .pure ()

/-- Where a promotion leads from `w`. -/
structure Later (w w' : World) : Prop where
  revisions : ∀ name r, w.revisions name = some r → w'.revisions name = some r
  log : w.log <+: w'.log

theorem Stays.later (h : Stays w w') : Later w w' := ⟨h.revisions, h.log⟩

theorem Later.trans (h : Later w w') (h' : Later w' w'') : Later w w'' :=
  ⟨fun n r hr => h'.revisions n r (h.revisions n r hr), h.log.trans h'.log⟩

theorem Later.restorable (h : Later w w') (hw : w.Restorable previous) :
    w'.Restorable previous := by
  refine ⟨fun row hrow => ?_, hw.2⟩
  obtain ⟨r, hr⟩ := Option.isSome_iff_exists.1 (hw.1 row hrow)
  rw [h.revisions _ r hr]
  rfl

theorem Takes.later {t : Traffic} {r : (Command.setTraffic t).Reply}
    (h : Takes e may w (.setTraffic t) w' r) : Later w w' := by
  refine ⟨fun n v hv => by rw [h.move.2.1]; exact hv, ?_⟩
  rw [h.log]
  exact List.prefix_append _ _

/-- The commands of a promotion that can be blamed for its failure. -/
def Promotes (candidate : String) (c : Command) : Prop :=
  Forward c ∨ c = .setTraffic [(candidate, 100)]

/-- A handler that always raises brings the traffic back: none of its commands up to the move is the
one that failed, or the candidate has the traffic that is brought back. -/
theorem turn_back {p : Exec α} (hraises : Raises p)
    (hasks : p.Asks fun c => c.Steady ∨ c = .setTraffic previous) (hw : w.Restorable previous)
    (hserving : w.serving = previous ∨ w.serving = [(candidate, 100)])
    (hblame : Blames culprit (Promotes candidate))
    (hok : ¬Blames culprit (Backward previous) →
      Always (Takes e (Fails culprit)) (fun _ => True) (fun _ w' => w'.serving = previous) p w) :
    Always (Takes e (Fails culprit)) (fun _ => True)
      (fun o w' => (∃ x, o = .error x) ∧ w'.serving = previous) p w := by
  have hserves : Always (Takes e (Fails culprit)) (fun _ => True)
      (fun _ w' => w'.serving = previous) p w := by
    by_cases hb : Blames culprit (Backward previous)
    · obtain ⟨c, rfl, hc⟩ := hblame
      obtain ⟨c', hc', hback⟩ := hb
      cases hc'
      refine back_always hasks hw ?_
      rcases hback with ha | rfl
      · rcases hc with hf | rfl
        · cases c <;> first | exact ha.elim | exact absurd ha hf
        · exact ha.elim
      · rcases hc with hf | heq
        · exact hf.elim
        · cases heq
          exact hserving.elim id id
    · exact hok hb
  exact ((raises_always hraises).and hserves).mono (fun _ _ => trivial) fun _ _ _ h => h

/-- What the part of a promotion after the move ends with. -/
def Forwarded (culprit : Option Command) (candidate : String) (w : World) :
    Except Raised Result → World → Prop
  | .ok r, w' => Settled w (.ok r) w'
  | .error _, w' => Later w w' ∧ w'.serving = [(candidate, 100)] ∧ Blames culprit Forward

/-- The part of a `try` that moves the traffic, with its handler. -/
theorem second_always {f : Unit → Exec Result} {g : Raised → Exec Result} (h : Stays w₁ w)
    (hcand : (w.revisions candidate).isSome)
    (hf : ∀ w', Later w₁ w' → w'.serving = [(candidate, 100)] →
      Always (Takes e (Fails culprit)) (fun _ => True) (Forwarded culprit candidate w₁) (f ()) w')
    (hg : ∀ x w', Later w₁ w' → w'.serving = w₁.serving ∨ w'.serving = [(candidate, 100)] →
      Blames culprit (Promotes candidate) →
      Always (Takes e (Fails culprit)) (fun _ => True)
        (fun o w'' => (∃ y, o = .error y) ∧ w''.serving = w₁.serving) (g x) w') :
    Always (Takes e (Fails culprit)) (fun _ => True) (Settled w₁)
      ((exec (.setTraffic [(candidate, 100)]) >>= f).handle g) w := by
  have hback : ∀ x w', Later w₁ w' → w'.serving = w₁.serving ∨ w'.serving = [(candidate, 100)] →
      Blames culprit (Promotes candidate) →
      Always (Takes e (Fails culprit)) (fun _ => True) (Settled w₁) (g x) w' := by
    intro x w' hl hs hb
    refine (hg x w' hl hs hb).mono (fun _ h => h) ?_
    rintro o w'' - ⟨⟨y, rfl⟩, hs⟩
    exact hs
  refine Always.handle (Always.bind (exec_always trivial (fun _ w' hs => ⟨trivial, ?_⟩)
    fun x w' hs => ⟨trivial, ?_⟩))
  · have hserving : w'.serving = [(candidate, 100)] := by
      unfold World.serving
      rw [hs.moved]
      rfl
    refine (hf w' (h.later.trans hs.later) hserving).mono (fun _ h => h) fun o w'' _ ho => ?_
    rcases o with x | r
    · obtain ⟨hl, hs, c, hc, hb⟩ := ho
      exact hback x w'' hl (.inr hs) ⟨c, hc, .inl hb⟩
    · exact ho
  · refine hback _ w' (h.later.trans hs.later) ?_ ?_
    · unfold World.serving
      rcases hs.move.1 with ht | ht <;> rw [ht]
      · exact .inl h.serving
      · exact .inr rfl
    · have hposs : w.Possible e (.setTraffic [(candidate, 100)]) := by
        intro row hrow
        rw [List.mem_singleton] at hrow
        subst hrow
        exact hcand
      cases hs with
      | fails x hx hm =>
        rcases hm with (hm | hm) | hm
        · exact ⟨_, hm, .inr rfl⟩
        · cases hm
        · exact absurd hposs hm
      | lost x made url hx hm _ =>
        rcases hm with hm | hm
        · exact ⟨_, hm, .inr rfl⟩
        · cases hm

theorem forward_bind {p : Exec α} {f : α → Exec Result} (hp : Candid Forward p)
    (hs : p.Asks Command.Steady) (hl : Later w₁ w) (hw : w.serving = [(candidate, 100)])
    (hf : ∀ a w', Later w₁ w' → w'.serving = [(candidate, 100)] →
      Always (Takes e (Fails culprit)) (fun _ => True) (Forwarded culprit candidate w₁) (f a) w') :
    Always (Takes e (Fails culprit)) (fun _ => True) (Forwarded culprit candidate w₁) (p >>= f)
      w :=
  candid_bind forward_possible hp hs
    (fun _ _ h hb => ⟨hl.trans h.later, h.serving.trans hw, hb⟩)
    fun a w' h => hf a w' (hl.trans h.later) (h.serving.trans hw)

/-- The end of a promotion. -/
theorem finish_always {r : Result} (hr : r.candidateRevision = candidate) (hl : Later w₁ w)
    (hw : w.serving = [(candidate, 100)]) :
    Always (Takes e (Fails culprit)) (fun _ => True) (Forwarded culprit candidate w₁)
      (emit "validate-production" "succeeded" >>= fun _ => pure r) w := by
  refine ⟨trivial, fun _ x hs => .pure trivial ⟨?_, ?_⟩⟩
  · obtain ⟨cs, hcs⟩ := hl.log
    exact ⟨cs ++ [_], by rw [hs.log, ← hcs, List.append_assoc], by simp⟩
  · have hc : (Command.emit "validate-production" "succeeded").Idle := trivial
    rw [(hs.same hc).apart.serving, hw, hr]

theorem Settled.stays {o : Except Raised Result} (h : Settled w₁ o w') (hs : Stays w w₁) :
    Settled w o w' := by
  rcases o with x | r
  · exact Eq.trans h hs.serving
  · obtain ⟨⟨cs, hcs, hm⟩, hserving⟩ := h
    obtain ⟨cs', hcs'⟩ := hs.log
    refine ⟨⟨cs' ++ cs, ?_, List.mem_append_right _ hm⟩, hserving⟩
    rw [hcs, ← hcs', List.append_assoc]

/-- A part that moves no traffic, with its handler. -/
theorem handled_bind {first : Exec α} {f : α → Exec Result} {g : Raised → Exec α}
    {Q : Except Raised α → World → Prop}
    (hfirst : Always (Takes e (Fails culprit)) (Stays w) Q first w) (hraises : ∀ x, Raises (g x))
    (hasks : ∀ x, (g x).Asks fun c => c.Steady ∨ c = .setTraffic w.serving)
    (hf : ∀ a w', Stays w w' → Q (.ok a) w' →
      Always (Takes e (Fails culprit)) (fun _ => True) (Settled w') (f a) w') :
    Always (Takes e (Fails culprit)) (fun _ => True) (Settled w) (first.handle g >>= f) w := by
  refine Always.bind (Always.guard hfirst (fun _ _ => trivial) (fun a w' hs hq => ?_)
    fun x w' hs _ => ?_)
  · exact (hf a w' hs hq).mono (fun _ h => h) fun _ _ _ h => h.stays hs
  · have hw : w'.Restorable w.serving := w.restorable_serving.stays hs
    refine ((raises_always (hraises x)).and (back_always (hasks x) hw hs.serving)).mono
      (fun _ _ => trivial) ?_
    rintro o w'' - ⟨⟨y, rfl⟩, hs'⟩
    exact hs'

theorem recoverRuntime_raises (configs : List Revision) (promoted : Bool) (x : Raised) :
    Raises (recoverRuntime e previous configs promoted x : Exec α) :=
  Raises.bind (fun _ => reraise_raises _ _ _) _

theorem recoverRuntime_asks (configs : List Revision) (promoted : Bool) (x : Raised) :
    (recoverRuntime e previous configs promoted x : Exec α).Asks
      fun c => c.Steady ∨ c = .setTraffic previous := by
  refine .bind (fun _ => reraise_steady _ _ _) (.handle (fun _ => .raise _) ?_)
  exact .bind (fun _ => restoreGranted_asks (authorizeConfigs_steady configs))
    (emit_asks (.inl (by rintro t ⟨⟩)))

theorem recoverStaged_raises (c : Continuation) (promoted : Bool) (x : Raised) :
    Raises (recoverStaged e c promoted x : Exec α) :=
  Raises.bind (fun _ => reraise_raises _ _ _) _

theorem recoverStaged_asks (c : Continuation) (promoted : Bool) (x : Raised) :
    (recoverStaged e c promoted x : Exec α).Asks
      fun c' => c'.Steady ∨ c' = .setTraffic c.previousTraffic :=
  .bind (fun _ => reraise_steady _ _ _)
    (.handle (fun _ => .raise _) (restoreGranted_asks (authorizeStaged_steady c)))

/-- What is raised after a recovery leaves the traffic as the recovery did. -/
theorem reraise_serving {restore : Exec Unit} {x : Raised} {message : String} {promoted : Bool}
    (h : Always (Takes e may) (fun _ => True) (fun _ w' => w'.serving = previous) restore w) :
    Always (Takes e may) (fun _ => True) (fun _ w' => w'.serving = previous)
      (during x restore >>= fun _ => (reraise promoted message x : Exec α)) w := by
  refine Always.bind (Always.guard h (fun _ _ => trivial) (fun _ w' _ hs => ?_)
    fun y w' _ hs => .raise trivial hs)
  exact serving_always (reraise_steady _ _ _) hs

theorem retireConfigs_steady (configs : List Revision) :
    (retireConfigs e configs).Asks Command.Steady :=
  each_asks fun _ _ => .ite (fun _ => runtimeGrant_steady _ _) fun _ => .pure ()

theorem retireStaged_steady (c : Continuation) : (retireStaged e c).Asks Command.Steady :=
  each_asks fun _ _ => .ite (fun _ => runtimeGrant_steady _ _) fun _ => .pure ()

theorem promoteRuntime_settled {configs : List Revision} {url image : String}
    (hcand : (w₁.revisions candidate).isSome)
    (hx : ∀ r ∈ configs, isRuntime r = true → exactCommit (r.sha.getD "") = true) :
    Always (Takes e (Fails culprit)) (fun _ => True) (Settled w₁)
      (promoteRuntime e w₁.serving configs candidate url image) w₁ := by
  refine handled_bind (steady_always ?_ w₁) (fun x => recoverRuntime_raises configs false x)
    (fun x => recoverRuntime_asks configs false x) fun _ w hs _ => ?_
  · refine .bind (fun _ => .bind (fun _ => .bind (fun _ => emit_steady _ _) (emit_steady _ _)) ?_)
      (runtimeGrant_steady _ _)
    exact (runtimeReady_asks _ _ _).mono fun _ h => h.steady
  rw [← hs.serving]
  refine second_always (.refl w) (hs.exists hcand) (fun w₂ hl hw => ?_) fun x w₂ hl hw hb => ?_
  · refine forward_bind (Candid.emit _ _) (emit_steady _ _) hl hw fun _ w₃ hl hw => ?_
    refine forward_bind (Candid.exec rfl trivial) (exec_asks (by rintro t ⟨⟩)) hl hw
      fun production w₄ hl hw => ?_
    refine forward_bind (Candid.emit _ _) (emit_steady _ _) hl hw fun _ w₅ hl hw => ?_
    refine forward_bind (runtimeReady_candid _ _ _)
      ((runtimeReady_asks _ _ _).mono fun _ h => h.steady) hl hw fun _ w₆ hl hw => ?_
    refine forward_bind (retireConfigs_candid hx) (retireConfigs_steady configs) hl hw
      fun _ w₇ hl hw => finish_always rfl hl hw
  · have hr := hl.restorable w.restorable_serving
    refine turn_back (recoverRuntime_raises configs true x) (recoverRuntime_asks configs true x) hr
      hw hb fun hn => reraise_serving ?_
    refine emit_bind trivial fun w₃ h₃ => ?_
    exact restoreGranted_serving (authorizeConfigs_candid hx) (authorizeConfigs_steady configs)
      (hr.stays h₃.apart.stays) hn

theorem promoteStaged_settled {c : Continuation} (hcand : (w₁.revisions c.candidateRevision).isSome)
    (hprev : c.previousTraffic = w₁.serving)
    (hx : ∀ row ∈ c.previousRuntime, row.2.scope = runtimeScope → exactCommit row.2.sha = true) :
    Always (Takes e (Fails culprit)) (fun _ => True) (Settled w₁) (promoteStaged e c) w₁ := by
  have hready : ∀ url candidate, (runtimeReady e url e.releaseSha candidate).Asks Command.Steady :=
    fun _ _ => (runtimeReady_asks _ _ _).mono fun _ h => h.steady
  have hhooks : ∀ names, (runHooks names).Asks Command.Steady := fun names =>
    (runHooks_asks names).mono fun _ h => h.steady
  have hasks : ∀ {β : Type} (promoted : Bool) (x : Raised),
      (recoverStaged e c promoted x : Exec β).Asks
        fun c => c.Steady ∨ c = .setTraffic w₁.serving := by
    intro β promoted x
    rw [← hprev]
    exact recoverStaged_asks c promoted x
  refine handled_bind (steady_always ?_ w₁) (fun x => recoverStaged_raises c false x) (hasks false)
    fun _ w hs _ => ?_
  · refine .ite (fun _ => .bind (fun _ => .bind (fun _ => ?_) (hready _ _))
      (runtimeGrant_steady _ _)) fun _ => ?_
    · exact .bind (fun _ => emit_steady _ _) (hhooks _)
    · exact .bind (fun _ => emit_steady _ _) (hhooks _)
  rw [← hs.serving] at hprev hasks
  refine second_always (.refl w) (hs.exists hcand) (fun w₂ hl hw => ?_) fun x w₂ hl hw hb => ?_
  · refine forward_bind (Candid.emit _ _) (emit_steady _ _) hl hw fun _ w₃ hl hw => ?_
    refine forward_bind (Candid.exec rfl trivial) (exec_asks (by rintro t ⟨⟩)) hl hw
      fun production w₄ hl hw => ?_
    refine forward_bind (Candid.emit _ _) (emit_steady _ _) hl hw fun _ w₅ hl hw => ?_
    refine forward_bind (verifyPrivateBoundary_candid _)
      ((verifyPrivateBoundary_asks _).mono fun _ h => h.steady) hl hw fun _ w₆ hl hw => ?_
    refine Always.ite (fun _ => ?_) fun _ => ?_
    · refine forward_bind (runtimeReady_candid _ _ _) (hready _ _) hl hw fun _ w₇ hl hw => ?_
      exact forward_bind (retireStaged_candid hx) (retireStaged_steady c) hl hw
        fun _ w₈ hl hw => finish_always rfl hl hw
    · refine forward_bind (smoke_candid _) ((smoke_asks _).mono fun _ h => h.steady) hl hw
        fun _ w₇ hl hw => ?_
      exact forward_bind (runHooks_candid _) (hhooks _) hl hw
        fun _ w₈ hl hw => finish_always rfl hl hw
  · have hr := hl.restorable w.restorable_serving
    refine turn_back (recoverStaged_raises c true x) (hasks true x) hr hw hb fun hn =>
      reraise_serving ?_
    unfold restoreStaged
    rw [hprev]
    exact restoreGranted_serving (authorizeStaged_candid hx) (authorizeStaged_steady c) hr hn

theorem restoreService_asks (promoted : Bool) :
    (restoreService e previous promoted).Asks fun c => c.Steady ∨ c = .setTraffic previous := by
  have hrest : ∀ _ : Unit, (do
      let current ← traffic e.service
      if e.profile.recoveryHook = "" ∧ current ≠ previous then
        refuse "prior traffic was not restored exactly"
      else pure () : Exec Unit).Asks fun c => c.Steady ∨ c = .setTraffic previous := fun _ =>
    .bind (fun _ => .ite (fun _ => refuse_asks _) fun _ => .pure ())
      ((traffic_asks _).mono fun _ h => .inl h.steady)
  refine .ite (fun _ => .bind hrest (exec_asks (.inl (by rintro t ⟨⟩)))) fun _ =>
    .ite (fun _ => .bind hrest (exec_asks (.inr rfl))) fun _ => hrest ()

theorem recoverService_raises (promoted late : Bool) (x : Raised) :
    Raises (recoverService e previous promoted late x : Exec α) := by
  unfold recoverService
  split
  · trivial
  · exact Raises.bind (fun _ => Raises.bind (fun _ => Raises.bind (fun _ => Raises.raise _) _) _) _

theorem recoverService_asks (promoted late : Bool) (x : Raised) :
    (recoverService e previous promoted late x : Exec α).Asks
      fun c => c.Steady ∨ c = .setTraffic previous := by
  have hemit : ∀ stage status, (emit stage status).Asks
      fun c => c.Steady ∨ c = .setTraffic previous := fun _ _ =>
    (emit_steady _ _).mono fun _ h => .inl h
  refine .ite (fun _ => .raise x) fun _ => .bind (fun _ => .bind (fun _ => .bind (fun _ => .raise _)
    (hemit _ _)) (.handle (fun y => ?_) (restoreService_asks promoted))) (hemit _ _)
  exact .bind (fun _ => .raise _) (hemit _ _)

theorem recoverService_serving {late : Bool} {x : Raised} (hrec : e.profile.recoveryHook = "")
    (hw : w.Restorable previous) (hb : ¬Blames culprit (Backward previous)) :
    Always (Takes e (Fails culprit)) (fun _ => True) (fun _ w' => w'.serving = previous)
      (recoverService e previous true late x : Exec α) w := by
  refine Always.ite (fun h => absurd h.1 (by decide)) fun _ => emit_bind trivial fun w₂ h₂ => ?_
  have hw₂ := hw.stays h₂.apart.stays
  have hsteady : ∀ {β : Type} {p : Exec β} {w : World}, p.Asks Command.Steady →
      w.serving = previous → Always (Takes e (Fails culprit)) (fun _ => True)
        (fun _ w' => w'.serving = previous) p w := fun hp h => serving_always hp h
  refine Always.seq (K := fun _ => True) (R := fun _ w' => w'.serving = previous) (Always.guard
    (K := fun _ => True) (R := fun _ w' => w'.serving = previous) ?_ (fun _ _ => trivial)
    (fun _ _ _ h => h) fun y w₃ _ h₃ => ?_) (fun _ _ => trivial) (fun _ w₃ _ h₃ => ?_)
    fun y w₃ _ h₃ => h₃
  · unfold restoreService
    refine Always.ite (fun h => absurd hrec h) fun _ => Always.ite (fun _ => ?_)
      fun h => absurd rfl h
    refine move_back hw₂ hb fun w₃ h₃ => hsteady ?_ h₃
    exact .bind (fun _ => .ite (fun _ => refuse_asks _) fun _ => .pure ())
      ((traffic_asks _).mono fun _ h => h.steady)
  · exact hsteady (.bind (fun _ => .raise _) (emit_steady _ _)) h₃
  · exact hsteady (.bind (fun _ => .raise _) (emit_steady _ _)) h₃

/-- A first part that moves no traffic. -/
theorem settled_bind {p : Exec α} {f : α → Exec Result} {Q : Except Raised α → World → Prop}
    (hp : Always (Takes e (Fails culprit)) (Stays w) Q p w)
    (hf : ∀ a w', Stays w w' → Q (.ok a) w' →
      Always (Takes e (Fails culprit)) (fun _ => True) (Settled w') (f a) w') :
    Always (Takes e (Fails culprit)) (fun _ => True) (Settled w) (p >>= f) w :=
  Always.seq hp (fun _ _ => trivial)
    (fun a w' hs hq => (hf a w' hs hq).mono (fun _ h => h) fun _ _ _ h => h.stays hs)
    fun _ _ hs _ => hs.serving

theorem settled_idle {p : Exec α} {f : α → Exec Result} (hp : p.Asks Command.Steady)
    (hf : ∀ a w', Stays w w' →
      Always (Takes e (Fails culprit)) (fun _ => True) (Settled w') (f a) w') :
    Always (Takes e (Fails culprit)) (fun _ => True) (Settled w) (p >>= f) w :=
  settled_bind (steady_always hp w) fun a w' hs _ => hf a w' hs

theorem stays_of_same {p : Exec α} {Q : Except Raised α → World → Prop}
    (h : Always (Takes e may) (Same w) Q p w) : Always (Takes e may) (Stays w) Q p w :=
  h.mono (fun _ hs => hs.apart.stays) fun _ _ _ h => h

theorem World.Exact.stays (h : w.Exact) (hs : Stays w w') : w'.Exact := by
  intro row hrow r hr hi
  rw [hs.serving] at hrow
  obtain ⟨r', hr'⟩ := Option.isSome_iff_exists.1 (w.exist row (List.mem_filter.1 hrow).1)
  have hr'' := hs.revisions _ r' hr'
  rw [hr] at hr''
  cases hr''
  exact h row hrow r hr' hi

theorem deployRuntime_settled {image : String} (hx : w.Exact) :
    Always (Takes e (Fails culprit)) (fun _ => True) (Settled w) (deployRuntime e image) w := by
  refine settled_bind (stays_of_same (traffic_always w)) fun previous w₁ h₁ hprev => ?_
  obtain rfl : previous = w₁.serving := (hprev.1 previous rfl).trans h₁.serving.symm
  have hx₁ := hx.stays h₁
  refine settled_bind (stays_of_same (revisions_always w₁.serving w₁)) fun configs w₂ h₂ hd => ?_
  have hexact : ∀ r ∈ configs, isRuntime r = true → exactCommit (r.sha.getD "") = true := by
    intro r hr hi
    obtain ⟨row, hrow, hrr⟩ := (hd configs rfl).2 r hr
    exact hx₁ row hrow r hrr hi
  refine settled_idle (verifyArtemisWeb_asks.mono fun _ h => h.steady) fun _ w₃ h₃ => ?_
  refine settled_bind ((deployCandidate_always image w₃).mono (fun _ h => h.stays)
    fun _ _ _ h => h) fun c w₄ h₄ ht => ?_
  refine settled_idle (emit_steady _ _) fun _ w₅ h₅ => ?_
  refine settled_idle ((runtimeReady_asks _ _ _).mono fun _ h => h.steady) fun _ w₆ h₆ => ?_
  have hserving := ((((h₂.trans h₃).trans h₄).trans h₅).trans h₆).serving
  rw [← hserving]
  exact promoteRuntime_settled ((h₅.trans h₆).exists (ht c rfl).1) hexact

theorem promoteCandidate_settled (hx : w.Exact) :
    Always (Takes e (Fails culprit)) (fun _ => True) (Settled w) (promoteCandidate e) w := by
  have hraise : ∀ {w : World} {x : Raised}, Always (Takes e (Fails culprit)) (fun _ => True)
      (Settled w) (.raise x : Exec Result) w := .raise trivial rfl
  refine settled_idle loadContinuation_asks fun c w₁ h₁ => ?_
  refine settled_bind (stays_of_same (traffic_always w₁)) fun current w₂ h₂ hcur => ?_
  refine Always.ite (fun _ => hraise) fun heq => ?_
  have hprev : c.previousTraffic = w₂.serving := by
    rw [← not_not.1 heq, hcur.1 current rfl, h₂.serving]
  refine settled_bind (stays_of_same (previousRuntime_always c.previousTraffic w₂))
    fun rows w₃ h₃ hd => ?_
  refine Always.ite (fun _ => hraise) fun heq => ?_
  have hd := hd rows rfl
  rw [hprev, not_not.1 heq] at hd
  have hx₂ := hx.stays (h₁.trans h₂)
  have hexact : ∀ row ∈ c.previousRuntime, row.2.scope = runtimeScope →
      exactCommit row.2.sha = true := by
    intro out hout hscope
    obtain ⟨row, hrow, r, hr, rfl⟩ := hd.2 out hout
    refine hx₂ row hrow r hr ?_
    rcases hs : r.scope with _ | scope
    · simp [RuntimeRow.of, hs, runtimeScope] at hscope
    · simpa [RuntimeRow.of, hs, isRuntime] using hscope
  refine settled_bind (stays_of_same (candidateFacts_always c.imageDigest c.candidateRevision
    c.candidateUrl w₃)) fun spec w₄ h₄ ht => ?_
  refine Always.ite (fun _ => hraise) fun _ => ?_
  refine settled_idle ((verifyPrivateBoundary_asks _).mono fun _ h => h.steady) fun _ w₅ h₅ => ?_
  refine settled_idle (verifyArtemisWeb_asks.mono fun _ h => h.steady) fun _ w₆ h₆ => ?_
  have hstaged : ∀ w₇, Stays w₆ w₇ →
      Always (Takes e (Fails culprit)) (fun _ => True) (Settled w₇) (promoteStaged e c) w₇ := by
    intro w₇ h₇
    have h := (((h₄.trans h₅).trans h₆).trans h₇)
    refine promoteStaged_settled (h.exists (ht spec rfl).1) ?_ hexact
    rw [hprev, (h₃.trans h).serving]
  refine Always.ite (fun _ => ?_) fun _ => ?_
  · exact settled_idle ((runtimeReady_asks _ _ _).mono fun _ h => h.steady) fun _ w₇ h₇ =>
      hstaged w₇ h₇
  · refine settled_idle ((smoke_asks _).mono fun _ h => h.steady) fun _ w₇ h₇ => ?_
    exact settled_idle ((runHooks_asks _).mono fun _ h => h.steady) fun _ w₈ h₈ =>
      hstaged w₈ (h₇.trans h₈)

theorem deploy_settled {image : String} (hrec : e.profile.recoveryHook = "") (hx : w.Exact) :
    Always (Takes e (Fails culprit)) (fun _ => True) (Settled w) (deploy e image) w := by
  have hhooks : ∀ names, (runHooks names).Asks Command.Steady := fun names =>
    (runHooks_asks names).mono fun _ h => h.steady
  have hsmoke : ∀ url, (smoke e url).Asks Command.Steady := fun url =>
    (smoke_asks url).mono fun _ h => h.steady
  refine Always.ite (fun _ => deployRuntime_settled hx) fun _ => ?_
  refine settled_bind (stays_of_same (traffic_always w)) fun previous w₁ h₁ hprev => ?_
  obtain rfl : previous = w₁.serving := (hprev.1 previous rfl).trans h₁.serving.symm
  refine settled_idle (exec_asks (by rintro t ⟨⟩)) fun _ w₂ h₂ => ?_
  rw [← h₂.serving]
  refine handled_bind (Q := fun o w' => ∀ c : String × String, o = .ok c →
    (w'.revisions c.1).isSome) ?_ (fun x => recoverService_raises _ _ x)
    (fun x => recoverService_asks _ _ x) fun c w₃ h₃ hc => ?_
  · refine Always.seq (steady_always (hhooks _) w₂) (fun _ h => h) (fun _ w₃ h₃ _ => ?_)
      fun x _ _ _ => by rintro _ ⟨⟩
    refine Always.seq (deployCandidate_always image w₃) (fun _ h => h₃.trans h.stays)
      (fun c w₄ h₄ ht => ?_) fun x _ _ _ => by rintro _ ⟨⟩
    have hrest : ∀ (p : Exec Unit) (f : Unit → Exec (String × String)) (w₅ : World), Stays w₄ w₅ →
        p.Asks Command.Steady → (∀ w₆, Stays w₄ w₆ → Always (Takes e (Fails culprit)) (Stays w₂)
          (fun o w' => ∀ c : String × String, o = .ok c → (w'.revisions c.1).isSome) (f ()) w₆) →
        Always (Takes e (Fails culprit)) (Stays w₂)
          (fun o w' => ∀ c : String × String, o = .ok c → (w'.revisions c.1).isSome) (p >>= f) w₅ :=
      fun p f w₅ h₅ hp hf => Always.seq (steady_always hp w₅)
        (fun _ h => (h₃.trans h₄.stays).trans (h₅.trans h)) (fun _ w₆ h₆ _ => hf w₆ (h₅.trans h₆))
        fun x _ _ _ => by rintro _ ⟨⟩
    refine hrest _ _ w₄ (.refl w₄) (emit_steady _ _) fun w₅ h₅ => ?_
    refine hrest _ _ w₅ h₅ (hsmoke _) fun w₆ h₆ => ?_
    refine hrest _ _ w₆ h₆ (hhooks _) fun w₇ h₇ => ?_
    refine hrest _ _ w₇ h₇ (emit_steady _ _) fun w₈ h₈ => ?_
    refine .pure ((h₃.trans h₄.stays).trans h₈) ?_
    rintro _ ⟨⟩
    exact h₈.exists (ht c rfl).1
  · rw [← h₃.serving]
    refine handled_bind (steady_always (.bind (fun _ => emit_steady _ _) (hhooks _)) w₃)
      (fun x => recoverService_raises _ _ x) (fun x => recoverService_asks _ _ x)
      fun _ w₄ h₄ _ => ?_
    rw [← h₄.serving]
    refine second_always (.refl w₄) (h₄.exists (hc c rfl)) (fun w₅ hl hw => ?_)
      fun x w₅ hl hw hb => ?_
    · refine forward_bind (Candid.emit _ _) (emit_steady _ _) hl hw fun _ w₆ hl hw => ?_
      refine forward_bind (Candid.emit _ _) (emit_steady _ _) hl hw fun _ w₇ hl hw => ?_
      refine forward_bind (Candid.exec rfl trivial) (exec_asks (by rintro t ⟨⟩)) hl hw
        fun production w₈ hl hw => ?_
      refine forward_bind (smoke_candid _) (hsmoke _) hl hw fun _ w₉ hl hw => ?_
      exact forward_bind (runHooks_candid _) (hhooks _) hl hw
        fun _ w₁₀ hl hw => finish_always rfl hl hw
    · have hr := hl.restorable w₄.restorable_serving
      exact turn_back (recoverService_raises _ _ x) (recoverService_asks _ _ x) hr hw hb fun hn =>
        recoverService_serving hrec hr hn

/-- `write_summary`, when the copy to the bucket does not fail. -/
theorem writeSummary_settled {r : Result} (h : Settled w (.ok r) w')
    (hup : e.evidenceBucket = "" ∨ ∀ d, culprit ≠ some (.upload d)) :
    Always (Takes e (Fails culprit)) (fun _ => True) (Settled w) (writeSummary e r) w' := by
  refine Always.ite (fun hb => ?_) fun _ => .pure trivial h
  refine Always.bind (exec_always trivial (fun _ w₂ hs => ⟨trivial, ?_⟩) fun x w₂ hs => ?_)
  · show Always (Takes e (Fails culprit)) (fun _ => True) (Settled w) (pure r : Exec Result) w₂
    refine .pure trivial ?_
    have hi : (Command.upload ("gs://" ++ e.evidenceBucket ++ "/deployment-summaries/" ++
        e.deploymentId ++ ".json")).Idle := trivial
    obtain ⟨⟨cs, hcs, hm⟩, hserving⟩ := h
    refine ⟨⟨cs ++ [_], by rw [hs.log, hcs, List.append_assoc], List.mem_append_left _ hm⟩, ?_⟩
    rw [(hs.same hi).apart.serving, hserving]
  · have hnot := hup.resolve_left hb
    cases hs with
    | fails x hx hm =>
      rcases hm with (hm | hm) | hm
      · exact absurd hm (hnot _)
      · cases hm
      · exact absurd trivial hm
    | lost x made url hx hm _ =>
      rcases hm with hm | hm
      · exact absurd hm (hnot _)
      · cases hm

theorem main_settled (hrec : e.profile.recoveryHook = "") (hx : w.Exact)
    (hup : e.evidenceBucket = "" ∨ ∀ d, culprit ≠ some (.upload d)) :
    Always (Takes e (Fails culprit)) (fun _ => True) (Settled w) (main e) w := by
  have hsummary : ∀ {p : Exec Result} {w : World},
      Always (Takes e (Fails culprit)) (fun _ => True) (Settled w) p w →
      Always (Takes e (Fails culprit)) (fun _ => True) (Settled w)
        (p >>= fun values => writeSummary e values) w := fun h =>
    Always.seq h (fun _ _ => trivial) (fun r w' _ hr => writeSummary_settled hr hup)
      fun x w' _ hr => hr
  have hrun : Always (Takes e (Fails culprit)) (fun _ => True) (Settled w) (mainRun e) w := by
    refine settled_idle (exec_asks (by rintro t ⟨⟩)) fun _ w₁ h₁ => ?_
    refine settled_idle (exec_asks (by rintro t ⟨⟩)) fun _ w₂ h₂ => ?_
    refine settled_idle (exec_asks (by rintro t ⟨⟩)) fun _ w₃ h₃ => ?_
    refine settled_idle (emit_steady _ _) fun _ w₄ h₄ => ?_
    refine settled_idle (exec_asks (by rintro t ⟨⟩)) fun _ w₅ h₅ => ?_
    refine settled_idle (emit_steady _ _) fun _ w₆ h₆ => ?_
    have hx₆ := hx.stays (((((h₁.trans h₂).trans h₃).trans h₄).trans h₅).trans h₆)
    split
    · exact hsummary (promoteCandidate_settled hx₆)
    · refine settled_idle (emit_steady _ _) fun _ w₇ h₇ => ?_
      refine settled_idle imageForTag_steady fun image w₈ h₈ => ?_
      refine settled_idle (emit_steady _ _) fun _ w₉ h₉ => ?_
      exact hsummary (deploy_settled hrec (hx₆.stays ((h₇.trans h₈).trans h₉)))
  refine Always.guard hrun (fun _ _ => trivial) (fun _ _ _ h => h) fun x w' _ hs => ?_
  have hraise : ∀ {w₂ : World}, w₂.serving = w.serving → Always (Takes e (Fails culprit))
      (fun _ => True) (Settled w) (.raise x : Exec Result) w₂ := fun h => .raise trivial h
  split
  · exact hraise hs
  · exact emit_bind trivial fun w₂ h₂ => hraise (h₂.apart.serving.trans hs)

/-- Of at most one command that fails, which is not the copy of the summary: the deployment ends
with the success that it reports and all traffic on its candidate, or with an exception and the
traffic as it was. -/
theorem traffic_restored (e : Env) (culprit : Option Command) (w : World)
    (hrec : e.profile.recoveryHook = "") (hx : w.Exact)
    (hup : e.evidenceBucket = "" ∨ ∀ d, culprit ≠ some (.upload d)) :
    ∀ o w', Ends (Takes e (Fails culprit)) (main e) w o w' → Settled w o w' :=
  fun _ _ h => (main_settled hrec hx hup).ends h

end Deployments

section Demo

theorem demoWorld_exact {authorized : Finset String} : (demoWorld authorized).Exact := by
  intro row _ r hr _
  have hr : (if row.1 = "cgm-artemis-job-dispatcher-1" then some (demoRevision demoSha) else none) =
      some r := hr
  split_ifs at hr
  cases hr
  decide +kernel

/-- The copy of the summary. -/
def demoUpload : Command := .upload "gs://evidence/deployment-summaries/deployment-1.json"

/-- A probe that always fails, and a copy that does: each ends the run with an exception. -/
theorem failed_runs :
    (((demoScript (.ready "https://dispatcher.run.app" demoEnv.releaseSha false)).play
      demoEnv (Fails (some (.ready "https://dispatcher.run.app" demoEnv.releaseSha false)))
      (main demoEnv) (demoWorld {demoSha})).map fun r => r.1.toOption) = some none ∧
    ((((demoScript demoUpload).play demoEnv (Fails (some demoUpload)) (main demoEnv)
      (demoWorld {demoSha})).map fun r => (r.1.toOption, r.2.serving)) =
        some (none, [("cgm-artemis-job-dispatcher-ep-0123456789", 100)])) ∧
    [("cgm-artemis-job-dispatcher-ep-0123456789", 100)] ≠ (demoWorld {demoSha}).serving := by
  decide +kernel

/-- The probe of the new production fails, however often: the traffic moves back. -/
theorem traffic_restored_demo : ∃ x w',
    Ends (Takes demoEnv (Fails (some (.ready "https://dispatcher.run.app" demoEnv.releaseSha
      false)))) (main demoEnv) (demoWorld {demoSha}) (.error x) w' ∧
      w'.serving = (demoWorld {demoSha}).serving := by
  obtain ⟨⟨o, w'⟩, hplay, ho⟩ := Option.map_eq_some_iff.1 failed_runs.1
  have hends := Script.ends hplay
  have hsettled := traffic_restored demoEnv _ (demoWorld {demoSha}) rfl demoWorld_exact
    (.inr fun d h => by cases h) o w' hends
  rcases o with x | r
  · exact ⟨x, w', hends, hsettled⟩
  · cases ho

/-- When the copy of the summary fails, the candidate keeps the traffic of a deployment that ends
with an exception. -/
theorem summary_fails : ¬∀ (e : Env) (culprit : Option Command) (w : World),
    e.profile.recoveryHook = "" → w.Exact → ∀ o w',
      Ends (Takes e (Fails culprit)) (main e) w o w' → Settled w o w' := by
  intro h
  obtain ⟨hrun, hmoved⟩ := failed_runs.2
  obtain ⟨⟨o, w'⟩, hplay, ho⟩ := Option.map_eq_some_iff.1 hrun
  have hsettled := h demoEnv _ (demoWorld {demoSha}) rfl demoWorld_exact o w' (Script.ends hplay)
  rcases o with x | r
  · have hs : w'.serving = [("cgm-artemis-job-dispatcher-ep-0123456789", 100)] :=
      congrArg Prod.snd ho
    have hs' : w'.serving = (demoWorld {demoSha}).serving := hsettled
    exact hmoved (hs.symm.trans hs')
  · cases ho

end Demo

end Executor
