import EngPlatform.Mcp.ConsentFlow

/-!
# The lineage of a code

Each request obeys the contract: it consumes what it may, once, and stores under a key that it drew.
So a code leads back to one decision, one callback and one authorization, and carries what the
authorization asked for; and an authorization leads to one exchange at most.
-/

set_option linter.dupNamespace false

namespace Mcp.Consent

open Interleave Discipline

variable {ι : Type} {cfg : Settings} {key : String → String} {requests : ι → Request}
variable {hk : Function.Injective key} {i j : ι} {w w' : World ι}

/-- What `i` consumed and stored last, and whom GitHub named to it. -/
structure Self (i : ι) (took wrote : Option Entry) (named : Option String) (w : World ι) : Prop where
  took : w.took i = took
  wrote : w.wrote i = wrote
  named : w.named i = named

theorem Self.rely {took wrote : Option Entry} {named : Option String}
    (h : Self i took wrote named w) (hr : Rely i w w') : Self i took wrote named w' :=
  ⟨hr.took.trans h.took, hr.wrote.trans h.wrote, hr.named.trans h.named⟩

theorem Origin.rely {e : Entry} (h : Origin cfg key requests w i e) (hr : Rely i w w') :
    Origin cfg key requests w' i e := by
  refine h.mono hr.owner (fun e he => ?_) fun x hx => ?_
  · rwa [hr.took]
  · rwa [hr.named]

/-- A state carries no nonce. -/
theorem Inv.unbound (hI : Inv cfg key requests w) {k : String} {p : Pending}
    (h : w.wrote j = some ⟨.state, k, p⟩) : p.browserNonceHash = none := by
  obtain ⟨client, params, expiresAt, -, -, he⟩ := hI.origin j _ h
  obtain rfl : p = params.pending client expiresAt := he
  rfl

def Call.isPassive : Call → Bool
  | .opaqueId => true
  | .time => true
  | .get _ _ => true
  | _ => false

/-- The requests that store and consume nothing. -/
def Call.Passive (c : Call) : Prop := c.isPassive = true

theorem perform_asks {c : Call} (h : c.isPassive = true) : (perform c).Asks Call.Passive :=
  ⟨h, fun r => .lift r⟩

theorem refuse_asks (b : Prop) [Decidable b] (x : Raised) : (refuse b x).Asks Call.Passive :=
  .ite (fun _ => .raise x) fun _ => .pure ()

theorem consentRecord_asks (consent nonce : String) :
    (consentRecord key consent nonce).Asks Call.Passive :=
  .bind (fun _ => .bind (fun _ => .pure _) (perform_asks rfl)) (perform_asks rfl)

/-- What was found, if its writer is done with it, stays as it is written. -/
def Found (stage : Stage) (k : String) (record : Option Pending) (w : World ι) : Prop :=
  ∀ p, record = some p → Entry.isFinal ⟨stage, k, p⟩ → ∃ j, w.wrote j = some ⟨stage, k, p⟩

section Rules

variable [DecidableEq ι]

theorem passive_did {c : Call} (h : Did i w c w') (hc : c.Passive) :
    w' = w ∨ ∃ o, w.owner o = none ∧ w' = w.draw i o := by
  cases h with
  | nothing => exact .inl rfl
  | draw o ho => exact .inr ⟨o, ho, rfl⟩
  | save => cases hc
  | consume => cases hc
  | name => cases hc

theorem kept_of_ghosts {K : World ι → Prop} (hK : (contract cfg requests hk).Stable i K)
    (hdraw : ∀ w o, w.owner o = none → K w → K (w.draw i o)) :
    (contract cfg requests hk).Kept i Call.Passive K where
  stable := hK
  own w _ _ _ hc _ _ hs h := by
    rcases passive_did (did hs) hc with rfl | ⟨o, ho, rfl⟩
    · exact h
    · exact hdraw w o ho h

variable (cfg requests hk) in
theorem kept_self (took wrote : Option Entry) (named : Option String) :
    (contract cfg requests hk).Kept i Call.Passive (Self i took wrote named) :=
  kept_of_ghosts (fun _ _ hr h => h.rely hr) fun _ _ _ h => ⟨h.took, h.wrote, h.named⟩

variable (cfg requests hk) in
theorem kept_drew (k : String) :
    (contract cfg requests hk).Kept i Call.Passive (fun w => w.Drew key i k) :=
  kept_of_ghosts (fun _ _ hr h => h.mono hr.owner) fun _ _ ho h => h.mono (draw_owner ho)

variable (cfg requests hk) in
theorem kept_origin (e : Entry) :
    (contract cfg requests hk).Kept i Call.Passive (fun w => Origin cfg key requests w i e) :=
  kept_of_ghosts (fun _ _ hr h => h.rely hr)
    fun _ _ ho h => h.mono (draw_owner ho) (fun _ h => h) fun _ h => h

variable (cfg requests hk) in
theorem kept_found (stage : Stage) (k : String) (record : Option Pending) :
    (contract cfg requests hk).Kept i Call.Passive (Found stage k record) :=
  kept_of_ghosts (fun _ _ hr h p hp hf => (h p hp hf).imp fun j hj => hr.final j _ hj hf)
    fun _ _ _ h => h

theorem passive_yields {α : Type} {p : Program α} (h : p.Asks Call.Passive) :
    (contract cfg requests hk).Yields i p (fun _ _ => True) w := by
  refine Yields.of_asks (A := Call.Passive) (fun s c hc _ => ?_) h
  cases c with
  | save => cases hc
  | consume => cases hc
  | github => cases hc
  | _ => trivial

/-- A passive program, and what follows it, which may use a kept fact. -/
theorem quiet_bind {α β : Type} {p : Program α} {f : α → Program β} {Q : β → World ι → Prop}
    {K : World ι → Prop} (hK : (contract cfg requests hk).Kept i Call.Passive K)
    (hp : p.Asks Call.Passive) (hs : K w)
    (hf : ∀ a w', K w' → (contract cfg requests hk).Yields i (f a) Q w') :
    (contract cfg requests hk).Yields i (p >>= f) Q w :=
  Yields.bind_kept hK hp (passive_yields hp) hs fun a w' _ h => hf a w' h

/-- A refusal, and what follows it where there is none. -/
theorem refuse_bind {β : Type} {b : Prop} [Decidable b] {x : Raised} {f : Unit → Program β}
    {Q : β → World ι → Prop} (hf : ¬b → (contract cfg requests hk).Yields i (f ()) Q w) :
    (contract cfg requests hk).Yields i (refuse b x >>= f) Q w := by
  unfold refuse
  by_cases h : b
  · rw [if_pos h]
    exact .raise x
  · rw [if_neg h]
    exact hf h

theorem perform_yields {c : Call} {P : c.Val → World ι → Prop}
    (hal : ∀ w₁, Rely i w w₁ → Allowed cfg key requests i w₁ c)
    (h : ∀ w₁ w₂ v, Rely i w w₁ → Inv cfg key requests w₁ → sem i w₁ c w₂ (.ok v) →
      Inv cfg key requests w₂ → P v w₂) :
    (contract cfg requests hk).Yields i (perform c) P w := by
  refine Yields.ask fun w₁ hr hI => ⟨hal w₁ hr, fun w₂ r hs hI₂ => ?_⟩
  rcases r with x | v
  · exact .raise x
  · exact .pure (h w₁ w₂ v hr hI hs hI₂)

theorem opaqueId_yields : (contract cfg requests hk).Yields i (perform .opaqueId)
    (fun o w' => w'.Drew key i (key o)) w := by
  refine perform_yields (fun _ _ => trivial) fun w₁ w₂ o _ _ hs _ => ?_
  rcases hs with ⟨-, x, hx⟩ | ⟨o', ho, -, rfl⟩
  · cases hx
  · cases ho
    exact ⟨o, rfl, by simp [World.draw]⟩

theorem get_yields (stage : Stage) (k : String) :
    (contract cfg requests hk).Yields i (perform (.get stage k)) (fun r w' => Found stage k r w')
      w := by
  refine perform_yields (fun _ _ => trivial) fun w₁ w₂ r _ hI hs _ => ?_
  obtain ⟨rfl, hr | ⟨x, hx⟩⟩ := hs
  · rintro p rfl -
    exact hI.doc stage k p (Except.ok.inj hr).symm
  · cases hx

/-- What a request reads under the key that it wrote. -/
theorem get_own_yields {took : Option Entry} {named : Option String} {stage : Stage} {k : String}
    {q : Pending} (hs : Self i took (some ⟨stage, k, q⟩) named w) :
    (contract cfg requests hk).Yields i (perform (.get stage k))
      (fun r _ => ∀ p, r = some p → p = q) w := by
  refine perform_yields (fun _ _ => trivial) fun w₁ w₂ r hr hI hs' _ => ?_
  obtain ⟨rfl, he | ⟨x, hx⟩⟩ := hs'
  · rintro p rfl
    obtain ⟨j, hj⟩ := hI.doc stage k p (Except.ok.inj he).symm
    have hi := (hs.rely hr).wrote
    exact congrArg Entry.record (hI.writer hk hj hi rfl).2
  · cases hx

theorem save_yields {took wrote : Option Entry} {named : Option String} {stage : Stage}
    {k : String} {p : Pending} (hs : Self i took wrote named w)
    (hfresh : ∀ e, wrote = some e → e.stage = stage ∧ e.key = k ∧ ¬e.isFinal)
    (hd : w.Drew key i k) (ho : Origin cfg key requests w i ⟨stage, k, p⟩) :
    (contract cfg requests hk).Yields i (perform (.save stage k p))
      (fun _ w' => Self i took (some ⟨stage, k, p⟩) named w' ∧ w'.Drew key i k ∧
        Origin cfg key requests w' i ⟨stage, k, p⟩) w := by
  refine perform_yields (fun w₁ hr => ?_) fun w₁ w₂ v hr _ hs' hI₂ => ?_
  · exact ⟨fun e he => hfresh e (hs.wrote.symm.trans (hr.wrote.symm.trans he)), hd.mono hr.owner,
      ho.rely hr⟩
  · have h₁ := hs.rely hr
    rcases hs' with ⟨-, x, hx⟩ | ⟨rfl, -⟩
    · cases hx
    · have h₂ : Self i took (some ⟨stage, k, p⟩) named (w₁.save i ⟨stage, k, p⟩) :=
        ⟨h₁.took, by simp [World.save], h₁.named⟩
      exact ⟨h₂, hI₂.drew i _ h₂.wrote, hI₂.origin i _ h₂.wrote⟩

theorem consume_yields {wrote : Option Entry} {named : Option String} {stage : Stage} {k : String}
    (hs : Self i none wrote named w) (hc : Claims key requests w i stage k) :
    (contract cfg requests hk).Yields i (perform (.consume stage k))
      (fun r w' => ∀ p, r = some p → Self i (some ⟨stage, k, p⟩) wrote named w' ∧
        (stage = .state → p.browserNonceHash = none)) w := by
  refine perform_yields (fun w₁ hr => ⟨hr.took.trans hs.took, hc.mono hr.final⟩)
    fun w₁ w₂ v hr hI hs' _ => ?_
  have h₁ := hs.rely hr
  rintro p rfl
  rcases hs' with ⟨-, ⟨x, hx⟩ | ⟨-, hx⟩⟩ | ⟨p', hp, rfl, hx | ⟨x, hx⟩⟩
  · cases hx
  · cases hx
  · cases hx
    refine ⟨⟨by simp [World.consume], h₁.wrote, h₁.named⟩, ?_⟩
    rintro rfl
    obtain ⟨j, hj⟩ := hI.doc _ _ _ hp
    exact hI.unbound hj
  · cases hx

theorem github_yields {took wrote : Option Entry} (response : String)
    (hs : Self i took wrote none w) :
    (contract cfg requests hk).Yields i (perform (.github response))
      (fun login w' => Self i took wrote (some login) w') w := by
  refine perform_yields (fun w₁ hr => hr.named.trans hs.named) fun w₁ w₂ login hr _ hs' _ => ?_
  have h₁ := hs.rely hr
  rcases hs' with ⟨-, x, hx⟩ | ⟨login', hx, rfl⟩
  · cases hx
  · cases hx
    exact ⟨h₁.took, h₁.wrote, by simp [World.name]⟩

end Rules

section Programs

variable [DecidableEq ι]

theorem authorize_yields {client : String} {params : AuthorizationParams}
    (hr : requests i = .authorize client params) (hs : Self i none none none w) :
    (contract cfg requests hk).Yields i (authorize cfg key client params) (fun _ _ => True) w := by
  refine refuse_bind fun _ => refuse_bind fun _ => refuse_bind fun hn => .lift_bind fun _ _ => ?_
  refine Yields.bind_kept (kept_self cfg requests hk _ _ _) (perform_asks rfl) opaqueId_yields hs
    fun state w₁ hd h₁ => ?_
  refine quiet_bind ((kept_self cfg requests hk _ _ _).and (kept_drew cfg requests hk _))
    (perform_asks rfl) ⟨h₁, hd⟩ fun now w₂ h₂ => ?_
  refine (save_yields h₂.1 (fun e he => by cases he) h₂.2 ?_).bind fun _ _ _ => .pure trivial
  exact ⟨client, params, now + 600, hr, not_not.1 hn, rfl⟩

/-- What a callback has stored under its consent. -/
def Consented (cfg : Settings) (key : String → String) (requests : ι → Request) (i : ι)
    (consent : String) (w : World ι) : Prop :=
  ∃ took named q, q.browserNonceHash = none ∧
    Self i took (some ⟨.consent, key consent, q⟩) named w ∧ w.Drew key i (key consent) ∧
    Origin cfg key requests w i ⟨.consent, key consent, q⟩

theorem completeGithubAuthorization_yields {state response : String}
    (hr : requests i = .callback state response) (hs : Self i none none none w) :
    (contract cfg requests hk).Yields i (completeGithubAuthorization key state response)
      (fun consent w' => Consented cfg key requests i consent w') w := by
  have hc : Claims key requests w i .state (key state) := ⟨state, response, hr, rfl⟩
  refine (consume_yields hs hc).bind fun record w₁ h₁ => ?_
  rcases record with _ | pending
  · exact (passive_yields (perform_asks rfl)).bind fun _ _ _ => .raise _
  obtain ⟨h₁, hnone⟩ := h₁ pending rfl
  refine quiet_bind (kept_self cfg requests hk _ _ _) (perform_asks rfl) h₁ fun now w₂ h₂ => ?_
  refine refuse_bind fun _ => (github_yields response h₂).bind fun login w₃ h₃ => ?_
  refine refuse_bind fun hlogin => ?_
  refine Yields.bind_kept (kept_self cfg requests hk _ _ _) (perform_asks rfl) opaqueId_yields h₃
    fun consent w₄ hd h₄ => ?_
  refine quiet_bind ((kept_self cfg requests hk _ _ _).and (kept_drew cfg requests hk _))
    (perform_asks rfl) ⟨h₄, hd⟩ fun now' w₅ h₅ => ?_
  refine (save_yields h₅.1 (fun e he => by cases he) h₅.2 ?_).bind fun _ w₆ h₆ => .pure ?_
  · refine ⟨state, response, pending, login, now' + 300, none, hr, h₅.1.took, h₅.1.named, ?_, ?_, ?_⟩
    · simpa using (not_or.1 hlogin).2
    · intro h hh
      cases hh
    · rw [← hnone rfl]
  · have hq : ({ pending with subject := some login, expiresAt := now' + 300 } :
        Pending).browserNonceHash = none := hnone rfl
    exact ⟨_, _, _, hq, h₆⟩

theorem bindConsentBrowser_yields {consent : String} (hs : Consented cfg key requests i consent w) :
    (contract cfg requests hk).Yields i (bindConsentBrowser key consent) (fun _ _ => True) w := by
  obtain ⟨took, named, q, hq, h₀⟩ := hs
  have hkept := (kept_self cfg requests hk (i := i) took (some ⟨.consent, key consent, q⟩) named).and
    ((kept_drew cfg requests hk (key consent)).and
      (kept_origin cfg requests hk ⟨.consent, key consent, q⟩))
  refine Yields.bind_kept hkept (perform_asks rfl) (get_own_yields h₀.1) h₀
    fun record w₁ hrec h₁ => ?_
  refine quiet_bind hkept (perform_asks rfl) h₁ fun now w₂ h₂ => ?_
  rcases record with _ | pending
  · exact .raise _
  obtain rfl := hrec pending rfl
  refine refuse_bind fun _ => ?_
  refine Yields.bind_kept hkept (perform_asks rfl) opaqueId_yields h₂ fun nonce w₃ hd h₃ => ?_
  refine (save_yields h₃.1 ?_ h₃.2.1 ?_).bind fun _ _ _ => .pure trivial
  · rintro e he
    obtain rfl := Option.some.inj he
    exact ⟨rfl, rfl, fun hf => hf rfl hq⟩
  · obtain ⟨state, response, p, login, expiresAt, nonceHash, hr, ht, hn, hl, -, he⟩ := h₃.2.2
    refine ⟨state, response, p, login, expiresAt, some (key nonce), hr, ht, hn, hl, ?_, ?_⟩
    · rintro h hh
      cases hh
      exact hd
    · obtain rfl : pending = _ := he
      rfl

theorem githubCallback_yields {state response : String}
    (hr : requests i = .callback state response) (hs : Self i none none none w) :
    (contract cfg requests hk).Yields i (githubCallback cfg key state response)
      (fun _ _ => True) w := by
  refine .ite (fun _ => ?_) fun _ => .pure trivial
  refine quiet_bind (kept_self cfg requests hk _ _ _) ?_ hs fun owned w₁ h₁ => ?_
  · exact .bind (fun _ => .bind (fun _ => .pure _) (perform_asks rfl)) (perform_asks rfl)
  refine .ite (fun _ => ?_) fun _ => .pure trivial
  refine (Yields.catch (completeGithubAuthorization_yields hr h₁) fun _ _ => .raise _).bind
    fun consent w₂ h₂ => ?_
  exact (bindConsentBrowser_yields h₂).bind fun _ _ _ => .pure trivial

/-- A consent that a browser is bound to. -/
def Bound (k h : String) (w : World ι) : Prop :=
  ∃ j p, w.wrote j = some ⟨.consent, k, p⟩ ∧ p.browserNonceHash = some h

variable (cfg requests hk) in
theorem kept_bound (k h : String) :
    (contract cfg requests hk).Kept i Call.Passive (fun w : World ι => Bound k h w) := by
  refine kept_of_ghosts (fun w w' hr hb => ?_) fun _ _ _ hb => hb
  obtain ⟨j, p, hj, hh⟩ := hb
  exact ⟨j, p, hr.final j _ hj (Entry.isFinal_of_bound hh), hh⟩

theorem consentRecord_yields (hne : ∀ s, key s ≠ "") (consent nonce : String) :
    (contract cfg requests hk).Yields i (consentRecord key consent nonce)
      (fun r w' => r ≠ none → Bound (key consent) (key nonce) w') w := by
  refine (get_yields .consent (key consent)).bind fun pending w₁ h₁ => ?_
  refine quiet_bind (kept_found cfg requests hk _ _ _) (perform_asks rfl) h₁ fun now w₂ h₂ => ?_
  refine .pure fun hsome => ?_
  obtain ⟨p, hp⟩ := Option.ne_none_iff_exists'.1 hsome
  obtain ⟨rfl, hb⟩ := Option.filter_eq_some_iff.1 hp
  simp only [Pending.isBoundTo, Bool.and_eq_true, decide_eq_true_eq] at hb
  rcases hh : p.browserNonceHash with _ | h
  · rw [hh] at hb
    exact absurd hb.2.symm (hne nonce)
  · rw [hh] at hb
    obtain rfl : h = key nonce := hb.2
    obtain ⟨j, hj⟩ := h₂ p rfl (Entry.isFinal_of_bound hh)
    exact ⟨j, p, hj, hh⟩

theorem authorizationRedirect_yields {d : Decision} {pending : Pending}
    (hr : requests i = .decide d) (ha : d.Allows cfg)
    (hs : Self i (some ⟨.consent, key d.consent, pending⟩) none none w) :
    (contract cfg requests hk).Yields i (authorizationRedirect key pending) (fun _ _ => True) w := by
  refine Yields.bind_kept (kept_self cfg requests hk _ _ _) (perform_asks rfl) opaqueId_yields hs
    fun code w₁ hd h₁ => ?_
  refine quiet_bind ((kept_self cfg requests hk _ _ _).and (kept_drew cfg requests hk _))
    (perform_asks rfl) ⟨h₁, hd⟩ fun now w₂ h₂ => ?_
  refine (save_yields h₂.1 (fun e he => by cases he) h₂.2 ?_).bind fun _ _ _ => .pure trivial
  exact ⟨d, pending, now + 120, hr, ha, h₂.1.took, rfl⟩

theorem completeConsent_yields (hne : ∀ s, key s ≠ "") {d : Decision} {allow : Bool}
    (hr : requests i = .decide d) (ha : allow = true → d.Allows cfg)
    (hs : Self i none none none w) :
    (contract cfg requests hk).Yields i (completeConsent key d.consent d.csrf allow)
      (fun _ _ => True) w := by
  refine Yields.bind_kept (kept_self cfg requests hk _ _ _) (consentRecord_asks _ _)
    (consentRecord_yields hne d.consent d.csrf) hs fun record w₁ hb h₁ => ?_
  refine refuse_bind fun hsome => ?_
  obtain ⟨j, p, hj, hh⟩ := hb hsome
  have hc : Claims key requests w₁ i .consent (key d.consent) := ⟨d, j, p, hr, rfl, hj, hh⟩
  refine (consume_yields h₁ hc).bind fun taken w₂ h₂ => ?_
  rcases taken with _ | pending
  · exact .raise _
  · exact .ite (fun h => authorizationRedirect_yields hr (ha h) (h₂ pending rfl).1)
      fun _ => .pure trivial

theorem consentDecision_yields (hne : ∀ s, key s ≠ "") {d : Decision}
    (hr : requests i = .decide d) (hs : Self i none none none w) :
    (contract cfg requests hk).Yields i (consentDecision cfg key d) (fun _ _ => True) w := by
  refine refuse_bind fun _ => refuse_bind fun horigin => ?_
  refine quiet_bind (kept_self cfg requests hk _ _ _) (consentRecord_asks _ _) hs
    fun record w₁ h₁ => ?_
  refine refuse_bind fun _ => refuse_bind fun hcsrf => refuse_bind fun _ => ?_
  refine Yields.catch (completeConsent_yields hne hr (fun hallow => ?_) h₁) fun x w' => ?_
  · exact ⟨not_not.1 horigin, not_not.1 (not_or.1 hcsrf).2, of_decide_eq_true hallow⟩
  · cases x <;> exact .raise _

theorem loadAuthorizationCode_yields (client code : String) :
    (contract cfg requests hk).Yields i (loadAuthorizationCode key client code)
      (fun r w' => ∀ p, r = some p → p.clientId = client ∧
        ∃ j, w'.wrote j = some ⟨.code, key code, p⟩) w := by
  refine (get_yields .code (key code)).bind fun record w₁ h₁ => ?_
  refine quiet_bind (kept_found cfg requests hk _ _ _) (perform_asks rfl) h₁ fun now w₂ h₂ => ?_
  refine .pure fun p hp => ?_
  obtain ⟨rfl, hb⟩ := Option.filter_eq_some_iff.1 hp
  simp only [Bool.and_eq_true, decide_eq_true_eq] at hb
  exact ⟨hb.2, h₂ p rfl fun hs => by cases hs⟩

theorem exchangeAuthorizationCode_yields {client code : String}
    (hr : requests i = .exchange client code) (hs : Self i none none none w) :
    (contract cfg requests hk).Yields i (exchangeAuthorizationCode key client code)
      (fun p w' => p.clientId = client ∧ w'.took i = some ⟨.code, key code, p⟩) w := by
  have hc : Claims key requests w i .code (key code) := ⟨client, code, hr, rfl⟩
  refine (consume_yields hs hc).bind fun record w₁ h₁ => ?_
  rcases record with _ | p
  · exact (passive_yields (perform_asks rfl)).bind fun _ _ _ => .raise _
  refine quiet_bind (kept_self cfg requests hk _ _ _) (perform_asks rfl) (h₁ p rfl).1
    fun now w₂ h₂ => ?_
  exact refuse_bind fun hn => .pure ⟨not_not.1 (not_or.1 hn).2, h₂.took⟩

/-- What a request knows of the code that it answers with. -/
structure Ended (key : String → String) (i : ι) (r : Request) (x : Response) (w : World ι) :
    Prop where
  loaded : ∀ client code p, r = .load client code → x = .loaded (some p) →
    p.clientId = client ∧ ∃ j, w.wrote j = some ⟨.code, key code, p⟩
  redeemed : ∀ client code p, r = .exchange client code → x = .redeemed p →
    p.clientId = client ∧ w.took i = some ⟨.code, key code, p⟩

theorem Request.yields (hne : ∀ s, key s ≠ "") (hs : Self i none none none w) :
    (contract cfg requests hk).Yields i ((requests i).program cfg key)
      (fun x w' => Ended key i (requests i) x w') w := by
  rcases hr : requests i with ⟨client, params⟩ | ⟨state, response⟩ | d | ⟨client, code⟩ |
    ⟨client, code⟩
  · refine (authorize_yields hr hs).bind fun state w₁ _ => .pure ⟨?_, ?_⟩ <;>
      intro _ _ _ hr' <;> cases hr'
  · refine (githubCallback_yields hr hs).mono fun x w₁ _ => ⟨?_, ?_⟩ <;>
      intro _ _ _ hr' <;> cases hr'
  · refine (consentDecision_yields hne hr hs).bind fun x w₁ _ => .pure ⟨?_, ?_⟩ <;>
      intro _ _ _ hr' <;> cases hr'
  · refine (loadAuthorizationCode_yields client code).bind fun r w₁ h => .pure ⟨?_, ?_⟩
    · intro client' code' p hr' hx
      cases hr'
      cases hx
      exact h p rfl
    · intro _ _ _ hr'
      cases hr'
  · refine (exchangeAuthorizationCode_yields hr hs).bind fun p w₁ h => .pure ⟨?_, ?_⟩
    · intro _ _ _ hr'
      cases hr'
    · intro client' code' p' hr' hx
      cases hr'
      cases hx
      exact h

end Programs

/-- `i` consumed what `j` stored. -/
def Parent (w : World ι) (i j : ι) : Prop := ∃ e, w.took i = some e ∧ w.wrote j = some e

/-- The code `p` under the key `k` comes from the authorization `a`, over the callback `b` and the
decision `d`. -/
structure Lineage (cfg : Settings) (key : String → String) (requests : ι → Request) (w : World ι)
    (k : String) (p : Pending) (a b d : ι) : Prop where
  /-- It carries what `a` asked for. -/
  asked : ∃ client params, requests a = .authorize client params ∧ p.scopes = [scope] ∧
    p = { params.pending client p.expiresAt with
      subject := p.subject, browserNonceHash := p.browserNonceHash }
  /-- `b` brought the state of `a`, and GitHub named the login of the code to it. -/
  called : ∃ state response login, requests b = .callback state response ∧
    w.owner state = some a ∧ w.named b = some login ∧ databaseLogin login = true ∧
    p.subject = some login
  /-- `d` allowed it with the consent and the nonce that `b` drew. -/
  decided : ∃ dec, requests d = .decide dec ∧ dec.Allows cfg ∧ w.owner dec.consent = some b ∧
    w.owner dec.csrf = some b
  callback : Parent w b a
  decision : Parent w d b
  issued : w.wrote d = some ⟨.code, k, p⟩
  drew : w.Drew key d k

section Inv

theorem World.Drew.owner (hk : Function.Injective key) {o : String} (h : w.Drew key i (key o)) :
    w.owner o = some i := by
  obtain ⟨o', ho, hi⟩ := h
  obtain rfl := hk ho
  exact hi

theorem Inv.lineage (hk : Function.Injective key) (hI : Inv cfg key requests w) {k : String}
    {p : Pending} {d : ι} (hp : w.wrote d = some ⟨.code, k, p⟩) :
    ∃ a b, Lineage cfg key requests w k p a b d := by
  obtain ⟨dec, p₁, t, hd, hallow, htd, hp₁⟩ := hI.origin d _ hp
  obtain rfl : p = { p₁ with expiresAt := t } := hp₁
  obtain ⟨-, ⟨b, hb⟩, -⟩ := hI.parent d _ htd
  obtain ⟨dec', j, p', hd', hk', hj, hnonce⟩ := hI.claims d _ htd
  rw [hd] at hd'
  obtain rfl : dec = dec' := Request.decide.inj hd'
  obtain ⟨rfl, he⟩ := hI.writer hk hj hb rfl
  obtain rfl : p' = p₁ := congrArg Entry.record he
  obtain ⟨state, response, p₀, login, t', nonceHash, hrb, htb, hnb, hl, hdrew, hp₀⟩ :=
    hI.origin j _ hb
  obtain rfl : p' = { p₀ with
    subject := some login, expiresAt := t', browserNonceHash := nonceHash } := hp₀
  obtain ⟨-, ⟨a, ha⟩, -⟩ := hI.parent j _ htb
  obtain ⟨client, params, t'', hra, hscope, hp⟩ := hI.origin a _ ha
  obtain rfl : p₀ = params.pending client t'' := hp
  refine ⟨a, j, ⟨client, params, hra, hscope, rfl⟩, ?_, ?_, ⟨_, htb, ha⟩, ⟨_, htd, hb⟩, hp, ?_⟩
  · exact ⟨state, response, login, hrb, (hI.drew a _ ha).owner hk, hnb, hl, rfl⟩
  · exact ⟨dec, hd, hallow, (hI.drew j _ hb).owner hk, (hdrew _ hnonce).owner hk⟩
  · exact hI.drew d _ hp

/-- One request consumes what another stored. -/
theorem Inv.child (hI : Inv cfg key requests w) {i i' j : ι} (h : Parent w i j)
    (h' : Parent w i' j) : i = i' := by
  obtain ⟨e, ht, hw⟩ := h
  obtain ⟨e', ht', hw'⟩ := h'
  rw [hw] at hw'
  obtain rfl := Option.some.inj hw'
  exact hI.once i i' e e ht ht' rfl rfl

/-- An authorization leads to one code. -/
theorem Inv.lineage_unique (hI : Inv cfg key requests w) {k k' : String} {p p' : Pending}
    {a b b' d d' : ι} (h : Lineage cfg key requests w k p a b d)
    (h' : Lineage cfg key requests w k' p' a b' d') : b = b' ∧ d = d' ∧ k = k' ∧ p = p' := by
  obtain rfl := hI.child h.callback h'.callback
  obtain rfl := hI.child h.decision h'.decision
  have he := h.issued.symm.trans h'.issued
  simp only [Option.some.injEq, Entry.mk.injEq, true_and] at he
  exact ⟨rfl, rfl, he⟩

theorem start_inv : Inv cfg key requests (World.start : World ι) where
  doc _ _ _ h := by cases h
  drew _ _ h := by cases h
  origin _ _ h := by cases h
  claims _ _ h := by cases h
  parent _ _ h := by cases h
  once _ _ _ _ h := by cases h

end Inv

section Runs

variable [DecidableEq ι] {c : Conf ι (World ι) Call.Ans Raised Response}

/-- The requests, before the first of their steps. -/
def Conf.start (cfg : Settings) (key : String → String) (requests : ι → Request) :
    Conf ι (World ι) Call.Ans Raised Response :=
  ⟨.start, fun i => (requests i).program cfg key⟩

theorem ended_stable (o : Except Raised Response) : (contract cfg requests hk).Stable i
    (fun w => ∀ x, o = .ok x → Ended key i (requests i) x w) := by
  intro w w' hr h x hx
  refine ⟨fun client code p hq hx' => ?_, fun client code p hq hx' => ?_⟩
  · obtain ⟨hc, j, hj⟩ := (h x hx).loaded client code p hq hx'
    exact ⟨hc, j, hr.final j _ hj fun hs => by cases hs⟩
  · obtain ⟨hc, ht⟩ := (h x hx).redeemed client code p hq hx'
    exact ⟨hc, hr.took.trans ht⟩

variable (hk) in
theorem good_start (hne : ∀ s, key s ≠ "")
    (h : Reach (system ι) (always _ _ _) (Conf.start cfg key requests) c) :
    Good (contract cfg requests hk)
      (fun i o w => ∀ x, o = .ok x → Ended key i (requests i) x w) c :=
  good_reach (D := contract cfg requests hk) (fun _ => ended_stable)
    (c := Conf.start cfg key requests)
    ⟨start_inv, fun _ => Request.yields hne ⟨rfl, rfl, rfl⟩⟩ h

theorem ended_of_good (hc : Good (contract cfg requests hk)
      (fun i o w => ∀ x, o = .ok x → Ended key i (requests i) x w) c) {x : Response}
    (h : c.pool i = .done x) : Ended key i (requests i) x c.state := by
  have ho := hc.2 i
  rw [h] at ho
  exact ho x rfl

/-- Digests do not collide, and are not empty. Then along every run of authorizations, callbacks,
decisions and exchanges each code that is stored, loaded or exchanged has a lineage, and an
authorization leads to one code and to one exchange of it at most. -/
theorem code_lineage (hk : Function.Injective key) (hne : ∀ s, key s ≠ "")
    (h : Reach (system ι) (always _ _ _) (Conf.start cfg key requests) c) :
    (∀ k p, c.state.docs .code k = some p →
      ∃ a b d, Lineage cfg key requests c.state k p a b d) ∧
    (∀ i client code p, requests i = .load client code → c.pool i = .done (.loaded (some p)) →
      p.clientId = client ∧ ∃ a b d, Lineage cfg key requests c.state (key code) p a b d) ∧
    (∀ i client code p, requests i = .exchange client code → c.pool i = .done (.redeemed p) →
      p.clientId = client ∧ ∃ a b d, Lineage cfg key requests c.state (key code) p a b d ∧
        Parent c.state i d) ∧
    (∀ k k' p p' a b b' d d', Lineage cfg key requests c.state k p a b d →
      Lineage cfg key requests c.state k' p' a b' d' →
      b = b' ∧ d = d' ∧ k = k' ∧ p = p' ∧
        ∀ i i', Parent c.state i d → Parent c.state i' d' → i = i') := by
  have hg := good_start hk hne h
  have hI : Inv cfg key requests c.state := hg.1
  refine ⟨fun k p hp => ?_, fun i client code p hr hp => ?_, fun i client code p hr hp => ?_, ?_⟩
  · obtain ⟨d, hd⟩ := hI.doc _ _ _ hp
    obtain ⟨a, b, hl⟩ := hI.lineage hk hd
    exact ⟨a, b, d, hl⟩
  · obtain ⟨hc, d, hd⟩ := (ended_of_good hg hp).loaded client code p hr rfl
    obtain ⟨a, b, hl⟩ := hI.lineage hk hd
    exact ⟨hc, a, b, d, hl⟩
  · obtain ⟨hc, ht⟩ := (ended_of_good hg hp).redeemed client code p hr rfl
    obtain ⟨-, ⟨d, hd⟩, -⟩ := hI.parent i _ ht
    obtain ⟨a, b, hl⟩ := hI.lineage hk hd
    exact ⟨hc, a, b, d, hl, _, ht, hd⟩
  · intro k k' p p' a b b' d d' hl hl'
    obtain ⟨rfl, rfl, rfl, rfl⟩ := hI.lineage_unique hl hl'
    exact ⟨rfl, rfl, rfl, rfl, fun _ _ => hI.child⟩

end Runs

section Demo

/-- The answer of a request that does not fail, at the time `now`. -/
def serve [DecidableEq ι] (o : String) (now : ℕ) (login : String) (i : ι) (w : World ι) :
    (c : Call) → World ι × c.Ans
  | .opaqueId => if w.owner o = none then (w.draw i o, .ok o) else (w, .error .unavailable)
  | .time => (w, .ok now)
  | .get stage key => (w, .ok (w.docs stage key))
  | .save stage key p => (w.save i ⟨stage, key, p⟩, .ok ())
  | .consume stage key =>
    match w.docs stage key with
    | none => (w, .ok none)
    | some p => (w.consume i ⟨stage, key, p⟩, .ok (some p))
  | .github _ => (w.name i login, .ok login)

theorem serve_sem [DecidableEq ι] (o : String) (now : ℕ) (login : String) (i : ι) (w : World ι)
    (c : Call) : sem i w c (serve o now login i w c).1 (serve o now login i w c).2 := by
  cases c with
  | opaqueId =>
    by_cases h : w.owner o = none
    · simp only [serve, if_pos h]
      exact .inr ⟨o, rfl, h, rfl⟩
    · simp only [serve, if_neg h]
      exact .inl ⟨rfl, _, rfl⟩
  | time => exact rfl
  | get => exact ⟨rfl, .inl rfl⟩
  | save => exact .inr ⟨rfl, .inl rfl⟩
  | consume stage k =>
    simp only [serve]
    rcases h : w.docs stage k with _ | p
    · exact .inl ⟨rfl, .inr ⟨h, rfl⟩⟩
    · exact .inr ⟨p, h, rfl, .inl rfl⟩
  | github => exact .inr ⟨login, rfl, rfl⟩

def demoSettings : Settings where
  enabled := true
  publicBaseUrl := "https://api.example.test"
  accessTokenTtlSeconds := 900
  refreshTokenTtlSeconds := 86400
  githubClientId := "id"
  githubClientSecret := "secret"
  origin := "https://api.example.test"

def demoParams : AuthorizationParams where
  state := some "client-state"
  scopes := none
  codeChallenge := "challenge"
  redirectUri := "http://localhost/callback"
  redirectUriProvidedExplicitly := true
  resource := none

def demoRequests : Fin 4 → Request
  | 0 => .authorize "client" demoParams
  | 1 => .callback "state" "response"
  | 2 => .decide ⟨some "https://api.example.test", "nonce", "consent", "nonce", some "allow"⟩
  | 3 => .exchange "client" "code"

/-- A digest for tests. -/
def demoKey (s : String) : String := "#" ++ s

/-- The authorization, the callback, the decision and the exchange, one after the other. -/
def demoScript : List (Turn (Fin 4) (World (Fin 4)) Call.Ans) :=
  (["state", "", ""].map fun o => Turn.run 0 (serve o 10 "" 0)) ++
  (["", "", "", "", "", "consent", "", "", "", "", "nonce", ""].map
    fun o => Turn.run 1 (serve o 20 "octocat" 1)) ++
  (["", "", "", "", "", "code", "", ""].map fun o => Turn.run 2 (serve o 30 "" 2)) ++
  (["", ""].map fun o => Turn.run 3 (serve o 40 "" 3))

def demoEnd : Conf (Fin 4) (World (Fin 4)) Call.Ans Raised Response :=
  (Conf.start demoSettings demoKey demoRequests).play demoScript

/-- The code that is exchanged. -/
def demoCode : Pending :=
  { demoParams.pending "client" 150 with
    subject := some "octocat", browserNonceHash := some (demoKey "nonce") }

theorem demoKey_injective : Function.Injective demoKey := by
  intro s t h
  have h' := congrArg String.toList h
  exact String.toList_inj.1 (by simpa [demoKey, String.toList_append] using h')

theorem code_lineage_demo :
    demoEnd.pool 3 = .done (.redeemed demoCode) ∧ ∃ a b d,
      Lineage demoSettings demoKey demoRequests demoEnd.state (demoKey "code") demoCode a b d := by
  have hrun : Reach (system (Fin 4)) (always _ _ _)
      (Conf.start demoSettings demoKey demoRequests) demoEnd := by
    refine reach_play (fun t ht => ?_) _ (meets_always _ _)
    simp only [demoScript, List.mem_append, List.mem_map] at ht
    obtain ((⟨o, -, rfl⟩ | ⟨o, -, rfl⟩) | ⟨o, -, rfl⟩) | ⟨o, -, rfl⟩ := ht <;>
      exact fun w c => serve_sem o _ _ _ w c
  have hne : ∀ s, demoKey s ≠ "" := by
    intro s h
    have h' := congrArg String.toList h
    simp [demoKey, String.toList_append] at h'
  have hpool : demoEnd.pool 3 = .done (.redeemed demoCode) := by rfl
  obtain ⟨-, a, b, d, hl, -⟩ := (code_lineage demoKey_injective hne hrun).2.2.1 3 "client" "code"
    demoCode rfl hpool
  exact ⟨hpool, a, b, d, hl⟩

end Demo

end Mcp.Consent
