import EngPlatform.Mcp.Contract

/-!
# The tokens of a grant

Whatever the interleaving of exchanges and revocations: a grant has one token of a kind, a code
leads to one grant and a refresh token to one exchange, and a grant that is revoked has no token
any more.
-/

set_option linter.dupNamespace false

namespace Mcp

open Interleave Discipline

variable {ι : Type} {key : String → String} {hk : Function.Injective key} {i : ι} {w w' : World ι}
variable {cfg : Settings}

/-- The requests that activate nothing. -/
def Call.Passive (c : Call) : Prop := ∀ a, c ≠ .activate a

def Call.isActivate : Call → Bool
  | .activate _ => true
  | _ => false

theorem Call.passive {c : Call} (h : c.isActivate = false) : c.Passive := by
  rintro a rfl
  cases h

theorem perform_asks {c : Call} (h : c.isActivate = false) : (perform c).Asks Call.Passive :=
  ⟨Call.passive h, fun r => .lift r⟩

theorem refuse_asks (b : Prop) [Decidable b] (x : Raised) :
    (refuse b x).Asks Call.Passive :=
  .ite (fun _ => .raise x) fun _ => .pure ()

theorem validate_asks (identity : String) (login : Option String) :
    (validate cfg identity login).Asks Call.Passive := by
  refine .bind (fun _ => .bind (fun value => .bind (fun now => ?_) ?_) ?_) (refuse_asks _ _)
  · rcases value with _ | g
    · exact .raise _
    · exact .ite (fun _ => .pure g) fun _ => .raise _
  · exact perform_asks rfl
  · exact perform_asks rfl

theorem attempt_asks {α : Type} {p : Program α} (h : p.Asks Call.Passive) :
    (attempt p).Asks Call.Passive := by
  refine .handle (fun x => ?_) (.bind (fun a => .pure (some a)) h)
  cases x with
  | http => exact .pure none
  | _ => exact .raise _

theorem credential_asks (kind : Kind) (token : String) :
    (credential cfg key kind token).Asks Call.Passive := by
  refine .bind (fun record => .bind (fun now => ?_) (perform_asks rfl)) (perform_asks rfl)
  rcases record with _ | c
  · exact .pure none
  · refine .ite (fun _ => .bind (fun grant => ?_) (attempt_asks (validate_asks _ _))) fun _ =>
      .pure none
    rcases grant with _ | g
    · exact .pure none
    · exact .ite (fun _ => .pure _) fun _ => .pure none

theorem revokeClientToken_asks (token : String) (client : Option String) :
    ∀ kinds, (revokeClientToken key token client kinds).Asks Call.Passive
  | [] => .pure ()
  | kind :: kinds => by
    have ih := revokeClientToken_asks token client kinds
    refine .bind (fun record => ?_) (perform_asks rfl)
    rcases record with _ | c
    · exact ih
    · refine .ite (fun _ => ih) fun _ => .ite (fun _ => ?_) fun _ => ?_
      · refine .bind (fun _ => perform_asks rfl) ?_
        exact .bind (fun _ => perform_asks rfl) (perform_asks rfl)
      · exact .bind (fun _ => ih) (perform_asks rfl)

section Rules

theorem passive_yields {α : Type} {p : Program α} (h : p.Asks Call.Passive) :
    (contract ι hk).Yields i p (fun _ _ => True) w := by
  refine Yields.of_asks (A := Call.Passive) (fun s c hc _ => ?_) h
  cases c with
  | activate a => exact absurd rfl (hc a)
  | _ => trivial

/-- A passive program, and what follows it, which may use a kept fact. -/
theorem quiet_bind {α β : Type} {p : Program α} {f : α → Program β} {Q : β → World ι → Prop}
    {K : World ι → Prop} (hK : (contract ι hk).Kept i Call.Passive K) (hp : p.Asks Call.Passive)
    (hs : K w) (hf : ∀ a w', K w' → (contract ι hk).Yields i (f a) Q w') :
    (contract ι hk).Yields i (p >>= f) Q w :=
  Yields.bind_kept hK hp (passive_yields hp) hs fun a w' _ h => hf a w' h

theorem perform_yields {c : Call} {P : c.Val → World ι → Prop}
    (hal : c.isActivate = false)
    (h : ∀ w₁ w₂ v, Rely i w w₁ → Inv key w₁ → sem i w₁ c w₂ (.ok v) → P v w₂) :
    (contract ι hk).Yields i (perform c) P w := by
  refine Yields.ask fun w₁ hr hI => ⟨?_, fun w₂ r hs _ => ?_⟩
  · cases c with
    | activate a => cases hal
    | _ => trivial
  · rcases r with x | v
    · exact .raise x
    · exact .pure (h w₁ w₂ v hr hI hs)

variable (hk) in
theorem kept_unspent : (contract ι hk).Kept i Call.Passive (Unspent i) where
  stable _ _ hr h := hr.unspent h
  own _ _ _ _ hc _ _ hs h := sem_unspent hs (.inr hc) h

theorem kept_drew (k : String) :
    (contract ι hk).Kept i Call.Passive (fun w => w.Drew key i k) where
  stable _ _ hr h := h.mono hr.owner
  own _ _ _ _ _ _ _ hs h := h.mono fun o => (sem_keeps hs).1 o i

variable (hk) in
theorem kept_consumer (k : String) :
    (contract ι hk).Kept i Call.Passive (fun w => w.consumer k = some i) where
  stable _ _ hr h := hr.consumer k h
  own _ _ _ _ _ hI _ hs h := sem_consumer hI hs h

theorem kept_revoked (id : String) :
    (contract ι hk).Kept i Call.Passive (fun w => w.revoked id = true) where
  stable _ _ hr h := hr.revoked id h
  own _ _ _ _ _ _ _ hs h := (sem_keeps hs).2.2 id h

theorem opaqueId_yields : (contract ι hk).Yields i (perform .opaqueId)
    (fun o w' => w'.Drew key i (key o)) w := by
  refine perform_yields rfl fun w₁ w₂ o _ _ hs => ?_
  rcases hs with ⟨-, x, hx⟩ | ⟨o', ho, -, rfl⟩
  · cases hx
  · cases ho
    exact ⟨o, rfl, by simp⟩

end Rules

/-- An activation on that basis. -/
def Basis.Covers : Basis → Cause → Prop
  | .code k, .code k' => k' = k
  | .refresh _ k, .refresh k' _ => k' = k
  | _, _ => False

/-- `i` has activated tokens on that basis. -/
def World.Issued (w : World ι) (i : ι) (basis : Basis) : Prop :=
  ∃ a ∈ w.granted, a.writer = i ∧ basis.Covers a.cause

/-- What `i` may activate tokens for: a code that it consumed, or a refresh token. -/
def Ready (key : String → String) (i : ι) (cause : Cause) (identity : String) (w : World ι) :
    Prop :=
  ∀ c, cause = .code c → w.consumer c = some i ∧ w.Drew key i identity

variable (hk) in
theorem kept_ready (cause : Cause) (identity : String) :
    (contract ι hk).Kept i Call.Passive (Ready key i cause identity) where
  stable _ _ hr h c hc := ((kept_consumer hk c).and (kept_drew identity)).stable _ _ hr (h c hc)
  own _ _ _ _ hp hI hal hs h c hc :=
    ((kept_consumer hk c).and (kept_drew identity)).own _ _ _ _ hp hI hal hs (h c hc)

theorem findBasis_yields {basis : Basis} (subject : String)
    (h : ∀ c, basis = .code c → w.consumer c = some i) :
    (contract ι hk).Yields i (findBasis cfg key subject basis) (fun x w' =>
      basis.Covers x.2 ∧ Ready key i x.2 x.1 w') w := by
  cases basis with
  | code c =>
    refine Yields.bind_kept (kept_consumer hk c) (perform_asks rfl) opaqueId_yields (h c rfl)
      fun o w' ho hc => .pure ⟨rfl, fun c' hc' => ?_⟩
    cases hc'
    exact ⟨hc, ho⟩
  | refresh grantId previous =>
    refine (passive_yields (validate_asks _ _)).bind fun old w' _ => .pure ⟨rfl, ?_⟩
    intro c hc
    cases hc

theorem activate_yields {a : Activation} {access refresh : String} (hu : Unspent i w)
    (hd : w.Drew key i a.refreshHash) (hr : Ready key i a.cause a.identity w) :
    (contract ι hk).Yields i (activate cfg a access refresh)
      (fun _ w' => ∃ b ∈ w'.granted, b.writer = i ∧ b.cause = a.cause) w := by
  refine Yields.ask fun w₁ hrely hI => ⟨⟨hrely.unspent hu, hd.mono hrely.owner, ?_⟩, ?_⟩
  · exact (kept_ready hk a.cause a.identity).stable _ _ hrely hr
  · intro w₂ r hs _
    rcases r with x | b
    · exact .raise x
    · rcases hs with ⟨-, hl | ⟨now, -, -, hb⟩⟩ | ⟨now, g, -, ha, rfl, hb⟩
      · obtain ⟨x, hx⟩ := hl
        cases hx
      · cases hb
        refine (passive_yields (perform_asks rfl)).bind fun _ _ _ => ?_
        exact (passive_yields (perform_asks rfl)).bind fun _ _ _ => .raise _
      · rcases hb with hb | ⟨x, hx⟩
        · cases hb
          exact .pure ⟨_, List.mem_cons_self, rfl, rfl⟩
        · cases hx

theorem issueTokens_yields {basis : Basis} {clientId : String} {scopes : List String}
    {subject target : Option String} (hu : Unspent i w)
    (hb : ∀ c, basis = .code c → w.consumer c = some i) :
    (contract ι hk).Yields i (issueTokens cfg key clientId scopes subject target basis)
      (fun _ w' => w'.Issued i basis) w := by
  have hkept : (contract ι hk).Kept i Call.Passive
      (fun w => ∀ c, basis = .code c → w.consumer c = some i) :=
    ⟨fun _ _ hr h c hc => (kept_consumer hk c).stable _ _ hr (h c hc),
      fun _ _ _ _ hp hI hal hs h c hc => (kept_consumer hk c).own _ _ _ _ hp hI hal hs (h c hc)⟩
  have hkept := (kept_unspent hk (i := i)).and hkept
  cases subject with
  | none => exact .raise _
  | some subject =>
    refine quiet_bind hkept (refuse_asks _ _) ⟨hu, hb⟩ fun _ w₁ h₁ => ?_
    refine .lift_bind fun canonical _ => ?_
    refine quiet_bind hkept (perform_asks rfl) h₁ fun access w₂ h₂ => ?_
    refine Yields.bind_kept hkept (perform_asks rfl) opaqueId_yields h₂ fun refresh w₃ hd h₃ => ?_
    refine Yields.bind_kept ((kept_unspent hk).and (kept_drew (key refresh))) ?_
      (findBasis_yields subject h₃.2) ⟨h₃.1, hd⟩ fun x w₄ hx h₄ => ?_
    · cases basis with
      | code => exact .bind (fun _ => .pure _) (perform_asks rfl)
      | refresh => exact .bind (fun _ => .pure _) (validate_asks _ _)
    obtain ⟨identity, cause⟩ := x
    have hall := (kept_unspent hk (i := i)).and ((kept_drew (key refresh)).and
      (kept_ready hk cause identity))
    refine quiet_bind hall (perform_asks rfl) ⟨h₄.1, h₄.2, hx.2⟩ fun now w₅ h₅ => ?_
    refine quiet_bind hall (perform_asks rfl) h₅ fun _ w₆ h₆ => ?_
    refine quiet_bind hall (perform_asks rfl) h₆ fun _ w₇ h₇ => ?_
    refine (activate_yields h₇.1 h₇.2.1 h₇.2.2).mono fun _ w₈ h => ?_
    obtain ⟨b, hbm, hbw, hbc⟩ := h
    exact ⟨b, hbm, hbw, hbc ▸ hx.1⟩

theorem exchangeCode_yields {client code : String} (hu : Unspent i w) :
    (contract ι hk).Yields i (exchangeAuthorizationCode cfg key client code)
      (fun _ w' => w'.Issued i (.code (key code))) w := by
  refine Yields.bind_kept (kept_unspent hk) (perform_asks rfl) (perform_yields rfl
    (P := fun record w' => record ≠ none → w'.consumer (key code) = some i) ?_) hu
    fun record w₁ hc hu => ?_
  · rintro w₁ w₂ record - - hs hne
    rcases hs with ⟨-, ⟨x, hx⟩ | ⟨-, hr⟩⟩ | ⟨c, -, rfl, -⟩
    · cases hx
    · cases hr
      exact absurd rfl hne
    · simp [World.consume]
  · rcases record with _ | c
    · exact (passive_yields (perform_asks rfl)).bind fun _ _ _ => .raise _
    · have hall := (kept_unspent hk (i := i)).and (kept_consumer hk (key code))
      refine quiet_bind hall (perform_asks rfl) ⟨hu, hc fun h => by cases h⟩ fun now w₂ h₂ => ?_
      refine quiet_bind hall (refuse_asks _ _) h₂ fun _ w₃ h₃ => ?_
      refine issueTokens_yields h₃.1 fun c hc => ?_
      cases hc
      exact h₃.2

theorem exchangeRefresh_yields {client token : String} {scopes : List String} (hu : Unspent i w) :
    (contract ι hk).Yields i (exchangeRefreshToken cfg key client token scopes)
      (fun _ w' => ∃ id, w'.Issued i (.refresh id (key token))) w := by
  refine quiet_bind (kept_unspent hk) (credential_asks _ _) hu fun record w₁ h₁ => ?_
  refine quiet_bind (kept_unspent hk) (perform_asks rfl) h₁ fun now w₂ h₂ => ?_
  rcases record with _ | c
  · exact .raise _
  · refine quiet_bind (kept_unspent hk) (refuse_asks _ _) h₂ fun _ w₃ h₃ => ?_
    refine quiet_bind (kept_unspent hk) (refuse_asks _ _) h₃ fun _ w₄ h₄ => ?_
    exact (issueTokens_yields h₄ (by nofun)).mono fun _ _ h => ⟨_, h⟩

/-- The refusal of a token whose grant is revoked. -/
theorem validate_yields {id : String} {login : Option String} (hr : w.revoked id = true) :
    (contract ι hk).Yields i (validate cfg id login) (fun _ _ => False) w := by
  refine quiet_bind (kept_revoked id) (refuse_asks _ _) hr fun _ w₁ h₁ => ?_
  refine Yields.bind (P := fun value _ => ∀ g, value = some g → g.revokedAt ≠ 0) ?_
    fun value w₂ hv => ?_
  · refine perform_yields rfl fun w₂ w₃ value hrely hI hs g hg => ?_
    rcases hs with ⟨-, hs | ⟨x, hx⟩⟩
    · cases hs
      exact (hI.revoked id (hrely.revoked id h₁)).2 g hg
    · cases hx
  · refine (passive_yields (perform_asks rfl)).bind fun now w₃ _ => ?_
    rcases value with _ | g
    · exact .raise _
    · refine .ite (fun hg => absurd hg ?_) fun _ => .raise _
      simp [Grant.isValid, hv g rfl]

theorem attempt_yields {α : Type} {p : Program α} (hp : p.Asks Call.Passive)
    (h : (contract ι hk).Yields i p (fun _ _ => False) w) :
    (contract ι hk).Yields i (attempt p) (fun o _ => o = none) w := by
  refine Yields.handle (K := fun _ => True)
    ⟨fun _ _ _ _ => trivial, fun _ _ _ _ _ _ _ _ _ => trivial⟩ (.bind (fun a => .pure _) hp)
    (h.bind fun _ _ h => h.elim) trivial fun x w' _ => ?_
  cases x with
  | http => exact .pure rfl
  | _ => exact .raise _

theorem credential_yields {id token : String} {kind : Kind} (hr : w.revoked id = true) :
    (contract ι hk).Yields i (credential cfg key kind token)
      (fun o _ => ∀ c, o = some c → c.sessionId ≠ id) w := by
  refine quiet_bind (kept_revoked id) (perform_asks rfl) hr fun record w₁ h₁ => ?_
  refine quiet_bind (kept_revoked id) (perform_asks rfl) h₁ fun now w₂ h₂ => ?_
  rcases record with _ | c
  · exact .pure nofun
  · refine .ite (fun _ => ?_) fun _ => .pure nofun
    by_cases hid : c.sessionId = id
    · subst hid
      refine (attempt_yields (validate_asks _ _) (validate_yields h₂)).bind fun grant w₃ hg => ?_
      rw [hg]
      exact .pure nofun
    · refine (passive_yields (attempt_asks (validate_asks _ _))).bind fun grant w₃ _ => ?_
      rcases grant with _ | g
      · exact .pure nofun
      · refine .ite (fun _ => .pure fun c' hc => ?_) fun _ => .pure nofun
        cases hc
        exact hid

/-- A call of `load_access_token` that begins after a revocation accepts no token of that grant. -/
theorem load_yields {id token : String} (hr : w.revoked id = true) :
    (contract ι hk).Yields i ((Request.load token).program cfg key)
      (fun x _ => ∀ c, x = .access (some c) → c.sessionId ≠ id) w := by
  refine (Yields.bind (credential_yields hr) fun record w₁ h => ?_ :
    (contract ι hk).Yields i (loadAccessToken cfg key token)
      (fun o _ => ∀ c, o = some c → c.sessionId ≠ id) w).bind fun o w₂ h => .pure ?_
  · refine (passive_yields (perform_asks rfl)).bind fun now w₂ _ => .pure fun c hc => ?_
    exact h c (Option.filter_eq_some_iff.1 hc).1
  · intro c hc
    cases hc
    exact h c rfl

/-- The grant whose revocation returned is revoked. -/
theorem revoke_yields {id : String} (hg : w.isGrant id = true) :
    (contract ι hk).Yields i (revoke id) (fun _ w' => w'.revoked id = true) w := by
  refine Yields.bind (P := fun _ w' => w'.revoked id = true) ?_ fun _ w₁ h₁ => ?_
  · refine perform_yields rfl fun w₁ w₂ _ hr _ hs => ?_
    obtain ⟨a, ha, hid⟩ := isGrant_iff.1 hg
    have hg₁ : w₁.isGrant id = true := isGrant_iff.2 ⟨a, hr.granted ha, hid⟩
    rcases hs with ⟨-, x, hx⟩ | ⟨now, -, rfl, -⟩
    · cases hx
    · simp [World.revoke, hg₁]
  · exact (Yields.keep (kept_revoked id) (perform_asks rfl) (passive_yields (perform_asks rfl)) h₁).mono
      fun _ _ h => h.2

/-- What a call that returned tokens left: its own activation. -/
def Request.Ends (key : String → String) (i : ι) (w : World ι) : Request → Response → Prop
  | .exchangeCode _ code, .tokens _ => w.Issued i (.code (key code))
  | .exchangeRefresh _ token _, .tokens _ => ∃ id, w.Issued i (.refresh id (key token))
  | _, _ => True

theorem Request.yields (r : Request) (hu : Unspent i w) :
    (contract ι hk).Yields i (r.program cfg key) (fun x w' => r.Ends key i w' x) w := by
  cases r with
  | exchangeCode client code => exact (exchangeCode_yields hu).bind fun _ _ h => .pure h
  | exchangeRefresh client token scopes =>
    exact (exchangeRefresh_yields hu).bind fun _ _ h => .pure h
  | revoke token client =>
    refine (passive_yields ?_).mono fun x _ _ => ?_
    · exact .bind (fun _ => .pure _) (revokeClientToken_asks _ _ _)
    · cases x <;> trivial
  | load token =>
    refine (passive_yields ?_).mono fun x _ _ => ?_
    · exact .bind (fun _ => .pure _) (.bind (fun _ => .bind (fun _ => .pure _) (perform_asks rfl))
        (credential_asks _ _))
    · cases x <;> trivial

theorem World.Issued.mono {basis : Basis} (h : w.Issued i basis) (hg : w.granted ⊆ w'.granted) :
    w'.Issued i basis := by
  obtain ⟨a, ha, h⟩ := h
  exact ⟨a, hg ha, h⟩

theorem Request.Ends.mono {r : Request} {x : Response} (h : r.Ends key i w x)
    (hg : w.granted ⊆ w'.granted) : r.Ends key i w' x := by
  cases r <;> cases x <;> first
    | trivial
    | exact World.Issued.mono h hg
    | exact h.imp fun _ h => h.mono hg

/-- The grant that `validate` finds. -/
def World.validGrant (w : World ι) (cfg : Settings) (identity : String) (login : Option String)
    (now : ℕ) : Option Grant :=
  (w.sessions identity).filter fun g =>
    cfg.enabled && isIdentity identity && g.isValid cfg identity login now

/-- What `_credential` finds of a token when nothing comes between its reads. -/
def World.credential (w : World ι) (cfg : Settings) (key : String → String) (kind : Kind)
    (token : String) (now : ℕ) : Option Credential :=
  match w.credentials kind (key token) with
  | none => none
  | some c =>
    if c.isLive now then
      match w.validGrant cfg c.sessionId c.subject now with
      | none => none
      | some g => if c.isOf g kind (key token) then some c else none
    else none

theorem validate_run (o : String) (now : ℕ) (i : ι) (w : World ι) (identity : String)
    (login : Option String) : (validate cfg identity login).run (serve o now i) w =
      (w, match w.validGrant cfg identity login (now + 1) with
        | none => .error (.http 401 "Reconnect MCP to authorize full access")
        | some g => .ok g) := by
  unfold validate World.validGrant refuse
  by_cases he : cfg.enabled ∧ isIdentity identity
  · simp only [he, and_self, not_true_eq_false, if_false, Prog.run_bind, Prog.run, perform, serve,
      Prog.lift, Bool.and_self, Bool.true_and]
    rcases w.sessions identity with _ | g
    · rfl
    · by_cases hv : g.isValid cfg identity login (now + 1) <;> simp [hv, Option.filter]
  · have hf : (cfg.enabled && isIdentity identity) = false := by simpa using he
    rw [if_pos he]
    simp [hf]

theorem attempt_run (o : String) (now : ℕ) (i : ι) (w : World ι) (identity : String)
    (login : Option String) : (attempt (validate cfg identity login)).run (serve o now i) w =
      (w, .ok (w.validGrant cfg identity login (now + 1))) := by
  unfold attempt
  rw [Prog.run_handle, Prog.run_bind, validate_run]
  rcases w.validGrant cfg identity login (now + 1) with _ | g <;> rfl

theorem credential_run (o : String) (now : ℕ) (i : ι) (w : World ι) (kind : Kind)
    (token : String) : (credential cfg key kind token).run (serve o now i) w =
      (w, .ok (w.credential cfg key kind token (now + 1))) := by
  unfold credential World.credential
  simp only [Prog.run_bind, perform, Prog.run, serve, Prog.lift]
  rcases w.credentials kind (key token) with _ | c
  · rfl
  by_cases hl : c.isLive (now + 1)
  · simp only [if_pos hl, Prog.run_bind, attempt_run]
    rcases w.validGrant cfg c.sessionId c.subject (now + 1) with _ | g
    · rfl
    · by_cases hof : c.isOf g kind (key token) <;> simp [hof]
  · simp [hl]

theorem credential_some {kind : Kind} {token : String} {now : ℕ} {c : Credential}
    (h : w.credential cfg key kind token now = some c) :
    ∃ g, w.sessions c.sessionId = some g ∧ g.revokedAt = 0 ∧ g.hash kind = key token := by
  unfold World.credential at h
  rcases hc : w.credentials kind (key token) with _ | x <;> simp only [hc, reduceCtorEq] at h
  split at h
  · rcases hg : w.validGrant cfg x.sessionId x.subject now with _ | g <;>
      simp only [hg, reduceCtorEq] at h
    split at h
    · rename_i hof
      cases h
      obtain ⟨hs, hv⟩ := Option.filter_eq_some_iff.1 hg
      simp only [Grant.isValid, Credential.isOf, Bool.and_eq_true, decide_eq_true_eq] at hv hof
      exact ⟨g, hs, hv.2.1.1.1.1.2, hof.2⟩
    · cases h
  · cases h

/-- What holds of the tokens in every state that the calls `requests` reach. -/
structure Family (cfg : Settings) (key : String → String) (requests : ι → Request)
    (c : Conf ι (World ι) Call.Ans Raised Response) : Prop where
  /-- A grant has one token of a kind that is accepted. -/
  one : ∀ kind t t' now now' r r', c.state.credential cfg key kind t now = some r →
    c.state.credential cfg key kind t' now' = some r' → r.sessionId = r'.sessionId → t = t'
  /-- A code leads to one activation, and so to one grant. -/
  code : ∀ a ∈ c.state.granted, ∀ b ∈ c.state.granted, ∀ k, a.cause = .code k →
    b.cause = .code k → a = b
  /-- A refresh token leads to one activation. -/
  refresh : ∀ a ∈ c.state.granted, ∀ b ∈ c.state.granted, ∀ k n m, a.cause = .refresh k n →
    b.cause = .refresh k m → a = b
  /-- Two exchanges of one code do not both return tokens. -/
  codes : ∀ i j client client' code t t', requests i = .exchangeCode client code →
    requests j = .exchangeCode client' code → c.pool i = .done (.tokens t) →
    c.pool j = .done (.tokens t') → i = j
  /-- Neither do two exchanges of one refresh token. -/
  tokens : ∀ i j client client' token scopes scopes' t t',
    requests i = .exchangeRefresh client token scopes →
    requests j = .exchangeRefresh client' token scopes' → c.pool i = .done (.tokens t) →
    c.pool j = .done (.tokens t') → i = j
  /-- An activation that is refused changes nothing. -/
  refused : ∀ i a w', sem i c.state (.activate a) w' (.ok false) → w' = c.state
  /-- No other request of an exchange changes a grant. -/
  grants : ∀ i e w' r, sem i c.state e w' r → (∀ a, e ≠ .activate a) →
    (∀ id, e ≠ .revoke id) → w'.sessions = c.state.sessions

theorem start_inv (credentials : Kind → String → Option Credential) :
    Inv key (World.start credentials : World ι) where
  apart _ h := absurd rfl h
  code _ h := absurd rfl h
  consumer _ h := absurd rfl h
  writer := List.nodup_nil
  hash := nofun
  created := nofun
  origin := nofun
  session := nofun
  exchanged := nofun
  revoked := nofun

theorem moves_revoked (h : Moves key w w') : w'.revoked = w.revoked := by
  cases h <;> rfl

section Runs

variable {requests : ι → Request} {c c' : Conf ι (World ι) Call.Ans Raised Response}
variable {credentials : Kind → String → Option Credential}

/-- The calls, before the first request. -/
def Conf.start (cfg : Settings) (key : String → String) (requests : ι → Request)
    (credentials : Kind → String → Option Credential) :
    Conf ι (World ι) Call.Ans Raised Response :=
  ⟨.start credentials, fun i => (requests i).program cfg key⟩

theorem ends_stable (i : ι) (o : Except Raised Response) : (contract ι hk).Stable i
    (fun w => ∀ x, o = .ok x → (requests i).Ends key i w x) :=
  fun _ _ hr h x hx => (h x hx).mono hr.granted

variable (hk) in
theorem good_start [DecidableEq ι] (h : Reach (system ι key) (always _ _ _)
    (Conf.start cfg key requests credentials) c) :
    Good (contract ι hk) (fun i o w => ∀ x, o = .ok x → (requests i).Ends key i w x) c :=
  good_reach (D := contract ι hk) ends_stable (c := Conf.start cfg key requests credentials)
    ⟨start_inv credentials, fun i => (requests i).yields nofun⟩ h

theorem ends_of_good (hc : Good (contract ι hk)
      (fun i o w => ∀ x, o = .ok x → (requests i).Ends key i w x) c) {x : Response}
    (h : c.pool i = .done x) : (requests i).Ends key i c.state x := by
  have ho := hc.2 i
  rw [h] at ho
  exact ho x rfl

theorem family_of_inv (hk : Function.Injective key) (hc : Good (contract ι hk)
      (fun i o w => ∀ x, o = .ok x → (requests i).Ends key i w x) c) :
    Family cfg key requests c := by
  have hI : Inv key c.state := hc.1
  have hcode : ∀ a ∈ c.state.granted, ∀ b ∈ c.state.granted, ∀ k, a.cause = .code k →
      b.cause = .code k → a = b := by
    intro a ha b hb k hak hbk
    have h := (hI.created a ha k hak).1
    rw [(hI.created b hb k hbk).1] at h
    exact hI.entry ha hb (Option.some.inj h).symm
  have hrefresh : ∀ a ∈ c.state.granted, ∀ b ∈ c.state.granted, ∀ k n m,
      a.cause = .refresh k n → b.cause = .refresh k m → a = b :=
    fun a ha b hb k n m hak hbk => (hI.exchanged b hb k m hbk).2.2 a ha n hak
  refine ⟨?_, hcode, hrefresh, ?_, ?_, ?_, ?_⟩
  · intro kind t t' now now' r r' h h' hs
    obtain ⟨g, hg, -, hh⟩ := credential_some h
    obtain ⟨g', hg', -, hh'⟩ := credential_some h'
    rw [hs, hg'] at hg
    cases hg
    exact hk (hh.symm.trans hh')
  · intro i j client client' code t t' hi hj hpi hpj
    have ei := ends_of_good hc hpi
    have ej := ends_of_good hc hpj
    rw [hi] at ei
    rw [hj] at ej
    obtain ⟨a, ha, rfl, hac⟩ := ei
    obtain ⟨b, hb, rfl, hbc⟩ := ej
    rcases hca : a.cause with k | _ <;> rw [hca] at hac
    · rcases hcb : b.cause with k' | _ <;> rw [hcb] at hbc
      · obtain rfl : k = key code := hac
        obtain rfl : k' = key code := hbc
        rw [hcode a ha b hb _ hca hcb]
      · exact hbc.elim
    · exact hac.elim
  · intro i j client client' token scopes scopes' t t' hi hj hpi hpj
    have ei := ends_of_good hc hpi
    have ej := ends_of_good hc hpj
    rw [hi] at ei
    rw [hj] at ej
    obtain ⟨_, a, ha, rfl, hac⟩ := ei
    obtain ⟨_, b, hb, rfl, hbc⟩ := ej
    rcases hca : a.cause with _ | ⟨k, n⟩ <;> rw [hca] at hac
    · exact hac.elim
    · rcases hcb : b.cause with _ | ⟨k', m⟩ <;> rw [hcb] at hbc
      · exact hbc.elim
      · obtain rfl : k = key token := hac
        obtain rfl : k' = key token := hbc
        rw [hrefresh a ha b hb _ n m hca hcb]
  · rintro i a w' (⟨rfl, -⟩ | ⟨now, g, -, -, -, h | ⟨x, h⟩⟩)
    · rfl
    · cases h
    · cases h
  · intro i e w' r h ha hr
    rcases sem_cases h with ⟨a, now, g, rfl, -, -⟩ | ⟨k, x, -, -, rfl⟩ | ⟨id, now, rfl, -, -⟩ |
      ⟨o, -, rfl⟩ | ⟨hq, -⟩
    · exact absurd rfl (ha a)
    · rfl
    · exact absurd rfl (hr id)
    · rfl
    · exact hq.sessions

/-- Token hashes do not collide. Then along every run of exchanges, revocations and verifications
the tokens of every grant are as `Family` says; and once a grant is revoked, no token of it is
accepted in any later state, nor by a verification that begins later. -/
theorem token_family [DecidableEq ι] (hk : Function.Injective key)
    (h : Reach (system ι key) (always _ _ _) (Conf.start cfg key requests credentials) c)
    (h' : Reach (system ι key) (always _ _ _) c c') :
    Family cfg key requests c ∧ ∀ id, c.state.revoked id = true →
      (∀ kind token now r, c'.state.credential cfg key kind token now = some r →
        r.sessionId ≠ id) ∧
      ∀ i token, c.pool i = (Request.load token).program cfg key → ∀ r,
        c'.pool i = .done (.access (some r)) → r.sessionId ≠ id := by
  have hg := good_start hk h
  refine ⟨family_of_inv hk hg, fun id hr => ⟨?_, fun i token hp r hd => ?_⟩⟩
  · intro kind token now r hc hid
    have hr' : c'.state.revoked id = true :=
      reach_relation (D := contract ι hk) (C := always _ _ _) ends_stable
        (R := fun w w' : World ι => w.revoked id = true → w'.revoked id = true) (fun _ h => h)
        (fun _ _ _ h h' hr => h' (h hr)) (fun _ _ _ _ _ _ _ _ hs => (sem_keeps hs).2.2 id)
        (fun _ _ _ hs hr => by rwa [moves_revoked hs]) hg h' hr
    have hI : Inv key c'.state := (good_reach (D := contract ι hk) ends_stable hg h').1
    obtain ⟨g, hs, h0, -⟩ := credential_some hc
    exact (hI.revoked id hr').2 g (hid ▸ hs) h0
  · let Q : ι → Except Raised Response → World ι → Prop := fun j o _ =>
      j = i → ∀ r, o = .ok (.access (some r)) → r.sessionId ≠ id
    have hc : Good (contract ι hk) Q c := by
      refine ⟨hg.1, fun j => ?_⟩
      by_cases hj : j = i
      · subst hj
        rw [hp]
        exact Obeys.mono (fun o _ ho _ r hr => ho _ hr r rfl) _ (load_yields hr)
      · exact Obeys.mono (fun _ _ _ h => absurd h hj) _ (hg.2 j)
    have ho := (good_reach (D := contract ι hk) (fun _ _ _ _ _ h => h) hc h').2 i
    rw [hd] at ho
    exact ho rfl r rfl

end Runs

section Demo

def demoSettings : Settings := ⟨true, "https://api.example.test/", 900, 86400⟩

def demoRequests : Fin 4 → Request
  | 0 => .exchangeCode "client" "code"
  | 1 => .exchangeRefresh "client" "refresh" [scope]
  | 2 => .revoke "access" (some "client")
  | 3 => .load "access-2"

/-- The grant's identity. -/
def demoGrant : String := "".pushn 'a' 64

/-- The code is there, and no call has begun. -/
def demoStart : Conf (Fin 4) (World (Fin 4)) Call.Ans Raised Response :=
  let c := Conf.start demoSettings id demoRequests fun _ _ => none
  { c with state := { c.state with
      others := Function.update c.state.others "code" true
      codes := Function.update c.state.codes "code"
        (some ⟨"client", [scope], some "octocat", none, 600⟩) } }

/-- The code is exchanged, then the refresh token, and the old access token revokes the grant. -/
def demoScript : List (Turn (Fin 4) (World (Fin 4)) Call.Ans) :=
  ["", "", "access", "refresh", demoGrant, "", "", "", ""].map (fun o => Turn.run 0 (serve o 10 0)) ++
  ["", "", "", "", "", "access-2", "refresh-2", "", "", "", "", "", ""].map
    (fun o => Turn.run 1 (serve o 20 1)) ++
  ["", "", "", ""].map (fun o => Turn.run 2 (serve o 30 2))

theorem token_family_demo :
    ∃ c : Conf (Fin 4) (World (Fin 4)) Call.Ans Raised Response,
      c.state.granted.length = 2 ∧ c.state.revoked demoGrant = true ∧
      Family demoSettings id demoRequests c ∧ ∀ kind token now r,
        c.state.credential demoSettings id kind token now = some r → r.sessionId ≠ demoGrant := by
  have hstart : Reach (system (Fin 4) id) (always _ _ _)
      (Conf.start demoSettings id demoRequests fun _ _ => none) demoStart :=
    .single (.env (.consent "code" _ ⟨rfl, rfl⟩))
  have hrun : Reach (system (Fin 4) id) (always _ _ _) demoStart (demoStart.play demoScript) := by
    refine reach_play (fun t ht => ?_) _ (meets_always _ _)
    simp only [demoScript, List.mem_append, List.mem_map] at ht
    obtain (⟨o, -, rfl⟩ | ⟨o, -, rfl⟩) | ⟨o, -, rfl⟩ := ht <;> exact fun w c => serve_sem o _ _ w c
  have hr : (demoStart.play demoScript).state.revoked demoGrant = true := by decide +kernel
  obtain ⟨hf, hd⟩ := token_family Function.injective_id (hstart.trans hrun) .refl
  exact ⟨_, by decide +kernel, hr, hf, (hd demoGrant hr).1⟩

end Demo

end Mcp
