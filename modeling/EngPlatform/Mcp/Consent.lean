import Mathlib.Logic.Function.Basic
import EngPlatform.Mcp.Provider

/-!
# From an authorization request to a code

A client's request is kept under a state. GitHub's callback turns it into a consent for the login
that GitHub names, bound to one browser by a nonce; the browser's decision turns the consent into a
code, and the client exchanges the code. A state, a consent and a code are each consumed by one
transaction, and everything else reads and writes one document at a time.
-/

set_option linter.dupNamespace false

namespace Mcp.Consent

open Interleave

structure Settings extends Mcp.Settings where
  githubClientId : String
  githubClientSecret : String
  /-- The scheme and the host of `public_base_url`. -/
  origin : String
  deriving Repr

inductive Raised
  | authorize (error description : String)
  | token (error description : String)
  | http (status : ℕ) (detail : String)
  | provider (x : Mcp.Raised)
  | unavailable
  deriving DecidableEq, Repr

structure AuthorizationParams where
  state : Option String
  scopes : Option (List String)
  codeChallenge : String
  redirectUri : String
  redirectUriProvidedExplicitly : Bool
  resource : Option String
  deriving DecidableEq, Repr

/-- A record of the states, the consents or the codes. Each is a copy of the one before it. -/
structure Pending where
  clientId : String
  scopes : List String
  codeChallenge : String
  redirectUri : String
  redirectUriProvidedExplicitly : Bool
  resource : Option String
  clientState : Option String
  expiresAt : ℕ
  subject : Option String
  browserNonceHash : Option String
  deriving DecidableEq, Repr

/-- `params.scopes or [mcp_grants.SCOPE]`. -/
def AuthorizationParams.asked (params : AuthorizationParams) : List String :=
  if params.scopes.getD [] = [] then [scope] else params.scopes.getD []

/-- The record that `authorize` saves. -/
def AuthorizationParams.pending (params : AuthorizationParams) (client : String)
    (expiresAt : ℕ) : Pending where
  clientId := client
  scopes := params.asked
  codeChallenge := params.codeChallenge
  redirectUri := params.redirectUri
  redirectUriProvidedExplicitly := params.redirectUriProvidedExplicitly
  resource := params.resource
  clientState := params.state
  expiresAt := expiresAt
  subject := none
  browserNonceHash := none

/-- Where a decision sends the browser: the query goes to the end of the address. -/
structure Redirect where
  uri : String
  separator : String
  values : List (String × String)
  deriving DecidableEq, Repr

def Pending.redirect (pending : Pending) (name value : String) : Redirect where
  uri := pending.redirectUri
  separator := if '?' ∈ pending.redirectUri.toList then "&" else "?"
  values := (name, value) :: (pending.clientState.map fun s => ("state", s)).toList

/-- The form of a decision, and what its request carries. -/
structure Decision where
  origin : Option String
  cookie : String
  consent : String
  csrf : String
  decision : Option String
  deriving DecidableEq, Repr

/-- What a record is kept under in `mcp_store`. -/
inductive Stage
  | state
  | consent
  | code
  deriving DecidableEq, Repr

inductive Call
  | opaqueId
  | time
  | get (stage : Stage) (key : String)
  | save (stage : Stage) (key : String) (value : Pending)
  | consume (stage : Stage) (key : String)
  | github (response : String)

/-- GitHub names a login, without blanks around it and in lower case. -/
@[reducible] def Call.Val : Call → Type
  | .opaqueId => String
  | .time => ℕ
  | .get _ _ => Option Pending
  | .save _ _ _ => Unit
  | .consume _ _ => Option Pending
  | .github _ => String

abbrev Call.Ans (c : Call) : Type := Except Raised c.Val

abbrev Program (α : Type) := Prog Call.Ans Raised α

def perform (c : Call) : Program c.Val := .ask c .lift

def refuse (b : Prop) [Decidable b] (x : Raised) : Program Unit :=
  if b then .raise x else .done ()

/-- What a request answers. -/
inductive Response
  | authorized (state : String)
  | bound (consent nonce : String)
  | signIn
  | redirected (r : Redirect)
  | loaded (record : Option Pending)
  | redeemed (record : Pending)
  deriving DecidableEq, Repr

section

variable (cfg : Settings) (key : String → String)

/-- `authorize`, up to the state that goes to GitHub. -/
def authorize (client : String) (params : AuthorizationParams) : Program String := do
  refuse (cfg.githubClientId = "" ∨ cfg.githubClientSecret = "")
    (.authorize "temporarily_unavailable" "GitHub OAuth is not configured")
  refuse (cfg.publicBaseUrl = "") (.authorize "server_error" "MCP public URL is not configured")
  refuse (params.asked ≠ [scope]) (.authorize "invalid_scope" "Reconnect MCP for full access")
  let _ ← .lift ((resource cfg.toSettings params.resource).mapError .provider)
  let state ← perform .opaqueId
  let now ← perform .time
  perform (.save .state (key state) (params.pending client (now + 600)))
  pure state

/-- `owns_pending_state`. -/
def ownsPendingState (state : String) : Program Bool := do
  let pending ← perform (.get .state (key state))
  let now ← perform .time
  pure (pending.any fun p => now ≤ p.expiresAt)

/-- `complete_github_authorization`, up to the consent that its address carries. -/
def completeGithubAuthorization (state response : String) : Program String := do
  let record ← perform (.consume .state (key state))
  let now ← perform .time
  match record with
  | none => .raise (.authorize "access_denied" "OAuth state is invalid or expired")
  | some pending => do
    refuse (pending.expiresAt < now)
      (.authorize "access_denied" "OAuth state is invalid or expired")
    let login ← perform (.github response)
    refuse (login = "" ∨ databaseLogin login = false)
      (.authorize "access_denied" "GitHub identity is invalid")
    let consent ← perform .opaqueId
    let now ← perform .time
    perform (.save .consent (key consent)
      { pending with subject := some login, expiresAt := now + 300 })
    pure consent

/-- `bind_consent_browser`, for the consent that the address carries. -/
def bindConsentBrowser (consent : String) : Program String := do
  let record ← perform (.get .consent (key consent))
  let now ← perform .time
  match record with
  | none => .raise (.authorize "access_denied" "Consent is invalid or expired")
  | some pending => do
    refuse (pending.expiresAt < now) (.authorize "access_denied" "Consent is invalid or expired")
    let nonce ← perform .opaqueId
    perform (.save .consent (key consent) { pending with browserNonceHash := some (key nonce) })
    pure nonce

/-- What `github_callback` does with a state of this provider; the nonce is the browser's cookie. -/
def connect (state response : String) : Program Response := do
  let consent ← (completeGithubAuthorization key state response).handle fun _ =>
    .raise (.http 403 "MCP GitHub authorization was not accepted")
  let nonce ← bindConsentBrowser key consent
  pure (.bound consent nonce)

/-- `github_callback`. Any other state belongs to the sign-in of the platform. -/
def githubCallback (state response : String) : Program Response :=
  if cfg.enabled ∧ state ≠ "" then do
    let owned ← ownsPendingState key state
    if owned then connect key state response else pure .signIn
  else pure .signIn

/-- The checks of `consent_record`. -/
def Pending.isBoundTo (pending : Pending) (now : ℕ) (nonce : String) : Bool :=
  now ≤ pending.expiresAt && nonce ≠ "" && pending.browserNonceHash.getD "" = key nonce

/-- `consent_record`. -/
def consentRecord (consent nonce : String) : Program (Option Pending) := do
  let pending ← perform (.get .consent (key consent))
  let now ← perform .time
  pure (pending.filter fun p => p.isBoundTo key now nonce)

/-- `_authorization_redirect`. -/
def authorizationRedirect (pending : Pending) : Program Redirect := do
  let code ← perform .opaqueId
  let now ← perform .time
  perform (.save .code (key code) { pending with expiresAt := now + 120 })
  pure (pending.redirect "code" code)

/-- `complete_consent`. -/
def completeConsent (consent nonce : String) (allow : Bool) : Program Redirect := do
  let record ← consentRecord key consent nonce
  refuse (record = none) (.authorize "access_denied" "Consent is invalid or expired")
  let record ← perform (.consume .consent (key consent))
  match record with
  | none => .raise (.authorize "access_denied" "Consent was already consumed")
  | some pending =>
    if allow then authorizationRedirect key pending
    else pure (pending.redirect "error" "access_denied")

/-- `except AuthorizeError`. -/
def notConsumed : Raised → Program Redirect
  | .authorize _ _ => .raise (.http 403 "Consent is invalid or already consumed")
  | x => .raise x

/-- `consent_decision`. -/
def consentDecision (d : Decision) : Program Redirect := do
  refuse (cfg.enabled = false) (.http 404 "Not Found")
  refuse (d.origin ≠ some cfg.origin) (.http 403 "Consent origin is invalid")
  let record ← consentRecord key d.consent d.cookie
  refuse (record = none) (.http 403 "Consent is invalid or expired")
  refuse (d.csrf = "" ∨ d.csrf ≠ d.cookie) (.http 403 "Consent verification failed")
  refuse (d.decision ≠ some "allow" ∧ d.decision ≠ some "deny")
    (.http 400 "Choose authorize or cancel")
  (completeConsent key d.consent d.csrf (d.decision = some "allow")).handle notConsumed

/-- `load_authorization_code`, whose answer has the fields of the record. -/
def loadAuthorizationCode (client code : String) : Program (Option Pending) := do
  let record ← perform (.get .code (key code))
  let now ← perform .time
  pure (record.filter fun p => now ≤ p.expiresAt && p.clientId = client)

/-- `exchange_authorization_code`, up to the record that `_issue_tokens` issues tokens for. -/
def exchangeAuthorizationCode (client code : String) : Program Pending := do
  let record ← perform (.consume .code (key code))
  let now ← perform .time
  match record with
  | none => .raise (.token "invalid_grant" "authorization code is invalid or already used")
  | some p => do
    refuse (p.expiresAt < now ∨ p.clientId ≠ client)
      (.token "invalid_grant" "authorization code is invalid or already used")
    pure p

end

inductive Request
  | authorize (client : String) (params : AuthorizationParams)
  | callback (state response : String)
  | decide (d : Decision)
  | load (client code : String)
  | exchange (client code : String)
  deriving DecidableEq, Repr

def Request.program (cfg : Settings) (key : String → String) : Request → Program Response
  | .authorize client params => do
    let state ← Consent.authorize cfg key client params
    pure (.authorized state)
  | .callback state response => githubCallback cfg key state response
  | .decide d => do
    let r ← consentDecision cfg key d
    pure (.redirected r)
  | .load client code => do
    let record ← loadAuthorizationCode key client code
    pure (.loaded record)
  | .exchange client code => do
    let p ← exchangeAuthorizationCode key client code
    pure (.redeemed p)

end Mcp.Consent
