import Mathlib.Data.Nat.Notation
import EngPlatform.Lib.Asks

/-!
# The OAuth provider of the MCP endpoint

A grant is the record of one authorization, and lives in the session documents. Access and refresh
tokens are stored by their hash, and count while the grant names them: an exchange stores two new
tokens first, and the grant's transaction activates them. Documents are read one at a time; each
transaction is one request, and a request that raises may have taken effect.
-/

set_option linter.dupNamespace false

namespace Mcp

open Interleave

/-- `mcp_grants.SCOPE`. -/
def scope : String := "eng-platform.access"

/-- `mcp_grants.POLICY`. -/
def policy : String := "mcp-uniform-v1"

structure Settings where
  enabled : Bool
  publicBaseUrl : String
  accessTokenTtlSeconds : ℕ
  refreshTokenTtlSeconds : ℕ
  deriving Repr

inductive Raised
  | token (error description : String)
  | http (status : ℕ) (detail : String)
  | unavailable
  deriving DecidableEq, Repr

/-- A record of the authorization codes. -/
structure Code where
  clientId : String
  scopes : List String
  subject : Option String
  resource : Option String
  expiresAt : ℕ
  deriving DecidableEq, Repr

inductive Kind
  | access
  | refresh
  deriving DecidableEq, Repr

/-- A record of the access or the refresh tokens. Tokens of older versions have no session. -/
structure Credential where
  clientId : String
  scopes : List String
  subject : Option String
  resource : String
  sessionId : String
  generation : ℕ
  expiresAt : ℕ
  deriving DecidableEq, Repr

/-- The session document of a grant. -/
structure Grant where
  kind : String
  id : String
  source : String
  login : String
  clientId : String
  resource : String
  scopes : List String
  authorityPolicy : String
  generation : ℕ
  refreshHash : String
  accessHash : String
  createdAt : ℕ
  expiresAt : ℕ
  revokedAt : ℕ
  workspaceIds : List String
  deriving DecidableEq, Repr

/-- `grant.get(f"{kind}_hash")`. -/
def Grant.hash (g : Grant) : Kind → String
  | .access => g.accessHash
  | .refresh => g.refreshHash

/-- `value.rstrip("/")`. -/
def rstrip (value : String) : String :=
  String.ofList (value.toList.reverse.dropWhile (· = '/')).reverse

/-- `mcp_grants.resource`. -/
def resource (cfg : Settings) (value : Option String) : Except Raised String :=
  let base := rstrip cfg.publicBaseUrl
  if value = none ∨ value = some (base ++ "/mcp") ∨ value = some (base ++ "/mcp/cost-alerts") then
    .ok (base ++ "/mcp")
  else .error (.http 401 "Invalid MCP resource")

/-- `re.fullmatch(r"[0-9a-f]{64}", identity)`. -/
def isIdentity (identity : String) : Bool :=
  identity.length = 64 && identity.toList.all fun c => c.isDigit || ('a' ≤ c && c ≤ 'f')

/-- `database_login`. -/
def databaseLogin (value : String) : Bool :=
  match value.toList with
  | [] => false
  | c :: cs => c.isAlphanum && cs.length ≤ 38 && cs.all fun c => c.isAlphanum || c = '-'

/-- The checks of `mcp_grants.validate` on the document that it read. -/
def Grant.isValid (cfg : Settings) (g : Grant) (identity : String) (login : Option String)
    (now : ℕ) : Bool :=
  g.kind = "session" && g.id = identity && g.source = "mcp" && g.authorityPolicy = policy &&
    g.scopes = [scope] && g.revokedAt = 0 && now < g.expiresAt &&
    g.resource = rstrip cfg.publicBaseUrl ++ "/mcp" && g.clientId ≠ "" &&
    login.all fun l => g.login = l.toLower

/-- The checks of `_credential` on a token's record alone. -/
def Credential.isLive (c : Credential) (now : ℕ) : Bool :=
  now < c.expiresAt && c.scopes = [scope] && c.sessionId ≠ ""

/-- The checks of `_credential` on a token and its grant. -/
def Credential.isOf (c : Credential) (g : Grant) (kind : Kind) (hash : String) : Bool :=
  c.generation = g.generation && c.clientId = g.clientId && c.resource = g.resource &&
    g.hash kind = hash

/-- What tokens are issued for: the code of that key, or the refresh token of that key while the
grant was of that generation. -/
inductive Cause
  | code (key : String)
  | refresh (key : String) (generation : ℕ)
  deriving DecidableEq, Repr

/-- The arguments of `activate`. -/
structure Activation where
  cause : Cause
  identity : String
  clientId : String
  subject : String
  resource : String
  scopes : List String
  refreshHash : String
  accessHash : String
  now : ℕ
  expiresAt : ℕ
  deriving DecidableEq, Repr

def Cause.generation : Cause → ℕ
  | .code _ => 1
  | .refresh _ n => n + 1

/-- The document that `activate` writes over `current`. -/
def Activation.grant (a : Activation) (current : Option Grant) : Grant where
  kind := "session"
  id := a.identity
  source := "mcp"
  login := a.subject
  clientId := a.clientId
  resource := a.resource
  scopes := a.scopes
  authorityPolicy := policy
  generation := a.cause.generation
  refreshHash := a.refreshHash
  accessHash := a.accessHash
  createdAt := (current.map Grant.createdAt).getD a.now
  expiresAt := a.expiresAt
  revokedAt := 0
  workspaceIds := (current.map Grant.workspaceIds).getD []

/-- `activate` at the time `now`: the new document, or nothing if it is refused. -/
def Activation.apply (a : Activation) (now : ℕ) (current : Option Grant) : Option Grant :=
  match a.cause, current with
  | .code _, none => some (a.grant none)
  | .code _, some _ => none
  | .refresh _ _, none => none
  | .refresh previous generation, some g =>
    if g.revokedAt ≠ 0 ∨ g.generation ≠ generation ∨ g.refreshHash ≠ previous ∨
        g.expiresAt ≤ now ∨ g.clientId ≠ a.clientId then none
    else some (a.grant (some g))

/-- `change` of `mcp_grants.revoke`. -/
def Grant.revoke (g : Grant) (now : ℕ) : Grant :=
  if g.source = "mcp" then { g with revokedAt := if g.revokedAt = 0 then now else g.revokedAt }
  else g

inductive Call
  | opaqueId
  | time
  | get (kind : Kind) (key : String)
  | save (kind : Kind) (key : String) (c : Credential)
  | delete (kind : Kind) (key : String)
  | consume (key : String)
  | session (identity : String)
  | activate (a : Activation)
  | revoke (identity : String)
  | purgeSession (identity : String)
  | saveAudit (grantId : String)

@[reducible] def Call.Val : Call → Type
  | .opaqueId => String
  | .time => ℕ
  | .get _ _ => Option Credential
  | .consume _ => Option Code
  | .session _ => Option Grant
  | .activate _ => Bool
  | _ => Unit

abbrev Call.Ans (c : Call) : Type := Except Raised c.Val

abbrev Program (α : Type) := Prog Call.Ans Raised α

def perform (c : Call) : Program c.Val := .ask c .lift

def refuse (b : Prop) [Decidable b] (x : Raised) : Program Unit :=
  if b then .raise x else .done ()

/-- A pair of new tokens. -/
structure OAuthToken where
  accessToken : String
  refreshToken : String
  expiresIn : ℕ
  scope : String
  deriving DecidableEq, Repr

section

variable (cfg : Settings) (key : String → String)

/-- `mcp_grants.validate`. -/
def validate (identity : String) (login : Option String) : Program Grant := do
  refuse (¬(cfg.enabled ∧ isIdentity identity))
    (.http 401 "Reconnect MCP to authorize full access")
  let value ← perform (.session identity)
  let now ← perform .time
  match value with
  | none => .raise (.http 401 "Reconnect MCP to authorize full access")
  | some g =>
    if g.isValid cfg identity login now then pure g
    else .raise (.http 401 "Reconnect MCP to authorize full access")

/-- `except HTTPException: return None`. -/
def attempt {α : Type} (p : Program α) : Program (Option α) :=
  Prog.handle (do let a ← p; pure (some a)) fun
    | .http _ _ => pure none
    | x => .raise x

/-- `_credential`. -/
def credential (kind : Kind) (token : String) : Program (Option Credential) := do
  let record ← perform (.get kind (key token))
  let now ← perform .time
  match record with
  | none => pure none
  | some c =>
    if c.isLive now then do
      let grant ← attempt (validate cfg c.sessionId c.subject)
      match grant with
      | none => pure none
      | some g => if c.isOf g kind (key token) then pure (some c) else pure none
    else pure none

/-- What `_issue_tokens` issues tokens for: a code, or a grant and its refresh token. -/
inductive Basis
  | code (key : String)
  | refresh (grantId key : String)
  deriving DecidableEq, Repr

/-- The grant's identity, and the cause that `activate` checks. -/
def findBasis (subject : String) : Basis → Program (String × Cause)
  | .code code => do
    let o ← perform .opaqueId
    pure (key o, .code code)
  | .refresh grantId previous => do
    let old ← validate cfg grantId (some subject)
    pure (grantId, .refresh previous old.generation)

/-- `activate`, and what follows it. -/
def activate (a : Activation) (access refresh : String) : Program OAuthToken := do
  let accepted ← perform (.activate a)
  if accepted then pure ⟨access, refresh, cfg.accessTokenTtlSeconds, scope⟩
  else do
    perform (.delete .access a.accessHash)
    perform (.delete .refresh a.refreshHash)
    .raise (.token "invalid_grant" "Refresh token already used or revoked")

/-- `_issue_tokens`. -/
def issueTokens (clientId : String) (scopes : List String) (subject : Option String)
    (target : Option String) (basis : Basis) : Program OAuthToken :=
  match subject with
  | none => .raise (.token "invalid_grant" "Reconnect MCP for full access")
  | some subject => do
    refuse (scopes ≠ [scope] ∨ subject = "" ∨ databaseLogin subject = false)
      (.token "invalid_grant" "Reconnect MCP for full access")
    let canonical ← .lift (resource cfg target)
    let access ← perform .opaqueId
    let refresh ← perform .opaqueId
    let (identity, cause) ← findBasis cfg key subject basis
    let now ← perform .time
    let common : Credential :=
      ⟨clientId, scopes, some subject, canonical, identity, cause.generation, 0⟩
    perform (.save .access (key access) { common with expiresAt := now + cfg.accessTokenTtlSeconds })
    perform (.save .refresh (key refresh)
      { common with expiresAt := now + cfg.refreshTokenTtlSeconds })
    activate cfg ⟨cause, identity, clientId, subject, canonical, scopes, key refresh, key access, now,
      now + cfg.refreshTokenTtlSeconds⟩ access refresh

/-- `exchange_authorization_code`. -/
def exchangeAuthorizationCode (client code : String) : Program OAuthToken := do
  let record ← perform (.consume (key code))
  let now ← perform .time
  match record with
  | none => .raise (.token "invalid_grant" "authorization code is invalid or already used")
  | some c => do
    refuse (c.expiresAt < now ∨ c.clientId ≠ client)
      (.token "invalid_grant" "authorization code is invalid or already used")
    issueTokens cfg key client c.scopes c.subject c.resource (.code (key code))

/-- `exchange_refresh_token`. -/
def exchangeRefreshToken (client token : String) (scopes : List String) :
    Program OAuthToken := do
  let record ← credential cfg key .refresh token
  let now ← perform .time
  match record with
  | none => .raise (.token "invalid_grant" "refresh token is invalid or already used")
  | some c => do
    refuse (c.expiresAt < now ∨ c.clientId ≠ client)
      (.token "invalid_grant" "refresh token is invalid or already used")
    refuse (scopes ≠ [scope]) (.token "invalid_scope" "Full MCP access is required")
    issueTokens cfg key client scopes c.subject (some c.resource)
      (.refresh c.sessionId (key token))

/-- `load_access_token`. -/
def loadAccessToken (token : String) : Program (Option Credential) := do
  let record ← credential cfg key .access token
  let now ← perform .time
  pure (record.filter fun c => now ≤ c.expiresAt)

/-- `mcp_grants.revoke`. -/
def revoke (identity : String) : Program Unit := do
  perform (.revoke identity)
  perform (.purgeSession identity)

/-- `revoke_client_token`, for the kinds of tokens that are left to look for. -/
def revokeClientToken (token : String) (client : Option String) : List Kind → Program Unit
  | [] => pure ()
  | kind :: kinds => do
    let record ← perform (.get kind (key token))
    match record with
    | none => revokeClientToken token client kinds
    | some c =>
      if client.any (· ≠ c.clientId) then revokeClientToken token client kinds
      else if c.sessionId ≠ "" ∧ c.scopes = [scope] then do
        revoke c.sessionId
        perform (.saveAudit c.sessionId)
      else do
        perform (.delete kind (key token))
        revokeClientToken token client kinds

end

/-- A call of the provider. -/
inductive Request
  | exchangeCode (client code : String)
  | exchangeRefresh (client token : String) (scopes : List String)
  | revoke (token : String) (client : Option String)
  | load (token : String)
  deriving DecidableEq, Repr

/-- What a call returns. -/
inductive Response
  | tokens (t : OAuthToken)
  | revoked
  | access (c : Option Credential)
  deriving DecidableEq, Repr

def Request.program (cfg : Settings) (key : String → String) : Request → Program Response
  | .exchangeCode client code => do
    let t ← exchangeAuthorizationCode cfg key client code
    pure (.tokens t)
  | .exchangeRefresh client token scopes => do
    let t ← exchangeRefreshToken cfg key client token scopes
    pure (.tokens t)
  | .revoke token client => do
    revokeClientToken key token client [.access, .refresh]
    pure .revoked
  | .load token => do
    let c ← loadAccessToken cfg key token
    pure (.access c)

end Mcp
