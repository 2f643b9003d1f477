import Mathlib.Data.List.Nodup
import Mathlib.Logic.Function.Basic
import EngPlatform.Lib.Yields
import EngPlatform.Mcp.Provider

/-!
# The store of the provider, and its contract

Beside the documents, the world remembers who drew an opaque identity, who consumed a code, the
activations that were accepted, and the grants that were revoked. Consent makes new codes,
retention removes documents, and the workspaces of a session change, all by themselves.

A call activates tokens once, and only tokens that it drew; so a hash that a grant had once never
comes back, and neither does a grant.
-/

set_option linter.dupNamespace false

namespace Mcp

open Interleave

/-- An activation that was accepted. -/
structure Granted (ι : Type) where
  writer : ι
  cause : Cause
  identity : String
  refreshHash : String
  accessHash : String
  deriving DecidableEq

structure World (ι : Type) where
  codes : String → Option Code
  credentials : Kind → String → Option Credential
  sessions : String → Option Grant
  owner : String → Option ι
  others : String → Bool
  consumer : String → Option ι
  granted : List (Granted ι)
  revoked : String → Bool

variable {ι : Type}

/-- No documents but tokens of older versions, which belong to no grant. -/
def World.start (credentials : Kind → String → Option Credential) : World ι where
  codes _ := none
  credentials := credentials
  sessions _ := none
  owner _ := none
  others _ := false
  consumer _ := none
  granted := []
  revoked _ := false

/-- The answer of a request that raises. -/
def lost {α : Type} (r : Except Raised α) : Prop := ∃ x, r = .error x

def World.withCredential (w : World ι) (kind : Kind) (key : String) (c : Option Credential) :
    World ι :=
  { w with credentials :=
      Function.update w.credentials kind (Function.update (w.credentials kind) key c) }

def World.withSession (w : World ι) (identity : String) (g : Option Grant) : World ι :=
  { w with sessions := Function.update w.sessions identity g }

/-- The world after an accepted activation. -/
def World.grant (w : World ι) (i : ι) (a : Activation) (g : Grant) : World ι :=
  { w.withSession a.identity (some g) with
    granted := ⟨i, a.cause, a.identity, a.refreshHash, a.accessHash⟩ :: w.granted }

/-- There was a grant of that identity. -/
def World.isGrant (w : World ι) (identity : String) : Bool :=
  w.granted.any fun a => a.identity = identity

/-- The world after the transaction of `mcp_grants.revoke`. -/
def World.revoke (w : World ι) (identity : String) (now : ℕ) : World ι :=
  { w.withSession identity ((w.sessions identity).map (·.revoke now)) with
    revoked := Function.update w.revoked identity (w.revoked identity || w.isGrant identity) }

/-- A code is consumed. -/
def World.consume (w : World ι) (i : ι) (key : String) : World ι :=
  { w with
    codes := Function.update w.codes key none
    consumer := Function.update w.consumer key (some i) }

/-- Nobody drew that identity. -/
def World.fresh (w : World ι) (o : String) : Prop := w.owner o = none ∧ w.others o = false

instance (w : World ι) (o : String) : Decidable (w.fresh o) :=
  inferInstanceAs (Decidable (w.owner o = none ∧ w.others o = false))

def sem (i : ι) (w : World ι) : (c : Call) → World ι → c.Ans → Prop
  | .opaqueId, w', r => (w' = w ∧ lost r) ∨
    ∃ o, r = .ok o ∧ w.fresh o ∧ w' = { w with owner := Function.update w.owner o (some i) }
  | .time, w', r => w' = w ∧ ∃ t, 0 < t ∧ r = .ok t
  | .get kind key, w', r => w' = w ∧ (r = .ok (w.credentials kind key) ∨ lost r)
  | .save kind key c, w', r =>
    (w' = w ∧ lost r) ∨ (w' = w.withCredential kind key (some c) ∧ (r = .ok () ∨ lost r))
  | .delete kind key, w', r =>
    (w' = w ∧ lost r) ∨ (w' = w.withCredential kind key none ∧ (r = .ok () ∨ lost r))
  | .consume key, w', r => (w' = w ∧ (lost r ∨ (w.codes key = none ∧ r = .ok none))) ∨
    ∃ c, w.codes key = some c ∧ w' = w.consume i key ∧ (r = .ok (some c) ∨ lost r)
  | .session identity, w', r => w' = w ∧ (r = .ok (w.sessions identity) ∨ lost r)
  | .activate a, w', r => (w' = w ∧ (lost r ∨
      ∃ now, 0 < now ∧ a.apply now (w.sessions a.identity) = none ∧ r = .ok false)) ∨
    ∃ now g, 0 < now ∧ a.apply now (w.sessions a.identity) = some g ∧ w' = w.grant i a g ∧
      (r = .ok true ∨ lost r)
  | .revoke identity, w', r => (w' = w ∧ lost r) ∨
    ∃ now, 0 < now ∧ w' = w.revoke identity now ∧ (r = .ok () ∨ lost r)
  | _, w', _ => w' = w

/-- What moves by itself. -/
inductive Moves (key : String → String) (w : World ι) : World ι → Prop
  | consent (o : String) (c : Code) (h : w.fresh o) :
    Moves key w { w with
      others := Function.update w.others o true
      codes := Function.update w.codes (key o) (some c) }
  | forgetCode (k : String) : Moves key w { w with codes := Function.update w.codes k none }
  | forgetToken (kind : Kind) (k : String) : Moves key w (w.withCredential kind k none)
  | forgetSession (identity : String) : Moves key w (w.withSession identity none)
  | workspaces (identity : String) (g : Grant) (workspaceIds : List String)
      (h : w.sessions identity = some g) :
    Moves key w (w.withSession identity (some { g with workspaceIds }))

def system (ι : Type) (key : String → String) : System ι (World ι) Call.Ans where
  sem := sem
  env := Moves key

/-- The answer of a request that does not fail, at the time `now + 1`. -/
def serve (o : String) (now : ℕ) (i : ι) (w : World ι) : (c : Call) → World ι × c.Ans
  | .opaqueId =>
    if w.fresh o then ({ w with owner := Function.update w.owner o (some i) }, .ok o)
    else (w, .error .unavailable)
  | .time => (w, .ok (now + 1))
  | .get kind key => (w, .ok (w.credentials kind key))
  | .save kind key c => (w.withCredential kind key (some c), .ok ())
  | .delete kind key => (w.withCredential kind key none, .ok ())
  | .consume key =>
    match w.codes key with
    | none => (w, .ok none)
    | some c => (w.consume i key, .ok (some c))
  | .session identity => (w, .ok (w.sessions identity))
  | .activate a =>
    match a.apply (now + 1) (w.sessions a.identity) with
    | none => (w, .ok false)
    | some g => (w.grant i a g, .ok true)
  | .revoke identity => (w.revoke identity (now + 1), .ok ())
  | .purgeSession _ | .saveAudit _ => (w, .ok ())

theorem serve_sem (o : String) (now : ℕ) (i : ι) (w : World ι) (c : Call) :
    sem i w c (serve o now i w c).1 (serve o now i w c).2 := by
  cases c with
  | opaqueId =>
    by_cases h : w.fresh o
    · simp only [serve, if_pos h]
      exact .inr ⟨o, rfl, h, rfl⟩
    · simp only [serve, if_neg h]
      exact .inl ⟨rfl, _, rfl⟩
  | time => exact ⟨rfl, now + 1, Nat.succ_pos _, rfl⟩
  | get | session => exact ⟨rfl, .inl rfl⟩
  | save | delete => exact .inr ⟨rfl, .inl rfl⟩
  | consume k =>
    simp only [serve]
    rcases h : w.codes k with _ | x
    · exact .inl ⟨rfl, .inr ⟨h, rfl⟩⟩
    · exact .inr ⟨x, h, rfl, .inl rfl⟩
  | activate a =>
    simp only [serve]
    rcases h : a.apply (now + 1) (w.sessions a.identity) with _ | g
    · exact .inl ⟨rfl, .inr ⟨_, Nat.succ_pos _, h, rfl⟩⟩
    · exact .inr ⟨_, g, Nat.succ_pos _, h, rfl, .inl rfl⟩
  | revoke id => exact .inr ⟨_, Nat.succ_pos _, rfl, .inl rfl⟩
  | purgeSession | saveAudit => exact rfl

/-- The key of an identity that `i` drew. -/
def World.Drew (w : World ι) (key : String → String) (i : ι) (k : String) : Prop :=
  ∃ o, k = key o ∧ w.owner o = some i

/-- What holds in every state. -/
structure Inv (key : String → String) (w : World ι) : Prop where
  apart : ∀ o, w.owner o ≠ none → w.others o = false
  code : ∀ k, w.codes k ≠ none → w.consumer k = none ∧ ∃ o, k = key o ∧ w.others o = true
  consumer : ∀ k, w.consumer k ≠ none → ∃ o, k = key o ∧ w.others o = true
  writer : (w.granted.map Granted.writer).Nodup
  hash : ∀ a ∈ w.granted, w.Drew key a.writer a.refreshHash
  created : ∀ a ∈ w.granted, ∀ c, a.cause = .code c →
    w.consumer c = some a.writer ∧ w.Drew key a.writer a.identity
  origin : ∀ a ∈ w.granted, ∃ b ∈ w.granted, b.identity = a.identity ∧ ∃ c, b.cause = .code c
  session : ∀ id g, w.sessions id = some g →
    g.source = "mcp" ∧ ∃ a ∈ w.granted, a.identity = id ∧ a.refreshHash = g.refreshHash
  exchanged : ∀ a ∈ w.granted, ∀ h n, a.cause = .refresh h n →
    (∃ b ∈ w.granted, b.refreshHash = h) ∧ (∀ id g, w.sessions id = some g → g.refreshHash ≠ h) ∧
      ∀ b ∈ w.granted, ∀ m, b.cause = .refresh h m → b = a
  revoked : ∀ id, w.revoked id = true → w.isGrant id = true ∧
    ∀ g, w.sessions id = some g → g.revokedAt ≠ 0

/-- `i` has activated nothing. -/
def Unspent (i : ι) (w : World ι) : Prop := ∀ b ∈ w.granted, b.writer ≠ i

/-- What `i` may do. -/
def Allowed (key : String → String) (i : ι) (w : World ι) : Call → Prop
  | .activate a => Unspent i w ∧ w.Drew key i a.refreshHash ∧
    ∀ c, a.cause = .code c → w.consumer c = some i ∧ w.Drew key i a.identity
  | _ => True

/-- What `i` may count on. -/
structure Rely (i : ι) (w w' : World ι) : Prop where
  owner : ∀ o, w.owner o = some i → w'.owner o = some i
  consumer : ∀ k, w.consumer k = some i → w'.consumer k = some i
  unspent : Unspent i w → Unspent i w'
  granted : w.granted ⊆ w'.granted
  revoked : ∀ id, w.revoked id = true → w'.revoked id = true

theorem Rely.refl (i : ι) (w : World ι) : Rely i w w :=
  ⟨fun _ h => h, fun _ h => h, fun h => h, fun _ h => h, fun _ h => h⟩

theorem Rely.trans {i : ι} {w w' w'' : World ι} (h : Rely i w w') (h' : Rely i w' w'') :
    Rely i w w'' where
  owner o ho := h'.owner o (h.owner o ho)
  consumer k hk := h'.consumer k (h.consumer k hk)
  unspent hu := h'.unspent (h.unspent hu)
  granted _ hm := h'.granted (h.granted hm)
  revoked id hr := h'.revoked id (h.revoked id hr)

theorem World.Drew.mono {w w' : World ι} {key : String → String} {i : ι} {k : String}
    (h : w.Drew key i k) (hw : ∀ o, w.owner o = some i → w'.owner o = some i) :
    w'.Drew key i k := by
  obtain ⟨o, ho, hi⟩ := h
  exact ⟨o, ho, hw o hi⟩

/-- Two calls draw different identities. -/
theorem World.Drew.unique {w : World ι} {key : String → String} (hk : Function.Injective key)
    {i j : ι} {k : String} (h : w.Drew key i k) (h' : w.Drew key j k) : i = j := by
  obtain ⟨o, rfl, hi⟩ := h
  obtain ⟨o', ho, hj⟩ := h'
  obtain rfl := hk ho
  rw [hi] at hj
  exact Option.some.inj hj

theorem isGrant_iff {w : World ι} {id : String} :
    w.isGrant id = true ↔ ∃ a ∈ w.granted, a.identity = id := by
  unfold World.isGrant
  simp

section Steps

variable {key : String → String} {i : ι} {w w' : World ι}

/-- What a step on the tokens' records, or none, leaves. -/
structure Quiet (w w' : World ι) : Prop where
  sessions : w'.sessions = w.sessions
  granted : w'.granted = w.granted
  revoked : w'.revoked = w.revoked
  codes : w'.codes = w.codes
  consumer : w'.consumer = w.consumer
  others : w'.others = w.others

theorem Quiet.refl (w : World ι) : Quiet w w := ⟨rfl, rfl, rfl, rfl, rfl, rfl⟩

theorem Quiet.unspent (h : Quiet w w') (hu : Unspent i w) : Unspent i w' := by
  unfold Unspent at hu ⊢
  rwa [h.granted]

theorem Inv.quiet (hI : Inv key w) (h : Quiet w w')
    (howner : ∀ o j, w.owner o = some j → w'.owner o = some j)
    (hapart : ∀ o, w'.owner o ≠ none → w.others o = false) : Inv key w' where
  apart := by
    rw [h.others]
    exact hapart
  code := by
    rw [h.codes, h.consumer, h.others]
    exact hI.code
  consumer := by
    rw [h.consumer, h.others]
    exact hI.consumer
  writer := by
    rw [h.granted]
    exact hI.writer
  hash a ha := by
    rw [h.granted] at ha
    exact (hI.hash a ha).mono fun o ho => howner o _ ho
  created a ha c hc := by
    rw [h.granted] at ha
    rw [h.consumer]
    exact (hI.created a ha c hc).imp_right fun hd => hd.mono fun o ho => howner o _ ho
  origin := by
    rw [h.granted]
    exact hI.origin
  session := by
    rw [h.granted, h.sessions]
    exact hI.session
  exchanged := by
    rw [h.granted, h.sessions]
    exact hI.exchanged
  revoked := by
    rw [h.revoked, h.sessions]
    unfold World.isGrant
    rw [h.granted]
    exact hI.revoked

end Steps

end Mcp
