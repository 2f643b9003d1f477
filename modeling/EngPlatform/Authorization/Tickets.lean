import EngPlatform.Lib.Acts
import Mathlib.Data.Nat.Notation
import Mathlib.Data.List.Nodup

/-!
# Release authorizations, used once

An authorization has one document. `consume` creates it, `revoke` creates it or merges its marker
into it, `bind` is a transaction over it, and `verify_continuation` reads it. The acts of any
number of callers come in any order; the log has what each of them returned, the newest first.
-/

set_option linter.dupNamespace false

namespace Authorization

/-! ## The ticket -/

def issuer : String := "engineering-platform"
def audience : String := "github-release-workflow"
def tokenTtlSeconds : Int := 300

/-- What a ticket claims. `field` is the text of any claim, empty when it is absent. -/
structure Claims where
  iss : String
  aud : String
  iat : Option Int
  exp : Option Int
  jti : String
  workflowContinuation : Bool
  field : String → String

def Claims.current (claims : Claims) (now : Int) (continuation : Bool) : Bool :=
  match claims.iat, claims.exp with
  | some iat, some exp =>
    claims.iss == issuer && claims.aud == audience && decide (iat ≤ now + 30)
      && (decide (now ≤ exp) || (continuation && claims.workflowContinuation))
      && decide (iat < exp) && decide (exp - iat ≤ tokenTtlSeconds) && claims.jti != ""
  | _, _ => false

/-- `_verify`, where `opened` decodes a ticket and checks its header and its signature. -/
def verify {Token : Type} (opened : Token → Except String Claims) (token : Token)
    (expected : List (String × String)) (now : Int) (continuation : Bool) :
    Except String Claims := do
  let claims ← opened token
  if claims.current now continuation then
    match expected.find? fun entry => claims.field entry.1 != entry.2 with
    | some entry => throw s!"Release authorization mismatch: {entry.1}"
    | none => pure claims
  else throw "Expired or invalid release authorization"

/-! ## The document -/

/-- What `consume` records; `context` is the rest of the router's record. -/
structure Record where
  exp : Int
  workflowContinuation : Bool
  context : List (String × String)
  deriving DecidableEq

/-- A binding, stored or incoming. An incoming one has no `effectDigests` of its own, and an
absent `effectDigest` is empty. -/
structure Binding where
  scope : Option String
  scopeKey : Option String
  context : Option String
  effectDigest : String
  effectDigests : List String
  deriving DecidableEq

/-- `record` is absent in a document that a revocation has created. -/
structure Document where
  record : Option Record
  revoked : Bool
  executionBinding : Option Binding
  deriving DecidableEq

def Binding.sameScope (current incoming : Binding) : Bool :=
  current.scope == incoming.scope && current.scopeKey == incoming.scopeKey
    && current.context == incoming.context

def Binding.legacyDigests (current : Binding) : List String :=
  if current.effectDigest ≠ "" ∧ current.effectDigest ∉ current.effectDigests then
    current.effectDigest :: current.effectDigests
  else current.effectDigests

def addDigest (digests : List String) (digest : String) : List String :=
  if digest ≠ "" ∧ digest ∉ digests then digests ++ [digest] else digests

/-- The stored binding after an incoming one, unless they exclude each other. -/
def compatible (current : Option Binding) (incoming : Binding) : Option Binding :=
  match current with
  | none =>
    some { incoming with
      effectDigests := if incoming.effectDigest = "" then [] else [incoming.effectDigest] }
  | some current =>
    if current.sameScope incoming then
      some { current with
        effectDigests := addDigest current.legacyDigests incoming.effectDigest
        effectDigest :=
          if current.effectDigest = "" then incoming.effectDigest else current.effectDigest }
    else none

/-- What `verify_continuation` asks of the document of a verified ticket. -/
def continuationError (claims : Claims) (consumed : Option Document) : Option String :=
  if claims.workflowContinuation then
    match consumed with
    | some { record := some record, revoked := false, .. } =>
      if record.workflowContinuation ∧ some record.exp = claims.exp then none
      else some "Continuation requires a consumed ticket"
    | _ => some "Continuation requires a consumed ticket"
  else some "Ticket does not authorize continuation"

/-! ## The acts -/

/-- `merge` is the second half of a revocation that found the document. -/
inductive Act (Token : Type)
  | consume (record : Record)
  | revoke
  | merge
  | bind (binding : Binding)
  | verifyContinuation (token : Token) (expected : List (String × String)) (now : Int)

/-- What an act returned. -/
inductive Event
  | consumed (record : Record)
  | denied
  | revoked
  | bound (binding : Binding)
  | unbound
  | continued (claims : Claims)
  | refused (error : String)

/-- `revoking` counts the revocations between their two halves. -/
structure State where
  document : Option Document
  revoking : ℕ
  log : List Event

def State.start : State := { document := none, revoking := 0, log := [] }

def State.returns (s : State) (e : Event) : State := { s with log := e :: s.log }

section Step

variable {Token : Type} (opened : Token → Except String Claims) (jti : String)

/-- A ticket of another `jti` reads another document, and is no act here. -/
def State.step (s : State) : Act Token → Option State
  | .consume record =>
    match s.document with
    | none =>
      some ({ s with document := some ⟨some record, false, none⟩ }.returns (.consumed record))
    | some _ => some (s.returns .denied)
  | .revoke =>
    match s.document with
    | none => some ({ s with document := some ⟨none, true, none⟩ }.returns .revoked)
    | some _ => some { s with revoking := s.revoking + 1 }
  | .merge =>
    match s.revoking, s.document with
    | n + 1, some d =>
      some ({ s with document := some { d with revoked := true }, revoking := n }.returns .revoked)
    | _, _ => none
  | .bind binding =>
    match s.document with
    | none => some (s.returns .unbound)
    | some d =>
      match compatible d.executionBinding binding with
      | none => some (s.returns .unbound)
      | some stored =>
        some ({ s with document := some { d with executionBinding := some stored } }.returns
          (.bound binding))
  | .verifyContinuation token expected now =>
    match verify opened token expected now true with
    | .error error => some (s.returns (.refused error))
    | .ok claims =>
      if claims.jti = jti then
        match continuationError claims s.document with
        | some error => some (s.returns (.refused error))
        | none => some (s.returns (.continued claims))
      else none

end Step

/-! ## What an act does -/

variable {Token : Type} {opened : Token → Except String Claims} {jti : String}

/-- An act that creates the document, changes it, or leaves it and returns. -/
inductive Took : State → Act Token → State → Prop
  | consumed {s : State} (record : Record) (h : s.document = none) :
    Took s (.consume record)
      ({ s with document := some ⟨some record, false, none⟩ }.returns (.consumed record))
  | created {s : State} (h : s.document = none) :
    Took s .revoke ({ s with document := some ⟨none, true, none⟩ }.returns .revoked)
  | found {s : State} (h : s.document ≠ none) :
    Took s .revoke { s with revoking := s.revoking + 1 }
  | merged {s : State} {n : ℕ} {d : Document} (h : s.document = some d) :
    Took s .merge
      ({ s with document := some { d with revoked := true }, revoking := n }.returns .revoked)
  | bound {s : State} {d : Document} {stored : Binding} (binding : Binding)
      (h : s.document = some d) (hc : compatible d.executionBinding binding = some stored) :
    Took s (.bind binding)
      ({ s with document := some { d with executionBinding := some stored } }.returns
        (.bound binding))
  | unbound {s : State} (binding : Binding)
      (h : ∀ d, s.document = some d →
        ∃ b, d.executionBinding = some b ∧ b.sameScope binding = false) :
    Took s (.bind binding) (s.returns .unbound)
  | denied {s : State} (record : Record) : Took s (.consume record) (s.returns .denied)
  | continued {s : State} {token : Token} {expected : List (String × String)} {now : Int}
      {claims : Claims} {d : Document} {record : Record}
      (h : s.document = some d) (hr : d.record = some record) (hd : d.revoked = false)
      (hw : record.workflowContinuation = true) (hw' : claims.workflowContinuation = true)
      (he : claims.exp = some record.exp) :
    Took s (.verifyContinuation token expected now) (s.returns (.continued claims))
  | refused {s : State} {token : Token} {expected : List (String × String)} {now : Int}
      (error : String) :
    Took s (.verifyContinuation token expected now) (s.returns (.refused error))

theorem continuationError_none {claims : Claims} {consumed : Option Document}
    (h : continuationError claims consumed = none) :
    claims.workflowContinuation = true ∧ ∃ d record, consumed = some d ∧ d.record = some record
      ∧ d.revoked = false ∧ record.workflowContinuation = true
      ∧ claims.exp = some record.exp := by
  unfold continuationError at h
  split at h
  case isFalse => cases h
  rename_i hw
  split at h
  · rename_i record binding
    split at h
    · rename_i hr
      exact ⟨hw, _, record, rfl, rfl, rfl, hr.1, hr.2.symm⟩
    · cases h
  · cases h

theorem compatible_none {current : Option Binding} {incoming : Binding}
    (h : compatible current incoming = none) :
    ∃ b, current = some b ∧ b.sameScope incoming = false := by
  cases current with
  | none => cases h
  | some b =>
    simp only [compatible] at h
    split at h
    · cases h
    · rename_i hs
      exact ⟨b, rfl, Bool.not_eq_true _ ▸ hs⟩

theorem step_took {s s' : State} {a : Act Token} (h : s.step opened jti a = some s') :
    Took s a s' := by
  cases a with
  | consume record =>
    simp only [State.step] at h
    split at h <;> cases h
    · exact .consumed record ‹_›
    · exact .denied record
  | revoke =>
    simp only [State.step] at h
    split at h <;> cases h
    · exact .created ‹_›
    · exact .found (by simp_all)
  | merge =>
    simp only [State.step] at h
    split at h <;> cases h
    exact .merged ‹_›
  | bind binding =>
    simp only [State.step] at h
    split at h
    · rename_i hd
      cases h
      exact .unbound binding (by simp [hd])
    · rename_i d hd
      split at h <;> cases h
      · rename_i hc
        refine .unbound binding fun d' hd' => ?_
        cases hd.symm.trans hd'
        exact compatible_none hc
      · exact .bound binding hd ‹_›
  | verifyContinuation token expected now =>
    simp only [State.step] at h
    split at h
    · cases h
      exact .refused _
    · split at h
      case isFalse => cases h
      split at h <;> cases h
      · exact .refused _
      · obtain ⟨hw', d, record, hd, hr, hv, hw, he⟩ := continuationError_none ‹_›
        exact .continued hd hr hv hw hw' he

/-! ## Bindings -/

/-- The binding lists each of its digests once, its first one among them. -/
structure Binding.WellFormed (b : Binding) : Prop where
  nodup : b.effectDigests.Nodup
  mem : b.effectDigest ≠ "" → b.effectDigest ∈ b.effectDigests
  nonempty : "" ∉ b.effectDigests

/-- The second binding has the scope of the first and all its digests, in their order. -/
structure Binding.Extends (b b' : Binding) : Prop where
  scope : b'.scope = b.scope
  scopeKey : b'.scopeKey = b.scopeKey
  context : b'.context = b.context
  digests : b.effectDigests <+: b'.effectDigests

theorem Binding.Extends.refl (b : Binding) : b.Extends b := ⟨rfl, rfl, rfl, List.prefix_rfl⟩

theorem Binding.Extends.trans {b b' b'' : Binding} (h : b.Extends b') (h' : b'.Extends b'') :
    b.Extends b'' :=
  ⟨h'.scope.trans h.scope, h'.scopeKey.trans h.scopeKey, h'.context.trans h.context,
    h.digests.trans h'.digests⟩

theorem sameScope_iff (b b' : Binding) :
    b.sameScope b' = true ↔ b.scope = b'.scope ∧ b.scopeKey = b'.scopeKey
      ∧ b.context = b'.context := by
  simp [Binding.sameScope, and_assoc]

theorem prefix_addDigest (digests : List String) (digest : String) :
    digests <+: addDigest digests digest := by
  unfold addDigest
  split
  · exact List.prefix_append _ _
  · exact List.prefix_rfl

theorem mem_addDigest {digests : List String} {digest : String} (h : digest ≠ "") :
    digest ∈ addDigest digests digest := by
  unfold addDigest
  split
  · simp
  · rename_i hn
    exact not_not.1 fun hm => hn ⟨h, hm⟩

theorem addDigest_nodup {digests : List String} {digest : String} (h : digests.Nodup) :
    (addDigest digests digest).Nodup := by
  unfold addDigest
  split
  · rename_i hd
    exact h.append (List.nodup_singleton _) (by simpa using hd.2)
  · exact h

theorem addDigest_nonempty {digests : List String} {digest : String} (h : "" ∉ digests) :
    "" ∉ addDigest digests digest := by
  unfold addDigest
  split
  · rename_i hd
    simpa [h] using Ne.symm hd.1
  · exact h

theorem Binding.WellFormed.legacy {b : Binding} (h : b.WellFormed) :
    b.legacyDigests = b.effectDigests := by
  unfold Binding.legacyDigests
  rw [if_neg fun hd => hd.2 (h.mem hd.1)]

/-- What a bind stores: the incoming scope, the earlier digests and the incoming one. -/
theorem compatible_wellFormed {current : Option Binding} {incoming stored : Binding}
    (hw : ∀ b, current = some b → b.WellFormed)
    (h : compatible current incoming = some stored) :
    stored.WellFormed ∧ stored.scope = incoming.scope ∧ stored.scopeKey = incoming.scopeKey
      ∧ stored.context = incoming.context
      ∧ (incoming.effectDigest ≠ "" → incoming.effectDigest ∈ stored.effectDigests)
      ∧ ∀ b, current = some b → b.Extends stored := by
  cases current with
  | none =>
    simp only [compatible, Option.some.injEq] at h
    subst h
    by_cases hd : incoming.effectDigest = ""
    · exact ⟨⟨by simp [hd], fun h => absurd hd h, by simp [hd]⟩, rfl, rfl, rfl,
        fun h => absurd hd h, nofun⟩
    · exact ⟨⟨by simp [hd], by simp [hd], by simp [hd, Ne.symm hd]⟩, rfl, rfl, rfl,
        by simp [hd], nofun⟩
  | some b =>
    have hb := hw b rfl
    simp only [compatible] at h
    split at h
    case isFalse => cases h
    rename_i hs
    obtain ⟨h1, h2, h3⟩ := (sameScope_iff b incoming).1 hs
    simp only [Option.some.injEq, hb.legacy] at h
    subst h
    refine ⟨⟨addDigest_nodup hb.nodup, fun hne => ?_, addDigest_nonempty hb.nonempty⟩, h1, h2, h3,
      mem_addDigest, ?_⟩
    · by_cases hd : b.effectDigest = ""
      · simp only [hd, if_true] at hne ⊢
        exact mem_addDigest hne
      · simp only [hd, if_false]
        exact (prefix_addDigest _ _).subset (hb.mem hd)
    · rintro _ ⟨⟩
      exact ⟨rfl, rfl, rfl, prefix_addDigest _ _⟩

/-! ## What holds after every run -/

def Event.IsConsumed : Event → Prop
  | .consumed _ => True
  | _ => False

def Event.IsContinued : Event → Prop
  | .continued _ => True
  | _ => False

def Event.IsBound : Event → Prop
  | .bound _ => True
  | _ => False

/-- The stored binding has the scope and the digest of an incoming one. -/
structure Binding.Holds (b incoming : Binding) : Prop where
  scope : b.scope = incoming.scope
  scopeKey : b.scopeKey = incoming.scopeKey
  context : b.context = incoming.context
  digest : incoming.effectDigest ≠ "" → b.effectDigests.count incoming.effectDigest = 1

/-- What may come after what, of the consumptions and the continuations. -/
def Follows (later earlier : Event) : Prop :=
  (later.IsConsumed → ¬ earlier.IsConsumed)
    ∧ (earlier = .revoked → ¬ later.IsConsumed ∧ ¬ later.IsContinued)

/-- No bind has succeeded after a revocation returned. -/
def State.Barred (s : State) : Prop :=
  s.log.Pairwise fun later earlier => earlier = .revoked → ¬ later.IsBound

/-- Every continuation comes after the consumption that it continues. -/
def State.Earned (s : State) : Prop :=
  ∀ claims earlier, (.continued claims :: earlier) <:+ s.log →
    ∃ record, .consumed record ∈ earlier ∧ claims.exp = some record.exp
      ∧ claims.workflowContinuation = record.workflowContinuation

def State.binding (s : State) : Option Binding := s.document.bind (·.executionBinding)

def State.Keeps (s s' : State) : Prop :=
  ∀ b, s.binding = some b → ∃ b', s'.binding = some b' ∧ b.Extends b'

/-- An authorization is used once, and not after it is revoked; its binding keeps its scope and
lists the digest of every bind once. -/
structure State.SingleUse (opened : Token → Except String Claims) (jti : String) (s : State) :
    Prop where
  follows : s.log.Pairwise Follows
  barred : s.Barred
  earned : s.Earned
  holds : ∀ incoming, .bound incoming ∈ s.log → ∃ b, s.binding = some b ∧ b.Holds incoming
  keeps : ∀ acts s', Acts.run (State.step opened jti) s acts = some s' → s.Keeps s'

structure State.Inv (s : State) : Prop where
  consumed : ∀ record, .consumed record ∈ s.log ↔
    ∃ d, s.document = some d ∧ d.record = some record
  revoked : .revoked ∈ s.log → ∃ d, s.document = some d ∧ d.revoked = true
  wellFormed : ∀ b, s.binding = some b → b.WellFormed
  holds : ∀ incoming, .bound incoming ∈ s.log → ∃ b, s.binding = some b ∧ b.Holds incoming
  follows : s.log.Pairwise Follows
  earned : s.Earned

theorem Inv.start : State.start.Inv :=
  ⟨by simp [State.start], by simp [State.start], by simp [State.start, State.binding],
    by simp [State.start], .nil, fun _ _ h => by simp [State.start] at h⟩

theorem Binding.Holds.extends {b b' incoming : Binding} (h : b.Holds incoming)
    (he : b.Extends b') (hw : b'.WellFormed) : b'.Holds incoming where
  scope := he.scope.trans h.scope
  scopeKey := he.scopeKey.trans h.scopeKey
  context := he.context.trans h.context
  digest hd :=
    have hm : incoming.effectDigest ∈ b.effectDigests := by
      rw [← List.count_pos_iff, h.digest hd]
      exact Nat.one_pos
    List.count_eq_one_of_mem hw.nodup (he.digests.subset hm)

theorem compatible_holds {current : Option Binding} {incoming stored : Binding}
    (hw : ∀ b, current = some b → b.WellFormed)
    (h : compatible current incoming = some stored) : stored.Holds incoming := by
  obtain ⟨hn, h1, h2, h3, hd, -⟩ := compatible_wellFormed hw h
  exact ⟨h1, h2, h3, fun hne => List.count_eq_one_of_mem hn.nodup (hd hne)⟩

theorem took_keeps {s s' : State} {a : Act Token} (h : Took s a s')
    (hw : ∀ b, s.binding = some b → b.WellFormed) : s.Keeps s' := by
  intro b hb
  cases h with
  | consumed record hd => simp [State.binding, hd] at hb
  | created hd => simp [State.binding, hd] at hb
  | merged hd =>
    simp only [State.binding, hd, Option.bind_some] at hb
    exact ⟨b, by simpa [State.binding, State.returns] using hb, .refl b⟩
  | bound binding hd hc =>
    simp only [State.binding, hd, Option.bind_some] at hb hw
    exact ⟨_, rfl, (compatible_wellFormed hw hc).2.2.2.2.2 b hb⟩
  | found _ | unbound _ _ | denied _ | continued _ _ _ _ _ _ | refused _ =>
    exact ⟨b, hb, .refl b⟩

/-- An event that is none of the four leaves what the log says of them. -/
theorem State.Inv.returns {s : State} {e : Event} (hi : s.Inv)
    (he : e = .denied ∨ e = .unbound ∨ ∃ error, e = .refused error) : (s.returns e).Inv := by
  have hne : ¬ e.IsConsumed ∧ ¬ e.IsContinued ∧ ¬ e.IsBound ∧ e ≠ .revoked := by
    rcases he with rfl | rfl | ⟨error, rfl⟩ <;>
      simp [Event.IsConsumed, Event.IsContinued, Event.IsBound]
  obtain ⟨h1, h2, h3, h4⟩ := hne
  refine ⟨fun record => ?_, fun hm => ?_, hi.wellFormed, fun incoming hm => ?_, ?_, ?_⟩
  · refine (List.mem_cons.trans (or_iff_right ?_)).trans (hi.consumed record)
    rintro rfl
    exact h1 trivial
  · exact hi.revoked ((List.mem_cons.1 hm).resolve_left h4.symm)
  · refine hi.holds incoming ((List.mem_cons.1 hm).resolve_left ?_)
    rintro rfl
    exact h3 trivial
  · exact List.pairwise_cons.2 ⟨fun _ _ => ⟨fun h => absurd h h1, fun _ => ⟨h1, h2⟩⟩, hi.follows⟩
  · intro claims earlier hs
    rcases List.suffix_cons_iff.1 hs with heq | hs
    · cases heq
      exact absurd trivial h2
    · exact hi.earned claims earlier hs

theorem State.Earned.cons {s s' : State} {e : Event} (h : s.Earned)
    (hl : s'.log = e :: s.log) (he : ¬ e.IsContinued) : s'.Earned := by
  intro claims earlier hs
  rw [hl] at hs
  rcases List.suffix_cons_iff.1 hs with heq | hs
  · cases heq
    exact absurd trivial he
  · exact h claims earlier hs

theorem took_inv {s s' : State} {a : Act Token} (h : Took s a s') (hi : s.Inv) : s'.Inv := by
  have hfresh (hd : s.document = none) :
      (∀ record, .consumed record ∉ s.log) ∧ .revoked ∉ s.log ∧ ∀ b, .bound b ∉ s.log := by
    refine ⟨fun record hm => ?_, fun hm => ?_, fun b hm => ?_⟩
    · simpa [hd] using (hi.consumed record).1 hm
    · simpa [hd] using hi.revoked hm
    · simpa [State.binding, hd] using hi.holds b hm
  have hkeeps := took_keeps h hi.wellFormed
  cases h with
  | consumed record hd =>
    obtain ⟨h1, h2, h3⟩ := hfresh hd
    refine ⟨fun r => ?_, fun hm => ?_, by simp [State.returns, State.binding], fun b hm => ?_,
      List.pairwise_cons.2 ⟨fun e he => ⟨fun _ hc => ?_, ?_⟩, hi.follows⟩, ?_⟩
    · simp [State.returns, h1, eq_comm]
    · exact absurd ((List.mem_cons.1 hm).resolve_left nofun) h2
    · exact absurd ((List.mem_cons.1 hm).resolve_left nofun) (h3 b)
    · cases e with
      | consumed r => exact h1 r he
      | _ => exact hc
    · rintro rfl
      exact absurd he h2
    · exact hi.earned.cons rfl id
  | created hd =>
    obtain ⟨h1, h2, h3⟩ := hfresh hd
    refine ⟨fun r => ?_, fun _ => ⟨_, rfl, rfl⟩, by simp [State.returns, State.binding],
      fun b hm => ?_, List.pairwise_cons.2 ⟨fun e he => ⟨False.elim, fun _ => ⟨id, id⟩⟩,
        hi.follows⟩, hi.earned.cons rfl id⟩
    · simp [State.returns, h1]
    · exact absurd ((List.mem_cons.1 hm).resolve_left nofun) (h3 b)
  | found hd => exact ⟨hi.consumed, hi.revoked, hi.wellFormed, hi.holds, hi.follows, hi.earned⟩
  | @merged n d hd =>
    refine ⟨fun r => ?_, fun _ => ⟨_, rfl, rfl⟩, fun b hb => hi.wellFormed b ?_, fun b hm => ?_,
      List.pairwise_cons.2 ⟨fun e he => ⟨False.elim, fun _ => ⟨id, id⟩⟩,
        hi.follows⟩, hi.earned.cons rfl id⟩
    · simpa [State.returns, hd] using hi.consumed r
    · simpa [State.returns, State.binding, hd] using hb
    · simpa [State.returns, State.binding, hd] using
        hi.holds b ((List.mem_cons.1 hm).resolve_left nofun)
  | @bound d stored binding hd hc =>
    have hw : ∀ b, d.executionBinding = some b → b.WellFormed := by
      simpa [State.binding, hd] using hi.wellFormed
    have hs := (compatible_wellFormed hw hc).1
    refine ⟨fun r => ?_, fun hm => ?_, ?_, fun b hm => ?_,
      List.pairwise_cons.2 ⟨fun e he => ⟨False.elim, fun _ => ⟨id, id⟩⟩, hi.follows⟩,
      hi.earned.cons rfl id⟩
    · simpa [State.returns, hd] using hi.consumed r
    · simpa [State.returns, hd] using hi.revoked ((List.mem_cons.1 hm).resolve_left nofun)
    · rintro b ⟨⟩
      exact hs
    · refine ⟨stored, rfl, ?_⟩
      rcases List.mem_cons.1 hm with heq | hm
      · cases heq
        exact compatible_holds hw hc
      · obtain ⟨b₀, hb₀, hh⟩ := hi.holds b hm
        obtain ⟨b', hb', he⟩ := hkeeps b₀ hb₀
        cases hb'
        exact hh.extends he hs
  | unbound binding hd => exact hi.returns (.inr (.inl rfl))
  | denied record => exact hi.returns (.inl rfl)
  | refused error => exact hi.returns (.inr (.inr ⟨error, rfl⟩))
  | @continued token expected now claims d record hd hr hv hw hw' he =>
    have hrev : .revoked ∉ s.log := fun hm => by
      obtain ⟨d', hd', hv'⟩ := hi.revoked hm
      cases hd.symm.trans hd'
      simp [hv] at hv'
    refine ⟨fun r => ?_, fun hm => ?_, hi.wellFormed, fun b hm => ?_,
      List.pairwise_cons.2 ⟨fun e hm => ⟨False.elim, fun h => ?_⟩, hi.follows⟩, ?_⟩
    · simpa [State.returns] using hi.consumed r
    · exact absurd ((List.mem_cons.1 hm).resolve_left nofun) hrev
    · exact hi.holds b ((List.mem_cons.1 hm).resolve_left nofun)
    · subst h
      exact absurd hm hrev
    · intro c earlier hs
      rcases List.suffix_cons_iff.1 hs with heq | hs
      · cases heq
        exact ⟨record, (hi.consumed record).2 ⟨d, hd, hr⟩, he, hw'.trans hw.symm⟩
      · exact hi.earned c earlier hs

/-! ## Binds after a revocation -/

/-- A bind that comes after a revocation meets a stored binding of another scope. -/
def Withheld (s : State) (a : Act Token) : Prop :=
  ∀ binding, a = .bind binding → .revoked ∈ s.log →
    ∃ b, s.binding = some b ∧ b.sameScope binding = false

theorem compatible_sameScope {b incoming stored : Binding}
    (h : compatible (some b) incoming = some stored) : b.sameScope incoming = true := by
  simp only [compatible] at h
  split at h
  · assumption
  · cases h

theorem barred_cons {s : State} {e : Event} (he : ¬ e.IsBound) :
    (s.returns e).Barred ↔ s.Barred :=
  List.pairwise_cons.trans (and_iff_right fun _ _ _ => he)

theorem took_barred {s s' : State} {a : Act Token} (h : Took s a s') (hi : s.Inv) :
    s'.Barred ↔ Withheld s a ∧ s.Barred := by
  have hother (hb : s'.Barred ↔ s.Barred) (hw : Withheld s a) :
      s'.Barred ↔ Withheld s a ∧ s.Barred := by
    rw [hb, and_iff_right hw]
  cases h with
  | consumed | created | merged | continued | denied | refused =>
    exact hother (barred_cons id) nofun
  | found => exact hother Iff.rfl nofun
  | unbound binding hd =>
    refine hother (barred_cons id) fun binding' hb hm => ?_
    cases hb
    obtain ⟨d, hdoc, -⟩ := hi.revoked hm
    obtain ⟨b, hb, hs⟩ := hd d hdoc
    exact ⟨b, by simp [State.binding, hdoc, hb], hs⟩
  | @bound d stored binding hd hc =>
    refine List.pairwise_cons.trans (and_congr_left fun _ => ⟨fun h binding' hb hm => ?_,
      fun h e hm he _ => ?_⟩)
    · exact absurd trivial (h _ hm rfl)
    · subst he
      obtain ⟨b, hb, hs⟩ := h binding rfl hm
      simp only [State.binding, hd, Option.bind_some] at hb
      rw [hb] at hc
      simp [compatible_sameScope hc] at hs

theorem run_inv {acts : List (Act Token)} {s s' : State}
    (h : Acts.run (State.step opened jti) s acts = some s') (hi : s.Inv) :
    s'.Inv ∧ s.Keeps s'
      ∧ (s'.Barred ↔ Acts.Each (State.step opened jti) Withheld s acts ∧ s.Barred) := by
  induction acts generalizing s with
  | nil =>
    cases h
    exact ⟨hi, fun b hb => ⟨b, hb, .refl b⟩, (and_iff_right trivial).symm⟩
  | cons a acts ih =>
    obtain ⟨s₁, h₁, h⟩ := Option.bind_eq_some_iff.1 ((Acts.run_cons s a acts).symm.trans h)
    have ht := step_took h₁
    obtain ⟨hi', hk, hb⟩ := ih h (took_inv ht hi)
    refine ⟨hi', fun b hs => ?_, ?_⟩
    · obtain ⟨b₁, hs₁, he₁⟩ := took_keeps ht hi.wellFormed b hs
      obtain ⟨b', hs', he'⟩ := hk b₁ hs₁
      exact ⟨b', hs', he₁.trans he'⟩
    · rw [hb, took_barred ht hi, Acts.each_cons h₁]
      tauto

/-- An authorization is used once and not after it is revoked if and only if every bind that
comes after a revocation meets a stored binding of another scope. -/
theorem ticket_single_use {acts : List (Act Token)} {s : State}
    (h : Acts.run (State.step opened jti) .start acts = some s) :
    s.SingleUse opened jti ↔ Acts.Each (State.step opened jti) Withheld .start acts := by
  obtain ⟨hi, -, hb⟩ := run_inv h Inv.start
  rw [and_iff_left .nil] at hb
  refine ⟨fun hs => hb.1 hs.barred, fun he => ?_⟩
  exact ⟨hi.follows, hb.2 he, hi.earned, hi.holds, fun acts' s' h' => (run_inv h' hi).2.1⟩

def demoRecord : Record := ⟨300, true, []⟩
def demoBinding : Binding := ⟨some "runtime-v1", some "service", none, "d", []⟩
def demoOpened (_ : Unit) : Except String Claims := .error "Malformed release authorization"

def demoActs : List (Act Unit) :=
  [.consume demoRecord, .bind demoBinding, .revoke, .merge,
    .bind { demoBinding with scopeKey := some "other" }]

theorem ticket_single_use_demo :
    ∃ s, Acts.run (State.step demoOpened "j") .start demoActs = some s
      ∧ s.SingleUse demoOpened "j" := by
  obtain ⟨s, hs⟩ : ∃ s, Acts.run (State.step demoOpened "j") .start demoActs = some s :=
    ⟨_, rfl⟩
  refine ⟨s, hs, (ticket_single_use hs).2 ?_⟩
  refine (Acts.each_cons rfl).2 ⟨nofun, (Acts.each_cons rfl).2 ⟨fun _ _ hm => ?_, ?_⟩⟩
  · simp [State.start, State.returns] at hm
  refine (Acts.each_cons rfl).2 ⟨nofun, (Acts.each_cons rfl).2 ⟨nofun, ?_⟩⟩
  refine (Acts.each_cons rfl).2 ⟨?_, trivial⟩
  rintro _ ⟨⟩ -
  exact ⟨_, rfl, by decide⟩

/-- The ticket is consumed and revoked, and then bound. -/
theorem bound_after_revoke :
    ∃ s, Acts.run (State.step demoOpened "j") .start
        [.consume demoRecord, .revoke, .merge, .bind demoBinding] = some s
      ∧ ¬ s.SingleUse demoOpened "j" := by
  refine ⟨_, rfl, fun h => ?_⟩
  exact (List.pairwise_cons.1 h.barred).1 .revoked (by simp [State.returns]) rfl trivial

end Authorization
