import EngPlatform.Lib.Asks
import EngPlatform.Mcp.Consent

/-!
# The documents of an authorization, and the contract of their requests

Beside the documents, the world remembers who drew an opaque identity, whom GitHub named to a
callback, and what each request consumed and stored last. A request consumes one document at most
and stores under one key, which it drew, so that a document that was consumed never comes back:
each document is consumed by one request at most.
-/

set_option linter.dupNamespace false

namespace Mcp.Consent

open Interleave Discipline

/-- A document. -/
structure Entry where
  stage : Stage
  key : String
  record : Pending
  deriving DecidableEq

structure World (ι : Type) where
  docs : Stage → String → Option Pending
  owner : String → Option ι
  named : ι → Option String
  took : ι → Option Entry
  wrote : ι → Option Entry

variable {ι : Type}

def World.start : World ι where
  docs _ _ := none
  owner _ := none
  named _ := none
  took _ := none
  wrote _ := none

/-- The answer of a request that raises. -/
def lost {α : Type} (r : Except Raised α) : Prop := ∃ x, r = .error x

def World.withDoc (w : World ι) (stage : Stage) (key : String) (p : Option Pending) : World ι :=
  { w with docs := Function.update w.docs stage (Function.update (w.docs stage) key p) }

section Updates

variable [DecidableEq ι]

def World.save (w : World ι) (i : ι) (e : Entry) : World ι :=
  { w.withDoc e.stage e.key (some e.record) with wrote := Function.update w.wrote i (some e) }

def World.consume (w : World ι) (i : ι) (e : Entry) : World ι :=
  { w.withDoc e.stage e.key none with took := Function.update w.took i (some e) }

def World.name (w : World ι) (i : ι) (login : String) : World ι :=
  { w with named := Function.update w.named i (some login) }

def World.draw (w : World ι) (i : ι) (o : String) : World ι :=
  { w with owner := Function.update w.owner o (some i) }

/-- Identities are drawn once, and a request that raises may have taken effect. -/
def sem (i : ι) (w : World ι) : (c : Call) → World ι → c.Ans → Prop
  | .opaqueId, w', r => (w' = w ∧ lost r) ∨
    ∃ o, r = .ok o ∧ w.owner o = none ∧ w' = w.draw i o
  | .time, w', _ => w' = w
  | .get stage key, w', r => w' = w ∧ (r = .ok (w.docs stage key) ∨ lost r)
  | .save stage key p, w', r =>
    (w' = w ∧ lost r) ∨ (w' = w.save i ⟨stage, key, p⟩ ∧ (r = .ok () ∨ lost r))
  | .consume stage key, w', r =>
    (w' = w ∧ (lost r ∨ (w.docs stage key = none ∧ r = .ok none))) ∨
      ∃ p, w.docs stage key = some p ∧ w' = w.consume i ⟨stage, key, p⟩ ∧
        (r = .ok (some p) ∨ lost r)
  | .github _, w', r => (w' = w ∧ lost r) ∨ ∃ login, r = .ok login ∧ w' = w.name i login

end Updates

/-- Retention removes documents. -/
inductive Moves (w : World ι) : World ι → Prop
  | forget (stage : Stage) (key : String) : Moves w (w.withDoc stage key none)

def system (ι : Type) [DecidableEq ι] : System ι (World ι) Call.Ans where
  sem := sem
  env := Moves

/-- The key of an identity that `i` drew. -/
def World.Drew (w : World ι) (key : String → String) (i : ι) (k : String) : Prop :=
  ∃ o, k = key o ∧ w.owner o = some i

/-- A document that its writer is done with. -/
def Entry.isFinal (e : Entry) : Prop := e.stage = .consent → e.record.browserNonceHash ≠ none

/-- The decision that leads to a code. -/
structure Decision.Allows (cfg : Settings) (d : Decision) : Prop where
  origin : d.origin = some cfg.origin
  csrf : d.csrf = d.cookie
  decision : d.decision = some "allow"

section Contract

variable (cfg : Settings) (key : String → String) (requests : ι → Request)

/-- What `i` stored, from what it consumed. -/
def Origin (w : World ι) (i : ι) (e : Entry) : Prop :=
  match e.stage with
  | .state => ∃ client params expiresAt, requests i = .authorize client params ∧
    params.asked = [scope] ∧ e.record = params.pending client expiresAt
  | .consent => ∃ state response p login expiresAt nonceHash,
    requests i = .callback state response ∧ w.took i = some ⟨.state, key state, p⟩ ∧
    w.named i = some login ∧ databaseLogin login = true ∧
    (∀ h, nonceHash = some h → w.Drew key i h) ∧
    e.record = { p with subject := some login, expiresAt, browserNonceHash := nonceHash }
  | .code => ∃ d p expiresAt, requests i = .decide d ∧ d.Allows cfg ∧
    w.took i = some ⟨.consent, key d.consent, p⟩ ∧ e.record = { p with expiresAt }

/-- What `i` may consume. -/
def Claims (w : World ι) (i : ι) (stage : Stage) (k : String) : Prop :=
  match stage with
  | .state => ∃ state response, requests i = .callback state response ∧ k = key state
  | .consent => ∃ d j p, requests i = .decide d ∧ k = key d.consent ∧
    w.wrote j = some ⟨.consent, k, p⟩ ∧ p.browserNonceHash = some (key d.csrf)
  | .code => ∃ client code, requests i = .exchange client code ∧ k = key code

/-- What holds in every state. -/
structure Inv (w : World ι) : Prop where
  doc : ∀ stage k p, w.docs stage k = some p → ∃ i, w.wrote i = some ⟨stage, k, p⟩
  drew : ∀ i e, w.wrote i = some e → w.Drew key i e.key
  origin : ∀ i e, w.wrote i = some e → Origin cfg key requests w i e
  claims : ∀ i e, w.took i = some e → Claims key requests w i e.stage e.key
  parent : ∀ i e, w.took i = some e → e.isFinal ∧ (∃ j, w.wrote j = some e) ∧
    w.docs e.stage e.key = none
  once : ∀ i j e e', w.took i = some e → w.took j = some e' → e.stage = e'.stage →
    e.key = e'.key → i = j

/-- What `i` may do. -/
def Allowed (i : ι) (w : World ι) : Call → Prop
  | .save stage k p => (∀ e, w.wrote i = some e → e.stage = stage ∧ e.key = k ∧ ¬e.isFinal) ∧
    w.Drew key i k ∧ Origin cfg key requests w i ⟨stage, k, p⟩
  | .consume stage k => w.took i = none ∧ Claims key requests w i stage k
  | .github _ => w.named i = none
  | _ => True

end Contract

/-- What `i` may count on. -/
structure Rely (i : ι) (w w' : World ι) : Prop where
  owner : ∀ o j, w.owner o = some j → w'.owner o = some j
  named : w'.named i = w.named i
  took : w'.took i = w.took i
  wrote : w'.wrote i = w.wrote i
  final : ∀ j e, w.wrote j = some e → e.isFinal → w'.wrote j = some e

theorem Rely.refl (i : ι) (w : World ι) : Rely i w w :=
  ⟨fun _ _ h => h, rfl, rfl, rfl, fun _ _ h _ => h⟩

theorem Rely.trans {i : ι} {w w' w'' : World ι} (h : Rely i w w') (h' : Rely i w' w'') :
    Rely i w w'' where
  owner o j ho := h'.owner o j (h.owner o j ho)
  named := h'.named.trans h.named
  took := h'.took.trans h.took
  wrote := h'.wrote.trans h.wrote
  final j e hj hf := h'.final j e (h.final j e hj hf) hf

/-- What may happen to the documents. -/
inductive Did [DecidableEq ι] (i : ι) (w : World ι) : Call → World ι → Prop
  | nothing (c : Call) : Did i w c w
  | draw (o : String) (h : w.owner o = none) : Did i w .opaqueId (w.draw i o)
  | save (stage : Stage) (k : String) (p : Pending) :
    Did i w (.save stage k p) (w.save i ⟨stage, k, p⟩)
  | consume (stage : Stage) (k : String) (p : Pending) (h : w.docs stage k = some p) :
    Did i w (.consume stage k) (w.consume i ⟨stage, k, p⟩)
  | name (response login : String) : Did i w (.github response) (w.name i login)

section Steps

variable {cfg : Settings} {key : String → String} {requests : ι → Request}
variable {i j : ι} {w w' : World ι}

theorem Entry.isFinal_of_bound {e : Entry} {h : String} (hh : e.record.browserNonceHash = some h) :
    e.isFinal := by
  intro _ hn
  rw [hn] at hh
  cases hh

theorem World.Drew.mono {k : String} (h : w.Drew key i k)
    (hw : ∀ o j, w.owner o = some j → w'.owner o = some j) : w'.Drew key i k := by
  obtain ⟨o, ho, hi⟩ := h
  exact ⟨o, ho, hw o i hi⟩

/-- Two requests draw different identities. -/
theorem World.Drew.unique (hk : Function.Injective key) {k : String} (h : w.Drew key i k)
    (h' : w.Drew key j k) : i = j := by
  obtain ⟨o, rfl, hi⟩ := h
  obtain ⟨o', ho, hj⟩ := h'
  obtain rfl := hk ho
  rw [hi] at hj
  exact Option.some.inj hj

/-- The writer of a key, and what it wrote there. -/
theorem Inv.writer (hk : Function.Injective key) (hI : Inv cfg key requests w) {e e' : Entry}
    (he : w.wrote i = some e) (he' : w.wrote j = some e') (h : e.key = e'.key) : i = j ∧ e = e' := by
  obtain rfl := (hI.drew i e he).unique hk (h ▸ hI.drew j e' he')
  rw [he] at he'
  exact ⟨rfl, Option.some.inj he'⟩

theorem Origin.mono {e : Entry} (h : Origin cfg key requests w i e)
    (howner : ∀ o j, w.owner o = some j → w'.owner o = some j)
    (htook : ∀ e, w.took i = some e → w'.took i = some e)
    (hnamed : ∀ x, w.named i = some x → w'.named i = some x) :
    Origin cfg key requests w' i e := by
  unfold Origin at h ⊢
  rcases hs : e.stage <;> simp only [hs] at h ⊢
  · exact h
  · obtain ⟨state, response, p, login, expiresAt, nonceHash, hr, ht, hn, hl, hh, he⟩ := h
    exact ⟨state, response, p, login, expiresAt, nonceHash, hr, htook _ ht, hnamed _ hn, hl,
      fun x hx => (hh x hx).mono howner, he⟩
  · obtain ⟨d, p, expiresAt, hr, ha, ht, he⟩ := h
    exact ⟨d, p, expiresAt, hr, ha, htook _ ht, he⟩

theorem Claims.mono {stage : Stage} {k : String} (h : Claims key requests w i stage k)
    (hfinal : ∀ j e, w.wrote j = some e → e.isFinal → w'.wrote j = some e) :
    Claims key requests w' i stage k := by
  unfold Claims at h ⊢
  rcases stage <;> simp only at h ⊢
  · exact h
  · obtain ⟨d, j, p, hr, hkd, hw, hh⟩ := h
    exact ⟨d, j, p, hr, hkd, hfinal _ _ hw (Entry.isFinal_of_bound hh), hh⟩
  · exact h

theorem draw_owner {o : String} (h : w.owner o = none) (o' : String) (j : ι)
    (hj : w.owner o' = some j) : (w.draw i o).owner o' = some j := by
  have hne : o' ≠ o := by
    rintro rfl
    rw [h] at hj
    cases hj
  simpa [World.draw, Function.update_of_ne hne] using hj

theorem Inv.draw (hI : Inv cfg key requests w) {o : String} (h : w.owner o = none) :
    Inv cfg key requests (w.draw i o) where
  doc := hI.doc
  drew j e he := (hI.drew j e he).mono (draw_owner h)
  origin j e he := (hI.origin j e he).mono (draw_owner h) (fun _ h => h) fun _ h => h
  claims := hI.claims
  parent := hI.parent
  once := hI.once

@[simp] theorem withDoc_self (stage : Stage) (k : String) (p : Option Pending) :
    (w.withDoc stage k p).docs stage k = p := by
  simp [World.withDoc]

theorem withDoc_cases (w : World ι) (stage : Stage) (k : String) (p : Option Pending)
    (stage' : Stage) (k' : String) : stage' = stage ∧ k' = k ∨
      (w.withDoc stage k p).docs stage' k' = w.docs stage' k' := by
  by_cases hs : stage' = stage
  · subst hs
    by_cases hkk : k' = k
    · exact .inl ⟨rfl, hkk⟩
    · right
      simp [World.withDoc, Function.update_of_ne hkk]
  · right
    simp [World.withDoc, Function.update_of_ne hs]

/-- A document that is gone is not there. -/
theorem withDoc_none {stage stage' : Stage} {k k' : String} {p : Pending}
    (h : (w.withDoc stage k none).docs stage' k' = some p) : w.docs stage' k' = some p := by
  rcases withDoc_cases w stage k none stage' k' with ⟨rfl, rfl⟩ | heq
  · rw [withDoc_self] at h
    cases h
  · rwa [heq] at h

theorem withDoc_gone {stage stage' : Stage} {k k' : String} (h : w.docs stage' k' = none) :
    (w.withDoc stage k none).docs stage' k' = none := by
  rcases withDoc_cases w stage k none stage' k' with ⟨rfl, rfl⟩ | heq
  · exact withDoc_self _ _ _
  · rwa [heq]

theorem Inv.forget (hI : Inv cfg key requests w) (stage : Stage) (k : String) :
    Inv cfg key requests (w.withDoc stage k none) where
  doc stage' k' p h := hI.doc stage' k' p (withDoc_none h)
  drew := hI.drew
  origin := hI.origin
  claims := hI.claims
  parent j e he := (hI.parent j e he).imp_right fun h => ⟨h.1, withDoc_gone h.2⟩
  once := hI.once

/-- What is consumed is final. -/
theorem Inv.final {stage : Stage} {k : String} {p : Pending} (hk : Function.Injective key)
    (hI : Inv cfg key requests w) (hc : Claims key requests w i stage k) (hp : w.docs stage k = some p) :
    Entry.isFinal ⟨stage, k, p⟩ := by
  intro hs
  obtain rfl : stage = .consent := hs
  obtain ⟨d, j, p', -, -, hj, hh⟩ := hc
  obtain ⟨j', hj'⟩ := hI.doc _ _ _ hp
  obtain ⟨-, he⟩ := hI.writer hk hj hj' rfl
  obtain rfl : p' = p := congrArg Entry.record he
  rw [hh]
  exact Option.some_ne_none _

variable [DecidableEq ι]

theorem Inv.name (hI : Inv cfg key requests w) {login : String} (h : w.named i = none) :
    Inv cfg key requests (w.name i login) where
  doc := hI.doc
  drew := hI.drew
  origin j e he := by
    refine (hI.origin j e he).mono (fun _ _ h => h) (fun _ h => h) fun x hx => ?_
    have hne : j ≠ i := by
      rintro rfl
      rw [h] at hx
      cases hx
    simpa [World.name, Function.update_of_ne hne] using hx
  claims := hI.claims
  parent := hI.parent
  once := hI.once

section Save

variable {stage : Stage} {k : String} {p : Pending}

/-- A document that its writer is done with stays as it is written. -/
theorem save_final (hal : Allowed cfg key requests i w (.save stage k p)) (j : ι) (e : Entry)
    (he : w.wrote j = some e) (hf : e.isFinal) :
    (w.save i ⟨stage, k, p⟩).wrote j = some e := by
  have hne : j ≠ i := by
    rintro rfl
    exact (hal.1 e he).2.2 hf
  simpa [World.save, Function.update_of_ne hne] using he

theorem Inv.save (hk : Function.Injective key) (hI : Inv cfg key requests w)
    (hal : Allowed cfg key requests i w (.save stage k p)) :
    Inv cfg key requests (w.save i ⟨stage, k, p⟩) where
  doc stage' k' p' h := by
    rcases withDoc_cases w stage k (some p) stage' k' with ⟨rfl, rfl⟩ | heq
    · have hp : p = p' := Option.some.inj ((withDoc_self (w := w) stage' k' (some p)).symm.trans h)
      exact ⟨i, by simp [World.save, hp]⟩
    · obtain ⟨j, hj⟩ := hI.doc stage' k' p' (heq.symm.trans h)
      by_cases hji : j = i
      · subst hji
        obtain ⟨hs, hkk, -⟩ := hal.1 _ hj
        obtain rfl : stage' = stage := hs
        obtain rfl : k' = k := hkk
        have hp : p = p' :=
          Option.some.inj ((withDoc_self (w := w) stage' k' (some p)).symm.trans h)
        exact ⟨j, by simp [World.save, hp]⟩
      · exact ⟨j, by simpa [World.save, Function.update_of_ne hji] using hj⟩
  drew j e he := by
    by_cases hji : j = i
    · subst hji
      obtain rfl : ⟨stage, k, p⟩ = e := by simpa [World.save] using he
      exact hal.2.1
    · exact hI.drew j e (by simpa [World.save, Function.update_of_ne hji] using he)
  origin j e he := by
    by_cases hji : j = i
    · subst hji
      obtain rfl : ⟨stage, k, p⟩ = e := by simpa [World.save] using he
      exact hal.2.2
    · exact hI.origin j e (by simpa [World.save, Function.update_of_ne hji] using he)
  claims j e he := (hI.claims j e he).mono (save_final hal)
  parent j e he := by
    obtain ⟨hf, ⟨j', hj'⟩, hd⟩ := hI.parent j e he
    refine ⟨hf, ⟨j', save_final hal j' e hj' hf⟩, ?_⟩
    rcases withDoc_cases w stage k (some p) e.stage e.key with ⟨-, hkk⟩ | heq
    · have hij : j' = i := (hI.drew j' e hj').unique hk (hkk ▸ hal.2.1)
      subst hij
      exact absurd hf (hal.1 e hj').2.2
    · exact heq.trans hd
  once := hI.once

end Save

section Consume

variable {stage : Stage} {k : String} {p : Pending}

theorem consume_took (hal : Allowed cfg key requests i w (.consume stage k)) (j : ι) (e : Entry)
    (he : w.took j = some e) : (w.consume i ⟨stage, k, p⟩).took j = some e := by
  have hne : j ≠ i := by
    rintro rfl
    rw [hal.1] at he
    cases he
  simpa [World.consume, Function.update_of_ne hne] using he

theorem Inv.consume (hk : Function.Injective key) (hI : Inv cfg key requests w)
    (hal : Allowed cfg key requests i w (.consume stage k)) (hp : w.docs stage k = some p) :
    Inv cfg key requests (w.consume i ⟨stage, k, p⟩) where
  doc stage' k' p' h := hI.doc stage' k' p' (withDoc_none h)
  drew := hI.drew
  origin j e he := (hI.origin j e he).mono (fun _ _ h => h) (consume_took hal j) fun _ h => h
  claims j e he := by
    by_cases hji : j = i
    · subst hji
      obtain rfl : ⟨stage, k, p⟩ = e := by simpa [World.consume] using he
      exact hal.2
    · exact hI.claims j e (by simpa [World.consume, Function.update_of_ne hji] using he)
  parent j e he := by
    by_cases hji : j = i
    · subst hji
      obtain rfl : ⟨stage, k, p⟩ = e := by simpa [World.consume] using he
      exact ⟨hI.final hk hal.2 hp, hI.doc _ _ _ hp, withDoc_self _ _ _⟩
    · obtain ⟨hf, hw, hd⟩ := hI.parent j e
        (by simpa [World.consume, Function.update_of_ne hji] using he)
      exact ⟨hf, hw, withDoc_gone hd⟩
  once j j' e e' he he' hs hkk := by
    have hnew : ∀ j e, w.took j = some e → e.stage = stage → e.key = k → False := by
      rintro j₀ e₀ he₀ rfl rfl
      have hd := (hI.parent j₀ e₀ he₀).2.2
      rw [hp] at hd
      cases hd
    by_cases hji : j = i <;> by_cases hji' : j' = i
    · rw [hji, hji']
    · subst hji
      obtain rfl : ⟨stage, k, p⟩ = e := by simpa [World.consume] using he
      exact (hnew j' e' (by simpa [World.consume, Function.update_of_ne hji'] using he') hs.symm
        hkk.symm).elim
    · subst hji'
      obtain rfl : ⟨stage, k, p⟩ = e' := by simpa [World.consume] using he'
      exact (hnew j e (by simpa [World.consume, Function.update_of_ne hji] using he) hs hkk).elim
    · exact hI.once j j' e e' (by simpa [World.consume, Function.update_of_ne hji] using he)
        (by simpa [World.consume, Function.update_of_ne hji'] using he') hs hkk

end Consume

theorem did {c : Call} {r : c.Ans} (h : sem i w c w' r) : Did i w c w' := by
  cases c with
  | opaqueId =>
    rcases h with ⟨rfl, -⟩ | ⟨o, -, ho, rfl⟩
    · exact .nothing _
    · exact .draw o ho
  | time =>
    obtain rfl : w' = w := h
    exact .nothing _
  | get =>
    obtain rfl := h.1
    exact .nothing _
  | save =>
    rcases h with ⟨rfl, -⟩ | ⟨rfl, -⟩
    · exact .nothing _
    · exact .save _ _ _
  | consume =>
    rcases h with ⟨rfl, -⟩ | ⟨p, hp, rfl, -⟩
    · exact .nothing _
    · exact .consume _ _ p hp
  | github =>
    rcases h with ⟨rfl, -⟩ | ⟨login, -, rfl⟩
    · exact .nothing _
    · exact .name _ login

theorem inv_sem (hk : Function.Injective key) (hI : Inv cfg key requests w) {c : Call} {r : c.Ans}
    (hal : Allowed cfg key requests i w c) (h : sem i w c w' r) : Inv cfg key requests w' := by
  cases did h with
  | nothing => exact hI
  | draw o ho => exact hI.draw ho
  | save => exact hI.save hk hal
  | consume _ _ _ hp => exact hI.consume hk hal hp
  | name => exact hI.name hal

theorem rely_sem {c : Call} {r : c.Ans} (hij : i ≠ j) (hal : Allowed cfg key requests i w c)
    (h : sem i w c w' r) : Rely j w w' := by
  cases did h with
  | nothing => exact .refl j w
  | draw o ho => exact ⟨draw_owner ho, rfl, rfl, rfl, fun _ _ h _ => h⟩
  | save =>
    exact ⟨fun _ _ h => h, rfl, rfl, Function.update_of_ne hij.symm _ _, save_final hal⟩
  | consume =>
    exact ⟨fun _ _ h => h, rfl, Function.update_of_ne hij.symm _ _, rfl, fun _ _ h _ => h⟩
  | name => exact ⟨fun _ _ h => h, Function.update_of_ne hij.symm _ _, rfl, rfl, fun _ _ h _ => h⟩

variable (cfg requests) in
/-- The contract of the requests. -/
def contract (hk : Function.Injective key) : Discipline ι (World ι) Call.Ans where
  toSystem := system ι
  Inv := Inv cfg key requests
  Allowed := Allowed cfg key requests
  Rely := Rely
  rely_refl := Rely.refl
  rely_trans _ _ _ _ := Rely.trans
  inv_sem _ _ _ _ _ hI hal h := inv_sem hk hI hal h
  rely_sem _ _ _ _ _ _ hij _ hal h := rely_sem hij hal h
  inv_env _ _ hI h := by
    cases h
    exact hI.forget _ _
  rely_env _ _ _ _ h := by
    cases h
    exact ⟨fun _ _ h => h, rfl, rfl, rfl, fun _ _ h _ => h⟩

end Steps

end Mcp.Consent
