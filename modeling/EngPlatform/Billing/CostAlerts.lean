import EngPlatform.Lib.Acts
import Mathlib.Data.Nat.Notation
import Mathlib.Logic.Function.Basic

/-!
# One cost alert a day

The record of a day's alert has the text, the destination, the lease of the caller that delivers
it, and the result. A call of `send` reads it, asks the billing export when there is no text yet,
reserves it in a transaction, posts to the gateway and writes what came of that. The calls of one
day interleave at these steps, each with a clock of its own, and may stop at any of them.
-/

set_option linter.dupNamespace false

namespace CostAlerts

variable {ι : Type}

def recipientId : String := "76bfd5f9-0a15-4cc1-87b8-ad1b74a19165"
def leaseSeconds : Int := 120

/-! ## The gateway -/

/-- An answer of the gateway; an absent status or message id is empty. -/
structure Response where
  statusCode : ℕ
  status : String
  messageId : String
  deriving DecidableEq

structure Delivery where
  gatewayStatus : String
  gatewayMessageId : String
  providerAccepted : Bool
  deriving DecidableEq

def gatewayStatuses : List String :=
  ["queued", "sending", "sent", "provider_accepted", "delivered", "read", "send_unknown",
    "suppressed_quiet_hours", "retry_scheduled", "failed"]

def isReference (messageId : String) : Bool :=
  1 ≤ messageId.length && messageId.length ≤ 64
    && messageId.toList.all fun c => c.isAlphanum || c == '_' || c == '-'

/-- What `_deliver` makes of the answer, if one comes; without a result it raises. -/
def delivery : Option Response → Option Delivery
  | none => none
  | some response =>
    if response.statusCode = 202 ∧ response.status ∈ gatewayStatuses
        ∧ isReference response.messageId then
      some {
        gatewayStatus := response.status
        gatewayMessageId := response.messageId
        providerAccepted :=
          response.status ∈ ["provider_accepted", "sent", "delivered", "read"] }
    else none

/-- What a post carries. -/
structure Post where
  eventKey : String
  text : String
  address : String
  deriving DecidableEq

/-! ## The record -/

/-- A claim is drawn at random by each call, and stands here for the call. -/
structure Record (ι : Type) where
  destinationHash : Option String
  claim : Option ι
  leaseUntil : Option Int
  text : Option String
  result : Option Delivery
  deriving DecidableEq

def Record.empty : Record ι := ⟨none, none, none, none, none⟩

theorem ne_empty {r : Record ι} {h : String} (hd : r.destinationHash = some h) :
    r ≠ .empty := by
  rintro rfl
  cases hd

/-- Both completions, each an unconditional transform. -/
def Record.complete (r : Record ι) : Option Delivery → Record ι
  | none => { r with leaseUntil := some 0 }
  | some result => { r with result := some result, leaseUntil := some 0 }

section Complete

variable (r : Record ι) (o : Option Delivery)

@[simp] theorem complete_destinationHash : (r.complete o).destinationHash = r.destinationHash := by
  cases o <;> rfl

@[simp] theorem complete_claim : (r.complete o).claim = r.claim := by cases o <;> rfl

@[simp] theorem complete_text : (r.complete o).text = r.text := by cases o <;> rfl

@[simp] theorem complete_leaseUntil : (r.complete o).leaseUntil = some 0 := by cases o <;> rfl

theorem complete_result : (r.complete o).result = o.or r.result := by cases o <;> rfl

end Complete

def Record.storedText (r : Record ι) : Option String := r.text.filter (· ≠ "")

/-- The raise that the read and the reservation share. -/
def Record.elsewhere (r : Record ι) (destinationHash : String) : Prop :=
  r ≠ .empty ∧ r.destinationHash ≠ some destinationHash

/-- A reservation that does not raise has the stored destination. -/
theorem same_hash {hash : String → String} {r : Record ι} {address h : String}
    (hd : ¬ r.elsewhere (hash address)) (hh : r.destinationHash = some h) : h = hash address := by
  by_contra hne
  exact hd ⟨ne_empty hh, by simpa [hh] using hne⟩

variable [DecidableEq ι]

instance (r : Record ι) (destinationHash : String) : Decidable (r.elsewhere destinationHash) :=
  inferInstanceAs (Decidable (_ ∧ _))

/-- The transform of the reservation, after its raise. -/
def Record.reserve (r : Record ι) (i : ι) (now : Int) (destinationHash text : String) : Record ι :=
  if r.result.isSome ∨ now < r.leaseUntil.getD 0 then r
  else
    { r with
      destinationHash := some destinationHash
      claim := some i
      leaseUntil := some (now + leaseSeconds)
      text := some (r.storedText.getD text) }

/-! ## The calls -/

inductive Phase
  | idle
  | asked (now : Int) (address : String)
  | ready (now : Int) (address text : String)
  | granted (address text : String)
  | answered (result : Option Delivery)
  | returned
  deriving DecidableEq

inductive Act (ι : Type)
  | read (i : ι) (now : Int) (address : String)
  | compare (i : ι) (text : Option String)
  | reserve (i : ι)
  | post (i : ι) (response : Option Response)
  | complete (i : ι)

inductive Event (ι : Type)
  | granted (i : ι) (now : Int)
  | completed (i : ι) (result : Option Delivery)

/-- The log has the grants and the completions, the newest first. -/
structure State (ι : Type) where
  record : Record ι
  phase : ι → Phase
  posts : List Post
  log : List (Event ι)

def State.start : State ι := ⟨.empty, fun _ => .idle, [], []⟩

def State.enter (s : State ι) (i : ι) (p : Phase) : State ι :=
  { s with phase := Function.update s.phase i p }

/-- `hash` is the digest function of the deployment. -/
def eventKey (hash : String → String) (day : String) : String :=
  "cost-alert-" ++ hash (recipientId ++ ":" ++ day)

def State.step (hash : String → String) (day : String) (s : State ι) : Act ι → Option (State ι)
  | .read i now address =>
    match s.phase i with
    | .idle =>
      if s.record.elsewhere (hash address) ∨ s.record.result.isSome then
        some (s.enter i .returned)
      else
        match s.record.storedText with
        | some text => some (s.enter i (.ready now address text))
        | none => some (s.enter i (.asked now address))
    | _ => none
  | .compare i text =>
    match s.phase i with
    | .asked now address =>
      match text.filter (· ≠ "") with
      | some text => some (s.enter i (.ready now address text))
      | none => some (s.enter i .returned)
    | _ => none
  | .reserve i =>
    match s.phase i with
    | .ready now address text =>
      if s.record.elsewhere (hash address) then some (s.enter i .returned)
      else
        let reserved := s.record.reserve i now (hash address) text
        if reserved.result.isSome ∨ reserved.claim ≠ some i then
          some ({ s with record := reserved }.enter i .returned)
        else
          some ({ s with record := reserved, log := .granted i now :: s.log }.enter i
            (.granted address (reserved.text.getD "")))
    | _ => none
  | .post i response =>
    match s.phase i with
    | .granted address text =>
      some ({ s with posts := ⟨eventKey hash day, text, address⟩ :: s.posts }.enter i
        (.answered (delivery response)))
    | _ => none
  | .complete i =>
    match s.phase i with
    | .answered result =>
      some ({ s with
        record := s.record.complete result
        log := .completed i result :: s.log }.enter i .returned)
    | _ => none

/-! ## What a step does -/

variable {hash : String → String} {day : String}

/-- The phases before a caller has been granted the record. -/
def Phase.Early : Phase → Prop
  | .idle | .asked _ _ | .ready _ _ _ => True
  | _ => False

/-- What a caller moves to when it neither reserves nor posts. -/
def Phase.Next : Phase → Prop
  | .returned | .asked _ _ => True
  | .ready _ _ text => text ≠ ""
  | _ => False

inductive Took (hash : String → String) (day : String) : State ι → Act ι → State ι → Prop
  | moved {s : State ι} {a : Act ι} {i : ι} {p : Phase} (ha : ∀ j, a ≠ .complete j)
      (he : (s.phase i).Early) (hp : p.Next) : Took hash day s a (s.enter i p)
  | granted {s : State ι} {i : ι} {now : Int} {address text : String}
      (hph : s.phase i = .ready now address text) (hd : ¬ s.record.elsewhere (hash address))
      (hr : s.record.result = none) (hl : s.record.leaseUntil.getD 0 ≤ now) :
    Took hash day s (.reserve i)
      ({ s with
        record := { s.record with
          destinationHash := some (hash address)
          claim := some i
          leaseUntil := some (now + leaseSeconds)
          text := some (s.record.storedText.getD text) }
        log := .granted i now :: s.log }.enter i
        (.granted address (s.record.storedText.getD text)))
  | posted {s : State ι} {i : ι} {address text : String} (response : Option Response)
      (hph : s.phase i = .granted address text) :
    Took hash day s (.post i response)
      ({ s with posts := ⟨eventKey hash day, text, address⟩ :: s.posts }.enter i
        (.answered (delivery response)))
  | completed {s : State ι} {i : ι} {result : Option Delivery}
      (hph : s.phase i = .answered result) :
    Took hash day s (.complete i)
      ({ s with
        record := s.record.complete result
        log := .completed i result :: s.log }.enter i .returned)

theorem step_took {s s' : State ι} {a : Act ι} (h : s.step hash day a = some s')
    (hc : ∀ i, s.record.claim = some i → ¬ (s.phase i).Early) : Took hash day s a s' := by
  cases a with
  | read i now address =>
    simp only [State.step] at h
    split at h
    case h_2 => cases h
    rename_i hph
    have he : (s.phase i).Early := by rw [hph]; trivial
    split at h
    · cases h
      exact .moved nofun he trivial
    · split at h <;> cases h
      · rename_i ht
        exact .moved nofun he (by simpa [Phase.Next] using (Option.filter_eq_some_iff.1 ht).2)
      · exact .moved nofun he trivial
  | compare i text =>
    simp only [State.step] at h
    split at h
    case h_2 => cases h
    rename_i hph
    have he : (s.phase i).Early := by rw [hph]; trivial
    split at h <;> cases h
    · rename_i ht
      exact .moved nofun he (by simpa [Phase.Next] using (Option.filter_eq_some_iff.1 ht).2)
    · exact .moved nofun he trivial
  | reserve i =>
    simp only [State.step] at h
    split at h
    case h_2 => cases h
    rename_i now address text hph
    have he : (s.phase i).Early := by rw [hph]; trivial
    split at h
    · cases h
      exact .moved nofun he trivial
    rename_i hd
    by_cases hr : s.record.result.isSome ∨ now < s.record.leaseUntil.getD 0
    · have hsame : s.record.reserve i now (hash address) text = s.record := if_pos hr
      rw [hsame, if_pos (.inr fun hi => hc i hi he)] at h
      cases h
      exact .moved nofun he trivial
    · obtain ⟨hr1, hr2⟩ := not_or.1 hr
      rw [Option.not_isSome_iff_eq_none] at hr1
      rw [Record.reserve, if_neg hr] at h
      simp only [hr1, Option.isSome_none, ne_eq, not_true_eq_false, or_self, if_false,
        Bool.false_eq_true, Option.getD_some, Option.some.injEq] at h
      subst h
      exact hr1 ▸ .granted hph hd hr1 (Int.not_lt.1 hr2)
  | post i response =>
    simp only [State.step] at h
    split at h <;> cases h
    exact .posted response ‹_›
  | complete i =>
    simp only [State.step] at h
    split at h <;> cases h
    exact .completed ‹_›

/-! ## The property -/

/-- The lease that the grants and the completions of the log leave in force, with its holder. -/
def inForce : List (Event ι) → Option (ι × Int)
  | [] => none
  | .granted i now :: _ => some (i, now + leaseSeconds)
  | .completed i _ :: log => (inForce log).filter (·.1 ≠ i)

/-- A lease is granted when the lease in force has run out by the new holder's clock. -/
def Exclusive : List (Event ι) → Prop
  | [] => True
  | .granted _ now :: log => (∀ j u, inForce log = some (j, u) → u ≤ now) ∧ Exclusive log
  | .completed _ _ :: log => Exclusive log

def Event.IsGranted : Event ι → Prop
  | .granted _ _ => True
  | _ => False

def Event.IsRecorded : Event ι → Prop
  | .completed _ (some _) => True
  | _ => False

structure State.OneAlert (s : State ι) : Prop where
  posts : ∀ p ∈ s.posts, ∀ p' ∈ s.posts, p = p'
  exclusive : Exclusive s.log
  held : ∀ i u, inForce s.log = some (i, u) →
    s.record.claim = some i ∧ s.record.leaseUntil = some u
  final : s.log.Pairwise fun later earlier =>
    earlier.IsRecorded → ¬ later.IsGranted ∧ ¬ later.IsRecorded
  recorded : ∀ i result, .completed i (some result) ∈ s.log → s.record.result = some result

/-- A completion finds its own claim or a released lease, and a result finds none before it. -/
def Timely (s : State ι) (a : Act ι) : Prop :=
  ∀ i result, a = .complete i → s.phase i = .answered result →
    (s.record.claim = some i ∨ s.record.leaseUntil.getD 0 = 0)
      ∧ (result.isSome → s.record.result = none)

/-! ## What holds on every run -/

structure State.Inv (hash : String → String) (day : String) (s : State ι) : Prop where
  filled : s.record = .empty ∨ ∃ h t i u, s.record.destinationHash = some h
    ∧ s.record.text = some t ∧ t ≠ "" ∧ s.record.claim = some i ∧ s.record.leaseUntil = some u
  ready : ∀ i now address text, s.phase i = .ready now address text → text ≠ ""
  granted : ∀ i address text, s.phase i = .granted address text →
    s.record.destinationHash = some (hash address) ∧ s.record.text = some text
  answered : ∀ i result, s.phase i = .answered result → s.record ≠ .empty
  posts : ∀ p ∈ s.posts, p.eventKey = eventKey hash day
    ∧ s.record.destinationHash = some (hash p.address) ∧ s.record.text = some p.text
  claimed : ∀ i, s.record.claim = some i → ¬ (s.phase i).Early
  recorded : s.record.result.isSome ↔ ∃ i result, .completed i (some result) ∈ s.log
  force : ∀ u, s.record.leaseUntil = some u → u ≠ 0 →
    ∃ j, s.record.claim = some j ∧ inForce s.log = some (j, u)

@[simp] theorem enter_self (s : State ι) (i : ι) (p : Phase) : (s.enter i p).phase i = p :=
  Function.update_self ..

theorem enter_ne {s : State ι} {i j : ι} {p : Phase} (h : j ≠ i) :
    (s.enter i p).phase j = s.phase j :=
  Function.update_of_ne h ..

theorem Inv.start : (State.start : State ι).Inv hash day where
  filled := .inl rfl
  ready := nofun
  granted := nofun
  answered := nofun
  posts := nofun
  claimed := nofun
  recorded := by simp [State.start, Record.empty]
  force := nofun

/-- The text that a reservation stores: the one that is there, or the caller's. -/
theorem State.Inv.storedText {s : State ι} (hi : s.Inv hash day) {text : String}
    (ht : text ≠ "") : s.record.storedText.getD text ≠ ""
      ∧ ∀ t, s.record.text = some t → s.record.storedText.getD text = t := by
  rcases hi.filled with he | ⟨-, t, -, -, -, h, hne, -⟩
  · rw [he]
    exact ⟨ht, nofun⟩
  · have hs : s.record.storedText = some t := by
      simp [Record.storedText, h, Option.filter, hne]
    simp only [hs, Option.getD_some, h, Option.some.injEq]
    exact ⟨hne, fun _ h => h⟩

theorem Took.inv {s s' : State ι} {a : Act ι} (h : Took hash day s a s')
    (hi : s.Inv hash day) : s'.Inv hash day := by
  cases h with
  | @moved _ i p ha he hp =>
    refine { hi with ready := ?_, granted := ?_, answered := ?_, claimed := ?_ }
    · intro j now address text hj
      by_cases hji : j = i
      · subst hji
        rw [enter_self] at hj
        subst hj
        exact hp
      · exact hi.ready j now address text (enter_ne hji ▸ hj)
    · intro j address text hj
      by_cases hji : j = i
      · subst hji
        rw [enter_self] at hj
        subst hj
        exact hp.elim
      · exact hi.granted j address text (enter_ne hji ▸ hj)
    · intro j result hj
      by_cases hji : j = i
      · subst hji
        rw [enter_self] at hj
        subst hj
        exact hp.elim
      · exact hi.answered j result (enter_ne hji ▸ hj)
    · intro j hj
      have hji : j ≠ i := by
        rintro rfl
        exact hi.claimed j hj he
      rw [enter_ne hji]
      exact hi.claimed j hj
  | @granted i now address text hph hd hr hl =>
    obtain ⟨hne, hkeep⟩ := hi.storedText (hi.ready i now address text hph)
    refine ⟨.inr ⟨_, _, i, _, rfl, rfl, hne, rfl, rfl⟩, ?_, ?_, ?_, fun p hp => ?_, ?_, ?_, ?_⟩
    · intro j now address text hj
      by_cases hji : j = i
      · subst hji
        simp at hj
      · exact hi.ready j now address text (enter_ne hji ▸ hj)
    · intro j address' text' hj
      by_cases hji : j = i
      · subst hji
        rw [enter_self] at hj
        cases hj
        exact ⟨rfl, rfl⟩
      · rw [enter_ne hji] at hj
        obtain ⟨h1, h2⟩ := hi.granted j address' text' hj
        exact ⟨congrArg some (same_hash hd h1).symm, congrArg some (hkeep _ h2)⟩
    · intro j result hj he
      cases congrArg Record.claim he
    · obtain ⟨h1, h2, h3⟩ := hi.posts p hp
      exact ⟨h1, congrArg some (same_hash hd h2).symm, congrArg some (hkeep _ h3)⟩
    · rintro _ ⟨⟩
      rw [enter_self]
      exact id
    · refine hi.recorded.trans ?_
      simp [State.enter]
    · rintro _ ⟨⟩ -
      exact ⟨i, rfl, rfl⟩
  | @posted i address text response hph =>
    obtain ⟨h1, h2⟩ := hi.granted i address text hph
    refine { hi with ready := ?_, granted := ?_, answered := ?_, posts := ?_, claimed := ?_ }
    · intro j now address text hj
      by_cases hji : j = i
      · subst hji
        simp at hj
      · exact hi.ready j now address text (enter_ne hji ▸ hj)
    · intro j address text hj
      by_cases hji : j = i
      · subst hji
        simp at hj
      · exact hi.granted j address text (enter_ne hji ▸ hj)
    · intro j result hj
      exact ne_empty h1
    · intro p hp
      rcases List.mem_cons.1 hp with rfl | hp
      · exact ⟨rfl, h1, h2⟩
      · exact hi.posts p hp
    · intro j hj
      by_cases hji : j = i
      · subst hji
        rw [enter_self]
        exact id
      · rw [enter_ne hji]
        exact hi.claimed j hj
  | @completed i result hph =>
    have hne := hi.answered i result hph
    obtain ⟨h, t, c, u, h1, h2, h3, h4, h5⟩ := hi.filled.resolve_left hne
    have hfull : (s.record.complete result) ≠ .empty := fun he => by
      have := congrArg Record.claim he
      rw [complete_claim, h4] at this
      cases this
    refine ⟨.inr ⟨h, t, c, 0, ?_⟩, ?_, ?_, fun _ _ _ => hfull, fun p hp => ?_, ?_, ?_, ?_⟩
    · simpa [State.enter] using ⟨h1, h2, h3, h4⟩
    · intro j now address text hj
      by_cases hji : j = i
      · subst hji
        simp at hj
      · exact hi.ready j now address text (enter_ne hji ▸ hj)
    · intro j address text hj
      by_cases hji : j = i
      · subst hji
        simp at hj
      · simpa [State.enter] using hi.granted j address text (enter_ne hji ▸ hj)
    · simpa [State.enter] using hi.posts p hp
    · intro j hj
      by_cases hji : j = i
      · subst hji
        rw [enter_self]
        exact id
      · rw [enter_ne hji]
        exact hi.claimed j (by simpa [State.enter] using hj)
    · cases result with
      | none =>
        refine hi.recorded.trans ?_
        simp [State.enter]
      | some result =>
        exact iff_of_true rfl ⟨i, result, List.mem_cons_self ..⟩
    · intro u hu hne
      simp only [State.enter, complete_leaseUntil, Option.some.injEq] at hu
      exact absurd hu.symm hne

theorem State.Inv.samePosts {s : State ι} (hi : s.Inv hash day)
    (hinj : Function.Injective hash) : ∀ p ∈ s.posts, ∀ p' ∈ s.posts, p = p' := by
  rintro ⟨key, text, address⟩ hp ⟨key', text', address'⟩ hp'
  obtain ⟨h1, h2, h3⟩ := hi.posts _ hp
  obtain ⟨h1', h2', h3'⟩ := hi.posts _ hp'
  have ha : address = address' := hinj (Option.some.inj (h2.symm.trans h2'))
  have ht : text = text' := Option.some.inj (h3.symm.trans h3')
  rw [Post.mk.injEq]
  exact ⟨h1.trans h1'.symm, ht, ha⟩

theorem State.Inv.unrecorded {s : State ι} (hi : s.Inv hash day) (hr : s.record.result = none) :
    ∀ e ∈ s.log, ¬ e.IsRecorded := by
  intro e he hrec
  match e with
  | .completed i (some result) => simpa [hr] using hi.recorded.2 ⟨i, result, he⟩

/-- A completion that releases another caller's lease, or comes second with a result, is where
the property is lost. -/
theorem completed_oneAlert {s : State ι} {i : ι} {result : Option Delivery}
    (hph : s.phase i = .answered result) (hi : s.Inv hash day) (ho : s.OneAlert) :
    State.OneAlert ({ s with
      record := s.record.complete result
      log := .completed i result :: s.log }.enter i .returned) ↔ Timely s (.complete i) := by
  constructor
  · rintro ho' _ result' ⟨⟩ hph'
    cases hph.symm.trans hph'
    refine ⟨?_, fun hs => ?_⟩
    · by_contra hn
      obtain ⟨hc, hl⟩ := not_or.1 hn
      obtain ⟨-, -, -, u, -, -, -, -, hu⟩ := hi.filled.resolve_left (hi.answered i result hph)
      simp only [hu, Option.getD_some] at hl
      obtain ⟨j, hj, hf⟩ := hi.force u hu hl
      have hji : j ≠ i := by
        rintro rfl
        exact hc hj
      have hh := (ho'.held j u (by simp [State.enter, inForce, hf, Option.filter, hji])).2
      simp only [State.enter, complete_leaseUntil, Option.some.injEq] at hh
      exact hl hh.symm
    · obtain ⟨r, rfl⟩ := Option.isSome_iff_exists.1 hs
      by_contra hn
      obtain ⟨j, r', hm⟩ := hi.recorded.1 (Option.isSome_iff_ne_none.2 hn)
      exact ((List.pairwise_cons.1 ho'.final).1 _ hm trivial).2 trivial
  · intro ht
    obtain ⟨hl, hr⟩ := ht i result rfl hph
    refine ⟨ho.posts, ho.exclusive, fun j u hju => ?_, ?_, fun j r hm => ?_⟩
    · obtain ⟨hf, hji⟩ := Option.filter_eq_some_iff.1 hju
      simp only [ne_eq, decide_not, Bool.not_eq_true', decide_eq_false_iff_not] at hji
      obtain ⟨hc, hu⟩ := ho.held j u hf
      rcases hl with hl | hl
      · exact absurd (Option.some.inj (hc.symm.trans hl)) hji
      · rw [hu, Option.getD_some] at hl
        simpa [State.enter, hl] using hc
    · refine List.pairwise_cons.2 ⟨fun e he hrec => ⟨id, ?_⟩, ho.final⟩
      cases result with
      | none => exact id
      | some r => exact absurd hrec (hi.unrecorded (hr rfl) e he)
    · simp only [State.enter, complete_result]
      rcases List.mem_cons.1 hm with heq | hlog
      · cases heq
        rfl
      · cases result with
        | none => exact ho.recorded j r hlog
        | some r' => exact absurd trivial (hi.unrecorded (hr rfl) (.completed j (some r)) hlog)

theorem Took.oneAlert {s s' : State ι} {a : Act ι} (h : Took hash day s a s')
    (hinj : Function.Injective hash) (hi : s.Inv hash day) (ho : s.OneAlert) :
    s'.OneAlert ↔ Timely s a := by
  have hposts := (h.inv hi).samePosts hinj
  cases h with
  | moved ha =>
    exact iff_of_true { ho with } fun i _ hc => absurd hc (ha i)
  | @granted i now address text hph hd hr hl =>
    refine iff_of_true ⟨hposts, ⟨fun j u hju => ?_, ho.exclusive⟩, ?_, ?_, fun j r hm => ?_⟩ nofun
    · rw [(ho.held j u hju).2] at hl
      exact hl
    · rintro j u ⟨⟩
      exact ⟨rfl, rfl⟩
    · exact List.pairwise_cons.2 ⟨fun e he hrec => absurd hrec (hi.unrecorded hr e he), ho.final⟩
    · exact ho.recorded j r ((List.mem_cons.1 hm).resolve_left nofun)
  | posted =>
    exact iff_of_true { ho with posts := hposts } nofun
  | completed hph => exact completed_oneAlert hph hi ho

theorem oneAlert_start : (State.start : State ι).OneAlert :=
  ⟨nofun, trivial, nofun, .nil, nofun⟩

/-- A day has one alert in every state of a run if and only if every completion of the run finds
its own claim or a released lease, and no earlier result to replace. -/
theorem one_alert_a_day (hinj : Function.Injective hash) {acts : List (Act ι)} {s : State ι}
    (h : Acts.run (State.step hash day) .start acts = some s) :
    Acts.Along (State.step hash day) State.OneAlert .start acts
      ↔ Acts.Each (State.step hash day) Timely .start acts :=
  Acts.along_iff_each h (P := State.OneAlert) Inv.start oneAlert_start
    (fun _ _ _ hi hs => (step_took hs hi.claimed).inv hi)
    fun _ _ _ hi ho hs => (step_took hs hi.claimed).oneAlert hinj hi ho

def demoActs : List (Act Bool) :=
  [.read false 1000 "10007589", .compare false (some "text"), .reserve false,
    .post false none, .complete false, .read true 1010 "10007589", .reserve true,
    .post true (some ⟨202, "queued", "m"⟩), .complete true]

theorem one_alert_a_day_demo :
    Acts.Along (State.step id "2026-10-01") State.OneAlert .start demoActs := by
  obtain ⟨s, hs⟩ : ∃ s, Acts.run (State.step id "2026-10-01") .start demoActs = some s :=
    ⟨_, rfl⟩
  refine (one_alert_a_day Function.injective_id hs).2 ?_
  refine (Acts.each_cons rfl).2 ⟨nofun, (Acts.each_cons rfl).2 ⟨nofun, ?_⟩⟩
  refine (Acts.each_cons rfl).2 ⟨nofun, (Acts.each_cons rfl).2 ⟨nofun, ?_⟩⟩
  refine (Acts.each_cons rfl).2 ⟨?_, (Acts.each_cons rfl).2 ⟨nofun, ?_⟩⟩
  · rintro _ _ ⟨⟩ ⟨⟩
    exact ⟨.inl rfl, nofun⟩
  refine (Acts.each_cons rfl).2 ⟨nofun, (Acts.each_cons rfl).2 ⟨nofun, ?_⟩⟩
  refine (Acts.each_cons rfl).2 ⟨?_, trivial⟩
  rintro _ _ ⟨⟩ ⟨⟩
  exact ⟨.inl rfl, fun _ => rfl⟩

/-- The second caller takes the lease when it has run out, and records its result; the result of
the first then replaces it. -/
theorem result_replaced :
    ¬ Acts.Along (State.step id "2026-10-01") State.OneAlert .start
      ([.read false 1000 "10007589", .compare false (some "text"), .reserve false,
        .read true 1130 "10007589", .reserve true, .post true (some ⟨202, "queued", "m"⟩),
        .complete true, .post false (some ⟨202, "sent", "m"⟩), .complete false] :
        List (Act Bool)) := by
  intro h
  have hlast := h.last rfl
  have hm := hlast.recorded true ⟨"queued", "m", false⟩ (.tail _ (.head _))
  exact absurd hm (by decide)

end CostAlerts
