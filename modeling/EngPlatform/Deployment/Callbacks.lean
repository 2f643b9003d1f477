import EngPlatform.Deployment.Progress
import EngPlatform.Lib.Acts
import Mathlib.Logic.Function.Basic

/-!
# The callbacks of a build

A delivery of an event reads the execution, reads the deployment item, takes its sequence in the
execution's document if that is newer than the one there, and then writes the item that it read,
changed by the event, back whole. Deliveries of the events of one build interleave at these steps
and may stop at any of them.

Where the item that a delivery read is still the stored one when its sequence is taken, no other
write is then outstanding, and no delivery stops before its write, the item is what the accepted
events make of it, in the order of their sequences.
-/

set_option linter.dupNamespace false

namespace Deployment.Callbacks

open Acts

variable {ι : Type}

/-- Where a delivery is; `accepted` holds the item that it is about to write. -/
inductive Phase
  | idle
  | known (sequence : ℕ)
  | holding (sequence : ℕ) (item : DeploymentItem)
  | accepted (sequence : ℕ) (item : DeploymentItem)
  | written (sequence : ℕ)
  | duplicate (sequence : ℕ)
  | ended
  deriving DecidableEq

/-- `taken` are the accepted sequences, each with the time its delivery applies it at, the newest
last; `written` those whose item is stored; `answered` those that the endpoint answered. -/
structure State (ι : Type) where
  eventSequence : ℕ
  item : DeploymentItem
  phase : ι → Phase
  taken : List (ℕ × String)
  written : List ℕ
  answered : List ℕ

def State.start (item : DeploymentItem) : State ι := ⟨0, item, fun _ => .idle, [], [], []⟩

inductive Act (ι : Type)
  | deliver (i : ι) (sequence : ℕ)
  | readItem (i : ι)
  | accept (i : ι) (now : String)
  | save (i : ι)
  | answer (i : ι)
  | stop (i : ι)

/-- The events of a build, up to its highest sequence. -/
structure Build where
  event : ℕ → Event
  highest : ℕ

section Step

variable [DecidableEq ι] (build : Build)

def State.at (s : State ι) (i : ι) (p : Phase) : State ι :=
  { s with phase := Function.update s.phase i p }

def State.step (s : State ι) : Act ι → Option (State ι)
  | .deliver i sequence =>
    match s.phase i with
    | .idle =>
      if 1 ≤ sequence ∧ sequence ≤ build.highest then some (s.at i (.known sequence)) else none
    | _ => none
  | .readItem i =>
    match s.phase i with
    | .known sequence => some (s.at i (.holding sequence s.item))
    | _ => none
  | .accept i now =>
    match s.phase i with
    | .holding sequence item =>
      if sequence ≤ s.eventSequence then some (s.at i (.duplicate sequence))
      else
        some ({ s with
          eventSequence := sequence
          taken := s.taken ++ [(sequence, now)] }.at i
            (.accepted sequence (applyEvent item (build.event sequence) now)))
    | _ => none
  | .save i =>
    match s.phase i with
    | .accepted sequence item =>
      some ({ s with item := item, written := sequence :: s.written }.at i (.written sequence))
    | _ => none
  | .answer i =>
    match s.phase i with
    | .written sequence | .duplicate sequence =>
      some ({ s with answered := sequence :: s.answered }.at i .ended)
    | _ => none
  | .stop i => some (s.at i .ended)

end Step

/-- The item after the events of some sequences, in the order of the list. -/
def applied (build : Build) (item : DeploymentItem) (taken : List (ℕ × String)) : DeploymentItem :=
  taken.foldl (fun item t => applyEvent item (build.event t.1) t.2) item

/-- No delivery is between its arrival and its end. -/
def State.quiet (s : State ι) : Prop := ∀ i, s.phase i = .idle ∨ s.phase i = .ended

/-- What the callbacks are for. -/
structure State.InOrder (build : Build) (first : DeploymentItem) (s : State ι) : Prop where
  increasing : (s.taken.map Prod.fst).Pairwise (· < ·)
  applied : s.quiet → s.item = applied build first s.taken
  answered : ∀ k ∈ s.answered, ∃ t ∈ s.taken, k ≤ t.1
  live : ∀ status, (build.event build.highest).live = some status →
    build.highest ∈ s.written → s.item.status = status

/-- A write is outstanding. -/
def Phase.pending : Phase → Bool
  | .accepted _ _ => true
  | _ => false

/-- The condition: a newer sequence is taken by a delivery that holds the stored item while no
write is outstanding, and a delivery does not stop before its write. -/
def Alone (s : State ι) : Act ι → Prop
  | .accept i _ => ∀ sequence item, s.phase i = .holding sequence item →
      s.eventSequence < sequence → item = s.item ∧ ∀ j, (s.phase j).pending = false
  | .stop i => (s.phase i).pending = false
  | _ => True

/-! ## The invariant -/

/-- A sequence of the build that has been taken, or has come after one that was. -/
def State.seen (s : State ι) (k : ℕ) : Prop := 1 ≤ k ∧ k ≤ s.eventSequence

structure Inv (build : Build) (first : DeploymentItem) (s : State ι) : Prop where
  increasing : (s.taken.map Prod.fst).Pairwise (· < ·)
  last : s.eventSequence = ((s.taken.map Prod.fst).getLast?).getD 0
  le_last : ∀ t ∈ s.taken, t.1 ≤ s.eventSequence
  bound : s.eventSequence ≤ build.highest
  sequences : ∀ i k, (s.phase i = .known k ∨ ∃ item, s.phase i = .holding k item) →
    1 ≤ k ∧ k ≤ build.highest
  seen : ∀ i k, s.phase i = .written k ∨ s.phase i = .duplicate k → s.seen k
  answered : ∀ k ∈ s.answered, s.seen k
  written : ∀ k ∈ s.written, s.seen k
  settled : (∀ i, (s.phase i).pending = false) → s.item = applied build first s.taken
  outstanding : ∀ i k item, s.phase i = .accepted k item →
    item = applied build first s.taken ∧ s.seen k ∧ ∀ j, j ≠ i → (s.phase j).pending = false
  final : build.highest ∈ s.written → ∀ i, (s.phase i).pending = false

variable {build : Build} {first : DeploymentItem} {s s' : State ι} {i : ι}

theorem applied_concat (taken : List (ℕ × String)) (k : ℕ) (now : String) :
    applied build first (taken ++ [(k, now)])
      = applyEvent (applied build first taken) (build.event k) now := by
  unfold applied
  rw [List.foldl_append]
  rfl

theorem Inv.start : Inv build first (State.start first : State ι) where
  increasing := .nil
  last := rfl
  le_last _ h := by cases h
  bound := Nat.zero_le _
  sequences := by rintro i k (h | ⟨item, h⟩) <;> cases h
  seen := by rintro i k (h | h) <;> cases h
  answered _ h := by cases h
  written _ h := by cases h
  settled _ := rfl
  outstanding _ _ _ h := by cases h
  final h := by cases h

/-- The last sequence that was taken, unless none was. -/
theorem Inv.taken_last (h : Inv build first s) {k : ℕ} (hk : s.seen k) :
    ∃ front now, s.taken = front ++ [(s.eventSequence, now)] := by
  rcases List.eq_nil_or_concat s.taken with hnil | ⟨front, t, ht⟩
  · have hlast := h.last
    rw [hnil] at hlast
    have := hk.1.trans hk.2
    simp only [List.map_nil, List.getLast?_nil, Option.getD_none] at hlast
    omega
  · have hlast := h.last
    rw [List.concat_eq_append] at ht
    rw [ht, List.map_append, List.map_singleton, List.getLast?_append, List.getLast?_singleton,
      Option.some_or, Option.getD_some] at hlast
    exact ⟨front, t.2, by rw [ht, hlast]⟩

theorem Inv.inOrder (h : Inv build first s) : s.InOrder build first where
  increasing := h.increasing
  applied hq := h.settled fun i => by
    rcases hq i with hp | hp <;> rw [hp] <;> rfl
  answered k hk := by
    obtain ⟨front, now, ht⟩ := h.taken_last (h.answered k hk)
    exact ⟨(s.eventSequence, now), by simp [ht], (h.answered k hk).2⟩
  live status hl hw := by
    have hseen := h.written _ hw
    obtain ⟨front, now, ht⟩ := h.taken_last hseen
    have hlast : s.eventSequence = build.highest := Nat.le_antisymm h.bound hseen.2
    rw [h.settled (h.final hw), ht, applied_concat, hlast]
    exact applyEvent_live hl

theorem Inv.answer (h : Inv build first s) {k : ℕ} (hk : s.seen k) :
    Inv build first { s with answered := k :: s.answered } where
  increasing := h.increasing
  last := h.last
  le_last := h.le_last
  bound := h.bound
  sequences := h.sequences
  seen := h.seen
  answered := fun l hl => (List.mem_cons.1 hl).elim (fun he => he ▸ hk) (h.answered l)
  written := h.written
  settled := h.settled
  outstanding := h.outstanding
  final := h.final

theorem State.seen.mono {k l : ℕ} (h : s.seen k) (hl : s.eventSequence ≤ l) :
    1 ≤ k ∧ k ≤ l := ⟨h.1, h.2.trans hl⟩

/-! ## The steps -/

section Steps

variable [DecidableEq ι]

@[simp] theorem at_phase_self (p : Phase) : (s.at i p).phase i = p := Function.update_self ..

theorem at_phase_ne {j : ι} (p : Phase) (h : j ≠ i) : (s.at i p).phase j = s.phase j :=
  Function.update_of_ne h ..

theorem at_pending {p : Phase} (hp : p.pending = false) :
    (∀ j, ((s.at i p).phase j).pending = false) ↔ ∀ j, j ≠ i → (s.phase j).pending = false := by
  refine ⟨fun h j hj => ?_, fun h j => ?_⟩
  · rw [← at_phase_ne p hj]
    exact h j
  · by_cases hj : j = i
    · subst hj
      rw [at_phase_self]
      exact hp
    · rw [at_phase_ne p hj]
      exact h j hj

/-- What a step does, with the guards that it met. -/
inductive Took (build : Build) (s : State ι) : Act ι → State ι → Prop
  | deliver {i : ι} {k} (hp : s.phase i = .idle) (hk : 1 ≤ k ∧ k ≤ build.highest) :
      Took build s (.deliver i k) (s.at i (.known k))
  | readItem {i : ι} {k} (hp : s.phase i = .known k) :
      Took build s (.readItem i) (s.at i (.holding k s.item))
  | duplicate {i : ι} {k item now} (hp : s.phase i = .holding k item) (hk : k ≤ s.eventSequence) :
      Took build s (.accept i now) (s.at i (.duplicate k))
  | accept {i : ι} {k item now} (hp : s.phase i = .holding k item) (hk : s.eventSequence < k) :
      Took build s (.accept i now)
        ({ s with eventSequence := k, taken := s.taken ++ [(k, now)] }.at i
          (.accepted k (applyEvent item (build.event k) now)))
  | save {i : ι} {k item} (hp : s.phase i = .accepted k item) :
      Took build s (.save i) ({ s with item := item, written := k :: s.written }.at i (.written k))
  | answer {i : ι} {k} (hp : s.phase i = .written k ∨ s.phase i = .duplicate k) :
      Took build s (.answer i) ({ s with answered := k :: s.answered }.at i .ended)
  | stop {i : ι} : Took build s (.stop i) (s.at i .ended)

theorem step_took {a : Act ι} (h : s.step build a = some s') : Took build s a s' := by
  cases a with
  | deliver i k =>
    simp only [State.step] at h
    split at h
    · rename_i hp
      split at h
      · rename_i hk
        cases h
        exact .deliver hp hk
      · cases h
    · cases h
  | readItem i =>
    simp only [State.step] at h
    split at h
    · rename_i k hp
      cases h
      exact .readItem hp
    · cases h
  | accept i now =>
    simp only [State.step] at h
    split at h
    · rename_i k item hp
      split at h
      · rename_i hk
        cases h
        exact .duplicate hp hk
      · rename_i hk
        cases h
        exact .accept hp (Nat.lt_of_not_le hk)
    · cases h
  | save i =>
    simp only [State.step] at h
    split at h
    · rename_i k item hp
      cases h
      exact .save hp
    · cases h
  | answer i =>
    simp only [State.step] at h
    split at h
    · rename_i k hp
      cases h
      exact .answer (.inl hp)
    · rename_i k hp
      cases h
      exact .answer (.inr hp)
    · cases h
  | stop i =>
    cases h
    exact .stop

/-- A delivery that has no write outstanding moves on without one. -/
theorem Inv.move (h : Inv build first s) {p : Phase} (hold : (s.phase i).pending = false)
    (hp : p.pending = false)
    (hseq : ∀ k, (p = .known k ∨ ∃ item, p = .holding k item) → 1 ≤ k ∧ k ≤ build.highest)
    (hseen : ∀ k, p = .written k ∨ p = .duplicate k → s.seen k) : Inv build first (s.at i p) where
  increasing := h.increasing
  last := h.last
  le_last := h.le_last
  bound := h.bound
  sequences j k hj := by
    by_cases hji : j = i
    · subst hji
      rw [at_phase_self] at hj
      exact hseq k hj
    · rw [at_phase_ne p hji] at hj
      exact h.sequences j k hj
  seen j k hj := by
    by_cases hji : j = i
    · subst hji
      rw [at_phase_self] at hj
      exact hseen k hj
    · rw [at_phase_ne p hji] at hj
      exact h.seen j k hj
  answered := h.answered
  written := h.written
  settled hq := h.settled fun j => by
    by_cases hji : j = i
    · rw [hji]
      exact hold
    · exact (at_pending hp).1 hq j hji
  outstanding j k item hj := by
    by_cases hji : j = i
    · subst hji
      rw [at_phase_self] at hj
      rw [hj] at hp
      cases hp
    · rw [at_phase_ne p hji] at hj
      obtain ⟨hitem, hk, hothers⟩ := h.outstanding j k item hj
      refine ⟨hitem, hk, fun l hl => ?_⟩
      by_cases hli : l = i
      · rw [hli, at_phase_self]
        exact hp
      · rw [at_phase_ne p hli]
        exact hothers l hl
  final hw := (at_pending hp).2 fun j _ => h.final hw j

/-- A newer sequence is taken, and nothing but its own write is outstanding. -/
theorem Inv.accept (h : Inv build first s) {k : ℕ} {now : String}
    (hp : s.phase i = .holding k s.item) (hk : s.eventSequence < k)
    (hq : ∀ j, (s.phase j).pending = false) :
    Inv build first ({ s with eventSequence := k, taken := s.taken ++ [(k, now)] }.at i
      (.accepted k (applyEvent s.item (build.event k) now))) where
  increasing := by
    show ((s.taken ++ [(k, now)]).map Prod.fst).Pairwise (· < ·)
    rw [List.map_append, List.pairwise_append]
    refine ⟨h.increasing, List.pairwise_singleton _ _, fun l hl m hm => ?_⟩
    rw [List.map_singleton, List.mem_singleton] at hm
    obtain ⟨t, ht, rfl⟩ := List.mem_map.1 hl
    exact hm ▸ (h.le_last t ht).trans_lt hk
  last := by
    show k = (((s.taken ++ [(k, now)]).map Prod.fst).getLast?).getD 0
    rw [List.map_append, List.map_singleton, List.getLast?_append, List.getLast?_singleton]
    rfl
  le_last t ht := by
    rcases List.mem_append.1 ht with ht | ht
    · exact (h.le_last t ht).trans hk.le
    · obtain rfl := List.mem_singleton.1 ht
      exact le_rfl
  bound := (h.sequences i k (.inr ⟨_, hp⟩)).2
  sequences j l hj := by
    by_cases hji : j = i
    · subst hji
      rw [at_phase_self] at hj
      rcases hj with hj | ⟨_, hj⟩ <;> cases hj
    · rw [at_phase_ne _ hji] at hj
      exact h.sequences j l hj
  seen j l hj := by
    by_cases hji : j = i
    · subst hji
      rw [at_phase_self] at hj
      rcases hj with hj | hj <;> cases hj
    · rw [at_phase_ne _ hji] at hj
      exact (h.seen j l hj).mono hk.le
  answered l hl := (h.answered l hl).mono hk.le
  written l hl := (h.written l hl).mono hk.le
  settled hall := by
    have := hall i
    rw [at_phase_self] at this
    cases this
  outstanding j l item hj := by
    by_cases hji : j = i
    · subst hji
      rw [at_phase_self] at hj
      cases hj
      refine ⟨?_, ⟨(h.sequences j k (.inr ⟨_, hp⟩)).1, le_rfl⟩, fun m hm => ?_⟩
      · rw [h.settled hq]
        exact (applied_concat _ _ _).symm
      · rw [at_phase_ne _ hm]
        exact hq m
    · rw [at_phase_ne _ hji] at hj
      have := hq j
      rw [hj] at this
      cases this
  final hw := by
    have := (h.written _ hw).2
    have := (h.sequences i k (.inr ⟨_, hp⟩)).2
    omega

/-- The outstanding write is made. -/
theorem Inv.save (h : Inv build first s) {k : ℕ} {item : DeploymentItem}
    (hp : s.phase i = .accepted k item) :
    Inv build first ({ s with item := item, written := k :: s.written }.at i (.written k)) := by
  obtain ⟨hitem, hk, hothers⟩ := h.outstanding i k item hp
  have hquiet : ∀ j, (({ s with item := item, written := k :: s.written }.at i
      (.written k)).phase j).pending = false := (at_pending rfl).2 hothers
  refine ⟨h.increasing, h.last, h.le_last, h.bound, fun j l hj => ?_, fun j l hj => ?_, h.answered,
    fun l hl => ?_, fun _ => hitem, fun j l it hj => ?_, fun _ => hquiet⟩
  · by_cases hji : j = i
    · subst hji
      rw [at_phase_self] at hj
      rcases hj with hj | ⟨_, hj⟩ <;> cases hj
    · rw [at_phase_ne _ hji] at hj
      exact h.sequences j l hj
  · by_cases hji : j = i
    · subst hji
      rw [at_phase_self] at hj
      rcases hj with hj | hj <;> cases hj
      exact hk
    · rw [at_phase_ne _ hji] at hj
      exact h.seen j l hj
  · exact (List.mem_cons.1 hl).elim (fun he => he ▸ hk) (h.written l)
  · have := hquiet j
    rw [hj] at this
    cases this

theorem Took.inv {a : Act ι} (h : Inv build first s) (hc : Alone s a) (ht : Took build s a s') :
    Inv build first s' := by
  cases ht with
  | deliver hp hk =>
    refine h.move (by rw [hp]; rfl) rfl ?_ (by rintro l (hl | hl) <;> cases hl)
    rintro l (hl | ⟨_, hl⟩) <;> cases hl
    exact hk
  | @readItem i k hp =>
    refine h.move (by rw [hp]; rfl) rfl ?_ (by rintro l (hl | hl) <;> cases hl)
    rintro l (hl | ⟨_, hl⟩) <;> cases hl
    exact h.sequences i k (.inl hp)
  | @duplicate i k item now hp hk =>
    refine h.move (by rw [hp]; rfl) rfl (by rintro l (hl | ⟨_, hl⟩) <;> cases hl) ?_
    rintro l (hl | hl) <;> cases hl
    exact ⟨(h.sequences i k (.inr ⟨_, hp⟩)).1, hk⟩
  | accept hp hk =>
    obtain ⟨rfl, hq⟩ := hc _ _ hp hk
    exact h.accept hp hk hq
  | save hp => exact h.save hp
  | @answer i k hp =>
    refine (h.answer (h.seen i k hp)).move ?_ rfl (by rintro l (hl | ⟨_, hl⟩) <;> cases hl)
      (by rintro l (hl | hl) <;> cases hl)
    rcases hp with hp | hp <;> exact congrArg Phase.pending hp
  | stop =>
    exact h.move hc rfl (by rintro l (hl | ⟨_, hl⟩) <;> cases hl)
      (by rintro l (hl | hl) <;> cases hl)

/-- The callbacks are applied in order and none is lost, in every run whose deliveries do not
overlap between their read and their write and do not stop before it. -/
theorem callbacks_in_order {acts : List (Act ι)}
    (h : Each (State.step build) Alone (.start first) acts) :
    Along (State.step build) (State.InOrder build first) (.start first) acts :=
  along_of_each Inv.start (fun _ _ _ hi hc hs => (step_took hs).inv hi hc)
    (fun _ hi => hi.inOrder) h

/-- Production is promoted by the first event and validated by the second. -/
def demoBuild : Build where
  event k :=
    { stage := if k = 1 then "promote" else "validate-production"
      status := if k = 1 then .running else .succeeded
      candidateRevision := "", candidateUrl := "", productionRevision := ""
      productionUrl := "", error := "" }
  highest := 2

def demoItem : DeploymentItem where
  id := "41"
  serviceName := "orders-api"
  status := .queued
  createdAt := "2026-10-01T10:00:00+00:00"
  rest :=
    { kind := .deploy, externalVerified := false, repository := "acme/orders", tag := "v1.4.0"
      sha := "", currentStage := "queued", stages := [], candidateRevision := ""
      candidateUrl := "", productionRevision := "", productionUrl := "", updatedAt := ""
      githubDeploymentId := none, githubRunId := none, githubRunUrl := "", logsUrl := ""
      error := "" }

/-- The second delivery waits for the write of the first. -/
def demoActs : List (Act Bool) :=
  [.deliver false 1, .readItem false, .accept false "t1", .save false, .answer false,
    .deliver true 2, .readItem true, .accept true "t2", .save true, .answer true]

theorem callbacks_in_order_demo :
    Along (State.step demoBuild) (State.InOrder demoBuild demoItem) (.start demoItem) demoActs := by
  refine callbacks_in_order ?_
  refine (each_cons rfl).2 ⟨trivial, (each_cons rfl).2 ⟨trivial, ?_⟩⟩
  refine (each_cons rfl).2 ⟨?_, ?_⟩
  · rintro _ _ ⟨⟩ -
    exact ⟨rfl, by decide⟩
  refine (each_cons rfl).2 ⟨trivial, (each_cons rfl).2 ⟨trivial, ?_⟩⟩
  refine (each_cons rfl).2 ⟨trivial, (each_cons rfl).2 ⟨trivial, ?_⟩⟩
  refine (each_cons rfl).2 ⟨?_, ?_⟩
  · rintro _ _ ⟨⟩ -
    exact ⟨rfl, by decide⟩
  exact (each_cons rfl).2 ⟨trivial, (each_cons rfl).2 ⟨trivial, trivial⟩⟩

/-- The first delivery writes the item that it read before the second was accepted, and production
that was validated is being promoted again. A delivery that stops before its write is answered as
accepted when it comes again, and its event is never applied. -/
theorem callback_undone :
    (¬ Along (State.step demoBuild) (State.InOrder demoBuild demoItem) (.start demoItem)
      ([.deliver false 1, .readItem false, .deliver true 2, .readItem true, .accept false "t1",
        .accept true "t2", .save true, .answer true, .save false, .answer false] :
        List (Act Bool))) ∧
    ¬ Along (State.step demoBuild) (State.InOrder demoBuild demoItem) (.start demoItem)
      ([.deliver false 2, .readItem false, .accept false "t1", .stop false,
        .deliver true 2, .readItem true, .accept true "t2", .answer true] : List (Act Bool)) := by
  constructor <;> intro h
  · have hlive := (h.last rfl).live .succeeded (by decide) (.tail _ (.head _))
    exact absurd hlive (by decide)
  · have happlied := (h.last rfl).applied (by unfold State.quiet; decide)
    exact absurd (congrArg Item.status happlied) (by decide)

end Steps

end Deployment.Callbacks
