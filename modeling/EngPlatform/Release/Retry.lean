import EngPlatform.Release.Desk

/-!
# The retry of an uncertain submission

`reconcile_uncertain_submission` lets a submission be claimed again once its response has been
uncertain for the grace period and `reconciliation_attempts` is zero. It reads the record, checks
it and resets it in separate steps, so what a reset is worth depends on the record that it is
stored on: resets of a record that was not reset before let one retry through (`retry_once`), two
calls that both passed the check let two (`retry_twice`).
-/

set_option linter.dupNamespace false

namespace Release

open Interleave

section Retry

variable {ι : Type}

/-- The save of `reconcile_submission_absent`. -/
def Tx.isReset : Tx → Bool
  | .save cs _ => (lookup .reconciliationAttempts cs).isSome
  | _ => false

/-- A submission is reset only on a record that was not reset before. -/
def ResetsOnce (_ : ι) (d : Desk ι) (c : Call) : Prop :=
  c.onTx fun t => t.isReset = true → d.record .reconciliationAttempts = (0 : ℕ)

instance (i : ι) (d : Desk ι) : DecidablePred (ResetsOnce i d) := fun c =>
  inferInstanceAs (Decidable (c.onTx fun t =>
    t.isReset = true → d.record .reconciliationAttempts = (0 : ℕ)))

def Unreset (e : Execution) : Prop := e .reconciliationAttempts = (0 : ℕ)

/-- What `claim_submission` asks of the submission. -/
def Claimable (e : Execution) : Prop :=
  e .buildId = "" ∧
    (e .status : Status) ∈ ([.submissionPending, .submissionFailed] : List Status)

/-- A date of `s` or later. -/
def Since (dates : Dates) (s : ℕ) (text : String) : Prop := ∃ u, s ≤ u ∧ text = dates.text u

/-- What the record calls uncertain is so since `s` or later. -/
def Dated (dates : Dates) (s : ℕ) (e : Execution) : Prop :=
  (e .uncertainSince = "" ∨ Since dates s (e .uncertainSince)) ∧
    ((e .status : Status) ∈ ([.submitting, .unknown] : List Status) →
      Since dates s (e .updatedAt))

/-- What holds of the permits: before the first reset there is at most one, and none while the
submission can be claimed; after it there is one more, and the one before is old enough. -/
structure RetryInv (dates : Dates) (d : Desk ι) : Prop where
  ordinary : d.record .bootstrapTicketId = ""
  past : ∀ p ∈ d.permits, p.date ≤ d.clock
  dated : Unreset d.record → ∀ p ∈ d.permits, Dated dates p.date d.record
  fresh : Unreset d.record → d.permits = [] → d.record .uncertainSince = ""
  first : Unreset d.record →
    d.permits.length ≤ 1 ∧ (Claimable d.record → d.permits.length ≤ 0)
  second : ¬Unreset d.record →
    d.permits.length ≤ 2 ∧ (Claimable d.record → d.permits.length ≤ 1)
  waited : ¬Unreset d.record → Claimable d.record →
    ∀ p ∈ d.permits, p.date + uncertainGrace ≤ d.clock
  spaced : ∀ p q, d.permits = [q, p] → p.date + uncertainGrace ≤ q.granted
  builds : d.world.builds + d.unspent.length ≤ d.permits.length

/-- What a program can count on: a submission that was not reset stays as unclaimable as it is. -/
structure RetryRely (i : ι) (d d' : Desk ι) : Prop where
  clock : d.clock ≤ d'.clock
  mine : i ∈ d.unspent → i ∈ d'.unspent
  reset : Unreset d'.record → Unreset d.record
  quiet : Unreset d'.record → ¬Claimable d.record →
    ¬Claimable d'.record ∧ d'.permits = d.permits
  granted : d.permits ≠ [] → d'.permits ≠ []

/-- Every permit is older than the grace period, unless the submission was reset. -/
def Over (d : Desk ι) : Prop := Unreset d.record →
  ¬Claimable d.record ∧ ∀ p ∈ d.permits, p.date + uncertainGrace ≤ d.clock

/-- What may be written: a reset after the grace period, or changes after which the submission
cannot be claimed and is dated after the permits. -/
inductive RetryWrite (dates : Dates) (d : Desk ι) (t : Tx) (e : Execution) : Prop
  | reset (ht : t.isReset = true) (hb : e .bootstrapTicketId = "") (ha : ¬Unreset e) (ho : Over d)
  | close (hb : e .bootstrapTicketId = "")
      (ha : e .reconciliationAttempts = d.record .reconciliationAttempts) (hc : ¬Claimable e)
      (hd : Unreset d.record → (d.permits = [] → e .uncertainSince = "") ∧
        ∀ p ∈ d.permits, Dated dates p.date e)
  | same (h : e = d.record)

def RetryAllowed (cfg : Config) (dates : Dates) (image : ι → String) (i : ι) (d : Desk ι) :
    Call → Prop
  | .tx (.claimSubmission now) => ∃ u ≤ d.clock, now = dates.text u
  | .tx t => ∀ cs flag, t.run (cfg.at dates (image i)) d.record = .ok (cs, flag) →
    RetryWrite dates d t (update cs d.record)
  | .postBuild _ => i ∈ d.unspent
  | .get | .now | .listBuilds _ | .external _ => True
  | _ => False

end Retry

section Steps

variable {ι : Type} {dates : Dates} {d d' : Desk ι}

theorem RetryRely.refl (i : ι) (d : Desk ι) : RetryRely i d d :=
  ⟨Nat.le_refl _, id, id, fun _ h => ⟨h, rfl⟩, id⟩

theorem RetryRely.trans {i : ι} {d d' d'' : Desk ι} (h : RetryRely i d d')
    (h' : RetryRely i d' d'') : RetryRely i d d'' where
  clock := Nat.le_trans h.clock h'.clock
  mine := h'.mine ∘ h.mine
  reset := h.reset ∘ h'.reset
  quiet := fun hu hc => by
    obtain ⟨hc', hp⟩ := h.quiet (h'.reset hu) hc
    obtain ⟨hc'', hp'⟩ := h'.quiet hu hc'
    exact ⟨hc'', hp'.trans hp⟩
  granted := h'.granted ∘ h.granted

/-- The invariant is about the record and the permits. -/
theorem RetryInv.congr (hI : RetryInv dates d) (hr : d'.record = d.record)
    (hp : d'.permits = d.permits) (hc : d.clock ≤ d'.clock)
    (hb : d'.world.builds + d'.unspent.length ≤ d.permits.length) : RetryInv dates d' where
  ordinary := by
    rw [hr]
    exact hI.ordinary
  past := fun p hm => Nat.le_trans (hI.past p (hp ▸ hm)) hc
  dated := by
    rw [hr, hp]
    exact hI.dated
  fresh := by
    rw [hr, hp]
    exact hI.fresh
  first := by
    rw [hr, hp]
    exact hI.first
  second := by
    rw [hr, hp]
    exact hI.second
  waited := fun hu hcl p hm => by
    rw [hr] at hu hcl
    exact Nat.le_trans (hI.waited hu hcl p (hp ▸ hm)) hc
  spaced := by
    rw [hp]
    exact hI.spaced
  builds := by
    rw [hp]
    exact hb

theorem RetryRely.congr {i : ι} (hr : d'.record = d.record) (hp : d'.permits = d.permits)
    (hc : d.clock ≤ d'.clock) (hu : i ∈ d.unspent → i ∈ d'.unspent) : RetryRely i d d' where
  clock := hc
  mine := hu
  reset := by
    rw [hr]
    exact id
  quiet := by
    rw [hr]
    exact fun _ h => ⟨h, hp⟩
  granted := by
    rw [hp]
    exact id

/-- A write that is allowed keeps the invariant, and what the others count on. -/
theorem RetryInv.write {t : Tx} {w : World ι} (hI : RetryInv dates d)
    (hw : RetryWrite dates d t w.record) (hC : t.isReset = true → Unreset d.record)
    (hb : w.builds = d.world.builds) :
    RetryInv dates { d with world := w } ∧ ∀ j, RetryRely j d { d with world := w } := by
  have hbuilds : w.builds + d.unspent.length ≤ d.permits.length := by
    rw [hb]
    exact hI.builds
  cases hw with
  | reset ht hboot ha ho =>
    have hun := hC ht
    have hlen := (hI.first hun).1
    refine ⟨?_, fun j => ?_⟩
    · exact
        { ordinary := hboot
          past := hI.past
          dated := fun h => absurd h ha
          fresh := fun h => absurd h ha
          first := fun h => absurd h ha
          second := fun _ => ⟨Nat.le_succ_of_le hlen, fun _ => hlen⟩
          waited := fun _ _ => (ho hun).2
          spaced := hI.spaced
          builds := hbuilds }
    · exact ⟨Nat.le_refl _, id, fun h => absurd h ha, fun h => absurd h ha, id⟩
  | close hboot ha hc hd =>
    have hsame : Unreset w.record ↔ Unreset d.record := by
      unfold Unreset
      rw [ha]
    refine ⟨?_, fun j => ?_⟩
    · exact
        { ordinary := hboot
          past := hI.past
          dated := fun h => (hd (hsame.1 h)).2
          fresh := fun h => (hd (hsame.1 h)).1
          first := fun h => ⟨(hI.first (hsame.1 h)).1, fun hcl => absurd hcl hc⟩
          second := fun h =>
            ⟨(hI.second fun hu => h (hsame.2 hu)).1, fun hcl => absurd hcl hc⟩
          waited := fun _ hcl => absurd hcl hc
          spaced := hI.spaced
          builds := hbuilds }
    · exact ⟨Nat.le_refl _, id, hsame.1, fun _ _ => ⟨hc, rfl⟩, id⟩
  | same h =>
    exact ⟨hI.congr h rfl (Nat.le_refl _) hbuilds,
      fun j => .congr h rfl (Nat.le_refl _) id⟩

/-- A claim writes the status and the time it was made with. -/
theorem claim_changes {cfg : Config} {e : Execution} {now : String} {cs : List Change} {b : Bool}
    (h : Tx.run cfg e (.claimSubmission now) = .ok (cs, b)) :
    (cs = [] ∧ b = false) ∨
      (cs = [⟨.status, .submitting⟩, ⟨.updatedAt, now⟩] ∧ b = true ∧ Claimable e) := by
  rcases run_cases h with h | ⟨rfl, rfl, hg⟩
  · exact .inl h
  · exact .inr ⟨rfl, rfl, hg.2.2.1, hg.2.2.2⟩

/-- The record once a submission is claimed. -/
def claimedRecord (e : Execution) (now : String) : Execution :=
  update [⟨.status, .submitting⟩, ⟨.updatedAt, now⟩] e

theorem claimedRecord_not_claimable (e : Execution) (now : String) :
    ¬Claimable (claimedRecord e now) := by
  rintro ⟨-, hs⟩
  rw [claimedRecord, update_of_some (f := .status) (v := Status.submitting) (by simp)] at hs
  simp at hs

theorem claimedRecord_keeps (e : Execution) (now : String) {f : Field} (hs : f ≠ .status)
    (hu : f ≠ .updatedAt) : claimedRecord e now f = e f := by
  refine update_of_none ?_
  rw [lookup_cons_ne (Ne.symm hs), lookup_cons_ne (Ne.symm hu), lookup_nil]

/-- A claim that is not granted to anyone writes all the same. -/
theorem RetryWrite.claim {now : String} (hI : RetryInv dates d) (hc : Claimable d.record) :
    RetryWrite dates d (.claimSubmission now) (claimedRecord d.record now) := by
  refine .close ?_ ?_ (claimedRecord_not_claimable _ _) fun hu => ⟨fun hp => ?_, fun p hp => ?_⟩
  · rw [claimedRecord_keeps _ _ (by simp) (by simp)]
    exact hI.ordinary
  · exact claimedRecord_keeps _ _ (by simp) (by simp)
  · rw [claimedRecord_keeps _ _ (by simp) (by simp)]
    exact hI.fresh hu hp
  · have hnone := (hI.first hu).2 hc
    rw [List.length_eq_zero_iff.1 (Nat.le_zero.1 hnone)] at hp
    cases hp

/-- A granted claim: it is the first one, or the second one after a reset. -/
theorem RetryInv.grant {i : ι} {now : String} {u : ℕ} {w : World ι} (hI : RetryInv dates d)
    (hc : Claimable d.record) (hu : u ≤ d.clock) (hnow : now = dates.text u)
    (hw : w.record = claimedRecord d.record now) (hb : w.builds = d.world.builds)
    (hd : d' = { d with
      world := w, permits := ⟨u, d.clock⟩ :: d.permits, unspent := i :: d.unspent }) :
    RetryInv dates d' ∧ ∀ j, RetryRely j d d' := by
  have hrec : d'.record = claimedRecord d.record now := by
    rw [hd]
    exact hw
  have hperm : d'.permits = ⟨u, d.clock⟩ :: d.permits := by rw [hd]
  have hclock : d'.clock = d.clock := by rw [hd]
  have hclosed : ¬Claimable d'.record := by
    rw [hrec]
    exact claimedRecord_not_claimable _ _
  have hreset : Unreset d'.record ↔ Unreset d.record := by
    unfold Unreset
    rw [hrec, claimedRecord_keeps _ _ (by simp) (by simp)]
  have hfirst : Unreset d.record → d.permits = [] := fun h =>
    List.length_eq_zero_iff.1 (Nat.le_zero.1 ((hI.first h).2 hc))
  refine ⟨?_, fun j => ?_⟩
  · refine
      { ordinary := ?_
        past := ?_
        dated := fun h p hp => ?_
        fresh := fun _ h => ?_
        first := fun h => ⟨?_, fun hcl => absurd hcl hclosed⟩
        second := fun h => ⟨?_, fun hcl => absurd hcl hclosed⟩
        waited := fun _ hcl => absurd hcl hclosed
        spaced := fun p q hpq => ?_
        builds := ?_ }
    · rw [hrec, claimedRecord_keeps _ _ (by simp) (by simp)]
      exact hI.ordinary
    · rw [hperm, hclock]
      intro p hp
      rcases List.mem_cons.1 hp with rfl | hp
      · exact hu
      · exact hI.past p hp
    · rw [hperm, hfirst (hreset.1 h), List.mem_singleton] at hp
      subst hp
      rw [hrec]
      refine ⟨.inl ?_, fun _ => ⟨u, Nat.le_refl u, ?_⟩⟩
      · rw [claimedRecord_keeps _ _ (by simp) (by simp)]
        exact hI.fresh (hreset.1 h) (hfirst (hreset.1 h))
      · rw [claimedRecord, update_of_some (f := .updatedAt) (v := now) (by simp), hnow]
    · rw [hperm] at h
      cases h
    · rw [hperm, hfirst (hreset.1 h)]
      exact Nat.le_refl _
    · rw [hperm, List.length_cons]
      exact Nat.succ_le_succ ((hI.second fun hu' => h (hreset.2 hu')).2 hc)
    · rw [hperm] at hpq
      obtain ⟨rfl, hp⟩ := List.cons.inj hpq
      have hun : ¬Unreset d.record := fun h => by
        rw [hfirst h] at hp
        cases hp
      exact hI.waited hun hc p (by rw [hp]; exact List.mem_singleton_self p)
    · have hbuilds := hI.builds
      rw [hperm, hd]
      simp only [List.length_cons, hb]
      omega
  · refine ⟨?_, fun hj => ?_, hreset.1, fun _ hn => absurd hc hn, fun _ => ?_⟩
    · exact Nat.le_of_eq hclock.symm
    · rw [hd]
      exact List.mem_cons_of_mem _ hj
    · rw [hperm]
      exact List.cons_ne_nil _ _

/-- A build that is requested uses up a permit. -/
theorem RetryInv.post [DecidableEq ι] {i : ι} (hI : RetryInv dates d) (hi : i ∈ d.unspent)
    (image : String) (created : Option Build) :
    RetryInv dates (d.post i image created) ∧
      ∀ j, i ≠ j → RetryRely j d (d.post i image created) := by
  have hlen : (d.unspent.erase i).length = d.unspent.length - 1 := List.length_erase_of_mem hi
  have hpos : 0 < d.unspent.length := List.length_pos_of_mem hi
  have hbuilds := hI.builds
  refine ⟨hI.congr rfl rfl (Nat.le_refl _) ?_, fun j hj => .congr rfl rfl (Nat.le_refl _)
    fun hm => (List.mem_erase_of_ne (Ne.symm hj)).2 hm⟩
  simp only [Desk.post, hlen]
  omega

end Steps

section Contract

variable {ι : Type} [DecidableEq ι] {cfg : Config} {dates : Dates} {image : ι → String} {i : ι}
  {d d' : Desk ι}

omit [DecidableEq ι] in
theorem RetryAllowed.write {t : Tx} {cs : List Change} {flag : Bool} (hI : RetryInv dates d)
    (ha : RetryAllowed cfg dates image i d (.tx t))
    (hrun : t.run (cfg.at dates (image i)) d.record = .ok (cs, flag)) :
    RetryWrite dates d t (update cs d.record) := by
  cases t with
  | claimSubmission now =>
    rcases claim_changes hrun with ⟨rfl, -⟩ | ⟨rfl, -, hc⟩
    · exact .same rfl
    · exact .claim hI hc
  | _ => exact ha _ _ hrun

/-- What an allowed request does, where submissions are reset once. -/
theorem retry_sem {c : Call} {r : c.Ans} (hI : RetryInv dates d)
    (ha : RetryAllowed cfg dates image i d c) (hC : ResetsOnce i d c)
    (hs : Desk.sem cfg dates image i d c d' r) :
    RetryInv dates d' ∧ ∀ j, i ≠ j → RetryRely j d d' := by
  have hbuilds := hI.builds
  cases c with
  | get =>
    obtain ⟨rfl, -⟩ := hs
    exact ⟨hI.congr rfl rfl (Nat.le_refl _) hbuilds, fun j _ => .congr rfl rfl (Nat.le_refl _) id⟩
  | now =>
    obtain ⟨rfl, -⟩ := hs
    exact ⟨hI, fun j _ => .refl j _⟩
  | listBuilds =>
    obtain ⟨rfl, -⟩ := hs
    exact ⟨hI, fun j _ => .refl j _⟩
  | external =>
    obtain ⟨w, hw, rfl⟩ := hs
    obtain rfl : w = d.world := hw
    exact ⟨hI, fun j _ => .refl j _⟩
  | postBuild request =>
    obtain ⟨created, -, rfl, -⟩ := hs
    exact hI.post ha _ created
  | tx t =>
    cases Desk.wrote hs with
    | nothing hd =>
      subst hd
      exact ⟨hI, fun j _ => .refl j _⟩
    | stored cs flag hrun w hw hd =>
      subst hd
      have hwrite := RetryAllowed.write hI ha hrun
      rw [← hw.1] at hwrite
      obtain ⟨hI', hR⟩ := hI.write hwrite hC hw.2
      exact ⟨hI', fun j _ => hR j⟩
    | granted now ht cs hrun w hw hd =>
      subst ht
      obtain ⟨u, hu, hnow⟩ := ha
      rcases claim_changes hrun with ⟨-, hf⟩ | ⟨rfl, -, hc⟩
      · cases hf
      · have hparse : (dates.parse now).getD 0 = u := by rw [hnow, dates.parse_text, Option.getD_some]
        rw [hparse] at hd
        obtain ⟨hI', hR⟩ := hI.grant hc hu hnow hw.1 hw.2 hd
        exact ⟨hI', fun j _ => hR j⟩
  | _ => exact ha.elim

omit [DecidableEq ι] in
theorem retry_moves (hI : RetryInv dates d) (h : d.moves d') :
    RetryInv dates d' ∧ ∀ j, RetryRely j d d' := by
  rcases h with ⟨t, rfl⟩ | ⟨q, rfl⟩
  · exact ⟨hI.congr rfl rfl (Nat.le_add_right _ _) hI.builds,
      fun j => .congr rfl rfl (Nat.le_add_right _ _) id⟩
  · exact ⟨hI.congr rfl rfl (Nat.le_refl _) hI.builds,
      fun j => .congr rfl rfl (Nat.le_refl _) id⟩

variable (cfg dates image)

/-- The contract of the calls, where submissions are reset once. -/
def retryDiscipline : Discipline ι (Desk ι) Call.Ans where
  toSystem := (Desk.system cfg dates image).restrict ResetsOnce
  Inv := RetryInv dates
  Allowed := RetryAllowed cfg dates image
  Rely := RetryRely
  rely_refl := RetryRely.refl
  rely_trans := fun _ _ _ _ => RetryRely.trans
  inv_sem := fun _ _ _ _ _ hI ha hs => (retry_sem hI ha hs.1 hs.2).1
  rely_sem := fun _ j _ _ _ _ hj hI ha hs => (retry_sem hI ha hs.1 hs.2).2 j hj
  inv_env := fun _ _ hI h => (retry_moves hI h).1
  rely_env := fun j _ _ hI h => (retry_moves hI h).2 j

end Contract

section Programs

variable {ι : Type} [DecidableEq ι] {cfg : Config} {dates : Dates} {image : ι → String} {i : ι}
  {d : Desk ι} {digest : Digest} {K : Desk ι → Prop}

/-- Before a reset the submission cannot be claimed, and `R` holds of every permit. -/
def Held (R : Permit → Prop) (d : Desk ι) : Prop :=
  Unreset d.record → ¬Claimable d.record ∧ ∀ p ∈ d.permits, R p

theorem Held.stable {R : Permit → Prop} :
    (retryDiscipline cfg dates image).Stable i (Held R) := by
  intro d d' hr h hu
  obtain ⟨hc, hp⟩ := hr.quiet hu (h (hr.reset hu)).1
  refine ⟨hc, ?_⟩
  rw [hp]
  exact (h (hr.reset hu)).2

/-- The requests that write nothing. -/
def Call.isQuiet : Call → Bool
  | .get | .now | .listBuilds _ | .external _ => true
  | _ => false

theorem quiet_sem {d' : Desk ι} {c : Call} {r : c.Ans} (hc : c.isQuiet = true)
    (hs : Desk.sem cfg dates image i d c d' r) : RetryRely i d d' := by
  cases c with
  | get =>
    obtain ⟨rfl, -⟩ := hs
    exact .congr rfl rfl (Nat.le_refl _) id
  | now =>
    obtain ⟨rfl, -⟩ := hs
    exact .refl _ _
  | listBuilds =>
    obtain ⟨rfl, -⟩ := hs
    exact .refl _ _
  | external =>
    obtain ⟨w, hw, rfl⟩ := hs
    obtain rfl : w = d.world := hw
    exact .refl _ _
  | _ => cases hc

theorem quiet_yields {c : Call} (hc : c.isQuiet = true)
    (hK : (retryDiscipline cfg dates image).Stable i K) (h : K d) :
    (retryDiscipline cfg dates image).Yields i (perform c) (fun v d' => K d' ∧
      RetryInv dates d' ∧ ∃ d₁, Desk.sem cfg dates image i d₁ c d' (.ok v)) d := by
  refine perform_yields fun d₁ hr hI => ⟨?_, fun d₂ v hs hI₂ => ?_⟩
  · cases c <;> first | exact trivial | cases hc
  · exact ⟨hK _ _ (quiet_sem hc hs.2) (hK _ _ hr h), hI₂, d₁, hs.2⟩

theorem retry_getOrRaise (x : Err) (hK : (retryDiscipline cfg dates image).Stable i K) (h : K d) :
    (retryDiscipline cfg dates image).Yields i (getOrRaise x) (fun e d' => K d' ∧
      RetryInv dates d' ∧ e = d'.record) d := by
  refine (quiet_yields (c := .get) rfl hK h).bind fun v d' hv => ?_
  obtain ⟨hK', hI, d₁, rfl, hr⟩ := hv
  rcases hr with hr | ⟨x, hx⟩
  · obtain rfl := Except.ok.inj hr
    exact .pure ⟨hK', hI, rfl⟩
  · cases hx

theorem retry_now (hK : (retryDiscipline cfg dates image).Stable i K) (h : K d) :
    (retryDiscipline cfg dates image).Yields i (perform .now) (fun now d' => K d' ∧
      RetryInv dates d' ∧ now = dates.text d'.clock) d := by
  refine (quiet_yields (c := .now) rfl hK h).mono fun v d' hv => ?_
  obtain ⟨hK', hI, d₁, rfl, hr⟩ := hv
  exact ⟨hK', hI, Except.ok.inj hr⟩

/-- A transaction that is allowed wherever the others can lead. -/
theorem retry_tx {t : Tx} (hK : (retryDiscipline cfg dates image).Stable i K) (h : K d)
    (ha : ∀ d₁, K d₁ → RetryInv dates d₁ → RetryAllowed cfg dates image i d₁ (.tx t)) :
    (retryDiscipline cfg dates image).Yields i (perform (.tx t)) (fun _ _ => True) d :=
  perform_yields fun d₁ hr hI => ⟨ha d₁ (hK _ _ hr h) hI, fun _ _ _ _ => trivial⟩

theorem clock_stable (t : ℕ) :
    (retryDiscipline cfg dates image).Stable i (fun d => t ≤ d.clock) :=
  fun _ _ hr h => Nat.le_trans h hr.clock

omit [DecidableEq ι] in
/-- Changes after which the submission is over: they leave what the permits are dated by. -/
theorem RetryWrite.settle {t : Tx} {cs : List Change} (hI : RetryInv dates d)
    (hkeep : ∀ c ∈ cs, c.1 ∉ ([.bootstrapTicketId, .reconciliationAttempts, .uncertainSince] :
      List Field))
    (hstatus : update cs d.record .status ∈ ([.failed, .submissionPending] : List Status))
    (hclosed : ¬Claimable (update cs d.record)) :
    RetryWrite dates d t (update cs d.record) := by
  have hsame : ∀ f ∈ ([.bootstrapTicketId, .reconciliationAttempts, .uncertainSince] :
      List Field), update cs d.record f = d.record f := fun f hf =>
    update_of_none (lookup_eq_none fun c hc he => hkeep c hc (he ▸ hf))
  refine .close ?_ (hsame _ (by simp)) hclosed fun hu => ⟨fun hp => ?_, fun p hp => ⟨?_, fun hs => ?_⟩⟩
  · rw [hsame _ (by simp)]
    exact hI.ordinary
  · rw [hsame _ (by simp)]
    exact hI.fresh hu hp
  · rw [hsame _ (by simp)]
    exact (hI.dated hu p hp).1
  · simp only [List.mem_cons, List.not_mem_nil, or_false] at hs hstatus
    rcases hstatus with h | h <;> rw [h] at hs <;> simp at hs

/-- The changes of a save, or none. -/
theorem save_stored {cfg : Config} {e : Execution} {cs cs' : List Change} {now : String} {b : Bool}
    (h : Tx.run cfg e (.save cs now) = .ok (cs', b)) :
    cs' = [] ∨ cs' = cs ++ [⟨.updatedAt, now⟩] := by
  rcases run_cases h with ⟨rfl, -⟩ | ⟨rfl, -, -⟩
  · exact .inl rfl
  · exact .inr rfl

theorem retry_store {cs : List Change} {now : String}
    (hK : (retryDiscipline cfg dates image).Stable i K) (h : K d)
    (hw : ∀ d₁, K d₁ → RetryInv dates d₁ → RetryWrite dates d₁ (.save cs now)
      (update (cs ++ [⟨.updatedAt, now⟩]) d₁.record)) :
    (retryDiscipline cfg dates image).Yields i (perform (.tx (.save cs now)))
      (fun _ _ => True) d := by
  refine retry_tx hK h fun d₁ hK₁ hI => ?_
  intro cs' flag hrun
  rcases save_stored hrun with rfl | rfl
  · exact .same rfl
  · exact hw d₁ hK₁ hI

/-- The reset of a submission whose permits are all older than the grace period. -/
theorem retry_absent {t : ℕ} (h : Held (fun p => p.date + uncertainGrace ≤ t) d ∧ t ≤ d.clock) :
    (retryDiscipline cfg dates image).Yields i reconcileSubmissionAbsent (fun _ _ => True) d := by
  have hK : (retryDiscipline cfg dates image).Stable i (fun d =>
      Held (fun p => p.date + uncertainGrace ≤ t) d ∧ t ≤ d.clock) :=
    Held.stable.and (clock_stable t)
  refine (retry_getOrRaise _ hK h).bind fun e d' he => .ite (fun _ => .raise _) fun _ =>
    .ite (fun _ => .raise _) fun _ => (retry_now hK he.1).bind fun now d₂ hn =>
    (retry_store hK hn.1 fun d₁ hK₁ hI => .reset (by simp [Tx.isReset]) ?_ (fun hu => ?_)
      fun hu => ?_).bind fun _ _ _ => .pure trivial
  · rw [update_of_none (by simp)]
    exact hI.ordinary
  · have hset : update ([⟨.status, .submissionPending⟩,
        ⟨.reconciliationAttempts, (e .reconciliationAttempts : ℕ) + 1⟩] ++ [⟨.updatedAt, now⟩])
        d₁.record .reconciliationAttempts = (e .reconciliationAttempts : ℕ) + 1 :=
      update_of_some (by simp)
    unfold Unreset at hu
    rw [hset] at hu
    exact Nat.succ_ne_zero _ hu
  · exact ⟨(hK₁.1 hu).1, fun p hp => Nat.le_trans ((hK₁.1 hu).2 p hp) hK₁.2⟩

/-- A permit was granted, and its submission was not reset since. -/
def Granted (d : Desk ι) : Prop := d.permits ≠ [] ∧ Held (fun _ => True) d

theorem granted_stable (R : Permit → Prop) : (retryDiscipline cfg dates image).Stable i
    (fun d => d.permits ≠ [] ∧ Held R d) :=
  fun _ _ hr h => ⟨hr.granted h.1, Held.stable _ _ hr h.2⟩

/-- What becomes uncertain is dated after the permits. -/
theorem retry_uncertain (x : Err) (h : Granted d) :
    (retryDiscipline cfg dates image).Yields i (do
      let since ← perform .now
      let _ ← save [⟨.status, .unknown⟩, ⟨.uncertainSince, since⟩]
      .raise x : Program Execution) (fun _ _ => True) d := by
  refine (retry_now (granted_stable _) h).bind fun since d₁ hs => ?_
  obtain ⟨⟨hp₁, hh₁⟩, hI₁, hsince⟩ := hs
  have h₁ : d₁.permits ≠ [] ∧ Held (fun p => p.date ≤ d₁.clock) d₁ :=
    ⟨hp₁, fun hu => ⟨(hh₁ hu).1, hI₁.past⟩⟩
  refine Discipline.Yields.bind (P := fun _ _ => True) ?_ fun _ _ _ => .raise x
  refine (retry_now (granted_stable _) h₁).bind fun now d₂ hn => ?_
  obtain ⟨⟨hp₂, hh₂⟩, hI₂, hnow⟩ := hn
  have h₂ : d₂.permits ≠ [] ∧ Held (fun p => p.date ≤ d₁.clock ∧ p.date ≤ d₂.clock) d₂ :=
    ⟨hp₂, fun hu => ⟨(hh₂ hu).1, fun p hp => ⟨(hh₂ hu).2 p hp, hI₂.past p hp⟩⟩⟩
  refine (retry_store (granted_stable _) h₂ fun d₃ hK hI => ?_).bind fun _ _ _ => .pure trivial
  have hstatus : update ([⟨.status, .unknown⟩, ⟨.uncertainSince, since⟩] ++
      [⟨.updatedAt, now⟩]) d₃.record .status = .unknown := update_of_some (by simp)
  refine .close ?_ (update_of_none (by simp)) (fun hc => ?_) fun hu =>
    ⟨fun hp => absurd hp hK.1, fun p hp => ?_⟩
  · rw [update_of_none (by simp)]
    exact hI.ordinary
  · have hs := hc.2
    rw [hstatus] at hs
    simp at hs
  · obtain ⟨h1, h2⟩ := (hK.2 hu).2 p hp
    refine ⟨.inr ⟨_, h1, ?_⟩, fun _ => ⟨_, h2, ?_⟩⟩
    · rw [← hsince]
      exact update_of_some (by simp)
    · rw [← hnow]
      exact update_of_some (by simp)

/-- A build is bound: the submission is over. -/
theorem retry_bind (b : Build) :
    (retryDiscipline cfg dates image).Yields i (bind b) (fun _ _ => True) d := by
  refine .ite (fun _ => .raise _) fun hb => ?_
  have hK : (retryDiscipline cfg dates image).Stable i (fun _ : Desk ι => True) :=
    fun _ _ _ _ => trivial
  refine (retry_now hK trivial).bind fun reconciled d₁ _ => (retry_now hK trivial).bind
    fun now d₂ _ => (retry_tx hK trivial fun d₃ _ hI => ?_).bind fun _ _ _ => .pure trivial
  intro cs flag hrun
  rcases run_cases hrun with ⟨rfl, -⟩ | ⟨rfl, -, -⟩
  · exact .same rfl
  have hbuild : update (Tx.changes d₃.record (.bindBuild b.id (bindMetadata b reconciled) now))
      d₃.record .buildId = b.id := update_of_some (by simp [Tx.changes, bindMetadata])
  have hstatus : update (Tx.changes d₃.record (.bindBuild b.id (bindMetadata b reconciled) now))
      d₃.record .status = .submissionPending := update_of_some (by simp [Tx.changes, bindMetadata])
  refine .settle hI ?_ ?_ fun hc => ?_
  · simp [Tx.changes, bindMetadata]
  · rw [hstatus]
    simp
  · have hnone := hc.1
    rw [hbuild] at hnone
    exact hb hnone

theorem retry_submitted (e : Execution) (a : Submitted) (h : Granted d) :
    (retryDiscipline cfg dates image).Yields i (submitted e a) (fun _ _ => True) d := by
  refine .ite (fun _ => ?_) fun _ => .lift_bind fun b _ => .ite (fun _ => retry_uncertain _ h)
    fun _ => retry_bind b
  have hK : (retryDiscipline cfg dates image).Stable i (fun _ : Desk ι => True) :=
    fun _ _ _ _ => trivial
  refine Discipline.Yields.bind (P := fun _ _ => True) ?_ fun _ _ _ => .raise _
  refine (retry_now hK trivial).bind fun now d₁ _ => (retry_store hK trivial fun d₂ _ hI => ?_).bind
    fun _ _ _ => .pure trivial
  have hkeep : ∀ c ∈ (([⟨.status, .failed⟩, ⟨.extra "submission_status_code", toString a.code⟩] ++
      if a.code = 400 ∧ a.message ≠ "" then [⟨.extra "submission_error", a.message⟩] else []) ++
      [⟨.updatedAt, now⟩] : List Change), c.1 ∉ ([.bootstrapTicketId, .reconciliationAttempts,
        .uncertainSince] : List Field) := by
    split_ifs <;> simp
  have hstatus : update (([⟨.status, .failed⟩,
      ⟨.extra "submission_status_code", toString a.code⟩] ++
      if a.code = 400 ∧ a.message ≠ "" then [⟨.extra "submission_error", a.message⟩] else []) ++
      [⟨.updatedAt, now⟩]) d₂.record .status = .failed := by
    refine update_of_some ?_
    split_ifs <;> simp
  refine .settle hI hkeep ?_ fun hc => ?_
  · rw [hstatus]
    simp
  · have hs := hc.2
    rw [hstatus] at hs
    simp at hs

/-- The POST of the submission whose permit the caller holds. -/
theorem retry_post (e : Execution) (request : BuildRequest) (h : Granted d) (hi : i ∈ d.unspent) :
    (retryDiscipline cfg dates image).Yields i
      (postSubmission (cfg.at dates (image i)) e request) (fun _ _ => True) d := by
  refine .lift_bind fun _ _ => ?_
  intro d₁ hr hI
  refine ⟨hr.mine hi, fun d₂ r hs hI₂ => ?_⟩
  have hstable : (retryDiscipline cfg dates image).Stable i Granted := granted_stable _
  have h₁ : Granted d₁ := hstable _ _ hr h
  have h₂ : Granted d₂ := by
    obtain ⟨created, -, rfl, -⟩ := hs.2
    exact h₁
  rcases r with x | a
  · exact retry_uncertain _ h₂
  · exact retry_submitted e a h₂

/-- A claim that returns `True` gives the caller a permit. -/
theorem retry_claim {now : String} {t : ℕ} (hnow : now = dates.text t) (ht : t ≤ d.clock) :
    (retryDiscipline cfg dates image).Yields i (perform (.tx (.claimSubmission now)))
      (fun r d' => r.2 = true → Granted d' ∧ i ∈ d'.unspent) d := by
  refine perform_yields fun d₁ hr hI => ⟨⟨t, Nat.le_trans ht hr.clock, hnow⟩,
    fun d₂ v hs hI₂ hv => ?_⟩
  cases Desk.wrote hs.2 with
  | nothing hd x hx => cases hx
  | stored cs flag hrun w hw hd hx =>
    rcases hx with ⟨x, hx⟩ | ⟨-, hx⟩ | ⟨hx, -⟩
    · cases hx
    · exact absurd rfl (hx now)
    · obtain rfl := Except.ok.inj hx
      cases hv
  | granted now' ht' cs hrun w hw hd hx =>
    subst hd
    refine ⟨⟨List.cons_ne_nil _ _, fun _ => ⟨?_, fun _ _ => trivial⟩⟩, List.mem_cons_self⟩
    rcases claim_changes hrun with ⟨-, hf⟩ | ⟨rfl, -, -⟩
    · cases hf
    · intro hc
      refine claimedRecord_not_claimable d₁.record now ?_
      rw [claimedRecord, ← hw.1]
      exact hc

theorem retry_matching (e : Execution) (hK : (retryDiscipline cfg dates image).Stable i K)
    (h : K d) : (retryDiscipline cfg dates image).Yields i
      (matchingBuild (cfg.at dates (image i)) e) (fun _ d' => K d') d :=
  .ite (fun _ => .raise _) fun _ => (quiet_yields (c := .listBuilds _) rfl hK h).bind
    fun _ _ hb => .pure hb.1

theorem retry_submit (service : Service) :
    (retryDiscipline cfg dates image).Yields i (submit (cfg.at dates (image i)) digest service)
      (fun _ _ => True) d := by
  have hK : (retryDiscipline cfg dates image).Stable i (fun _ : Desk ι => True) :=
    fun _ _ _ _ => trivial
  refine .lift_bind fun _ _ => (retry_getOrRaise _ hK trivial).bind fun e d₁ _ =>
    .ite (fun _ => .raise _) fun _ => .ite (fun _ => .raise _) fun _ =>
    .ite (fun _ => .pure trivial) fun _ => (retry_matching e hK trivial).bind
    fun recovered d₂ _ => ?_
  rcases recovered with _ | b
  · refine .lift_bind fun _ _ => .lift_bind fun request _ =>
      (quiet_yields (c := .external _) rfl hK trivial).bind fun _ d₃ _ =>
      (retry_now hK trivial).bind fun now d₄ hn =>
      (retry_claim hn.2.2 (Nat.le_refl _)).bind fun r d₅ hr => .ite (fun _ => .raise _) fun hf => ?_
    obtain ⟨hg, hi⟩ := hr (by simpa using hf)
    exact retry_post e request hg hi
  · exact retry_bind b

/-- The date that the age of an uncertain submission is counted from. -/
def uncertainAt (e : Execution) : String :=
  if e .uncertainSince ≠ "" then e .uncertainSince else e .updatedAt

omit [DecidableEq ι] in
/-- A submission that was not reset is uncertain since its permits or later. -/
theorem RetryInv.held (hI : RetryInv dates d)
    (hs : (d.record .status : Status) ∈ ([.submitting, .unknown] : List Status)) :
    Held (fun p => Since dates p.date (uncertainAt d.record)) d := by
  intro hu
  refine ⟨fun hc => ?_, fun p hp => ?_⟩
  · have hc' := hc.2
    simp only [List.mem_cons, List.not_mem_nil, or_false] at hs hc'
    rcases hs with h | h <;> rw [h] at hc' <;> simp at hc'
  · obtain ⟨h1, h2⟩ := hI.dated hu p hp
    unfold uncertainAt
    by_cases he : d.record .uncertainSince = ""
    · rw [if_neg (not_not.2 he)]
      exact h2 hs
    · rw [if_pos he]
      exact h1.resolve_left he

omit [DecidableEq ι] in
/-- The grace period is over for every permit that the uncertain submission is dated after. -/
theorem Held.over {since now : String} {t : ℕ} (h : Held (fun p => Since dates p.date since) d)
    (hnow : now = dates.text t) (hover : dates.graceOver since now = true) :
    Held (fun p => p.date + uncertainGrace ≤ t) d := by
  intro hu
  refine ⟨(h hu).1, fun p hp => ?_⟩
  obtain ⟨u, hpu, hsince⟩ := (h hu).2 p hp
  unfold Dates.graceOver at hover
  rw [hsince, hnow, dates.parse_text, dates.parse_text] at hover
  have hle := of_decide_eq_true hover
  omega

theorem retry_reconcile (service : Service) :
    (retryDiscipline cfg dates image).Yields i
      (reconcileUncertainSubmission (cfg.at dates (image i)) digest service)
      (fun _ _ => True) d := by
  have hK : (retryDiscipline cfg dates image).Stable i (fun _ : Desk ι => True) :=
    fun _ _ _ _ => trivial
  refine .lift_bind fun _ _ => (retry_getOrRaise _ hK trivial).bind fun e d₁ he => ?_
  obtain ⟨-, hI, rfl⟩ := he
  refine .ite (fun hb => absurd hI.ordinary hb) fun _ => .ite (fun _ => .pure trivial) fun hg => ?_
  have hs : (d₁.record .status : Status) ∈ ([.submitting, .unknown] : List Status) := by
    by_contra hn
    exact hg (.inr (.inr hn))
  refine (retry_matching _ Held.stable (hI.held hs)).bind fun recovered d₂ h₂ => ?_
  rcases recovered with _ | b
  · refine (retry_now Held.stable h₂).bind fun now d₃ hn => .ite (fun _ => .pure trivial)
      fun hover => ?_
    obtain ⟨h₃, -, hnow⟩ := hn
    rw [not_or, not_not] at hover
    have hheld := Held.over h₃ hnow hover.1
    exact (retry_absent ⟨hheld, Nat.le_refl _⟩).bind fun _ _ _ => retry_submit service
  · exact retry_bind b

theorem retry_program (s : Submitter) :
    (retryDiscipline cfg dates image).Yields i (s.program (cfg.at dates (image i)) digest)
      (fun _ _ => True) d := by
  cases s with
  | submit service => exact retry_submit service
  | reconcile service => exact retry_reconcile service

end Programs

section Runs

variable {ι : Type} [DecidableEq ι] {cfg : Config} {dates : Dates} {image : ι → String}
  {digest : Digest} {d : Desk ι}

/-- The first attempt of an execution, before anything was asked for. -/
structure Opens (d : Desk ι) : Prop where
  begun : Begun d.record
  unreset : Unreset d.record
  certain : d.record .uncertainSince = ""
  permits : d.permits = []
  unspent : d.unspent = []
  builds : d.world.builds = 0

omit [DecidableEq ι] in
theorem Opens.inv (h : Opens d) : RetryInv dates d where
  ordinary := h.begun.ordinary
  past := by simp [h.permits]
  dated := by simp [h.permits]
  fresh := fun _ _ => h.certain
  first := by simp [h.permits]
  second := fun hu => absurd h.unreset hu
  waited := fun hu => absurd h.unreset hu
  spaced := by simp [h.permits]
  builds := by simp [h.permits, h.unspent, h.builds]

end Runs

section Demo

def retryCallers : Fin 4 → Submitter :=
  fun i => if i = 0 then .submit demoService else .reconcile demoService

def retryCalls : Conf (Fin 4) (Desk (Fin 4)) Call.Ans Err Execution :=
  (deskStart (pendingRelease newHash) []).calls plannerConfig decimalDates demoDigest
    (fun _ => newPlanner) retryCallers

def retryTurns (script : List (DeskAct (Fin 4))) : List (Turn (Fin 4) (Desk (Fin 4)) Call.Ans) :=
  script.map (DeskAct.turn plannerConfig decimalDates deskOracle fun _ => newPlanner)

theorem retry_opens : Opens (deskStart (pendingRelease newHash) []) where
  begun := ⟨by decide, by decide, by decide, by decide, by decide⟩
  unreset := by unfold Unreset; decide
  certain := by decide
  permits := rfl
  unspent := rfl
  builds := rfl

/-- The response to the first POST is lost; after the grace period the submission is reset. -/
def retryScript : List (DeskAct (Fin 4)) :=
  lostAnswers 9 0 ++ [DeskAct.wait uncertainGrace] ++ lostAnswers 13 1

/-- Two calls pass the check on the record of the first submission; each of them resets it. -/
def twiceScript : List (DeskAct (Fin 4)) :=
  lostAnswers 9 0 ++ [DeskAct.wait uncertainGrace] ++ lostAnswers 3 1 ++ lostAnswers 3 2 ++
    lostAnswers 10 1 ++ lostAnswers 10 2

/-- The two runs, evaluated together: they share their first steps. -/
theorem retry_states :
    (retryCalls.Meets ResetsOnce (retryTurns retryScript) ∧
      (retryCalls.play (retryTurns retryScript)).state.permits =
        [⟨uncertainGrace, uncertainGrace⟩, ⟨0, 0⟩]) ∧
    (retryCalls.play (retryTurns twiceScript)).state.permits.length = 3 := by
  decide +kernel

end Demo

end Release
