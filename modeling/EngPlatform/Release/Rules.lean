import EngPlatform.Release.Contract

/-!
# Rules for programs under the contract

`Sound i w p P` says that the program `p` of `i`, started in `w`, keeps the contract and that what
it returns satisfies `P`. A record that a program holds may be stale: `Snapshot` is all that such a
record still says about the world.
-/

set_option linter.dupNamespace false

namespace Release

open Interleave

section Rules

variable {ι : Type} [DecidableEq ι] (cfg : Config) (i : ι)

/-- The program keeps the contract, goes not back, and returns what `P` says. -/
def Sound {α : Type} (w : World ι) (p : Program α) (P : α → World ι → Prop) : Prop :=
  (discipline ι cfg).Obeys i p (fun o w' => Le w w' ∧ ∀ a, o = .ok a → P a w') w

variable {cfg i} {α β : Type} {w : World ι} {P : α → World ι → Prop}

theorem Sound.pure {a : α} (h : P a w) : Sound cfg i w (Pure.pure a) P :=
  ⟨.refl w, fun _ ha => by cases ha; exact h⟩

theorem Sound.raise (x : Err) : Sound cfg i w (Prog.raise x : Program α) P :=
  ⟨.refl w, fun _ ha => by cases ha⟩

theorem Sound.lift {x : Except Err α} (h : ∀ a, x = .ok a → P a w) :
    Sound cfg i w (Prog.lift x) P := by
  rcases x with x | a
  · exact .raise x
  · exact .pure (h a rfl)

theorem Sound.ite {b : Prop} [Decidable b] {p q : Program α} (hp : b → Sound cfg i w p P)
    (hq : ¬b → Sound cfg i w q P) : Sound cfg i w (if b then p else q) P := by
  split_ifs with h
  exacts [hp h, hq h]

theorem Sound.mono {Q : α → World ι → Prop} {p : Program α} (h : Sound cfg i w p P)
    (hQ : ∀ a w', Le w w' → P a w' → Q a w') : Sound cfg i w p Q :=
  Discipline.Obeys.mono (fun _ _ ho => ⟨ho.1, fun a ha => hQ a _ ho.1 (ho.2 a ha)⟩) p h

theorem Sound.bind {Q : β → World ι → Prop} {p : Program α} {f : α → Program β}
    (h : Sound cfg i w p P) (hf : ∀ a w', Le w w' → P a w' → Sound cfg i w' (f a) Q) :
    Sound cfg i w (p >>= f) Q := by
  refine Discipline.Obeys.bind p (Discipline.Obeys.mono (fun o w' ho => ?_) p h)
  rcases o with x | a
  · exact ⟨ho.1, fun _ ha => by cases ha⟩
  · exact Discipline.Obeys.mono (fun _ _ ho' => ⟨ho.1.trans ho'.1, ho'.2⟩) (f a)
      (hf a w' ho.1 (ho.2 a rfl))

theorem Sound.lift_bind {Q : β → World ι → Prop} {x : Except Err α} {f : α → Program β}
    (h : ∀ a, x = .ok a → Sound cfg i w (f a) Q) : Sound cfg i w (Prog.lift x >>= f) Q := by
  rcases x with x | a
  · exact .raise x
  · exact h a rfl

theorem Sound.handle {p : Program α} {g : Err → Program α} (h : Sound cfg i w p P)
    (hg : ∀ x w', Le w w' → Sound cfg i w' (g x) P) : Sound cfg i w (p.handle g) P := by
  refine Discipline.Obeys.handle p (Discipline.Obeys.mono (fun o w' ho => ?_) p h)
  rcases o with x | a
  · exact Discipline.Obeys.mono (fun _ _ ho' => ⟨ho.1.trans ho'.1, ho'.2⟩) (g x)
      (hg x w' ho.1)
  · exact ho

theorem Sound.attempt {p : Program α} (h : Sound cfg i w p P) :
    Sound cfg i w (attempt p) fun o w' => ∀ a, o = .ok a → P a w' := by
  refine Sound.handle (h.bind fun a w' _ ha => .pure fun b hb => ?_) fun x w' _ =>
    .pure fun a ha => by cases ha
  cases hb
  exact ha

theorem Sound.translate {raised : Err → Bool} {x : Err} {p : Program α} (h : Sound cfg i w p P) :
    Sound cfg i w (translate raised x p) P := by
  exact Sound.handle h fun y w' _ => .ite (fun _ => .raise x) fun _ => .raise y

/-- A request that is allowed wherever the others can lead. -/
theorem Sound.perform {c : Call} {Q : c.Val → World ι → Prop}
    (ha : ∀ w₁, Le w w₁ → Inv cfg w₁ → w₁.permit i = w.permit i → Allowed cfg i w₁ c)
    (hk : ∀ w₁ w₂ v, Le w w₁ → Inv cfg w₁ → sem cfg i w₁ c w₂ (.ok v) → Inv cfg w₂ → Q v w₂) :
    Sound cfg i w (Release.perform c) Q := by
  intro w₁ hr hI
  refine ⟨ha w₁ hr.1 hI hr.2, fun w₂ r hs hI₂ => ?_⟩
  have hle : Le w w₂ := hr.1.trans (sem_keeps hI (ha w₁ hr.1 hI hr.2) hs).2.1
  rcases r with x | v
  · exact ⟨hle, fun _ hx => by cases hx⟩
  · exact ⟨hle, fun a hv => by cases hv; exact hk w₁ w₂ v hr.1 hI hs hI₂⟩

/-- A request that is always allowed. -/
theorem Sound.ask {c : Call} (h : ∀ w₁, Allowed cfg i w₁ c) :
    Sound cfg i w (Release.perform c) fun _ _ => True :=
  .perform (fun w₁ _ _ _ => h w₁) fun _ _ _ _ _ _ _ => trivial

end Rules

section Snapshots

variable {ι : Type} {cfg : Config} {w w' : World ι} {e : Execution}

/-- The record was stored at some time before. -/
def Snapshot (cfg : Config) (e : Execution) (w : World ι) : Prop :=
  ∃ w₀ : World ι, w₀.record = e ∧ Inv cfg w₀ ∧ Le w₀ w

theorem Snapshot.now (hI : Inv cfg w) : Snapshot cfg w.record w := ⟨w, rfl, hI, .refl w⟩

theorem Snapshot.le (h : Snapshot cfg e w) (hle : Le w w') : Snapshot cfg e w' := by
  obtain ⟨w₀, he, hI, hw⟩ := h
  exact ⟨w₀, he, hI, hw.trans hle⟩

theorem Snapshot.identity (h : Snapshot cfg e w) : SameIdentity e w.record := by
  obtain ⟨w₀, rfl, -, hw⟩ := h
  exact hw.identity

theorem Snapshot.headSha (h : Snapshot cfg e w) : e .headSha = w.record .headSha :=
  (h.identity .headSha (by decide)).symm

theorem Snapshot.evidence (h : Snapshot cfg e w) (he : e .evidenceCommitted = true) :
    w.record .evidenceCommitted = true := by
  obtain ⟨w₀, rfl, -, hw⟩ := h
  exact hw.evidence he

theorem Snapshot.pending (h : Snapshot cfg e w) (he : e .pendingReportHash ≠ "") :
    w.record .pendingReportHash ≠ "" := by
  obtain ⟨w₀, rfl, -, hw⟩ := h
  exact hw.pending he

theorem Snapshot.terminal (h : Snapshot cfg e w) (he : e .providerTerminalSuccess = true) :
    w.record .providerTerminalSuccess = true := by
  obtain ⟨w₀, rfl, -, hw⟩ := h
  exact hw.terminal he

theorem Snapshot.permitted (h : Snapshot cfg e w)
    (he : automatic cfg e = true ∨ e .canaryApproved = true) : Permitted cfg w := by
  obtain ⟨w₀, rfl, -, hw⟩ := h
  exact hw.permitted he

/-- A record whose publication is pending or uncertain is of a claimed one, with a granted plan. -/
theorem Snapshot.claimed (h : Snapshot cfg e w)
    (he : e .status = .publishPending ∨ e .publicationUncertain = true) :
    Claimed w ∧ (e .releasePlan : Option Plan) ∈ w.grants := by
  obtain ⟨w₀, rfl, hI, hw⟩ := h
  have hc : Claimed w₀ := he.elim hI.pending hI.uncertain
  exact ⟨hw.claimed hc, hw.grants (hI.granted (hI.claimed hc).2.2)⟩

end Snapshots

section SafeChanges

variable {ι : Type} {cfg : Config} {w : World ι} {cs : List Change}

/-- The fields whose changes are restricted, besides the status and the pending report. -/
def restricted : List Field :=
  identityFields ++ [Field.bootstrapTicketId, .ticketId, .publishClaimedAt, .evidenceCommitted, .canaryApproved,
    .providerTerminalSuccess, .publicationUncertain]

/-- Changes of no restricted field are safe where their status is. -/
theorem Safe.of_fields (h : ∀ c ∈ cs, c.1 ∉ restricted)
    (hp : ∀ v, lookup .pendingReportHash cs = some v → v ≠ "")
    (hs : ∀ s, lookup .status cs = some s → StatusSafe cfg w cs s) : Safe cfg w cs := by
  have hnone : ∀ f ∈ restricted, lookup f cs = none := fun f hf =>
    lookup_eq_none fun c hc hcf => h c hc (hcf ▸ hf)
  have hf : ∀ {f : Field} {P : f.Val → Prop}, f ∈ restricted → ∀ v, lookup f cs = some v → P v :=
    fun hf v hv => by rw [hnone _ hf] at hv; cases hv
  exact
    { identity := fun f hf => hnone f (List.mem_append_left _ hf)
      ticket := ⟨hnone _ (by decide), hnone _ (by decide)⟩
      main := by rw [hnone .publishClaimedAt (by decide)]; exact nofun
      claim := hf (by decide)
      evidence := hf (by decide)
      canary := hf (by decide)
      terminal := hf (by decide)
      pending := hp
      uncertain := fun h => by rw [hnone .publicationUncertain (by decide)] at h; cases h
      status := hs }

/-- The same where the two fields are read off. -/
theorem Safe.of_lookup {s : Status} (h : ∀ c ∈ cs, c.1 ∉ restricted)
    (hp : lookup .pendingReportHash cs = none) (hs : lookup .status cs = some s)
    (hsafe : StatusSafe cfg w cs s) : Safe cfg w cs := by
  refine Safe.of_fields h (fun v hv => ?_) fun s' hs' => ?_
  · rw [hp] at hv
    cases hv
  · obtain rfl := Option.some.inj (hs.symm.trans hs')
    exact hsafe

/-- Further changes of neither a restricted field, the status nor the pending report. -/
theorem Safe.append {cs' : List Change} (h : Safe cfg w cs)
    (h' : ∀ c ∈ cs', c.1 ∉ restricted ++ [Field.status, .pendingReportHash]) :
    Safe cfg w (cs ++ cs') := by
  have hsame : ∀ f ∈ restricted ++ [Field.status, .pendingReportHash],
      lookup f (cs ++ cs') = lookup f cs := fun f hf => by
    rw [lookup_append, lookup_eq_none fun c hc hcf => h' c hc (hcf ▸ hf), Option.none_or]
  exact
    { identity := fun f hf => by
        rw [hsame f (List.mem_append_left _ (List.mem_append_left _ hf))]
        exact h.identity f hf
      ticket := by
        rw [hsame .bootstrapTicketId (by decide), hsame .ticketId (by decide)]
        exact h.ticket
      main := by rw [hsame .publishClaimedAt (by decide)]; exact h.main
      claim := by
        rw [hsame .publishClaimedAt (by decide), hsame .status (by decide)]
        exact h.claim
      evidence := by rw [hsame _ (by decide)]; exact h.evidence
      canary := by rw [hsame _ (by decide)]; exact h.canary
      terminal := by rw [hsame _ (by decide)]; exact h.terminal
      pending := by rw [hsame _ (by decide)]; exact h.pending
      uncertain := by rw [hsame _ (by decide)]; exact h.uncertain
      status := fun s hs => by
        rw [hsame _ (by decide)] at hs
        have hst := h.status s hs
        unfold StatusSafe at hst ⊢
        rw [hsame .publishClaimedAt (by decide), hsame .evidenceCommitted (by decide)]
        exact hst }

theorem Safe.of_plain (h : ∀ c ∈ cs, c.1 ∉ restricted ++ [Field.status, .pendingReportHash]) :
    Safe cfg w cs := by
  have hs := (Safe.nil : Safe cfg w []).append h
  exact hs

/-- The provider's success may be set, with changes of no field that is checked. -/
theorem Safe.terminalSuccess (h : ∀ c ∈ cs, c.1 ∉ restricted ++ [Field.status, .pendingReportHash]) :
    Safe cfg w (⟨.providerTerminalSuccess, true⟩ :: cs) := by
  have hset : Safe cfg w [⟨.providerTerminalSuccess, true⟩] := by
    constructor <;> simp [identityFields]
  exact hset.append h

end SafeChanges

end Release
