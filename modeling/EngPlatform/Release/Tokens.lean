import EngPlatform.Release.Reservation
import EngPlatform.Release.Terminal

/-!
# The tokens of an execution

An execution's source token and its event token are issued once for each build or run. Which one a
token was last issued for is one field of the record, and the builds before it are remembered in
`previous_build_ids`. So a token is issued once for a build as long as no build comes back that was
moved there, and no operation writes the fields of a token but the one that issues it.
-/

set_option linter.dupNamespace false

namespace Release

/-- A time of the clock. -/
abbrev Time := { now : String // now ≠ "" }

/-- The transactions that `StoreOp` has a constructor of its own for. -/
def Tx.isNamed : Tx → Bool
  | .stagePlannerRetry .. | .claimSourceToken .. | .claimEventToken .. => true
  | _ => false

/-- An operation on an execution's document: its reservation, the start of a planner's retry, which
reads the record before its transaction, the claim of a token, or another transaction. -/
inductive StoreOp
  | reserve (r : Reservation) (now : Time)
  | stagePlannerRetry (args : RetryArgs) (now : Time)
  | claimSourceToken (providerRunId : String) (now : Time)
  | claimEventToken (providerRunId tokenHash : String) (now : Time)
  | tx (t : Tx) (h : t.isNamed = false)

/-- The transaction of an operation on a record. -/
def StoreOp.transaction (e : Execution) : StoreOp → Option Tx
  | .reserve _ _ => none
  | .stagePlannerRetry args now => some (.stagePlannerRetry args e now)
  | .claimSourceToken providerRunId now => some (.claimSourceToken providerRunId now)
  | .claimEventToken providerRunId tokenHash now =>
    some (.claimEventToken providerRunId tokenHash now)
  | .tx t _ => some t

/-- A token that was issued, with the record it was issued on. -/
structure Grant where
  record : Execution
  providerRunId : String

/-- The document, and the tokens that were issued, the last one first. -/
structure Ledger where
  stored : Option Execution
  source : List Grant
  event : List Grant

/-- The tokens that an operation adds to the ledger if it returns `True`. -/
def Ledger.note (l : Ledger) (e : Execution) : StoreOp → Ledger
  | .claimSourceToken providerRunId _ => { l with source := ⟨e, providerRunId⟩ :: l.source }
  | .claimEventToken providerRunId _ _ => { l with event := ⟨e, providerRunId⟩ :: l.event }
  | _ => l

/-- An operation that raises leaves the document. -/
def Ledger.step (cfg : Config) (sha : Intent → String) (l : Ledger) (op : StoreOp) : Ledger :=
  match l.stored with
  | none =>
    match op with
    | .reserve r now =>
      match Release.reserve sha none (fingerprint sha r) r now with
      | .ok (e, _) => { l with stored := some e }
      | .error _ => l
    | _ => l
  | some e =>
    match op.transaction e with
    | none => l
    | some t =>
      match t.apply cfg e with
      | .ok (e', flag) => { (if flag then l.note e op else l) with stored := some e' }
      | .error _ => l

def Ledger.run (cfg : Config) (sha : Intent → String) (l : Ledger) (ops : List StoreOp) : Ledger :=
  ops.foldl (Ledger.step cfg sha) l

/-- No document, and no token issued. -/
def Ledger.empty : Ledger := ⟨none, [], []⟩

/-- What the record says of a token: the build or the run it was last issued for, and when. -/
structure Issued where
  buildId : String
  providerRunId : String
  issuedAt : String

def sourceIssued (e : Execution) : Issued :=
  ⟨e .sourceTokenBuildId, e .sourceTokenProviderRunId, e .sourceTokenIssuedAt⟩

def eventIssued (e : Execution) : Issued :=
  ⟨e .eventTokenBuildId, e .eventTokenProviderRunId, e .eventTokenIssuedAt⟩

/-- The fields that say whom a token was issued for. -/
def tokenFields : List Field :=
  [.sourceTokenIssuedAt, .sourceTokenBuildId, .sourceTokenProviderRunId, .eventTokenIssuedAt,
    .eventTokenBuildId, .eventTokenProviderRunId]

/-- A write that brings no build back: it leaves the tokens, keeps the builds that were moved to
`previous_build_ids`, binds neither one of them nor a run that has a token, and binds a build to a
Cloud Build execution only. -/
structure TokensKept (e e' : Execution) : Prop where
  tokens : ∀ f ∈ tokenFields, e' f = e f
  previous : (e .previousBuildIds : List String) ⊆ e' .previousBuildIds
  bound : e' .buildId ≠ "" → e' .buildId ∉ (e' .previousBuildIds : List String)
  unissued : e' .buildId ≠ "" → e' .buildId = e .buildId ∨
    (e' .buildId ≠ e .sourceTokenProviderRunId ∧ e' .buildId ≠ e .eventTokenProviderRunId)
  managed : e' .provider = .githubActions →
    e' .buildId = "" ∧ e' .previousBuildIds = ([] : List String)

instance (e e' : Execution) : Decidable (TokensKept e e') :=
  decidable_of_iff
    ((∀ f ∈ tokenFields, e' f = e f) ∧
      ((e .previousBuildIds : List String) ⊆ e' .previousBuildIds) ∧
      (e' .buildId ≠ "" → e' .buildId ∉ (e' .previousBuildIds : List String)) ∧
      (e' .buildId ≠ "" → e' .buildId = e .buildId ∨
        (e' .buildId ≠ e .sourceTokenProviderRunId ∧ e' .buildId ≠ e .eventTokenProviderRunId)) ∧
      (e' .provider = .githubActions →
        e' .buildId = "" ∧ e' .previousBuildIds = ([] : List String)))
    ⟨fun ⟨h1, h2, h3, h4, h5⟩ => ⟨h1, h2, h3, h4, h5⟩,
      fun ⟨h1, h2, h3, h4, h5⟩ => ⟨h1, h2, h3, h4, h5⟩⟩

/-- What holds of a token's fields and of the tokens that were issued. -/
structure TokenInv (e : Execution) (issued : Issued) (grants : List Grant) : Prop where
  known : ∀ g ∈ grants, g.providerRunId ≠ "" ∧
    (g.providerRunId ∈ (e .previousBuildIds : List String) ∨ g.providerRunId = issued.buildId ∨
      g.providerRunId = issued.providerRunId)
  bound : e .buildId ≠ "" →
    e .buildId ∉ (e .previousBuildIds : List String) ∧ e .buildId ≠ issued.providerRunId
  dated : grants ≠ [] → issued.issuedAt ≠ ""
  managed : e .provider = .githubActions →
    e .buildId = "" ∧ e .previousBuildIds = ([] : List String)
  once : (grants.map Grant.providerRunId).Nodup
  moved : ∀ g ∈ grants, g.providerRunId ∉ (g.record .previousBuildIds : List String)

section Steps

variable {e e' : Execution} {grants : List Grant}

theorem TokenInv.keep {issued : Issued} (hI : TokenInv e issued grants) (hk : TokensKept e e')
    (hrun : issued.providerRunId = e .sourceTokenProviderRunId ∨
      issued.providerRunId = e .eventTokenProviderRunId) : TokenInv e' issued grants where
  known := fun g hg => by
    obtain ⟨hne, h⟩ := hI.known g hg
    exact ⟨hne, h.imp_left fun hp => hk.previous hp⟩
  bound := fun hb => by
    refine ⟨hk.bound hb, ?_⟩
    rcases hk.unissued hb with hold | ⟨hs, he⟩
    · rw [hold] at hb ⊢
      exact (hI.bound hb).2
    · rcases hrun with h | h <;> rw [h]
      · exact hs
      · exact he
  dated := hI.dated
  managed := hk.managed
  once := hI.once
  moved := hI.moved

/-- The record's builds and its provider are what the invariant is about. -/
theorem TokenInv.congr {issued : Issued} (hI : TokenInv e issued grants)
    (hb : e' .buildId = e .buildId) (hp : e' .previousBuildIds = e .previousBuildIds)
    (hpr : e' .provider = e .provider) : TokenInv e' issued grants where
  known := by rw [hp]; exact hI.known
  bound := by rw [hb, hp]; exact hI.bound
  dated := hI.dated
  managed := by rw [hb, hp, hpr]; exact hI.managed
  once := hI.once
  moved := hI.moved

/-- What a granted token was checked for. -/
theorem claimBuildScopedToken_true {cfg : Config} {runId issuedFor issuedAt : String}
    {source : Bool}
    (h : claimBuildScopedToken cfg e runId source issuedFor issuedAt = .ok true) :
    runId ≠ "" ∧
      ((e .provider = .cloudBuild ∧ e .buildId = runId ∧ issuedFor ≠ runId ∧
        (issuedFor ≠ "" → issuedFor ∈ (e .previousBuildIds : List String))) ∨
      (e .provider = .githubActions ∧ issuedFor = "" ∧ issuedAt = "")) := by
  unfold claimBuildScopedToken at h
  split at h
  · cases h
  split at h
  · cases h
  split at h
  · cases h
  rename_i hne
  refine ⟨hne, ?_⟩
  split at h
  · rename_i hp
    split at h
    · cases h
    rename_i hb
    have hfree := Except.ok.inj h
    simp only [claimBuildScopedToken.free, decide_eq_true_eq] at hfree
    refine .inl ⟨hp, not_not.1 hb, hfree.1, fun hi => ?_⟩
    by_contra hn
    exact hfree.2.1 ⟨hi, hn⟩
  · rename_i hp
    split at h
    · cases h
    split at h
    · cases h
    have hfree := Except.ok.inj h
    simp only [claimBuildScopedToken.free, decide_eq_true_eq] at hfree
    have hi : issuedFor = "" := by_contra fun hi => hfree.2.1 ⟨hi, List.not_mem_nil⟩
    refine .inr ⟨hp, hi, ?_⟩
    by_contra hat
    exact hfree.2.2 ⟨hi, hat, .inl trivial⟩

/-- Issuing a token for a build: none was issued for it before, and it was not moved. -/
theorem TokenInv.issueBuild {issued : Issued} (hI : TokenInv e issued grants) {runId : String}
    (now : Time) (hne : runId ≠ "") (hbuild : e .buildId = runId) (hfor : issued.buildId ≠ runId)
    (hold : issued.buildId ≠ "" → issued.buildId ∈ (e .previousBuildIds : List String)) :
    TokenInv e { issued with buildId := runId, issuedAt := now } (⟨e, runId⟩ :: grants) := by
  obtain ⟨hprev, hrun⟩ := hI.bound (by rwa [hbuild])
  rw [hbuild] at hprev hrun
  refine
    { known := fun g hg => ?_
      bound := hI.bound
      dated := fun _ => now.2
      managed := hI.managed
      once := List.nodup_cons.2 ⟨fun hmem => ?_, hI.once⟩
      moved := fun g hg => ?_ }
  · rcases List.mem_cons.1 hg with rfl | hg
    · exact ⟨hne, .inr (.inl rfl)⟩
    · obtain ⟨hgne, h | h | h⟩ := hI.known g hg
      · exact ⟨hgne, .inl h⟩
      · exact ⟨hgne, .inl (h ▸ hold (h ▸ hgne))⟩
      · exact ⟨hgne, .inr (.inr h)⟩
  · obtain ⟨g, hg, rfl⟩ := List.mem_map.1 hmem
    obtain ⟨-, h | h | h⟩ := hI.known g hg
    · exact hprev h
    · exact hfor h.symm
    · exact hrun h
  · rcases List.mem_cons.1 hg with rfl | hg
    · exact hprev
    · exact hI.moved g hg

/-- Issuing a token for a run of GitHub Actions: none was issued before. -/
theorem TokenInv.issueRun {issued : Issued} (hI : TokenInv e issued grants) {runId : String}
    (now : Time) (hne : runId ≠ "") (hprovider : e .provider = .githubActions)
    (hat : issued.issuedAt = "") :
    TokenInv e { issued with providerRunId := runId, issuedAt := now } (⟨e, runId⟩ :: grants) := by
  obtain ⟨hnobuild, hnoprev⟩ := hI.managed hprovider
  have hnone : grants = [] := by_contra fun h => hI.dated h hat
  subst hnone
  refine
    { known := fun g hg => ?_
      bound := fun hb => absurd hnobuild hb
      dated := fun _ => now.2
      managed := hI.managed
      once := List.pairwise_singleton _ _
      moved := fun g hg => ?_ }
  · obtain rfl := List.mem_singleton.1 hg
    exact ⟨hne, .inr (.inr rfl)⟩
  · obtain rfl := List.mem_singleton.1 hg
    have hnot : runId ∉ (e .previousBuildIds : List String) := by
      rw [hnoprev]
      exact List.not_mem_nil
    exact hnot

end Steps

section Runs

variable {cfg : Config} {sha : Intent → String}

/-- The operations that write only what they are for: they keep the tokens by themselves. -/
def Tx.isOrderly : Tx → Bool
  | .claimSubmission _ | .claimPublish _ | .transitionToCloudBuild _ _ | .admitEventProvider ..
  | .claimQualityBootstrapDispatch .. | .stagePlannerRetry .. | .cancelRelease _ => true
  | _ => false

/-- An operation whose caller gives the fields to write keeps the tokens with them. -/
def StoreOp.Orderly (cfg : Config) (stored : Option Execution) : StoreOp → Prop
  | .tx t _ => ∀ e ∈ stored, t.isOrderly = false → TokensKept e (update (t.stored cfg e) e)
  | _ => True

/-- Every operation of the run is orderly where it is made. -/
def OrderlyRun (cfg : Config) (sha : Intent → String) : Ledger → List StoreOp → Prop
  | _, [] => True
  | l, op :: ops => op.Orderly cfg l.stored ∧ OrderlyRun cfg sha (l.step cfg sha op) ops

instance (stored : Option Execution) : DecidablePred (StoreOp.Orderly cfg stored)
  | .tx t _ => inferInstanceAs (Decidable (∀ e ∈ stored, t.isOrderly = false →
      TokensKept e (update (t.stored cfg e) e)))
  | .reserve .. | .stagePlannerRetry .. | .claimSourceToken .. | .claimEventToken .. =>
    .isTrue trivial

instance : ∀ (ops : List StoreOp) (l : Ledger), Decidable (OrderlyRun cfg sha l ops)
  | [], _ => .isTrue trivial
  | op :: ops, l =>
    have : Decidable (OrderlyRun cfg sha (l.step cfg sha op) ops) :=
      instDecidableOrderlyRun ops (l.step cfg sha op)
    inferInstanceAs (Decidable (op.Orderly cfg l.stored ∧
      OrderlyRun cfg sha (l.step cfg sha op) ops))

/-- What holds of both tokens. -/
structure LedgerInv (l : Ledger) : Prop where
  none : l.stored = none → l.source = [] ∧ l.event = []
  source : ∀ e ∈ l.stored, TokenInv e (sourceIssued e) l.source
  event : ∀ e ∈ l.stored, TokenInv e (eventIssued e) l.event

/-- The tokens' fields are left where none of them is written. -/
theorem tokens_of_unwritten {cs : List Change} {e : Execution}
    (h : ∀ c ∈ cs, c.1 ∉ tokenFields) : ∀ f ∈ tokenFields, update cs e f = e f := fun _ hf =>
  update_of_none (lookup_eq_none fun c hc he => h c hc (he ▸ hf))

/-- A write of none of the fields that the tokens depend on. -/
theorem TokensKept.of_unwritten {cs : List Change} {e : Execution} {issued : Issued}
    {grants : List Grant} (hI : TokenInv e issued grants)
    (h : ∀ c ∈ cs, c.1 ∉ tokenFields ++ [Field.buildId, .previousBuildIds, .provider]) :
    TokensKept e (update cs e) := by
  have hkept : ∀ f ∈ [Field.buildId, .previousBuildIds, .provider], update cs e f = e f :=
    fun _ hf => update_of_none (lookup_eq_none fun c hc he =>
      h c hc (List.mem_append_right _ (he ▸ hf)))
  have hb : update cs e .buildId = e .buildId := hkept _ (by simp)
  have hp : update cs e .previousBuildIds = e .previousBuildIds := hkept _ (by simp)
  have hpr : update cs e .provider = e .provider := hkept _ (by simp)
  refine
    { tokens := tokens_of_unwritten fun c hc hm => h c hc (List.mem_append_left _ hm)
      previous := by rw [hp]; exact List.Subset.refl _
      bound := ?_
      unissued := fun _ => .inl hb
      managed := ?_ }
  · rw [hb, hp]
    exact fun hne => (hI.bound hne).1
  · rw [hb, hp, hpr]
    exact hI.managed

theorem apply_ok {t : Tx} {e e' : Execution} {flag : Bool} (h : t.apply cfg e = .ok (e', flag)) :
    ∃ cs, t.run cfg e = .ok (cs, flag) ∧ e' = update cs e := by
  unfold Tx.apply at h
  rcases hr : t.run cfg e with x | ⟨cs, b⟩ <;> rw [hr] at h
  · cases h
  · obtain ⟨rfl, rfl⟩ := Prod.mk.inj (Except.ok.inj h)
    exact ⟨cs, rfl, rfl⟩

/-- The planner's retry moves the failed build to the ones before. -/
theorem TokensKept.retry {e : Execution} (args : RetryArgs) (now : String)
    (hcloud : e .provider = .cloudBuild) :
    TokensKept e (update (retryChanges args e now) e) := by
  have htokens : ∀ c ∈ retryChanges args e now, c.1 ∉ tokenFields := by
    intro c hc
    rcases List.mem_append.1 hc with hc | hc
    · exact fields_free rfl c hc
    · split_ifs at hc <;> exact fields_free rfl c hc
  have hbuild : update (retryChanges args e now) e .buildId = "" := by
    refine update_of_some ?_
    rw [retryChanges, lookup_append]
    split_ifs <;> rfl
  have hprovider : update (retryChanges args e now) e .provider = e .provider := by
    refine update_of_none ?_
    rw [retryChanges, lookup_append]
    split_ifs <;> rfl
  have hprevious : update (retryChanges args e now) e .previousBuildIds =
      if args.failedBuildId ∈ (e .previousBuildIds : List String) then e .previousBuildIds
      else (e .previousBuildIds : List String) ++ [args.failedBuildId] := by
    refine update_of_some ?_
    rw [retryChanges, lookup_append]
    rcases args.remediation <;> rcases args.contractRetry <;> rfl
  refine
    { tokens := tokens_of_unwritten htokens
      previous := ?_
      bound := fun hne => absurd hbuild hne
      unissued := fun hne => absurd hbuild hne
      managed := fun hgithub => ?_ }
  · rw [hprevious]
    split_ifs
    · exact List.Subset.refl _
    · exact List.subset_append_left _ _
  · rw [hprovider, hcloud] at hgithub
    cases hgithub

/-- An operation that writes only what it is for keeps the tokens. -/
theorem TokensKept.orderly {t : Tx} {e : Execution} {issued : Issued} {grants : List Grant}
    (hI : TokenInv e issued grants) (ho : t.isOrderly = true) (hg : t.Guard cfg e)
    (hseen : ∀ args seen now, t = .stagePlannerRetry args seen now → seen = e) :
    TokensKept e (update (t.changes e) e) := by
  cases t with
  | claimSubmission | claimPublish | admitEventProvider | claimQualityBootstrapDispatch
    | cancelRelease => exact .of_unwritten hI (by simp [Tx.changes, tokenFields])
  | stagePlannerRetry args seen now =>
    obtain rfl := hseen _ _ _ rfl
    have hcandidate := hg.1
    unfold plannerRetryCandidate at hcandidate
    exact .retry args now (of_decide_eq_true hcandidate).2.2.1
  | transitionToCloudBuild reason now =>
    refine
      { tokens := tokens_of_unwritten (by simp [Tx.changes, tokenFields])
        previous := ?_
        bound := ?_
        unissued := fun _ => .inl ?_
        managed := fun hgithub => ?_ }
    · exact List.Subset.refl _
    · exact fun hne => (hI.bound hne).1
    · rfl
    · have hcloud : update (Tx.changes e (.transitionToCloudBuild reason now)) e .provider =
          .cloudBuild := rfl
      rw [hcloud] at hgithub
      cases hgithub
  | _ => cases ho

/-- A reserved execution has neither a build nor a token. -/
theorem TokenInv.reserved (r : Reservation) (fingerprintValue now : String) (issued : Issued) :
    TokenInv (r.value fingerprintValue now) issued [] where
  known := by simp
  bound := fun hb => absurd rfl hb
  dated := fun h => absurd rfl h
  managed := fun _ => ⟨rfl, rfl⟩
  once := List.nodup_nil
  moved := by simp

theorem LedgerInv.keep {l : Ledger} {e e' : Execution} (hI : LedgerInv l) (he : l.stored = some e)
    (hk : TokensKept e e') : LedgerInv { l with stored := some e' } where
  none := fun h => nomatch h
  source := fun e₁ he₁ => by
    obtain rfl : e' = e₁ := Option.some.inj he₁
    have hsame : sourceIssued e' = sourceIssued e := by
      unfold sourceIssued
      rw [hk.tokens .sourceTokenBuildId (by simp [tokenFields]),
        hk.tokens .sourceTokenProviderRunId (by simp [tokenFields]),
        hk.tokens .sourceTokenIssuedAt (by simp [tokenFields])]
    rw [hsame]
    exact (hI.source e he).keep hk (.inl rfl)
  event := fun e₁ he₁ => by
    obtain rfl : e' = e₁ := Option.some.inj he₁
    have hsame : eventIssued e' = eventIssued e := by
      unfold eventIssued
      rw [hk.tokens .eventTokenBuildId (by simp [tokenFields]),
        hk.tokens .eventTokenProviderRunId (by simp [tokenFields]),
        hk.tokens .eventTokenIssuedAt (by simp [tokenFields])]
    rw [hsame]
    exact (hI.event e he).keep hk (.inr rfl)

/-- A claim that returns `False` writes nothing; one that returns `True` was granted. -/
theorem claim_cases {x : Except Err Bool} {cs cs' : List Change} {flag : Bool}
    (h : (x.bind fun granted => if granted then .ok (cs, true) else .ok ([], false)) =
      (.ok (cs', flag) : Except Err (List Change × Bool))) :
    (flag = false ∧ cs' = []) ∨ (x = .ok true ∧ flag = true ∧ cs' = cs) := by
  obtain ⟨granted, hx, h⟩ := Interleave.bind_ok.1 h
  rcases granted with _ | _
  · obtain ⟨rfl, rfl⟩ := Prod.mk.inj (Except.ok.inj h)
    exact .inl ⟨rfl, rfl⟩
  · obtain ⟨rfl, rfl⟩ := Prod.mk.inj (Except.ok.inj h)
    exact .inr ⟨hx, rfl, rfl⟩

theorem LedgerInv.claimSource {l : Ledger} {e : Execution} (hI : LedgerInv l)
    (he : l.stored = some e) {runId : String} {now : Time}
    (h : claimBuildScopedToken cfg e runId true
      (if e .provider = .cloudBuild then e .sourceTokenBuildId else e .sourceTokenProviderRunId)
      (e .sourceTokenIssuedAt) = .ok true) :
    LedgerInv { l with
      stored := some (update (Tx.changes e (.claimSourceToken runId now)) e)
      source := ⟨e, runId⟩ :: l.source } where
  none := fun h => nomatch h
  source := fun e' he' => by
    obtain rfl := Option.some.inj he'
    obtain ⟨hne, ⟨hp, hb, hfor, hold⟩ | ⟨hp, -, hat⟩⟩ := claimBuildScopedToken_true h
    · rw [if_pos hp] at hfor hold
      have hissue := (hI.source e he).issueBuild now hne hb hfor hold
      simp only [Tx.changes, if_pos hp]
      exact hissue.congr rfl rfl rfl
    · have hp' : e .provider ≠ .cloudBuild := by rw [hp]; decide
      have hissue := (hI.source e he).issueRun now hne hp hat
      simp only [Tx.changes, if_neg hp']
      exact hissue.congr rfl rfl rfl
  event := fun e' he' => by
    obtain rfl := Option.some.inj he'
    have hkeep := hI.event e he
    simp only [Tx.changes]
    split_ifs <;> exact hkeep.congr rfl rfl rfl

theorem LedgerInv.claimEvent {l : Ledger} {e : Execution} (hI : LedgerInv l)
    (he : l.stored = some e) {runId tokenHash : String} {now : Time}
    (h : claimBuildScopedToken cfg e runId false
      (if e .provider = .cloudBuild then e .eventTokenBuildId else e .eventTokenProviderRunId)
      (e .eventTokenIssuedAt) = .ok true) :
    LedgerInv { l with
      stored := some (update (Tx.changes e (.claimEventToken runId tokenHash now)) e)
      event := ⟨e, runId⟩ :: l.event } where
  none := fun h => nomatch h
  source := fun e' he' => by
    obtain rfl := Option.some.inj he'
    have hkeep := hI.source e he
    simp only [Tx.changes]
    split_ifs <;> exact hkeep.congr rfl rfl rfl
  event := fun e' he' => by
    obtain rfl := Option.some.inj he'
    obtain ⟨hne, ⟨hp, hb, hfor, hold⟩ | ⟨hp, -, hat⟩⟩ := claimBuildScopedToken_true h
    · rw [if_pos hp] at hfor hold
      have hissue := (hI.event e he).issueBuild now hne hb hfor hold
      simp only [Tx.changes, if_pos hp]
      exact hissue.congr rfl rfl rfl
    · have hp' : e .provider ≠ .cloudBuild := by rw [hp]; decide
      have hissue := (hI.event e he).issueRun now hne hp hat
      simp only [Tx.changes, if_neg hp']
      exact hissue.congr rfl rfl rfl

/-- Storing nothing leaves what holds. -/
theorem LedgerInv.same {l : Ledger} {e : Execution} (hI : LedgerInv l) (he : l.stored = some e) :
    LedgerInv { l with stored := some (update [] e) } :=
  have hl : l = { l with stored := some (update [] e) } := by
    rw [show update [] e = e from rfl, ← he]
  hl ▸ hI

theorem LedgerInv.reserve {l : Ledger} (hI : LedgerInv l) (hnone : l.stored = .none)
    (r : Reservation) (fingerprintValue now : String) :
    LedgerInv { l with stored := some (r.value fingerprintValue now) } := by
  obtain ⟨hs, hv⟩ := hI.none hnone
  refine ⟨(fun h => nomatch h), fun e he => ?_, fun e he => ?_⟩
  · obtain rfl := Option.some.inj he
    rw [hs]
    exact .reserved _ _ _ _
  · obtain rfl := Option.some.inj he
    rw [hv]
    exact .reserved _ _ _ _

/-- A transaction of an orderly operation keeps what holds of the tokens. -/
theorem LedgerInv.transact {l : Ledger} {e : Execution} (hI : LedgerInv l) {op : StoreOp}
    (he : l.stored = some e) (ho : op.Orderly cfg l.stored) {t : Tx}
    (ht : op.transaction e = some t) {cs : List Change} {flag : Bool}
    (hr : t.run cfg e = .ok (cs, flag)) :
    LedgerInv { (if flag then l.note e op else l) with stored := some (update cs e) } := by
  have hl : ∀ l' : Ledger, l' = l → LedgerInv { l with stored := some (update cs e) } →
      LedgerInv { l' with stored := some (update cs e) } := fun l' hl' h => hl' ▸ h
  cases op with
  | reserve r now => cases ht
  | stagePlannerRetry args now =>
    obtain rfl := Option.some.inj ht
    refine hl _ (by cases flag <;> rfl) ?_
    rcases run_cases hr with ⟨rfl, -⟩ | ⟨rfl, -, hg⟩
    · exact hI.same he
    · exact hI.keep he (.orderly (hI.source e he) rfl hg fun _ _ _ h => by cases h; rfl)
  | claimSourceToken runId now =>
    obtain rfl := Option.some.inj ht
    rcases claim_cases hr with ⟨rfl, rfl⟩ | ⟨hgranted, rfl, rfl⟩
    · exact hI.same he
    · exact hI.claimSource he hgranted
  | claimEventToken runId tokenHash now =>
    obtain rfl := Option.some.inj ht
    rw [Tx.run] at hr
    split at hr
    · cases hr
    rcases claim_cases hr with ⟨rfl, rfl⟩ | ⟨hgranted, rfl, rfl⟩
    · exact hI.same he
    · exact hI.claimEvent he hgranted
  | tx t' hnamed =>
    obtain rfl := Option.some.inj ht
    refine hl _ (by cases flag <;> rfl) ?_
    rcases run_cases hr with ⟨rfl, -⟩ | ⟨hcs, -, hg⟩
    · exact hI.same he
    by_cases hord : t'.isOrderly = true
    · rw [hcs]
      refine hI.keep he (.orderly (hI.source e he) hord hg fun args seen now h => ?_)
      rw [h] at hnamed
      cases hnamed
    · have hkept := ho e he (by simpa using hord)
      rw [stored_ok hr] at hkept
      exact hI.keep he hkept

/-- An orderly operation keeps what holds of the tokens. -/
theorem LedgerInv.step {l : Ledger} (hI : LedgerInv l) {op : StoreOp}
    (ho : op.Orderly cfg l.stored) : LedgerInv (l.step cfg sha op) := by
  unfold Ledger.step
  split
  · rename_i hnone
    split
    · split
      · rename_i hr
        simp only [Release.reserve, ne_eq, not_true_eq_false, if_false, Except.ok.injEq,
          Prod.mk.injEq] at hr
        rw [← hr.1]
        exact hI.reserve hnone _ _ _
      · exact hI
    · exact hI
  · rename_i e he
    split
    · exact hI
    · rename_i t ht
      split
      · rename_i e' flag ha
        obtain ⟨cs, hr, rfl⟩ := apply_ok ha
        exact hI.transact he ho ht hr
      · exact hI

theorem LedgerInv.run : ∀ {ops : List StoreOp} {l : Ledger}, LedgerInv l → OrderlyRun cfg sha l ops →
    LedgerInv (l.run cfg sha ops)
  | [], _, hI, _ => hI
  | op :: _, l, hI, ⟨ho, hrest⟩ => by
    have hstep : LedgerInv (l.step cfg sha op) := hI.step ho
    exact hstep.run hrest

/-- In every orderly run a build or a run obtains one source token and one event token, and a build
that was moved to the ones before obtains none. -/
theorem tokens_once (ops : List StoreOp) (h : OrderlyRun cfg sha .empty ops) :
    let l := Ledger.empty.run cfg sha ops
    (l.source.map Grant.providerRunId).Nodup ∧ (l.event.map Grant.providerRunId).Nodup ∧
      ∀ g ∈ l.source ++ l.event, g.providerRunId ∉ (g.record .previousBuildIds : List String) := by
  intro l
  have hempty : LedgerInv .empty :=
    ⟨fun _ => ⟨rfl, rfl⟩, (fun _ he => nomatch he), (fun _ he => nomatch he)⟩
  have hI : LedgerInv l := hempty.run h
  rcases he : l.stored with _ | e
  · obtain ⟨hs, hv⟩ := hI.none he
    rw [hs, hv]
    exact ⟨List.nodup_nil, List.nodup_nil, fun _ hg => nomatch hg⟩
  · have hsource := hI.source e he
    have hevent := hI.event e he
    refine ⟨hsource.once, hevent.once, fun g hg => ?_⟩
    rcases List.mem_append.1 hg with hg | hg
    · exact hsource.moved g hg
    · exact hevent.moved g hg

end Runs

section Demo

def moment : Time := ⟨"2024-05-01T00:00:00+00:00", by decide⟩

def tokenReservation : Reservation where
  repository := "acme/api"
  serviceName := "api"
  operation := .mainRelease
  headSha := "aaaa"
  baseSha := "bbbb"
  branch := "main"
  profileHash := "profile"
  executorDigest := "executor"
  policyHash := "policy"
  plannerHash := "planner"
  provider := .cloudBuild
  deliveryId := "delivery"
  providerSelection := none
  triggerEvent := ""

/-- A build is bound, obtains its source token, and fails in the release engine. -/
def attemptBuild (build : String) : List StoreOp :=
  [.tx (.bindBuild build [] moment) rfl, .claimSourceToken build moment,
    .tx (.save [⟨.status, .runningQuality⟩] moment) rfl,
    .tx (.save [⟨.status, .failed⟩, ⟨.releaseEngineFailed, true⟩,
      ⟨.engineEventStatus, "quality_passed"⟩, ⟨.evidenceCommitted, true⟩,
      ⟨.reportHash, "report"⟩] moment) rfl]

/-- The planner's retries of two failed builds. -/
def firstRetry (build : String) : StoreOp :=
  .stagePlannerRetry ⟨build, "planner@sha256:0", "", false, false, ""⟩ moment

def secondRetry (build : String) : StoreOp :=
  .stagePlannerRetry ⟨build, "planner@sha256:1", "hash", true, false, ""⟩ moment

/-- Three builds of an execution, the second and third after a planner's retry. -/
def threeBuilds (first second third : String) : List StoreOp :=
  .reserve tokenReservation moment :: attemptBuild first ++ firstRetry first ::
    attemptBuild second ++ secondRetry second :: attemptBuild third

def plainSha (intent : Intent) : String := intent.headSha ++ intent.baseSha

/-- The two runs, evaluated together: they share their steps. -/
theorem threeBuilds_states :
    ((Ledger.empty.run demoConfig plainSha (threeBuilds "a" "b" "c")).source.length = 3 ∧
      OrderlyRun demoConfig plainSha .empty (threeBuilds "a" "b" "c")) ∧
    ¬((Ledger.empty.run demoConfig plainSha (threeBuilds "a" "b" "a")).source.map
      Grant.providerRunId).Nodup := by
  decide +kernel

/-- Three builds, each with its own source token. -/
theorem tokens_once_demo :
    let l := Ledger.empty.run demoConfig plainSha (threeBuilds "a" "b" "c")
    l.source.length = 3 ∧ (l.source.map Grant.providerRunId).Nodup ∧
      (l.event.map Grant.providerRunId).Nodup ∧
        ∀ g ∈ l.source ++ l.event,
          g.providerRunId ∉ (g.record .previousBuildIds : List String) :=
  ⟨threeBuilds_states.1.1, tokens_once (threeBuilds "a" "b" "c") threeBuilds_states.1.2⟩

/-- The first build is bound again after both retries, and obtains a second source token. -/
theorem tokens_twice : ¬∀ (cfg : Config) (sha : Intent → String) (ops : List StoreOp),
    let l := Ledger.empty.run cfg sha ops
    (l.source.map Grant.providerRunId).Nodup ∧ (l.event.map Grant.providerRunId).Nodup ∧
      ∀ g ∈ l.source ++ l.event,
        g.providerRunId ∉ (g.record .previousBuildIds : List String) := by
  intro h
  exact threeBuilds_states.2 (h demoConfig plainSha (threeBuilds "a" "b" "a")).1

end Demo

end Release
