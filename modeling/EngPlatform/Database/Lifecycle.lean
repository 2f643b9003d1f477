import EngPlatform.Database.Workers

/-!
# The lifecycle of a database job

Every transaction but three leaves a row where it is, settles a pending one to a failure, or takes
it away to `purged` or `expired`. The three are the creation of a row, a claim, and a publication,
which needs the claim and every document that stands behind the job.
-/

set_option linter.dupNamespace false

namespace Control

open Database

/-- From `queued` over `running` to one of four, or from anywhere to `purged` or `expired`. -/
def forward (s t : State) : Bool :=
  t = s || t = .purged || t = .expired || (s = .queued && t = .running) ||
    (s = .running && (t = .completed || t = .failed || t = .cancelled))

/-- A queued job also fails or is cancelled before any worker has claimed it. -/
def dropped (s t : State) : Bool := s = .queued && (t = .failed || t = .cancelled)

/-- The columns that the API shows of a row: `_public_execution` has them, and the objects for
exports and views do not. -/
def publicColumns (k : Kind) (j : Job) : List Column :=
  if k = .execution then j.columns else []

/-- A row that is not completed has nothing to show. -/
structure Fits (k : Kind) (j : Job) : Prop where
  manifest : j.state ≠ .completed → j.manifest = none
  file : j.state ≠ .completed → j.file = none
  columns : j.state ≠ .completed → k = .execution → j.columns = []
  exported : k = .exported → j.manifest = none
  others : k ≠ .exported → j.file = none

/-- What every change of a row does that neither claims nor publishes. -/
structure Keeps (k : Kind) (j j' : Job) : Prop where
  state : j'.state = j.state ∨ (j'.state = .purged ∨ j'.state = .expired) ∨
    ((j.state = .queued ∨ j.state = .running) ∧ (j'.state = .failed ∨ j'.state = .cancelled))
  claim : j'.claim = j.claim
  login : j'.login = j.login
  fits : Fits k j → Fits k j'

section Rows

variable {k : Kind} {j j' j'' : Job} {now : Time}

theorem Keeps.refl : Keeps k j j := ⟨.inl rfl, rfl, rfl, id⟩

theorem Keeps.trans (h : Keeps k j j') (h' : Keeps k j' j'') : Keeps k j j'' where
  state := by
    rcases h'.state with hs | hs | ⟨hs, ht⟩
    · rw [hs]
      exact h.state
    · exact .inr (.inl hs)
    · rcases h.state with hs' | hs' | ⟨-, hs'⟩
      · rw [← hs']
        exact .inr (.inr ⟨hs, ht⟩)
      · rcases hs' with hs' | hs' <;> rw [hs'] at hs <;> simp at hs
      · rcases hs' with hs' | hs' <;> rw [hs'] at hs <;> simp at hs
  claim := h'.claim.trans h.claim
  login := h'.login.trans h.login
  fits := h'.fits ∘ h.fits

theorem Keeps.moves (h : Keeps k j j') :
    forward j.state j'.state = true ∨ dropped j.state j'.state = true := by
  rcases h.state with hs | hs | ⟨hs, ht⟩
  · simp [forward, hs]
  · rcases hs with hs | hs <;> simp [forward, hs]
  · rcases hs with hs | hs <;> rcases ht with ht | ht <;> simp [forward, dropped, hs, ht]

theorem retired_cases (s : State) : s.retired = .purged ∨ s.retired = .expired := by
  unfold State.retired
  by_cases h : s = .purged <;> simp [h]

theorem purged_keeps : Keeps .execution j j.purged where
  state := .inr (.inl (.inl rfl))
  claim := rfl
  login := rfl
  fits h := ⟨fun _ => rfl, fun _ => h.others nofun, fun _ _ => rfl, nofun, fun _ => h.others nofun⟩

theorem removed_keeps : Keeps .exported j j.removed where
  state := .inr (.inl (.inl rfl))
  claim := rfl
  login := rfl
  fits h := ⟨fun _ => h.exported rfl, fun _ => rfl, nofun, fun _ => h.exported rfl, fun _ => rfl⟩

theorem expire_keeps : Keeps .execution j j.expire where
  state := .inr (.inl (retired_cases _))
  claim := rfl
  login := rfl
  fits h := ⟨fun _ => rfl, fun _ => h.others nofun, fun _ _ => rfl, nofun, fun _ => h.others nofun⟩

theorem cleaned_keeps : Keeps k j (j.cleaned now) where
  state := .inr (.inl (retired_cases _))
  claim := rfl
  login := rfl
  fits _ := ⟨fun _ => rfl, fun _ => rfl, fun _ _ => rfl, fun _ => rfl, fun _ => rfl⟩

theorem viewCleaned_keeps : Keeps k j (j.viewCleaned now) where
  state := .inl rfl
  claim := rfl
  login := rfl
  fits _ := ⟨fun _ => rfl, fun _ => rfl, fun _ _ => rfl, fun _ => rfl, fun _ => rfl⟩

theorem artifactsCleaned_keeps : Keeps .exported j (j.artifactsCleaned now) := by
  unfold Job.artifactsCleaned
  dsimp only
  split_ifs
  · exact ⟨.inr (.inl (.inr rfl)), rfl, rfl, fun h =>
      ⟨fun _ => h.exported rfl, fun _ => rfl, nofun, fun _ => h.exported rfl, fun _ => rfl⟩⟩
  · exact ⟨.inl rfl, rfl, rfl, fun h =>
      ⟨fun _ => h.exported rfl, fun _ => rfl, nofun, fun _ => h.exported rfl, fun _ => rfl⟩⟩

theorem deleted_keeps : Keeps .view j (j.deleted now) where
  state := .inr (.inl (.inl rfl))
  claim := rfl
  login := rfl
  fits h := ⟨fun _ => rfl, fun _ => h.others nofun, nofun, nofun, fun _ => h.others nofun⟩

theorem invalidated_keeps {force : Bool} : Keeps .view j (j.invalidated force now) where
  state := by
    unfold Job.invalidated
    dsimp only
    split_ifs
    · exact .inr (.inl (.inl rfl))
    · exact .inr (.inl (.inr rfl))
    · exact .inl rfl
  claim := rfl
  login := rfl
  fits h := ⟨fun _ => rfl, fun _ => h.others nofun, nofun, nofun, fun _ => h.others nofun⟩

theorem closed_keeps {token : String} :
    Keeps k j (if j.claim = some token then { j with workerDeadline := 0 } else j) := by
  split_ifs
  · exact ⟨.inl rfl, rfl, rfl, fun h => ⟨h.1, h.2, h.3, h.4, h.5⟩⟩
  · exact .refl

theorem linked_keeps (exportId : Option String) (viewIds : List String) :
    Keeps k j { j with exportId := exportId, viewIds := viewIds } :=
  ⟨.inl rfl, rfl, rfl, fun h => ⟨h.1, h.2, h.3, h.4, h.5⟩⟩

/-- A claim that comes too late. -/
theorem claimed_keeps {token : String} (hq : j.state = .queued)
    (h : (j.claimed token now).state ≠ .running) : Keeps k j (j.claimed token now) := by
  unfold Job.claimed at h ⊢
  split_ifs at h ⊢
  · exact ⟨.inr (.inl (.inr rfl)), rfl, rfl, fun hf => ⟨fun _ => hf.1 (by simp [hq]),
      fun _ => hf.2 (by simp [hq]), fun _ => hf.3 (by simp [hq]), hf.4, hf.5⟩⟩
  · exact ⟨.inr (.inr ⟨.inl hq, .inl rfl⟩), rfl, rfl, fun hf => ⟨fun _ => hf.1 (by simp [hq]),
      fun _ => hf.2 (by simp [hq]), fun _ => hf.3 (by simp [hq]), hf.4, hf.5⟩⟩
  · exact absurd rfl h

theorem claimed_running {token : String} (h : (j.claimed token now).state = .running) :
    j.claimed token now = { j with
      state := .running
      claim := some token
      startedAt := now
      workerDeadline := now + workerSeconds } := by
  unfold Job.claimed at h ⊢
  split_ifs at h ⊢
  rfl

theorem finishable_state {claim : Option String} {state : State}
    (h : j.finishable claim state = true) : j.state = .queued ∨ j.state = .running := by
  unfold Job.finishable at h
  simp only [Bool.and_eq_true, Bool.or_eq_true, decide_eq_true_eq] at h
  exact h.1.1

theorem changed_claim (changes : Option Changes) :
    (j.changed changes).claim = j.claim ∧ (j.changed changes).login = j.login := by
  rcases changes with _ | _ | _ | _ <;> exact ⟨rfl, rfl⟩

/-- A row that `_finish` settles to anything but a publication. -/
theorem settled_keeps {state t : State} {claim : Option String} {error : Option String}
    {changes : Option Changes} (hf : j.finishable claim state = true)
    (ht : t = .expired ∨ t = .cancelled ∨ t = .failed) :
    Keeps k j (j.settled k t error changes now) := by
  have hne : t ≠ .completed := by rcases ht with rfl | rfl | rfl <;> nofun
  unfold Job.settled
  dsimp only
  rw [if_neg hne]
  refine ⟨?_, (changed_claim _).1, (changed_claim _).2, fun h =>
    ⟨fun _ => rfl, fun _ => rfl, fun _ _ => rfl, fun _ => rfl, fun _ => rfl⟩⟩
  rcases ht with rfl | rfl | rfl
  · exact .inr (.inl (.inr rfl))
  · exact .inr (.inr ⟨finishable_state hf, .inr rfl⟩)
  · exact .inr (.inr ⟨finishable_state hf, .inl rfl⟩)

end Rows

/-- A row that stays absent, or is kept. -/
def Kept (k : Kind) (o o' : Option Job) : Prop :=
  (o = none ∧ o' = none) ∨ ∃ j j', o = some j ∧ o' = some j' ∧ Keeps k j j'

/-- Every row is kept. -/
def Evolves (s s' : Store) : Prop := ∀ k id, Kept k (s.job k id) (s'.job k id)

section Stores

variable {cfg : Config} {s s' s'' : Store} {k k' : Kind} {id id' : String} {value : Job}

theorem Kept.refl (o : Option Job) : Kept k o o := by
  rcases o with _ | j
  · exact .inl ⟨rfl, rfl⟩
  · exact .inr ⟨j, j, rfl, rfl, .refl⟩

theorem Kept.trans {o o' o'' : Option Job} (h : Kept k o o') (h' : Kept k o' o'') :
    Kept k o o'' := by
  rcases h with ⟨ho, ho'⟩ | ⟨j, j', ho, ho', hk⟩
  · rcases h' with ⟨-, hn⟩ | ⟨j₁, j₂, hj, -, -⟩
    · exact .inl ⟨ho, hn⟩
    · rw [ho'] at hj
      cases hj
  · rcases h' with ⟨hn, -⟩ | ⟨j₁, j₂, hj, hj', hk'⟩
    · rw [ho'] at hn
      cases hn
    · rw [ho'] at hj
      cases hj
      exact .inr ⟨j, j₂, ho, hj', hk.trans hk'⟩

theorem Evolves.refl (s : Store) : Evolves s s := fun _ _ => .refl _

theorem Evolves.trans (h : Evolves s s') (h' : Evolves s' s'') : Evolves s s'' :=
  fun k id => (h k id).trans (h' k id)

theorem evolves_of_jobs (h : s'.jobs = s.jobs) : Evolves s s' := by
  intro k id
  unfold Store.job
  rw [h]
  exact .refl _

theorem job_insert : (s.insert k id value).job k' id' =
    if k' = k ∧ id' = id then some value else s.job k' id' := by
  unfold Store.insert Store.job
  by_cases h : k' = k ∧ id' = id
  · obtain ⟨rfl, rfl⟩ := h
    rw [if_pos ⟨rfl, rfl⟩]
    exact AList.lookup_insert _
  · rw [if_neg h]
    exact AList.lookup_insert_ne fun he => h (by simpa [Prod.ext_iff] using he)

theorem job_modify {f : Job → Job} : (s.modify k id f).job k' id' =
    if k' = k ∧ id' = id then (s.job k id).map f else s.job k' id' := by
  unfold Store.modify
  rcases hj : s.job k id with _ | j
  · by_cases h : k' = k ∧ id' = id
    · rw [if_pos h, h.1, h.2]
      exact hj
    · rw [if_neg h]
  · exact job_insert

theorem evolves_insert {j : Job} (hj : s.job k id = some j) (h : Keeps k j value) :
    Evolves s (s.insert k id value) := by
  intro k' id'
  rw [job_insert]
  by_cases he : k' = k ∧ id' = id
  · obtain ⟨rfl, rfl⟩ := he
    rw [if_pos ⟨rfl, rfl⟩]
    exact .inr ⟨j, value, hj, rfl, h⟩
  · rw [if_neg he]
    exact .refl _

theorem evolves_modify {f : Job → Job} (hf : ∀ j, Keeps k j (f j)) : Evolves s (s.modify k id f) := by
  unfold Store.modify
  rcases hj : s.job k id with _ | j
  · exact .refl s
  · exact evolves_insert hj (hf j)

theorem evolves_foldl {f : Store → Job → Job} (ids : List String)
    (hf : ∀ s j, Keeps k j (f s j)) :
    ∀ s, Evolves s (ids.foldl (fun s x => s.modify k x (f s)) s) := by
  induction ids with
  | nil => exact .refl
  | cons x ids ih => exact fun s => (evolves_modify (hf s)).trans (ih _)

theorem cleanedExecution_evolves {exports : List String} :
    Evolves s (cleanedExecution s id exports) :=
  (evolves_modify fun _ => cleaned_keeps).trans
    (evolves_foldl exports (fun _ _ => cleaned_keeps) _)

theorem cleanedView_evolves {executionId : String} {exports : List String} :
    Evolves s (cleanedView s id executionId exports) :=
  ((evolves_modify fun _ => viewCleaned_keeps).trans
    (evolves_foldl exports (fun _ _ => viewCleaned_keeps) _)).trans
    (evolves_modify fun j => linked_keeps j.exportId _)

variable (s k id) in
/-- What a claim does: nothing, the end of a row that waited too long, or the start of a worker. -/
theorem claimJob_cases (token : String) :
    ((claimJob s k id token).2 = none ∧ Evolves s (claimJob s k id token).1) ∨
    ∃ j, s.job k id = some j ∧ j.state = .queued ∧ (j.claimed token s.now).state = .running ∧
      claimJob s k id token = (s.insert k id (j.claimed token s.now), some (j.claimed token s.now)) := by
  unfold claimJob
  rcases hj : s.job k id with _ | j
  · exact .inl ⟨rfl, .refl s⟩
  · dsimp only
    by_cases hq : j.state = .queued
    · rw [if_neg (not_not.2 hq)]
      by_cases hr : (j.claimed token s.now).state = .running
      · rw [if_pos hr]
        exact .inr ⟨j, rfl, hq, hr, rfl⟩
      · rw [if_neg hr]
        exact .inl ⟨rfl, evolves_insert hj (claimed_keeps hq hr)⟩
    · rw [if_pos hq]
      exact .inl ⟨rfl, .refl s⟩

variable (cfg s k) in
theorem settledState_cases (value : Job) (state : State) :
    (settledState cfg s k value state = .expired) ∨
    (state = .completed ∧ settledState cfg s k value state = .cancelled) ∨
    (settledState cfg s k value state = state ∧ s.now < value.expiresAt ∧
      (state = .completed → publishable cfg s k value = true)) := by
  unfold settledState
  split_ifs with he hp
  · exact .inl rfl
  · exact .inr (.inl ⟨hp.1, rfl⟩)
  · refine .inr (.inr ⟨rfl, not_le.1 he, fun hs => ?_⟩)
    rw [not_and, Bool.not_eq_false] at hp
    exact hp hs

theorem finish_evolves_of {claim : Option String} {state : State} {error : Option String}
    {changes : Option Changes} {j : Job} (hj : s.job k id = some j)
    (hf : j.finishable claim state = true)
    (ht : settledState cfg s k j state = .expired ∨ settledState cfg s k j state = .cancelled ∨
      settledState cfg s k j state = .failed) :
    Evolves s (finishJob cfg s k id claim state error changes) := by
  unfold finishJob
  rw [hj]
  dsimp only
  rw [if_neg (by simp [hf])]
  exact (evolves_insert hj (settled_keeps hf ht)).trans (evolves_of_jobs rfl)

theorem finish_evolves {claim : Option String} {state : State} {error : Option String}
    {changes : Option Changes} (hs : state = .failed ∨ state = .cancelled) :
    Evolves s (finishJob cfg s k id claim state error changes) := by
  rcases hj : s.job k id with _ | j
  · unfold finishJob
    rw [hj]
    exact .refl s
  · by_cases hf : j.finishable claim state = true
    · refine finish_evolves_of hj hf ?_
      rcases settledState_cases cfg s k j state with h | ⟨-, h⟩ | ⟨h, -⟩
      · exact .inl h
      · exact .inr (.inl h)
      · rw [h]
        exact .inr hs.symm
    · unfold finishJob
      rw [hj]
      dsimp only
      rw [if_pos (by simpa using hf)]
      exact .refl s

/-- A publication that takes place. -/
structure Publishes (cfg : Config) (s : Store) (k : Kind) (id token : String) (j : Job) : Prop where
  row : s.job k id = some j
  finishable : j.finishable (some token) .completed = true
  unexpired : s.now < j.expiresAt
  publishable : publishable cfg s k j = true

theorem finish_published {token : String} (changes : Changes) {j : Job}
    (h : Publishes cfg s k id token j) :
    finishJob cfg s k id (some token) .completed none (some changes) =
      { s.insert k id (j.settled k .completed none (some changes) s.now) with
        reservations := s.reservations.modify id fun r =>
          { r with bytes := (j.settled k .completed none (some changes) s.now).bytes } } := by
  have hs : settledState cfg s k j .completed = .completed := by
    unfold settledState
    rw [if_neg (not_le.2 h.unexpired), if_neg (by simp [h.publishable])]
  unfold finishJob
  rw [h.row]
  dsimp only
  rw [if_neg (by simp [h.finishable]), hs, if_pos rfl]

/-- A worker's publication takes place, or settles the row to a failure, or comes too late. -/
theorem finish_completed {token : String} {changes : Changes}
    (h : ¬∃ j, Publishes cfg s k id token j) :
    Evolves s (finishJob cfg s k id (some token) .completed none (some changes)) := by
  rcases hj : s.job k id with _ | j
  · unfold finishJob
    rw [hj]
    exact .refl s
  · by_cases hf : j.finishable (some token) .completed = true
    · rcases settledState_cases cfg s k j .completed with hs | ⟨-, hs⟩ | ⟨-, he, hp⟩
      · exact finish_evolves_of hj hf (.inl hs)
      · exact finish_evolves_of hj hf (.inr (.inl hs))
      · exact absurd ⟨j, hj, hf, he, hp rfl⟩ h
    · unfold finishJob
      rw [hj]
      dsimp only
      rw [if_pos (by simpa using hf)]
      exact .refl s

/-- A creation that takes place: the new row with its reservation, and every other row kept. -/
structure Inserts (s s' : Store) (k : Kind) (id : String) (value : Job) (size : ℕ) : Prop where
  reserved : reserve s.reservations id value.login size = .ok s'.reservations
  row : s'.job k id = some value
  others : ∀ k' id', ¬(k' = k ∧ id' = id) → Kept k' (s.job k' id') (s'.job k' id')
  permits : s'.permits = s.permits
  now : s'.now = s.now

theorem map_ok {α β : Type} {f : α → β} {e : Except Raised α} {b : β} (h : e.map f = .ok b) :
    ∃ a, e = .ok a ∧ b = f a := by
  rcases e with x | a
  · cases h
  · exact ⟨a, rfl, by cases h; rfl⟩

theorem createExecution_cases {requestId fingerprint : String} {expiresAt : Time}
    (h : createExecution cfg s id value requestId fingerprint expiresAt = .ok s') :
    s' = s ∨ Inserts s s' .execution id value snapshotBytes := by
  unfold createExecution at h
  rcases hw : s.workspaces.lookup value.workspaceId with _ | place
  · rw [hw] at h
    cases h
  rw [hw] at h
  dsimp only at h
  rcases hq : s.requests.lookup requestId with _ | record <;> rw [hq] at h
  · dsimp only at h
    split_ifs at h
    obtain ⟨control, hr, rfl⟩ := map_ok h
    refine .inr ⟨hr, (job_insert (s := s)).trans (if_pos ⟨rfl, rfl⟩), fun k' id' hn => ?_, rfl, rfl⟩
    show Kept k' _ ((s.insert .execution id value).job k' id')
    rw [job_insert, if_neg hn]
    exact .refl _
  · dsimp only at h
    split_ifs at h
    cases h
    exact .inl rfl

/-- The row of a source changes only what it lists, and the new row goes in beside it. -/
theorem inserts_beside {control : Rows Reservation} {requests : Rows Request} {j : Job} {size : ℕ}
    {exportId : Option String} {viewIds : List String}
    (hr : reserve s.reservations id value.login size = .ok control) (hj : s.job k' id' = some j) :
    Inserts s { (s.insert k' id' { j with exportId := exportId, viewIds := viewIds }).insert k id value
      with reservations := control, requests := requests } k id value size where
  reserved := hr
  row := (job_insert (s := s.insert k' id' _)).trans (if_pos ⟨rfl, rfl⟩)
  others k₁ id₁ hn := by
    show Kept k₁ _ (((s.insert k' id' { j with exportId := exportId, viewIds := viewIds }).insert
      k id value).job k₁ id₁)
    rw [job_insert, if_neg hn]
    exact evolves_insert hj (linked_keeps _ _) k₁ id₁
  permits := rfl
  now := rfl

theorem createExport_cases {seen : Option String}
    (h : createExport cfg s id value seen = .ok s') :
    s' = s ∨ Inserts s s' .exported id value exportBytes := by
  unfold createExport at h
  rcases hj : s.job value.source.1 value.source.2 with _ | current
  · rw [hj] at h
    cases h
  rw [hj] at h
  dsimp only at h
  split_ifs at h
  · cases h
    exact .inl rfl
  · obtain ⟨control, hr, rfl⟩ := map_ok h
    exact .inr (inserts_beside hr hj)

theorem createView_cases {requestId fingerprint : String} {expiresAt : Time}
    (h : createView cfg s id value requestId fingerprint expiresAt = .ok s') :
    s' = s ∨ Inserts s s' .view id value 0 := by
  unfold createView at h
  rcases hq : s.requests.lookup requestId with _ | previous <;> rw [hq] at h
  · dsimp only at h
    rcases hj : s.job .execution value.executionId with _ | current
    · rw [hj] at h
      cases h
    rw [hj] at h
    dsimp only at h
    split_ifs at h
    obtain ⟨control, hr, rfl⟩ := map_ok h
    exact .inr (inserts_beside hr hj)
  · dsimp only at h
    split_ifs at h
    cases h
    exact .inl rfl

end Stores

/-- A row as it is created. -/
structure Born (k : Kind) (j : Job) : Prop where
  state : j.state = .queued
  claim : j.claim = none
  fits : Fits k j

theorem execution_born (d : Draft) : Born .execution d.execution :=
  ⟨rfl, rfl, ⟨fun _ => rfl, fun _ => rfl, fun _ _ => rfl, fun _ => rfl, fun _ => rfl⟩⟩

theorem exported_born (d : Draft) : Born .exported d.exported :=
  ⟨rfl, rfl, ⟨fun _ => rfl, fun _ => rfl, fun _ _ => rfl, fun _ => rfl, fun _ => rfl⟩⟩

theorem view_born (d : Draft) : Born .view d.view :=
  ⟨rfl, rfl, ⟨fun _ => rfl, fun _ => rfl, nofun, fun _ => rfl, fun _ => rfl⟩⟩

/-- The identity of a new row: drawn now, or drawn when its execution was staged. -/
def Drawn (c c' : Conf) (id : String) : Prop :=
  (id ∉ c.used ∧ id ∈ c'.used ∧ c'.staging = c.staging) ∨
  (id ∈ c.staging ∧ c'.used = c.used ∧ id ∉ c'.staging)

/-- What the creation of a row reserves. -/
def reservedFor : Kind → ℕ
  | .execution => snapshotBytes
  | .exported => exportBytes
  | .view => 0

/-- The row that a creation inserts. -/
def Act.creates : Act → Option (Kind × String)
  | .createExecution identity .. => some (.execution, identity)
  | .createExport identity .. => some (.exported, identity)
  | .createView identity .. => some (.view, identity)
  | _ => none

/-- What an act does to the row of a job. -/
inductive Row (cfg : Config) (c : Conf) (a : Act) (c' : Conf) (k : Kind) (id : String) : Prop
  | gone (h : c'.store.job k id = none)
  | kept (h : Kept k (c.store.job k id) (c'.store.job k id))
  | born (j : Job) (ha : a.creates = some (k, id)) (hid : Drawn c c' id) (hj : c'.store.job k id = some j) (hb : Born k j)
      (hr : reserve c.store.reservations id j.login (reservedFor k) = .ok c'.store.reservations)
  | claimed (token : String) (j : Job) (ha : a = .claim k id token)
      (hj : c.store.job k id = some j) (hq : j.state = .queued)
      (hr : (j.claimed token c.store.now).state = .running)
      (hj' : c'.store.job k id = some (j.claimed token c.store.now))
  | completed (token : String) (w : Worker) (changes : Changes) (j : Job)
      (ha : a = .complete token changes) (hw : c.workers.lookup token = some w)
      (hwk : w.kind = k) (hwi : w.identity = id) (hc : w.publishes changes = true)
      (hp : Publishes cfg c.store k id token j)
      (hj' : c'.store.job k id = some (j.settled k .completed none (some changes) c.store.now))

section Steps

variable {cfg : Config} {c c' : Conf} {a : Act}

theorem row_of_evolves (h : Evolves c.store c'.store) (k : Kind) (id : String) :
    Row cfg c a c' k id := .kept (h k id)

theorem row_of_inserts {k k' : Kind} {id id' : String} {value : Job}
    (h : Inserts c.store c'.store k id value (reservedFor k)) (hid : Drawn c c' id)
    (ha : a.creates = some (k, id))
    (hb : Born k value) : Row cfg c a c' k' id' := by
  by_cases he : k' = k ∧ id' = id
  · obtain ⟨rfl, rfl⟩ := he
    exact .born value ha hid h.row hb h.reserved
  · exact .kept (h.others k' id' he)

/-- The transactions of the budget leave the jobs alone. -/
theorem resize_store {s s' : Store} {id login : String} {delta : ℤ}
    (h : resize s id login delta = .ok s') : ∃ existing control,
      s.reservations.lookup id = some existing ∧ 0 ≤ existing.bytes + delta ∧
      reserve s.reservations id login (existing.bytes + delta).toNat = .ok control ∧
      s' = { s with reservations := control } := by
  unfold resize at h
  rcases he : s.reservations.lookup id with _ | existing
  · rw [he] at h
    cases h
  rw [he] at h
  dsimp only at h
  split_ifs at h with hn
  obtain ⟨control, hr, rfl⟩ := map_ok h
  exact ⟨existing, control, rfl, Int.not_lt.1 hn, hr, rfl⟩

theorem toOption_some {α : Type} {e : Except Raised α} {a : α} (h : e.toOption = some a) :
    e = .ok a := by
  rcases e with x | b
  · cases h
  · cases h
    rfl

theorem step_row (h : c.step cfg a = some c') (k : Kind) (id : String) : Row cfg c a c' k id := by
  cases a with
  | stage identity owner =>
    simp only [Conf.step] at h
    split_ifs at h
    obtain ⟨control, -, rfl⟩ := Option.map_eq_some_iff.1 h
    exact .kept (.refl (c.store.job k id))
  | createExecution identity d requestId fingerprint expiresAt =>
    simp only [Conf.step] at h
    split_ifs at h with hid
    obtain ⟨s, hs, rfl⟩ := Option.map_eq_some_iff.1 h
    rcases createExecution_cases (toOption_some hs) with rfl | hi
    · exact .kept (.refl (c.store.job k id))
    · exact row_of_inserts hi (.inr ⟨hid, rfl, by simp⟩) rfl (execution_born _)
  | createExport identity d seen =>
    simp only [Conf.step] at h
    split_ifs at h with hid
    obtain ⟨s, hs, rfl⟩ := Option.map_eq_some_iff.1 h
    rcases createExport_cases (toOption_some hs) with rfl | hi
    · exact .kept (.refl (c.store.job k id))
    · exact row_of_inserts hi (.inl ⟨hid, by simp, rfl⟩) rfl (exported_born _)
  | createView identity d requestId fingerprint expiresAt =>
    simp only [Conf.step] at h
    split_ifs at h with hid
    obtain ⟨s, hs, rfl⟩ := Option.map_eq_some_iff.1 h
    rcases createView_cases (toOption_some hs) with rfl | hi
    · exact .kept (.refl (c.store.job k id))
    · exact row_of_inserts hi (.inl ⟨hid, by simp, rfl⟩) rfl (view_born _)
  | claim k₁ identity token =>
    simp only [Conf.step] at h
    split_ifs at h with hid
    rcases claimJob_cases c.store k₁ identity token with ⟨hn, he⟩ | ⟨j, hj, hq, hr, hc⟩
    · rcases hcl : claimJob c.store k₁ identity token with ⟨s, o⟩
      rw [hcl] at h hn he
      cases hn
      cases h
      exact row_of_evolves he k id
    · rw [hc] at h
      cases h
      by_cases hkey : k = k₁ ∧ id = identity
      · obtain ⟨rfl, rfl⟩ := hkey
        exact .claimed token j rfl hj hq hr (job_insert.trans (if_pos ⟨rfl, rfl⟩))
      · refine .kept ?_
        show Kept k _ ((c.store.insert k₁ identity (j.claimed token c.store.now)).job k id)
        rw [job_insert, if_neg hkey]
        exact .refl _
  | complete token changes =>
    simp only [Conf.step] at h
    rcases hw : c.workers.lookup token with _ | w
    · rw [hw] at h
      cases h
    rw [hw] at h
    dsimp only at h
    split_ifs at h with hp
    cases h
    by_cases hex : ∃ j, Publishes cfg c.store w.kind w.identity token j
    · obtain ⟨j, hj⟩ := hex
      have he := finish_published changes hj
      by_cases hkey : k = w.kind ∧ id = w.identity
      · obtain ⟨rfl, rfl⟩ := hkey
        refine .completed token w changes j rfl hw rfl rfl hp hj ?_
        show Store.job (finishJob _ _ _ _ _ _ _ _) _ _ = _
        rw [he]
        exact job_insert.trans (if_pos ⟨rfl, rfl⟩)
      · refine .kept ?_
        show Kept k _ (Store.job (finishJob _ _ _ _ _ _ _ _) k id)
        rw [he]
        show Kept k _ (Store.job (c.store.insert _ _ _) k id)
        rw [job_insert, if_neg hkey]
        exact .refl _
    · exact row_of_evolves (finish_completed hex) k id
  | abandon token error =>
    obtain ⟨w, -, rfl⟩ := Option.map_eq_some_iff.1 h
    exact row_of_evolves (finish_evolves (.inl rfl)) k id
  | close token =>
    obtain ⟨w, -, rfl⟩ := Option.map_eq_some_iff.1 h
    exact row_of_evolves (evolves_modify fun _ => closed_keeps) k id
  | charge token bytes result =>
    simp only [Conf.step] at h
    rcases hw : c.workers.lookup token with _ | w
    · rw [hw] at h
      cases h
    rw [hw] at h
    dsimp only at h
    split_ifs at h
    all_goals
      obtain ⟨s, hs, rfl⟩ := Option.map_eq_some_iff.1 h
      obtain ⟨_, _, _, _, _, rfl⟩ := resize_store (toOption_some hs)
      exact .kept (.refl (c.store.job k id))
  | credit token bytes =>
    simp only [Conf.step] at h
    rcases hw : c.workers.lookup token with _ | w
    · rw [hw] at h
      cases h
    rw [hw] at h
    dsimp only at h
    split_ifs at h
    obtain ⟨s, hs, rfl⟩ := Option.map_eq_some_iff.1 h
    obtain ⟨_, _, _, _, _, rfl⟩ := resize_store (toOption_some hs)
    exact .kept (.refl (c.store.job k id))
  | cancel identity claim =>
    cases h
    exact row_of_evolves (finish_evolves (.inr rfl)) k id
  | dispatchFailed k₁ identity =>
    cases h
    exact row_of_evolves (finish_evolves (.inl rfl)) k id
  | lost k₁ identity claim =>
    cases h
    exact row_of_evolves (finish_evolves (.inl rfl)) k id
  | release identity =>
    cases h
    exact .kept (.refl (c.store.job k id))
  | take token kind owner role =>
    simp only [Conf.step] at h
    obtain ⟨s, hs, rfl⟩ := Option.map_eq_some_iff.1 h
    have hs := toOption_some hs
    unfold takePermit at hs
    dsimp only at hs
    split_ifs at hs
    cases hs
    exact .kept (.refl (c.store.job k id))
  | give token =>
    cases h
    exact .kept (.refl (c.store.job k id))
  | purge identity =>
    cases h
    exact row_of_evolves (evolves_modify fun _ => purged_keeps) k id
  | remove identity =>
    cases h
    exact row_of_evolves (evolves_modify fun _ => removed_keeps) k id
  | expire identity =>
    cases h
    exact row_of_evolves (evolves_modify fun _ => expire_keeps) k id
  | cleaned identity exports =>
    cases h
    exact row_of_evolves cleanedExecution_evolves k id
  | cleanExport identity =>
    cases h
    exact row_of_evolves (evolves_modify fun _ => artifactsCleaned_keeps) k id
  | deleteView identity =>
    cases h
    exact row_of_evolves (evolves_modify fun _ => deleted_keeps) k id
  | invalidateView identity force =>
    cases h
    exact row_of_evolves (evolves_modify fun _ => invalidated_keeps) k id
  | cleanView identity executionId exports =>
    cases h
    exact row_of_evolves cleanedView_evolves k id
  | forget k₁ identity =>
    cases h
    by_cases hkey : (k, id) = (k₁, identity)
    · exact .gone (hkey ▸ AList.lookup_erase _ _)
    · refine .kept ?_
      show Kept k _ ((c.store.jobs.erase (k₁, identity)).lookup (k, id))
      rw [AList.lookup_erase_ne hkey]
      exact .refl _
  | documents workspaces sessions policy requests now =>
    simp only [Conf.step] at h
    split_ifs at h
    cases h
    exact .kept (.refl (c.store.job k id))

/-- The claim of `t` succeeds, and its worker starts with nothing reserved. -/
def Starts (c : Conf) (a : Act) (c' : Conf) (t : String) (w : Worker) : Prop :=
  a = .claim w.kind w.identity t ∧ t ∉ c.workers ∧ w.held = [] ∧ w.stored = 0 ∧
    ∃ j, c.store.job w.kind w.identity = some j ∧ j.state = .queued ∧ w.login = j.login ∧
      (j.claimed t c.store.now).state = .running ∧
      c'.store.job w.kind w.identity = some (j.claimed t c.store.now)

/-- The same worker, whatever it has reserved. -/
def SameJob (w w' : Worker) : Prop :=
  w'.kind = w.kind ∧ w'.identity = w.identity ∧ w'.login = w.login

/-- What an act does to the identities and to the workers. -/
structure Frame (c : Conf) (a : Act) (c' : Conf) : Prop where
  used : ∀ id ∈ c.used, id ∈ c'.used
  staging : ∀ id ∈ c'.staging, id ∈ c.staging ∨ (id ∉ c.used ∧ id ∈ c'.used)
  workers : ∀ t w', c'.workers.lookup t = some w' →
    (∃ w, c.workers.lookup t = some w ∧ SameJob w w') ∨ Starts c a c' t w'
  kept : ∀ t w, c.workers.lookup t = some w → ∃ w', c'.workers.lookup t = some w' ∧ SameJob w w'

theorem frame_of_eq (hu : ∀ id ∈ c.used, id ∈ c'.used)
    (hs : ∀ id ∈ c'.staging, id ∈ c.staging ∨ (id ∉ c.used ∧ id ∈ c'.used))
    (hw : c'.workers = c.workers) : Frame c a c' where
  used := hu
  staging := hs
  workers _ w' h := .inl ⟨w', hw ▸ h, rfl, rfl, rfl⟩
  kept _ w h := ⟨w, hw ▸ h, rfl, rfl, rfl⟩

theorem frame_put (s : Store) : Frame c a (c.put s) :=
  frame_of_eq (fun _ h => h) (fun _ h => .inl h) rfl

/-- A worker goes on, with other reservations. -/
theorem frame_update {token : String} {w w' : Worker} {s : Store}
    (hw : c.workers.lookup token = some w) (h : SameJob w w') :
    Frame c a { c with store := s, workers := c.workers.insert token w' } where
  used _ h := h
  staging _ h := .inl h
  workers t w₁ h₁ := by
    by_cases ht : t = token
    · subst ht
      rw [AList.lookup_insert] at h₁
      cases h₁
      exact .inl ⟨w, hw, h⟩
    · rw [AList.lookup_insert_ne ht] at h₁
      exact .inl ⟨w₁, h₁, rfl, rfl, rfl⟩
  kept t w₁ h₁ := by
    by_cases ht : t = token
    · subst ht
      rw [hw] at h₁
      cases h₁
      exact ⟨w', AList.lookup_insert _, h⟩
    · exact ⟨w₁, (AList.lookup_insert_ne ht).trans h₁, rfl, rfl, rfl⟩

theorem step_frame (h : c.step cfg a = some c') : Frame c a c' := by
  cases a with
  | stage identity owner =>
    simp only [Conf.step] at h
    split_ifs at h with hid
    obtain ⟨control, -, rfl⟩ := Option.map_eq_some_iff.1 h
    refine frame_of_eq (fun _ h => .tail _ h) (fun id h => ?_) rfl
    rcases List.mem_cons.1 h with rfl | h
    · exact .inr ⟨hid, List.mem_cons_self⟩
    · exact .inl h
  | createExecution identity d requestId fingerprint expiresAt =>
    simp only [Conf.step] at h
    split_ifs at h
    obtain ⟨s, -, rfl⟩ := Option.map_eq_some_iff.1 h
    exact frame_of_eq (fun _ h => h) (fun id h => .inl (List.mem_of_mem_filter h)) rfl
  | createExport identity d seen =>
    simp only [Conf.step] at h
    split_ifs at h
    obtain ⟨s, -, rfl⟩ := Option.map_eq_some_iff.1 h
    exact frame_of_eq (fun _ h => .tail _ h) (fun _ h => .inl h) rfl
  | createView identity d requestId fingerprint expiresAt =>
    simp only [Conf.step] at h
    split_ifs at h
    obtain ⟨s, -, rfl⟩ := Option.map_eq_some_iff.1 h
    exact frame_of_eq (fun _ h => .tail _ h) (fun _ h => .inl h) rfl
  | claim k₁ identity token =>
    simp only [Conf.step] at h
    split_ifs at h with hid
    rcases claimJob_cases c.store k₁ identity token with ⟨hn, -⟩ | ⟨j, hj, hq, hr, hc⟩
    · rcases hcl : claimJob c.store k₁ identity token with ⟨s, o⟩
      rw [hcl] at h hn
      cases hn
      cases h
      exact frame_put s
    · rw [hc] at h
      cases h
      refine ⟨fun _ h => h, fun _ h => .inl h, fun t w h => ?_, fun t w h => ?_⟩
      · by_cases ht : t = token
        · subst ht
          rw [AList.lookup_insert] at h
          cases h
          refine .inr ⟨rfl, hid, rfl, rfl, j, hj, hq, ?_, hr, job_insert.trans (if_pos ⟨rfl, rfl⟩)⟩
          rw [claimed_running hr]
        · rw [AList.lookup_insert_ne ht] at h
          exact .inl ⟨w, h, rfl, rfl, rfl⟩
      · have ht : t ≠ token := by
          rintro rfl
          exact hid (AList.lookup_isSome.1 (by rw [h]; rfl))
        exact ⟨w, (AList.lookup_insert_ne ht).trans h, rfl, rfl, rfl⟩
  | complete token changes =>
    simp only [Conf.step] at h
    rcases hw : c.workers.lookup token with _ | w
    · rw [hw] at h
      cases h
    rw [hw] at h
    dsimp only at h
    split_ifs at h
    cases h
    exact frame_put _
  | abandon token error =>
    obtain ⟨w, -, rfl⟩ := Option.map_eq_some_iff.1 h
    exact frame_put _
  | close token =>
    obtain ⟨w, -, rfl⟩ := Option.map_eq_some_iff.1 h
    exact frame_put _
  | charge token bytes result =>
    simp only [Conf.step] at h
    rcases hw : c.workers.lookup token with _ | w
    · rw [hw] at h
      cases h
    rw [hw] at h
    dsimp only at h
    split_ifs at h
    all_goals
      obtain ⟨s, -, rfl⟩ := Option.map_eq_some_iff.1 h
      exact frame_update hw ⟨rfl, rfl, rfl⟩
  | credit token bytes =>
    simp only [Conf.step] at h
    rcases hw : c.workers.lookup token with _ | w
    · rw [hw] at h
      cases h
    rw [hw] at h
    dsimp only at h
    split_ifs at h
    obtain ⟨s, -, rfl⟩ := Option.map_eq_some_iff.1 h
    exact frame_update hw ⟨rfl, rfl, rfl⟩
  | take token kind owner role =>
    simp only [Conf.step] at h
    obtain ⟨s, -, rfl⟩ := Option.map_eq_some_iff.1 h
    exact frame_put s
  | documents workspaces sessions policy requests now =>
    simp only [Conf.step] at h
    split_ifs at h
    cases h
    exact frame_put _
  | _ =>
    cases h
    exact frame_put _

end Steps

/-- What holds of the rows and the workers in every state that is reached. -/
structure Inv (c : Conf) : Prop where
  fits : ∀ k id j, c.store.job k id = some j → Fits k j
  known : ∀ k id j, c.store.job k id = some j → id ∈ c.used ∧ id ∉ c.staging
  staged : ∀ id ∈ c.staging, id ∈ c.used
  working : ∀ t w, c.workers.lookup t = some w → w.identity ∈ c.used ∧ w.identity ∉ c.staging
  queued : ∀ k id j, c.store.job k id = some j → j.state = .queued → j.claim = none ∧
    ∀ t w, c.workers.lookup t = some w → ¬(w.kind = k ∧ w.identity = id)
  held : ∀ t w j, c.workers.lookup t = some w → c.store.job w.kind w.identity = some j →
    j.claim = some t
  unique : ∀ t t' w w', c.workers.lookup t = some w → c.workers.lookup t' = some w' →
    w.kind = w'.kind → w.identity = w'.identity → t = t'

section Invariant

variable {cfg : Config} {c c' : Conf} {a : Act}

theorem Drawn.fresh (hI : Inv c) {id : String} (h : Drawn c c' id) :
    (∀ k, c.store.job k id = none) ∧ (∀ t w, c.workers.lookup t = some w → w.identity ≠ id) ∧
      id ∈ c'.used ∧ id ∉ c'.staging := by
  have hne : id ∉ c.used ∨ id ∈ c.staging := h.elim (fun h => .inl h.1) (fun h => .inr h.1)
  refine ⟨fun k => ?_, fun t w hw he => ?_, ?_⟩
  · rcases hj : c.store.job k id with _ | j
    · rfl
    · obtain ⟨hu, hs⟩ := hI.known k id j hj
      exact absurd hne (by tauto)
  · obtain ⟨hu, hs⟩ := hI.working t w hw
    rw [he] at hu hs
    tauto
  · rcases h with ⟨hu, hu', hs⟩ | ⟨hs, hu, hs'⟩
    · exact ⟨hu', fun hc => hu (hI.staged id (hs ▸ hc))⟩
    · exact ⟨hu ▸ hI.staged id hs, hs'⟩

theorem not_staged (hF : Frame c a c') {id : String} (hu : id ∈ c.used) (hs : id ∉ c.staging) :
    id ∉ c'.staging := fun h => (hF.staging id h).elim hs fun h => h.1 hu

/-- The row after an act, by where it comes from. -/
theorem row_cases (h : c.step cfg a = some c') {k : Kind} {id : String} {j' : Job}
    (hj' : c'.store.job k id = some j') :
    (∃ j, c.store.job k id = some j ∧ Keeps k j j') ∨
    (Drawn c c' id ∧ Born k j' ∧ a.creates = some (k, id) ∧
      reserve c.store.reservations id j'.login (reservedFor k) = .ok c'.store.reservations) ∨
    (∃ t j, a = .claim k id t ∧ c.store.job k id = some j ∧ j.state = .queued ∧
      (j.claimed t c.store.now).state = .running ∧ j' = j.claimed t c.store.now) ∨
    (∃ t w changes j, a = .complete t changes ∧ c.workers.lookup t = some w ∧ w.kind = k ∧
      w.identity = id ∧ w.publishes changes = true ∧ Publishes cfg c.store k id t j ∧
      j' = j.settled k .completed none (some changes) c.store.now) := by
  rcases step_row h k id with hg | hk | ⟨j, ha, hid, hj, hb, hr⟩ | ⟨t, j, ha, hj, hq, hr, hj₁⟩ |
    ⟨t, w, ch, j, ha, hw, hwk, hwi, hc, hp, hj₁⟩
  · rw [hg] at hj'
    cases hj'
  · rcases hk with ⟨-, hn⟩ | ⟨j, j₁, hj, hj₁, hk⟩
    · rw [hn] at hj'
      cases hj'
    · rw [hj₁] at hj'
      cases hj'
      exact .inl ⟨j, hj, hk⟩
  · rw [hj] at hj'
    cases hj'
    exact .inr (.inl ⟨hid, hb, ha, hr⟩)
  · rw [hj₁] at hj'
    cases hj'
    exact .inr (.inr (.inl ⟨t, j, ha, hj, hq, hr, rfl⟩))
  · rw [hj₁] at hj'
    cases hj'
    exact .inr (.inr (.inr ⟨t, w, ch, j, ha, hw, hwk, hwi, hc, hp, rfl⟩))

theorem settled_completed {k : Kind} {j : Job} {changes : Changes} {now : Time} :
    (j.settled k .completed none (some changes) now).state = .completed ∧
    (j.settled k .completed none (some changes) now).claim = j.claim := by
  unfold Job.settled
  dsimp only
  rw [if_pos rfl]
  split_ifs <;> exact ⟨rfl, (changed_claim _).1⟩

/-- What is published fits the kind of the row. -/
theorem settled_fits {k : Kind} {j : Job} {changes : Changes} {now : Time} {w : Worker}
    (hk : w.kind = k) (hp : w.publishes changes = true) (h : Fits k j) :
    Fits k (j.settled k .completed none (some changes) now) := by
  have hs : (j.settled k .completed none (some changes) now).state = .completed :=
    settled_completed.1
  refine ⟨fun hn => absurd hs hn, fun hn => absurd hs hn, fun hn => absurd hs hn, fun he => ?_,
    fun he => ?_⟩
  · unfold Job.settled
    dsimp only
    rw [if_pos rfl]
    cases changes <;> simp [Worker.publishes, hk, he] at hp
    rw [if_neg (by simp [he])]
    exact h.exported he
  · unfold Job.settled
    dsimp only
    rw [if_pos rfl]
    cases changes <;> simp [Worker.publishes, hk, he] at hp
    all_goals split_ifs <;> exact h.others he

theorem row_claim (hI : Inv c) (h : c.step cfg a = some c') {k : Kind} {id t : String} {j' : Job}
    {w : Worker} (hw : c.workers.lookup t = some w) (hk : w.kind = k) (hid : w.identity = id)
    (hj' : c'.store.job k id = some j') : j'.claim = some t ∧ j'.state ≠ .queued := by
  subst hk hid
  have hq : ∀ j, c.store.job w.kind w.identity = some j → j.state ≠ .queued := fun j hj hq =>
    (hI.queued _ _ j hj hq).2 t w hw ⟨rfl, rfl⟩
  rcases row_cases h hj' with ⟨j, hj, hk⟩ | ⟨hd, -⟩ | ⟨t', j, -, hj, hq', -⟩ |
    ⟨t', w', ch, j, -, -, -, -, -, hp, rfl⟩
  · refine ⟨hk.claim.trans (hI.held t w j hw hj), fun hn => ?_⟩
    rcases hk.state with hs | hs | ⟨-, hs⟩
    · exact hq j hj (hs.symm.trans hn)
    · rcases hs with hs | hs <;> rw [hs] at hn <;> cases hn
    · rcases hs with hs | hs <;> rw [hs] at hn <;> cases hn
  · exact absurd rfl ((hd.fresh hI).2.1 t w hw)
  · exact absurd hq' (hq j hj)
  · rw [settled_completed.1, settled_completed.2]
    exact ⟨hI.held t w j hw hp.row, nofun⟩

theorem inv_step (hI : Inv c) (h : c.step cfg a = some c') : Inv c' := by
  have hF := step_frame h
  refine ⟨fun k id j' hj' => ?_, fun k id j' hj' => ?_, fun id hid => ?_, fun t w' hw' => ?_,
    fun k id j' hj' hq => ?_, fun t w' j' hw' hj' => ?_, fun t t' w w' hw hw' hk hid => ?_⟩
  · rcases row_cases h hj' with ⟨j, hj, hk⟩ | ⟨-, hb, -⟩ | ⟨t, j, -, hj, hq, hr, rfl⟩ |
      ⟨t, w, ch, j, -, -, hk, -, hc, hp, rfl⟩
    · exact hk.fits (hI.fits k id j hj)
    · exact hb.fits
    · have hf := hI.fits k id j hj
      rw [claimed_running hr]
      exact ⟨fun _ => hf.1 (by simp [hq]), fun _ => hf.2 (by simp [hq]),
        fun _ => hf.3 (by simp [hq]), hf.4, hf.5⟩
    · exact settled_fits hk hc (hI.fits k id j hp.row)
  · have hold : ∀ j, c.store.job k id = some j → id ∈ c'.used ∧ id ∉ c'.staging := fun j hj =>
      ⟨hF.used id (hI.known k id j hj).1,
        not_staged hF (hI.known k id j hj).1 (hI.known k id j hj).2⟩
    rcases row_cases h hj' with ⟨j, hj, -⟩ | ⟨hd, -⟩ | ⟨t, j, -, hj, -⟩ |
      ⟨t, w, ch, j, -, -, -, -, -, hp, -⟩
    · exact hold j hj
    · exact (hd.fresh hI).2.2
    · exact hold j hj
    · exact hold j hp.row
  · rcases hF.staging id hid with hs | hs
    · exact hF.used id (hI.staged id hs)
    · exact hs.2
  · rcases hF.workers t w' hw' with ⟨w, hw, -, hi, -⟩ | ⟨-, -, -, -, j, hj, -⟩
    · rw [hi]
      exact ⟨hF.used _ (hI.working t w hw).1,
        not_staged hF (hI.working t w hw).1 (hI.working t w hw).2⟩
    · exact ⟨hF.used _ (hI.known _ _ j hj).1,
        not_staged hF (hI.known _ _ j hj).1 (hI.known _ _ j hj).2⟩
  · refine ⟨?_, ?_⟩
    · rcases row_cases h hj' with ⟨j, hj, hk⟩ | ⟨-, hb, -⟩ | ⟨t, j, -, -, -, hr, rfl⟩ |
        ⟨t, w, ch, j, -, -, -, -, -, -, rfl⟩
      · rw [hk.claim]
        refine (hI.queued k id j hj ?_).1
        rcases hk.state with hs | hs | ⟨-, hs⟩
        · exact hs.symm.trans hq
        · rcases hs with hs | hs <;> rw [hs] at hq <;> cases hq
        · rcases hs with hs | hs <;> rw [hs] at hq <;> cases hq
      · exact hb.claim
      · rw [hr] at hq
        cases hq
      · rw [settled_completed.1] at hq
        cases hq
    · rintro t w' hw' ⟨rfl, rfl⟩
      rcases hF.workers t w' hw' with ⟨w, hw, hk, hi, -⟩ | ⟨-, -, -, -, j, -, -, -, hr, hj⟩
      · exact (row_claim hI h hw hk.symm hi.symm hj').2 hq
      · rw [hj] at hj'
        cases hj'
        rw [hr] at hq
        cases hq
  · rcases hF.workers t w' hw' with ⟨w, hw, hk, hi, -⟩ | ⟨-, -, -, -, j, -, -, -, hr, hj⟩
    · exact (row_claim hI h hw hk.symm hi.symm hj').1
    · rw [hj] at hj'
      cases hj'
      rw [claimed_running hr]
  · rcases hF.workers t w hw with ⟨w₁, hw₁, hk₁, hi₁, -⟩ | ⟨ha₁, -, -, -, j₁, hj₁, hq₁, -⟩ <;>
      rcases hF.workers t' w' hw' with ⟨w₂, hw₂, hk₂, hi₂, -⟩ | ⟨ha₂, -, -, -, j₂, hj₂, hq₂, -⟩
    · exact hI.unique t t' w₁ w₂ hw₁ hw₂ (hk₁ ▸ hk₂ ▸ hk) (hi₁ ▸ hi₂ ▸ hid)
    · exact absurd ⟨hk₁.symm.trans hk, hi₁.symm.trans hid⟩ ((hI.queued _ _ j₂ hj₂ hq₂).2 t w₁ hw₁)
    · exact absurd ⟨hk₂.symm.trans hk.symm, hi₂.symm.trans hid.symm⟩
        ((hI.queued _ _ j₁ hj₁ hq₁).2 t' w₂ hw₂)
    · rw [ha₁] at ha₂
      injection ha₂

theorem inv_start (s : Store) (h : s.jobs = ∅) : Inv (Conf.start s) := by
  have hj : ∀ k id j, (Conf.start s).store.job k id = some j → False := fun k id j hs => by
    unfold Store.job Conf.start at hs
    rw [h, AList.lookup_empty] at hs
    cases hs
  have hw : ∀ t w, (Conf.start s).workers.lookup t = some w → False := fun t w hs => by
    unfold Conf.start at hs
    rw [AList.lookup_empty] at hs
    cases hs
  exact ⟨fun k id j hs => (hj k id j hs).elim, fun k id j hs => (hj k id j hs).elim,
    fun id hid => absurd hid List.not_mem_nil, fun t w hs => (hw t w hs).elim,
    fun k id j hs => (hj k id j hs).elim, fun t w j hs => (hw t w hs).elim,
    fun t t' w w' hs => (hw t w hs).elim⟩

theorem Reached.inv (h : Reached cfg c) : Inv c := by
  obtain ⟨s, hs, -, -, hr⟩ := h
  exact hr.invariant (inv_start s hs) fun _ _ _ hI h => inv_step hI h

end Invariant

/-- The job, its workspace, its session, the active policy and its sources, all live. -/
structure Live (cfg : Config) (s : Store) (k : Kind) (j : Job) : Prop where
  job : s.now < j.expiresAt
  workspace : ∃ p, s.workspaces.lookup j.workspaceId = some p ∧ p.state = .active ∧
    s.now < p.expiresAt
  session : ∃ v, s.sessions.lookup j.sessionId = some v ∧ v.revoked = false ∧
    s.now < v.expiresAt ∧ (v.fromMcp = true → cfg.mcpEnabled = true)
  policy : ∃ p, s.policy = some p ∧ p.enabled = true ∧ p.version = j.policyVersion ∧
    p.fingerprint = cfg.fingerprint
  source : k ≠ .execution → ∃ e, s.job .execution j.executionId = some e ∧
    e.state = .completed ∧ s.now < e.expiresAt
  sourceView : k = .exported → ∀ v, j.sourceViewId = some v → ∃ x, s.job .view v = some x ∧
    x.state = .completed ∧ s.now < x.expiresAt

section Theorems

variable {cfg : Config} {c c' : Conf} {a : Act}

theorem ready_iff {s : Store} {k : Kind} {id : String} : ready s k id = true ↔
    ∃ e, s.job k id = some e ∧ e.state = .completed ∧ s.now < e.expiresAt := by
  unfold ready
  rcases s.job k id with _ | e <;> simp

theorem Publishes.live {s : Store} {k : Kind} {id t : String} {j : Job}
    (h : Publishes cfg s k id t j) : Live cfg s k j := by
  have hp := h.publishable
  unfold Control.publishable at hp
  simp only [Bool.and_eq_true] at hp
  obtain ⟨⟨⟨hpm, hm⟩, hs⟩, hv⟩ := hp
  unfold permitted at hpm
  rcases hw : s.workspaces.lookup j.workspaceId with _ | place <;> rw [hw] at hpm
  · cases hpm
  rcases hss : s.sessions.lookup j.sessionId with _ | session <;> rw [hss] at hpm
  · cases hpm
  rcases hpo : s.policy with _ | policy <;> rw [hpo] at hpm
  · cases hpm
  simp only [Bool.and_eq_true, decide_eq_true_eq, Bool.not_eq_true'] at hpm
  refine ⟨h.unexpired, ⟨place, hw, ?_, ?_⟩, ⟨session, hss, ?_, ?_, ?_⟩, ⟨policy, hpo, ?_, ?_, ?_⟩,
    fun hk => ?_, fun hk v hvs => ?_⟩
  any_goals tauto
  · intro hf
    simpa [hss, hf] using hm
  · exact ready_iff.1 (by simpa [hk] using hs)
  · exact ready_iff.1 (by simpa [hk, hvs] using hv)

theorem Fits.hidden {k : Kind} {j : Job} (h : Fits k j) (hs : j.state ≠ .completed) :
    j.manifest = none ∧ j.file = none ∧ publicColumns k j = [] := by
  refine ⟨h.manifest hs, h.file hs, ?_⟩
  unfold publicColumns
  split_ifs with hk
  · exact h.columns hs hk
  · rfl

theorem Publishes.claim {s : Store} {k : Kind} {id t : String} {j : Job}
    (h : Publishes cfg s k id t j) : j.claim = some t := by
  have hf := h.finishable
  unfold Job.finishable at hf
  simp only [Bool.and_eq_true] at hf
  simpa using hf.2

theorem row_moves (h : c.step cfg a = some c') {k : Kind} {id : String} {j j' : Job}
    (hI : Inv c) (hj : c.store.job k id = some j) (hj' : c'.store.job k id = some j') :
    forward j.state j'.state = true ∨ dropped j.state j'.state = true := by
  rcases row_cases h hj' with ⟨j₁, hj₁, hk⟩ | ⟨hd, -⟩ | ⟨t, j₁, -, hj₁, hq, hr, rfl⟩ |
    ⟨t, w, ch, j₁, -, hw, hk, hi, -, hp, rfl⟩
  · rw [hj] at hj₁
    cases hj₁
    exact hk.moves
  · rw [(hd.fresh hI).1 k] at hj
    cases hj
  · rw [hj] at hj₁
    cases hj₁
    simp [forward, hq, hr]
  · have hpr := hp.row
    rw [hj] at hpr
    cases hpr
    have hnq : j.state ≠ .queued := fun hq => (hI.queued k id j hj hq).2 t w hw ⟨hk, hi⟩
    have hrun := (finishable_state hp.finishable).resolve_left hnq
    rw [settled_completed.1]
    simp [forward, hrun]

/-- Around every act of every run: a row moves forward, or drops out of the queue; a new row is
queued and was never claimed; the claims of two workers of one job are the same; a row is completed
by a publication with that claim, while everything behind it is live; and a row that is not completed
has nothing to show. -/
theorem job_lifecycle (hc : Reached cfg c) (h : c.step cfg a = some c') (k : Kind) (id : String) :
    (∀ j j', c.store.job k id = some j → c'.store.job k id = some j' →
      forward j.state j'.state = true ∨ dropped j.state j'.state = true) ∧
    (∀ j', c.store.job k id = none → c'.store.job k id = some j' → j'.state = .queued ∧
      ∀ t w, c.workers.lookup t = some w → ¬(w.kind = k ∧ w.identity = id)) ∧
    (∀ t t' w w', c'.workers.lookup t = some w → c'.workers.lookup t' = some w' →
      w.kind = k → w.identity = id → w'.kind = k → w'.identity = id → t = t') ∧
    (∀ j j', c.store.job k id = some j → c'.store.job k id = some j' → j.state ≠ .completed →
      j'.state = .completed → ∃ t changes, a = .complete t changes ∧ j.state = .running ∧
        j.claim = some t ∧ Live cfg c.store k j) ∧
    (∀ j', c'.store.job k id = some j' → j'.state ≠ .completed →
      j'.manifest = none ∧ j'.file = none ∧ publicColumns k j' = []) := by
  have hI := hc.inv
  have hI' := inv_step hI h
  refine ⟨fun j j' hj hj' => row_moves h hI hj hj', fun j' hj hj' => ?_,
    fun t t' w w' hw hw' hk hi hk' hi' =>
      hI'.unique t t' w w' hw hw' (hk.trans hk'.symm) (hi.trans hi'.symm),
    fun j j' hj hj' hn hs => ?_, fun j' hj' hs => (hI'.fits k id j' hj').hidden hs⟩
  · rcases row_cases h hj' with ⟨j₁, hj₁, -⟩ | ⟨hd, hb, -⟩ | ⟨t, j₁, -, hj₁, -⟩ |
      ⟨t, w, ch, j₁, -, -, -, -, -, hp, -⟩
    · rw [hj] at hj₁
      cases hj₁
    · exact ⟨hb.state, fun t w hw hki => (hd.fresh hI).2.1 t w hw hki.2⟩
    · rw [hj] at hj₁
      cases hj₁
    · have hpr := hp.row
      rw [hj] at hpr
      cases hpr
  · rcases row_cases h hj' with ⟨j₁, hj₁, hk⟩ | ⟨hd, -⟩ | ⟨t, j₁, -, -, -, hr, rfl⟩ |
      ⟨t, w, ch, j₁, ha, hw, hk, hi, -, hp, rfl⟩
    · rw [hj] at hj₁
      cases hj₁
      rcases hk.state with hst | hst | ⟨-, hst⟩
      · exact absurd (hst.symm.trans hs) hn
      · rcases hst with hst | hst <;> rw [hst] at hs <;> cases hs
      · rcases hst with hst | hst <;> rw [hst] at hs <;> cases hs
    · rw [(hd.fresh hI).1 k] at hj
      cases hj
    · rw [hr] at hs
      cases hs
    · have hpr := hp.row
      rw [hj] at hpr
      cases hpr
      have hnq : j.state ≠ .queued := fun hq => (hI.queued k id j hj hq).2 t w hw ⟨hk, hi⟩
      exact ⟨t, ch, ha, (finishable_state hp.finishable).resolve_left hnq, hp.claim, hp.live⟩

end Theorems

/-! A workspace with one execution. -/

def demoConfig : Config := ⟨"f", true⟩

def demoStore : Store where
  jobs := ∅
  workspaces := AList.singleton "w"
    ⟨"w", "d", "s", "v", .active, seconds 9000, none, 0, false⟩
  sessions := AList.singleton "s" ⟨"s", false, seconds 9000, true, ["w"]⟩
  policy := some ⟨true, "v", "f"⟩
  requests := ∅
  permits := ∅
  reservations := ∅
  now := 0

def demoDraft : Draft where
  executionId := ""
  sourceViewId := none
  workspaceId := "w"
  databaseId := "d"
  sessionId := "s"
  login := "ann"
  policyVersion := "v"
  createdAt := 0
  expiresAt := seconds 9000
  input := none
  columns := []

def demoCreated : List Act :=
  [.stage "e" "ann", .createExecution "e" demoDraft "r" "q" (seconds 9000)]

def demoChanges : Changes := .captured ⟨⟨"e", .manifest⟩, 1, "h", 90⟩ [⟨"0", "a", "int4"⟩] 1 120 7

/-- The states of a row around the last act of a run. -/
def statesAround (acts : List Act) (a : Act) (k : Kind) (id : String) :
    Option (Option State × Option State) :=
  (Acts.run (Conf.step demoConfig) (Conf.start demoStore) acts).bind fun c =>
    (c.step demoConfig a).map fun c' =>
      ((c.store.job k id).map Job.state, (c'.store.job k id).map Job.state)

theorem statesAround_some (acts : List Act) (a : Act) (k : Kind) (id : String) (s s' : State)
    (h : statesAround acts a k id = some (some s, some s')) :
    ∃ (c c' : Conf) (j j' : Job), Reached demoConfig c ∧ c.step demoConfig a = some c' ∧
      c.store.job k id = some j ∧ c'.store.job k id = some j' ∧ j.state = s ∧ j'.state = s' := by
  obtain ⟨c, hc, h⟩ := Option.bind_eq_some_iff.1 h
  obtain ⟨c', hc', h⟩ := Option.map_eq_some_iff.1 h
  rw [Prod.mk.injEq] at h
  obtain ⟨j, hj, hs⟩ := Option.map_eq_some_iff.1 h.1
  obtain ⟨j', hj', hs'⟩ := Option.map_eq_some_iff.1 h.2
  exact ⟨c, c', j, j', ⟨demoStore, rfl, rfl, rfl, acts, hc⟩, hc', hj, hj', hs, hs'⟩

/-- A publication, and the claim and the documents behind it. -/
theorem job_lifecycle_demo : ∃ (c c' : Conf) (j j' : Job),
    c.step demoConfig (.complete "t" demoChanges) = some c' ∧
    c.store.job .execution "e" = some j ∧ c'.store.job .execution "e" = some j' ∧
    j'.state = .completed ∧ j.claim = some "t" ∧ Live demoConfig c.store .execution j := by
  obtain ⟨c, c', j, j', hr, h, hj, hj', hs, hs'⟩ := statesAround_some
    (demoCreated ++ [Act.claim .execution "e" "t"]) (.complete "t" demoChanges) .execution "e"
    .running .completed (by decide +kernel)
  obtain ⟨-, -, -, hcompleted, -⟩ := job_lifecycle hr h .execution "e"
  obtain ⟨t, changes, ha, -, hcl, hl⟩ := hcompleted j j' hj hj' (by rw [hs]; nofun) hs'
  cases ha
  exact ⟨c, c', j, j', h, hj, hj', hs', hcl, hl⟩

/-- A queued job fails without having run. -/
theorem queued_fails : ∃ (c c' : Conf) (a : Act) (k : Kind) (id : String) (j j' : Job),
    Reached demoConfig c ∧ c.step demoConfig a = some c' ∧
    c.store.job k id = some j ∧ c'.store.job k id = some j' ∧
    ¬(forward j.state j'.state = true) := by
  obtain ⟨c, c', j, j', hr, h, hj, hj', hs, hs'⟩ := statesAround_some
    demoCreated (.dispatchFailed .execution "e") .execution "e" .queued .failed (by decide +kernel)
  exact ⟨c, c', _, .execution, "e", j, j', hr, h, hj, hj', by rw [hs, hs']; decide⟩

end Control
