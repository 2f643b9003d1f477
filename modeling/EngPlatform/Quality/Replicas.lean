import EngPlatform.Quality.Immutable

/-!
# Runs of the replicas

Evidence that is orchestrated stays, and all that record a main release of a commit return one
hash, as long as no index object is created between the read and the write of `save_report`, and
the commits of main releases come in lower case. The first condition is what the lock gives inside
one process.
-/

set_option linter.dupNamespace false

namespace Quality

open Interleave Discipline

section Runs

variable {ι : Type} [DecidableEq ι] {i : ι} {w : World ι} {rules : Rules} {x : Immutable}
variable {requests : ι → Request} {objects : Name → Option Data}
variable {c c' : Conf ι (World ι) Call.Ans Raised Response}

def Immutable.main (x : Immutable) : Bool := x.provenance.operation = "main_release"

/-- The commit of a main release is in lower case. -/
def Request.Lower : Request → Prop
  | .replace _ => True
  | .immutable x => x.main = true → x.payload.commitSha.toLower = x.payload.commitSha

/-- What a call leaves that records a main release. -/
def Request.Ends (rules : Rules) (w : World ι) : Request → Response → Prop
  | .replace _, _ => True
  | .immutable x, y => x.main = true → y.hash = some (x.hash rules) ∧ Settled rules x w

theorem saveImmutableReport_asks : (saveImmutableReport rules x).Asks Call.Free := by
  refine .bind (fun _ => ?_) (refuse_asks _ _)
  refine .bind (fun _ => ?_) (refuse_asks _ _)
  refine .bind (fun now => ?_) perform_asks
  refine .bind (fun current => ?_) perform_asks
  rcases current with _ | d
  · refine .bind (fun _ => ?_) perform_asks
    refine .bind (fun created => ?_) perform_asks
    refine .ite (fun _ => .bind (fun _ => .pure _) (saveLatest_asks _ _)) fun _ => ?_
    refine .bind (fun current => ?_) perform_asks
    rcases current with _ | d
    · exact .raise _
    · exact .ite (fun _ => .pure _) fun _ => .raise _
  · exact .ite (fun _ => .pure _) fun _ => .raise _

theorem Request.yields (r : Request) (hr : r.Lower) :
    (contract ι).Yields i (r.program rules) (fun y w' => r.Ends rules w' y) w := by
  cases r with
  | replace p => exact (saveReport_yields p).bind fun _ _ _ => .pure trivial
  | immutable x =>
    by_cases hx : x.main = true
    · refine (saveImmutableReport_yields (hr hx)).bind fun y w' h => .pure fun _ => ?_
      exact ⟨congrArg some h.1, h.2⟩
    · exact (free_yields saveImmutableReport_asks).bind fun _ _ _ => .pure fun h => absurd h hx

/-- The calls, before the first request. -/
def start (rules : Rules) (requests : ι → Request) (objects : Name → Option Data) :
    Conf ι (World ι) Call.Ans Raised Response :=
  ⟨⟨objects, []⟩, fun i => (requests i).program rules⟩

/-- The evidence of `c` is still there in `c'`, and the main releases of one commit that were
recorded have one hash. -/
def Kept (requests : ι → Request) (c c' : Conf ι (World ι) Call.Ans Raised Response) : Prop :=
  Persists c.state c'.state ∧ ∀ i j x y rx ry, requests i = .immutable x →
    requests j = .immutable y → x.main = true → y.main = true →
    objectName x.payload = objectName y.payload → c.pool i = .done rx → c.pool j = .done ry →
    rx.hash = ry.hash

theorem indexName_main (h : x.main = true) : x.indexName = objectName x.payload := by
  unfold Immutable.main at h
  exact if_pos (of_decide_eq_true h)

omit [DecidableEq ι] in
theorem Settled.hash {y : Immutable} (hx : Settled rules x w) (hy : Settled rules y w)
    (h : x.indexName = y.indexName) : x.hash rules = y.hash rules := by
  obtain ⟨d, hd, -, hh⟩ := hx
  obtain ⟨d', hd', -, hh'⟩ := hy
  rw [h, hd'] at hd
  cases hd
  exact hh.symm.trans hh'

theorem evidence_kept (hn : ∀ i, (requests i).Lower)
    (h : Reach (system ι) (fun _ => Admitted) (start rules requests objects) c)
    (h' : Reach (system ι) (fun _ => Admitted) c c') : Kept requests c c' := by
  let Q : ι → Except Raised Response → World ι → Prop := fun i o w =>
    ∀ y, o = .ok y → (requests i).Ends rules w y
  have hQ : ∀ i o, (contract ι).Stable i (Q i o) := by
    intro i o w w' hr ho y hy
    have hends := ho y hy
    cases hri : requests i with
    | replace => trivial
    | immutable x =>
      rw [hri] at hends
      exact fun hx => (hends hx).imp_right fun hs => hs.persists hr.persists
  have hc : Good (contract ι) Q c :=
    good_reach (D := contract ι) hQ (c := start rules requests objects)
      ⟨nofun, fun i => (requests i).yields (hn i)⟩ h.restrict
  refine ⟨reach_relation (D := contract ι) hQ (fun w => .refl w) (fun _ _ _ => .trans)
    (fun i w e w' r hI hal _ hs => sem_persists hI hal hs.2) (fun _ _ _ he => he.elim) hc
    h'.restrict, fun i j x y rx ry hi hj hx hy hxy hpi hpj => ?_⟩
  have ei := hc.2 i
  have ej := hc.2 j
  rw [hpi] at ei
  rw [hpj] at ej
  have ei := ei rx rfl
  have ej := ej ry rfl
  rw [hi] at ei
  rw [hj] at ej
  obtain ⟨hrx, sx⟩ := ei hx
  obtain ⟨hry, sy⟩ := ej hy
  rw [hrx, hry, sx.hash sy (by rw [indexName_main hx, indexName_main hy, hxy])]

end Runs

section Demo

/-- The answer of a request that does not fail. -/
def serve {ι : Type} [DecidableEq ι] (i : ι) (w : World ι) : (c : Call) → World ι × c.Ans
  | .read name replacing => (if replacing then w.await i name else w, .ok (w.objects name))
  | .write name data => ((w.set name data).spend i name, .ok ())
  | .create name data =>
    match w.objects name with
    | some _ => (w, .ok false)
    | none => (w.set name data, .ok true)
  | .now => (w, .ok "2026-07-01T00:00:00+00:00")

theorem serve_sem {ι : Type} [DecidableEq ι] (i : ι) (w : World ι) (c : Call) :
    sem i w c (serve i w c).1 (serve i w c).2 := by
  cases c with
  | read => exact .inr ⟨rfl, rfl⟩
  | write => exact .inr ⟨rfl, .inl rfl⟩
  | create name data =>
    simp only [serve]
    rcases h : w.objects name with _ | d
    · exact .inr (.inr ⟨rfl, h, .inl rfl⟩)
    · exact .inr (.inl ⟨rfl, by rw [h]; nofun, rfl⟩)
  | now => rfl

def demoCreate : Create where
  serviceName := "artemis"
  repository := "acme/artemis"
  commitSha := "c0ffee1"
  branch := "main"
  profile := "python"
  workflowRunUrl := ""
  generatedAt := "2026-06-30T00:00:00+00:00"
  coverage := none
  coverageThreshold := none
  policyVersion := "oss-v1"
  baseSha := ""
  differentialCoverage := none
  differentialThreshold := none
  changedLines := none
  coveredChangedLines := none
  toolVersions := []
  checks := [⟨"tests", "quality", .passed, 0, 0, 1, "", ""⟩]

def demoRules : Rules := ⟨fun _ => false, fun _ => false, fun p => p.commitSha ++ p.generatedAt⟩

def demoEvidence : Immutable where
  payload := demoCreate
  provenance := ⟨"f1", "cloud_build", "b1", "", "", "", "main_release"⟩
  expectedHash := ""

/-- A report of the workflow and the orchestrated one of the same commit. -/
def demoRequests : Fin 3 → Request
  | 0 => .replace { demoCreate with generatedAt := "2026-06-30T01:00:00+00:00" }
  | _ => .immutable demoEvidence

def demoStart : Conf (Fin 3) (World (Fin 3)) Call.Ans Raised Response :=
  start demoRules demoRequests fun _ => none

/-- The callers in the order of their requests. -/
def replay (c : Conf (Fin 3) (World (Fin 3)) Call.Ans Raised Response) (script : List (Fin 3)) :
    Conf (Fin 3) (World (Fin 3)) Call.Ans Raised Response :=
  c.play (script.map fun i => .run i (serve i))

theorem replay_reach {C : Fin 3 → World (Fin 3) → Call → Prop}
    {c : Conf (Fin 3) (World (Fin 3)) Call.Ans Raised Response} (script : List (Fin 3))
    (h : c.Meets C (script.map fun i => .run i (serve i))) :
    Reach (system (Fin 3)) C c (replay c script) := by
  refine reach_play (fun t ht => ?_) _ h
  obtain ⟨i, -, rfl⟩ := List.mem_map.1 ht
  exact serve_sem i

/-- The release is recorded, then recorded again, and the report is refused. -/
theorem evidence_kept_demo :
    ∃ c c' : Conf (Fin 3) (World (Fin 3)) Call.Ans Raised Response,
      (c.state.objects (objectName demoCreate)).any Data.orchestrated = true ∧
      Kept demoRequests c c' := by
  have hn : ∀ i, (demoRequests i).Lower := by
    intro i
    match i with
    | 0 => trivial
    | 1 => exact fun _ => by decide +kernel
    | 2 => exact fun _ => by decide +kernel
  have h : Reach (system (Fin 3)) (fun _ => Admitted) demoStart
      (replay demoStart (List.replicate 6 1)) := replay_reach _ (by decide +kernel)
  have h' : Reach (system (Fin 3)) (fun _ => Admitted) (replay demoStart (List.replicate 6 1))
      (replay (replay demoStart (List.replicate 6 1)) [2, 2, 0, 0]) :=
    replay_reach _ (by decide +kernel)
  exact ⟨_, _, by decide +kernel, evidence_kept hn h h'⟩

/-- The orchestrated evidence is created between the read and the write of `save_report`. -/
theorem evidence_replaced : ¬∀ (requests : Fin 3 → Request) (objects : Name → Option Data)
    (c c' : Conf (Fin 3) (World (Fin 3)) Call.Ans Raised Response),
    Reach (system (Fin 3)) (always _ _ _) (start demoRules requests objects) c →
    Reach (system (Fin 3)) (always _ _ _) c c' → Kept requests c c' := by
  intro hall
  have hk := (hall demoRequests (fun _ => none) (replay demoStart [0, 0, 1, 1, 1, 1])
    (replay (replay demoStart [0, 0, 1, 1, 1, 1]) [0]) (replay_reach _ (meets_always _ _))
    (replay_reach _ (meets_always _ _))).1
  have hd := hk (objectName demoCreate)
    (.wrapped (demoEvidence.hash demoRules) demoEvidence.provenance
      (received demoRules demoCreate "2026-07-01T00:00:00+00:00")) rfl rfl (by decide +kernel)
  have hp : (((replay (replay demoStart [0, 0, 1, 1, 1, 1]) [0]).state.objects
      (objectName demoCreate)).any Data.orchestrated) = false := by decide +kernel
  rw [hd] at hp
  cases hp

end Demo

end Quality
