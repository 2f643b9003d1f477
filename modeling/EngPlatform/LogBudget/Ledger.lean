import EngPlatform.LogBudget.WellFormed
import Mathlib.Data.List.Count
import Mathlib.Data.List.Perm.Subperm

/-!
# The ledger of granted permits

A document forgets a permit 60 seconds after its completion. The `ledger` of a history forgets
none: each document adds its new permits to it and updates the others. `Booked` is what ties a
document to the ledger, with the two facts the budget is about, `Capped` and the spacing; each of
the two transforms keeps it and the document's well-formedness.
-/

set_option linter.dupNamespace false

namespace LogBudget

open Cas

/-- The ledger once `doc` is written: new permits go in front, the others are updated. -/
def book (doc : Document) (L : List Permit) : List Permit :=
  (doc.attempts.filter fun p => p.token ∉ tokens L) ++
    L.map fun p => (doc.attempts.find? fun q => q.token == p.token).getD p

/-- Every permit granted in a history, the newest first, each as last recorded. -/
def ledger {ι : Type} : List (Commit ι ℤ Document) → List Permit
  | [] => []
  | c :: h => book c.doc (ledger h)

/-- From its grant until 60 seconds after its completion a permit is outstanding. -/
def outstanding (t : ℤ) (p : Permit) : Bool :=
  p.reservedAt ≤ t && p.completedAt.all (t < · + seconds 60)

/-- At each grant fewer than `MAX_ATTEMPTS` of the older permits were outstanding. -/
def Capped : List Permit → Prop
  | [] => True
  | p :: older => older.countP (outstanding p.reservedAt) < maxAttempts ∧ Capped older

/-- A document against the ledger of what was granted up to it. -/
structure Booked (doc : Document) (L : List Permit) : Prop where
  tokens_nodup : (tokens L).Nodup
  mem : ∀ p ∈ doc.attempts, p ∈ L
  kept : ∀ p ∈ L, p ∈ doc.attempts ∨
    ∃ c ∈ p.completedAt, c + seconds 60 ≤ doc.updatedAt
  permits : ∀ p ∈ L, PermitOk doc.updatedAt p
  due : ∀ p ∈ L, p.reservedAt + seconds cadenceSeconds ≤ doc.nextDue
  spaced : L.Pairwise fun p q => q.reservedAt + seconds cadenceSeconds ≤ p.reservedAt
  capped : Capped L

theorem booked_fresh (quota : String) (now : ℤ) : Booked (fresh quota now) [] :=
  ⟨List.nodup_nil, by simp [fresh], by simp, by simp, by simp, List.Pairwise.nil, trivial⟩

theorem outstanding_iff {t : ℤ} {p : Permit} :
    outstanding t p = true ↔ p.reservedAt ≤ t ∧ ∀ c ∈ p.completedAt, t < c + seconds 60 := by
  unfold outstanding
  rcases p.completedAt with _ | c <;> simp

theorem settled_iff {t : ℤ} {c : Option ℤ} :
    settled t c = true ↔ ∃ x ∈ c, x + seconds 60 ≤ t := by
  rcases c with _ | x
  · simp [settled]
  · simp only [settled, decide_eq_true_eq, Option.mem_def, Option.some.injEq, exists_eq_left']
    omega

/-- No more than `MAX_ATTEMPTS` permits are outstanding at any time: the newest of them was
granted while fewer of the others were, and they still are then. -/
theorem Capped.count_le {t : ℤ} : ∀ {L : List Permit}, Capped L →
    (L.Pairwise fun p q => q.reservedAt + seconds cadenceSeconds ≤ p.reservedAt) →
    L.countP (outstanding t) ≤ maxAttempts
  | [], _, _ => by simp
  | p :: older, ⟨hlt, hcap⟩, hs => by
    rw [List.pairwise_cons] at hs
    rw [List.countP_cons]
    split_ifs with ho
    · have hle : older.countP (outstanding t) ≤ older.countP (outstanding p.reservedAt) := by
        refine List.countP_mono_left fun q hq hqo => ?_
        rw [outstanding_iff] at ho hqo ⊢
        have := hs.1 q hq
        have hc : (0 : ℤ) ≤ seconds cadenceSeconds := by decide
        exact ⟨by omega, fun c hc => lt_of_le_of_lt ho.1 (hqo.2 c hc)⟩
      omega
    · simpa using hcap.count_le hs.2

theorem Capped.map {f : Permit → Permit} (hr : ∀ p, (f p).reservedAt = p.reservedAt)
    (ho : ∀ t p, outstanding t (f p) = true → outstanding t p = true) :
    ∀ {L : List Permit}, Capped L → Capped (L.map f)
  | [], h => h
  | p :: older, ⟨hlt, hcap⟩ => by
    refine ⟨?_, hcap.map hr ho⟩
    rw [hr, List.countP_map]
    exact lt_of_le_of_lt (List.countP_mono_left fun q _ hq => ho _ q hq) hlt

theorem eq_of_token_eq {L : List Permit} (h : (tokens L).Nodup) {p q : Permit} (hp : p ∈ L)
    (hq : q ∈ L) (ht : p.token = q.token) : p = q :=
  List.inj_on_of_nodup_map h hp hq ht

theorem find_token_self {l L : List Permit} (hL : (tokens L).Nodup) (hsub : ∀ p ∈ l, p ∈ L)
    {p : Permit} (hp : p ∈ L) : (l.find? fun q => q.token == p.token).getD p = p := by
  rcases hf : l.find? fun q => q.token == p.token with _ | q <;> simp only [hf]
  · rfl
  · have ht : q.token = p.token := by simpa using List.find?_some hf
    exact eq_of_token_eq hL (hsub q (List.mem_of_find?_eq_some hf)) hp ht

/-- A document with no new permit and no change to one leaves the ledger as it is. -/
theorem book_self {doc : Document} {L : List Permit} (hL : (tokens L).Nodup)
    (hsub : ∀ p ∈ doc.attempts, p ∈ L) : book doc L = L := by
  have hnew : doc.attempts.filter (fun p => p.token ∉ tokens L) = [] := by
    refine List.filter_eq_nil_iff.2 fun p hp => ?_
    simpa using ⟨p, hsub p hp, rfl⟩
  have hold : L.map (fun p => (doc.attempts.find? fun q => q.token == p.token).getD p) = L := by
    refine (List.map_congr_left fun p hp => ?_).trans (List.map_id L)
    exact find_token_self hL hsub hp
  unfold book
  rw [hnew, hold, List.nil_append]

theorem book_grant {doc : Document} {L l : List Permit} {p : Permit} (hL : (tokens L).Nodup)
    (hsub : ∀ q ∈ l, q ∈ L) (hp : p.token ∉ tokens L) (hd : doc.attempts = l ++ [p]) :
    book doc L = p :: L := by
  have hnew : doc.attempts.filter (fun p => p.token ∉ tokens L) = [p] := by
    rw [hd, List.filter_append, List.filter_eq_nil_iff.2 (fun q hq => ?_)]
    · simpa using hp
    · simpa using ⟨q, hsub q hq, rfl⟩
  have hold : L.map (fun p => (doc.attempts.find? fun q => q.token == p.token).getD p) = L := by
    refine (List.map_congr_left fun q hq => ?_).trans (List.map_id L)
    have hne : ¬ p.token = q.token := fun h => hp (mem_tokens.2 ⟨q, hq, h.symm⟩)
    rw [hd, List.find?_append, List.find?_cons_of_neg (by simpa using hne), List.find?_nil,
      Option.or_none]
    exact find_token_self hL hsub hq
  unfold book
  rw [hnew, hold, List.singleton_append]

/-- The permit `p` completed at `now`, wherever it stands. -/
def completeAt (p : Permit) (now : ℤ) (q : Permit) : Permit :=
  if q = p then { p with completedAt := some now } else q

theorem completeAt_token (p q : Permit) (now : ℤ) : (completeAt p now q).token = q.token := by
  unfold completeAt
  split_ifs with h
  · rw [h]
  · rfl

theorem completeAt_participant (p q : Permit) (now : ℤ) :
    (completeAt p now q).participant = q.participant := by
  unfold completeAt
  split_ifs with h
  · rw [h]
  · rfl

theorem completeAt_reservedAt (p q : Permit) (now : ℤ) :
    (completeAt p now q).reservedAt = q.reservedAt := by
  unfold completeAt
  split_ifs with h
  · rw [h]
  · rfl

theorem map_completeAt {pre post : List Permit} {p : Permit} (now : ℤ)
    (hn : (tokens (pre ++ p :: post)).Nodup) :
    (pre ++ p :: post).map (completeAt p now) =
      pre ++ { p with completedAt := some now } :: post := by
  have hp : p ∉ pre ∧ p ∉ post := by
    rw [tokens_append, tokens_cons, List.nodup_append, List.nodup_cons] at hn
    refine ⟨fun h => ?_, fun h => hn.2.1.1 (mem_tokens.2 ⟨p, h, rfl⟩)⟩
    exact hn.2.2 _ (mem_tokens.2 ⟨p, h, rfl⟩) _ List.mem_cons_self rfl
  have hid : ∀ l : List Permit, p ∉ l → l.map (completeAt p now) = l := fun l hl =>
    (List.map_congr_left fun q hq => if_neg fun h => hl (by rwa [← h])).trans (List.map_id l)
  rw [List.map_append, List.map_cons, hid pre hp.1, hid post hp.2, completeAt, if_pos rfl]

theorem tokens_map_completeAt (p : Permit) (now : ℤ) (l : List Permit) :
    tokens (l.map (completeAt p now)) = tokens l := by
  unfold tokens
  rw [List.map_map]
  exact List.map_congr_left fun q _ => completeAt_token p q now

/-- A document that completes one permit does so in the ledger. -/
theorem book_complete {doc : Document} {L l : List Permit} {p : Permit} {now : ℤ}
    (hL : (tokens L).Nodup) (hsub : ∀ q ∈ l, q ∈ L) (hp : p ∈ l)
    (hd : doc.attempts = l.map (completeAt p now)) :
    book doc L = L.map (completeAt p now) := by
  have hnew : doc.attempts.filter (fun p => p.token ∉ tokens L) = [] := by
    refine List.filter_eq_nil_iff.2 fun q hq => ?_
    rw [hd] at hq
    obtain ⟨r, hr, rfl⟩ := List.mem_map.1 hq
    simpa [completeAt_token] using ⟨r, hsub r hr, rfl⟩
  unfold book
  rw [hnew, List.nil_append]
  refine List.map_congr_left fun q hq => ?_
  rw [hd, List.find?_map]
  have hfun : ((fun r : Permit => r.token == q.token) ∘ completeAt p now) =
      fun r => r.token == q.token := by
    funext r
    simp [completeAt_token]
  rw [hfun]
  rcases hf : l.find? fun r => r.token == q.token with _ | r <;> simp only [hf]
  · have hne : q ≠ p := by
      rintro rfl
      simpa using List.find?_eq_none.1 hf q hp
    simp [completeAt, hne]
  · have ht : r.token = q.token := by simpa using List.find?_some hf
    obtain rfl := eq_of_token_eq hL (hsub r (List.mem_of_find?_eq_some hf)) hq ht
    rfl

end LogBudget
