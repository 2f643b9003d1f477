import Mathlib.Data.List.Nodup
import Mathlib.Data.List.Perm.Subperm
import Mathlib.Data.List.Sort
import Mathlib.Data.Prod.Lex
import Mathlib.Data.String.Basic
import Mathlib.Order.WithBot

/-!
# Queries over a collection of documents

A document has a name and fields, each of which it may miss. A filter or an order on a field skips
the documents that miss it, and a filter against values skips those where it is null as well. A
query comes back in the order of its field and then of the names, whole, up to a limit, or page by
page after the last document of the page before.
-/

set_option linter.dupNamespace false

namespace Queries

inductive Value
  | null
  | bool (b : Bool)
  | text (s : String)
  deriving DecidableEq

/-- Null comes first, then the truth values, then the texts. -/
def Value.rank : Value → ℕ ×ₗ String
  | .null => toLex (0, "")
  | .bool false => toLex (1, "")
  | .bool true => toLex (2, "")
  | .text s => toLex (3, s)

theorem Value.rank_injective : Function.Injective Value.rank := by
  rintro (_ | (_ | _) | s) (_ | (_ | _) | t) h <;> simp_all [Value.rank]

instance : LinearOrder Value := LinearOrder.lift' Value.rank Value.rank_injective

theorem Value.text_le {s t : String} : Value.text s ≤ .text t ↔ s ≤ t := by
  show toLex (3, s) ≤ toLex ((3, t) : ℕ × String) ↔ s ≤ t
  rw [Prod.Lex.toLex_le_toLex]
  simp

theorem Value.text_lt {s t : String} : Value.text s < .text t ↔ s < t := by
  rw [lt_iff_le_not_ge, Value.text_le, Value.text_le, lt_iff_le_not_ge]

structure Query (δ : Type) where
  keep : δ → Bool
  order : Option String
  descending : Bool

section Counts

variable {δ : Type} {docs docs' : List δ} {q q' : Query δ}

def Query.all : Query δ := ⟨fun _ => true, none, false⟩

def Query.count (q : Query δ) (docs : List δ) : ℕ := (docs.filter q.keep).length

theorem count_congr (h : docs.Perm docs') : q.count docs = q.count docs' :=
  (h.filter _).length_eq

/-- The documents that `q'` skips, counted. -/
theorem count_skipped (h : ∀ d, q'.keep d = true → q.keep d = true) :
    q.count docs = q'.count docs + (docs.filter fun d => q.keep d && !q'.keep d).length := by
  unfold Query.count
  induction docs with
  | nil => rfl
  | cons d docs ih =>
    cases hq : q.keep d with
    | false =>
      have hq' : q'.keep d = false := by
        cases hk : q'.keep d with
        | false => rfl
        | true => exact (h d hk).symm.trans hq
      simp only [List.filter_cons, hq, hq', Bool.false_and, Bool.false_eq_true, if_false]
      exact ih
    | true =>
      cases hq' : q'.keep d <;> simp [hq, hq'] <;> omega

/-- A filter that only skips documents skips none when it counts as many. -/
theorem keep_of_count (h : ∀ d, q'.keep d = true → q.keep d = true)
    (hc : q'.count docs = q.count docs) : ∀ d ∈ docs, q.keep d = true → q'.keep d = true := by
  have hnil : docs.filter (fun d => q.keep d && !q'.keep d) = [] := by
    have hs : q.count docs = _ := count_skipped h
    exact List.eq_nil_of_length_eq_zero (by omega)
  intro d hm hk
  have := List.filter_eq_nil_iff.1 hnil d hm
  simpa [hk] using this

end Counts

class Document (δ : Type) where
  name : δ → String
  field : String → δ → Option Value

open Document

variable {δ : Type} [Document δ]

section Filters

variable (q : Query δ) (f : String)

def Query.whereEq (v : Value) : Query δ :=
  { q with keep := fun d => q.keep d && field f d == some v }

def Query.whereIn (vs : List Value) : Query δ :=
  { q with keep := fun d => q.keep d && (field f d).any (· ∈ vs) }

def Query.whereNotNull : Query δ :=
  { q with keep := fun d => q.keep d && (field f d).any (· ≠ .null), order := some f }

def Query.whereNotIn (vs : List Value) : Query δ :=
  { q with
    keep := fun d => q.keep d && (field f d).any fun v => v ≠ .null ∧ v ∉ vs
    order := some f }

/-- The order of a field, and then of the names in the same direction. -/
def Query.orderBy (descending : Bool) : Query δ :=
  { keep := fun d => q.keep d && (field f d).isSome, order := some f, descending := descending }

end Filters

/-! ## Running a query -/

/-- What a query sorts its documents by; a document that misses the field comes before the rest. -/
def Query.key (q : Query δ) (d : δ) : WithBot Value ×ₗ String :=
  toLex ((q.order.bind fun f => field f d : Option Value), name d)

def Query.before (q : Query δ) (d d' : δ) : Bool :=
  if q.descending then q.key d' < q.key d else q.key d < q.key d'

def Query.le (q : Query δ) (d d' : δ) : Bool :=
  if q.descending then q.key d' ≤ q.key d else q.key d ≤ q.key d'

def Query.run (q : Query δ) (docs : List δ) : List δ := (docs.filter q.keep).mergeSort q.le

def Distinct (docs : List δ) : Prop := (docs.map (name : δ → String)).Nodup

section Run

variable {q : Query δ} {docs docs' : List δ}

theorem le_trans' (a b c : δ) (h : q.le a b = true) (h' : q.le b c = true) :
    q.le a c = true := by
  unfold Query.le at *
  split at h <;> simp_all only [decide_eq_true_eq, if_true, if_false, Bool.false_eq_true]
  · exact h'.trans h
  · exact h.trans h'

theorem le_total' (a b : δ) : (q.le a b || q.le b a) = true := by
  unfold Query.le
  split <;> simpa only [Bool.or_eq_true, decide_eq_true_eq] using le_total _ _

theorem key_name {d d' : δ} (h : q.key d = q.key d') : (name d : String) = name d' :=
  congrArg (fun k => (ofLex k).2) h

theorem before_iff {d d' : δ} : q.before d d' = true ↔ q.le d d' = true ∧ q.key d ≠ q.key d' := by
  unfold Query.before Query.le
  split
  · simp only [decide_eq_true_eq]
    exact lt_iff_le_and_ne.trans (and_congr_right fun _ => ne_comm)
  · simp only [decide_eq_true_eq]
    exact lt_iff_le_and_ne

theorem mem_run {d : δ} : d ∈ q.run docs ↔ d ∈ docs ∧ q.keep d = true := by
  unfold Query.run
  rw [List.mem_mergeSort, List.mem_filter]

theorem run_perm : (q.run docs).Perm (docs.filter q.keep) := List.mergeSort_perm _ _

theorem length_run : (q.run docs).length = q.count docs := run_perm.length_eq

theorem Distinct.eq {d d' : δ} (hd : Distinct docs) (h : d ∈ docs) (h' : d' ∈ docs)
    (hn : (name d : String) = name d') : d = d' := List.inj_on_of_nodup_map hd h h' hn

theorem Distinct.perm (hd : Distinct docs) (h : docs.Perm docs') : Distinct docs' :=
  (h.map _).nodup_iff.1 hd

theorem Distinct.nodup (hd : Distinct docs) : docs.Nodup := List.Nodup.of_map _ hd

theorem Distinct.filter {p : δ → Bool} (hd : Distinct docs) : Distinct (docs.filter p) :=
  List.Nodup.sublist (List.filter_sublist.map _) hd

/-- The documents of a query come one strictly before the other. -/
theorem run_pairwise (hd : Distinct docs) :
    (q.run docs).Pairwise fun d d' => q.before d d' = true := by
  have hle : (q.run docs).Pairwise fun d d' => q.le d d' = true :=
    List.pairwise_mergeSort le_trans' le_total' _
  have hne : (q.run docs).Pairwise fun d d' => (name d : String) ≠ name d' :=
    List.pairwise_map.1 ((run_perm.map _).nodup_iff.2 hd.filter)
  exact (hle.and hne).imp fun h => before_iff.2 ⟨h.1, fun hk => h.2 (key_name hk)⟩

theorem before_asymm {d d' : δ} (h : q.before d d' = true) : q.before d' d = false := by
  unfold Query.before at *
  split at h <;> simp_all only [decide_eq_true_eq, if_true, if_false, Bool.false_eq_true,
    decide_eq_false_iff_not]
  · exact not_lt_of_gt h
  · exact not_lt_of_gt h

/-- A query of distinct documents does not depend on how they are listed. -/
theorem run_congr (hd : Distinct docs) (h : docs.Perm docs') : q.run docs = q.run docs' := by
  have hp : (q.run docs).Perm (q.run docs') :=
    run_perm.trans ((h.filter _).trans run_perm.symm)
  refine hp.eq_of_pairwise ?_ (run_pairwise hd) (run_pairwise (hd.perm h))
  intro a b _ _ hab hba
  rw [before_asymm hab] at hba
  cases hba

theorem count_orderBy {f : String} {descending : Bool} :
    (q.orderBy f descending).count docs = q.count docs ↔
      ∀ d ∈ docs, q.keep d = true → (field f d).isSome = true := by
  constructor
  · intro h d hm hk
    have := keep_of_count (fun d hd => (Bool.and_eq_true_iff.1 hd).1) h d hm hk
    exact (Bool.and_eq_true_iff.1 this).2
  · intro h
    unfold Query.count Query.orderBy
    refine congrArg List.length (List.filter_congr fun d hm => ?_)
    show (q.keep d && (field f d).isSome) = q.keep d
    cases hk : q.keep d with
    | false => rfl
    | true => rw [h d hm hk, Bool.and_self]

end Run

/-! ## Pages -/

/-- The documents after a cursor. -/
def Query.after (q : Query δ) (docs : List δ) : Option δ → List δ
  | none => q.run docs
  | some cursor => (q.run docs).filter (q.before cursor)

/-- The pages of a query from a cursor on; `fuel` bounds their number. -/
def Query.pages (q : Query δ) (docs : List δ) (pageSize : ℕ) : ℕ → Option δ → List δ
  | 0, _ => []
  | fuel + 1, cursor =>
    let page := (q.after docs cursor).take pageSize
    if page = [] ∨ page.length < pageSize then page
    else page ++ q.pages docs pageSize fuel page.getLast?

/-- Every page of a query, one after the other. -/
def Query.iterPages (q : Query δ) (docs : List δ) (pageSize : ℕ) : List δ :=
  q.pages docs pageSize (docs.length + 1) none

section Pages

variable {q : Query δ} {docs : List δ} {pageSize : ℕ}

/-- The documents after one of them are those that follow it. -/
theorem after_cursor (hd : Distinct docs) {front back : List δ} {c : δ}
    (h : q.run docs = front ++ c :: back) : q.after docs (some c) = back := by
  have hp := run_pairwise (q := q) hd
  rw [h, List.pairwise_append] at hp
  obtain ⟨-, hback, hfront⟩ := hp
  have hself : q.before c c = false := by
    cases hs : q.before c c with
    | false => rfl
    | true => exact (before_asymm hs).symm.trans hs |>.symm
  show (q.run docs).filter (q.before c) = back
  rw [h, List.filter_append, List.filter_cons, hself]
  rw [List.filter_eq_nil_iff.2 fun d hm => by
    rw [before_asymm (hfront d hm c (.head _))]
    exact Bool.false_ne_true]
  rw [List.filter_eq_self.2 fun d hm => (List.pairwise_cons.1 hback).1 d hm]
  rfl

theorem after_done (hd : Distinct docs) {done rest : List δ} (h : q.run docs = done ++ rest) :
    q.after docs done.getLast? = rest := by
  rcases List.eq_nil_or_concat done with rfl | ⟨front, c, rfl⟩
  · exact h
  · rw [List.concat_eq_append] at h ⊢
    rw [List.getLast?_append, List.getLast?_singleton, Option.some_or]
    rw [List.append_assoc, List.singleton_append] at h
    exact after_cursor hd h

/-- The pages that follow what is done are the rest of the query. -/
theorem pages_eq (hd : Distinct docs) (hs : 0 < pageSize) : ∀ (fuel : ℕ) (done rest : List δ),
    q.run docs = done ++ rest → rest.length < fuel →
      q.pages docs pageSize fuel done.getLast? = rest
  | 0, _, _, _, hf => absurd hf (Nat.not_lt_zero _)
  | fuel + 1, done, rest, h, hf => by
    unfold Query.pages
    rw [after_done hd h]
    simp only []
    split
    · rename_i hpage
      rcases hpage with hnil | hlen
      · have hrest : rest = [] := by
          cases rest with
          | nil => rfl
          | cons a l =>
            obtain ⟨n, rfl⟩ := Nat.exists_eq_succ_of_ne_zero (Nat.ne_of_gt hs)
            simp at hnil
        rw [hrest, List.take_nil]
      · refine List.take_of_length_le ?_
        rw [List.length_take] at hlen
        omega
    · rename_i hpage
      obtain ⟨hne, hlen⟩ := not_or.1 hpage
      have hdone : (done ++ rest.take pageSize).getLast? = (rest.take pageSize).getLast? := by
        rw [List.getLast?_append]
        cases hl : (rest.take pageSize).getLast? with
        | none => exact absurd (List.getLast?_eq_none_iff.1 hl) hne
        | some c => rfl
      have ih := pages_eq hd hs fuel (done ++ rest.take pageSize) (rest.drop pageSize)
        (by rw [List.append_assoc, List.take_append_drop]; exact h)
        (by
          rw [List.length_take] at hlen
          rw [List.length_drop]
          omega)
      rw [← hdone, ih, List.take_append_drop]

theorem mem_pages {d : δ} : ∀ {fuel : ℕ} {cursor : Option δ},
    d ∈ q.pages docs pageSize fuel cursor → d ∈ q.run docs
  | 0, _, h => by cases h
  | fuel + 1, cursor, h => by
    have hafter : ∀ {e : δ}, e ∈ (q.after docs cursor).take pageSize → e ∈ q.run docs := by
      intro e he
      have he' := List.mem_of_mem_take he
      cases cursor with
      | none => exact he'
      | some c => exact (List.mem_filter.1 he').1
    unfold Query.pages at h
    simp only [] at h
    split at h
    · exact hafter h
    · exact (List.mem_append.1 h).elim hafter mem_pages

/-- Pages of any size are the whole query. -/
theorem iterPages_eq (hd : Distinct docs) (hs : 0 < pageSize) :
    q.iterPages docs pageSize = q.run docs :=
  pages_eq hd hs _ [] _ rfl (by
    have := List.length_filter_le q.keep docs
    rw [length_run]
    unfold Query.count
    omega)

end Pages

/-! ## Sorted results -/

theorem nodup_of_subperm {α κ : Type} {key : α → κ} {l l' : List α} (h : l.Subperm l')
    (hk : (l'.map key).Nodup) : (l.map key).Nodup := by
  obtain ⟨m, hp, hs⟩ := h
  exact (hp.map key).nodup_iff.1 (List.Nodup.sublist (hs.map key) hk)

theorem flatMap_subperm {α ι : Type} {f g : ι → List α} : ∀ {names : List ι},
    (∀ i ∈ names, (f i).Subperm (g i)) → (names.flatMap f).Subperm (names.flatMap g)
  | [], _ => List.Subperm.refl _
  | i :: _, h => by
    rw [List.flatMap_cons, List.flatMap_cons]
    exact (h i (.head _)).append (flatMap_subperm fun j hj => h j (.tail _ hj))

section Sorted

variable {α κ : Type} [LinearOrder κ] {key : α → κ} {l l' : List α}

def sortBy (key : α → κ) (l : List α) : List α := l.mergeSort fun a b => key a ≤ key b

@[simp] theorem sortBy_nil : sortBy key [] = [] := List.mergeSort_nil

theorem sortBy_perm : (sortBy key l).Perm l := List.mergeSort_perm _ _

theorem sortBy_pairwise : (sortBy key l).Pairwise fun a b => key a ≤ key b := by
  have := @List.pairwise_mergeSort _ (fun a b => decide (key a ≤ key b))
    (fun a b c hab hbc => by
      simp only [decide_eq_true_eq] at *
      exact hab.trans hbc)
    (fun a b => by simpa only [Bool.or_eq_true, decide_eq_true_eq] using le_total _ _) l
  exact this.imp fun h => by simpa using h

/-- Lists of the same items with distinct keys sort to the same list. -/
theorem sortBy_congr (h : l.Perm l') (hk : (l.map key).Nodup) : sortBy key l = sortBy key l' := by
  refine (sortBy_perm.trans (h.trans sortBy_perm.symm)).eq_of_pairwise ?_ sortBy_pairwise
    sortBy_pairwise
  intro a b ha _ hab hba
  have hb : b ∈ sortBy key l' := by assumption
  exact List.inj_on_of_nodup_map hk (sortBy_perm.mem_iff.1 ha)
    (h.mem_iff.2 (sortBy_perm.mem_iff.1 hb)) (le_antisymm hab hba)

/-- A list that is in the order of the keys is what the sort makes of it. -/
theorem sortBy_eq (h : l.Perm l') (hk : (l.map key).Nodup)
    (hp : l'.Pairwise fun a b => key a ≤ key b) : sortBy key l = l' := by
  rw [sortBy_congr h hk]
  unfold sortBy
  exact List.mergeSort_of_pairwise (hp.imp fun h => by simpa using h)

theorem filter_sortBy {p : α → Bool} (hk : (l.map key).Nodup) :
    (sortBy key l).filter p = sortBy key (l.filter p) := by
  symm
  refine sortBy_eq (sortBy_perm.symm.filter p) ?_ (sortBy_pairwise.filter p)
  exact List.Nodup.sublist (List.filter_sublist.map _) hk

theorem find?_sortBy {p : α → Bool} (hk : (l.map key).Nodup) :
    (sortBy key l).find? p = (sortBy key (l.filter p)).head? := by
  rw [← filter_sortBy hk, List.head?_filter]

theorem head?_sortBy {a : α} (hk : (l.map key).Nodup) (ha : a ∈ l) (hle : ∀ b ∈ l, key a ≤ key b) :
    (sortBy key l).head? = some a := by
  have hp : (sortBy key l).Pairwise fun a b => key a ≤ key b := sortBy_pairwise
  have hm : a ∈ sortBy key l := sortBy_perm.mem_iff.2 ha
  cases hs : sortBy key l with
  | nil =>
    rw [hs] at hm
    cases hm
  | cons b bs =>
    rw [hs] at hm hp
    have hb : b ∈ l := sortBy_perm.mem_iff.1 (hs ▸ List.mem_cons_self)
    have hba : key b ≤ key a := by
      rcases List.mem_cons.1 hm with rfl | hbs
      · exact le_rfl
      · exact (List.pairwise_cons.1 hp).1 a hbs
    rw [List.head?_cons, List.inj_on_of_nodup_map hk hb ha (le_antisymm hba (hle b hb))]

/-! ### The first few of a sort -/

theorem take_merge {le : α → α → Bool} : ∀ (n : ℕ) (l r : List α),
    (List.merge l r le).take n = (List.merge (l.take n) (r.take n) le).take n
  | 0, _, _ => rfl
  | n + 1, [], r => by
    rw [List.take_nil, List.nil_merge, List.nil_merge, List.take_take, Nat.min_self]
  | n + 1, l, [] => by
    rw [List.take_nil, List.merge_right, List.merge_right, List.take_take, Nat.min_self]
  | n + 1, a :: l, b :: r => by
    have hcut : ∀ (c : α) (t : List α), (c :: t.take n).take n = (c :: t).take n := fun c t => by
      rw [← List.take_succ_cons, List.take_take, Nat.min_eq_left (Nat.le_succ n)]
    rw [List.take_succ_cons, List.take_succ_cons, List.cons_merge_cons, List.cons_merge_cons]
    split
    · rw [List.take_succ_cons, List.take_succ_cons, take_merge n l (b :: r),
        take_merge n (l.take n) (b :: r.take n), List.take_take, Nat.min_self, hcut]
    · rw [List.take_succ_cons, List.take_succ_cons, take_merge n (a :: l) r,
        take_merge n (a :: l.take n) (r.take n), List.take_take, Nat.min_self, hcut]

theorem sortBy_append {r : List α} (hk : ((l ++ r).map key).Nodup) :
    sortBy key (l ++ r)
      = List.merge (sortBy key l) (sortBy key r) fun a b => key a ≤ key b := by
  refine sortBy_eq ?_ hk ?_
  · exact ((sortBy_perm.append sortBy_perm).symm).trans (List.merge_perm_append _).symm
  · have := List.pairwise_merge
      (fun a b c hab hbc => decide_eq_true ((of_decide_eq_true hab).trans (of_decide_eq_true hbc)))
      (fun a b => by simpa only [Bool.or_eq_true, decide_eq_true_eq] using le_total _ _)
      (sortBy key l) (sortBy key r)
      (sortBy_pairwise.imp fun h => decide_eq_true h)
      (sortBy_pairwise.imp fun h => decide_eq_true h)
    exact this.imp fun h => of_decide_eq_true h

/-- The first few of a sort are made of the first few of its parts. -/
theorem take_sortBy_flatMap {ι : Type} {n : ℕ} {f g : ι → List α} : ∀ {names : List ι},
    ((names.flatMap g).map key).Nodup → (∀ i ∈ names, (f i).Subperm (g i)) →
      (∀ i ∈ names, (sortBy key (f i)).take n = (sortBy key (g i)).take n) →
        (sortBy key (names.flatMap f)).take n = (sortBy key (names.flatMap g)).take n
  | [], _, _, _ => rfl
  | i :: names, hg, hsub, h => by
    have hf := nodup_of_subperm (flatMap_subperm hsub) hg
    have ih := take_sortBy_flatMap (List.Nodup.of_append_right (by
      rw [List.flatMap_cons, List.map_append] at hg
      exact hg)) (fun j hj => hsub j (.tail _ hj)) fun j hj => h j (.tail _ hj)
    rw [List.flatMap_cons] at hf hg ⊢
    rw [List.flatMap_cons, sortBy_append hf, sortBy_append hg, take_merge, h i (.head _), ih,
      ← take_merge]

end Sorted

end Queries
