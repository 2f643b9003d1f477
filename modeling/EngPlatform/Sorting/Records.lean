import EngPlatform.Sorting.Runs

/-!
# The records that a merge yields

A storage returns what was written to a run if the lines of its chunks are the records in their
order (`Lines`). Then a merge yields the records of its runs, each before all that are still to come:
the heap has the next record of every reader that is not at its end (`Merge.Holds`).
-/

set_option linter.dupNamespace false

namespace Sorting

open Effects

variable {ρ κ χ β : Type}

/-! ## The order -/

section Order

variable [LinearOrder κ] {descending : Bool} {a b c : Record ρ κ}

theorem less_iff : less descending a b = true ↔
    a.key ≠ none ∧ b.key = none ∨ a.key = b.key ∧ a.ordinal < b.ordinal ∨
      ∃ l r, a.key = some l ∧ b.key = some r ∧ if descending then r < l else l < r := by
  unfold less
  cases ha : a.key with
  | none =>
    cases hb : b.key with
    | none => simp
    | some r => simp
  | some l =>
    cases hb : b.key with
    | none => simp
    | some r =>
      dsimp only
      by_cases heq : l = r
      · subst heq
        cases descending <;> simp
      · cases descending <;> simp [heq]

theorem less_irrefl (a : Record ρ κ) : ¬less descending a a = true := by
  rw [less_iff]
  rintro (⟨h, h'⟩ | ⟨-, h⟩ | ⟨l, r, hl, hr, h⟩)
  · exact h h'
  · exact Nat.lt_irrefl _ h
  · rw [hl] at hr
    cases hr
    split at h <;> exact lt_irrefl _ h

theorem less_trans (hab : less descending a b = true) (hbc : less descending b c = true) :
    less descending a c = true := by
  rw [less_iff] at *
  rcases hab with ⟨ha, hb⟩ | ⟨hab, hlt⟩ | ⟨l, r, hl, hr, hlt⟩
  · rcases hbc with ⟨hb', -⟩ | ⟨hbc, -⟩ | ⟨l, r, hl, -, -⟩
    · exact absurd hb hb'
    · exact .inl ⟨ha, hbc ▸ hb⟩
    · rw [hb] at hl
      cases hl
  · rcases hbc with ⟨hb, hc⟩ | ⟨hbc, hlt'⟩ | ⟨l, r, hl, hr, hlt'⟩
    · exact .inl ⟨hab ▸ hb, hc⟩
    · exact .inr (.inl ⟨hab.trans hbc, Nat.lt_trans hlt hlt'⟩)
    · exact .inr (.inr ⟨l, r, hab.trans hl, hr, hlt'⟩)
  · rcases hbc with ⟨-, hc⟩ | ⟨hbc, -⟩ | ⟨l', r', hl', hr', hlt'⟩
    · exact .inl ⟨by rw [hl]; exact Option.some_ne_none l, hc⟩
    · exact .inr (.inr ⟨l, r, hl, hbc ▸ hr, hlt⟩)
    · rw [hr] at hl'
      cases hl'
      refine .inr (.inr ⟨l, r', hl, hr', ?_⟩)
      split at hlt
      · rename_i hd
        rw [if_pos hd] at hlt' ⊢
        exact lt_trans hlt' hlt
      · rename_i hd
        rw [if_neg hd] at hlt' ⊢
        exact lt_trans hlt hlt'

theorem less_total (h : a.ordinal ≠ b.ordinal) :
    less descending a b = true ∨ less descending b a = true := by
  have hord : a.ordinal < b.ordinal ∨ b.ordinal < a.ordinal := Nat.lt_or_gt_of_ne h
  rw [less_iff, less_iff]
  cases ha : a.key with
  | none =>
    cases hb : b.key with
    | none => exact hord.imp (fun h => .inr (.inl ⟨rfl, h⟩)) fun h => .inr (.inl ⟨rfl, h⟩)
    | some r => exact .inr (.inl ⟨Option.some_ne_none r, rfl⟩)
  | some l =>
    cases hb : b.key with
    | none => exact .inl (.inl ⟨Option.some_ne_none l, rfl⟩)
    | some r =>
      rcases lt_trichotomy l r with hlt | rfl | hgt
      · cases descending
        · exact .inl (.inr (.inr ⟨l, r, rfl, rfl, hlt⟩))
        · exact .inr (.inr (.inr ⟨r, l, rfl, rfl, hlt⟩))
      · exact hord.imp (fun h => .inr (.inl ⟨rfl, h⟩)) fun h => .inr (.inl ⟨rfl, h⟩)
      · cases descending
        · exact .inr (.inr (.inr ⟨r, l, rfl, rfl, hgt⟩))
        · exact .inl (.inr (.inr ⟨l, r, rfl, rfl, hgt⟩))

theorem less_asymm (h : less descending a b = true) : ¬less descending b a = true := fun h' =>
  less_irrefl a (less_trans h h')

/-- The records have ordinals of their own. -/
def Distinct (records : List (Record ρ κ)) : Prop := (records.map Record.ordinal).Nodup

/-- The records are in order. -/
def Ordered (descending : Bool) (records : List (Record ρ κ)) : Prop :=
  records.Pairwise fun a b => less descending a b = true

omit [LinearOrder κ] in
theorem Distinct.perm {l l' : List (Record ρ κ)} (h : Distinct l) (hp : l.Perm l') : Distinct l' :=
  (hp.map _).nodup_iff.1 h

omit [LinearOrder κ] in
theorem Distinct.ne {l l' : List (Record ρ κ)} (h : Distinct (l ++ l')) (ha : a ∈ l) (hb : b ∈ l') :
    a.ordinal ≠ b.ordinal := by
  unfold Distinct at h
  rw [List.map_append, List.nodup_append] at h
  exact h.2.2 _ (List.mem_map_of_mem ha) _ (List.mem_map_of_mem hb)

omit [LinearOrder κ] in
theorem Distinct.left {l l' : List (Record ρ κ)} (h : Distinct (l ++ l')) : Distinct l := by
  unfold Distinct at h ⊢
  rw [List.map_append, List.nodup_append] at h
  exact h.1

theorem sorted_perm [DecidableEq ρ] (records : List (Record ρ κ)) :
    (sorted descending records).Perm records := List.perm_insertionSort _ _

theorem insert_ordered : ∀ {records : List (Record ρ κ)}, Distinct (a :: records) →
    Ordered descending records →
    Ordered descending (records.orderedInsert (fun x y => ¬less descending y x) a)
  | [], _, _ => List.pairwise_singleton _ _
  | b :: records, hd, ho => by
    have hne : a.ordinal ≠ b.ordinal :=
      Distinct.ne (l := [a]) hd List.mem_cons_self List.mem_cons_self
    obtain ⟨hb, ho'⟩ := List.pairwise_cons.1 ho
    rw [List.orderedInsert]
    split
    · rename_i hle
      have hlt := (less_total hne).resolve_right hle
      refine List.pairwise_cons.2 ⟨fun c hc => ?_, ho⟩
      rcases List.mem_cons.1 hc with rfl | hc
      · exact hlt
      · exact less_trans hlt (hb c hc)
    · rename_i hle
      have hd' : Distinct (a :: records) := by
        unfold Distinct at hd ⊢
        rw [List.map_cons, List.map_cons, List.nodup_cons, List.nodup_cons] at hd
        rw [List.map_cons, List.nodup_cons]
        exact ⟨fun h => hd.1 (List.mem_cons_of_mem _ h), hd.2.2⟩
      refine List.pairwise_cons.2 ⟨fun c hc => ?_, insert_ordered hd' ho'⟩
      rcases List.mem_cons.1 ((List.perm_orderedInsert _ _ _).mem_iff.1 hc) with rfl | hc
      · exact not_not.1 hle
      · exact hb c hc

theorem sorted_ordered : ∀ {records : List (Record ρ κ)}, Distinct records →
    Ordered descending (sorted descending records)
  | [], _ => List.Pairwise.nil
  | a :: records, hd => by
    have hd' : Distinct records := by
      unfold Distinct at hd ⊢
      rw [List.map_cons, List.nodup_cons] at hd
      exact hd.2
    have hperm : (a :: records).Perm (a :: sorted descending records) :=
      (List.perm_insertionSort _ _).symm.cons a
    exact insert_ordered (hd.perm hperm) (sorted_ordered hd')

end Order

/-! ## Reading -/

/-- The lines that are taken off the buffer and the chunks to come, until both are empty. -/
inductive Lines (coding : Coding ρ κ χ β) : List (Except Thrown χ) → β → List (ℕ × ρ) → Prop
  | done {buffer : β} : coding.line buffer = .ok none → coding.isEmpty buffer = true →
      Lines coding [] buffer []
  | line {chunks : List (Except Thrown χ)} {buffer buffer' : β} {value : ℕ × ρ}
      {values : List (ℕ × ρ)} : coding.line buffer = .ok (some (value, buffer')) →
      Lines coding chunks buffer' values → Lines coding chunks buffer (value :: values)
  | chunk {chunks : List (Except Thrown χ)} {chunk : χ} {buffer buffer' : β}
      {values : List (ℕ × ρ)} : coding.line buffer = .ok none →
      coding.extend buffer chunk = .ok buffer' → Lines coding chunks buffer' values →
      Lines coding (.ok chunk :: chunks) buffer values

/-- What a line has of a record. -/
def Record.value (record : Record ρ κ) : ℕ × ρ := (record.ordinal, record.row)

variable {env : Env χ} {coding : Coding ρ κ χ β} {descending : Bool} {runs : List Run}

theorem fill_lines {run : Run} (hr : run ∈ runs) {chunks : List (Except Thrown χ)} {buffer : β}
    {values : List (ℕ × ρ)} (h : Lines coding chunks buffer values) :
    Calm runs (fill env coding run chunks buffer) fun found =>
      values = [] ∧ found = none ∨ ∃ value values' chunks' buffer', values = value :: values' ∧
        found = some (value, chunks', buffer') ∧ Lines coding chunks' buffer' values' := by
  induction h with
  | done hline hempty =>
    unfold fill
    rw [hline]
    refine Calm.bind (Calm.pure (P := fun a => a = none) rfl) ?_
    rintro _ rfl
    dsimp only
    rw [if_pos hempty]
    exact .pure (.inl ⟨rfl, rfl⟩)
  | @line chunks buffer buffer' value values hline hrest _ =>
    have hfound : Calm runs (pure (some (value, chunks, buffer')) :
        Sorter (Option ((ℕ × ρ) × List (Except Thrown χ) × β))) fun found =>
        value :: values = [] ∧ found = none ∨ ∃ value' values' chunks' buffer',
          value :: values = value' :: values' ∧ found = some (value', chunks', buffer') ∧
            Lines coding chunks' buffer' values' :=
      .pure (.inr ⟨value, values, chunks, buffer', rfl, rfl, hrest⟩)
    cases chunks with
    | nil =>
      unfold fill
      rw [hline]
      exact hfound
    | cons chunk chunks =>
      unfold fill
      rw [hline]
      exact hfound
  | chunk hline hextend _ ih =>
    unfold fill
    rw [hline]
    refine Calm.bind (Calm.pure (P := fun a => a = none) rfl) ?_
    rintro _ rfl
    refine (Calm.read hr).bind fun _ _ => ?_
    refine Calm.bind (Calm.pure (P := fun a => a = _) rfl) ?_
    rintro _ rfl
    refine (check_calm env runs).bind fun _ _ => ?_
    rw [hextend]
    refine Calm.bind (Calm.pure (P := fun a => a = _) rfl) ?_
    rintro _ rfl
    exact ih

/-- The chunks that a reader will read, for any answer of the storage. -/
def Reader.Chunks (env : Env χ) (reader : Reader χ β) (chunks : List (Except Thrown χ)) : Prop :=
  reader.chunks = some chunks ∨ reader.chunks = none ∧ ∃ k, chunks = env.read k reader.run.reference

/-- The record is the one that is made of its row. -/
def Made (coding : Coding ρ κ χ β) (record : Record ρ κ) : Prop :=
  coding.record record.row record.ordinal = .ok record

/-- The reader has these records to come. -/
structure Reader.Holds (env : Env χ) (coding : Coding ρ κ χ β) (reader : Reader χ β)
    (records : List (Record ρ κ)) : Prop where
  lines : ∀ chunks, reader.Chunks env chunks →
    Lines coding chunks reader.buffer (records.map Record.value)
  made : ∀ record ∈ records, Made coding record

theorem reader_next {reader : Reader χ β} {records : List (Record ρ κ)} (hr : reader.run ∈ runs)
    (h : reader.Holds env coding records) :
    Calm runs (reader.next env coding) fun found => records = [] ∧ found = none ∨
      ∃ record records' reader', records = record :: records' ∧ found = some (record, reader') ∧
        reader'.run = reader.run ∧ reader'.Holds env coding records' := by
  have hchunks : Calm runs (reader.chunksOf env) fun chunks => reader.Chunks env chunks := by
    unfold Reader.chunksOf
    cases hc : reader.chunks with
    | some chunks => exact .pure (.inl hc)
    | none =>
      exact (Calm.read hr).bind fun _ _ => (Calm.tick runs).bind fun k _ =>
        .pure (.inr ⟨hc, k, rfl⟩)
  unfold Reader.next
  refine hchunks.bind fun chunks hc => (fill_lines hr (h.lines chunks hc)).bind ?_
  rintro found (⟨hnil, rfl⟩ | ⟨value, values, chunks', buffer', heq, rfl, hrest⟩)
  · dsimp only
    split
    · exact .raise
    · exact .pure (.inl ⟨List.map_eq_nil_iff.1 hnil, rfl⟩)
  · obtain ⟨record, records', rfl, rfl, rfl⟩ := List.map_eq_cons_iff.1 heq
    refine Calm.get.bind fun s _ => ?_
    split
    · exact .raise
    · rw [show coding.record record.row record.ordinal = .ok record from
        h.made record List.mem_cons_self]
      refine Calm.bind (Calm.pure (P := fun a => a = record) rfl) ?_
      rintro _ rfl
      split
      · exact .raise
      · refine (check_calm env runs).bind fun _ _ => .pure (.inr ⟨_, records', _, rfl, rfl, rfl, ?_⟩)
        refine ⟨fun chunks hc => ?_, fun r hr => h.made r (List.mem_cons_of_mem _ hr)⟩
        rcases hc with hc | ⟨hc, -⟩
        · cases hc
          exact hrest
        · cases hc

/-! ## Merging -/

section Merging

variable [DecidableEq ρ] [LinearOrder κ]

/-- The entries of the heap are in order. -/
def HeapOrdered (descending : Bool) (heap : List (Record ρ κ × ℕ)) : Prop :=
  Ordered descending (heap.map Prod.fst)

theorem heappush_perm (entry : Record ρ κ × ℕ) (heap : List (Record ρ κ × ℕ)) :
    (heappush descending entry heap).Perm (entry :: heap) := List.perm_orderedInsert _ _ _

theorem heappush_ordered {entry : Record ρ κ × ℕ} : ∀ {heap : List (Record ρ κ × ℕ)},
    Distinct (entry.1 :: heap.map Prod.fst) → HeapOrdered descending heap →
    HeapOrdered descending (heappush descending entry heap)
  | [], _, _ => List.pairwise_singleton _ _
  | other :: heap, hd, ho => by
    have hne : entry.1.ordinal ≠ other.1.ordinal :=
      Distinct.ne (l := [entry.1]) hd List.mem_cons_self List.mem_cons_self
    obtain ⟨hother, ho'⟩ := List.pairwise_cons.1 ho
    have hentry : entryLess descending other entry = less descending other.1 entry.1 :=
      if_neg fun h => hne (congrArg Record.ordinal h.symm)
    unfold heappush
    rw [List.orderedInsert, hentry]
    split
    · rename_i hle
      have hlt := (less_total hne).resolve_right hle
      refine List.pairwise_cons.2 ⟨fun c hc => ?_, ho⟩
      rcases List.mem_cons.1 hc with rfl | hc
      · exact hlt
      · exact less_trans hlt (hother c hc)
    · rename_i hle
      have hd' : Distinct (entry.1 :: heap.map Prod.fst) := by
        unfold Distinct at hd ⊢
        rw [List.map_cons, List.map_cons, List.map_cons, List.nodup_cons, List.nodup_cons] at hd
        rw [List.map_cons, List.nodup_cons]
        exact ⟨fun h => hd.1 (List.mem_cons_of_mem _ h), hd.2.2⟩
      refine List.pairwise_cons.2 ⟨fun c hc => ?_, heappush_ordered hd' ho'⟩
      rcases List.mem_cons.1 (((heappush_perm entry heap).map _).mem_iff.1 hc) with rfl | hc
      · exact not_not.1 hle
      · exact hother c hc

/-- The readers and the records that each has to come, in order. -/
def Opened (env : Env χ) (coding : Coding ρ κ χ β) (descending : Bool) (runs : List Run) :
    List (Reader χ β) → List (List (Record ρ κ)) → Prop :=
  List.Forall₂ fun reader records =>
    reader.run ∈ runs ∧ reader.Holds env coding records ∧ Ordered descending records

/-- The reader `j` is at its end, or its next record is in the heap. -/
def Covered (descending : Bool) (heap : List (Record ρ κ × ℕ)) (j : ℕ)
    (records : List (Record ρ κ)) : Prop :=
  records = [] ∨ ∃ record, (record, j) ∈ heap ∧ ∀ b ∈ records, less descending record b = true

omit [DecidableEq ρ] in
theorem Covered.mono {heap heap' : List (Record ρ κ × ℕ)} {j : ℕ} {records : List (Record ρ κ)}
    (h : Covered descending heap j records) (hsub : ∀ e ∈ heap, e ∈ heap') :
    Covered descending heap' j records :=
  h.imp_right fun ⟨record, hm, hless⟩ => ⟨record, hsub _ hm, hless⟩

/-- What the heap has and what is to come. -/
def remaining (heap : List (Record ρ κ × ℕ)) (left : List (List (Record ρ κ))) :
    List (Record ρ κ) := heap.map Prod.fst ++ left.flatten

omit [DecidableEq ρ] [LinearOrder κ] in
theorem Distinct.heap {heap : List (Record ρ κ × ℕ)} {left : List (List (Record ρ κ))}
    (h : Distinct (remaining heap left)) : Distinct (heap.map Prod.fst) := h.left

theorem openReaders_opened : ∀ {readers : List (Reader χ β)} {left : List (List (Record ρ κ))}
    (index : ℕ) {heap : List (Record ρ κ × ℕ)}, Opened env coding descending runs readers left →
    HeapOrdered descending heap → Distinct (remaining heap left) →
    Calm runs (openReaders env coding descending readers index heap) fun r =>
      ∃ left', Opened env coding descending runs r.1 left' ∧ HeapOrdered descending r.2 ∧
        (remaining r.2 left').Perm (remaining heap left) ∧ (∀ e ∈ heap, e ∈ r.2) ∧
        ∀ (j : ℕ) (records : List (Record ρ κ)), left'[j]? = some records →
          Covered descending r.2 (index + j) records
  | [], _, index, heap, hopened, ho, _ => by
    cases hopened
    refine Calm.pure ⟨[], .nil, ho, .refl _, fun _ he => he, fun j records hj => ?_⟩
    rw [List.getElem?_nil] at hj
    cases hj
  | reader :: readers, _, index, heap, hopened, ho, hd => by
    obtain _ | @⟨_, records, _, left, ⟨hr, hholds, hord⟩, hrest⟩ := hopened
    unfold openReaders
    refine (reader_next hr hholds).bind ?_
    rintro found (⟨rfl, rfl⟩ | ⟨record, records', reader', rfl, rfl, hrun, hholds'⟩)
    · have hd' : Distinct (remaining heap left) := hd
      refine (openReaders_opened (index + 1) hrest ho hd').bind ?_
      rintro ⟨readers', heap'⟩ ⟨left', hopened, ho', hperm, hsub, hcover⟩
      refine .pure ⟨[] :: left', .cons ⟨hr, hholds, hord⟩ hopened, ho', hperm, hsub, ?_⟩
      intro j records hj
      cases j with
      | zero =>
        rw [List.getElem?_cons_zero] at hj
        exact .inl (Option.some.inj hj).symm
      | succ j =>
        rw [List.getElem?_cons_succ] at hj
        rw [← Nat.succ_add_eq_add_succ]
        exact hcover j records hj
    · obtain ⟨hrecord, hord'⟩ := List.pairwise_cons.1 hord
      have hpush := @heappush_perm _ _ descending _ _ (record, index) heap
      -- the record moves from its reader to the heap
      have hmove : (remaining (heappush descending (record, index) heap) (records' :: left)).Perm
          (remaining heap ((record :: records') :: left)) := by
        refine ((hpush.map _).append_right _).trans ?_
        exact List.perm_middle.symm
      have hd' : Distinct (remaining (heappush descending (record, index) heap) (records' :: left)) :=
        hd.perm hmove.symm
      have hd'' : Distinct (remaining (heappush descending (record, index) heap) left) := by
        refine @Distinct.left _ _ _ records' (hd'.perm ?_)
        refine (List.Perm.append_left _ List.perm_append_comm).trans ?_
        rw [← List.append_assoc]
        rfl
      have ho' : HeapOrdered descending (heappush descending (record, index) heap) :=
        heappush_ordered ((hd'.left).perm (hpush.map _)) ho
      refine (order_calm env runs).bind fun _ _ => ?_
      refine (openReaders_opened (index + 1) hrest ho' hd'').bind ?_
      rintro ⟨readers', heap'⟩ ⟨left', hopened, ho'', hperm, hsub, hcover⟩
      have hrecords : ∀ e ∈ (record, index) :: heap, e ∈ heap' := fun e he =>
        hsub e (hpush.mem_iff.2 he)
      refine .pure ⟨records' :: left', .cons ⟨hrun ▸ hr, hholds', hord'⟩ hopened, ho'', ?_,
        fun e he => hrecords e (List.mem_cons_of_mem _ he), ?_⟩
      · refine List.Perm.trans ?_ hmove
        have hswap : ∀ (heap : List (Record ρ κ × ℕ)) (left : List (List (Record ρ κ))),
            (remaining heap (records' :: left)).Perm (records' ++ remaining heap left) := by
          intro heap left
          unfold remaining
          rw [List.flatten_cons, ← List.append_assoc, ← List.append_assoc]
          exact List.perm_append_comm.append_right _
        exact (hswap _ _).trans ((hperm.append_left _).trans (hswap _ _).symm)
      · intro j records hj
        cases j with
        | zero =>
          rw [List.getElem?_cons_zero] at hj
          cases hj
          exact .inr ⟨record, hrecords _ List.mem_cons_self, hrecord⟩
        | succ j =>
          rw [List.getElem?_cons_succ] at hj
          rw [← Nat.succ_add_eq_add_succ]
          exact hcover j records hj

/-- A merge that has the records `all` to come. -/
structure Merge.Holds (env : Env χ) (coding : Coding ρ κ χ β) (descending : Bool)
    (runs : List Run) (m : Merge ρ κ χ β) (left : List (List (Record ρ κ)))
    (all : List (Record ρ κ)) : Prop where
  opened : Opened env coding descending runs m.readers left
  ordered : HeapOrdered descending m.heap
  perm : (remaining m.heap left).Perm all
  distinct : Distinct all
  cover : ∀ (j : ℕ) (records : List (Record ρ κ)), left[j]? = some records →
    m.refill = some j ∨ Covered descending m.heap j records

omit [DecidableEq ρ] in
theorem Opened.get {readers : List (Reader χ β)} {left : List (List (Record ρ κ))}
    (h : Opened env coding descending runs readers left) {j : ℕ} {reader : Reader χ β}
    (hj : readers[j]? = some reader) : ∃ records, left[j]? = some records ∧ reader.run ∈ runs ∧
      reader.Holds env coding records ∧ Ordered descending records := by
  induction h generalizing j with
  | nil =>
    rw [List.getElem?_nil] at hj
    cases hj
  | @cons first records readers left hfirst _ ih =>
    cases j with
    | zero =>
      rw [List.getElem?_cons_zero] at hj
      cases hj
      exact ⟨records, List.getElem?_cons_zero, hfirst⟩
    | succ j =>
      rw [List.getElem?_cons_succ] at hj ⊢
      exact ih hj

omit [DecidableEq ρ] in
theorem Opened.set {readers : List (Reader χ β)} {left : List (List (Record ρ κ))}
    (h : Opened env coding descending runs readers left) {reader : Reader χ β}
    {records : List (Record ρ κ)} (hr : reader.run ∈ runs) (hh : reader.Holds env coding records)
    (ho : Ordered descending records) (j : ℕ) :
    Opened env coding descending runs (readers.set j reader) (left.set j records) := by
  induction h generalizing j with
  | nil => exact .nil
  | cons hfirst hrest ih =>
    cases j with
    | zero => exact .cons ⟨hr, hh, ho⟩ hrest
    | succ j => exact .cons hfirst (ih j)

omit [DecidableEq ρ] [LinearOrder κ] in
theorem flatten_taken {left : List (List (Record ρ κ))} {j : ℕ} {record : Record ρ κ}
    {records : List (Record ρ κ)} (h : left[j]? = some (record :: records)) :
    left.flatten.Perm (record :: (left.set j records).flatten) := by
  induction left generalizing j with
  | nil =>
    rw [List.getElem?_nil] at h
    cases h
  | cons first left ih =>
    cases j with
    | zero =>
      rw [List.getElem?_cons_zero] at h
      cases h
      exact .refl _
    | succ j =>
      rw [List.getElem?_cons_succ] at h
      rw [List.set_cons_succ, List.flatten_cons, List.flatten_cons]
      exact ((ih h).append_left first).trans List.perm_middle

theorem merge_start {group : List Run} {content : ℕ → List (Record ρ κ)}
    (hw : ∀ run ∈ group, run ∈ runs)
    (hord : ∀ run ∈ group, Ordered descending (content run.reference))
    (hmade : ∀ run ∈ group, ∀ record ∈ content run.reference, Made coding record)
    (hlines : ∀ run ∈ group, ∀ k, Lines coding (env.read k run.reference) coding.empty
      ((content run.reference).map Record.value))
    (hd : Distinct (group.flatMap fun run => content run.reference)) :
    Calm runs (Merge.start env coding descending group) fun m =>
      ∃ left, m.Holds env coding descending runs left
        (group.flatMap fun run => content run.reference) := by
  have hopened : Opened env coding descending runs
      (group.map fun run => (⟨run, none, coding.empty, 0⟩ : Reader χ β))
      (group.map fun run => content run.reference) := by
    unfold Opened
    rw [List.forall₂_map_left_iff, List.forall₂_map_right_iff, List.forall₂_same]
    refine fun run hr => ⟨hw run hr, ⟨fun chunks hc => ?_, hmade run hr⟩, hord run hr⟩
    rcases hc with hc | ⟨-, k, rfl⟩
    · cases hc
    · exact hlines run hr k
  have hstart : remaining [] (group.map fun run => content run.reference)
      = group.flatMap fun run => content run.reference := by
    unfold remaining
    rw [List.map_nil, List.nil_append, List.flatMap_def]
  unfold Merge.start
  split
  · exact .raise
  · refine (reserve_calm env runs _).bind fun _ _ => ?_
    have hnone : HeapOrdered descending ([] : List (Record ρ κ × ℕ)) := List.Pairwise.nil
    refine (openReaders_opened 0 hopened hnone (hstart ▸ hd)).bind ?_
    rintro ⟨readers, heap⟩ ⟨left, hopened', ho, hperm, -, hcover⟩
    rw [hstart] at hperm
    refine .pure ⟨left, hopened', ho, hperm, hd, fun j records hj => .inr ?_⟩
    have := hcover j records hj
    rwa [Nat.zero_add] at this

theorem refilled_holds {m : Merge ρ κ χ β} {left : List (List (Record ρ κ))}
    {all : List (Record ρ κ)} (h : m.Holds env coding descending runs left all) :
    Calm runs (m.refilled env coding descending) fun m' =>
      m'.refill = none ∧ ∃ left', m'.Holds env coding descending runs left' all := by
  unfold Merge.refilled
  cases hfound : m.refill.bind fun index => (m.readers[index]?).map fun reader => (index, reader) with
  | none =>
    refine .pure ⟨rfl, left, h.opened, h.ordered, h.perm, h.distinct, fun j records hj => .inr ?_⟩
    rcases h.cover j records hj with hrefill | hcovered
    · -- no reader has the index of the last record
      rw [hrefill, Option.bind_some, Option.map_eq_none_iff, List.getElem?_eq_none_iff] at hfound
      have hlen := h.opened.length_eq
      have hlt : j < left.length := (List.getElem?_eq_some_iff.1 hj).1
      omega
    · exact hcovered
  | some found =>
    obtain ⟨index, reader⟩ := found
    obtain ⟨i, hrefill, hi⟩ := Option.bind_eq_some_iff.mp hfound
    obtain ⟨old, hold, heq⟩ := Option.map_eq_some_iff.mp hi
    cases heq
    obtain ⟨records, hleft, hr, hholds, hord⟩ := h.opened.get hold
    refine (reader_next hr hholds).bind ?_
    rintro found (⟨rfl, rfl⟩ | ⟨record, records', reader', rfl, rfl, hrun, hholds'⟩)
    · refine .pure ⟨rfl, left, h.opened, h.ordered, h.perm, h.distinct, fun j records hj => .inr ?_⟩
      rcases h.cover j records hj with hj' | hcovered
      · cases hrefill.symm.trans hj'
        exact .inl (Option.some.inj (hleft.symm.trans hj)).symm
      · exact hcovered
    · obtain ⟨hrecord, hord'⟩ := List.pairwise_cons.1 hord
      have hpush := @heappush_perm _ _ descending _ _ (record, index) m.heap
      have htaken := flatten_taken hleft
      have hall : (remaining (heappush descending (record, index) m.heap)
          (left.set index records')).Perm all := by
        refine List.Perm.trans ?_ h.perm
        refine ((hpush.map _).append_right _).trans ?_
        exact List.perm_middle.symm.trans (htaken.symm.append_left _)
      have hd : Distinct (remaining (heappush descending (record, index) m.heap)
          (left.set index records')) := h.distinct.perm hall.symm
      refine (order_calm env runs).bind fun _ _ => .pure ⟨rfl, left.set index records',
        h.opened.set (hrun ▸ hr) hholds' hord' index,
        heappush_ordered (hd.left.perm (hpush.map _)) h.ordered, hall, h.distinct,
        fun j records hj => .inr ?_⟩
      have hsub : ∀ e ∈ m.heap, e ∈ heappush descending (record, index) m.heap := fun e he =>
        hpush.mem_iff.2 (List.mem_cons_of_mem _ he)
      by_cases hij : index = j
      · subst hij
        rw [List.getElem?_set_self (List.getElem?_eq_some_iff.1 hleft).1] at hj
        cases hj
        exact .inr ⟨record, hpush.mem_iff.2 List.mem_cons_self, hrecord⟩
      · rw [List.getElem?_set_ne hij] at hj
        rcases h.cover j records hj with hj' | hcovered
        · exact absurd (Option.some.inj (hrefill.symm.trans hj')) hij
        · exact hcovered.mono hsub

theorem merge_next {m : Merge ρ κ χ β} {left : List (List (Record ρ κ))} {all : List (Record ρ κ)}
    (h : m.Holds env coding descending runs left all) :
    Calm runs (m.next env coding descending) fun found => all = [] ∧ found = none ∨
      ∃ record m' left' all', found = some (record, m') ∧ all.Perm (record :: all') ∧
        (∀ b ∈ all', less descending record b = true) ∧
        m'.Holds env coding descending runs left' all' := by
  unfold Merge.next
  refine (refilled_holds h).bind ?_
  rintro m₁ ⟨hrefill, left₁, h₁⟩
  rcases hheap : m₁.heap with _ | ⟨⟨record, index⟩, heap⟩
  · -- with nothing in the heap every reader is at its end
    refine .pure (.inl ⟨?_, rfl⟩)
    have hnil : left₁.flatten = [] := by
      refine List.flatten_eq_nil_iff.2 fun records hr => ?_
      obtain ⟨j, hj⟩ := List.getElem?_of_mem hr
      rcases h₁.cover j records hj with hj' | hnil | ⟨record, hm, -⟩
      · rw [hrefill] at hj'
        cases hj'
      · exact hnil
      · rw [hheap] at hm
        cases hm
    have hperm := h₁.perm
    unfold remaining at hperm
    rw [hheap, hnil] at hperm
    exact List.nil_perm.1 hperm
  · have hord := h₁.ordered
    unfold HeapOrdered at hord
    rw [hheap, List.map_cons] at hord
    obtain ⟨hfirst, hord'⟩ := List.pairwise_cons.1 hord
    have hperm : (record :: remaining heap left₁).Perm all := by
      have := h₁.perm
      unfold remaining at this
      rwa [hheap] at this
    have hd : Distinct (remaining heap left₁) := by
      have := h₁.distinct.perm hperm.symm
      unfold Distinct at this ⊢
      rw [List.map_cons, List.nodup_cons] at this
      exact this.2
    refine (check_calm env runs).bind fun _ _ => (order_calm env runs).bind fun _ _ => .pure (.inr
      ⟨record, _, left₁, remaining heap left₁, rfl, hperm.symm, fun b hb => ?_,
        h₁.opened, hord', .refl _, hd, fun j records hj => ?_⟩)
    · rcases List.mem_append.1 hb with hb | hb
      · exact hfirst b hb
      · -- the next record of its reader is in the heap
        obtain ⟨records, hr, hb⟩ := List.mem_flatten.1 hb
        obtain ⟨j, hj⟩ := List.getElem?_of_mem hr
        rcases h₁.cover j records hj with hj' | rfl | ⟨next, hm, hnext⟩
        · rw [hrefill] at hj'
          cases hj'
        · cases hb
        · rw [hheap] at hm
          rcases List.mem_cons.1 hm with heq | hm
          · cases heq
            exact hnext b hb
          · exact less_trans (hfirst next (List.mem_map_of_mem (f := Prod.fst) hm)) (hnext b hb)
    · rcases h₁.cover j records hj with hj' | hnil | ⟨next, hm, hnext⟩
      · rw [hrefill] at hj'
        cases hj'
      · exact .inr (.inl hnil)
      · rw [hheap] at hm
        rcases List.mem_cons.1 hm with heq | hm
        · cases heq
          exact .inl rfl
        · exact .inr (.inr ⟨next, hm, hnext⟩)

/-- The runs have these contents, and the storage returns them. -/
structure Stored (env : Env χ) (coding : Coding ρ κ χ β) (descending : Bool)
    (content : ℕ → List (Record ρ κ)) (good : ρ → Prop) (run : Run) : Prop where
  ordered : Ordered descending (content run.reference)
  made : ∀ record ∈ content run.reference, Made coding record ∧ good record.row
  lines : ∀ k, Lines coding (env.read k run.reference) coding.empty
    ((content run.reference).map Record.value)
  count : (content run.reference).length = run.rowCount

/-- The contents of the runs, one after the other. -/
def contents (content : ℕ → List (Record ρ κ)) (group : List Run) : List (Record ρ κ) :=
  group.flatMap fun run => content run.reference

/-- What is written out or merged has the records `all` to come. -/
def Source.Holds (env : Env χ) (coding : Coding ρ κ χ β) (descending : Bool)
    (content : ℕ → List (Record ρ κ)) (good : ρ → Prop) (runs : List Run)
    (all : List (Record ρ κ)) :
    Source ρ κ χ β → Prop
  | .pending records => records = all ∧ Ordered descending records
  | .group members => (∀ run ∈ members, run ∈ runs ∧ Stored env coding descending content good run) ∧
      contents content members = all ∧ Distinct all
  | .merging m => ∃ left, m.Holds env coding descending runs left all

variable {content : ℕ → List (Record ρ κ)} {good : ρ → Prop}

theorem source_next {source : Source ρ κ χ β} {all : List (Record ρ κ)}
    (h : source.Holds env coding descending content good runs all) :
    Calm runs (source.next env coding descending) fun found => all = [] ∧ found = none ∨
      ∃ record source' all', found = some (record, source') ∧ all.Perm (record :: all') ∧
        (∀ b ∈ all', less descending record b = true) ∧
        source'.Holds env coding descending content good runs all' := by
  have hmerge : ∀ {m : Merge ρ κ χ β} {left : List (List (Record ρ κ))},
      m.Holds env coding descending runs left all →
      ∀ {f : Record ρ κ × Merge ρ κ χ β → Record ρ κ × Source ρ κ χ β},
        (∀ record m, f (record, m) = (record, .merging m)) →
        Calm runs (do
          let r ← m.next env coding descending
          pure (r.map f)) fun found => all = [] ∧ found = none ∨
          ∃ record source' all', found = some (record, source') ∧ all.Perm (record :: all') ∧
            (∀ b ∈ all', less descending record b = true) ∧
            source'.Holds env coding descending content good runs all' := by
    intro m left hm f hf
    refine (merge_next hm).bind ?_
    rintro found (⟨hnil, rfl⟩ | ⟨record, m', left', all', rfl, hperm, hless, hm'⟩)
    · exact .pure (.inl ⟨hnil, rfl⟩)
    · refine .pure (.inr ⟨record, .merging m', all', ?_, hperm, hless, left', hm'⟩)
      rw [Option.map_some, hf]
  rcases source with records | group | m
  · obtain ⟨rfl, hord⟩ := h
    rcases records with _ | ⟨record, records⟩
    · exact .pure (.inl ⟨rfl, rfl⟩)
    · obtain ⟨hless, hord'⟩ := List.pairwise_cons.1 hord
      exact .pure (.inr ⟨record, .pending records, records, rfl, .refl _, hless, rfl, hord'⟩)
  · obtain ⟨hruns, rfl, hd⟩ := h
    unfold Source.next
    refine (@merge_start _ _ _ _ _ _ _ _ _ _ _ content (fun run hr => (hruns run hr).1)
      (fun run hr => (hruns run hr).2.ordered)
      (fun run hr record hm => ((hruns run hr).2.made record hm).1)
      (fun run hr => (hruns run hr).2.lines) hd).bind ?_
    rintro m ⟨left, hm⟩
    exact hmerge hm fun _ _ => rfl
  · obtain ⟨left, hm⟩ := h
    exact hmerge hm fun _ _ => rfl

/-- The records behind the `lines` that a write asks for. -/
def yielded (env : Env χ) (coding : Coding ρ κ χ β) (descending : Bool) :
    ℕ → Source ρ κ χ β → Sorter (List (Record ρ κ))
  | 0, _ => pure []
  | pulls + 1, source => do
    match ← source.next env coding descending with
    | none => pure []
    | some (record, source) =>
      check env
      let records ← yielded env coding descending pulls source
      pure (record :: records)

theorem yielded_ordered : ∀ (pulls : ℕ) {source : Source ρ κ χ β} {all : List (Record ρ κ)},
    source.Holds env coding descending content good runs all →
    Calm runs (yielded env coding descending pulls source) fun records =>
      ∃ rest, all.Perm (records ++ rest) ∧ Ordered descending records
  | 0, _, all, _ => .pure ⟨all, .refl _, List.Pairwise.nil⟩
  | pulls + 1, source, all, h => by
    unfold yielded
    refine (source_next h).bind ?_
    rintro found (⟨rfl, rfl⟩ | ⟨record, source', all', rfl, hperm, hless, h'⟩)
    · exact .pure ⟨[], .refl _, List.Pairwise.nil⟩
    · refine (check_calm env runs).bind fun _ _ => (yielded_ordered pulls h').bind ?_
      rintro records ⟨rest, hrest, hord⟩
      refine .pure ⟨rest, hperm.trans (hrest.cons record), List.pairwise_cons.2 ⟨fun b hb => ?_, hord⟩⟩
      exact hless b (hrest.mem_iff.2 (List.mem_append_left _ hb))

end Merging

end Sorting
