import EngPlatform.Lib.JsonText
import EngPlatform.Lib.Prog
import EngPlatform.Sorting.Stable

/-!
# The rows of a sort as they are stored

A record is stored as a line of JSON and read from chunks that may end anywhere. Whatever they are,
the records come out as they were written (`lines_of_chunks`), so that a sort whose storage returns
the bytes it was given delivers the captured rows in order (`rows_sorted`).
-/

set_option linter.dupNamespace false

namespace Sorting

open Effects JsonText CodePoints

variable {κ : Type}

/-! ## The record of a row -/

def maxCellBytes : ℕ := 16384
def maxRowBytes : ℕ := 65536

/-- `type(cell) in {str, int, bool, type(None)}`. -/
def isCell : Json → Bool
  | .list _ => false
  | .dict _ => false
  | _ => true

/-- `_encode` of a cell; an integer with too many digits raises. -/
def encodeCell : Json → Except Thrown Text
  | .int n => if Short n then .ok (dumpsInt n) else .error .other
  | cell => .ok (dumps cell)

def checkCells : List Json → Except Thrown PUnit
  | [] => .ok ⟨⟩
  | cell :: cells => do
    let encoded ← encodeCell cell
    if encoded.length > maxCellBytes then
      .error (.known (.resourceExceeded "Database sort cell size budget exceeded"))
    else checkCells cells

/-- `_encode({"ordinal": ordinal, "row": row}) + b"\n"`. -/
def rawLine (ordinal : ℕ) (row : Json) : Text :=
  dumps (.dict [(text "ordinal", .int ordinal), (text "row", row)]) ++ [10]

/-- `_row_record`; `valueKey` is `_value_key` for the type of the selected column. -/
def rowRecord (width selected : ℕ) (valueKey : Json → Except Thrown (Option κ)) (row : Json)
    (ordinal : ℕ) : Except Thrown (Record Json κ) :=
  match row with
  | .list cells => do
    if cells.length ≠ width then
      .error (.known (.unavailable "Invalid database sort row"))
    else if ¬cells.all isCell then
      .error (.known (.resourceExceeded "Unsupported database sort value"))
    else
      checkCells cells
      if (dumps row).length + 1 > maxRowBytes then
        .error (.known (.resourceExceeded "Database sort row size budget exceeded"))
      else
        match cells[selected]? with
        | none => .error .other
        | some cell =>
          let key ← valueKey cell
          if ¬Short ordinal then .error .other
          else if (rawLine ordinal row).length > maxRecordBytes then
            .error (.known (.resourceExceeded "Database sort record size budget exceeded"))
          else
            .ok ⟨ordinal, row, key, (rawLine ordinal row).length * 8 + width * 128 + 1024⟩
  | _ => .error (.known (.unavailable "Invalid database sort row"))

/-- The ordinal and the row of what a line was loaded as. -/
def recordOf : Json → Option (ℕ × Json)
  | .dict members =>
    match members.lookup (text "ordinal"), members.lookup (text "row") with
    | some (.int (.ofNat ordinal)), some row =>
      if members.all fun m => m.1 = text "ordinal" ∨ m.1 = text "row" then some (ordinal, row)
      else none
    | _, _ => none
  | _ => none

/-- The next line of the buffer, and what it is loaded as. -/
def takeLine (buffer : Text) : Except Thrown (Option ((ℕ × Json) × Text)) :=
  if 10 ∈ buffer then
    let line := buffer.takeWhile (· ≠ 10)
    if line.length + 1 > maxRecordBytes then
      .error (.known (.resourceExceeded "Database sort record size budget exceeded"))
    else
      match loads line with
      | none => .error .other
      | some value =>
        match recordOf value with
        | none => .error (.known (.unavailable "Invalid database sort record"))
        | some record => .ok (some (record, buffer.drop (line.length + 1)))
  else if buffer.length ≥ maxRecordBytes then
    .error (.known (.resourceExceeded "Database sort record size budget exceeded"))
  else .ok none

def extendBuffer (buffer chunk : Text) : Except Thrown Text :=
  if chunk.length > readChunkBytes then
    .error (.known (.resourceExceeded "Database sort read budget exceeded"))
  else .ok (buffer ++ chunk)

/-- Rows as lines of JSON. -/
def rowCoding (width selected : ℕ) (valueKey : Json → Except Thrown (Option κ)) :
    Coding Json κ Text Text where
  record := rowRecord width selected valueKey
  encoded row := (dumps row).length
  empty := []
  extend := extendBuffer
  line := takeLine
  isEmpty buffer := buffer.isEmpty

/-! ## Reading what was written -/

variable {width selected : ℕ} {valueKey : Json → Except Thrown (Option κ)}

/-- What is known of a record that could be made. -/
theorem rowRecord_ok {row : Json} {ordinal : ℕ} {record : Record Json κ}
    (h : rowRecord width selected valueKey row ordinal = .ok record) :
    record.row = row ∧ record.ordinal = ordinal ∧ Short ordinal ∧
      (rawLine ordinal row).length ≤ maxRecordBytes := by
  unfold rowRecord at h
  cases row with
  | list cells =>
    dsimp only at h
    by_cases hwidth : cells.length ≠ width
    · rw [if_pos hwidth] at h
      cases h
    by_cases hcells : ¬cells.all isCell = true
    · rw [if_neg hwidth, if_pos hcells] at h
      cases h
    rw [if_neg hwidth, if_neg hcells] at h
    obtain ⟨_, -, h⟩ := Interleave.bind_ok.1 h
    by_cases hrow : (dumps (.list cells)).length + 1 > maxRowBytes
    · rw [if_pos hrow] at h
      cases h
    rw [if_neg hrow] at h
    cases hcell : cells[selected]? with
    | none =>
      rw [hcell] at h
      cases h
    | some cell =>
      rw [hcell] at h
      obtain ⟨key, -, h⟩ := Interleave.bind_ok.1 h
      by_cases hshort : Short ordinal
      · by_cases hraw : (rawLine ordinal (.list cells)).length > maxRecordBytes
        · rw [if_neg (not_not.2 hshort), if_pos hraw] at h
          cases h
        · rw [if_neg (not_not.2 hshort), if_neg hraw] at h
          cases h
          exact ⟨rfl, rfl, hshort, Nat.le_of_not_gt hraw⟩
      · rw [if_pos hshort] at h
        cases h
  | _ => cases h

theorem rowCoding_lawful : (rowCoding width selected valueKey).Lawful := fun _ _ _ h =>
  ⟨(rowRecord_ok h).1, (rowRecord_ok h).2.1⟩

theorem rawLine_eq (ordinal : ℕ) (row : Json) : ∃ line : Text, rawLine ordinal row = line ++ [10] ∧
    10 ∉ line ∧ (Short ordinal → Loadable row → (loads line).bind recordOf = some (ordinal, row)) := by
  refine ⟨_, rfl, fun h => ?_, fun hs hrow => ?_⟩
  · have := List.all_eq_true.1 (printable_dumps _) _ h
    cases this
  · have hkeys : [text "ordinal", text "row"].Nodup := by decide
    have hload : Loadable (.dict [(text "ordinal", .int ordinal), (text "row", row)]) :=
      ⟨hkeys, plain_of_ascii (by decide), hs, plain_of_ascii (by decide), hrow, trivial⟩
    have hloads := @loads_dumps _ hload [] (fun c hc => by cases hc) rfl
    rw [List.append_nil] at hloads
    rw [hloads]
    rfl

/-- A line that is in the buffer is at its front. -/
theorem cut_line {line buffer rest more : Text} (hline : 10 ∉ line) (hbuffer : 10 ∈ buffer)
    (h : buffer ++ more = line ++ 10 :: rest) :
    ∃ buffer', buffer = line ++ 10 :: buffer' ∧ buffer' ++ more = rest := by
  rcases List.append_eq_append_iff.1 h with ⟨l, rfl, hmore⟩ | ⟨l, rfl, hrest⟩
  · exact absurd (List.mem_append_left l hbuffer) hline
  · cases l with
    | nil =>
      rw [List.append_nil] at hbuffer
      exact absurd hbuffer hline
    | cons c l =>
      cases hrest
      exact ⟨l, rfl, rfl⟩

theorem takeWhile_line {line rest : Text} (hline : 10 ∉ line) :
    (line ++ 10 :: rest).takeWhile (· ≠ 10) = line := by
  rw [List.takeWhile_append_of_pos fun c hc => ?_]
  · rw [List.takeWhile_cons_of_neg (by simp), List.append_nil]
  · exact decide_eq_true fun h => hline (h ▸ hc)

/-- The line of a record is taken off the buffer. -/
theorem takeLine_raw {record : Record Json κ} {buffer : Text}
    (hmade : Made (rowCoding width selected valueKey) record) (hrow : Loadable record.row) :
    takeLine (rawLine record.ordinal record.row ++ buffer) = .ok (some (record.value, buffer)) := by
  obtain ⟨-, -, hshort, hsize⟩ := rowRecord_ok hmade
  obtain ⟨line, hraw, hnot, hload⟩ := rawLine_eq record.ordinal record.row
  have hrecord := hload hshort hrow
  have hlen : line.length + 1 ≤ maxRecordBytes := by
    rw [hraw, List.length_append] at hsize
    exact hsize
  rw [hraw, List.append_assoc, List.singleton_append]
  have hmem : 10 ∈ line ++ 10 :: buffer := List.mem_append_right _ List.mem_cons_self
  unfold takeLine
  rw [if_pos hmem]
  dsimp only
  rw [takeWhile_line hnot, if_neg (Nat.not_lt.2 hlen)]
  cases hloads : loads line with
  | none =>
    rw [hloads] at hrecord
    cases hrecord
  | some value =>
    rw [hloads, Option.bind_some] at hrecord
    dsimp only
    rw [hrecord]
    have hdrop : (line ++ 10 :: buffer).drop (line.length + 1) = buffer := by
      rw [← List.drop_drop, List.drop_left]
      rfl
    dsimp only
    rw [hdrop]
    rfl

/-- The bytes that are written of a run. -/
def bytes (records : List (Record Json κ)) : Text :=
  records.flatMap fun record => rawLine record.ordinal record.row

/-- A buffer without a line is short. -/
theorem takeLine_none {records : List (Record Json κ)} {buffer more : Text}
    (hmade : ∀ record ∈ records, Made (rowCoding width selected valueKey) record)
    (hbuffer : 10 ∉ buffer) (h : buffer ++ more = bytes records) : takeLine buffer = .ok none := by
  have hlen : buffer.length < maxRecordBytes := by
    cases records with
    | nil =>
      rw [(List.append_eq_nil_iff.1 h).1]
      decide
    | cons record records =>
      obtain ⟨-, -, -, hsize⟩ := rowRecord_ok (hmade record List.mem_cons_self)
      obtain ⟨line, hraw, hnot, -⟩ := rawLine_eq record.ordinal record.row
      unfold bytes at h
      rw [List.flatMap_cons, hraw, List.append_assoc, List.singleton_append] at h
      rw [hraw, List.length_append, List.length_singleton] at hsize
      rcases List.append_eq_append_iff.1 h with ⟨l, hl, -⟩ | ⟨l, rfl, hl⟩
      · rw [hl, List.length_append] at hsize
        omega
      · cases l with
        | nil =>
          rw [List.append_nil]
          omega
        | cons c l =>
          have hc : 10 = c := (List.cons.inj hl).1
          exact absurd (List.mem_append_right line (hc ▸ List.mem_cons_self)) hbuffer
  unfold takeLine
  rw [if_neg hbuffer, if_neg (Nat.not_le.2 hlen)]

/-- Lines are taken off the buffer while there are any. -/
theorem lines_of_buffer {chunks : List (Except Thrown Text)} {more : Text}
    (hrest : ∀ {records : List (Record Json κ)} {buffer : Text},
      (∀ record ∈ records, Made (rowCoding width selected valueKey) record ∧ Loadable record.row) →
      buffer ++ more = bytes records → 10 ∉ buffer →
      Lines (rowCoding width selected valueKey) chunks buffer (records.map Record.value)) :
    ∀ {records : List (Record Json κ)} {buffer : Text},
      (∀ record ∈ records, Made (rowCoding width selected valueKey) record ∧ Loadable record.row) →
      buffer ++ more = bytes records →
      Lines (rowCoding width selected valueKey) chunks buffer (records.map Record.value)
  | [], buffer, hr, h => by
    refine hrest hr h ?_
    rw [(List.append_eq_nil_iff.1 h).1]
    exact List.not_mem_nil
  | record :: records, buffer, hr, h => by
    by_cases hbuffer : 10 ∈ buffer
    · obtain ⟨line, hraw, hnot, -⟩ := rawLine_eq record.ordinal record.row
      have hbytes : bytes (record :: records) = line ++ 10 :: bytes records := by
        unfold bytes
        rw [List.flatMap_cons, hraw, List.append_assoc, List.singleton_append]
      obtain ⟨buffer', rfl, hmore⟩ := cut_line hnot hbuffer (h.trans hbytes)
      obtain ⟨hmade, hrow⟩ := hr record List.mem_cons_self
      refine .line ?_
        (lines_of_buffer hrest (fun r hr' => hr r (List.mem_cons_of_mem _ hr')) hmore)
      have := @takeLine_raw _ _ _ _ record buffer' hmade hrow
      rw [hraw, List.append_assoc, List.singleton_append] at this
      exact this
    · exact hrest hr h hbuffer

/-- However the bytes of the records are cut into chunks, the lines are the records. -/
theorem lines_of_chunks : ∀ {chunks : List Text}, (∀ chunk ∈ chunks, chunk.length ≤ readChunkBytes) →
    ∀ {records : List (Record Json κ)} {buffer : Text},
      (∀ record ∈ records, Made (rowCoding width selected valueKey) record ∧ Loadable record.row) →
      buffer ++ chunks.flatten = bytes records →
      Lines (rowCoding width selected valueKey) (chunks.map .ok) buffer (records.map Record.value)
  | [], _, _, _, hr, h => by
    refine lines_of_buffer (fun {records buffer} hr h hbuffer => ?_) hr h
    have hnone := takeLine_none (fun r hr' => (hr r hr').1) hbuffer h
    cases records with
    | nil => exact .done hnone (List.isEmpty_iff.2 (List.append_eq_nil_iff.1 h).1)
    | cons record records =>
      obtain ⟨line, hraw, -, -⟩ := rawLine_eq record.ordinal record.row
      rw [List.flatten_nil, List.append_nil] at h
      refine absurd ?_ hbuffer
      rw [h]
      unfold bytes
      rw [List.flatMap_cons, hraw, List.append_assoc]
      exact List.mem_append_right _ (List.mem_append_left _ List.mem_cons_self)
  | chunk :: chunks, hsize, _, _, hr, h => by
    refine lines_of_buffer (fun {records buffer} hr h hbuffer => ?_) hr h
    have hextend : extendBuffer buffer chunk = .ok (buffer ++ chunk) :=
      if_neg (Nat.not_lt.2 (hsize chunk List.mem_cons_self))
    refine .chunk (takeLine_none (fun r hr' => (hr r hr').1) hbuffer h) hextend ?_
    refine lines_of_chunks (fun c hc => hsize c (List.mem_cons_of_mem _ hc)) hr ?_
    rw [List.append_assoc]
    exact h

/-! ## The sort -/

/-- The storage keeps the bytes that a run was written with, and returns them in chunks. -/
def Kept (env : Env Text) (content : ℕ → List (Record Json κ)) (d : Data Json κ) : Prop :=
  ∀ e ∈ d.written, content e.1 = e.2 ∧ ∀ k, ∃ chunks : List Text,
    env.read k e.1 = chunks.map .ok ∧ (∀ chunk ∈ chunks, chunk.length ≤ readChunkBytes) ∧
      chunks.flatten = bytes e.2

theorem Kept.returned {env : Env Text} {content : ℕ → List (Record Json κ)} {d : Data Json κ}
    (h : Kept env content d) : Returned env (rowCoding width selected valueKey) content Loadable d := by
  refine fun e he => ⟨(h e he).1, fun hr k => ?_⟩
  obtain ⟨chunks, hread, hsize, hbytes⟩ := (h e he).2 k
  rw [hread]
  exact lines_of_chunks hsize hr hbytes

/-- A sort that succeeds delivers the captured rows, each once and unchanged, in the order of their
keys and of the capture where these are equal, if the storage returned the bytes of every run. -/
theorem rows_sorted [LinearOrder κ] {env : Env Text} {descending : Bool}
    {rows : List (Except Thrown Json)} {report : Report} {s : State}
    (hrows : ∀ row, .ok row ∈ rows → Loadable row)
    (h : sortRows env (rowCoding width selected valueKey) descending rows = .ok (report, s)) :
    ∃ d, Tracked.sortCapture env (rowCoding width selected valueKey) descending rows
        (.initial, ⟨[], []⟩) = .ok (report, s, d) ∧
      ∀ content, Kept env content d → ∃ records out,
        Numbered (rowCoding width selected valueKey) rows records ∧ out.Perm records ∧
        Ordered descending out ∧ d.delivered = out.map Record.row ∧
        report.rowCount = records.length := by
  obtain ⟨d, htracked, hd⟩ := rows_delivered_in_order rowCoding_lawful hrows h
  exact ⟨d, htracked, fun content hkept => hd content hkept.returned⟩

/-- A column of integers, captured as three rows. -/
def demoCoding : Coding Json ℤ Text Text := rowCoding 2 0 fun cell =>
  match cell with
  | .null => .ok none
  | .int n => .ok (some n)
  | _ => .error .other

def demoRows : List (Except Thrown Json) :=
  [.ok (.list [.int 2, .str [233]]), .ok (.list [.null, .bool true]), .ok (.list [.int 1, .null])]

def demoRun : List (Record Json ℤ) :=
  [⟨2, .list [.int 1, .null], some 1, 1512⟩, ⟨0, .list [.int 2, .str [233]], some 2, 1544⟩,
    ⟨1, .list [.null, .bool true], none, 1536⟩]

/-- The bytes of the run come in two chunks. -/
def demoEnv : Env Text where
  check := fun _ => none
  orders := fun _ => 1
  pulls := fun _ => 4
  write := fun _ => none
  isDict := fun _ => true
  size := fun _ => 100
  read := fun _ _ => [.ok ((bytes demoRun).take 40), .ok ((bytes demoRun).drop 40)]
  deliver := fun _ => none
  delete := fun _ => none

@[irreducible]
def demoSorted : Report × State × Data Json ℤ :=
  (Tracked.sortCapture demoEnv demoCoding false demoRows (.initial, ⟨[], []⟩)).toOption.getD
    (⟨0, 0, 0, 0, 0⟩, .initial, ⟨[], []⟩)

theorem demo_tracked : Tracked.sortCapture demoEnv demoCoding false demoRows (.initial, ⟨[], []⟩)
    = .ok demoSorted := by
  unfold demoSorted
  exact Interleave.ok_getD (by decide +kernel)

theorem demo_sorted : sortRows demoEnv demoCoding false demoRows
    = .ok (demoSorted.1, demoSorted.2.1) := by
  have h := @sortCapture_erases _ _ _ _ demoEnv demoCoding false _ _ demoRows .initial ⟨[], []⟩
  rw [demo_tracked] at h
  unfold sortRows
  rw [← h]
  rfl

theorem demo_written : demoSorted.2.2.written = [(0, demoRun)] := by
  unfold demoSorted
  decide +kernel

theorem demo_kept : Kept demoEnv (fun _ => demoRun) demoSorted.2.2 := by
  intro e he
  rw [demo_written] at he
  rw [List.mem_singleton.1 he]
  refine ⟨rfl, fun _ => ⟨[(bytes demoRun).take 40, (bytes demoRun).drop 40], rfl, ?_, ?_⟩⟩
  · decide +kernel
  · rw [List.flatten_cons, List.flatten_singleton, List.take_append_drop]

theorem demo_loadable : ∀ row, .ok row ∈ demoRows → Loadable row := by
  simp [demoRows, LoadableItems, Loadable, Plain, Short, maxDigits, high]
  decide

theorem rows_sorted_demo : ∃ records out, Numbered demoCoding demoRows records ∧
    out.Perm records ∧ Ordered false out ∧ demoSorted.2.2.delivered = out.map Record.row := by
  obtain ⟨d, hd, hall⟩ := rows_sorted demo_loadable demo_sorted
  have hdata : d = demoSorted.2.2 :=
    congrArg (fun t => t.2.2) (Except.ok.inj (hd.symm.trans demo_tracked))
  rw [hdata] at hall
  obtain ⟨records, out, hn, hperm, hord, hdelivered, -⟩ := hall _ demo_kept
  exact ⟨records, out, hn, hperm, hord, hdelivered⟩

end Sorting
