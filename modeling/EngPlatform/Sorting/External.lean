import EngPlatform.Lib.Effects
import EngPlatform.Sorting.Temporal
import Mathlib.Data.List.Sort

/-!
# The external sort

The rows of a capture are sorted in runs. A run is written out when the rows that wait would not fit
its memory; eight runs of a level are merged into one of the next. What is left at the end is merged
down to eight runs and from these into the output.

What a run is stored as, what a chunk of it holds and what a row encodes to is left to a `Coding`;
when a call raises, and what it answers, to an `Env`.
-/

set_option linter.dupNamespace false

namespace Sorting

open Effects

/-- What the code or a callback raises. -/
inductive Thrown
  | known (x : Raised)
  | http (status : ℕ) (detail : String)
  | other
  deriving DecidableEq

/-- `depth` is raised by no code: it is a recursion that is not followed further. -/
inductive Failure
  | thrown (x : Thrown)
  | depth
  deriving DecidableEq

/-- `_Record`, with what it is compared by. -/
structure Record (ρ κ : Type) where
  ordinal : ℕ
  row : ρ
  key : Option κ
  cost : ℕ
  deriving DecidableEq

/-- `_Run`: the reference stands for what the call that wrote the run has returned. -/
structure Run where
  reference : ℕ
  rowCount : ℕ
  level : ℕ
  deriving DecidableEq

/-- What happens to the stored runs. A run is written with the runs that it replaces. -/
inductive Event
  | wrote (run : Run) (replaces : List Run)
  | read (reference : ℕ)
  | delivered (rows : ℕ)
  | deleted (reference : ℕ)
  deriving DecidableEq

/-- The history is newest first and has the number of levels at the time of each event. -/
structure State where
  calls : ℕ
  levels : List (List Run)
  runCount : ℕ
  mergePasses : ℕ
  memoryPeak : ℕ
  rowCount : ℕ
  byteCount : ℕ
  history : List (Event × ℕ)

abbrev Sorter (α : Type) : Type := Eff State Failure α

structure Report where
  rowCount : ℕ
  bytes : ℕ
  runCount : ℕ
  mergePasses : ℕ
  memoryPeakBytes : ℕ

/-- What is stored: `record` is `_row_record`, `line` takes the next line off the buffer and decodes
it, with the budgets on its length, and `extend` adds a chunk. -/
structure Coding (ρ κ χ β : Type) where
  record : ρ → ℕ → Except Thrown (Record ρ κ)
  encoded : ρ → ℕ
  empty : β
  extend : β → χ → Except Thrown β
  line : β → Except Thrown (Option ((ℕ × ρ) × β))
  isEmpty : β → Bool

/-- What the callbacks do at each call: `orders` is how often an ordering checks, `pulls` how many
lines a write asks for, `isDict` whether it returns a reference, and `size` how long this is. -/
structure Env (χ : Type) where
  check : ℕ → Option Thrown
  orders : ℕ → ℕ
  pulls : ℕ → ℕ
  write : ℕ → Option Thrown
  isDict : ℕ → Bool
  size : ℕ → ℕ
  read : ℕ → ℕ → List (Except Thrown χ)
  deliver : ℕ → Option Thrown
  delete : ℕ → Option Thrown

def maxRecordBytes : ℕ := 65536 + 128
def maxColumns : ℕ := 100
def readChunkBytes : ℕ := 1048576
def memoryBytes : ℕ := 32 * 1048576
def runMemoryBytes : ℕ := 8 * 1048576
def mergeFanIn : ℕ := 8
def batchRows : ℕ := 16

variable {ρ κ χ β : Type} (env : Env χ) (coding : Coding ρ κ χ β) (descending : Bool)

/-! ## The callbacks -/

def tick : Sorter ℕ := do
  let s ← get
  set { s with calls := s.calls + 1 }
  pure s.calls

def raise {α : Type} (x : Thrown) : Sorter α := throw (.thrown x)

def resourceExceeded {α : Type} (detail : String) : Sorter α := raise (.known (.resourceExceeded detail))

def unavailable {α : Type} (detail : String) : Sorter α := raise (.known (.unavailable detail))

def attempt {α : Type} : Except Thrown α → Sorter α
  | .ok a => pure a
  | .error x => raise x

def log (e : Event) : Sorter PUnit :=
  modify fun s => { s with history := (e, s.levels.length) :: s.history }

def check : Sorter PUnit := do
  let k ← tick
  match env.check k with
  | some x => raise x
  | none => pure ⟨⟩

/-- The comparisons of an ordering, which check now and then. -/
def order : Sorter PUnit := do
  let k ← tick
  (List.replicate (env.orders k) ()).forM fun _ => check env

def deleteRun (run : Run) : Sorter PUnit := do
  let k ← tick
  match env.delete k with
  | some x => raise x
  | none => log (.deleted run.reference)

def onRows (batch : List ρ) : Sorter PUnit := do
  let k ← tick
  match env.deliver k with
  | some x => raise x
  | none => log (.delivered batch.length)

/-! ## The order of the records -/

section Order

variable [DecidableEq ρ] [DecidableEq κ] [LT κ] [DecidableLT κ]

/-- `_Order.less`: nulls last in both directions, and equal keys by the ordinal. -/
def less (left right : Record ρ κ) : Bool :=
  match left.key, right.key with
  | none, none => left.ordinal < right.ordinal
  | none, some _ => false
  | some _, none => true
  | some l, some r =>
    if l = r then left.ordinal < right.ordinal
    else if descending then r < l
    else l < r

/-- An entry of the heap is a record and the index of its reader. -/
def entryLess (left right : Record ρ κ × ℕ) : Bool :=
  if left.1 = right.1 then left.2 < right.2 else less descending left.1 right.1

def sorted (records : List (Record ρ κ)) : List (Record ρ κ) :=
  records.insertionSort fun left right => ¬less descending right left

/-- The heap is kept as the list of its entries in order. -/
def heappush (entry : Record ρ κ × ℕ) (heap : List (Record ρ κ × ℕ)) : List (Record ρ κ × ℕ) :=
  heap.orderedInsert (fun left right => ¬entryLess descending right left) entry

end Order

/-! ## The runs -/

/-- `_encode(run.reference)` of every run on a level, with what the objects take. -/
def metadata (levels : List (List Run)) : ℕ :=
  (levels.flatten.map fun run => env.size run.reference * 8 + 1024).sum

def reserve (size : ℕ) : Sorter PUnit := do
  let s ← get
  let size := size + metadata env s.levels
  if size > memoryBytes then
    resourceExceeded "Database sort memory budget exceeded"
  else
    set { s with memoryPeak := max s.memoryPeak size }

/-- The generator of `records`: the chunks are those to come, none before the first is asked for. -/
structure Reader (χ β : Type) where
  run : Run
  chunks : Option (List (Except Thrown χ))
  buffer : β
  count : ℕ

/-- Chunks are read until the buffer has a line, or there are none left. -/
def fill (run : Run) :
    List (Except Thrown χ) → β → Sorter (Option ((ℕ × ρ) × List (Except Thrown χ) × β))
  | [], buffer => do
    match ← attempt (coding.line buffer) with
    | some (value, buffer) => pure (some (value, [], buffer))
    | none =>
      if coding.isEmpty buffer then pure none else unavailable "Invalid database sort run count"
  | chunk :: chunks, buffer => do
    match ← attempt (coding.line buffer) with
    | some (value, buffer) => pure (some (value, chunk :: chunks, buffer))
    | none =>
      log (.read run.reference)
      let chunk ← attempt chunk
      check env
      let buffer ← attempt (coding.extend buffer chunk)
      fill run chunks buffer

/-- The chunks to come, after `read_run` has been called. -/
def Reader.chunksOf (reader : Reader χ β) : Sorter (List (Except Thrown χ)) :=
  match reader.chunks with
  | some chunks => pure chunks
  | none => do
    log (.read reader.run.reference)
    let k ← tick
    pure (env.read k reader.run.reference)

def Reader.next (reader : Reader χ β) : Sorter (Option (Record ρ κ × Reader χ β)) := do
  let chunks ← reader.chunksOf env
  match ← fill env coding reader.run chunks reader.buffer with
  | none =>
    if reader.count ≠ reader.run.rowCount then unavailable "Invalid database sort run count"
    else pure none
  | some ((ordinal, row), chunks, buffer) =>
    let s ← get
    if ordinal ≥ s.rowCount then
      unavailable "Invalid database sort record"
    else
      let record ← attempt (coding.record row ordinal)
      if reader.count + 1 > reader.run.rowCount then
        unavailable "Invalid database sort run count"
      else
        check env
        pure (some (record, ⟨reader.run, some chunks, buffer, reader.count + 1⟩))

/-! ## Merging -/

section Merging

variable [DecidableEq ρ] [DecidableEq κ] [LT κ] [DecidableLT κ]

/-- The generator of `merge`; `refill` is the reader whose record was yielded last. -/
structure Merge (ρ κ χ β : Type) where
  readers : List (Reader χ β)
  heap : List (Record ρ κ × ℕ)
  refill : Option ℕ

/-- What is written out or merged: the records of `iter(pending)`, or those of a merge, which does
not begin before its first record is asked for. -/
inductive Source (ρ κ χ β : Type)
  | pending (records : List (Record ρ κ))
  | group (runs : List Run)
  | merging (m : Merge ρ κ χ β)

/-- The first record of every reader goes to the heap. -/
def openReaders :
    List (Reader χ β) → ℕ → List (Record ρ κ × ℕ) →
      Sorter (List (Reader χ β) × List (Record ρ κ × ℕ))
  | [], _, heap => pure ([], heap)
  | reader :: readers, index, heap => do
    match ← reader.next env coding with
    | none =>
      let (readers, heap) ← openReaders readers (index + 1) heap
      pure (reader :: readers, heap)
    | some (record, reader) =>
      order env
      let (readers, heap) ← openReaders readers (index + 1) (heappush descending (record, index) heap)
      pure (reader :: readers, heap)

def Merge.start (group : List Run) : Sorter (Merge ρ κ χ β) := do
  if ¬(1 ≤ group.length ∧ group.length ≤ mergeFanIn) then
    resourceExceeded "Database sort merge budget exceeded"
  else
    reserve env (group.length * (readChunkBytes * 2 + maxRecordBytes * 10) +
      (batchRows + 1) * (maxRecordBytes * 8 + maxColumns * 128 + 1024))
    let (readers, heap) ← openReaders env coding descending
      (group.map fun run => ⟨run, none, coding.empty, 0⟩) 0 []
    pure ⟨readers, heap, none⟩

def Merge.refilled (m : Merge ρ κ χ β) : Sorter (Merge ρ κ χ β) :=
  match m.refill.bind fun index => (m.readers[index]?).map fun reader => (index, reader) with
  | none => pure { m with refill := none }
  | some (index, reader) => do
    match ← reader.next env coding with
    | none => pure { m with refill := none }
    | some (record, reader) =>
      order env
      pure ⟨m.readers.set index reader, heappush descending (record, index) m.heap, none⟩

def Merge.next (m : Merge ρ κ χ β) : Sorter (Option (Record ρ κ × Merge ρ κ χ β)) := do
  let m ← m.refilled env coding descending
  match m.heap with
  | [] => pure none
  | (record, index) :: heap =>
    check env
    order env
    pure (some (record, ⟨m.readers, heap, some index⟩))

def Source.next : Source ρ κ χ β → Sorter (Option (Record ρ κ × Source ρ κ χ β))
  | .pending [] => pure none
  | .pending (record :: records) => pure (some (record, .pending records))
  | .group runs => do
    let m ← Merge.start env coding descending runs
    let r ← m.next env coding descending
    pure (r.map fun (record, m) => (record, .merging m))
  | .merging m => do
    let r ← m.next env coding descending
    pure (r.map fun (record, m) => (record, .merging m))

/-! ## Writing -/

/-- The lines that a write asks for, of which there are `emitted`. -/
def lines : ℕ → Source ρ κ χ β → ℕ → Sorter ℕ
  | 0, _, emitted => pure emitted
  | pulls + 1, source, emitted => do
    match ← source.next env coding descending with
    | none => pure emitted
    | some (_, source) =>
      check env
      lines pulls source (emitted + 1)

def write (source : Source ρ κ χ β) (count level : ℕ) (replaces : List Run) : Sorter Run := do
  check env
  let k ← tick
  let emitted ← lines env coding descending (env.pulls k) source 0
  match env.write k with
  | some x => raise x
  | none =>
    let s ← get
    log (.wrote ⟨s.runCount, emitted, level⟩ replaces)
    modify fun s => { s with runCount := s.runCount + 1 }
    check env
    if emitted ≠ count ∨ ¬env.isDict k then
      unavailable "Invalid database sort run"
    else
      pure ⟨s.runCount, count, level⟩

/-- A consumed run is deleted. -/
def discard (run : Run) : Sorter PUnit := do
  check env
  deleteRun env run
  check env

def compact (group : List Run) : Sorter Run := do
  let level := (group.map Run.level).foldr max 0 + 1
  let replacement ← write env coding descending (.group group) (group.map Run.rowCount).sum level group
  modify fun s => { s with mergePasses := max s.mergePasses level }
  group.forM (discard env)
  pure replacement

/-- The levels with the run on its own, for which levels are appended until it exists. -/
def place (levels : List (List Run)) (run : Run) : List (List Run) :=
  (levels ++ List.replicate (run.level + 1 - levels.length) []).modify run.level (· ++ [run])

def add : ℕ → Run → Sorter PUnit
  | 0, _ => throw .depth
  | fuel + 1, run => do
    modify fun s => { s with levels := place s.levels run }
    reserve env 0
    let s ← get
    let group := s.levels.getD run.level []
    if group.length = mergeFanIn then
      let replacement ← compact env coding descending group
      modify fun s => { s with levels := s.levels.set run.level [] }
      add fuel replacement
    else pure ⟨⟩

/-! ## The sort -/

/-- The waiting records become a run. -/
def flush (pending : List (Record ρ κ)) : Sorter PUnit := do
  check env
  order env
  check env
  let run ← write env coding descending (.pending (sorted descending pending)) pending.length 0 []
  let s ← get
  add env coding descending (s.levels.flatten.length + 1) run

def flushLast (pending : List (Record ρ κ)) : Sorter PUnit :=
  if pending ≠ [] then flush env coding descending pending else pure ⟨⟩

/-- The rows of the capture; the result are the records that still wait. -/
def capture : List (Except Thrown ρ) → List (Record ρ κ) → ℕ → Sorter (List (Record ρ κ))
  | [], pending, _ => pure pending
  | row :: rows, pending, pendingCost => do
    let row ← attempt row
    check env
    let s ← get
    let record ← attempt (coding.record row s.rowCount)
    modify fun s => { s with
      rowCount := s.rowCount + 1, byteCount := s.byteCount + coding.encoded record.row + 1 }
    if pending ≠ [] ∧ pendingCost + record.cost > runMemoryBytes then
      flush env coding descending pending
      reserve env (0 + record.cost)
      capture rows [record] (0 + record.cost)
    else
      reserve env (pendingCost + record.cost)
      capture rows (pending ++ [record]) (pendingCost + record.cost)

/-- The final reduction. -/
def reduce : ℕ → List Run → Sorter (List Run)
  | 0, _ => throw .depth
  | fuel + 1, group => do
    if group.length > mergeFanIn then
      let replacement ← compact env coding descending (group.take mergeFanIn)
      let group := replacement :: group.drop mergeFanIn
      modify fun s => { s with levels := [group] }
      reduce fuel group
    else pure group

def deliverBatch (batch : List ρ) : Sorter PUnit := do
  check env
  onRows env batch
  check env

/-- The rows of the last merge are delivered in batches. -/
def deliver : ℕ → Source ρ κ χ β → List ρ → ℕ → Sorter ℕ
  | 0, _, _, _ => throw .depth
  | fuel + 1, source, batch, emitted => do
    match ← source.next env coding descending with
    | none =>
      if batch ≠ [] then
        deliverBatch env batch
        pure emitted
      else pure emitted
    | some (record, source) =>
      if (batch ++ [record.row]).length = batchRows then
        deliverBatch env (batch ++ [record.row])
        deliver fuel source [] (emitted + 1)
      else deliver fuel source (batch ++ [record.row]) (emitted + 1)

def output (group : List Run) : Sorter ℕ :=
  if group ≠ [] then
    deliver env coding descending ((group.map Run.rowCount).sum + 1) (.group group) [] 0
  else pure 0

/-- `_sort_rows`, of a specification that has been accepted. -/
def sortCapture (rows : List (Except Thrown ρ)) : Sorter Report := do
  check env
  let pending ← capture env coding descending rows [] 0
  flushLast env coding descending pending
  let s ← get
  let group ← reduce env coding descending (s.levels.flatten.length + 1) s.levels.flatten
  let emitted ← output env coding descending group
  let s ← get
  if emitted ≠ s.rowCount then
    unavailable "Invalid database sort output count"
  else
    group.forM (discard env)
    check env
    let s ← get
    pure ⟨s.rowCount, s.byteCount, s.runCount, s.mergePasses, s.memoryPeak⟩

/-- What a caller sees of an exception. -/
def Failure.shown : Failure → Failure
  | .thrown (.http status detail) => .thrown (.http status detail)
  | .thrown (.known (.resourceExceeded detail)) => .thrown (.known (.resourceExceeded detail))
  | .thrown _ => .thrown (.known (.unavailable "Database sort is unavailable"))
  | .depth => .depth

def State.initial : State := ⟨0, [], 0, 0, 0, 0, 0, []⟩

def sortRows (rows : List (Except Thrown ρ)) : Except Failure (Report × State) :=
  match sortCapture env coding descending rows .initial with
  | .ok r => .ok r
  | .error x => .error x.shown

end Merging

end Sorting
