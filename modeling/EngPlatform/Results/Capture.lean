import EngPlatform.Lib.JsonText
import EngPlatform.Lib.Prog
import EngPlatform.Database.Record

/-!
# Captures as bytes

What `ResultWriter` puts into the private objects of an execution: the rows as lines of JSON, in
chunks, and a manifest of the chunks. And what is read from them again: the manifest, and the rows
of a page. The digest and the answers of the store and of the authorization are parameters; bytes
are code points, since what is written is ASCII.
-/

set_option linter.dupNamespace false

namespace Results

open CodePoints JsonText Database

/-! ## Objects -/

structure Reference where
  object : Text
  generation : ℕ
  sha256 : Text
  bytes : ℕ
  deriving DecidableEq

structure Chunk where
  reference : Reference
  rowStart : ℕ
  rowCount : ℕ
  deriving DecidableEq

structure Manifest where
  executionId : Text
  columns : Json
  chunks : List Chunk
  rowCount : ℕ
  bytes : ℕ

/-- An object of the store, whose generation is never written again. -/
structure Object where
  path : Text
  generation : ℕ
  data : Text

def isHex (c : ℕ) : Bool := 48 ≤ c && c ≤ 57 || 97 ≤ c && c ≤ 102

/-- A character of an object's name: a lower case letter, a digit or one of `_.-`. -/
def isName (c : ℕ) : Bool := 48 ≤ c && c ≤ 57 || 97 ≤ c && c ≤ 122 || c = 95 || c = 46 || c = 45

/-- `_path`, of a text. -/
def validPath (path : Text) : Bool :=
  match path.splitOn 47 with
  | [folder, execution, name] =>
    (folder = text "inputs" || folder = text "results") &&
      (execution.length = 32 && execution.all isHex) &&
      (1 ≤ name.length && name.length ≤ 100 && name.all isName)
  | _ => false

def validHash (hash : Text) : Bool := hash.length = 64 && hash.all isHex

/-- `f"{index:06d}"`. -/
def padded (index : ℕ) : Text :=
  List.replicate (6 - (text (toString index)).length) 48 ++ text (toString index)

def chunkPath (id : Text) (index : ℕ) : Text :=
  text "results/" ++ (id ++ (text "/chunk-" ++ (padded index ++ text ".ndjson")))

def manifestPath (id : Text) : Text := text "results/" ++ (id ++ text "/manifest.json")

/-! ## JSON -/

def Reference.members (r : Reference) : List (Text × Json) :=
  [(text "object", .str r.object), (text "generation", .int r.generation),
    (text "sha256", .str r.sha256), (text "bytes", .int r.bytes)]

def Chunk.json (c : Chunk) : Json :=
  .dict (c.reference.members ++
    [(text "row_start", Json.int c.rowStart), (text "row_count", .int c.rowCount)])

def Manifest.json (m : Manifest) : Json :=
  .dict [(text "execution_id", .str m.executionId), (text "columns", m.columns),
    (text "chunks", .list (m.chunks.map Chunk.json)), (text "row_count", .int m.rowCount),
    (text "bytes", .int m.bytes)]

/-- `value.get(key)`. -/
def field (key : String) : Json → Option Json
  | .dict members => members.lookup (text key)
  | _ => none

/-- A text. -/
def asText : Json → Option Text
  | .str s => some s
  | _ => none

/-- `type(value) is int` and `0 <= value`. -/
def asNat : Json → Option ℕ
  | .int (.ofNat n) => some n
  | _ => none

def asList : Json → Option (List Json)
  | .list items => some items
  | _ => none

/-- What an `f`-string shows of a value, if that may be hexadecimal digits. -/
def shown : Json → Option Text
  | .str s => some s
  | .int n => some (dumpsInt n)
  | _ => none

/-- One of the columns: three texts, none too long. -/
def validColumn (column : Json) : Bool :=
  match column with
  | .dict members =>
    members.length = 3 &&
      [text "key", text "name", text "data_type"].all (fun key => members.any (·.1 = key)) &&
      members.all fun m => (asText m.2).isSome && (dumps m.2).length ≤ cellBytes
  | _ => false

/-- `_columns`. -/
def validColumns (columns : Json) : Bool :=
  match columns with
  | .list items =>
    1 ≤ items.length && items.length ≤ 100 && items.all validColumn &&
      decide (items.map fun c => (field "key" c).bind asText).Nodup
  | _ => false

def columnCount (columns : Json) : ℕ := ((asList columns).getD []).length

/-! ## The writer -/

/-- What the callbacks and the store answer, request by request. -/
structure Env where
  /-- `hashlib.sha256(data).hexdigest()`. -/
  digest : Text → Text
  digest_valid : ∀ data, validHash (digest data) = true
  authorize : ℕ → Option Raised
  onStore : ℕ → ℕ → Option Raised
  /-- The generation of the object that is made, unless the upload fails. -/
  put : ℕ → Option ℕ
  put_pos : ∀ k g, put k = some g → 0 < g
  put_lt : ∀ k g, put k = some g → g < 2 ^ 63

/-- The requests so far and the objects that were made. -/
structure World where
  clock : ℕ
  made : List Object

/-- `ResultWriter`. -/
structure Writer where
  executionId : Text
  columns : Json
  chunks : List Chunk
  buffer : Text
  bufferCount : ℕ
  rowCount : ℕ
  byteCount : ℕ
  storedBytes : ℕ

section Writing

variable (env : Env)

def answer (raised : Option Raised) (w : World) : Except Raised World :=
  match raised with
  | some e => .error e
  | none => .ok { w with clock := w.clock + 1 }

def authorize (w : World) : Except Raised World := answer (env.authorize w.clock) w

def put (path data : Text) (w : World) : Except Raised (Reference × World) :=
  if validPath path then
    match env.put w.clock with
    | none => .error (.unavailable "Database result store is unavailable")
    | some generation =>
      .ok (⟨path, generation, env.digest data, data.length⟩,
        ⟨w.clock + 1, w.made ++ [⟨path, generation, data⟩]⟩)
  else .error (.unavailable "Invalid database object identity")

def Writer.new (id : Text) : Writer := ⟨id, .list [], [], [], 0, 0, 0, 0⟩

def Writer.onColumns (x : Writer) (columns : Json) : Except Raised Writer :=
  if validColumns columns then
    .ok { x with columns := columns, byteCount := (dumps columns).length }
  else .error (.unavailable "Invalid database result columns")

def Writer.flush (x : Writer) (w : World) : Except Raised (Writer × World) := do
  let w ← authorize env w
  if x.buffer = [] then return (x, w)
  else
    let w ← answer (env.onStore w.clock x.buffer.length) w
    let stored ← put env (chunkPath x.executionId x.chunks.length) x.buffer w
    return ({ x with
      chunks := x.chunks ++ [⟨stored.1, x.rowCount - x.bufferCount, x.bufferCount⟩]
      buffer := []
      bufferCount := 0 }, stored.2)

/-- A row as a line. -/
def line (row : List Json) : Text := dumps (.list row) ++ [10]

def Writer.fits (x : Writer) (row : List Json) : Bool :=
  (line row).length ≤ rowBytes && row.all (fun cell => (dumps cell).length ≤ cellBytes) &&
    x.byteCount + (line row).length ≤ snapshotBytes

def Writer.makeRoom (x : Writer) (bytes : ℕ) (w : World) : Except Raised (Writer × World) :=
  if x.buffer ≠ [] ∧ chunkBytes < x.buffer.length + bytes then x.flush env w else .ok (x, w)

def Writer.add (x : Writer) (row : List Json) : Writer :=
  { x with
    buffer := x.buffer ++ line row
    bufferCount := x.bufferCount + 1
    rowCount := x.rowCount + 1
    byteCount := x.byteCount + (line row).length }

def Writer.onRow (x : Writer) (row : List Json) (w : World) : Except Raised (Writer × World) :=
  if row.length ≠ columnCount x.columns then
    .error (.unavailable "Invalid database result row")
  else if x.fits row then do
    let made ← x.makeRoom env (line row).length w
    return (made.1.add row, made.2)
  else .error (.http 422 "Database result exceeds the resource budget")

def Writer.addRows : Writer → List (List Json) → World → Except Raised (Writer × World)
  | x, [], w => .ok (x, w)
  | x, row :: rows, w => do
    let next ← x.onRow env row w
    next.1.addRows rows next.2

def Writer.onRows (x : Writer) (rows : List (List Json)) (w : World) :
    Except Raised (Writer × World) := do
  let w ← authorize env w
  x.addRows env rows w

/-- The batches of a query, one after the other. -/
def Writer.onBatches : Writer → List (List (List Json)) → World →
    Except Raised (Writer × World)
  | x, [], w => .ok (x, w)
  | x, rows :: batches, w => do
    let next ← x.onRows env rows w
    next.1.onBatches batches next.2

def Writer.manifest (x : Writer) : Manifest :=
  ⟨x.executionId, x.columns, x.chunks, x.rowCount, x.byteCount⟩

/-- The manifest's bytes, if they and those that are stored are within the budget. -/
def Writer.encoded (x : Writer) : Except Raised Text :=
  let raw := dumps x.manifest.json
  if chunkBytes < raw.length then
    .error (.unavailable "Database result manifest exceeds the budget")
  else if snapshotBytes < x.byteCount - (dumps x.columns).length + raw.length then
    .error (.http 422 "Database result exceeds the resource budget")
  else .ok raw

def Writer.finish (x : Writer) (w : World) : Except Raised (Reference × Writer × World) := do
  let flushed ← x.flush env w
  let w ← authorize env flushed.2
  let raw ← flushed.1.encoded
  let w ← answer (env.onStore w.clock raw.length) w
  let stored ← put env (manifestPath flushed.1.executionId) raw w
  return (stored.1,
    { flushed.1 with
      storedBytes := flushed.1.byteCount - (dumps flushed.1.columns).length + raw.length },
    stored.2)

/-- A capture: the columns, the rows in batches, and the manifest at the end. -/
def capture (id : Text) (columns : Json) (batches : List (List (List Json))) (w : World) :
    Except Raised (Reference × Writer × World) := do
  let x ← (Writer.new id).onColumns columns
  let filled ← x.onBatches env batches w
  filled.1.finish env filled.2

end Writing

/-! ## The reader -/

/-- A page of the rows, as it is shown. -/
structure Page where
  columns : Json
  rows : List Json
  pageIndex : ℕ
  pageSize : ℕ
  rowCount : ℕ
  totalPages : ℕ

/-- What the store returns for a generation, if it returns anything, the digest, and how long a
response is. -/
structure Source where
  digest : Text → Text
  fetch : Text → ℕ → Option Text
  responseBytes : Page → ℕ

section Reading

variable (src : Source)

/-- `_reference`, of the JSON of a chunk. -/
def referenceOf (v : Json) (maximum : ℕ) : Option Reference := do
  let object ← (field "object" v).bind asText
  let bytes ← (field "bytes" v).bind asNat
  let generation ← (field "generation" v).bind asNat
  let sha256 ← (field "sha256" v).bind asText
  if validPath object ∧ bytes ≤ maximum ∧ 0 < generation ∧ validHash sha256 then
    some ⟨object, generation, sha256, bytes⟩
  else none

/-- `read`, whose own failures are all one. -/
def read (r : Reference) : Except Raised Text :=
  if validPath r.object then
    if r.bytes ≤ chunkBytes ∧ 0 < r.generation ∧ validHash r.sha256 then
      match src.fetch r.object r.generation with
      | none => .error (.unavailable "Database result store is unavailable")
      | some raw =>
        if raw.length = r.bytes ∧ src.digest raw = r.sha256 then .ok raw
        else .error (.unavailable "Database result store is unavailable")
    else .error (.unavailable "Invalid database object bounds")
  else .error (.unavailable "Invalid database object identity")

/-- A chunk of the manifest, which goes on at the row `start`. -/
def chunkOf (id : Text) (index start : ℕ) (v : Json) : Option Chunk := do
  let reference ← referenceOf v chunkBytes
  let rowStart ← (field "row_start" v).bind asNat
  let rowCount ← (field "row_count" v).bind asNat
  if rowStart = start ∧ 1 ≤ rowCount ∧ rowCount ≤ reference.bytes ∧
      reference.object = chunkPath id index then
    some ⟨reference, rowStart, rowCount⟩
  else none

/-- The chunks of a manifest, where the last ends and their bytes. -/
def chunksOf (id : Text) : ℕ → ℕ → ℕ → List Json → Option (List Chunk × ℕ × ℕ)
  | _, start, bytes, [] => some ([], start, bytes)
  | index, start, bytes, v :: vs => do
    let chunk ← chunkOf id index start v
    let rest ← chunksOf id (index + 1) (start + chunk.rowCount) (bytes + chunk.reference.bytes) vs
    some (chunk :: rest.1, rest.2)

/-- The checks of `manifest`, on what was read. -/
def manifestOf (object : Text) (value : Json) : Option Manifest := do
  let bytes ← (field "bytes" value).bind asNat
  let rowCount ← (field "row_count" value).bind asNat
  let chunks ← (field "chunks" value).bind asList
  let id ← (field "execution_id" value).bind shown
  let columns ← field "columns" value
  if bytes ≤ snapshotBytes ∧ chunks.length ≤ 512 ∧ object = manifestPath id ∧
      validColumns columns then
    let found ← chunksOf id 0 0 (dumps columns).length chunks
    if found.2.1 = rowCount ∧ found.2.2 = bytes then
      some ⟨id, columns, found.1, rowCount, bytes⟩
    else none
  else none

/-- `manifest`. -/
def manifest (reference : Reference) : Except Raised Manifest :=
  match ((read src reference).toOption.bind loads).bind (manifestOf reference.object) with
  | some m => .ok m
  | none => .error (.unavailable "Database result manifest is unavailable")

/-- The lines of a text with one more character. -/
def prepend (c : ℕ) : List Text → List Text
  | [] => [[c]]
  | l :: ls => (c :: l) :: ls

/-- `bytes.splitlines()`. -/
def splitlines : Text → List Text
  | [] => []
  | 10 :: t => [] :: splitlines t
  | 13 :: 10 :: t => [] :: splitlines t
  | 13 :: t => [] :: splitlines t
  | c :: t => prepend c (splitlines t)

/-- What the lines of a chunk yield, from the row `position` on, and what ends them early. -/
def linesFrom (start stop : ℕ) : ℕ → List Text → List Json × Option Raised
  | _, [] => ([], none)
  | position, l :: ls =>
    if start ≤ position ∧ position < stop then
      match loads l with
      | some row =>
        let rest := linesFrom start stop (position + 1) ls
        (row :: rest.1, rest.2)
      | none => ([], some (.other "JSONDecodeError"))
    else linesFrom start stop (position + 1) ls

/-- The lines of a chunk, as many as it has rows. -/
def linesOf (chunk : Chunk) : Except Raised (List Text) := do
  let raw ← read src chunk.reference
  if (splitlines raw).length = chunk.rowCount then return splitlines raw
  else throw (.unavailable "Database result count is unavailable")

/-- What the chunks yield, and what ends them early. -/
def rowsFrom (authorize : ℕ → Option Raised) (start stop : ℕ) :
    ℕ → List Chunk → List Json × Option Raised
  | _, [] => ([], none)
  | k, chunk :: chunks =>
    if stop ≤ chunk.rowStart then ([], none)
    else if chunk.rowStart + chunk.rowCount ≤ start then rowsFrom authorize start stop k chunks
    else
      match authorize k with
      | some e => ([], some e)
      | none =>
        match linesOf src chunk with
        | .error e => ([], some e)
        | .ok lines =>
          let first := linesFrom start stop chunk.rowStart lines
          match first.2 with
          | some e => (first.1, some e)
          | none =>
            let rest := rowsFrom authorize start stop (k + 1) chunks
            (first.1 ++ rest.1, rest.2)

/-- `rows`. -/
def rows (m : Manifest) (authorize : ℕ → Option Raised) (start : ℕ) (limit : Option ℕ) :
    List Json × Option Raised :=
  rowsFrom src authorize start ((limit.map (start + ·)).getD m.rowCount) 0 m.chunks

/-- `page`, of an execution whose manifest is there if it is completed. The authorization is asked
for each chunk, and again after the rows. -/
def page (completed : Option Reference) (authorize : ℕ → Option Raised) (after : Option Raised)
    (index size : ℕ) : Except Raised Page :=
  match completed with
  | none => .error (.http 409 "Database result is not complete")
  | some reference => do
    let m ← manifest src reference
    let totalPages := (m.rowCount + size - 1) / size
    if index ≠ 0 ∧ totalPages ≤ index then throw (.http 422 "Database page is outside the result")
    else
      let found := rows src m authorize (index * size) (some size)
      match found.2 with
      | some e => throw e
      | none =>
        let response : Page := ⟨m.columns, found.1, index, size, m.rowCount, totalPages⟩
        if 8388608 < src.responseBytes response then
          throw (.unavailable "Database page exceeds the budget")
        else
          match after with
          | some e => throw e
          | none => return response

end Reading

end Results
