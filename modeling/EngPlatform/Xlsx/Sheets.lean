import EngPlatform.Lib.Effects
import EngPlatform.Xlsx.Text

/-!
# The worksheets of an export

The rows of an export are written as they come, and a new worksheet is begun when one is full. The
first row of a worksheet is taken before it is known that there is one to begin, and is handed to
the rows of that worksheet.

Nothing is lost by this: the worksheets have the rows in order, each once, all but the last are full,
and none but that of an empty export is empty.
-/

set_option linter.dupNamespace false

namespace Xlsx

open Effects CodePoints

/-! ## The guard and the output -/

/-- What an operation on the archive does to the output. -/
inductive Piece
  | write (size : ℕ)
  | flush

/-- What the writer does not decide: the clock in nanoseconds, what the authorization raises, what
the archive passes on to the output, and what the sink answers. -/
structure Env where
  now : ℕ → Int
  authorize : ℕ → Option Raised
  archive : ℕ → List Piece
  sink : ℕ → Except Raised (Option ℕ)

structure Member where
  name : Text
  content : Text

/-- The members of the archive are newest first; the first counters are of what has been asked of
the environment. -/
structure State where
  reads : ℕ
  authorizations : ℕ
  operations : ℕ
  writes : ℕ
  deadline : Int
  checked : Option Int
  xmlBytes : ℕ
  bytes : ℕ
  members : List Member

abbrev Export (α : Type) : Type := Eff State Raised α

def maxCompressedBytes : ℕ := 268435456
def maxXmlBytes : ℕ := 1073741824
def maxColumns : ℕ := 100
def second : Int := 1000000000

variable (env : Env)

def monotonic : Export Int := do
  let s ← get
  set { s with reads := s.reads + 1 }
  pure (env.now s.reads)

def authorize : Export PUnit := do
  let s ← get
  set { s with authorizations := s.authorizations + 1 }
  match env.authorize s.authorizations with
  | some x => throw x
  | none => pure ⟨⟩

/-- `_Guard.check`. -/
def check (force : Bool) : Export PUnit := do
  let now ← monotonic env
  let s ← get
  if now ≥ s.deadline then
    throw (.resourceExceeded "Export execution time budget exceeded")
  else if force ∨ s.checked.all fun checked => now - checked ≥ second then
    authorize env
    modify fun s => { s with checked := some now }
  else pure ⟨⟩

/-- `_Guard.xml`. -/
def xml (value : Text) : Export PUnit := do
  check env false
  let s ← get
  set { s with xmlBytes := s.xmlBytes + utf8Length value }
  if s.xmlBytes + utf8Length value > maxXmlBytes then
    throw (.resourceExceeded "Export XML size budget exceeded")
  else pure ⟨⟩

/-- `_Output.write`, of so many bytes, and `_Output.flush`. -/
def outputPiece : Piece → Export PUnit
  | .write size => do
    check env false
    let s ← get
    if s.bytes + size > maxCompressedBytes then
      throw (.resourceExceeded "Export file size budget exceeded")
    else
      set { s with writes := s.writes + 1 }
      let written ← liftM (env.sink s.writes)
      if written.any (· ≠ size) then throw (.other "Incomplete export upload")
      else modify fun s => { s with bytes := s.bytes + size }
  | .flush => check env false

/-- An operation on the archive passes something on to the output. -/
def operate : Export PUnit := do
  let s ← get
  set { s with operations := s.operations + 1 }
  (env.archive s.operations).forM (outputPiece env)

def openMember (name : Text) : Export PUnit := do
  modify fun s => { s with members := ⟨name, []⟩ :: s.members }
  operate env

def appendTo (value : Text) : List Member → List Member
  | [] => []
  | m :: members => { m with content := m.content ++ value } :: members

def writeMember (value : Text) : Export PUnit := do
  modify fun s => { s with members := appendTo value s.members }
  operate env

/-- `write`, of a text that may not be one that a worksheet can hold. -/
def write (value : Except Raised Text) : Export PUnit := do
  let value ← liftM value
  xml env value
  writeMember env value

/-! ## A worksheet -/

/-- The digits of `_column_name`, of which there are at most `fuel`. -/
def columnDigits : ℕ → ℕ → Text → Text
  | 0, _, name => name
  | fuel + 1, index, name =>
    if index = 0 then name
    else columnDigits fuel ((index - 1) / 26) ((65 + (index - 1) % 26) :: name)

/-- `_column_name`. -/
def columnName (index : ℕ) : Text := columnDigits index index []

/-- The reference of a cell, by the numbers of its column and its row. -/
def reference (number row : ℕ) : Text := columnName number ++ rowText row

/-- A column, with a name and a type that may not be there or not be texts. -/
structure Column where
  name : Option Text
  dataType : Option String

abbrev Row : Type := List Value

def namespaceUri : String := "http://schemas.openxmlformats.org/spreadsheetml/2006/main"

def relationshipsUri : String :=
  "http://schemas.openxmlformats.org/officeDocument/2006/relationships"

def sheetHead : Text :=
  text "<?xml version=\"1.0\" encoding=\"UTF-8\" standalone=\"yes\"?><worksheet xmlns=\"" ++
    text namespaceUri ++
    text ("\"><sheetViews><sheetView workbookViewId=\"0\">" ++
    "<pane ySplit=\"1\" topLeftCell=\"A2\" activePane=\"bottomLeft\" state=\"frozen\"/>" ++
    "</sheetView></sheetViews><sheetFormatPr defaultRowHeight=\"15\"/><sheetData><row r=\"1\">")

def rowHead (row : ℕ) : Text := text "<row r=\"" ++ rowText row ++ text "\">"

def rowTail : Text := text "</row>"

def sheetTail (columns rows : ℕ) : Text :=
  text "</sheetData><autoFilter ref=\"A1:" ++ reference columns (rows + 1) ++
    text "\"/></worksheet>"

variable (loads : Text → Bool) (columns : List Column)

/-- The cells of the row of names. -/
def headerCells : List (Except Raised Text) :=
  (columns.zipIdx 1).map fun (column, number) =>
    textCell (reference number 1) (column.name.getD []) true

/-- The cells of a row, in the row of a worksheet. -/
def rowCells (values : Row) (row : ℕ) : List (Except Raised Text) :=
  ((columns.zip values).zipIdx 1).map fun ((column, value), number) =>
    cell loads (reference number row) value (column.dataType.getD "")

/-- One turn of the loop over the rows of a worksheet, of which `count` are written. -/
def writeRow (values : Row) (count : ℕ) : Export PUnit := do
  check env false
  if values.length ≠ columns.length then
    throw (.resourceExceeded "Invalid export result shape")
  else
    write env (.ok (rowHead (count + 2)))
    (rowCells loads columns values (count + 2)).forM (write env)
    write env (.ok rowTail)

def writeRows : List Row → ℕ → Export ℕ
  | [], count => pure count
  | values :: rows, count => do
    writeRow env loads columns values count
    writeRows rows (count + 1)

def sheetName (index : ℕ) : Text :=
  text "xl/worksheets/sheet" ++ rowText index ++ text ".xml"

/-- `_write_sheet`, with the rows that its iterator comes to. -/
def writeSheet (index : ℕ) (rows : List Row) : Export ℕ := do
  openMember env (sheetName index)
  write env (.ok sheetHead)
  (headerCells columns).forM (write env)
  write env (.ok rowTail)
  let count ← writeRows env loads columns rows 0
  write env (.ok (sheetTail columns.length count))
  operate env
  check env true
  pure count

/-! ## The export -/

/-- `sheet_rows`: the rows of a worksheet for `maxDataRows` rows, and what is left of the source. -/
def sheetRows (maxDataRows : ℕ) (first : Option Row) (source : List Row) : List Row × List Row :=
  match first with
  | none => ([], source)
  | some row => (row :: source.take (maxDataRows - 1), source.drop (maxDataRows - 1))

theorem length_left_le (maxDataRows : ℕ) (first : Option Row) (source : List Row) :
    (sheetRows maxDataRows first source).2.length ≤ source.length := by
  unfold sheetRows
  cases first with
  | none => exact Nat.le_refl _
  | some row =>
    rw [List.length_drop]
    exact Nat.sub_le _ _

variable (maxDataRows : ℕ)

/-- The loop over the worksheets: the count of the rows, and that of the worksheets. -/
def writeSheets (sheets count : ℕ) (first : Option Row) (source : List Row) : Export (ℕ × ℕ) := do
  let n ← writeSheet env loads columns (sheets + 1) (sheetRows maxDataRows first source).1
  match h : (sheetRows maxDataRows first source).2 with
  | [] => pure (count + n, sheets + 1)
  | row :: rest => writeSheets (sheets + 1) (count + n) (some row) rest
termination_by source.length
decreasing_by
  have hle := length_left_le maxDataRows first source
  rw [h, List.length_cons] at hle
  exact hle

/-- `file`. -/
def file (name value : Text) : Export PUnit := do
  xml env value
  modify fun s => { s with members := ⟨name, value⟩ :: s.members }
  operate env

def indices (sheets : ℕ) : List ℕ := List.range' 1 sheets

def contentTypes (sheets : ℕ) : Text :=
  text ("<?xml version=\"1.0\" encoding=\"UTF-8\"?>" ++
    "<Types xmlns=\"http://schemas.openxmlformats.org/package/2006/content-types\">" ++
    "<Default Extension=\"rels\" " ++
    "ContentType=\"application/vnd.openxmlformats-package.relationships+xml\"/>" ++
    "<Default Extension=\"xml\" ContentType=\"application/xml\"/>" ++
    "<Override PartName=\"/xl/workbook.xml\" ContentType=" ++
    "\"application/vnd.openxmlformats-officedocument.spreadsheetml.sheet.main+xml\"/>" ++
    "<Override PartName=\"/xl/styles.xml\" ContentType=" ++
    "\"application/vnd.openxmlformats-officedocument.spreadsheetml.styles+xml\"/>") ++
    (indices sheets).flatMap (fun index =>
      text "<Override PartName=\"/xl/worksheets/sheet" ++ rowText index ++
        text (".xml\" ContentType=" ++
    "\"application/vnd.openxmlformats-officedocument.spreadsheetml.worksheet+xml\"/>")) ++
    text "</Types>"

def packageRelationships : Text :=
  text ("<?xml version=\"1.0\" encoding=\"UTF-8\"?>" ++
    "<Relationships xmlns=\"http://schemas.openxmlformats.org/package/2006/relationships\">" ++
    "<Relationship Id=\"rId1\" Type=" ++
    "\"http://schemas.openxmlformats.org/officeDocument/2006/relationships/officeDocument\" " ++
    "Target=\"xl/workbook.xml\"/></Relationships>")

def workbook (sheets : ℕ) : Text :=
  text "<?xml version=\"1.0\" encoding=\"UTF-8\"?><workbook xmlns=\"" ++ text namespaceUri ++
    text "\" xmlns:r=\"" ++ text relationshipsUri ++ text "\"><sheets>" ++
    (indices sheets).flatMap (fun index =>
      text "<sheet name=\"Datos " ++ rowText index ++ text "\" sheetId=\"" ++ rowText index ++
        text "\" r:id=\"rId" ++ rowText index ++ text "\"/>") ++
    text "</sheets></workbook>"

def workbookRelationships (sheets : ℕ) : Text :=
  text ("<?xml version=\"1.0\" encoding=\"UTF-8\"?>" ++
    "<Relationships xmlns=\"http://schemas.openxmlformats.org/package/2006/relationships\">") ++
    (indices sheets).flatMap (fun index =>
      text "<Relationship Id=\"rId" ++ rowText index ++ text "\" Type=\"" ++
        text relationshipsUri ++ text "/worksheet\" Target=\"worksheets/sheet" ++
        rowText index ++ text ".xml\"/>") ++
    text "<Relationship Id=\"styles\" Type=\"" ++ text relationshipsUri ++
    text "/styles\" Target=\"styles.xml\"/></Relationships>"

def styles : Text :=
  text "<?xml version=\"1.0\" encoding=\"UTF-8\"?><styleSheet xmlns=\"" ++ text namespaceUri ++
    text ("\"><fonts count=\"2\"><font><sz val=\"11\"/><name val=\"Calibri\"/></font><font><b/>" ++
    "<sz val=\"11\"/><name val=\"Calibri\"/></font></fonts><fills count=\"2\"><fill>" ++
    "<patternFill patternType=\"none\"/></fill><fill><patternFill patternType=\"gray125\"/>" ++
    "</fill></fills><borders count=\"1\"><border/></borders><cellStyleXfs count=\"1\">" ++
    "<xf numFmtId=\"0\" fontId=\"0\" fillId=\"0\" borderId=\"0\"/></cellStyleXfs>" ++
    "<cellXfs count=\"2\"><xf numFmtId=\"0\" fontId=\"0\" fillId=\"0\" borderId=\"0\" " ++
    "xfId=\"0\"/><xf numFmtId=\"0\" fontId=\"1\" fillId=\"0\" borderId=\"0\" xfId=\"0\" " ++
    "applyFont=\"1\"/></cellXfs><cellStyles count=\"1\"><cellStyle name=\"Normal\" " ++
    "xfId=\"0\" builtinId=\"0\"/></cellStyles></styleSheet>")

/-- The members of the archive beside the worksheets. -/
def packageFiles (sheets : ℕ) : List (Text × Text) :=
  [(text "[Content_Types].xml", contentTypes sheets), (text "_rels/.rels", packageRelationships),
    (text "xl/workbook.xml", workbook sheets),
    (text "xl/_rels/workbook.xml.rels", workbookRelationships sheets),
    (text "xl/styles.xml", styles)]

structure Report where
  rowCount : ℕ
  sheetCount : ℕ
  bytes : ℕ

def validColumns : Bool :=
  0 < columns.length ∧ columns.length ≤ maxColumns ∧
    columns.all fun column => column.name.isSome ∧ column.dataType.isSome

/-- `write_xlsx`, with the timeout in nanoseconds. -/
def writeXlsx (rows : List Row) (timeout : Int) : Export Report :=
  if validColumns columns = false then throw (.resourceExceeded "Invalid export columns")
  else if ¬(0 < timeout ∧ timeout ≤ 240 * second) then
    throw (.resourceExceeded "Invalid export execution budget")
  else do
    let start ← monotonic env
    modify fun s => { s with deadline := start + timeout }
    check env true
    let (count, sheets) ←
      writeSheets env loads columns maxDataRows 0 0 rows.head? rows.tail
    (packageFiles sheets).forM fun (name, value) => file env name value
    check env true
    operate env
    check env true
    let s ← get
    pure ⟨count, sheets, s.bytes⟩

/-! ## What an export fails with -/

/-- A failure of the time, of the authorization, of the size of the export or of the sink. -/
inductive Budget : Raised → Prop
  | time : Budget (.resourceExceeded "Export execution time budget exceeded")
  | xml : Budget (.resourceExceeded "Export XML size budget exceeded")
  | file : Budget (.resourceExceeded "Export file size budget exceeded")
  | authorization (k : ℕ) (x : Raised) (h : env.authorize k = some x) : Budget x
  | sink (k : ℕ) (x : Raised) (h : env.sink k = .error x) : Budget x
  | upload : Budget (.other "Incomplete export upload")

/-- Beside those, an export fails only for what it is given: its columns, its timeout, a row of
another width, or a name or a value that a worksheet cannot hold. -/
inductive Failure (rows : List Row) (timeout : Int) : Raised → Prop
  | budget (x : Raised) (h : Budget env x) : Failure rows timeout x
  | columns (h : validColumns columns = false) :
    Failure rows timeout (.resourceExceeded "Invalid export columns")
  | timeout (h : ¬(0 < timeout ∧ timeout ≤ 240 * second)) :
    Failure rows timeout (.resourceExceeded "Invalid export execution budget")
  | width (row : Row) (hr : row ∈ rows) (h : row.length ≠ columns.length) :
    Failure rows timeout (.resourceExceeded "Invalid export result shape")
  | name (column : Column) (hc : column ∈ columns) (at' : Text) (x : Raised)
    (h : textCell at' (column.name.getD []) true = .error x) : Failure rows timeout x
  | value (row : Row) (hr : row ∈ rows) (value : Value) (hv : value ∈ row) (at' : Text)
    (dataType : String) (x : Raised) (h : cell loads at' value dataType = .error x) :
    Failure rows timeout x

/-! ## What the operations write -/

section Operations

variable {env} {loads} {columns} {E : Raised → Prop} {s : State}

theorem monotonic_meets {members : List Member} (h : s.members = members) :
    Meets E (monotonic env) s fun _ s' => s'.members = members := h

theorem authorize_meets (hE : ∀ x, Budget env x → E x) {members : List Member}
    (h : s.members = members) : Meets E (authorize env) s fun _ s' => s'.members = members := by
  refine .get_bind (.set_bind ?_)
  cases ha : env.authorize s.authorizations with
  | none => exact .pure h
  | some x => exact .throw (hE x (.authorization s.authorizations x ha))

theorem check_meets (hE : ∀ x, Budget env x → E x) (force : Bool) {members : List Member}
    (h : s.members = members) : Meets E (check env force) s fun _ s' => s'.members = members := by
  refine .bind (monotonic_meets h) fun now s₁ h₁ => ?_
  refine .get_bind (.ite (fun _ => .throw (hE _ .time)) fun _ => ?_)
  refine .ite (fun _ => ?_) fun _ => .pure h₁
  exact .bind (authorize_meets hE h₁) fun _ s₂ h₂ => .update h₂

theorem xml_meets (hE : ∀ x, Budget env x → E x) (value : Text) {members : List Member}
    (h : s.members = members) : Meets E (xml env value) s fun _ s' => s'.members = members := by
  refine .bind (check_meets hE false h) fun _ s₁ h₁ => ?_
  exact .get_bind (.set_bind (.ite (fun _ => .throw (hE _ .xml)) fun _ => .pure h₁))

theorem outputPiece_meets (hE : ∀ x, Budget env x → E x) (piece : Piece) {members : List Member}
    (h : s.members = members) :
    Meets E (outputPiece env piece) s fun _ s' => s'.members = members := by
  cases piece with
  | flush => exact check_meets hE false h
  | write size =>
    refine .bind (check_meets hE false h) fun _ s₁ h₁ => ?_
    refine .get_bind (.ite (fun _ => .throw (hE _ .file)) fun _ => .set_bind ?_)
    refine .bind (P := fun _ (s' : State) => s'.members = members)
      (.lift (fun _ _ => h₁) fun x hx => hE x (.sink _ x hx)) fun written s₂ h₂ => ?_
    exact .ite (fun _ => .throw (hE _ .upload)) fun _ => .update h₂

theorem operate_meets (hE : ∀ x, Budget env x → E x) {members : List Member}
    (h : s.members = members) : Meets E (operate env) s fun _ s' => s'.members = members := by
  refine .get_bind (.set_bind ?_)
  exact Meets.forM (I := fun _ (s' : State) => s'.members = members)
    (fun piece _ _ hs => outputPiece_meets hE piece hs) _ h

/-- The texts of a list of pieces, one after another. -/
def written : List (Except Raised Text) → Except Raised Text
  | [] => .ok []
  | piece :: pieces => do .ok ((← piece) ++ (← written pieces))

theorem written_cons {piece : Except Raised Text} {pieces : List (Except Raised Text)} {t u : Text}
    (h : piece = .ok t) (hs : written pieces = .ok u) : written (piece :: pieces) = .ok (t ++ u) := by
  rw [written, h, hs]
  rfl

theorem written_append : ∀ {pieces pieces' : List (Except Raised Text)} {t u : Text},
    written pieces = .ok t → written pieces' = .ok u → written (pieces ++ pieces') = .ok (t ++ u)
  | [], _, t, u, h, h' => by
    cases h
    exact h'
  | piece :: pieces, pieces', t, u, h, h' => by
    rw [written] at h
    cases hp : piece with
    | error x =>
      rw [hp] at h
      cases h
    | ok t₁ =>
      cases hw : written pieces with
      | error x =>
        rw [hp, hw] at h
        cases h
      | ok t₂ =>
        rw [hp, hw] at h
        cases h
        rw [List.cons_append, List.append_assoc]
        exact written_cons rfl (written_append hw h')

theorem appendTo_append (t u : Text) (members : List Member) :
    appendTo u (appendTo t members) = appendTo (t ++ u) members := by
  cases members with
  | nil => rfl
  | cons m members => simp only [appendTo, List.append_assoc]

theorem appendTo_nil (members : List Member) : appendTo [] members = members := by
  cases members with
  | nil => rfl
  | cons m members => simp only [appendTo, List.append_nil]

theorem appendTo_opened (name t : Text) (members : List Member) :
    appendTo t (⟨name, []⟩ :: members) = ⟨name, t⟩ :: members :=
  rfl

theorem write_meets (hE : ∀ x, Budget env x → E x) {piece : Except Raised Text}
    (hp : ∀ x, piece = .error x → E x) {members : List Member} (h : s.members = members) :
    Meets E (write env piece) s fun _ s' =>
      ∃ t, piece = .ok t ∧ s'.members = appendTo t members := by
  refine .bind (P := fun t (s' : State) => piece = .ok t ∧ s'.members = members)
    (.lift (fun t ht => ⟨ht, h⟩) hp) fun t s₁ h₁ => ?_
  refine .bind (xml_meets hE t h₁.2) fun _ s₂ h₂ => ?_
  refine .modify_bind ?_
  exact (operate_meets hE (congrArg (appendTo t) h₂)).mono fun _ s' hs' => ⟨t, h₁.1, hs'⟩

theorem writeText_meets (hE : ∀ x, Budget env x → E x) (t : Text) {members : List Member}
    (h : s.members = members) :
    Meets E (write env (.ok t)) s fun _ s' => s'.members = appendTo t members := by
  have hok : ∀ x, (.ok t : Except Raised Text) = .error x → E x := by
    rintro x ⟨⟩
  refine (write_meets hE hok h).mono fun _ s' hs' => ?_
  obtain ⟨_, ⟨⟩, hm⟩ := hs'
  exact hm

theorem writeAll_meets (hE : ∀ x, Budget env x → E x) : ∀ {pieces : List (Except Raised Text)}
    {s : State} {members : List Member}, (∀ piece ∈ pieces, ∀ x, piece = .error x → E x) →
    s.members = members → Meets E (pieces.forM (write env)) s fun _ s' =>
      ∃ t, written pieces = .ok t ∧ s'.members = appendTo t members
  | [], s, members, _, h => .pure ⟨[], rfl, by rw [appendTo_nil]; exact h⟩
  | piece :: pieces, s, members, hp, h => by
    refine .bind (write_meets hE (hp piece (.head _)) h) fun _ s₁ h₁ => ?_
    obtain ⟨t, ht, hm⟩ := h₁
    refine (writeAll_meets hE (fun p hm => hp p (.tail _ hm)) hm).mono fun _ s₂ h₂ => ?_
    obtain ⟨u, hu, hm'⟩ := h₂
    exact ⟨t ++ u, written_cons ht hu, by rw [hm', appendTo_append]⟩

end Operations

/-! ## Worksheets -/

/-- What a row of a worksheet is written as. -/
def rowPieces (values : Row) (row : ℕ) : List (Except Raised Text) :=
  .ok (rowHead row) :: (rowCells loads columns values row ++ [Except.ok rowTail])

/-- What a worksheet is: the names in its first row, its rows from the second on, each with the
references of its cells, and a filter over all of them. -/
def sheet (rows : List Row) : Except Raised Text :=
  written (.ok sheetHead :: (headerCells columns ++ .ok rowTail ::
    ((rows.zipIdx 2).flatMap (fun (values, row) => rowPieces loads columns values row) ++
      [.ok (sheetTail columns.length rows.length)])))

section Worksheets

variable {env} {loads} {columns} {E : Raised → Prop} {s : State}

/-- What may be raised for a row. -/
def Bad (loads : Text → Bool) (columns : List Column) (E : Raised → Prop) (values : Row) : Prop :=
  (values.length ≠ columns.length → E (.resourceExceeded "Invalid export result shape")) ∧
    ∀ value ∈ values, ∀ at' dataType x, cell loads at' value dataType = .error x → E x

theorem rowCells_error {values : Row} (hbad : Bad loads columns E values)
    {row : ℕ} : ∀ piece ∈ rowCells loads columns values row, ∀ x, piece = .error x → E x := by
  intro piece hp x hx
  obtain ⟨⟨⟨column, value⟩, number⟩, hm, rfl⟩ := List.mem_map.1 hp
  have hzip : (column, value) ∈ columns.zip values := List.fst_mem_of_mem_zipIdx hm
  exact hbad.2 value (List.of_mem_zip hzip).2 _ _ x hx

theorem writeRow_meets (hE : ∀ x, Budget env x → E x) {values : Row} {count : ℕ}
    (hbad : Bad loads columns E values) {members : List Member}
    (h : s.members = members) :
    Meets E (writeRow env loads columns values count) s fun _ s' =>
      values.length = columns.length ∧
        ∃ t, written (rowPieces loads columns values (count + 2)) = .ok t ∧
          s'.members = appendTo t members := by
  refine .bind (check_meets hE false h) fun _ s₁ h₁ => ?_
  refine .ite (fun hw => .throw (hbad.1 hw)) fun hw => ?_
  refine .bind (writeText_meets hE _ h₁) fun _ s₂ h₂ => ?_
  refine .bind (writeAll_meets hE (rowCells_error hbad) h₂) fun _ s₃ h₃ => ?_
  obtain ⟨t, ht, hm⟩ := h₃
  refine (writeText_meets hE _ hm).mono fun _ s₄ h₄ => ?_
  refine ⟨not_not.1 hw, rowHead (count + 2) ++ (t ++ (rowTail ++ [])), ?_, ?_⟩
  · exact written_cons rfl (written_append ht (written_cons rfl rfl))
  · rw [h₄, appendTo_append, appendTo_append, List.append_nil]

theorem writeRows_meets (hE : ∀ x, Budget env x → E x) : ∀ {rows : List Row} {count : ℕ}
    {s : State} {members : List Member},
    (∀ values ∈ rows, Bad loads columns E values) → s.members = members →
    Meets E (writeRows env loads columns rows count) s fun n s' =>
      n = count + rows.length ∧ (∀ values ∈ rows, values.length = columns.length) ∧
        ∃ t, written ((rows.zipIdx (count + 2)).flatMap fun (values, row) =>
          rowPieces loads columns values row) = .ok t ∧ s'.members = appendTo t members
  | [], count, s, members, _, h =>
    .pure ⟨rfl, fun _ hv => absurd hv List.not_mem_nil, [], rfl, by rw [appendTo_nil]; exact h⟩
  | values :: rows, count, s, members, hbad, h => by
    refine .bind (writeRow_meets hE (hbad values (.head _)) h) fun _ s₁ h₁ => ?_
    obtain ⟨hw, t, ht, hm⟩ := h₁
    refine (writeRows_meets hE (fun v hv => hbad v (.tail _ hv)) hm).mono fun n s₂ h₂ => ?_
    obtain ⟨hn, hws, u, hu, hm'⟩ := h₂
    refine ⟨?_, ?_, t ++ u, ?_, ?_⟩
    · rw [hn, List.length_cons]
      omega
    · intro v hv
      rcases List.mem_cons.1 hv with rfl | hv
      · exact hw
      · exact hws v hv
    · rw [List.zipIdx_cons, List.flatMap_cons]
      exact written_append ht hu
    · rw [hm', appendTo_append]

theorem writeSheet_meets (hE : ∀ x, Budget env x → E x) {rows : List Row} {index : ℕ}
    (hnames : ∀ column ∈ columns, ∀ at' x,
      textCell at' (column.name.getD []) true = .error x → E x)
    (hbad : ∀ values ∈ rows, Bad loads columns E values)
    {members : List Member} (h : s.members = members) :
    Meets E (writeSheet env loads columns index rows) s fun n s' =>
      n = rows.length ∧ (∀ values ∈ rows, values.length = columns.length) ∧
        ∃ t, sheet loads columns rows = .ok t ∧
          s'.members = ⟨sheetName index, t⟩ :: members := by
  have hheader : ∀ piece ∈ headerCells columns, ∀ x, piece = .error x → E x := by
    intro piece hp x hx
    obtain ⟨⟨column, number⟩, hm, rfl⟩ := List.mem_map.1 hp
    exact hnames column (List.fst_mem_of_mem_zipIdx hm) _ x hx
  have hopened : Meets E (openMember env (sheetName index)) s fun _ s' =>
      s'.members = ⟨sheetName index, []⟩ :: members :=
    .modify_bind (operate_meets hE (congrArg (⟨sheetName index, []⟩ :: ·) h))
  refine .bind hopened fun _ s₁ h₁ => ?_
  refine .bind (writeText_meets hE _ h₁) fun _ s₂ h₂ => ?_
  refine .bind (writeAll_meets hE hheader h₂) fun _ s₃ h₃ => ?_
  obtain ⟨t, ht, hm⟩ := h₃
  refine .bind (writeText_meets hE _ hm) fun _ s₄ h₄ => ?_
  refine .bind (writeRows_meets hE hbad h₄) fun n s₅ h₅ => ?_
  obtain ⟨hn, hws, u, hu, hm'⟩ := h₅
  rw [Nat.zero_add] at hn
  refine .bind (writeText_meets hE _ hm') fun _ s₆ h₆ => ?_
  refine .bind (operate_meets hE h₆) fun _ s₇ h₇ => ?_
  refine .bind (check_meets hE true h₇) fun _ s₈ h₈ => .pure ⟨hn, hws, ?_⟩
  refine ⟨sheetHead ++ (t ++ (rowTail ++ (u ++ (sheetTail columns.length n ++ [])))), ?_, ?_⟩
  · rw [hn]
    exact written_cons rfl (written_append ht (written_cons rfl (written_append hu
      (written_cons rfl rfl))))
  · rw [h₈, appendTo_append, appendTo_append, appendTo_append, appendTo_append, appendTo_opened]
    simp only [List.append_nil]

end Worksheets

/-! ## Splitting -/

/-- The rows in worksheets of so many rows, of which only that of no rows at all is empty. -/
inductive Split (maxDataRows : ℕ) : List Row → List (List Row) → Prop
  | last (rows : List Row) (h : rows.length ≤ maxDataRows) : Split maxDataRows rows [rows]
  | more (rows rest : List Row) (sheets : List (List Row)) (h : rows.length = maxDataRows)
    (hr : rest ≠ []) (hs : Split maxDataRows rest sheets) :
    Split maxDataRows (rows ++ rest) (rows :: sheets)

namespace Split

variable {maxDataRows} {rows : List Row} {sheets : List (List Row)}

theorem flatten (h : Split maxDataRows rows sheets) : sheets.flatten = rows := by
  induction h with
  | last rows h => exact List.append_nil rows
  | more rows rest sheets h hr hs ih => rw [List.flatten_cons, ih]

theorem ne_nil (h : Split maxDataRows rows sheets) : sheets ≠ [] := by
  cases h <;> exact List.cons_ne_nil _ _

theorem full (h : Split maxDataRows rows sheets) :
    ∀ sheet ∈ sheets.dropLast, sheet.length = maxDataRows := by
  induction h with
  | last rows h => exact fun sheet hs => absurd hs List.not_mem_nil
  | more rows rest sheets h hr hs ih =>
    rw [List.dropLast_cons_of_ne_nil hs.ne_nil]
    intro sheet hm
    rcases List.mem_cons.1 hm with rfl | hm
    · exact h
    · exact ih sheet hm

theorem number (h : Split maxDataRows rows sheets) (hM : 1 ≤ maxDataRows) :
    sheets.length = max 1 ((rows.length + maxDataRows - 1) / maxDataRows) := by
  induction h with
  | last rows h =>
    have hle : (rows.length + maxDataRows - 1) / maxDataRows ≤ 1 := by
      rw [Nat.div_le_iff_le_mul_add_pred hM]
      omega
    rw [List.length_singleton]
    omega
  | more rows rest sheets h hr hs ih =>
    have hpos := List.length_pos_iff.2 hr
    have hstep : (rows ++ rest).length + maxDataRows - 1 =
        (rest.length + maxDataRows - 1) + maxDataRows := by
      rw [List.length_append, h]
      omega
    have hone : 1 ≤ (rest.length + maxDataRows - 1) / maxDataRows := by
      rw [Nat.le_div_iff_mul_le hM]
      omega
    rw [List.length_cons, ih, hstep, Nat.add_div_right _ hM]
    omega

end Split

/-- The rows of a worksheet are the next ones, and it is full if there are more. -/
theorem sheetRows_spec {maxDataRows : ℕ} (hM : 1 ≤ maxDataRows) (first : Option Row)
    (source : List Row) (hfirst : first = none → source = []) :
    first.toList ++ source = (sheetRows maxDataRows first source).1 ++
        (sheetRows maxDataRows first source).2 ∧
      (sheetRows maxDataRows first source).1.length ≤ maxDataRows ∧
      ((sheetRows maxDataRows first source).2 ≠ [] →
        (sheetRows maxDataRows first source).1.length = maxDataRows) := by
  cases first with
  | none =>
    rw [hfirst rfl]
    exact ⟨rfl, Nat.zero_le _, fun h => absurd rfl h⟩
  | some row =>
    simp only [sheetRows, Option.toList_some, List.cons_append, List.nil_append, List.length_cons,
      List.take_append_drop, List.length_take, true_and]
    refine ⟨by omega, fun h => ?_⟩
    have hlt : maxDataRows - 1 < source.length := List.length_lt_of_drop_ne_nil h
    omega

/-- A member that is the worksheet of some rows. -/
def IsSheet (rows : List Row × ℕ) (member : Member) : Prop :=
  member.name = sheetName rows.2 ∧ sheet loads columns rows.1 = .ok member.content

section Export

variable {env} {loads} {columns} {maxDataRows} {E : Raised → Prop}

theorem writeSheets_meets (loads : Text → Bool) (hE : ∀ x, Budget env x → E x) (hM : 1 ≤ maxDataRows)
    (hnames : ∀ column ∈ columns, ∀ at' x,
      textCell at' (column.name.getD []) true = .error x → E x)
    (sheets count : ℕ) (first : Option Row) (source : List Row) (s : State)
    (members : List Member) (hfirst : first = none → source = [])
    (hbad : ∀ values ∈ first.toList ++ source, Bad loads columns E values)
    (h : s.members = members) :
    Meets E (writeSheets env loads columns maxDataRows sheets count first source) s
      fun r s' => ∃ (split : List (List Row)) (ms : List Member),
        Split maxDataRows (first.toList ++ source) split ∧
        r = (count + (first.toList ++ source).length, sheets + split.length) ∧
        (∀ values ∈ first.toList ++ source, values.length = columns.length) ∧
        List.Forall₂ (IsSheet loads columns) (split.zipIdx (sheets + 1)) ms ∧
        s'.members = ms.reverse ++ members := by
  obtain ⟨hrows, hle, hfull⟩ := sheetRows_spec hM first source hfirst
  rw [writeSheets]
  rw [hrows] at hbad ⊢
  refine .bind (writeSheet_meets hE hnames (fun v hv => hbad v (List.mem_append_left _ hv)) h)
    fun n s₁ h₁ => ?_
  obtain ⟨rfl, hws, t, ht, hm⟩ := h₁
  split
  · rename_i hleft
    refine .pure ⟨[(sheetRows maxDataRows first source).1], [⟨sheetName (sheets + 1), t⟩], ?_, ?_,
      ?_, .cons ⟨rfl, ht⟩ .nil, hm⟩
    · rw [hleft, List.append_nil]
      exact .last _ hle
    · rw [hleft, List.append_nil]
      rfl
    · rw [hleft, List.append_nil]
      exact hws
  · rename_i row rest hleft
    rw [hleft] at hbad
    have hne : (sheetRows maxDataRows first source).2 ≠ [] := by
      rw [hleft]
      exact List.cons_ne_nil _ _
    have hless : rest.length < source.length := by
      have hlen := length_left_le maxDataRows first source
      rw [hleft, List.length_cons] at hlen
      exact hlen
    refine (writeSheets_meets loads hE hM hnames (sheets + 1) _ (some row) rest s₁ _ nofun
      (fun v hv => hbad v (List.mem_append_right _ hv)) hm).mono fun r s₂ h₂ => ?_
    obtain ⟨split, ms, hsplit, rfl, hws', hms, hm'⟩ := h₂
    refine ⟨(sheetRows maxDataRows first source).1 :: split, ⟨sheetName (sheets + 1), t⟩ :: ms,
      ?_, ?_, ?_, .cons ⟨rfl, ht⟩ hms, ?_⟩
    · rw [hleft]
      exact .more _ _ _ (hfull hne) (List.cons_ne_nil _ _) hsplit
    · have hrest : ((some row).toList ++ rest).length = rest.length + 1 := rfl
      rw [hleft, hrest, List.length_append, List.length_cons, List.length_cons, Prod.mk.injEq]
      omega
    · rw [hleft]
      intro v hv
      rcases List.mem_append.1 hv with hv | hv
      · exact hws v hv
      · exact hws' v hv
    · rw [hm', List.reverse_cons, List.append_assoc]
      rfl
termination_by source.length

theorem files_meets (hE : ∀ x, Budget env x → E x) : ∀ (files : List (Text × Text)) {s : State}
    {members : List Member}, s.members = members →
    Meets E (files.forM fun (name, value) => file env name value) s fun _ s' =>
      s'.members = (files.map fun (name, value) => (⟨name, value⟩ : Member)).reverse ++ members
  | [], _, _, h => .pure h
  | (name, value) :: files, s, members, h => by
    have hfile : Meets E (file env name value) s fun _ s' =>
        s'.members = ⟨name, value⟩ :: members := by
      refine .bind (xml_meets hE value h) fun _ s₁ h₁ => .modify_bind ?_
      exact operate_meets hE (congrArg (⟨name, value⟩ :: ·) h₁)
    refine .bind hfile fun _ s₁ h₁ => (files_meets hE files h₁).mono fun _ s₂ h₂ => ?_
    rw [h₂, List.map_cons, List.reverse_cons, List.append_assoc]
    rfl

end Export

/-! ## The export -/

/-- The number of a column, from its name. -/
def columnNumber (name : Text) : ℕ := name.foldl (fun n c => n * 26 + (c - 64)) 0

theorem foldl_columnDigits : ∀ (fuel index : ℕ) (name : Text) , index ≤ fuel →
    (columnDigits fuel index name).foldl (fun n c => n * 26 + (c - 64)) 0 =
      name.foldl (fun n c => n * 26 + (c - 64)) index
  | 0, index, name, h => by
    obtain rfl := Nat.le_zero.1 h
    rfl
  | fuel + 1, index, name, h => by
    rw [columnDigits]
    split_ifs with hi
    · rw [hi]
    · rw [foldl_columnDigits fuel _ _ (by omega), List.foldl_cons]
      congr 1
      omega

/-- The name of a column says its number. -/
theorem columnNumber_name (index : ℕ) : columnNumber (columnName index) = index :=
  foldl_columnDigits index index [] (Nat.le_refl _)

/-- Before an export. -/
def start : State := ⟨0, 0, 0, 0, 0, none, 0, 0, []⟩

/-- An export writes its rows in order, each once, to worksheets that are full but for the last, of
which there are as many as the rows fill, or one; or it fails for its budgets, or what it is
given. -/
theorem rows_split (hM : 1 ≤ maxDataRows) (rows : List Row) (timeout : Int) :
    (Meets (Failure env loads columns rows timeout)
      (writeXlsx env loads columns maxDataRows rows timeout) start fun report s =>
        ∃ (sheets : List (List Row)) (members : List Member),
          sheets.flatten = rows ∧ (∀ sheet ∈ sheets.dropLast, sheet.length = maxDataRows) ∧
          sheets.length = max 1 ((rows.length + maxDataRows - 1) / maxDataRows) ∧
          report.rowCount = rows.length ∧ report.sheetCount = sheets.length ∧
          (∀ row ∈ rows, row.length = columns.length) ∧
          List.Forall₂ (IsSheet loads columns) (sheets.zipIdx 1) members ∧
          s.members.reverse = members ++
            (packageFiles sheets.length).map fun (name, value) => ⟨name, value⟩) ∧
    ∀ index, columnNumber (columnName index) = index := by
  refine ⟨?_, columnNumber_name⟩
  have hE : ∀ x, Budget env x → Failure env loads columns rows timeout x := fun x => .budget x
  refine .ite (fun hc => .throw (.columns hc)) fun _ => ?_
  refine .ite (fun ht => .throw (.timeout ht)) fun _ => ?_
  have hstart : start.members = [] := rfl
  refine .bind (monotonic_meets hstart) fun now s₁ h₁ => .modify_bind ?_
  refine .bind (check_meets hE true h₁) fun _ s₂ h₂ => ?_
  have hrows : rows.head?.toList ++ rows.tail = rows := by cases rows <;> rfl
  have hnames : ∀ column ∈ columns, ∀ at' x, textCell at' (column.name.getD []) true = .error x →
      Failure env loads columns rows timeout x :=
    fun column hc at' x hx => .name column hc at' x hx
  have hsheets := writeSheets_meets loads hE hM hnames 0 0 rows.head? rows.tail s₂ []
    (by cases rows <;> simp) (fun values hv => ?_) h₂
  · rw [hrows] at hsheets
    refine .bind hsheets fun r s₃ h₃ => ?_
    obtain ⟨sheets, members, hsplit, rfl, hws, hms, hm⟩ := h₃
    rw [Nat.zero_add, Nat.zero_add]
    refine .bind (files_meets hE _ hm) fun _ s₄ h₄ => ?_
    refine .bind (check_meets hE true h₄) fun _ s₅ h₅ => ?_
    refine .bind (operate_meets hE h₅) fun _ s₆ h₆ => ?_
    refine .bind (check_meets hE true h₆) fun _ s₇ h₇ => .get_bind (.pure ?_)
    refine ⟨sheets, members, hsplit.flatten, hsplit.full, hsplit.number hM, rfl, rfl, hws, hms, ?_⟩
    rw [h₇]
    simp
  · rw [hrows] at hv
    exact ⟨fun hw => .width values hv hw, fun value hm at' dataType x hx =>
      .value values hv value hm at' dataType x hx⟩

def demoEnv : Env where
  now k := k
  authorize _ := none
  archive _ := [.write 64]
  sink _ := .ok (some 64)

def demoColumns : List Column :=
  [⟨some (text "id"), some "int8"⟩, ⟨some (text "name"), some "text"⟩]

def demoRows : List Row :=
  [[.int 1, .str (text "ada")], [.int 2, .none], [.int 3, .str (text "a<b")]]

/-- Three rows fill one worksheet of two and begin another. -/
theorem rows_split_demo :
    Meets (Failure demoEnv (fun _ => true) demoColumns demoRows second)
      (writeXlsx demoEnv (fun _ => true) demoColumns 2 demoRows second) start fun report s =>
        report.rowCount = 3 ∧ report.sheetCount = 2 ∧ s.members.length = 7 := by
  have hsplit := (rows_split demoEnv (fun _ => true) demoColumns 2 (by decide) demoRows second).1
  refine hsplit.mono fun report s h => ?_
  obtain ⟨sheets, members, -, -, hnumber, hrows, hsheets, -, hms, hm⟩ := h
  have htwo : sheets.length = 2 := hnumber
  have hlen := congrArg List.length hm
  rw [List.length_reverse, List.length_append, ← hms.length_eq, List.length_zipIdx, htwo] at hlen
  exact ⟨hrows, hsheets.trans htwo, hlen⟩

end Xlsx
