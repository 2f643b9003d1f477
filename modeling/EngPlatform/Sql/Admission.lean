import Mathlib.Data.Finset.Insert
import Mathlib.Data.Finset.Basic

/-!
# The admission of SQL

The parse tree of a statement, and the visitor that admits a small language of SELECT statements and
collects the relations that they name. A WITH clause belongs to its SELECT.
-/

set_option linter.dupNamespace false

namespace Sql

/-! ## Parse trees -/

/-- The classes of nodes that are supported, other than SELECT and its WITH clause, and all others. -/
inductive Kind
  | resTarget | columnRef | aStar | aConst | integer | float | string | boolean
  | rangeVar | rangeSubselect | joinExpr | alias | boolExpr | aExpr | sortBy | typeCast | typeName
  | funcCall | sqlValueFunction | coalesceExpr | minMaxExpr | nullTest | booleanTest | subLink
  | caseExpr | caseWhen | rowExpr | aArrayExpr | aIndices | aIndirection | windowDef
  | groupingSet | groupingFunc
  | statement (name : String)
  | unsupported (name : String)
  deriving DecidableEq

mutual

/-- What an attribute of a node is. -/
inductive Value
  | absent
  | bool (value : Bool)
  | int (value : ℤ)
  | text (value : String)
  | enum (name : String)
  | tuple (items : List Value)
  | node (node : Node)

inductive Node
  | select (withClause : Option With) (fields : List (String × Value))
  | other (kind : Kind) (fields : List (String × Value))

inductive With
  | mk (isRecursive : Bool) (ctes : List Cte)

/-- `CommonTableExpr`. -/
inductive Cte
  | mk (ctename : String) (ctequery : Node) (aliascolnames searchClause cycleClause : Value)

end

abbrev Fields : Type := List (String × Value)

def getattr (fields : Fields) (name : String) : Value := (fields.lookup name).getD .absent

/-- Whether Python takes a value for true. -/
def Value.truthy : Value → Bool
  | .absent => false
  | .bool b => b
  | .int i => i ≠ 0
  | .text s => s ≠ ""
  | .enum _ => true
  | .tuple items => !items.isEmpty
  | .node _ => true

def With.isRecursive : With → Bool
  | .mk r _ => r

def With.ctes : With → List Cte
  | .mk _ ctes => ctes

def Cte.ctename : Cte → String
  | .mk name _ _ _ _ => name

def Cte.ctequery : Cte → Node
  | .mk _ query _ _ _ => query

def Cte.aliascolnames : Cte → Value
  | .mk _ _ columns _ _ => columns

def Cte.searchClause : Cte → Value
  | .mk _ _ _ search _ => search

def Cte.cycleClause : Cte → Value
  | .mk _ _ _ _ cycle => cycle

def Node.isSelect : Node → Bool
  | .select _ _ => true
  | .other _ _ => false

/-! ## What is supported -/

def safeFunctions : List String :=
  ["count", "sum", "avg", "min", "max", "abs", "ceil", "ceiling", "floor", "round", "trunc", "lower", "upper", "length",
    "char_length", "character_length", "octet_length", "substring", "substr", "left", "right", "trim",
    "btrim", "ltrim", "rtrim", "replace", "concat", "concat_ws", "date_trunc", "date_part", "extract",
    "now", "transaction_timestamp", "age", "to_char", "row_number", "rank", "dense_rank", "lag", "lead",
    "first_value", "last_value", "nth_value", "nullif", "greatest", "least"]

def safeTypes : List String :=
  ["bool", "boolean", "int2", "int4", "int8", "smallint", "integer", "bigint", "numeric", "decimal", "real",
    "float4", "float8", "double", "precision", "text", "varchar", "bpchar", "char", "character", "date",
    "timestamp", "timestamptz", "time", "timetz", "interval", "uuid", "json", "jsonb", "bytea"]

def safeOperators : List String :=
  ["+", "-", "*", "/", "%", "^", "=", "<>", "!=", "<", ">", "<=", ">=", "~~", "!~~", "~~*", "!~~*", "||", "->", "->>",
    "#>", "#>>", "@>", "<@", "?", "?|", "?&"]

/-- Whether a class is of `SAFE_NODES`. -/
def Kind.safe : Kind → Bool
  | .statement _ => false
  | .unsupported _ => false
  | _ => true

/-- The name of `String` nodes, of which there are some. -/
def sval : Value → Except String String
  | .node (.other .string fields) =>
    match getattr fields "sval" with
    | .text s => .ok s
    | _ => .error "Invalid or unsupported SELECT"
  | _ => .error "Unsupported identifier"

/-- `_names`. -/
def names : Value → Except String (List String)
  | .tuple (item :: items) => (item :: items).mapM sval
  | _ => .error "Unsupported identifier"

def betweenKinds : List String :=
  ["AEXPR_BETWEEN", "AEXPR_NOT_BETWEEN", "AEXPR_BETWEEN_SYM", "AEXPR_NOT_BETWEEN_SYM"]

def betweenNames : List String := ["BETWEEN", "NOT BETWEEN", "BETWEEN SYMMETRIC", "NOT BETWEEN SYMMETRIC"]

def valueFunctions : List String :=
  ["SVFOP_CURRENT_DATE", "SVFOP_CURRENT_TIME", "SVFOP_CURRENT_TIME_N", "SVFOP_CURRENT_TIMESTAMP",
    "SVFOP_CURRENT_TIMESTAMP_N", "SVFOP_LOCALTIME", "SVFOP_LOCALTIME_N", "SVFOP_LOCALTIMESTAMP",
    "SVFOP_LOCALTIMESTAMP_N"]

/-- A name that may be qualified with `pg_catalog`. -/
def allowed (list : List String) : List String → Bool
  | [name] => name ∈ list
  | [schema, name] => schema = "pg_catalog" && name ∈ list
  | _ => false

/-- Whether the words of a BETWEEN are the name. -/
def between (kind : Value) (names : List String) : Bool :=
  match kind, names with
  | .enum kind, [name] => kind ∈ betweenKinds && name ∈ betweenNames
  | _, _ => false

def safeOperator : List String → Bool
  | [name] => name ∈ safeOperators
  | _ => false

/-! ## The visitor -/

/-- What the visitor has collected. -/
structure State where
  relations : Finset (String × String)
  visited : ℕ

def checkRangeVar (schemas : List String) (visible : List String) (fields : Fields) (s : State) :
    Except String State :=
  match (getattr fields "catalogname").truthy, getattr fields "relname", getattr fields "schemaname" with
  | false, .text relname, .absent =>
    if relname ∈ visible then .ok s else .error "Tables must be schema-qualified"
  | false, .text relname, .text schemaname =>
    if schemaname ∈ schemas then .ok { s with relations := insert (schemaname, relname) s.relations }
    else .error "Schema is not authorized"
  | _, _, _ => .error "Unsupported relation"

def checkFuncCall (fields : Fields) : Except String Unit := do
  let names ← names (getattr fields "funcname")
  if allowed safeFunctions names then .ok () else .error "Function is not supported"

def checkAExpr (fields : Fields) : Except String Unit := do
  let names ← names (getattr fields "name")
  if between (getattr fields "kind") names || safeOperator names then .ok () else .error "Operator is not supported"

def checkSortBy (fields : Fields) : Except String Unit :=
  if (getattr fields "useOp").truthy then .error "Custom ordering is disabled" else .ok ()

def checkTypeName (fields : Fields) : Except String Unit := do
  let names ← names (getattr fields "names")
  if allowed safeTypes names && !(getattr fields "setof").truthy && !(getattr fields "pct_type").truthy then .ok ()
  else .error "Type is not supported"

def checkValueFunction (fields : Fields) : Except String Unit :=
  match getattr fields "op" with
  | .enum op => if op ∈ valueFunctions then .ok () else .error "SQL value function is not supported"
  | _ => .error "Invalid or unsupported SELECT"

/-- The checks of a node that is no SELECT. -/
def check (schemas : List String) (visible : List String) (kind : Kind) (fields : Fields) (s : State) :
    Except String State :=
  match kind with
  | .rangeVar => checkRangeVar schemas visible fields s
  | .funcCall => (checkFuncCall fields).map fun _ => s
  | .aExpr => (checkAExpr fields).map fun _ => s
  | .sortBy => (checkSortBy fields).map fun _ => s
  | .typeName => (checkTypeName fields).map fun _ => s
  | .sqlValueFunction => (checkValueFunction fields).map fun _ => s
  | _ => .ok s

/-- What visits a value in a scope. -/
abbrev Visit : Type := Value → List String → State → Except String State

/-- The elements of a tuple, and the attributes of a node. -/
def visitAll (visit : Visit) (visible : List String) (s : State) (values : List Value) : Except String State :=
  values.foldlM (fun s value => visit value visible s) s

/-- The queries of a WITH clause; the names that are in scope after them. -/
def visitCtes (visit : Visit) (isRecursive : Bool) : List Cte → List String → State →
    Except String (List String × State)
  | [], visible, s => .ok (visible, s)
  | cte :: ctes, visible, s =>
    let scope := if isRecursive then cte.ctename :: visible else visible
    if !cte.ctequery.isSelect then .error "Writing CTE is disabled"
    else do
      let s ← visit (.node cte.ctequery) scope s
      if cte.searchClause.truthy || cte.cycleClause.truthy then .error "Unsupported CTE construct"
      else do
        let s ← visit cte.aliascolnames visible s
        visitCtes visit isRecursive ctes (cte.ctename :: visible) s

/-- The names that are in scope in a SELECT. -/
def visitWith (visit : Visit) (visible : List String) (s : State) : Option With → Except String (List String × State)
  | none => .ok (visible, s)
  | some w => visitCtes visit w.isRecursive w.ctes visible s

def visitNode (visit : Visit) (schemas : List String) (visible : List String) (s : State) :
    Node → Except String State
  | .select withClause fields =>
    if s.visited + 1 > 4096 then .error "Unsupported SQL construct"
    else if (getattr fields "intoClause").truthy || (getattr fields "lockingClause").truthy ||
        (getattr fields "valuesLists").truthy then
      .error "SELECT INTO and locking are disabled"
    else do
      let inner ← visitWith visit visible { s with visited := s.visited + 1 } withClause
      visitAll visit inner.1 inner.2 (fields.map Prod.snd)
  | .other kind fields =>
    if s.visited + 1 > 4096 || !kind.safe then .error "Unsupported SQL construct"
    else do
      let s ← check schemas visible kind fields { s with visited := s.visited + 1 }
      visitAll visit visible s (fields.map Prod.snd)

/-- `visit`, with so many frames of the stack left. -/
def visit (schemas : List String) : ℕ → Visit
  | 0, _, _, _ => .error "Invalid or unsupported SELECT"
  | stack + 1, .tuple items, visible, s => visitAll (visit schemas stack) visible s items
  | stack + 1, .node node, visible, s => visitNode (visit schemas stack) schemas visible s node
  | _ + 1, _, _, s => .ok s

/-- `validate_query`, with what the parser makes of the text and the size of the stack. -/
def validateQuery (parse : String → Option (List Node)) (stack : ℕ) (sql : String) (schemas : List String) :
    Except String (Finset (String × String)) :=
  match parse sql with
  | none => .error "Invalid or unsupported SELECT"
  | some [.select withClause fields] =>
    (visit schemas stack (.node (.select withClause fields)) [] ⟨∅, 0⟩).map State.relations
  | some _ => .error "Only one SELECT is supported"

end Sql
