import SqlDialect.Render.Pieces

/-!
Compiling. A walk of a tree writes its text into a context and binds its values there. There is a walker for
each kind of layer; it writes what is its own and lets the parts write, in the order of the text.
-/
set_option autoImplicit false

namespace SqlDialect

structure Context where
  sql : String := ""
  params : List Value := []

abbrev Walk := StateM Context Unit

namespace Walk

def append (s : String) : Walk :=
  modify fun ctx => { ctx with sql := ctx.sql ++ s }

/-- Binds a value and gives its position, from one on. -/
def addParam (v : Value) : StateM Context Nat :=
  modifyGet fun ctx => (ctx.params.length + 1, { ctx with params := ctx.params ++ [v] })

def list : List Walk → Walk
  | [] => pure ()
  | first :: rest => do
    first
    rest.forM fun item => do
      append ", "
      item

def inBrackets (body : Walk) : Walk := do
  append "("
  body
  append ")"

def clause (keyword : String) : Option Walk → Walk
  | none => pure ()
  | some body => do
    append keyword
    body

def listClause (keyword : String) : List Walk → Walk
  | [] => pure ()
  | items => do
    append keyword
    list items

def word (s : String) (present : Bool) : Walk :=
  if present then append s else pure ()

end Walk

open Walk

namespace Dialect

variable (d : Dialect)

def appendIdentifier (name : String) : Walk :=
  append (d.quote name)

def appendValue (v : Value) : Walk := do
  let position ← addParam v
  append (d.placeholder position)

def writeColumns (names : List String) : Walk :=
  inBrackets (list (names.map d.appendIdentifier))

def writeCall (name : String) (arguments : List Walk) : Walk := do
  append name
  inBrackets (list arguments)

def walkTable (t : Table) : Walk := do
  match t.schema with
  | none => pure ()
  | some schema =>
    d.appendIdentifier schema
    append "."
  d.appendIdentifier t.name

def visitTable (t : Table) : Walk :=
  match t.schema.map d.qualifier with
  | some (.projectDataset project dataset) => do
    d.appendIdentifier project
    append "."
    d.appendIdentifier dataset
    append "."
    d.appendIdentifier t.name
  | _ => d.walkTable t

def walkReference (r : Reference) : Walk := do
  match r.table with
  | none => pure ()
  | some t =>
    d.visitTable t
    append "."
  if r.column = "*" then append "*" else d.appendIdentifier r.column

def walkSelection : Selection Walk → Walk
  | .all => append "*"
  | .allFrom t => do
    d.visitTable t
    append ".*"
  | .expression e => e

def walkJoin (j : Join Walk) : Walk := do
  append (" " ++ j.kind.name ++ " join ")
  j.source
  clause " on " j.condition

def walkSetOperation (o : SetOperation Walk) : Walk := do
  append (" " ++ d.setKeyword o.operator o.all ++ " ")
  o.operand

def walkSortKey (k : SortKey Walk) : Walk := do
  k.expression
  match k.direction with
  | none => pure ()
  | some direction => append (" " ++ direction.name)

def walkSelections : List (Selection Walk) → Walk
  | [] => append "*"
  | items => list (items.map d.walkSelection)

def walkSelect (q : Select Walk) : Walk := do
  append "select "
  word "distinct " q.distinct
  d.walkSelections q.selections
  listClause " from " q.sources
  q.joins.forM walkJoin
  clause " where " q.filter
  listClause " group by " q.groupBy
  clause " having " q.having
  q.setOperations.forM d.walkSetOperation
  listClause " order by " (q.orderBy.map walkSortKey)
  clause " limit " q.limit
  clause " offset " q.offset

def walkRows (rows : List (List Walk)) : Walk := do
  append " values "
  list (rows.map fun row => inBrackets (list row))

def walkTargets (names : List String) : Walk := do
  unless names.isEmpty do
    append " "
    d.writeColumns names

def walkContent : (query : Option Walk) → (rows : Option (List (List Walk))) → Walk
  | some query, _ => do
    append " "
    query
  | none, some rows => walkRows rows
  | none, none => pure ()

def walkInsert (q : Insert Walk) : Walk := do
  append "insert into "
  d.visitTable q.target
  d.walkTargets q.columns
  walkContent q.query q.rows

def walkMutationFilter (filter : Option Walk) : Walk :=
  clause " where " (filter <|> d.missingFilter.map append)

def walkAssignment (a : Assignment Walk) : Walk := do
  d.appendIdentifier a.column
  append " = "
  a.value

def walkUpdate (q : Update Walk) : Walk := do
  append "update "
  d.visitTable q.target
  append " set "
  list (q.assignments.map d.walkAssignment)
  listClause " from " q.sources
  d.walkMutationFilter q.filter

def walkDelete (q : Delete Walk) : Walk := do
  append "delete from "
  d.visitTable q.target
  d.walkMutationFilter q.filter

def walkReferences (r : References) : Walk := do
  append "references "
  d.visitTable r.table
  append " "
  d.writeColumns r.columns
  clause " on delete " (r.onDelete.map fun action => append action.keyword)
  clause " on update " (r.onUpdate.map fun action => append action.keyword)

def walkColumn (c : Column Walk) : Walk := do
  d.appendIdentifier c.name
  append (" " ++ c.dataType)
  clause " default " c.defaultTo
  word " primary key" c.primaryKey
  word " unique" c.unique
  word " not null" c.notNull
  clause " " (c.references.map d.walkReferences)
  word d.keySuffix c.isKey

def walkCreateTable (q : CreateTable Walk) : Walk := do
  append "create table "
  word "if not exists " q.ifNotExists
  d.visitTable q.target
  append " ("
  list (q.columns.map d.walkColumn)
  q.constraints.forM fun constraint => do
    append ", "
    constraint
  append ")"

def walkConstraintName : Option String → Walk
  | none => pure ()
  | some name => do
    append "constraint "
    d.appendIdentifier name
    append " "

def walkKey (keyword : String) (k : Key) : Walk := do
  d.walkConstraintName k.name
  append keyword
  d.writeColumns k.columns
  append d.keySuffix

def walkForeignKey (k : ForeignKey) : Walk := do
  d.walkConstraintName k.name
  append "foreign key "
  d.writeColumns k.columns
  append " "
  d.walkReferences k.references
  append d.keySuffix

def walkCall (name : String) (arguments : List Walk) : Walk :=
  let (name, arguments) := (d.callRule name).apply name arguments
  writeCall name arguments

def walkRaw (r : Raw Walk) : Walk :=
  (d.respell r.fragments r.parameters).forM fun
    | .text s => append s
    | .param p => p

/-- The walker of a layer whose parts are walks already. -/
def walk : Layer Walk → Walk
  | .select q => d.walkSelect q
  | .insert q => d.walkInsert q
  | .update q => d.walkUpdate q
  | .delete q => d.walkDelete q
  | .createTable q => d.walkCreateTable q
  | .table t => d.visitTable t
  | .identifier name => d.appendIdentifier name
  | .reference r => d.walkReference r
  | .aliased e name => do
    e
    append " as "
    d.appendIdentifier name
  | .value v => d.appendValue v
  | .valueList es => inBrackets (list es)
  | .call name arguments => d.walkCall name arguments
  | .binary l op r => do
    l
    append (" " ++ op ++ " ")
    r
  | .unary op e => do
    append (op ++ " ")
    e
  | .parens e => inBrackets e
  | .raw r => d.walkRaw r
  | .primaryKey k => d.walkKey "primary key " k
  | .uniqueKey k => d.walkKey "unique " k
  | .foreignKey k => d.walkForeignKey k
  | .column c => d.walkColumn c

def visit (n : Node) : Walk :=
  n.fold d.walk

end Dialect

structure Compiled where
  sql : String
  params : List Value
  query : Node

namespace Dialect

variable (d : Dialect)

/-- Compiles a tree and takes out of the context all that has been written. -/
def compileIn (n : Node) : StateM Context Compiled := do
  d.visit n
  let written ← modifyGet fun ctx => (ctx, {})
  return ⟨written.sql, written.params, n⟩

def compile (n : Node) : Compiled :=
  ((d.compileIn n).run {}).1

/-- Compiles trees one after the other in one context. -/
def compileEach (ctx : Context) (ns : List Node) : List Compiled :=
  ((ns.mapM d.compileIn).run ctx).1

end Dialect

end SqlDialect
