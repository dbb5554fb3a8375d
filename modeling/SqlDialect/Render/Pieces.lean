import SqlDialect.Render.Dialect
import SqlDialect.Tree.Node

set_option autoImplicit false

namespace SqlDialect

open Piece

def KeyAction.keyword : KeyAction → String
  | .cascade => "cascade"
  | .setNull => "set null"
  | .setDefault => "set default"
  | .restrict => "restrict"
  | .noAction => "no action"

namespace Dialect

variable (d : Dialect)

def identifier (name : String) : List Piece :=
  [.text (d.quote name)]

def identifiers (names : List String) : List Piece :=
  commas (names.map d.identifier)

def plainTable (t : Table) : List Piece :=
  match t.schema with
  | none => d.identifier t.name
  | some schema => d.identifier schema ++ .text "." :: d.identifier t.name

def table (t : Table) : List Piece :=
  match t.schema.map d.qualifier with
  | some (.projectDataset project dataset) =>
    d.identifier project ++ .text "." :: d.identifier dataset ++ .text "." :: d.identifier t.name
  | some .ambiguous => .warn t :: d.plainTable t
  | _ => d.plainTable t

/-- The column `*` is not quoted. -/
def reference (r : Reference) : List Piece :=
  (match r.table with
    | none => []
    | some t => d.table t ++ [.text "."]) ++
  if r.column = "*" then [.text "*"] else d.identifier r.column

def selection : Selection (List Piece) → List Piece
  | .all => [.text "*"]
  | .allFrom t => d.table t ++ [.text ".*"]
  | .expression e => e

def join (j : Join (List Piece)) : List Piece :=
  .text (" " ++ j.kind.name ++ " join ") :: j.source ++ clause " on " j.condition

def setOperation (o : SetOperation (List Piece)) : List Piece :=
  .text (" " ++ d.setKeyword o.operator o.all ++ " ") :: o.operand

def sortKey (k : SortKey (List Piece)) : List Piece :=
  k.expression ++
    match k.direction with
    | none => []
    | some dir => [.text (" " ++ dir.name)]

/-- Without selections all columns are selected. -/
def selections : List (Selection (List Piece)) → List Piece
  | [] => [.text "*"]
  | items => commas (items.map d.selection)

def select (q : Select (List Piece)) : List Piece :=
  .text "select " :: word "distinct " q.distinct ++ d.selections q.selections ++
    listClause " from " q.sources ++ q.joins.flatMap join ++ clause " where " q.filter ++
    listClause " group by " q.groupBy ++ clause " having " q.having ++
    q.setOperations.flatMap d.setOperation ++ listClause " order by " (q.orderBy.map sortKey) ++
    clause " limit " q.limit ++ clause " offset " q.offset

def rows (rows : List (List (List Piece))) : List Piece :=
  .text " values " :: commas (rows.map fun row => inBrackets (commas row))

def insert (q : Insert (List Piece)) : List Piece :=
  .text "insert into " :: d.table q.target ++
    (if q.columns.isEmpty then [] else .text " (" :: d.identifiers q.columns ++ [.text ")"]) ++
    match q.query, q.rows with
    | some query, _ => .text " " :: query
    | none, some r => rows r
    | none, none => []

def assignment (a : Assignment (List Piece)) : List Piece :=
  d.identifier a.column ++ .text " = " :: a.value

def mutationFilter (filter : Option (List Piece)) : List Piece :=
  clause " where " (filter <|> d.missingFilter.map fun s => [.text s])

def update (q : Update (List Piece)) : List Piece :=
  .text "update " :: d.table q.target ++ .text " set " :: commas (q.assignments.map d.assignment) ++
    listClause " from " q.sources ++ d.mutationFilter q.filter

def delete (q : Delete (List Piece)) : List Piece :=
  .text "delete from " :: d.table q.target ++ d.mutationFilter q.filter

def references (r : References) : List Piece :=
  .text "references " :: d.table r.table ++ .text " (" :: d.identifiers r.columns ++
    .text ")" :: clause " on delete " (r.onDelete.map fun a => [.text a.keyword]) ++
    clause " on update " (r.onUpdate.map fun a => [.text a.keyword])

def plainColumn (c : Column (List Piece)) : List Piece :=
  d.identifier c.name ++ .text (" " ++ c.dataType) :: clause " default " c.defaultTo ++
    word " primary key" c.primaryKey ++ word " unique" c.unique ++ word " not null" c.notNull ++
    clause " " (c.references.map d.references)

def column (c : Column (List Piece)) : List Piece :=
  d.plainColumn c ++ word d.keySuffix c.isKey

/-- The columns and the constraints; a comma stands before each constraint. -/
def createTable (q : CreateTable (List Piece)) : List Piece :=
  .text "create table " :: word "if not exists " q.ifNotExists ++ d.table q.target ++
    .text " (" :: commas (q.columns.map d.column) ++
    q.constraints.flatMap (fun c => .text ", " :: c) ++ [.text ")"]

def constraintName : Option String → List Piece
  | none => []
  | some name => .text "constraint " :: d.identifier name ++ [.text " "]

def plainKey (keyword : String) (k : Key) : List Piece :=
  d.constraintName k.name ++ .text keyword :: inBrackets (d.identifiers k.columns)

def plainForeignKey (k : ForeignKey) : List Piece :=
  d.constraintName k.name ++ .text "foreign key " :: inBrackets (d.identifiers k.columns) ++
    .text " " :: d.references k.references

def call (name : String) (arguments : List (List Piece)) : List Piece :=
  let (name, arguments) := (d.callRule name).apply name arguments
  .text name :: inBrackets (commas arguments)

def rawPiece : Fragment.Piece (List Piece) → List Piece
  | .text s => [.text s]
  | .param p => p

def raw (r : Raw (List Piece)) : List Piece :=
  (d.respell r.fragments r.parameters).flatMap rawPiece

/-- The pieces of a node from the pieces of its parts. -/
def render : Layer (List Piece) → List Piece
  | .select q => d.select q
  | .insert q => d.insert q
  | .update q => d.update q
  | .delete q => d.delete q
  | .createTable q => d.createTable q
  | .table t => d.table t
  | .identifier name => d.identifier name
  | .reference r => d.reference r
  | .aliased e name => e ++ .text " as " :: d.identifier name
  | .value v => [.bind v]
  | .valueList es => inBrackets (commas es)
  | .call name arguments => d.call name arguments
  | .binary l op r => l ++ .text (" " ++ op ++ " ") :: r
  | .unary op e => .text (op ++ " ") :: e
  | .parens e => inBrackets e
  | .raw r => d.raw r
  | .primaryKey k => d.plainKey "primary key " k ++ [.text d.keySuffix]
  | .uniqueKey k => d.plainKey "unique " k ++ [.text d.keySuffix]
  | .foreignKey k => d.plainForeignKey k ++ [.text d.keySuffix]
  | .column c => d.column c

def pieces (n : Node) : List Piece :=
  n.fold d.render

/-- How many tables of a tree have a qualifier that could not be told apart. -/
def warnings (n : Node) : Nat :=
  (d.pieces n).countP Piece.isWarning

end Dialect

end SqlDialect
