import SqlDialect.Tree.Node

set_option autoImplicit false

namespace SqlDialect

/-- The column called by a dotted name; what stands before the last dot names its table. -/
def Node.col (name : String) : Node :=
  match Text.cutLast '.' name.toList with
  | some (table, column) =>
    .mk (.reference ⟨some (Table.parse (String.ofList table)), String.ofList column⟩)
  | none => .mk (.reference ⟨none, name⟩)

def Node.ident (name : String) : Node :=
  .mk (.identifier name)

def Node.val (v : Value) : Node :=
  .mk (.value v)

def Node.table (qualified : String) : Node :=
  .mk (.table (Table.parse qualified))

def Node.call (name : String) (arguments : List Node) : Node :=
  .mk (.call name arguments)

def Node.binary (left : Node) (operator : String) (right : Node) : Node :=
  .mk (.binary left operator right)

def Node.eq (left right : Node) : Node :=
  .binary left "=" right

def Node.and (left right : Node) : Node :=
  .binary left "and" right

def Node.not (operand : Node) : Node :=
  .mk (.unary "not" operand)

def Node.aliased (e : Node) (name : String) : Node :=
  .mk (.aliased e name)

def Node.parens (e : Node) : Node :=
  .mk (.parens e)

def Node.list (vs : List Value) : Node :=
  .mk (.valueList (vs.map Node.val))

def Node.raw (fragments : List String) (parameters : List Node) : Node :=
  .mk (.raw ⟨fragments, parameters⟩)

def Node.rawSql (sql : String) : Node :=
  .raw [sql] []

/-- The condition with one more conjunct. -/
def andFilter (filter : Option Node) (e : Node) : Option Node :=
  match filter with
  | some f => some (f.and e)
  | none => some e

namespace Select

def ofTable (qualified : String) : Select Node :=
  { sources := [.table qualified] }

def addSelection (q : Select Node) (s : Selection Node) : Select Node :=
  { q with selections := q.selections ++ [s] }

def makeDistinct (q : Select Node) : Select Node :=
  { q with distinct := true }

def addFilter (q : Select Node) (e : Node) : Select Node :=
  { q with filter := andFilter q.filter e }

def addJoin (q : Select Node) (kind : JoinKind) (source condition : Node) : Select Node :=
  { q with joins := q.joins ++ [⟨kind, source, some condition⟩] }

def addGroup (q : Select Node) (e : Node) : Select Node :=
  { q with groupBy := q.groupBy ++ [e] }

def addSetOperation (q : Select Node) (operator : SetOperator) (operand : Select Node) (all : Bool) :
    Select Node :=
  { q with setOperations := q.setOperations ++ [⟨operator, .mk (.select operand), all⟩] }

def union (q operand : Select Node) : Select Node :=
  q.addSetOperation .union operand false

def unionAll (q operand : Select Node) : Select Node :=
  q.addSetOperation .union operand true

def addSort (q : Select Node) (e : Node) (direction : Direction) : Select Node :=
  { q with orderBy := q.orderBy ++ [⟨e, some direction⟩] }

def withLimit (q : Select Node) (n : Int64) : Select Node :=
  { q with limit := some (.val (.int n)) }

def withOffset (q : Select Node) (n : Int64) : Select Node :=
  { q with offset := some (.val (.int n)) }

end Select

namespace Insert

def ofTable (qualified : String) : Insert Node :=
  { target := Table.parse qualified }

def withColumns (q : Insert Node) (columns : List String) : Insert Node :=
  { q with columns }

def addRow (q : Insert Node) (row : List Node) : Insert Node :=
  { q with rows := some (q.rows.getD [] ++ [row]) }

def addValues (q : Insert Node) (row : List Value) : Insert Node :=
  q.addRow (row.map Node.val)

end Insert

namespace Update

def ofTable (qualified : String) : Update Node :=
  { target := Table.parse qualified }

def set (q : Update Node) (column : String) (value : Node) : Update Node :=
  { q with assignments := q.assignments ++ [⟨column, value⟩] }

def setValue (q : Update Node) (column : String) (value : Value) : Update Node :=
  q.set column (.val value)

def addFilter (q : Update Node) (e : Node) : Update Node :=
  { q with filter := andFilter q.filter e }

end Update

namespace Delete

def ofTable (qualified : String) : Delete Node :=
  { target := Table.parse qualified }

def addFilter (q : Delete Node) (e : Node) : Delete Node :=
  { q with filter := andFilter q.filter e }

end Delete

namespace CreateTable

def ofTable (qualified : String) : CreateTable Node :=
  { target := Table.parse qualified }

def onlyIfMissing (q : CreateTable Node) : CreateTable Node :=
  { q with ifNotExists := true }

def addColumn (q : CreateTable Node) (c : Column Node) : CreateTable Node :=
  { q with columns := q.columns ++ [c] }

def addConstraint (q : CreateTable Node) (n : Node) : CreateTable Node :=
  { q with constraints := q.constraints ++ [n] }

end CreateTable

namespace Column

def ofType (name dataType : String) : Column Node :=
  { name, dataType }

def markNotNull (c : Column Node) : Column Node :=
  { c with notNull := true }

def markPrimaryKey (c : Column Node) : Column Node :=
  { c with primaryKey := true }

def markUnique (c : Column Node) : Column Node :=
  { c with unique := true }

def referTo (c : Column Node) (qualified column : String) : Column Node :=
  { c with references := some { table := Table.parse qualified, columns := [column] } }

def withDefault (c : Column Node) (e : Node) : Column Node :=
  { c with defaultTo := some e }

end Column

end SqlDialect
