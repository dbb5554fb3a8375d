import SqlDialect.Text
import SqlDialect.Value.Basic

set_option autoImplicit false

namespace SqlDialect

structure Table where
  schema : Option String := none
  name : String
  deriving DecidableEq

namespace Table

/-- The table called by a dotted name: what stands before the last dot qualifies what stands after it. -/
def parse (qualified : String) : Table :=
  match Text.cutLast '.' qualified.toList with
  | some (schema, name) => ⟨some (String.ofList schema), String.ofList name⟩
  | none => ⟨none, qualified⟩

def qualifiedName (t : Table) : String :=
  match t.schema with
  | some schema => schema ++ "." ++ t.name
  | none => t.name

end Table

inductive SetOperator where
  | union
  | intersect
  | except
  deriving DecidableEq

inductive Direction where
  | asc
  | desc
  deriving DecidableEq

inductive JoinKind where
  | inner
  | left
  | right
  | full
  | cross
  deriving DecidableEq

inductive KeyAction where
  | cascade
  | setNull
  | setDefault
  | restrict
  | noAction
  deriving DecidableEq

structure References where
  table : Table
  columns : List String
  onDelete : Option KeyAction := none
  onUpdate : Option KeyAction := none
  deriving DecidableEq

variable {α β : Type}

inductive Selection (α : Type) where
  | all
  | allFrom (table : Table)
  | expression (e : α)

structure SetOperation (α : Type) where
  operator : SetOperator
  operand : α
  all : Bool := false

structure Join (α : Type) where
  kind : JoinKind
  source : α
  condition : Option α := none

structure SortKey (α : Type) where
  expression : α
  direction : Option Direction := none

structure Assignment (α : Type) where
  column : String
  value : α

structure Select (α : Type) where
  distinct : Bool := false
  selections : List (Selection α) := []
  sources : List α := []
  joins : List (Join α) := []
  filter : Option α := none
  groupBy : List α := []
  having : Option α := none
  setOperations : List (SetOperation α) := []
  orderBy : List (SortKey α) := []
  limit : Option α := none
  offset : Option α := none

/-- A query takes precedence over rows. -/
structure Insert (α : Type) where
  target : Table
  columns : List String := []
  rows : Option (List (List α)) := none
  query : Option α := none

structure Update (α : Type) where
  target : Table
  assignments : List (Assignment α) := []
  sources : List α := []
  filter : Option α := none

structure Delete (α : Type) where
  target : Table
  filter : Option α := none

structure Column (α : Type) where
  name : String
  dataType : String
  notNull : Bool := false
  primaryKey : Bool := false
  unique : Bool := false
  references : Option References := none
  defaultTo : Option α := none

structure CreateTable (α : Type) where
  target : Table
  ifNotExists : Bool := false
  columns : List (Column α) := []
  constraints : List α := []

/-- A column, perhaps of a named table; the column `*` stands for all of them. -/
structure Reference where
  table : Option Table := none
  column : String
  deriving DecidableEq

/-- Text around parameters: a parameter follows each fragment as long as there are any. -/
structure Raw (α : Type) where
  fragments : List String
  parameters : List α := []

structure Key where
  name : Option String := none
  columns : List String
  deriving DecidableEq

structure ForeignKey where
  name : Option String := none
  columns : List String
  references : References
  deriving DecidableEq

inductive Layer (α : Type) where
  | select (q : Select α)
  | insert (q : Insert α)
  | update (q : Update α)
  | delete (q : Delete α)
  | createTable (q : CreateTable α)
  | table (t : Table)
  | identifier (name : String)
  | reference (r : Reference)
  | aliased (e : α) (name : String)
  | value (v : Value)
  | valueList (es : List α)
  | call (name : String) (arguments : List α)
  | binary (left : α) (operator : String) (right : α)
  | unary (operator : String) (operand : α)
  | parens (e : α)
  | raw (r : Raw α)
  | primaryKey (k : Key)
  | uniqueKey (k : Key)
  | foreignKey (k : ForeignKey)
  | column (c : Column α)

def Selection.map (f : α → β) : Selection α → Selection β
  | .all => .all
  | .allFrom t => .allFrom t
  | .expression e => .expression (f e)

def SetOperation.map (f : α → β) (o : SetOperation α) : SetOperation β :=
  ⟨o.operator, f o.operand, o.all⟩

def Join.map (f : α → β) (j : Join α) : Join β :=
  ⟨j.kind, f j.source, j.condition.map f⟩

def SortKey.map (f : α → β) (k : SortKey α) : SortKey β :=
  ⟨f k.expression, k.direction⟩

def Assignment.map (f : α → β) (a : Assignment α) : Assignment β :=
  ⟨a.column, f a.value⟩

def Select.map (f : α → β) (q : Select α) : Select β where
  distinct := q.distinct
  selections := q.selections.map (·.map f)
  sources := q.sources.map f
  joins := q.joins.map (·.map f)
  filter := q.filter.map f
  groupBy := q.groupBy.map f
  having := q.having.map f
  setOperations := q.setOperations.map (·.map f)
  orderBy := q.orderBy.map (·.map f)
  limit := q.limit.map f
  offset := q.offset.map f

def Insert.map (f : α → β) (q : Insert α) : Insert β :=
  ⟨q.target, q.columns, q.rows.map fun rows => rows.map fun row => row.map f, q.query.map f⟩

def Update.map (f : α → β) (q : Update α) : Update β :=
  ⟨q.target, q.assignments.map (·.map f), q.sources.map f, q.filter.map f⟩

def Delete.map (f : α → β) (q : Delete α) : Delete β :=
  ⟨q.target, q.filter.map f⟩

def Column.map (f : α → β) (c : Column α) : Column β :=
  ⟨c.name, c.dataType, c.notNull, c.primaryKey, c.unique, c.references, c.defaultTo.map f⟩

def CreateTable.map (f : α → β) (q : CreateTable α) : CreateTable β :=
  ⟨q.target, q.ifNotExists, q.columns.map (·.map f), q.constraints.map f⟩

def Raw.map (f : α → β) (r : Raw α) : Raw β :=
  ⟨r.fragments, r.parameters.map f⟩

def Layer.map (f : α → β) : Layer α → Layer β
  | .select q => .select (q.map f)
  | .insert q => .insert (q.map f)
  | .update q => .update (q.map f)
  | .delete q => .delete (q.map f)
  | .createTable q => .createTable (q.map f)
  | .table t => .table t
  | .identifier name => .identifier name
  | .reference r => .reference r
  | .aliased e name => .aliased (f e) name
  | .value v => .value v
  | .valueList es => .valueList (es.map f)
  | .call name arguments => .call name (arguments.map f)
  | .binary l op r => .binary (f l) op (f r)
  | .unary op e => .unary op (f e)
  | .parens e => .parens (f e)
  | .raw r => .raw (r.map f)
  | .primaryKey k => .primaryKey k
  | .uniqueKey k => .uniqueKey k
  | .foreignKey k => .foreignKey k
  | .column c => .column (c.map f)

/-- Whether a column is marked as a key or refers to one. -/
def Column.isKey (c : Column α) : Bool :=
  c.primaryKey || c.unique || c.references.isSome

def SetOperator.names : List (String × SetOperator) :=
  [("union", .union), ("intersect", .intersect), ("except", .except)]

def SetOperator.name : SetOperator → String
  | .union => "union"
  | .intersect => "intersect"
  | .except => "except"

def Direction.names : List (String × Direction) :=
  [("asc", .asc), ("desc", .desc)]

def Direction.name : Direction → String
  | .asc => "asc"
  | .desc => "desc"

def JoinKind.names : List (String × JoinKind) :=
  [("inner", .inner), ("left", .left), ("right", .right), ("full", .full), ("cross", .cross)]

def JoinKind.name : JoinKind → String
  | .inner => "inner"
  | .left => "left"
  | .right => "right"
  | .full => "full"
  | .cross => "cross"

def KeyAction.names : List (String × KeyAction) :=
  [("cascade", .cascade), ("set_null", .setNull), ("set_default", .setDefault),
    ("restrict", .restrict), ("no_action", .noAction)]

def KeyAction.name : KeyAction → String
  | .cascade => "cascade"
  | .setNull => "set_null"
  | .setDefault => "set_default"
  | .restrict => "restrict"
  | .noAction => "no_action"

def Selection.names : List String :=
  ["all", "all_from", "expression"]

def Layer.kinds : List String :=
  ["select", "insert", "update", "delete", "create_table", "table", "identifier", "reference", "alias",
    "value", "value_list", "function", "binary_operation", "unary_operation", "parens", "raw",
    "primary_key_constraint", "unique_constraint", "foreign_key_constraint", "column_definition"]

end SqlDialect
