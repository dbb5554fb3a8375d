import SqlDialect.Tree.Basic
import SqlDialect.Tree.Node
import SqlDialect.Value.Basic

set_option autoImplicit false

namespace SqlDialect

def encodeOption {α : Type} (encode : α → Json) : Option α → Json
  | none => .null
  | some x => encode x

def encodeTexts (ss : List String) : Json :=
  .array (ss.map .string)

def Table.members (t : Table) : Json.Members :=
  [("schema", encodeOption .string t.schema), ("name", .string t.name)]

def Table.encode (t : Table) : Json :=
  .object t.members

/-- Conditions are wrapped in an object of their own. -/
def encodeFilter (e : Option Json) : Json :=
  encodeOption (fun e => .object [("expression", e)]) e

def SetOperation.encode (o : SetOperation Json) : Json :=
  .object [("operator", .string o.operator.name), ("expression", o.operand), ("all", .bool o.all)]

def Selection.encode : Selection Json → Json
  | .all => .string "all"
  | .allFrom t => .object [("all_from", t.encode)]
  | .expression e => .object [("expression", e)]

def Join.encode (j : Join Json) : Json :=
  .object [("join_type", .string j.kind.name), ("table", j.source), ("on", encodeOption id j.condition)]

def SortKey.encode (k : SortKey Json) : Json :=
  .object [("expression", k.expression),
    ("direction", encodeOption (fun d => .string d.name) k.direction)]

def Assignment.encode (a : Assignment Json) : Json :=
  .object [("column", .string a.column), ("value", a.value)]

def KeyAction.encode (a : KeyAction) : Json :=
  .string a.name

def References.encode (r : References) : Json :=
  .object [("table", r.table.encode), ("columns", encodeTexts r.columns),
    ("on_delete", encodeOption KeyAction.encode r.onDelete),
    ("on_update", encodeOption KeyAction.encode r.onUpdate)]

def Select.members (q : Select Json) : Json.Members :=
  [("distinct", .bool q.distinct),
    ("selections", .array (q.selections.map Selection.encode)),
    ("from", .array q.sources),
    ("joins", .array (q.joins.map Join.encode)),
    ("where", encodeFilter q.filter),
    ("group_by", .array q.groupBy),
    ("having", encodeFilter q.having),
    ("set_operations", .array (q.setOperations.map SetOperation.encode)),
    ("order_by", .array (q.orderBy.map SortKey.encode)),
    ("limit", encodeOption id q.limit),
    ("offset", encodeOption id q.offset)]

def encodeRows (rows : List (List Json)) : Json :=
  .object [("rows", .array (rows.map .array))]

def Insert.members (q : Insert Json) : Json.Members :=
  [("into", q.target.encode), ("columns", encodeTexts q.columns),
    ("values", encodeOption encodeRows q.rows), ("select", encodeOption id q.query)]

def Update.members (q : Update Json) : Json.Members :=
  [("table", q.target.encode), ("updates", .array (q.assignments.map Assignment.encode)),
    ("from", .array q.sources), ("where", encodeFilter q.filter)]

def Delete.members (q : Delete Json) : Json.Members :=
  [("from", q.target.encode), ("where", encodeFilter q.filter)]

def Column.members (c : Column Json) : Json.Members :=
  [("column", .string c.name), ("data_type", .string c.dataType), ("not_null", .bool c.notNull),
    ("primary_key", .bool c.primaryKey), ("unique", .bool c.unique),
    ("references", encodeOption References.encode c.references),
    ("default_to", encodeOption id c.defaultTo)]

def CreateTable.members (q : CreateTable Json) : Json.Members :=
  [("table", q.target.encode), ("if_not_exists", .bool q.ifNotExists),
    ("columns", .array (q.columns.map fun c => .object c.members)),
    ("constraints", .array q.constraints)]

def Reference.members (r : Reference) : Json.Members :=
  [("table", encodeOption Table.encode r.table), ("column", .string r.column)]

def Key.members (k : Key) : Json.Members :=
  [("name", encodeOption .string k.name), ("columns", encodeTexts k.columns)]

def ForeignKey.members (k : ForeignKey) : Json.Members :=
  [("name", encodeOption .string k.name), ("columns", encodeTexts k.columns),
    ("references", k.references.encode)]

def Layer.kind {α : Type} : Layer α → String
  | .select _ => "select"
  | .insert _ => "insert"
  | .update _ => "update"
  | .delete _ => "delete"
  | .createTable _ => "create_table"
  | .table _ => "table"
  | .identifier _ => "identifier"
  | .reference _ => "reference"
  | .aliased .. => "alias"
  | .value _ => "value"
  | .valueList _ => "value_list"
  | .call .. => "function"
  | .binary .. => "binary_operation"
  | .unary .. => "unary_operation"
  | .parens _ => "parens"
  | .raw _ => "raw"
  | .primaryKey _ => "primary_key_constraint"
  | .uniqueKey _ => "unique_constraint"
  | .foreignKey _ => "foreign_key_constraint"
  | .column _ => "column_definition"

def Layer.members : Layer Json → Json.Members
  | .select q => q.members
  | .insert q => q.members
  | .update q => q.members
  | .delete q => q.members
  | .createTable q => q.members
  | .table t => t.members
  | .identifier name => [("name", .string name)]
  | .reference r => r.members
  | .aliased e name => [("node", e), ("alias", .string name)]
  | .value v => [("value", v.encode)]
  | .valueList es => [("values", .array es)]
  | .call name arguments => [("name", .string name), ("arguments", .array arguments)]
  | .binary l op r => [("left", l), ("operator", .string op), ("right", r)]
  | .unary op e => [("operator", .string op), ("operand", e)]
  | .parens e => [("node", e)]
  | .raw r => [("sql_fragments", encodeTexts r.fragments), ("parameters", .array r.parameters)]
  | .primaryKey k => k.members
  | .uniqueKey k => k.members
  | .foreignKey k => k.members
  | .column c => c.members

def Layer.encode (l : Layer Json) : Json :=
  .object (("kind", .string l.kind) :: l.members)

def Node.encode (n : Node) : Json :=
  n.fold Layer.encode

end SqlDialect
