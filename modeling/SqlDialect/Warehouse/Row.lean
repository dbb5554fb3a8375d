import SqlDialect.Json.Basic
import SqlDialect.Json.Reader
import SqlDialect.Registry
import SqlDialect.Render.Dialect

set_option autoImplicit false

namespace SqlDialect

abbrev Row := Json.Members

namespace Row

/-- The document that a field holds as text. -/
def document? : Json → Option Json
  | .string s => if s.isEmpty then none else (Json.parse s).toOption
  | _ => none

def decodeColumn (row : Row) (column : String) : Row :=
  match (Json.Members.get? row column).bind document? with
  | some j => Json.Members.put row column j
  | none => row

def decode (r : Registry) (row : Row) : Row :=
  r.columnNames.foldl decodeColumn row

end Row

namespace Warehouse

structure ColumnInfo where
  name : String
  dataType : String
  isNullable : Bool
  hasDefault : Bool
  deriving DecidableEq

structure TableInfo where
  schema : String
  name : String
  isView : Bool
  columns : List ColumnInfo
  deriving DecidableEq

def columnsQuery (dataset : String) : String :=
  let ds := Dialect.bigQuery.quote dataset
  "select c.table_name, c.column_name, c.data_type, c.is_nullable, c.column_default, t.table_type " ++
    "from " ++ ds ++ ".INFORMATION_SCHEMA.COLUMNS as c " ++
    "join " ++ ds ++ ".INFORMATION_SCHEMA.TABLES as t on c.table_name = t.table_name " ++
    "order by c.table_name, c.ordinal_position"

def textField? (row : Row) (name : String) : Option String :=
  match Json.Members.get? row name with
  | some (.string s) => some s
  | _ => none

/-- A default of `NULL` is none. -/
def ColumnInfo.ofRow (row : Row) : ColumnInfo where
  name := (textField? row "column_name").getD ""
  dataType := (textField? row "data_type").getD ""
  isNullable := textField? row "is_nullable" == some "YES"
  hasDefault :=
    match textField? row "column_default" with
    | some s => !Text.sameFolded s "NULL"
    | none => false

def TableInfo.ofRow (dataset table : String) (row : Row) : TableInfo where
  schema := dataset
  name := table
  isView := textField? row "table_type" == some "VIEW"
  columns := [.ofRow row]

def TableInfo.addColumn (t : TableInfo) (c : ColumnInfo) : TableInfo :=
  { t with columns := t.columns ++ [c] }

/-- The tables with one more row. A row that names no table is passed over. -/
def addRow (dataset : String) (tables : List TableInfo) (row : Row) : List TableInfo :=
  match textField? row "table_name" with
  | none => tables
  | some table =>
    match tables.getLast? with
    | some last =>
      if last.name = table then tables.dropLast ++ [last.addColumn (.ofRow row)]
      else tables ++ [.ofRow dataset table row]
    | none => [.ofRow dataset table row]

def groupColumns (dataset : String) (rows : List Row) : List TableInfo :=
  rows.foldl (addRow dataset) []

def ColumnInfo.encode (c : ColumnInfo) : Json :=
  .object [("name", .string c.name), ("data_type", .string c.dataType),
    ("is_nullable", .bool c.isNullable), ("has_default_value", .bool c.hasDefault),
    ("is_auto_incrementing", .bool false)]

def TableInfo.encode (t : TableInfo) : Json :=
  .object [("schema", .string t.schema), ("name", .string t.name), ("is_view", .bool t.isView),
    ("columns", .array (t.columns.map ColumnInfo.encode))]

end Warehouse

end SqlDialect
