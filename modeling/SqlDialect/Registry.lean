import SqlDialect.Json.Basic
import SqlDialect.Text
import SqlDialect.Toml.Reader

/-!
The registry of columns that hold JSON documents as text: for each table the set of its columns. Both the
tables and their columns are kept in order, so registries with the same content are equal. The columns of
all tables together are stored beside them.
-/
set_option autoImplicit false

namespace SqlDialect

structure Registry where
  tables : List (String × List String) := []
  /-- The columns of all tables. -/
  columnNames : List String := []
  ordered : Text.Ordered tables := by exact Text.ordered_nil
  columnNames_eq : columnNames = Text.sortedSet (tables.flatMap Prod.snd) := by rfl
  deriving DecidableEq

namespace Registry

def empty : Registry := {}

/-- Sets the columns of a table; what was registered for the table before is forgotten, and the columns of
all tables are collected anew. -/
def register (r : Registry) (table : String) (columns : List String) : Registry :=
  let tables := Text.putSorted table (Text.sortedSet columns) r.tables
  { tables
    columnNames := Text.sortedSet (tables.flatMap Prod.snd)
    ordered := Text.ordered_putSorted r.ordered table _
    columnNames_eq := rfl }

def registerAll (r : Registry) (entries : List (String × List String)) : Registry :=
  entries.foldl (fun r e => r.register e.1 e.2) r

/-- Tables without columns do not count. -/
def isEmpty (r : Registry) : Bool :=
  r.columnNames.isEmpty

def bareName (column : String) : String :=
  match Text.cutLast '.' column.toList with
  | some (_, bare) => String.ofList bare
  | none => column

def isJsonColumn (r : Registry) (table column : String) : Bool :=
  match r.tables.lookup table with
  | some columns => columns.contains (bareName column)
  | none => false

end Registry

@[ext]
structure Config where
  /-- The columns of each table as they are listed; the tables are in order. -/
  jsonColumns : List (String × List String) := []
  concurrency : Nat := 5
  ordered : Text.Ordered jsonColumns := by exact Text.ordered_nil

instance : DecidableEq Config :=
  fun _ _ => decidable_of_decidable_of_iff Config.ext_iff.symm

namespace Config

inductive Error where
  | invalid
  | zeroConcurrency
  deriving DecidableEq

def Error.message : Error → String
  | .invalid => "Invalid config file"
  | .zeroConcurrency => "Configuration error: introspection_concurrency must be at least 1"

def textOf? : Toml.Item → Option String
  | .string s => some s
  | _ => none

def textsOf? : Toml.Item → Option (List String)
  | .array items => items.mapM textOf?
  | _ => none

def membersOf? : Toml.Item → Option Toml.Members
  | .table _ ms => some ms
  | .inline ms => some ms
  | _ => none

def withTable (c : Config) (table : String) (columns : List String) : Config :=
  { c with
    jsonColumns := Text.putSorted table columns c.jsonColumns
    ordered := Text.ordered_putSorted c.ordered table columns }

def withTables (c : Config) (entries : List (String × List String)) : Config :=
  entries.foldl (fun c e => c.withTable e.1 e.2) c

def jsonColumnsOf? (item : Toml.Item) : Option (List (String × List String)) := do
  (← membersOf? item).mapM fun m => (textsOf? m.2).map (m.1, ·)

def countOf? : Toml.Item → Option Nat
  | .integer (.ofNat n) => some n
  | _ => none

def ofMembers? (ms : Toml.Members) : Option Config := do
  let columns ← match List.lookup "json_columns" ms with
    | some item => jsonColumnsOf? item
    | none => some []
  let concurrency ← match List.lookup "introspection_concurrency" ms with
    | some item => countOf? item
    | none => some ({} : Config).concurrency
  return ({ concurrency } : Config).withTables columns

def ofText (s : String) : Except Error Config :=
  match (Toml.parse? s).bind ofMembers? with
  | none => .error .invalid
  | some c => if c.concurrency = 0 then .error .zeroConcurrency else .ok c

def encode (c : Config) : Json :=
  .object [("json_columns", .object (c.jsonColumns.map fun t => (t.1, .array (t.2.map .string)))),
    ("introspection_concurrency", .number (.int c.concurrency))]

def registry (c : Config) : Registry :=
  Registry.empty.registerAll c.jsonColumns

end Config

end SqlDialect
