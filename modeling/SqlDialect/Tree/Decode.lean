import SqlDialect.Json.Reader
import SqlDialect.Tree.Basic
import SqlDialect.Tree.Node
import SqlDialect.Value.Basic

/-!
Reading trees from JSON. A form per kind of node says which fields it has; `Layer.decode` reads one node
with a given reader for its parts, and `Node.decode` ties the knot, going down at least one container
with each node.
-/
set_option autoImplicit false

namespace SqlDialect

open Json (Form Strictness)
open Json.Form (required withDefault)

variable {α : Type}

abbrev Json.Decoder (α : Type) := Json → Except Json.Error α

def optional {β : Type} (name : String) (decode : Json.Decoder β) : Form (Option β) :=
  withDefault name none (Json.toOption decode)

def flag (name : String) : Form Bool :=
  withDefault name false Json.toBool

def textField (name : String) : Form String :=
  required name Json.toText

def texts : Json.Decoder (List String) :=
  Json.toList Json.toText

def Table.form : Form Table :=
  Table.mk <$> optional "schema" Json.toText <*> textField "name"

def Table.decode : Json.Decoder Table :=
  Table.form.decode

def decodeFilter (part : Json.Decoder α) : Json.Decoder α :=
  (required "expression" part).decode

def SetOperation.form (part : Json.Decoder α) : Form (SetOperation α) :=
  SetOperation.mk <$> required "operator" (Json.toChoice .lenient SetOperator.names) <*>
    required "expression" part <*> flag "all"

def Selection.decode (part : Json.Decoder α) (j : Json) : Except Json.Error (Selection α) := do
  match ← Json.toVariant Selection.names j with
  | ("all", payload) =>
    Json.toUnit .lenient payload
    return .all
  | ("all_from", some payload) => return .allFrom (← Table.decode payload)
  | ("expression", some payload) => return .expression (← part payload)
  | _ => throw .mismatch

def Join.form (part : Json.Decoder α) : Form (Join α) :=
  Join.mk <$> required "join_type" (Json.toChoice .lenient JoinKind.names) <*> required "table" part <*>
    optional "on" part

def SortKey.form (part : Json.Decoder α) : Form (SortKey α) :=
  SortKey.mk <$> required "expression" part <*>
    optional "direction" (Json.toChoice .lenient Direction.names)

def Assignment.form (part : Json.Decoder α) : Form (Assignment α) :=
  Assignment.mk <$> textField "column" <*> required "value" part

def References.form (strictness : Strictness) : Form References :=
  References.mk <$> required "table" Table.decode <*> required "columns" texts <*>
    optional "on_delete" (Json.toChoice strictness KeyAction.names) <*>
    optional "on_update" (Json.toChoice strictness KeyAction.names)

def Select.form (part : Json.Decoder α) : Form (Select α) :=
  Select.mk <$> flag "distinct" <*>
    withDefault "selections" [] (Json.toList (Selection.decode part)) <*>
    withDefault "from" [] (Json.toList part) <*>
    withDefault "joins" [] (Json.toList (Join.form part).decode) <*>
    optional "where" (decodeFilter part) <*>
    withDefault "group_by" [] (Json.toList part) <*>
    optional "having" (decodeFilter part) <*>
    withDefault "set_operations" [] (Json.toList (SetOperation.form part).decode) <*>
    withDefault "order_by" [] (Json.toList (SortKey.form part).decode) <*>
    optional "limit" part <*>
    optional "offset" part

def decodeRows (part : Json.Decoder α) : Json.Decoder (List (List α)) :=
  (required "rows" (Json.toList (Json.toList part))).decode

def Insert.form (part : Json.Decoder α) : Form (Insert α) :=
  Insert.mk <$> required "into" Table.decode <*> withDefault "columns" [] texts <*>
    optional "values" (decodeRows part) <*> optional "select" part

def Update.form (part : Json.Decoder α) : Form (Update α) :=
  Update.mk <$> required "table" Table.decode <*>
    required "updates" (Json.toList (Assignment.form part).decode) <*>
    withDefault "from" [] (Json.toList part) <*> optional "where" (decodeFilter part)

def Delete.form (part : Json.Decoder α) : Form (Delete α) :=
  Delete.mk <$> required "from" Table.decode <*> optional "where" (decodeFilter part)

def Column.form (strictness : Strictness) (part : Json.Decoder α) : Form (Column α) :=
  Column.mk <$> textField "column" <*> textField "data_type" <*> flag "not_null" <*>
    flag "primary_key" <*> flag "unique" <*>
    optional "references" (References.form strictness).decode <*> optional "default_to" part

def CreateTable.form (part : Json.Decoder α) : Form (CreateTable α) :=
  CreateTable.mk <$> required "table" Table.decode <*> flag "if_not_exists" <*>
    required "columns" (Json.toList (Column.form .lenient part).decode) <*>
    withDefault "constraints" [] (Json.toList part)

def Reference.form : Form Reference :=
  Reference.mk <$> optional "table" Table.decode <*> textField "column"

def Raw.form (part : Json.Decoder α) : Form (Raw α) :=
  Raw.mk <$> required "sql_fragments" texts <*> withDefault "parameters" [] (Json.toList part)

def Key.form : Form Key :=
  Key.mk <$> optional "name" Json.toText <*> required "columns" texts

def ForeignKey.form : Form ForeignKey :=
  ForeignKey.mk <$> optional "name" Json.toText <*> required "columns" texts <*>
    required "references" (References.form .lenient).decode

def Layer.form? (part : Json.Decoder α) : String → Option (Form (Layer α))
  | "select" => some (.select <$> Select.form part)
  | "insert" => some (.insert <$> Insert.form part)
  | "update" => some (.update <$> Update.form part)
  | "delete" => some (.delete <$> Delete.form part)
  | "create_table" => some (.createTable <$> CreateTable.form part)
  | "table" => some (.table <$> Table.form)
  | "identifier" => some (.identifier <$> textField "name")
  | "reference" => some (.reference <$> Reference.form)
  | "alias" => some (.aliased <$> required "node" part <*> textField "alias")
  | "value" => some (.value <$> required "value" (Value.decode .lenient))
  | "value_list" => some (.valueList <$> required "values" (Json.toList part))
  | "function" =>
    some (.call <$> textField "name" <*> withDefault "arguments" [] (Json.toList part))
  | "binary_operation" =>
    some (.binary <$> required "left" part <*> textField "operator" <*> required "right" part)
  | "unary_operation" => some (.unary <$> textField "operator" <*> required "operand" part)
  | "parens" => some (.parens <$> required "node" part)
  | "raw" => some (.raw <$> Raw.form part)
  | "primary_key_constraint" => some (.primaryKey <$> Key.form)
  | "unique_constraint" => some (.uniqueKey <$> Key.form)
  | "foreign_key_constraint" => some (.foreignKey <$> ForeignKey.form)
  | "column_definition" => some (.column <$> Column.form .lenient part)
  | _ => none

/-- The kind of a node: one of the known names, or its position among them where that is allowed. -/
def decodeKind (strictness : Strictness) : Json → Except Json.Error String
  | .string name =>
    if Layer.kinds.contains name then .ok name else .error (.unknownVariant name Layer.kinds)
  | .number (.int n) =>
    match strictness, n with
    | .lenient, .ofNat i =>
      match Layer.kinds[i]? with
      | some name => .ok name
      | none => .error .mismatch
    | _, _ => .error .mismatch
  | _ => .error .mismatch

def Layer.decodeFields (part : Json.Decoder α) (kind : String) (fields : Json) :
    Except Json.Error (Layer α) :=
  match Layer.form? part kind with
  | some form => form.decode fields
  | none => .error .mismatch

/-- A node whose parts are read by `part`. The kind may stand anywhere in an object, but only once; in an
array it comes first. -/
def Layer.decode (strictness : Strictness) (part : Json.Decoder α) : Json.Decoder (Layer α)
  | .object ms =>
    match ms.filter (·.1 == "kind") with
    | [] => .error (.missingField "kind")
    | (_, j) :: others => do
      let kind ← decodeKind strictness j
      if !others.isEmpty then throw (.duplicateField "kind")
      Layer.decodeFields part kind (.object (ms.filter (·.1 != "kind")))
  | .array [] => .error (.missingField "kind")
  | .array (j :: fields) => do
    let kind ← decodeKind strictness j
    Layer.decodeFields part kind (.array fields)
  | _ => .error .mismatch

namespace Node

/-- A node that is at most `depth` containers deep; a value outside of any container is no node. -/
def decodeWithin : (depth : Nat) → Strictness → Json.Decoder Node
  | 0, _, _ => .error .mismatch
  | depth + 1, strictness, j => (Layer.decode strictness (decodeWithin depth .lenient) j).map .mk

def decode (j : Json) : Except Json.Error Node :=
  decodeWithin j.depth .strict j

def readKind (cs : List Char) : Except Json.Error (String × List Char) := do
  match ← Json.readToken cs with
  | (.string name, rest) =>
    if Layer.kinds.contains name then return (name, rest)
    else throw (.unknownVariant name Layer.kinds)
  | _ => throw .mismatch

/-- The fault of the kind of a node that comes before any other fault of its object. The kind is judged
as soon as it is met, even if the rest of the text is no JSON. -/
def earlyFault : (fuel : Nat) → (first seen : Bool) → List Char → Option Json.Error
  | 0, _, _, _ => none
  | fuel + 1, first, seen, cs =>
    match Json.nextMember first cs with
    | .ok (.name rest) =>
      match Json.readString [] rest with
      | .ok ("kind", rest) =>
        if seen then some (.duplicateField "kind")
        else
          match (Json.colon rest).bind readKind with
          | .ok (_, rest) => earlyFault fuel false true rest
          | .error .ended => none
          | .error .malformed => none
          | .error e => some e
      | .ok (_, rest) =>
        match (Json.colon rest).bind (Json.readValue (Json.maxDepth - 1)) with
        | .ok (_, rest) => earlyFault fuel false seen rest
        | .error _ => none
      | .error _ => none
    | _ => none

def kindFault (cs : List Char) : Option Json.Error :=
  match Json.skipBlank cs with
  | '{' :: rest => earlyFault (rest.length + 1) true false rest
  | '[' :: rest =>
    match Json.skipBlank rest with
    | ']' :: _ => none
    | rest =>
      match readKind rest with
      | .ok _ => none
      | .error .ended => none
      | .error .malformed => none
      | .error e => some e
  | _ => none

/-- The tree written in a text. -/
def ofText (s : String) : Except Json.Error Node :=
  match Json.readValue Json.maxDepth s.toList with
  | .error e => .error ((kindFault s.toList).getD e)
  | .ok (j, rest) => do
    let n ← decode j
    Json.atEnd rest
    return n

end Node

def Column.decode (j : Json) : Except Json.Error (Column Node) :=
  (Column.form .strict (Node.decodeWithin j.depth .strict)).decode j

end SqlDialect
