import SqlDialect.Registry
import SqlDialect.Render.Compile
import SqlDialect.Scan.SetList
import SqlDialect.Text
import SqlDialect.Value.ParamType

set_option autoImplicit false

namespace SqlDialect

namespace Warehouse

inductive ClientError where
  | api (message : String)
  | other (message : String)
  deriving DecidableEq

def ClientError.message : ClientError → String
  | .api m => m
  | .other m => m

inductive Operation where
  | query
  | stream
  deriving DecidableEq

def Operation.name : Operation → String
  | .query => "query"
  | .stream => "stream query"

inductive Error where
  | execution (operation : Operation) (report : String) (hint : Bool)
  | client (e : ClientError)
  | unsupported (feature : String)
  deriving DecidableEq

namespace Error

/-- What the warehouse says when the types of parameters are missing or do not line up. -/
def typeReports : List String :=
  ["Parameter types must be provided for null values", "incorrect number of parameter types"]

def typeHint : String :=
  "Type tags for null parameters are inferred automatically. " ++
    "If this error persists, please report it as a bug"

def concernsTypes (report : String) : Bool :=
  typeReports.any fun needle => Text.contains needle.toList report.toList

def ofClient (operation : Operation) : ClientError → Error
  | .api report => .execution operation report (concernsTypes report)
  | .other m => .client (.other m)

def message : Error → String
  | .execution operation report hint =>
    "BigQuery " ++ operation.name ++ " failed: " ++ report ++ if hint then ". " ++ typeHint else ""
  | .client e => e.message
  | .unsupported feature => feature ++ " is not supported by BigQuery"

end Error

end Warehouse

structure Request where
  sql : String
  params : List Value
  types : Option (List ParamType)

namespace Request

/-- An object or array bound to a registered column becomes its text. -/
def encodeParam (r : Registry) (table column : String) (v : Value) : Value :=
  match v with
  | .json j =>
    if r.isJsonColumn table column && v.isComposite then .string j.text else v
  | _ => v

def encodeColumns (r : Registry) (table : String) : List Value → List String → List Value
  | v :: vs, c :: cs => encodeParam r table c v :: encodeColumns r table vs cs
  | vs, _ => vs

/-- The columns that the leading parameters of a statement are bound to, with their table. -/
def boundColumns? (c : Compiled) : Option (Table × List String) :=
  match c.query with
  | .mk (.insert q) =>
    if c.params.length = q.columns.length then some (q.target, q.columns) else none
  | .mk (.update q) =>
    if Scan.setParameters? c.sql = some q.assignments.length then
      some (q.target, q.assignments.map (·.column))
    else none
  | _ => none

def encodeParams (r : Registry) (c : Compiled) : List Value :=
  if r.isEmpty then c.params
  else
    match boundColumns? c with
    | some (t, columns) => encodeColumns r t.qualifiedName c.params columns
    | none => c.params

def prepare (r : Registry) (c : Compiled) : Request :=
  let params := encodeParams r c
  ⟨c.sql, params, ParamType.infer? params⟩

end Request

end SqlDialect
