import SqlDialect.Render.Dialect

set_option autoImplicit false

namespace SqlDialect

inductive DialectName where
  | generic
  | bigQuery
  deriving DecidableEq

namespace DialectName

def default : DialectName := .bigQuery

def dialect : DialectName → Dialect
  | .generic => .generic
  | .bigQuery => .bigQuery

def text : DialectName → String
  | .generic => "Generic"
  | .bigQuery => "BigQuery"

/-- The case of ASCII letters does not matter; an unknown name is given back in lower case. -/
def ofText (s : String) : Except String DialectName :=
  match Text.lower s with
  | "generic" => .ok .generic
  | "bigquery" => .ok .bigQuery
  | "bq" => .ok .bigQuery
  | other => .error other

def unknownMessage (name : String) : String :=
  "unknown dialect '" ++ name ++ "'"

end DialectName

end SqlDialect
