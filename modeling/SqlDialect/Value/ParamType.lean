import SqlDialect.Value.Basic

set_option autoImplicit false

namespace SqlDialect

inductive ParamType where
  | string
  | int64
  | float64
  | bool
  | timestamp
  | date
  | bytes
  | struct
  deriving DecidableEq

namespace ParamType

def name : ParamType → String
  | .string => "STRING"
  | .int64 => "INT64"
  | .float64 => "FLOAT64"
  | .bool => "BOOL"
  | .timestamp => "TIMESTAMP"
  | .date => "DATE"
  | .bytes => "BYTES"
  | .struct => "STRUCT"

/-- A number without a fractional part counts as an integer. -/
def ofFloat (x : Float) : ParamType :=
  if Decimal.isIntegral x then .int64 else .float64

def ofJson : Json → ParamType
  | .null => .string
  | .string _ => .string
  | .bool _ => .bool
  | .number (.int _) => .int64
  | .number (.float x) => ofFloat x
  | .array _ => .struct
  | .object _ => .struct

/-- The tag of a value; a null counts as a string. -/
def ofValue : Value → ParamType
  | .null => .string
  | .string _ => .string
  | .bool _ => .bool
  | .int _ => .int64
  | .float x => ofFloat x
  | .bytes _ => .bytes
  | .timestamp _ => .timestamp
  | .date _ => .date
  | .json j => ofJson j

/-- The tags of a parameter list, absent when no parameter is null. -/
def infer? (params : List Value) : Option (List ParamType) :=
  if params.any Value.isNull then some (params.map ofValue) else none

end ParamType

end SqlDialect
