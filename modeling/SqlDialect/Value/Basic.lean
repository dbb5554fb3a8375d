import SqlDialect.Calendar
import SqlDialect.Json.Form
import SqlDialect.Json.Printer
import SqlDialect.Json.Reader

/-!
Values bound to the placeholders of a statement. The JSON form of a value is the name of its kind with the
value as payload; `ofText` reads it directly from text and stops at the first thing that is wrong with it.
-/
set_option autoImplicit false

namespace SqlDialect

inductive Value where
  | null
  | bool (b : Bool)
  | int (n : Int64)
  | float (x : Float)
  | string (s : String)
  | bytes (b : List UInt8)
  | timestamp (t : Calendar.Timestamp)
  | date (d : Calendar.Date)
  | json (j : Json)

namespace Value

def isNull : Value → Bool
  | .null => true
  | .json .null => true
  | _ => false

def isComposite : Value → Bool
  | .json (.object _) => true
  | .json (.array _) => true
  | _ => false

def displayLayout : Decimal.Layout where
  tie := .up
  positional _ := true
  keepsPoint := false

def quotedText (s : String) : String :=
  "'" ++ s ++ "'"

/-- The value as a reader sees it; this is no SQL literal, since nothing is escaped. -/
def display : Value → String
  | .null => "NULL"
  | .bool true => "true"
  | .bool false => "false"
  | .int n => String.ofList (Json.intChars n.toInt)
  | .float x => String.ofList (displayLayout.text x)
  | .string s => quotedText s
  | .bytes b => "<" ++ toString b.length ++ " bytes>"
  | .timestamp t => quotedText t.textWithOffset
  | .date d => quotedText d.text
  | .json j => j.text

inductive Kind where
  | null
  | bool
  | int
  | float
  | string
  | bytes
  | timestamp
  | date
  | json
  deriving DecidableEq

def kinds : List (String × Kind) :=
  [("Null", .null), ("Bool", .bool), ("Int", .int), ("Float", .float), ("String", .string),
    ("Bytes", .bytes), ("Timestamp", .timestamp), ("Date", .date), ("Json", .json)]

def kindNames : List String :=
  kinds.map Prod.fst

def byteJson (b : UInt8) : Json :=
  .number (.int b.toNat)

def encode : Value → Json
  | .null => .string "Null"
  | .bool b => .object [("Bool", .bool b)]
  | .int n => .object [("Int", .number (.int n.toInt))]
  | .float x => .object [("Float", .number (.float x))]
  | .string s => .object [("String", .string s)]
  | .bytes b => .object [("Bytes", .array (b.map byteJson))]
  | .timestamp t => .object [("Timestamp", .string t.text)]
  | .date d => .object [("Date", .string d.text)]
  | .json j => .object [("Json", j)]

/-- An integer of 64 bits; a number with a fraction or an exponent is none. -/
def int64Of? : Json.Number → Option Int64
  | .int n => if Int64.minValue.toInt ≤ n ∧ n ≤ Int64.maxValue.toInt then some (Int64.ofInt n) else none
  | .float _ => none

def floatOf : Json.Number → Float
  | .int n => Float.ofInt n
  | .float x => x

def byteOf? : Json.Number → Option UInt8
  | .int n => if 0 ≤ n ∧ n < 256 then some (UInt8.ofNat n.toNat) else none
  | .float _ => none

def wanted {α : Type} : Option α → Except Json.Error α
  | some x => .ok x
  | none => .error .mismatch

def byteOfJson : Json → Except Json.Error UInt8
  | .number n => wanted (byteOf? n)
  | _ => .error .mismatch

def ofPayload (kind : Kind) (payload : Json) : Except Json.Error Value :=
  match kind, payload with
  | .bool, .bool b => .ok (.bool b)
  | .int, .number n => (wanted (int64Of? n)).map .int
  | .float, .number n => .ok (.float (floatOf n))
  | .string, .string s => .ok (.string s)
  | .bytes, .array xs => (xs.mapM byteOfJson).map .bytes
  | .timestamp, .string s => (wanted (Calendar.Timestamp.ofText? s)).map .timestamp
  | .date, .string s => (wanted (Calendar.Date.ofText? s)).map .date
  | .json, j => .ok (.json j.collapse)
  | _, _ => .error .mismatch

def decode (strictness : Json.Strictness) (j : Json) : Except Json.Error Value := do
  let (name, payload) ← Json.toVariant kindNames j
  match kinds.lookup name, payload with
  | some .null, payload =>
    Json.toUnit strictness payload
    return .null
  | some kind, some payload => ofPayload kind payload
  | _, _ => throw .mismatch

def readByte : Json.Reader UInt8
  | cs => do
    match ← Json.readToken cs with
    | (.number n, rest) => return (← wanted (byteOf? n), rest)
    | _ => throw .mismatch

/-- The payload of a kind; a wrong one is reported at its first token. -/
def readPayload (kind : Kind) (cs : List Char) : Except Json.Error (Value × List Char) := do
  if kind = .json then
    let (j, rest) ← Json.readValue (Json.maxDepth - 1) cs
    return (.json j.collapse, rest)
  let (token, rest) ← Json.readToken cs
  match kind, token with
  | .null, .null => return (.null, rest)
  | .bool, .bool b => return (.bool b, rest)
  | .int, .number n => return (.int (← wanted (int64Of? n)), rest)
  | .float, .number n => return (.float (floatOf n), rest)
  | .string, .string s => return (.string s, rest)
  | .timestamp, .string s => return (.timestamp (← wanted (Calendar.Timestamp.ofText? s)), rest)
  | .date, .string s => return (.date (← wanted (Calendar.Date.ofText? s)), rest)
  | .bytes, .openArray =>
    let (b, rest) ← Json.readItems readByte (rest.length + 1) true rest
    return (.bytes b, rest)
  | _, _ => throw .mismatch

def kindOf (name : String) : Except Json.Error Kind :=
  match kinds.lookup name with
  | some kind => .ok kind
  | none => .error (.unknownVariant name kindNames)

def closeBrace (cs : List Char) : Except Json.Error (List Char) :=
  match Json.skipBlank cs with
  | [] => .error .ended
  | '}' :: rest => .ok rest
  | _ => .error .malformed

/-- A value at the start of a text, which opens with a quote or a brace. -/
def read (cs : List Char) : Except Json.Error (Value × List Char) := do
  match Json.skipBlank cs with
  | [] => throw .ended
  | '"' :: cs =>
    let (name, rest) ← Json.readString [] cs
    match ← kindOf name with
    | .null => return (.null, rest)
    | _ => throw .mismatch
  | '{' :: cs =>
    match ← Json.readToken cs with
    | (.string name, rest) =>
      let kind ← kindOf name
      let (v, rest) ← readPayload kind (← Json.colon rest)
      return (v, ← closeBrace rest)
    | _ => throw .mismatch
  | _ => throw .malformed

def ofText (s : String) : Except Json.Error Value := do
  let (v, rest) ← read s.toList
  Json.atEnd rest
  return v

end Value

end SqlDialect
