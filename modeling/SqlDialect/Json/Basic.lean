import SqlDialect.Text

set_option autoImplicit false

namespace SqlDialect

/-- An integer keeps its digits; every other number is a floating point number. -/
inductive Json.Number where
  | int (n : Int)
  | float (x : Float)

inductive Json where
  | null
  | bool (b : Bool)
  | number (n : Json.Number)
  | string (s : String)
  | array (items : List Json)
  | object (members : List (String × Json))

namespace Json

instance : Inhabited Json := ⟨.null⟩

abbrev Members := List (String × Json)

def Members.get? (ms : Members) (name : String) : Option Json :=
  List.lookup name ms

/-- The members with `name` bound to `value`: in its place if there is one, else at the end. -/
def Members.put : Members → String → Json → Members
  | [], name, value => [(name, value)]
  | (k, v) :: ms, name, value =>
    if k = name then (k, value) :: ms else (k, v) :: Members.put ms name value

/-- The members with distinct names: first place, last value. -/
def Members.distinct (ms : Members) : Members :=
  ms.foldl (fun acc m => acc.put m.1 m.2) []

mutual
/-- The value with distinct names in each of its objects. -/
def collapse : Json → Json
  | .array items => .array (collapseItems items)
  | .object members => .object (Members.distinct (collapseMembers members))
  | .null => .null
  | .bool b => .bool b
  | .number n => .number n
  | .string s => .string s

def collapseItems : List Json → List Json
  | [] => []
  | j :: js => j.collapse :: collapseItems js

def collapseMembers : List (String × Json) → List (String × Json)
  | [] => []
  | (k, v) :: ms => (k, v.collapse) :: collapseMembers ms
end

mutual
def depth : Json → Nat
  | .array items => depthItems items + 1
  | .object members => depthMembers members + 1
  | .null => 0
  | .bool _ => 0
  | .number _ => 0
  | .string _ => 0

def depthItems : List Json → Nat
  | [] => 0
  | j :: js => max j.depth (depthItems js)

def depthMembers : List (String × Json) → Nat
  | [] => 0
  | (_, v) :: ms => max v.depth (depthMembers ms)
end

inductive Error where
  | ended
  | malformed
  | mismatch
  | missingField (name : String)
  | duplicateField (name : String)
  /-- A name outside the closed list of names that may stand here. -/
  | unknownVariant (found : String) (expected : List String)
  deriving DecidableEq

inductive Error.Category where
  | eof
  | grammar
  | data
  deriving DecidableEq

def Error.category : Error → Error.Category
  | .ended => .eof
  | .malformed => .grammar
  | _ => .data

def ticked (name : String) : String :=
  "`" ++ name ++ "`"

def Error.message? : Error → Option String
  | .missingField name => some ("missing field " ++ ticked name)
  | .duplicateField name => some ("duplicate field " ++ ticked name)
  | .unknownVariant found expected =>
    let choice := match expected with
      | [a] => ticked a
      | [a, b] => ticked a ++ " or " ++ ticked b
      | names => "one of " ++ Text.join ", " (names.map ticked)
    some ("unknown variant " ++ ticked found ++ ", expected " ++ choice)
  | _ => none

end Json

end SqlDialect
