/-!
TOML documents. A document is a list of lines, each of which opens a table or sets a key; `assemble` puts
the lines together. Nothing is defined twice: a table may be opened by a header once, and dotted keys
extend only tables that they made themselves.
-/
set_option autoImplicit false

namespace SqlDialect.Toml

/-- How a table came to be. -/
inductive Origin where
  | passing
  | dottedKey
  | header
  deriving DecidableEq

inductive Item where
  | string (s : String)
  | integer (n : Int)
  | float (x : Float)
  | bool (b : Bool)
  | moment (written : String)
  | array (items : List Item)
  /-- A table that stands in one place and is complete. -/
  | inline (members : List (String × Item))
  | table (origin : Origin) (members : List (String × Item))
  /-- A table that was opened several times, and what was made of it each time, the last one apart. -/
  | series (earlier : List (List (String × Item))) (last : List (String × Item))

abbrev Members := List (String × Item)

def Members.put (key : String) (item : Item) : Members → Members
  | [] => [(key, item)]
  | (k, v) :: ms => if k = key then (k, item) :: ms else (k, v) :: Members.put key item ms

/-- Changes the table at a path, which is made if need be; of a series, the last table is meant. -/
def Members.descend (change : Members → Option Members) : (path : List String) → Members → Option Members
  | [], ms => change ms
  | p :: ps, ms =>
    match List.lookup p ms with
    | none => (Members.descend change ps []).map fun inner => ms.put p (.table .passing inner)
    | some (.table origin inner) =>
      (Members.descend change ps inner).map fun inner => ms.put p (.table origin inner)
    | some (.series earlier last) =>
      (Members.descend change ps last).map fun last => ms.put p (.series earlier last)
    | some _ => none

/-- Sets a new key in the table that the other parts of a dotted key name. -/
def Members.add (key : String) (item : Item) : (path : List String) → Members → Option Members
  | [], ms => if (List.lookup key ms).isSome then none else some (ms.put key item)
  | p :: ps, ms =>
    match List.lookup p ms with
    | none => (Members.add key item ps []).map fun inner => ms.put p (.table .dottedKey inner)
    | some (.table origin inner) =>
      if origin = .header ∨ (ps = [] ∧ origin = .passing) then none
      else (Members.add key item ps inner).map fun inner => ms.put p (.table origin inner)
    | some (.series earlier last) =>
      if ps = [] then none
      else (Members.add key item ps last).map fun last => ms.put p (.series earlier last)
    | some _ => none

/-- What a header makes of the item that has its name. -/
def openTable : Option Item → Option Item
  | none => some (.table .header [])
  | some (.table .passing ms) => some (.table .header ms)
  | some _ => none

def openNext : Option Item → Option Item
  | none => some (.series [] [])
  | some (.series earlier last) => some (.series (last :: earlier) [])
  | some _ => none

structure Path where
  parents : List String
  key : String

def Path.parts (p : Path) : List String :=
  p.parents ++ [p.key]

inductive Line where
  | header (path : Path)
  | nextHeader (path : Path)
  | pair (path : Path) (item : Item)

/-- The document so far, and the table that is open. -/
structure Assembly where
  root : Members := []
  current : List String := []

def Assembly.enter (a : Assembly) (path : Path) (make : Option Item → Option Item) : Option Assembly := do
  let change (ms : Members) : Option Members := do
    return ms.put path.key (← make (List.lookup path.key ms))
  return ⟨← a.root.descend change path.parents, path.parts⟩

def Assembly.line (a : Assembly) : Line → Option Assembly
  | .header path => a.enter path openTable
  | .nextHeader path => a.enter path openNext
  | .pair path item => do
    return { a with root := ← a.root.descend (Members.add path.key item path.parents) a.current }

def assemble (lines : List Line) : Option Members :=
  (lines.foldlM Assembly.line {}).map (·.root)

end SqlDialect.Toml
