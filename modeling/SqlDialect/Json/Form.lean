import SqlDialect.Json.Basic

/-!
Forms: records read from JSON. A form lists the named fields of a record in order. It is filled from an
object, where fields may stand in any order and unknown members are passed over, or from an array that
gives the fields by position. Of several faults the one that stands first in the document is reported;
only then are missing fields, in the order of the form.
-/
set_option autoImplicit false

namespace SqlDialect.Json

inductive Source where
  | members (ms : Members)
  | items (xs : List Json)

def placesFrom (name : String) (i : Nat) : Members → List (Nat × Json)
  | [] => []
  | (k, v) :: ms =>
    if k = name then (i, v) :: placesFrom name (i + 1) ms else placesFrom name (i + 1) ms

/-- The field called `name` or at `position`, with its place in the document. -/
def Source.find? (source : Source) (name : String) (position : Nat) : Option (Nat × Json) :=
  match source with
  | .members ms => (placesFrom name 0 ms).head?
  | .items xs => xs[position]?.map (position, ·)

def Source.repeated (source : Source) (name : String) : List (Nat × Error) :=
  match source with
  | .members ms => (placesFrom name 0 ms).tail.map fun p => (p.1, .duplicateField name)
  | .items _ => []

/-- An array does not tell which of its fields is missing. -/
def Source.missing (source : Source) (name : String) : Error :=
  match source with
  | .members _ => .missingField name
  | .items _ => .mismatch

/-- What a form finds: the faults with their places, and the record, or why there is none. -/
structure Outcome (α : Type) where
  faults : List (Nat × Error)
  value : Except Error α

def firstFault : List (Nat × Error) → Option (Nat × Error)
  | [] => none
  | p :: ps =>
    match firstFault ps with
    | none => some p
    | some q => if q.1 < p.1 then some q else some p

def Outcome.settle {α : Type} (o : Outcome α) : Except Error α :=
  match firstFault o.faults with
  | some p => .error p.2
  | none => o.value

structure Form (α : Type) where
  fields : List String
  fill : Source → Nat → Outcome α

namespace Form

variable {α β : Type}

def ofValue (x : α) : Form α where
  fields := []
  fill _ _ := ⟨[], .ok x⟩

def apply (f : Form (α → β)) (x : Form α) : Form β where
  fields := f.fields ++ x.fields
  fill source position :=
    let a := f.fill source position
    let b := x.fill source (position + f.fields.length)
    ⟨a.faults ++ b.faults, a.value.bind fun g => b.value.map g⟩

instance : Pure Form := ⟨ofValue⟩

instance : Functor Form where
  map g x := apply (ofValue g) x

instance : Seq Form where
  seq f x := apply f (x ())

/-- A single field, with what to do when it is absent. -/
def field (name : String) (decode : Json → Except Error α) (absent : Source → Except Error α) :
    Form α where
  fields := [name]
  fill source position :=
    match source.find? name position with
    | none => ⟨[], absent source⟩
    | some (place, j) =>
      match decode j with
      | .ok x => ⟨source.repeated name, .ok x⟩
      | .error e => ⟨(place, e) :: source.repeated name, .error e⟩

def required (name : String) (decode : Json → Except Error α) : Form α :=
  field name decode fun source => .error (source.missing name)

def withDefault (name : String) (default : α) (decode : Json → Except Error α) : Form α :=
  field name decode fun _ => .ok default

/-- The record that a value holds. An array may stop before fields that have a default, and holds no
more values than the form has fields. -/
def decode (f : Form α) : Json → Except Error α
  | .object ms => (f.fill (.members ms) 0).settle
  | .array xs => do
    let x ← (f.fill (.items xs) 0).settle
    if xs.length > f.fields.length then throw .mismatch
    return x
  | _ => .error .mismatch

end Form

section

variable {α : Type}

def toBool : Json → Except Error Bool
  | .bool b => .ok b
  | _ => .error .mismatch

def toText : Json → Except Error String
  | .string s => .ok s
  | _ => .error .mismatch

def toList (decode : Json → Except Error α) : Json → Except Error (List α)
  | .array xs => xs.mapM decode
  | _ => .error .mismatch

def toOption (decode : Json → Except Error α) : Json → Except Error (Option α)
  | .null => .ok none
  | j => (decode j).map some

/-- The name of a variant and its payload: a plain string, or an object with one member. -/
def toVariant (names : List String) : Json → Except Error (String × Option Json)
  | .string name => (known name).map (·, none)
  | .object [(name, payload)] => (known name).map (·, some payload)
  | _ => .error .mismatch
where
  known (name : String) : Except Error String :=
    if names.contains name then .ok name else .error (.unknownVariant name names)

/-- How strictly a value is read. What is read directly is strict; inside a record that was told apart
by its kind, an empty object may stand for null and a position for a kind. -/
inductive Strictness where
  | strict
  | lenient
  deriving DecidableEq

def toUnit (strictness : Strictness) : Option Json → Except Error Unit
  | none => .ok ()
  | some .null => .ok ()
  | some (.object []) => if strictness = .lenient then .ok () else .error .mismatch
  | some _ => .error .mismatch

def toChoice (strictness : Strictness) (choices : List (String × α)) (j : Json) : Except Error α := do
  let (name, payload) ← toVariant (choices.map Prod.fst) j
  toUnit strictness payload
  match choices.lookup name with
  | some x => return x
  | none => throw .mismatch

end

end SqlDialect.Json
