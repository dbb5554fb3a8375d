import SqlDialect.Fragment
import SqlDialect.Text
import SqlDialect.Tree.Basic
import SqlDialect.Value.Basic

set_option autoImplicit false

namespace SqlDialect

/-- A name between quotes, each quote inside it written twice. -/
def quoteDoubled (q : Char) (name : String) : String :=
  String.ofList (q :: name.toList.flatMap (fun c => if c = q then [q, q] else [c]) ++ [q])

/-- A name between quotes, each quote inside it marked with a backslash. -/
def quoteEscaped (q : Char) (name : String) : String :=
  String.ofList (q :: name.toList.flatMap (fun c => if c = q then ['\\', q] else [c]) ++ [q])

inductive Qualifier where
  | plain
  | projectDataset (project dataset : String)
  /-- Dotted, but not of two parts. -/
  | ambiguous
  deriving DecidableEq

def Qualifier.ofSchema (schema : String) : Qualifier :=
  match Text.cutFirst '.' schema.toList with
  | none => .plain
  | some (project, dataset) =>
    if project.isEmpty || dataset.isEmpty || dataset.contains '.' then .ambiguous
    else .projectDataset (String.ofList project) (String.ofList dataset)

inductive Piece where
  | text (s : String)
  /-- A value that is bound as a parameter; only its placeholder stands in the text. -/
  | bind (v : Value)
  /-- A table whose qualifier could not be told apart. -/
  | warn (t : Table)

namespace Piece

/-- The lists one after the other with a text between neighbours. -/
def separated (sep : String) : List (List Piece) → List Piece
  | [] => []
  | [p] => p
  | p :: q :: rest => p ++ .text sep :: separated sep (q :: rest)

def commas : List (List Piece) → List Piece :=
  separated ", "

def inBrackets (ps : List Piece) : List Piece :=
  .text "(" :: ps ++ [.text ")"]

def clause (keyword : String) : Option (List Piece) → List Piece
  | none => []
  | some body => .text keyword :: body

def listClause (keyword : String) : List (List Piece) → List Piece
  | [] => []
  | items => .text keyword :: commas items

def word (s : String) (present : Bool) : List Piece :=
  if present then [.text s] else []

def bound? : Piece → Option Value
  | .bind v => some v
  | _ => none

def isWarning : Piece → Bool
  | .warn _ => true
  | _ => false

end Piece

/-- What becomes of a function call. -/
inductive CallRule where
  | keep
  | rename (name : String)
  | swap (name : String)
  deriving DecidableEq

/-- What becomes of raw text and the parameters between its fragments. -/
inductive RawRule where
  | keep
  | respell
  deriving DecidableEq

structure Dialect where
  quote : String → String
  /-- The placeholder of a parameter by its position, from one on. -/
  placeholder : Nat → String
  setKeyword : SetOperator → (all : Bool) → String
  callRule : String → CallRule
  /-- What stands in place of a missing condition of an update or a deletion. -/
  missingFilter : Option String
  qualifier : String → Qualifier
  keySuffix : String
  rawRule : RawRule

namespace SetOperator

def keyword (o : SetOperator) (all : Bool) : String :=
  if all then o.name ++ " all" else o.name

/-- As `keyword`, but a union of distinct rows says so. -/
def explicitKeyword (o : SetOperator) (all : Bool) : String :=
  if o = .union ∧ all = false then "union distinct" else o.keyword all

end SetOperator

def CallRule.ofName (name : String) : CallRule :=
  match Text.lower name with
  | "length" => .rename "CHAR_LENGTH"
  | "now" => .rename "CURRENT_TIMESTAMP"
  | "date_format" => .swap "FORMAT_TIMESTAMP"
  | _ => .keep

def CallRule.apply {α : Type} (name : String) (arguments : List α) : CallRule → String × List α
  | .keep => (name, arguments)
  | .rename other => (other, arguments)
  | .swap other =>
    match arguments with
    | a :: b :: rest => (other, b :: a :: rest)
    | few => (other, few)

namespace Dialect

def generic : Dialect where
  quote := quoteDoubled '"'
  placeholder n := "$" ++ n.repr
  setKeyword := SetOperator.keyword
  callRule _ := .keep
  missingFilter := none
  qualifier _ := .plain
  keySuffix := ""
  rawRule := .keep

def bigQuery : Dialect where
  quote := quoteEscaped '\x60'
  placeholder _ := "?"
  setKeyword := SetOperator.explicitKeyword
  callRule := CallRule.ofName
  missingFilter := some "true"
  qualifier := Qualifier.ofSchema
  keySuffix := " not enforced"
  rawRule := .respell

def respell {α : Type} (d : Dialect) (fragments : List String) (params : List α) : List (Fragment.Piece α) :=
  match d.rawRule with
  | .keep => Fragment.interleave fragments params
  | .respell => Fragment.respell fragments params

end Dialect

end SqlDialect
