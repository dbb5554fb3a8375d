import SqlDialect.Text

/-!
Quoted text in SQL. A quote opens a quoted part, inside which a backslash takes the next character along
and the same quote closes. Placeholders are the question marks outside of quotes; masking hides what
stands inside.
-/
set_option autoImplicit false

namespace SqlDialect.Scan

inductive State where
  | outside
  | inside (quote : Char)
  /-- After a backslash inside quotes. -/
  | escaped (quote : Char)
  deriving DecidableEq

def isQuote (c : Char) : Bool :=
  c == '\'' || c == '"' || c == '\x60'

def State.next : State → Char → State
  | .outside, c => if isQuote c then .inside c else .outside
  | .inside q, c => if c = '\\' then .escaped q else if c = q then .outside else .inside q
  | .escaped q, _ => .inside q

def State.after (s : State) (cs : List Char) : State :=
  cs.foldl State.next s

def countFrom (s : State) : List Char → Nat
  | [] => 0
  | c :: cs => (if s = .outside ∧ c = '?' then 1 else 0) + countFrom (s.next c) cs

def countPlaceholders (sql : String) : Nat :=
  countFrom .outside sql.toList

/-- The text with an underscore for each byte inside quotes; the quotes themselves stay. -/
def maskFrom (s : State) : List Char → List Char
  | [] => []
  | c :: cs =>
    (if s = .outside ∨ s.next c = .outside then [c] else List.replicate c.utf8Size '_') ++
      maskFrom (s.next c) cs

def mask (cs : List Char) : List Char :=
  maskFrom .outside cs

open Text

/-- What follows the first word `set` and the blank after it. -/
def afterSet (before : Option Char) : List Char → Option (List Char)
  | [] => none
  | c :: cs =>
    match afterWord ['s', 'e', 't'] before (c :: cs) with
    | some (b :: rest) => if isSpace b then some rest else afterSet (some c) cs
    | _ => afterSet (some c) cs

/-- The length of a word that ends the list, with the blanks around it. -/
def boundary? : List Char → Option Nat
  | [] => none
  | b :: cs =>
    if isSpace b then
      match afterName ['f', 'r', 'o', 'm'] cs, afterName ['w', 'h', 'e', 'r', 'e'] cs with
      | some (e :: _), _ => if isSpace e then some 6 else none
      | _, some (e :: _) => if isSpace e then some 7 else none
      | _, _ => none
    else none

/-- The depth of brackets after a character. It has no bound; a depth kept in 32 bits is the same in texts of
fewer than 2^31 brackets. -/
def depthAfter (depth : Int) (c : Char) : Int :=
  if c = '(' then depth + 1 else if c = ')' then depth - 1 else depth

/-- The text up to the first boundary at depth zero, for texts of any number of brackets (see `depthAfter`).
Boundaries inside of brackets are passed over whole; `skip` counts the characters left of one. -/
def upToBoundary (depth : Int) : (skip : Nat) → List Char → List Char
  | _, [] => []
  | skip + 1, c :: cs => c :: upToBoundary (depthAfter depth c) skip cs
  | 0, c :: cs =>
    match boundary? (c :: cs) with
    | some n =>
      if depth = 0 then [] else c :: upToBoundary (depthAfter depth c) (n - 1) cs
    | none => c :: upToBoundary (depthAfter depth c) 0 cs

/-- The number of placeholders among the assignments, if there is a word `set`. -/
def setParameters? (sql : String) : Option Nat :=
  (afterSet none (mask sql.toList)).map fun rest => (upToBoundary 0 0 rest).count '?'

end SqlDialect.Scan
