import SqlDialect.Text

/-!
Raw SQL. Calls that are spelled otherwise in the target dialect are recognised in the text alone: a whole
word, its case aside, and what follows it.
-/
set_option autoImplicit false

namespace SqlDialect.Fragment

open Text

def nowName : List Char := ['n', 'o', 'w']

def dateFormatName : List Char := ['d', 'a', 't', 'e', '_', 'f', 'o', 'r', 'm', 'a', 't']

def currentTimestamp : List Char := "CURRENT_TIMESTAMP()".toList

def formatTimestamp : List Char := "FORMAT_TIMESTAMP".toList

def nowCall : Pattern (List Char)
  | before, cs => do
    let rest ← afterWord nowName before cs
    let rest ← afterChar '(' rest
    let rest ← afterChar ')' (skipSpace rest)
    return .upTo cs rest currentTimestamp

/-- What follows the bracket that opens a call of `DATE_FORMAT`, and the blanks before the bracket. -/
def openDateFormat (before : Option Char) (cs : List Char) : Option (List Char × List Char) := do
  let rest ← afterWord dateFormatName before cs
  let inner ← afterChar '(' (skipSpace rest)
  return (rest.takeWhile isSpace, inner)

/-- The name of a `DATE_FORMAT` call up to its bracket, to be renamed. -/
def dateFormatCall : Pattern (List Char)
  | before, cs => do
    let (gap, rest) ← openDateFormat before cs
    return .upTo cs rest (formatTimestamp ++ gap ++ ['('])

/-- The rest of a quoted literal with the text after it; a backslash takes the next character along, which
is no line end. -/
def literalTail (quote : Char) : List Char → Option (List Char × List Char)
  | [] => none
  | '\\' :: cs =>
    match cs with
    | [] => none
    | c :: cs =>
      if c = '\n' then none
      else (literalTail quote cs).map fun p => ('\\' :: c :: p.1, p.2)
  | c :: cs =>
    if c = quote then some ([c], cs)
    else (literalTail quote cs).map fun p => (c :: p.1, p.2)

def literal : List Char → Option (List Char × List Char)
  | [] => none
  | c :: cs =>
    if c = '\'' ∨ c = '"' then (literalTail c cs).map fun p => (c :: p.1, p.2) else none

/-- The comma, the literal and the bracket that end a call, with the text after it. -/
def literalArgument (cs : List Char) : Option (List Char × List Char) := do
  let rest ← afterChar ',' (skipSpace cs)
  let (format, rest) ← literal (skipSpace rest)
  let rest ← afterChar ')' (skipSpace rest)
  return (format, rest)

def isFlat (c : Char) : Bool :=
  c != ',' && c != '(' && c != ')'

/-- An argument without the blanks around it; of an argument of blanks only the last one is left. -/
def trimArgument (cs : List Char) : Option (List Char) :=
  match trimEnd (skipSpace cs) with
  | [] => cs.getLast?.map fun c => [c]
  | trimmed => some trimmed

/-- A call `DATE_FORMAT(value, 'format')` with a flat value and a literal format, its arguments
exchanged. -/
def dateFormatLiteral : Pattern (List Char)
  | before, cs => do
    let (_, inner) ← openDateFormat before cs
    let value ← trimArgument (inner.takeWhile isFlat)
    let (format, rest) ← literalArgument (inner.dropWhile isFlat)
    return .upTo cs rest (formatTimestamp ++ '(' :: format ++ [',', ' '] ++ value ++ [')'])

/-- A call of `DATE_FORMAT` that is open at the end of the text. -/
def openAtEnd : Pattern Unit
  | before, cs => do
    let (_, inner) ← openDateFormat before cs
    if (skipSpace inner).isEmpty then return ⟨cs.length, ()⟩ else none

inductive Piece (P : Type) where
  | text (s : String)
  | param (p : P)

variable {P : Type}

def Piece.ofText (s : String) : List (Piece P) :=
  if s.isEmpty then [] else [.text s]

/-- The fragments with a parameter after each as long as there are any, and then the other parameters. -/
def interleave : List String → List P → List (Piece P)
  | [], ps => ps.map .param
  | f :: fs, [] => Piece.ofText f ++ interleave fs []
  | f :: fs, p :: ps => Piece.ofText f ++ .param p :: interleave fs ps

def respellNow (cs : List Char) : List Char :=
  replaceAll nowCall cs

/-- Calls with a literal format have their arguments exchanged; all others are renamed. -/
def respellDateFormat (cs : List Char) : List Char :=
  replaceAll dateFormatCall (replaceAll dateFormatLiteral cs)

def hasDateFormat (cs : List Char) : Bool :=
  occurs dateFormatCall none cs

/-- The pieces of a call whose value is the only parameter and whose format is a literal. -/
def swapAround (head tail : List Char) (p : P) : Option (List (Piece P)) :=
  if occurs openAtEnd none head then do
    let (format, rest) ← literalArgument tail
    return [.text (String.ofList (respellDateFormat head)),
      .text (String.ofList (format ++ [',', ' '])),
      .param p,
      .text (String.ofList (')' :: respellDateFormat rest))]
  else none

def respell (fragments : List String) (params : List P) : List (Piece P) :=
  let texts := fragments.map fun f => respellNow f.toList
  if texts.any hasDateFormat then
    let plain := interleave (texts.map fun t => String.ofList (respellDateFormat t)) params
    match texts, params with
    | [head, tail], [p] => (swapAround head tail p).getD plain
    | _, _ => plain
  else interleave (texts.map String.ofList) params

end SqlDialect.Fragment
