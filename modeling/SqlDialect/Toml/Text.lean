/-!
The characters of TOML: blanks, line ends, comments and the four kinds of strings. A reader takes the
characters still to be read and returns what it read with the rest, or nothing if the text is refused.
-/
set_option autoImplicit false

namespace SqlDialect.Toml

abbrev Reader (α : Type) := List Char → Option (α × List Char)

def isBlank (c : Char) : Bool :=
  c == ' ' || c == '\t'

def skipBlank (cs : List Char) : List Char :=
  cs.dropWhile isBlank

def isPlain (c : Char) : Bool :=
  c == '\t' || (0x20 ≤ c.toNat && c.toNat != 0x7F)

def newline? : List Char → Option (List Char)
  | '\n' :: cs => some cs
  | '\r' :: '\n' :: cs => some cs
  | _ => none

def skipComment : List Char → List Char
  | '#' :: cs => cs.dropWhile isPlain
  | cs => cs

/-- What follows the rest of a line that holds nothing but a comment. -/
def endLine (cs : List Char) : Option (List Char) :=
  match skipComment (skipBlank cs) with
  | [] => some []
  | rest => newline? rest

def skipLines (inComment : Bool) : List Char → Option (List Char)
  | [] => some []
  | '\n' :: cs => skipLines false cs
  | '\r' :: '\n' :: cs => skipLines false cs
  | c :: cs =>
    if inComment then (if isPlain c then skipLines true cs else none)
    else if isBlank c then skipLines false cs
    else if c = '#' then skipLines true cs
    else some (c :: cs)

def hexValue? (c : Char) : Option Nat :=
  if c.isDigit then some (c.toNat - 48)
  else if 'a' ≤ c && c ≤ 'f' then some (c.toNat - 87)
  else if 'A' ≤ c && c ≤ 'F' then some (c.toNat - 55)
  else none

def hexChar? (ds : List Char) : Option Char := do
  let n ← ds.foldlM (fun n d => (hexValue? d).map (n * 16 + ·)) 0
  if n.isValidChar then some (Char.ofNat n) else none

def unescape? : Char → Option Char
  | '"' => some '"'
  | '\\' => some '\\'
  | 'b' => some '\x08'
  | 'f' => some '\x0c'
  | 'n' => some '\n'
  | 'r' => some '\r'
  | 't' => some '\t'
  | _ => none

/-- The rest of an escape: the character and how many characters it takes. -/
def escape? : List Char → Option (Char × Nat)
  | 'u' :: cs => if cs.length < 4 then none else (hexChar? (cs.take 4)).map (·, 5)
  | 'U' :: cs => if cs.length < 8 then none else (hexChar? (cs.take 8)).map (·, 9)
  | c :: _ => (unescape? c).map (·, 1)
  | [] => none

/-- A string of one line after its quote; `read` holds its characters so far, last first, and the first
`skip` characters belong to an escape already read. -/
def basicTail (read : List Char) : (skip : Nat) → Reader String
  | _, [] => none
  | skip + 1, _ :: cs => basicTail read skip cs
  | 0, '"' :: cs => some (String.ofList read.reverse, cs)
  | 0, '\\' :: cs =>
    match escape? cs with
    | some (c, n) => basicTail (c :: read) n cs
    | none => none
  | 0, c :: cs => if isPlain c then basicTail (c :: read) 0 cs else none

inductive Passing where
  | nothing
  | escape (left : Nat)
  /-- Blanks and line ends after a backslash at the end of a line. -/
  | margin

/-- A string of several lines after its quotes. Up to two quotes may stand before the three that close
it. -/
def multilineTail (read : List Char) : Passing → Reader String
  | _, [] => none
  | .escape (left + 1), _ :: cs => multilineTail read (.escape left) cs
  | .margin, ' ' :: cs => multilineTail read .margin cs
  | .margin, '\t' :: cs => multilineTail read .margin cs
  | .margin, '\n' :: cs => multilineTail read .margin cs
  | .margin, '\r' :: '\n' :: cs => multilineTail read .margin cs
  | _, '"' :: cs =>
    match cs with
    | '"' :: '"' :: '"' :: '"' :: rest => some (String.ofList ('"' :: '"' :: read).reverse, rest)
    | '"' :: '"' :: '"' :: rest => some (String.ofList ('"' :: read).reverse, rest)
    | '"' :: '"' :: rest => some (String.ofList read.reverse, rest)
    | _ => multilineTail ('"' :: read) .nothing cs
  | _, '\\' :: cs =>
    if (newline? (skipBlank cs)).isSome then multilineTail read .margin cs
    else
      match escape? cs with
      | some (c, n) => multilineTail (c :: read) (.escape n) cs
      | none => none
  | _, '\n' :: cs => multilineTail ('\n' :: read) .nothing cs
  | _, '\r' :: '\n' :: cs => multilineTail ('\n' :: read) .nothing cs
  | _, c :: cs => if isPlain c then multilineTail (c :: read) .nothing cs else none

def literalTail (read : List Char) : Reader String
  | [] => none
  | '\'' :: cs => some (String.ofList read.reverse, cs)
  | c :: cs => if isPlain c then literalTail (c :: read) cs else none

def multilineLiteralTail (read : List Char) : Reader String
  | [] => none
  | '\'' :: cs =>
    match cs with
    | '\'' :: '\'' :: '\'' :: '\'' :: rest => some (String.ofList ('\'' :: '\'' :: read).reverse, rest)
    | '\'' :: '\'' :: '\'' :: rest => some (String.ofList ('\'' :: read).reverse, rest)
    | '\'' :: '\'' :: rest => some (String.ofList read.reverse, rest)
    | _ => multilineLiteralTail ('\'' :: read) cs
  | '\n' :: cs => multilineLiteralTail ('\n' :: read) cs
  | '\r' :: '\n' :: cs => multilineLiteralTail ('\n' :: read) cs
  | c :: cs => if isPlain c then multilineLiteralTail (c :: read) cs else none

def trimFirst (cs : List Char) : List Char :=
  (newline? cs).getD cs

def readLineString : Reader String
  | '"' :: cs => basicTail [] 0 cs
  | '\'' :: cs => literalTail [] cs
  | _ => none

def readString : Reader String
  | '"' :: '"' :: '"' :: cs => multilineTail [] .nothing (trimFirst cs)
  | '\'' :: '\'' :: '\'' :: cs => multilineLiteralTail [] (trimFirst cs)
  | cs => readLineString cs

end SqlDialect.Toml
