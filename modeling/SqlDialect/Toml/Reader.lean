import SqlDialect.Toml.Number

set_option autoImplicit false

namespace SqlDialect.Toml

def maxDepth : Nat := 80

def isBare (c : Char) : Bool :=
  c.isAlphanum || c == '-' || c == '_'

def readPart : Reader String
  | [] => none
  | c :: cs =>
    if c = '"' ∨ c = '\'' then readLineString (c :: cs)
    else
      match (c :: cs).takeWhile isBare with
      | [] => none
      | part => some (String.ofList part, (c :: cs).dropWhile isBare)

def readParts : (fuel : Nat) → Reader (List String)
  | 0, _ => none
  | fuel + 1, cs => do
    let (part, cs) ← readPart (skipBlank cs)
    match skipBlank cs with
    | '.' :: cs =>
      let (parts, rest) ← readParts fuel cs
      return (part :: parts, rest)
    | rest => return ([part], rest)

def Path.ofParts? (parts : List String) : Option Path :=
  match parts.getLast? with
  | some key => if parts.length < maxDepth then some ⟨parts.dropLast, key⟩ else none
  | none => none

def readPath (cs : List Char) : Option (Path × List Char) := do
  let (parts, rest) ← readParts (cs.length + 1) cs
  return (← Path.ofParts? parts, rest)

/-- The items of an array after its bracket. A comma may follow the last one. -/
def readItems (value : Reader Item) : (fuel : Nat) → Reader (List Item)
  | 0, _ => none
  | fuel + 1, cs => do
    match ← skipLines false cs with
    | ']' :: rest => return ([], rest)
    | cs =>
      let (item, cs) ← value cs
      match ← skipLines false cs with
      | ']' :: rest => return ([item], rest)
      | ',' :: cs =>
        let (items, rest) ← readItems value fuel cs
        return (item :: items, rest)
      | _ => none

def readPair (value : Reader Item) (cs : List Char) : Option ((Path × Item) × List Char) := do
  let (path, cs) ← readPath cs
  let cs ← readMark '=' cs
  let (item, rest) ← value (skipBlank cs)
  return ((path, item), rest)

def readPairs (value : Reader Item) : (fuel : Nat) → Reader (List (Path × Item))
  | 0, _ => none
  | fuel + 1, cs => do
    let (pair, cs) ← readPair value cs
    match skipBlank cs with
    | '}' :: rest => return ([pair], rest)
    | ',' :: cs =>
      let (pairs, rest) ← readPairs value fuel cs
      return (pair :: pairs, rest)
    | _ => none

def inlineOf? (pairs : List (Path × Item)) : Option Item :=
  (pairs.foldlM (fun ms p => Members.add p.1.key p.2 p.1.parents ms) []).map .inline

def readInline (value : Reader Item) (cs : List Char) : Option (Item × List Char) :=
  match skipBlank cs with
  | '}' :: rest => some (.inline [], rest)
  | _ => do
    let (pairs, rest) ← readPairs value (cs.length + 1) cs
    return (← inlineOf? pairs, rest)

def readScalar : Reader Item
  | [] => none
  | 't' :: 'r' :: 'u' :: 'e' :: rest => some (.bool true, rest)
  | 'f' :: 'a' :: 'l' :: 's' :: 'e' :: rest => some (.bool false, rest)
  | c :: cs =>
    if c = '"' ∨ c = '\'' then (readString (c :: cs)).map fun p => (.string p.1, p.2)
    else readFigure (c :: cs)

def readValue : (room : Nat) → Reader Item
  | 0, '[' :: _ => none
  | 0, '{' :: _ => none
  | room + 1, '[' :: cs =>
    (readItems (readValue room) (cs.length + 1) cs).map fun p => (.array p.1, p.2)
  | room + 1, '{' :: cs => readInline (readValue room) cs
  | _, cs => readScalar cs

def readLine : Reader Line
  | '[' :: '[' :: cs => do
    let (path, cs) ← readPath cs
    let cs ← readMark ']' cs
    return (.nextHeader path, ← readMark ']' cs)
  | '[' :: cs => do
    let (path, cs) ← readPath cs
    return (.header path, ← readMark ']' cs)
  | cs => do
    let ((path, item), rest) ← readPair (readValue (maxDepth - 1)) cs
    return (.pair path item, rest)

/-- The lines of a document. Each takes a character, so that `fuel` need not exceed the length of the
text. -/
def readLines : (fuel : Nat) → List Char → Option (List Line)
  | 0, _ => none
  | fuel + 1, cs => do
    match ← skipLines false cs with
    | [] => return []
    | cs =>
      let (line, cs) ← readLine cs
      return line :: (← readLines fuel (← endLine cs))

/-- A mark of the byte order at the start does not count. -/
def withoutMark : List Char → List Char
  | '\uFEFF' :: cs => cs
  | cs => cs

def parse? (s : String) : Option Members := do
  let cs := withoutMark s.toList
  assemble (← readLines (cs.length + 1) cs)

end SqlDialect.Toml
