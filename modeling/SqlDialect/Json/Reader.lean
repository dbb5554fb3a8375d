import SqlDialect.Decimal
import SqlDialect.Json.Basic

/-!
Reading JSON text. Readers take the characters still to be read and return what they read with the
rest. A text that stops inside a value is told apart from a text that is no JSON. Containers nest at
most `maxDepth` deep.
-/
set_option autoImplicit false

namespace SqlDialect.Json

abbrev Reader (α : Type) := List Char → Except Error (α × List Char)

def isBlank (c : Char) : Bool :=
  c == ' ' || c == '\n' || c == '\t' || c == '\r'

def skipBlank (cs : List Char) : List Char :=
  cs.dropWhile isBlank

/-- The largest significand: longer ones lose their last digits. -/
def maxSignificand : Nat := UInt64.size - 1

def digitValue (c : Char) : Nat :=
  c.toNat - '0'.toNat

/-- The significand extended by digits while it stays within bounds, and how many digits it took. -/
def absorb (significand used : Nat) : List Char → Nat × Nat
  | [] => (significand, used)
  | d :: ds =>
    let next := significand * 10 + digitValue d
    if next ≤ maxSignificand then absorb next (used + 1) ds else (significand, used)

def signed (negative : Bool) (x : Float) : Float :=
  if negative then -x else x

def floatOf (negative : Bool) (significand : Nat) (exponent : Int) : Except Error Number :=
  match Decimal.scale? significand exponent with
  | some x => .ok (.float (signed negative x))
  | none => .error .malformed

/-- An integer without sign is kept up to `2 ^ 64 - 1`, one with a sign down to `-2 ^ 63`. Minus zero is
no integer. -/
def integerOf (negative : Bool) (significand : Nat) : Number :=
  if !negative then .int significand
  else if significand = 0 ∨ significand > Nat.pow 2 63 then .float (-Float.ofNat significand)
  else .int (-(significand : Int))

def digitsValue (ds : List Char) : Nat :=
  ds.foldl (fun n d => n * 10 + digitValue d) 0

def exponentPart : Reader Int
  | '+' :: cs => unsignedPart false cs
  | '-' :: cs => unsignedPart true cs
  | cs => unsignedPart false cs
where
  unsignedPart (negative : Bool) (cs : List Char) : Except Error (Int × List Char) :=
    match cs with
    | [] => .error .ended
    | c :: _ =>
      if c.isDigit then
        let n : Int := digitsValue (cs.takeWhile Char.isDigit)
        .ok (if negative then -n else n, cs.dropWhile Char.isDigit)
      else .error .malformed

def isExponentMark (c : Char) : Bool :=
  c == 'e' || c == 'E'

/-- What may follow the significand of a number that is not written as an integer. -/
def numberTail (negative : Bool) (significand : Nat) (exponent : Int) : Reader Number
  | [] => (floatOf negative significand exponent).map (·, [])
  | c :: cs =>
    if isExponentMark c then do
      let (e, rest) ← exponentPart cs
      return (← floatOf negative significand (exponent + e), rest)
    else return (← floatOf negative significand exponent, c :: cs)

def fraction (negative : Bool) (significand : Nat) (exponent : Int) : Reader Number
  | [] => .error .ended
  | c :: cs =>
    if c.isDigit then
      let p := absorb significand 0 ((c :: cs).takeWhile Char.isDigit)
      numberTail negative p.1 (exponent - p.2) ((c :: cs).dropWhile Char.isDigit)
    else .error .malformed

def afterInteger (negative : Bool) (ds : List Char) : Reader Number
  | cs =>
    let p := absorb 0 0 ds
    let dropped : Int := ds.length - p.2
    match cs with
    | '.' :: rest => fraction negative p.1 dropped rest
    | c :: rest =>
      if isExponentMark c || dropped ≠ 0 then numberTail negative p.1 dropped (c :: rest)
      else .ok (integerOf negative p.1, c :: rest)
    | [] => if dropped ≠ 0 then numberTail negative p.1 dropped [] else .ok (integerOf negative p.1, [])

def readNumber (negative : Bool) : Reader Number
  | [] => .error .ended
  | '0' :: cs =>
    match cs with
    | c :: _ => if c.isDigit then .error .malformed else afterInteger negative ['0'] cs
    | [] => afterInteger negative ['0'] cs
  | c :: cs =>
    if c.isDigit then
      afterInteger negative ((c :: cs).takeWhile Char.isDigit) ((c :: cs).dropWhile Char.isDigit)
    else .error .malformed

def hexValue? (c : Char) : Option Nat :=
  if c.isDigit then some (c.toNat - 48)
  else if 'a' ≤ c && c ≤ 'f' then some (c.toNat - 87)
  else if 'A' ≤ c && c ≤ 'F' then some (c.toNat - 55)
  else none

def hexValues? (a b c d : Char) : Option Nat := do
  return (((← hexValue? a) * 16 + (← hexValue? b)) * 16 + (← hexValue? c)) * 16 + (← hexValue? d)

/-- The error where four hexadecimal digits should stand: the text counts as ended if fewer than four
bytes are left. -/
def hexError (cs : List Char) : Error :=
  if (cs.take 4).foldl (fun n c => n + c.utf8Size) 0 < 4 then .ended else .malformed

def unescape? : Char → Option Char
  | '"' => some '"'
  | '\\' => some '\\'
  | '/' => some '/'
  | 'b' => some '\x08'
  | 'f' => some '\x0c'
  | 'n' => some '\n'
  | 'r' => some '\r'
  | 't' => some '\t'
  | _ => none

def paired (high low : Nat) : Char :=
  Char.ofNat ((high - 0xD800) * 0x400 + (low - 0xDC00) + 0x10000)

/-- The string that starts after its opening quote; `read` holds its characters so far, last first.
Surrogates come in pairs. -/
def readString (read : List Char) : Reader String
  | [] => .error .ended
  | '"' :: cs => .ok (String.ofList read.reverse, cs)
  | '\\' :: cs =>
    match cs with
    | [] => .error .ended
    | 'u' :: hex =>
      match hex with
      | a :: b :: c :: d :: cs =>
        match hexValues? a b c d with
        | none => .error .malformed
        | some n =>
          if 0xDC00 ≤ n ∧ n ≤ 0xDFFF then .error .malformed
          else if n < 0xD800 ∨ 0xDBFF < n then readString (Char.ofNat n :: read) cs
          else
            match cs with
            | [] => .error .ended
            | ['\\'] => .error .ended
            | '\\' :: 'u' :: low =>
              match low with
              | a :: b :: c :: d :: cs =>
                match hexValues? a b c d with
                | none => .error .malformed
                | some m =>
                  if 0xDC00 ≤ m ∧ m ≤ 0xDFFF then readString (paired n m :: read) cs
                  else .error .malformed
              | short => .error (hexError short)
            | _ => .error .malformed
      | short => .error (hexError short)
    | c :: cs =>
      match unescape? c with
      | some x => readString (x :: read) cs
      | none => .error .malformed
  | c :: cs => if c.toNat < 0x20 then .error .malformed else readString (c :: read) cs

inductive Token where
  | null
  | bool (b : Bool)
  | number (n : Number)
  | string (s : String)
  | openArray
  | openObject

/-- The rest of a word whose first letter has been read. -/
def readWord (letters : List Char) (token : Token) : Reader Token
  | cs =>
    match letters, cs with
    | [], _ => .ok (token, cs)
    | _ :: _, [] => .error .ended
    | l :: ls, c :: cs => if c = l then readWord ls token cs else .error .malformed

def readToken (cs : List Char) : Except Error (Token × List Char) :=
  match skipBlank cs with
  | [] => .error .ended
  | 'n' :: cs => readWord ['u', 'l', 'l'] .null cs
  | 't' :: cs => readWord ['r', 'u', 'e'] (.bool true) cs
  | 'f' :: cs => readWord ['a', 'l', 's', 'e'] (.bool false) cs
  | '"' :: cs => (readString [] cs).map fun p => (.string p.1, p.2)
  | '[' :: cs => .ok (.openArray, cs)
  | '{' :: cs => .ok (.openObject, cs)
  | '-' :: cs => (readNumber true cs).map fun p => (.number p.1, p.2)
  | c :: cs =>
    if c.isDigit then (readNumber false (c :: cs)).map fun p => (.number p.1, p.2)
    else .error .malformed

/-- The items of an array after its bracket or after an item. Each item takes a character, so that
`fuel` need not exceed the length of the text. -/
def readItems {α : Type} (item : Reader α) : (fuel : Nat) → (first : Bool) → Reader (List α)
  | 0, _, _ => .error .ended
  | fuel + 1, first, cs =>
    match skipBlank cs with
    | [] => .error .ended
    | ']' :: rest => .ok ([], rest)
    | c :: rest =>
      if first then do
        let (x, rest) ← item (c :: rest)
        let (xs, rest) ← readItems item fuel false rest
        return (x :: xs, rest)
      else if c = ',' then
        match skipBlank rest with
        | [] => .error .ended
        | ']' :: _ => .error .malformed
        | next => do
          let (x, rest) ← item next
          let (xs, rest) ← readItems item fuel false rest
          return (x :: xs, rest)
      else .error .malformed

def colon (cs : List Char) : Except Error (List Char) :=
  match skipBlank cs with
  | [] => .error .ended
  | ':' :: rest => .ok rest
  | _ => .error .malformed

inductive Next where
  | close (rest : List Char)
  | name (rest : List Char)

/-- The step to the next member of an object, over the comma that divides members. -/
def nextMember (first : Bool) (cs : List Char) : Except Error Next :=
  match skipBlank cs with
  | [] => .error .ended
  | '}' :: rest => .ok (.close rest)
  | c :: rest =>
    if first then
      if c = '"' then .ok (.name rest) else .error .malformed
    else if c = ',' then
      match skipBlank rest with
      | [] => .error .ended
      | '"' :: rest => .ok (.name rest)
      | _ => .error .malformed
    else .error .malformed

def readMembers {α : Type} (value : Reader α) : (fuel : Nat) → (first : Bool) → Reader (List (String × α))
  | 0, _, _ => .error .ended
  | fuel + 1, first, cs => do
    match ← nextMember first cs with
    | .close rest => return ([], rest)
    | .name rest =>
      let (name, rest) ← readString [] rest
      let (x, rest) ← value (← colon rest)
      let (ms, rest) ← readMembers value fuel false rest
      return ((name, x) :: ms, rest)

def Token.atom : Token → Except Error Json
  | .null => .ok .null
  | .bool b => .ok (.bool b)
  | .number n => .ok (.number n)
  | .string s => .ok (.string s)
  | .openArray => .error .malformed
  | .openObject => .error .malformed

/-- A value, with room for `room` levels of containers. -/
def readValue : (room : Nat) → Reader Json
  | 0, cs => do
    let (t, rest) ← readToken cs
    return (← t.atom, rest)
  | room + 1, cs => do
    let (t, rest) ← readToken cs
    match t with
    | .openArray =>
      let (xs, rest) ← readItems (readValue room) (rest.length + 1) true rest
      return (.array xs, rest)
    | .openObject =>
      let (ms, rest) ← readMembers (readValue room) (rest.length + 1) true rest
      return (.object ms, rest)
    | t => return (← t.atom, rest)

def maxDepth : Nat := 127

def atEnd (cs : List Char) : Except Error Unit :=
  if (skipBlank cs).isEmpty then .ok () else .error .malformed

/-- The value written in a text, names of objects made distinct. -/
def parse (s : String) : Except Error Json := do
  let (j, rest) ← readValue maxDepth s.toList
  atEnd rest
  return j.collapse

end SqlDialect.Json
