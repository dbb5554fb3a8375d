import SqlDialect.Calendar
import SqlDialect.Toml.Basic
import SqlDialect.Toml.Text

set_option autoImplicit false

namespace SqlDialect.Toml

/-- Digits after the first one; an underscore stands between two digits. -/
def moreDigits (isDigit : Char → Bool) : Reader (List Char)
  | [] => some ([], [])
  | '_' :: cs =>
    match cs with
    | d :: cs =>
      if isDigit d then (moreDigits isDigit cs).map fun p => (d :: p.1, p.2) else none
    | [] => none
  | c :: cs =>
    if isDigit c then (moreDigits isDigit cs).map fun p => (c :: p.1, p.2) else some ([], c :: cs)

def readDigits (isDigit : Char → Bool) : Reader (List Char)
  | c :: cs => if isDigit c then (moreDigits isDigit cs).map fun p => (c :: p.1, p.2) else none
  | [] => none

def valueIn (base : Nat) (ds : List Char) : Nat :=
  ds.foldl (fun n d => n * base + (hexValue? d).getD 0) 0

def readSign : List Char → Bool × List Char
  | '-' :: cs => (true, cs)
  | '+' :: cs => (false, cs)
  | cs => (false, cs)

/-- Decimal digits; nothing follows a leading zero. -/
def readDecimal : Reader (List Char)
  | '0' :: cs => some (['0'], cs)
  | cs => readDigits Char.isDigit cs

def integerOf? (n : Int) : Option Item :=
  if Int64.minValue.toInt ≤ n ∧ n ≤ Int64.maxValue.toInt then some (.integer n) else none

def readBased (base : Nat) (isDigit : Char → Bool) (cs : List Char) : Option (Item × List Char) := do
  let (ds, rest) ← readDigits isDigit cs
  return (← integerOf? (valueIn base ds), rest)

def readInteger : Reader Item
  | '0' :: 'x' :: cs => readBased 16 (fun c => (hexValue? c).isSome) cs
  | '0' :: 'o' :: cs => readBased 8 (fun c => '0' ≤ c && c ≤ '7') cs
  | '0' :: 'b' :: cs => readBased 2 (fun c => c == '0' || c == '1') cs
  | cs => do
    let (negative, cs) := readSign cs
    let (ds, rest) ← readDecimal cs
    let n : Int := valueIn 10 ds
    return (← integerOf? (if negative then -n else n), rest)

def infinity : Float := 1 / 0

def nearest (digits : Nat) (exponent : Int) : Float :=
  let magnitude := exponent + (Nat.toDigits 10 digits).length
  if digits = 0 ∨ magnitude < -400 then 0
  else if magnitude > 400 then infinity
  else Float.ofScientific digits (exponent < 0) exponent.natAbs

/-- A number that is too large is refused; one that is too small counts as minus infinity. -/
def floatOf? (negative : Bool) (digits : Nat) (exponent : Int) : Option Item :=
  let x := nearest digits exponent
  if negative then some (.float (-x)) else if x.isInf then none else some (.float x)

def readExponent : Reader (Option Int)
  | c :: cs =>
    if c = 'e' ∨ c = 'E' then do
      let (negative, cs) := readSign cs
      let (ds, rest) ← readDigits Char.isDigit cs
      let n : Int := valueIn 10 ds
      return (some (if negative then -n else n), rest)
    else some (none, c :: cs)
  | [] => some (none, [])

def readDecimalFloat (cs : List Char) : Option (Item × List Char) := do
  let (negative, cs) := readSign cs
  let (whole, cs) ← readDecimal cs
  match cs with
  | '.' :: cs =>
    let (fraction, cs) ← readDigits Char.isDigit cs
    let (exponent, rest) ← readExponent cs
    return (← floatOf? negative (valueIn 10 (whole ++ fraction)) (exponent.getD 0 - fraction.length), rest)
  | cs =>
    let (exponent, rest) ← readExponent cs
    return (← floatOf? negative (valueIn 10 whole) (← exponent), rest)

def readSpecialFloat (cs : List Char) : Option (Item × List Char) :=
  let (negative, cs) := readSign cs
  match cs with
  | 'i' :: 'n' :: 'f' :: rest => some (.float (if negative then -infinity else infinity), rest)
  | 'n' :: 'a' :: 'n' :: rest => some (.float (0 / 0), rest)
  | _ => none

def readFloat (cs : List Char) : Option (Item × List Char) :=
  readDecimalFloat cs <|> readSpecialFloat cs

def readFigures (width least greatest : Nat) (cs : List Char) : Option (Nat × List Char) :=
  let ds := cs.take width
  let n := valueIn 10 ds
  if ds.length = width ∧ ds.all Char.isDigit ∧ least ≤ n ∧ n ≤ greatest then some (n, cs.drop width)
  else none

def readMark (c : Char) : List Char → Option (List Char)
  | x :: cs => if x = c then some cs else none
  | [] => none

def afterDate? (cs : List Char) : Option (List Char) := do
  let (year, cs) ← readFigures 4 0 9999 cs
  let (month, cs) ← readFigures 2 1 12 (← readMark '-' cs)
  let (_, rest) ← readFigures 2 1 (Calendar.daysIn year month) (← readMark '-' cs)
  return rest

def afterTime? (cs : List Char) : Option (List Char) := do
  let (_, cs) ← readFigures 2 0 23 cs
  let (_, cs) ← readFigures 2 0 59 (← readMark ':' cs)
  let (_, cs) ← readFigures 2 0 60 (← readMark ':' cs)
  match cs with
  | '.' :: d :: rest => if d.isDigit then some (rest.dropWhile Char.isDigit) else none
  | ['.'] => none
  | rest => some rest

def afterOffset? : List Char → Option (List Char)
  | [] => some []
  | c :: cs =>
    if c = 'Z' ∨ c = 'z' then some cs
    else if c = '+' ∨ c = '-' then do
      let (_, cs) ← readFigures 2 0 23 cs
      let (_, rest) ← readFigures 2 0 59 (← readMark ':' cs)
      return rest
    else some (c :: cs)

def afterDateTime? (cs : List Char) : Option (List Char) := do
  let rest ← afterDate? cs
  match rest with
  | c :: after =>
    if c = 'T' ∨ c = 't' ∨ c = ' ' then ((afterTime? after).bind afterOffset?).getD rest else rest
  | [] => rest

def readMoment (cs : List Char) : Option (Item × List Char) := do
  let rest ← afterDateTime? cs <|> afterTime? cs
  return (.moment (String.ofList (cs.take (cs.length - rest.length))), rest)

def readFigure (cs : List Char) : Option (Item × List Char) :=
  readMoment cs <|> readFloat cs <|> readInteger cs

end SqlDialect.Toml
