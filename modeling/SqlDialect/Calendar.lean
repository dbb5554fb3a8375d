import SqlDialect.Text

set_option autoImplicit false

namespace SqlDialect.Calendar

structure Date where
  year : Int
  month : Nat
  day : Nat
  deriving DecidableEq

def isLeap (year : Int) : Bool :=
  year % 4 == 0 && (year % 100 != 0 || year % 400 == 0)

def daysIn (year : Int) (month : Nat) : Nat :=
  if month = 2 then (if isLeap year then 29 else 28)
  else if month = 4 ∨ month = 6 ∨ month = 9 ∨ month = 11 then 30
  else 31

def firstYear : Int := -262143

def lastYear : Int := 262142

def Date.ofCivil? (year : Int) (month day : Nat) : Option Date :=
  if firstYear ≤ year ∧ year ≤ lastYear ∧ 1 ≤ month ∧ month ≤ 12 ∧ 1 ≤ day ∧ day ≤ daysIn year month
  then some ⟨year, month, day⟩
  else none

def Date.next? (d : Date) : Option Date :=
  if d.day < daysIn d.year d.month then some { d with day := d.day + 1 }
  else if d.month < 12 then some ⟨d.year, d.month + 1, 1⟩
  else Date.ofCivil? (d.year + 1) 1 1

def Date.previous? (d : Date) : Option Date :=
  if 1 < d.day then some { d with day := d.day - 1 }
  else if 1 < d.month then some ⟨d.year, d.month - 1, daysIn d.year (d.month - 1)⟩
  else Date.ofCivil? (d.year - 1) 12 31

def padded (width n : Nat) : List Char :=
  let ds := Nat.toDigits 10 n
  List.replicate (width - ds.length) '0' ++ ds

/-- Years outside of four digits carry a sign. -/
def yearChars (year : Int) : List Char :=
  if 0 ≤ year ∧ year ≤ 9999 then padded 4 year.natAbs
  else (if year < 0 then '-' else '+') :: padded 4 year.natAbs

def Date.chars (d : Date) : List Char :=
  yearChars d.year ++ '-' :: (padded 2 d.month ++ '-' :: padded 2 d.day)

def Date.text (d : Date) : String :=
  String.ofList d.chars

structure Timestamp where
  date : Date
  hour : Nat
  minute : Nat
  second : Nat
  nanosecond : Nat
  deriving DecidableEq

def minutesPerDay : Nat := 1440

/-- The moment that a clock `offset` minutes ahead of universal time shows as `shown`; offsets are shorter
than a day. -/
def Timestamp.ofOffset? (shown : Timestamp) (offset : Int) : Option Timestamp := do
  let minutes : Int := shown.hour * 60 + shown.minute - offset
  let moment (date : Date) (minutes : Int) : Timestamp :=
    { shown with date, hour := minutes.toNat / 60, minute := minutes.toNat % 60 }
  if minutes < 0 then return moment (← shown.date.previous?) (minutes + minutesPerDay)
  else if minutes ≥ minutesPerDay then return moment (← shown.date.next?) (minutes - minutesPerDay)
  else return moment shown.date minutes

/-- The fraction of a second with the fewest of zero, three, six or nine digits. -/
def fractionChars (nanosecond : Nat) : List Char :=
  if nanosecond = 0 then []
  else if nanosecond % 1000000 = 0 then '.' :: padded 3 (nanosecond / 1000000)
  else if nanosecond % 1000 = 0 then '.' :: padded 6 (nanosecond / 1000)
  else '.' :: padded 9 nanosecond

def Timestamp.localChars (t : Timestamp) : List Char :=
  t.date.chars ++ 'T' :: (padded 2 t.hour ++ ':' :: (padded 2 t.minute ++ ':' ::
    (padded 2 t.second ++ fractionChars t.nanosecond)))

def Timestamp.text (t : Timestamp) : String :=
  String.ofList (t.localChars ++ ['Z'])

def Timestamp.textWithOffset (t : Timestamp) : String :=
  String.ofList (t.localChars ++ ['+', '0', '0', ':', '0', '0'])

open Text (skipSpace)

abbrev Reader (α : Type) := List Char → Option (α × List Char)

def digitsValue (ds : List Char) : Nat :=
  ds.foldl (fun n d => n * 10 + (d.toNat - '0'.toNat)) 0

def readDigits (cs : List Char) : Option (List Char × List Char) :=
  match cs.takeWhile Char.isDigit with
  | [] => none
  | ds => some (ds, cs.dropWhile Char.isDigit)

def readNumber (width : Nat) (cs : List Char) : Option (Nat × List Char) := do
  let cs := skipSpace cs
  let (ds, _) ← readDigits (cs.take width)
  return (digitsValue ds, cs.drop ds.length)

def readYear (cs : List Char) : Option (Int × List Char) := do
  match skipSpace cs with
  | '-' :: cs =>
    let (ds, rest) ← readDigits cs
    return (-(digitsValue ds : Int), rest)
  | '+' :: cs =>
    let (ds, rest) ← readDigits cs
    return (digitsValue ds, rest)
  | cs =>
    let (n, rest) ← readNumber 4 cs
    return (n, rest)

def readMark (c : Char) (cs : List Char) : Option (List Char) :=
  match skipSpace cs with
  | x :: rest => if x = c then some rest else none
  | [] => none

def readDate (cs : List Char) : Option (Date × List Char) := do
  let (y, cs) ← readYear cs
  let (m, cs) ← readNumber 2 (← readMark '-' cs)
  let (d, cs) ← readNumber 2 (← readMark '-' cs)
  return (← Date.ofCivil? y m d, cs)

/-- Digits of a fraction as nanoseconds; those after the ninth are dropped. -/
def readFraction (cs : List Char) : Option (Nat × List Char) :=
  match cs with
  | '.' :: cs => do
    let (ds, rest) ← readDigits cs
    let kept := ds.take 9
    return (digitsValue kept * Nat.pow 10 (9 - kept.length), rest)
  | _ => some (0, cs)

def readTime (d : Date) (cs : List Char) : Option (Timestamp × List Char) := do
  let (hour, cs) ← readNumber 2 cs
  let (minute, cs) ← readNumber 2 (← readMark ':' cs)
  let (second, cs) ← readNumber 2 (← readMark ':' cs)
  let (nano, cs) ← readFraction cs
  if hour ≤ 23 ∧ minute ≤ 59 ∧ second ≤ 60 then return (⟨d, hour, minute, second, nano⟩, cs)
  else none

def twoDigits : Reader Nat
  | a :: b :: rest =>
    if a.isDigit && b.isDigit then some (digitsValue [a, b], rest) else none
  | _ => none

/-- Hours and minutes of an offset, in minutes; colons and blanks may divide them. -/
def offsetFigures (cs : List Char) : Option (Nat × List Char) := do
  let (hours, cs) ← twoDigits cs
  let (minutes, cs) ← twoDigits (cs.dropWhile fun c => c == ':' || Text.isSpace c)
  if hours ≤ 23 ∧ minutes ≤ 59 then return (hours * 60 + minutes, cs) else none

def readOffset (cs : List Char) : Option (Int × List Char) :=
  match cs with
  | 'Z' :: rest => some (0, rest)
  | 'z' :: rest => some (0, rest)
  | '+' :: rest => (offsetFigures rest).map fun p => ((p.1 : Int), p.2)
  | '-' :: rest => (offsetFigures rest).map fun p => (-(p.1 : Int), p.2)
  | '−' :: rest => (offsetFigures rest).map fun p => (-(p.1 : Int), p.2)
  | a :: b :: c :: rest =>
    if [a, b, c].map Char.toLower = ['u', 't', 'c'] then some (0, rest) else none
  | _ => none

def Date.ofText? (s : String) : Option Date := do
  let (d, rest) ← readDate s.toList
  if (skipSpace rest).isEmpty then return d else none

def Timestamp.ofText? (s : String) : Option Timestamp := do
  let (d, cs) ← readDate s.toList
  let cs ← match cs with
    | 'T' :: rest => some rest
    | 't' :: rest => some rest
    | ' ' :: rest => some rest
    | _ => none
  let (shown, cs) ← readTime d cs
  let (minutes, rest) ← readOffset (skipSpace cs)
  if (skipSpace rest).isEmpty then shown.ofOffset? minutes else none

end SqlDialect.Calendar
