set_option autoImplicit false

namespace SqlDialect.Decimal

def powerOfTen (n : Nat) : Float :=
  Float.ofScientific 1 false n

/-- Division by `10 ^ (308 · steps + rest)`, one step of `10 ^ 308` at a time; zero stays zero. -/
def scaleDown (rest : Nat) : (steps : Nat) → Float → Float
  | 0, x => x / powerOfTen rest
  | steps + 1, x => if x == 0.0 then x else scaleDown rest steps (x / powerOfTen 308)

/-- The number `significand · 10 ^ exponent`, or `none` if it exceeds the largest finite one. -/
def scale? (significand : Nat) (exponent : Int) : Option Float :=
  let x := Float.ofNat significand
  if exponent < 0 then
    let n := (-exponent).toNat
    let steps := (n - 1) / 308
    some (scaleDown (n - 308 * steps) steps x)
  else if exponent ≤ 308 then
    let y := x * powerOfTen exponent.toNat
    if y.isInf then none else some y
  else if significand = 0 then some x
  else none

inductive Binary where
  | finite (negative : Bool) (mantissa : Nat) (exponent : Int)
  | infinite (negative : Bool)
  | nan

/-- The least exponent of two; numbers below `2 ^ 52` steps of it have fewer than 53 bits. -/
def leastExponent : Int := -1074

def Binary.ofFloat (x : Float) : Binary :=
  let bits := x.toBits.toNat
  let negative := bits / Nat.pow 2 63 % 2 == 1
  let exponent : Nat := bits / Nat.pow 2 52 % Nat.pow 2 11
  let fraction := bits % Nat.pow 2 52
  if exponent = 0 then .finite negative fraction leastExponent
  else if exponent = 2047 then (if fraction = 0 then .infinite negative else .nan)
  else .finite negative (Nat.pow 2 52 + fraction) ((exponent : Int) - 1 + leastExponent)

def Binary.isIntegral : Binary → Bool
  | .finite _ m q => q ≥ 0 || m % Nat.pow 2 (-q).toNat == 0
  | _ => false

def isIntegral (x : Float) : Bool :=
  (Binary.ofFloat x).isIntegral

def isFinite (x : Float) : Bool :=
  match Binary.ofFloat x with
  | .finite .. => true
  | _ => false

/-- Which of two equally near decimals is taken. -/
inductive Tie where
  | even
  | up
  deriving DecidableEq

structure Numeral where
  digits : Nat
  exponent : Int

def power (base : Nat) (e : Int) : Nat × Nat :=
  if e ≥ 0 then (Nat.pow base e.toNat, 1) else (1, Nat.pow base (-e).toNat)

/-- The exponent of the leading digit of `num / den`, for numbers above `10 ^ -400`. -/
def leadingExponent (num den : Nat) : Int :=
  ((Nat.toDigits 10 (num * Nat.pow 10 400 / den)).length : Int) - 401

/-- One of the two neighbours of `a / b` on the grid of integers that lies between
`(a - below) / b` and `(a + above) / b`, ends included iff `closed`; the nearer one if both do. -/
def nearestInside (tie : Tie) (a b below above : Nat) (closed : Bool) : Option Nat :=
  let low := a / b
  let inside (c : Nat) : Bool :=
    if closed then a - below ≤ c * b && c * b ≤ a + above
    else a - below < c * b && c * b < a + above
  let toLow := a - low * b
  let toHigh := (low + 1) * b - a
  match inside low, inside (low + 1) with
  | false, false => none
  | true, false => some low
  | false, true => some (low + 1)
  | true, true =>
    if toLow < toHigh then some low
    else if toHigh < toLow then some (low + 1)
    else match tie with
      | .up => some (low + 1)
      | .even => some (if low % 2 = 0 then low else low + 1)

/-- The search over grids of 17, 16, … digits, coarse grids first; `left` counts those still to try. -/
def search (tie : Tie) (m : Nat) (two : Nat × Nat) (below : Nat) (lead : Int) :
    (left : Nat) → Numeral
  | 0 => ⟨0, 0⟩
  | left + 1 =>
    let e := lead - (17 - (left + 1))
    let ten := power 10 e
    let step := two.1 * ten.2
    match nearestInside tie (4 * m * step) (two.2 * ten.1) (below * step) (2 * step)
        (m % 2 == 0) with
    | some digits => ⟨digits, e⟩
    | none => search tie m two below lead left

def strip : Nat → Numeral → Numeral
  | 0, d => d
  | fuel + 1, d =>
    if d.digits ≠ 0 ∧ d.digits % 10 = 0 then strip fuel ⟨d.digits / 10, d.exponent + 1⟩ else d

/-- The shortest decimal for `m · 2 ^ q`, a positive number of 53 bits. The interval is narrower below a
power of two, where the spacing of the numbers halves. -/
def shortest (tie : Tie) (m : Nat) (q : Int) : Numeral :=
  let two := power 2 (q - 2)
  let below := if m = Nat.pow 2 52 ∧ q > leastExponent then 1 else 2
  strip 20 (search tie m two below (leadingExponent (4 * m * two.1) two.2) 17)

structure Layout where
  tie : Tie
  positional : Int → Bool
  keepsPoint : Bool

def zeros (n : Int) : List Char :=
  List.replicate n.toNat '0'

/-- Positional notation of `0.d₁d₂… · 10 ^ (lead + 1)`. -/
def writePlain (keepsPoint : Bool) (ds : List Char) (lead : Int) : List Char :=
  if lead < 0 then '0' :: '.' :: (zeros (-lead - 1) ++ ds)
  else if lead + 1 ≥ ds.length then
    ds ++ zeros (lead + 1 - ds.length) ++ (if keepsPoint then ['.', '0'] else [])
  else ds.take (lead + 1).toNat ++ '.' :: ds.drop (lead + 1).toNat

def writeScientific (ds : List Char) (lead : Int) : List Char :=
  let mantissa := match ds with
    | d :: e :: rest => d :: '.' :: e :: rest
    | short => short
  mantissa ++ 'e' :: (if lead < 0 then '-' else '+') :: Nat.toDigits 10 lead.natAbs

def Layout.magnitude (layout : Layout) (m : Nat) (q : Int) : List Char :=
  if m = 0 then
    if layout.keepsPoint then ['0', '.', '0'] else ['0']
  else
    let d := shortest layout.tie m q
    let ds := Nat.toDigits 10 d.digits
    let lead := d.exponent + ds.length - 1
    if layout.positional lead then writePlain layout.keepsPoint ds lead else writeScientific ds lead

def Layout.text (layout : Layout) (x : Float) : List Char :=
  match Binary.ofFloat x with
  | .finite negative m q => (if negative then ['-'] else []) ++ layout.magnitude m q
  | .infinite negative => (if negative then ['-'] else []) ++ ['i', 'n', 'f']
  | .nan => ['N', 'a', 'N']

end SqlDialect.Decimal
