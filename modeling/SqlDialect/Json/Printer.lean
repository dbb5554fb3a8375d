import SqlDialect.Decimal
import SqlDialect.Json.Basic

set_option autoImplicit false

namespace SqlDialect.Json

/-- Numbers are written positionally from `10 ^ -5` up to below `10 ^ 16`, and never look like integers. -/
def numberLayout : Decimal.Layout where
  tie := .even
  positional e := -5 ≤ e && e ≤ 15
  keepsPoint := true

def intChars (n : Int) : List Char :=
  (if n < 0 then ['-'] else []) ++ Nat.toDigits 10 n.natAbs

/-- JSON has no text for a number that is not finite; it is written as null. -/
def Number.chars : Number → List Char
  | .int n => intChars n
  | .float x => if Decimal.isFinite x then numberLayout.text x else ['n', 'u', 'l', 'l']

def escape (c : Char) : List Char :=
  if c = '"' then ['\\', '"']
  else if c = '\\' then ['\\', '\\']
  else if c = '\n' then ['\\', 'n']
  else if c = '\r' then ['\\', 'r']
  else if c = '\t' then ['\\', 't']
  else if c = '\x08' then ['\\', 'b']
  else if c = '\x0c' then ['\\', 'f']
  else if c.toNat < 0x20 then
    ['\\', 'u', '0', '0', Nat.digitChar (c.toNat / 16), Nat.digitChar (c.toNat % 16)]
  else [c]

def quoted (s : String) : List Char :=
  '"' :: (s.toList.flatMap escape ++ ['"'])

mutual
def chars : Json → List Char
  | .null => ['n', 'u', 'l', 'l']
  | .bool true => ['t', 'r', 'u', 'e']
  | .bool false => ['f', 'a', 'l', 's', 'e']
  | .number n => n.chars
  | .string s => quoted s
  | .array [] => ['[', ']']
  | .array (j :: js) => '[' :: (j.chars ++ itemsTail js)
  | .object [] => ['{', '}']
  | .object ((k, v) :: ms) => '{' :: (quoted k ++ ':' :: (v.chars ++ membersTail ms))

def itemsTail : List Json → List Char
  | [] => [']']
  | j :: js => ',' :: (j.chars ++ itemsTail js)

def membersTail : List (String × Json) → List Char
  | [] => ['}']
  | (k, v) :: ms => ',' :: (quoted k ++ ':' :: (v.chars ++ membersTail ms))
end

def text (j : Json) : String :=
  String.ofList j.chars

def newLine (level : Nat) : List Char :=
  '\n' :: List.replicate (2 * level) ' '

mutual
/-- The indented text of a value that stands `level` containers deep. -/
def indentedChars (level : Nat) : Json → List Char
  | .array (j :: js) =>
    '[' :: (newLine (level + 1) ++ indentedChars (level + 1) j ++ indentedItems level js)
  | .object ((k, v) :: ms) =>
    '{' :: (newLine (level + 1) ++ quoted k ++ ':' :: ' ' ::
      (indentedChars (level + 1) v ++ indentedMembers level ms))
  | .null => chars .null
  | .bool b => chars (.bool b)
  | .number n => chars (.number n)
  | .string s => chars (.string s)
  | .array [] => chars (.array [])
  | .object [] => chars (.object [])

def indentedItems (level : Nat) : List Json → List Char
  | [] => newLine level ++ [']']
  | j :: js =>
    ',' :: (newLine (level + 1) ++ indentedChars (level + 1) j ++ indentedItems level js)

def indentedMembers (level : Nat) : List (String × Json) → List Char
  | [] => newLine level ++ ['}']
  | (k, v) :: ms =>
    ',' :: (newLine (level + 1) ++ quoted k ++ ':' :: ' ' ::
      (indentedChars (level + 1) v ++ indentedMembers level ms))
end

def indented (j : Json) : String :=
  String.ofList (indentedChars 0 j)

end SqlDialect.Json
