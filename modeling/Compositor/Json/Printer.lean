/-
# Writing the data format

A value is written over several lines: each item of an array and each member
of an object on a line of its own, two spaces further in than the brackets
around it. An empty array or object stays on one line.

A string or a key without a text is written as an empty one.

Key definitions: `Json.escape`, `Json.Numeral.chars`, `Json.chars`,
`Json.print`.
-/
import Compositor.Json.Basic

namespace Compositor.Json

/-- A hexadecimal digit in lower case. -/
def hexDigit (n : Nat) : Char := Nat.digitChar n

/-- A character within a string literal. -/
def escapeChar (c : Char) : List Char :=
  if c = '"' then ['\\', '"']
  else if c = '\\' then ['\\', '\\']
  else if c = '\x08' then ['\\', 'b']
  else if c = '\x0c' then ['\\', 'f']
  else if c = '\n' then ['\\', 'n']
  else if c = '\r' then ['\\', 'r']
  else if c = '\t' then ['\\', 't']
  else if c.toNat < 0x20 then
    ['\\', 'u', '0', '0', hexDigit (c.toNat / 16), hexDigit (c.toNat % 16)]
  else [c]

/-- A string literal. -/
def escape (s : List Char) : List Char := '"' :: s.flatMap escapeChar ++ ['"']

/-- A number as it is written. An exponent always has a sign. -/
def Numeral.chars (n : Numeral) : List Char :=
  let sign := if n.negative then ['-'] else []
  let fraction := if n.fraction.isEmpty then [] else '.' :: n.fraction
  let exponent :=
    match n.exponent? with
    | none => []
    | some e => 'e' :: (if e < 0 then '-' else '+') :: Nat.toDigits 10 e.natAbs
  sign ++ n.whole ++ fraction ++ exponent

example : (Numeral.ofDecimal (.of false 120 (-1))).chars = "12.0".toList := by decide +kernel
example : (Numeral.ofDecimal (.of true 15 13)).chars = "-1.5e+14".toList := by decide +kernel
example : (Numeral.ofDecimal (.of false 2 (-7))).chars = "2e-7".toList := by decide +kernel

/-- So many steps in from the left. -/
def indent (depth : Nat) : List Char := List.replicate (2 * depth) ' '

/-- The end of the line of an item: a comma stands there unless it is the
last one. -/
def lineEnd (isLast : Bool) : List Char := if isLast then ['\n'] else [',', '\n']

mutual

/-- A value, from where a line is `depth` steps in. -/
def chars (depth : Nat) : Json → List Char
  | array vs => if vs.isEmpty then ['[', ']']
    else '[' :: '\n' :: itemLines (depth + 1) vs ++ indent depth ++ [']']
  | object ms => if ms.isEmpty then ['{', '}']
    else '{' :: '\n' :: memberLines (depth + 1) ms ++ indent depth ++ ['}']
  | null => "null".toList
  | bool b => if b then "true".toList else "false".toList
  | number n => n.chars
  | string text? => escape (text?.getD "").toList

/-- The items of an array, each on its line. -/
def itemLines (depth : Nat) : List Json → List Char
  | [] => []
  | v :: vs => indent depth ++ chars depth v ++ lineEnd vs.isEmpty ++ itemLines depth vs

/-- The members of an object, each on its line. -/
def memberLines (depth : Nat) : List (Option String × Json) → List Char
  | [] => []
  | (k, v) :: ms =>
    indent depth ++ escape (k.getD "").toList ++ ':' :: ' ' :: chars depth v
      ++ lineEnd ms.isEmpty ++ memberLines depth ms

end

/-- A value as text. -/
def print (v : Json) : String := String.ofList (chars 0 v)

end Compositor.Json
