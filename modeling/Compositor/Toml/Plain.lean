/-
# Plain values in files of settings

A truth value, a number, a date or a time is written without quotes. Digits
may be set off by single underscores; an integer may be written to the bases
16, 8 and 2; and a number or a date that is out of range is no value.

Key definitions: `Toml.plain?`.
-/
import Compositor.Decimal
import Compositor.Text.Hex
import Compositor.Text.Start
import Compositor.Toml.Basic

namespace Compositor.Toml
open Text

/-! ### Numbers -/

/-- The digits of a text that an underscore may stand between. -/
def digitsOf? (isDigit : Char → Bool) : List Char → Option (List Char)
  | [] => none
  | [c] => if isDigit c then some [c] else none
  | c :: '_' :: s => if isDigit c then (digitsOf? isDigit s).map (c :: ·) else none
  | c :: s => if isDigit c then (digitsOf? isDigit s).map (c :: ·) else none

/-- The number that digits to a base up to 16 make. -/
def valueOf (base : Nat) (digits : List Char) : Nat :=
  digits.foldl (fun n c => base * n + (hexDigit? c).getD 0) 0

/-- A number to a base of its own. -/
def basedNumber? (base : Nat) (s : List Char) : Option Nat :=
  (digitsOf? (fun c => (hexDigit? c).any (· < base)) s).map (valueOf base)

/-- The digits of a decimal number, which do not start with a zero unless
they are one. -/
def wholeDigits? (s : List Char) : Option (List Char) :=
  (digitsOf? Char.isDigit s).filter fun digits => digits.length = 1 || digits.head? ≠ some '0'

/-- A text without a sign, and whether the sign was a minus. -/
def dropSign : List Char → Bool × List Char
  | '-' :: s => (true, s)
  | '+' :: s => (false, s)
  | s => (false, s)

/-- An integer of at most 128 bits. -/
def bounded? (n : Int) : Option Toml :=
  if -(Nat.pow 2 127 : Int) ≤ n ∧ n < (Nat.pow 2 128 : Int) then some (integer n) else none

def integer? (s : List Char) : Option Toml :=
  match s with
  | '0' :: 'x' :: s => (basedNumber? 16 s).bind fun n => bounded? n
  | '0' :: 'o' :: s => (basedNumber? 8 s).bind fun n => bounded? n
  | '0' :: 'b' :: s => (basedNumber? 2 s).bind fun n => bounded? n
  | s =>
    let (negative, s) := dropSign s
    (wholeDigits? s).bind fun digits =>
      let n : Int := valueOf 10 digits
      bounded? (if negative then -n else n)

/-- The exponent after an `e`. -/
def exponentOf? (s : List Char) : Option Int :=
  let (negative, s) := dropSign s
  (digitsOf? Char.isDigit s).map fun digits =>
    let n : Int := valueOf 10 digits
    if negative then -n else n

/-- The decimal number of a text without its sign: digits, and a fraction, an
exponent or both. -/
def decimalOf? (s : List Char) : Option Decimal :=
  let mantissa := s.takeWhile fun c => c ≠ 'e' && c ≠ 'E'
  let exponent? :=
    match s.drop mantissa.length with
    | [] => some 0
    | _ :: s => exponentOf? s
  match mantissa.dropWhile (· ≠ '.') with
  | [] => do
    let whole ← wholeDigits? mantissa
    return .of false (valueOf 10 whole) (← exponent?)
  | _ :: fraction => do
    let whole ← wholeDigits? (mantissa.takeWhile (· ≠ '.'))
    let fraction ← digitsOf? Char.isDigit fraction
    return .of false (valueOf 10 (whole ++ fraction)) ((← exponent?) - fraction.length)

/-- A number of 64-bit floating point, or one of its special values. -/
def float? (s : List Char) : Option Toml :=
  let (_, s) := dropSign s
  if s = "inf".toList ∨ s = "nan".toList then some float
  else ((decimalOf? s).filter Decimal.fitsDouble).map fun _ => float

/-! ### Dates and times -/

/-- A number of exactly `width` digits at the head of a text, and what
follows it. -/
def fixed? (width : Nat) (s : List Char) : Option (Nat × List Char) :=
  let digits := s.take width
  if digits.length = width && digits.all Char.isDigit then
    some (valueOf 10 digits, s.drop width)
  else none

def isLeapYear (year : Nat) : Bool := (year % 4 = 0 && year % 100 ≠ 0) || year % 400 = 0

def daysIn (year month : Nat) : Nat :=
  if month = 2 then if isLeapYear year then 29 else 28
  else if month = 4 ∨ month = 6 ∨ month = 9 ∨ month = 11 then 30
  else 31

/-- What follows a date. -/
def afterDate? (s : List Char) : Option (List Char) := do
  let (year, s) ← fixed? 4 s
  let (month, s) ← fixed? 2 (← after? ['-'] s)
  let (day, s) ← fixed? 2 (← after? ['-'] s)
  if 1 ≤ month ∧ month ≤ 12 ∧ 1 ≤ day ∧ day ≤ daysIn year month then some s else none

/-- What follows a fraction of a second, if there is one. -/
def afterFraction? : List Char → Option (List Char)
  | '.' :: s => if (s.head?).any Char.isDigit then some (s.dropWhile Char.isDigit) else none
  | s => some s

/-- What follows the seconds of a time of day, if there are any. Only seconds
have a fraction. -/
def afterSeconds? : List Char → Option (List Char)
  | ':' :: s => do
    let (second, s) ← fixed? 2 s
    if second ≤ 60 then afterFraction? s else none
  | s => some s

/-- What follows a time of day. -/
def afterTime? (s : List Char) : Option (List Char) := do
  let (hour, s) ← fixed? 2 s
  let (minute, s) ← fixed? 2 (← after? [':'] s)
  if hour ≤ 23 ∧ minute ≤ 59 then afterSeconds? s else none

/-- Is the text the offset of a time zone, or nothing? -/
def isOffset : List Char → Bool
  | [] => true
  | ['Z'] | ['z'] => true
  | c :: s =>
    (c = '+' || c = '-') &&
      (match fixed? 2 s with
      | some (hour, ':' :: s) =>
        hour ≤ 23 && (fixed? 2 s).any fun (minute, s) => minute ≤ 59 && s.isEmpty
      | _ => false)

/-- Is the text a date, a time, or both? -/
def isDateTime (s : List Char) : Bool :=
  match afterDate? s with
  | some [] => true
  | some (c :: s) =>
    (c = 'T' || c = 't' || c = ' ') && (afterTime? s).any isOffset
  | none => (afterTime? s).any List.isEmpty

/-- The value of a text without quotes. -/
def plain? (s : List Char) : Option Toml :=
  if s = "true".toList then some (boolean true)
  else if s = "false".toList then some (boolean false)
  else if isDateTime s then some dateTime
  else (integer? s).or (float? s)

/-- Does a character end a value without quotes? -/
def endsPlain (c : Char) : Bool := c ∈ [' ', '\t', '\n', '\r', ',', ']', '\x7d', '#', '=']

/-- The text without quotes at the head of a text, and what follows it. A
blank between a date and a time belongs to it. -/
def splitPlain (s : List Char) : List Char × List Char :=
  let word := s.takeWhile fun c => !endsPlain c
  match s.drop word.length with
  | ' ' :: rest =>
    if afterDate? word = some [] ∧ (rest.head?).any Char.isDigit then
      let time := rest.takeWhile fun c => !endsPlain c
      (word ++ ' ' :: time, rest.drop time.length)
    else (word, ' ' :: rest)
  | rest => (word, rest)

end Compositor.Toml
