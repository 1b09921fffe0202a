/-
# Numbers of the data format

A number is kept by its parts as they are written. It is an integer only if
it is written without a point, an exponent and a negated zero.

Key definitions: `Json.Numeral`, `Json.Numeral.ofInt`,
`Json.Numeral.ofDecimal`, `Json.Numeral.integer?`, `Json.Numeral.decimal`.
-/
import Compositor.Decimal

namespace Compositor.Json

/-- The parts of a number: the digits before the point, those after it, and
the exponent if there is one. Where no digits come after the point there is
no point. -/
structure Numeral where
  negative : Bool := false
  whole : List Char
  fraction : List Char := []
  exponent? : Option Int := none
  deriving Repr, DecidableEq, Inhabited

namespace Numeral

def ofInt (n : Int) : Numeral := { negative := n < 0, whole := Nat.toDigits 10 n.natAbs }

/-- A decimal number with at least one digit on each side of the point. A
number with more than 13 digits before the point, or with more than five
zeros after it, is written with one digit before the point and a power of
ten, and then a single digit takes no point. -/
def ofDecimal (d : Decimal) : Numeral :=
  let digits := Nat.toDigits 10 d.digits
  let point := digits.length + d.exponent
  if 0 ≤ d.exponent ∧ point ≤ 13 then
    { negative := d.negative, fraction := ['0']
      whole := digits ++ List.replicate d.exponent.toNat '0' }
  else if 0 < point ∧ point ≤ 13 then
    { negative := d.negative, whole := digits.take point.toNat
      fraction := digits.drop point.toNat }
  else if -6 < point ∧ point ≤ 0 then
    { negative := d.negative, whole := ['0']
      fraction := List.replicate (-point).toNat '0' ++ digits }
  else
    { negative := d.negative, whole := digits.take 1, fraction := digits.drop 1
      exponent? := some (point - 1) }

/-- The number that the digits on both sides of the point make together. -/
def digits (n : Numeral) : Nat := Nat.ofDigitChars 10 (n.whole ++ n.fraction) 0

/-- The integer that is written. -/
def integer? (n : Numeral) : Option Int :=
  if n.fraction.isEmpty ∧ n.exponent?.isNone ∧ ¬(n.negative ∧ n.digits = 0) then
    some (if n.negative then -n.digits else n.digits)
  else none

/-- The number that is written. -/
def decimal (n : Numeral) : Decimal :=
  .of n.negative n.digits (n.exponent?.getD 0 - n.fraction.length)

end Numeral
end Compositor.Json
