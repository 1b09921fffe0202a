/-
# Decimal numbers

A decimal number is kept exactly and in one form: its digits do not end in a
zero, and zero has the exponent zero.

Key definitions: `Decimal`, `Decimal.of`, `Decimal.isShort`,
`Decimal.fitsDouble`.
-/
namespace Compositor

/-- The number `digits * 10 ^ exponent`, negated if `negative`. -/
structure Decimal where
  negative : Bool
  digits : Nat
  exponent : Int
  deriving Repr, DecidableEq, Inhabited

namespace Decimal

/-- The digits of a number without the zeros at their end, and the exponent
that makes up for them. -/
def strip (digits : Nat) (exponent : Int) : Nat × Int :=
  if _h : digits = 0 then (0, 0)
  else if digits % 10 = 0 then strip (digits / 10) (exponent + 1)
  else (digits, exponent)
termination_by digits
decreasing_by omega

/-- The decimal number `digits * 10 ^ exponent`, negated if `negative`. -/
def of (negative : Bool) (digits : Nat) (exponent : Int) : Decimal :=
  let (digits, exponent) := strip digits exponent
  ⟨negative, digits, exponent⟩

/-- Zero, negated if `negative`. -/
def zero (negative : Bool) : Decimal := of negative 0 0

/-- Has the number at most six digits, none of them far from the point? -/
def isShort (d : Decimal) : Bool :=
  d.digits < Nat.pow 10 6 && -5 ≤ d.exponent && d.exponent ≤ 5

/-- Rounds the number to a finite number of 64-bit floating point? The least
that does not is halfway between the largest such number and 2 ^ 1024. -/
def fitsDouble (d : Decimal) : Bool :=
  let magnitude := (Nat.toDigits 10 d.digits).length + d.exponent
  if d.digits = 0 ∨ magnitude ≤ 308 then true
  else if 309 < magnitude then false
  else
    let bound := Nat.pow 2 1024 - Nat.pow 2 970
    let power := Nat.pow 10 d.exponent.natAbs
    if 0 ≤ d.exponent then d.digits * power < bound else d.digits < bound * power

end Decimal
end Compositor
