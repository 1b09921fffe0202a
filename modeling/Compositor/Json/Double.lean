/-
# Reading numbers to double precision

A number is read to double precision in two steps. Its digits make a natural
number of at most 64 bits; those that no longer fit only count for the
exponent. The double nearest to that number is then multiplied or divided by
the double nearest to the power of ten. The outcome may be off by a last
digit, but what is a short decimal number is read exactly to the nearest.

Key definitions: `Json.takeDigits`, `Json.Numeral.double?`.
-/
import Compositor.Decimal.Binary
import Compositor.Json.Numeral

namespace Compositor.Json

/-- Digits that follow a number already read go on with it as long as it
stays below `2 ^ 64`: the number then, and how many digits are left. -/
def takeDigits : Nat → List Char → Nat × Nat
  | n, [] => (n, 0)
  | n, c :: s =>
    let next := Nat.ofDigitChars 10 [c] n
    if next < Nat.pow 2 64 then takeDigits next s else (n, s.length + 1)

theorem takeDigits_lt {n : Nat} {s : List Char} (h : n < Nat.pow 2 64) :
    (takeDigits n s).1 < Nat.pow 2 64 := by
  fun_induction takeDigits n s with
  | case1 n => exact h
  | case2 n c s next hnext ih => exact ih hnext
  | case3 n c s next hnext => exact h

/-- The greatest power of ten that has a double is that to this exponent. -/
def greatestPower : Nat := 308

/-- The double nearest to a power of ten. -/
def powerOfTen (exponent : Nat) : Binary := BinaryFormat.double.round (Nat.pow 10 exponent, 1)

/-- A double times a power of ten, unless it is beyond all doubles. A power
that is no double is divided by in several steps. -/
def timesPower? (f : Binary) (exponent : Int) : Option Binary :=
  if greatestPower < exponent then if f.significand = 0 then some f else none
  else if 0 ≤ exponent then
    let product := BinaryFormat.double.round (f.times (powerOfTen exponent.toNat))
    if BinaryFormat.double.holds product then some product else none
  else if -(greatestPower : Int) ≤ exponent then
    some (BinaryFormat.double.round (f.dividedBy (powerOfTen (-exponent).toNat)))
  else if f.significand = 0 then some f
  else
    timesPower? (BinaryFormat.double.round (f.dividedBy (powerOfTen greatestPower)))
      (exponent + greatestPower)
termination_by exponent.natAbs
decreasing_by
  simp only [greatestPower] at *
  omega

/-- The magnitude of a number in double precision, unless it is beyond all
doubles. -/
def Numeral.double? (n : Numeral) : Option Binary :=
  let (whole, skipped) := takeDigits 0 n.whole
  let (significand, left) := takeDigits whole n.fraction
  timesPower? (BinaryFormat.double.round (significand, 1))
    (n.exponent?.getD 0 + skipped - (n.fraction.length - left : Nat))

end Compositor.Json
