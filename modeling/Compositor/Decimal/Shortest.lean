/-
# Shortest decimal numbers

A binary number is written as the decimal number with the fewest digits that
has it as its nearest one in the format; of several such numbers it is the
one nearest to the binary number. Multiples of one power of ten are tried
after those of a higher one, and of each power only the two multiples next to
the number can do.

Key definitions: `Decimal.quotient`, `Decimal.shortest`.
-/
import Compositor.Decimal
import Compositor.Decimal.Binary

namespace Compositor.Decimal

/-- The magnitude of the number as a quotient. -/
def quotient (d : Decimal) : Nat × Nat := scaled 10 d.exponent (d.digits, 1)

/-- The multiple of `10 ^ power` that has `b` as its nearest number of a
format and is nearest to `b`, if there is one. -/
def multipleFor? (f : BinaryFormat) (b : Binary) (power : Int) : Option Nat :=
  let rest := scaled 10 (-power) b.quotient
  let below := rest.1 / rest.2
  let near := roundQuotient rest.1 rest.2
  let far := if near = below then below + 1 else below
  [near, far].find? fun n => n ≠ 0 && (f.round (scaled 10 power (n, 1))).sameAs b

/-- A power of ten that is not below a positive quotient. -/
def powerAbove (q : Nat × Nat) : Int :=
  if q.2 ≤ q.1 then (Nat.toDigits 10 (q.1 / q.2)).length
  else 1 - (Nat.toDigits 10 (q.2 / q.1)).length

/-- The shortest decimal number that has `b` as its nearest number of a
format. No more than 17 digits are ever needed. -/
def shortest (f : BinaryFormat) (negative : Bool) (b : Binary) : Decimal :=
  if b.significand = 0 then zero negative
  else
    let found := (List.range 20).findSome? fun i : Nat =>
      let power : Int := powerAbove b.quotient - (i : Int)
      (multipleFor? f b power).map fun n => of negative n power
    found.getD (zero negative)

example : (shortest .single false ⟨1, -149⟩) = of false 1 (-45) := by decide +kernel
example : (shortest .double false ⟨1, -1074⟩) = of false 5 (-324) := by decide +kernel
example : (shortest .single false ⟨10, -3⟩) = of false 125 (-2) := by decide +kernel

end Compositor.Decimal
