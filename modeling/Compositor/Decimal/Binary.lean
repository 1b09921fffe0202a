/-
# Binary numbers

A number of a binary format is a significand of so many binary digits times
a power of two. Every positive quotient has a nearest one; of two that are
equally near it is the one with the even significand.

Key definitions: `roundQuotient`, `Binary`, `BinaryFormat`,
`BinaryFormat.round`.
Key theorem: `roundQuotient_within_half`.
-/
namespace Compositor

/-! ### Quotients -/

/-- The whole number nearest to a quotient; of two that are equally near the
even one. -/
def roundQuotient (num den : Nat) : Nat :=
  let below := num / den
  let rest := num % den
  if 2 * rest < den ∨ (2 * rest = den ∧ below % 2 = 0) then below else below + 1

theorem roundQuotient_within_half (num : Nat) {den : Nat} (h : 0 < den) :
    2 * num ≤ 2 * (den * roundQuotient num den) + den ∧
      2 * (den * roundQuotient num den) ≤ 2 * num + den := by
  have hdiv := Nat.div_add_mod num den
  have hmod := Nat.mod_lt num h
  unfold roundQuotient
  simp only
  split
  · omega
  · rw [Nat.mul_add]
    omega

/-- A number as a quotient, multiplied by a power of a base. -/
def scaled (base : Nat) (power : Int) (q : Nat × Nat) : Nat × Nat :=
  if 0 ≤ power then (q.1 * Nat.pow base power.toNat, q.2)
  else (q.1, q.2 * Nat.pow base (-power).toNat)

/-- The exponent of the greatest power of two that is at most a quotient. -/
def logQuotient (q : Nat × Nat) : Int :=
  let power : Int := q.1.log2 - q.2.log2
  let rest := scaled 2 (-power) q
  if rest.1 < rest.2 then power - 1 else power

/-! ### Numbers of a format -/

/-- The number `significand * 2 ^ exponent`. -/
structure Binary where
  significand : Nat
  exponent : Int
  deriving Repr, DecidableEq, Inhabited

namespace Binary

/-- The number as a quotient. -/
def quotient (b : Binary) : Nat × Nat := scaled 2 b.exponent (b.significand, 1)

/-- Are two numbers the same, whatever their exponents? -/
def sameAs (a b : Binary) : Bool :=
  a.quotient.1 * b.quotient.2 = b.quotient.1 * a.quotient.2

/-- The product of two numbers as a quotient. -/
def times (a b : Binary) : Nat × Nat :=
  (a.quotient.1 * b.quotient.1, a.quotient.2 * b.quotient.2)

/-- The quotient of two numbers. -/
def dividedBy (a b : Binary) : Nat × Nat :=
  (a.quotient.1 * b.quotient.2, a.quotient.2 * b.quotient.1)

end Binary

/-- A format of binary numbers: the binary digits of a significand, the least
exponent, and the power of two that all numbers are below. -/
structure BinaryFormat where
  digits : Nat
  least : Int
  limit : Nat

namespace BinaryFormat

/-- Single precision. -/
def single : BinaryFormat := ⟨24, -149, 128⟩

/-- Double precision. -/
def double : BinaryFormat := ⟨53, -1074, 1024⟩

/-- The number that is nearest to a quotient among those of a format and
those that go on beyond its limit. -/
def round (f : BinaryFormat) (q : Nat × Nat) : Binary :=
  let exponent := max f.least (logQuotient q + 1 - f.digits)
  let rest := scaled 2 (-exponent) q
  ⟨roundQuotient rest.1 rest.2, exponent⟩

/-- Is a number within the limit of the format? -/
def holds (f : BinaryFormat) (b : Binary) : Bool :=
  b.quotient.1 < b.quotient.2 * Nat.pow 2 f.limit

end BinaryFormat
end Compositor
