/-
# Font sizes

A font size is a number of single precision, kept as the shortest decimal
number that is nearest to it. What is beyond the greatest number is infinite.

Key definitions: `FontSize`, `FontSize.ofQuotient`, `FontSize.unsigned`.
-/
import Compositor.Decimal.Shortest

namespace Compositor

/-- A size of text. -/
inductive FontSize where
  /-- The number of single precision that is nearest to `d`, where `d` is the
  shortest decimal number for it. -/
  | finite (d : Decimal)
  /-- A number beyond all others. -/
  | infinite (negative : Bool)
  deriving Repr, DecidableEq, Inhabited

namespace FontSize

/-- The size nearest to a quotient, negated if `negative`. -/
def ofQuotient (negative : Bool) (q : Nat × Nat) : FontSize :=
  let b := BinaryFormat.single.round q
  if BinaryFormat.single.holds b then finite (.shortest .single negative b)
  else infinite negative

/-- The size, where a zero has lost its sign: two sizes are equal numbers if
they agree in this. -/
def unsigned : FontSize → FontSize
  | finite d => if d.digits = 0 then finite (.zero false) else finite d
  | infinite negative => infinite negative

example : ofQuotient false (16777217, 1) = finite (.of false 16777216 0) := by decide +kernel
example : ofQuotient true (Nat.pow 10 39, 1) = infinite true := by decide +kernel

end FontSize
end Compositor
