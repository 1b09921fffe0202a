/-
# Ranges of characters

A property of characters is given by the closed ranges of the code points
that have it, in ascending order.

Key definitions: `CodeRanges`, `CodeRanges.holds`.
-/
namespace Compositor.Text

/-- Closed ranges of code points. -/
abbrev CodeRanges := List (Nat × Nat)

namespace CodeRanges

/-- Is the code point of a character in one of the ranges? -/
def holds (ranges : CodeRanges) (c : Char) : Bool :=
  ranges.any fun r => r.1 ≤ c.toNat && c.toNat ≤ r.2

end CodeRanges
end Compositor.Text
