/-
# Formula repair

A formula that went through a converter can hold raw code points for styled
letters, accents after their base, keywords without a side and operators cut
off from an operand. Accents come first, while a base is still one character,
and operators last, since only control words are known to them.

Key definition: `repair`.
-/
import Compositor.Formula.Accent
import Compositor.Formula.Keyword
import Compositor.Formula.Symbol
import Compositor.Formula.Operator

namespace Compositor.Formula

/-- The repaired text of a formula. -/
def repairText (s : List Char) : List Char :=
  fixOperators (spellSymbols (fixKeywords (foldAccents s)))

/-- The repaired formula. -/
def repair (formula : String) : String := String.ofList (repairText formula.toList)

end Compositor.Formula
