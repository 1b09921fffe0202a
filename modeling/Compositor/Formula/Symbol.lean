/-
# Styled letters and their spelling

Formulas may hold styled letters as code points of their own: four styles of
the Latin alphabet, and Greek letters plain, bold, italic and bold italic.
The formula language spells each as a group of control words. `symbolTable`
lists them all, each code point once.

Key definitions: `symbolTable`, `spelling?`, `spellSymbols`.
-/
namespace Compositor.Formula

/-- A styled Latin alphabet: its first capital, its first small letter and
the attributes that spell the style. -/
structure LatinStyle where
  capital : Nat
  small : Nat
  attributes : String

def latinStyles : List LatinStyle :=
  [⟨0x1D400, 0x1D41A, "bold nitalic"⟩,
   ⟨0x1D434, 0x1D44E, "italic"⟩,
   ⟨0x1D468, 0x1D482, "bold italic"⟩,
   ⟨0x1D5D4, 0x1D5EE, "font sans bold nitalic"⟩]

/-- The italic small h is the Planck constant, outside the run of its
alphabet. -/
def latinPoint (point : Nat) : Nat := if point = 0x1D455 then 0x210E else point

def capitals : List Char := "ABCDEFGHIJKLMNOPQRSTUVWXYZ".toList

def smalls : List Char := "abcdefghijklmnopqrstuvwxyz".toList

/-- A group of the formula language: its content in braces. -/
def braced (content : List Char) : List Char := '{' :: content ++ ['}']

/-- The letters of one alphabet: code points in a row from `first`. -/
def latinAlphabet (first : Nat) (attributes : String) (letters : List Char) :
    List (Char × List Char) :=
  letters.zipIdx.map fun (letter, i) =>
    (Char.ofNat (latinPoint (first + i)), braced (attributes.toList ++ [' ', letter]))

def latinTable : List (Char × List Char) :=
  latinStyles.flatMap fun style =>
    latinAlphabet style.capital style.attributes capitals ++
      latinAlphabet style.small style.attributes smalls

/-- A Greek letter: its plain code point and its control words, upright and
italic. The place of a letter in its list is its place in every styled
alphabet. -/
structure GreekLetter where
  plain : Nat
  upright : String
  italic : String

/-- A letter whose italic form is its control word with an i after the sign. -/
def greek (plain : Nat) (word : String) : Option GreekLetter :=
  some ⟨plain, "%" ++ word, "%i" ++ word⟩

/-- The Greek capitals and nabla; the place after rho has no control word. -/
def greekCapitals : List (Option GreekLetter) :=
  [greek 0x0391 "ALPHA", greek 0x0392 "BETA", greek 0x0393 "GAMMA", greek 0x0394 "DELTA",
   greek 0x0395 "EPSILON", greek 0x0396 "ZETA", greek 0x0397 "ETA", greek 0x0398 "THETA",
   greek 0x0399 "IOTA", greek 0x039A "KAPPA", greek 0x039B "LAMBDA", greek 0x039C "MU",
   greek 0x039D "NU", greek 0x039E "XI", greek 0x039F "OMICRON", greek 0x03A0 "PI",
   greek 0x03A1 "RHO", none, greek 0x03A3 "SIGMA", greek 0x03A4 "TAU",
   greek 0x03A5 "UPSILON", greek 0x03A6 "PHI", greek 0x03A7 "CHI", greek 0x03A8 "PSI",
   greek 0x03A9 "OMEGA", some ⟨0x2207, "%NABLA", "italic %NABLA"⟩]

/-- The Greek small letters, the partial sign and the variant forms; the
variant kappa has no control word. -/
def greekSmalls : List (Option GreekLetter) :=
  [greek 0x03B1 "alpha", greek 0x03B2 "beta", greek 0x03B3 "gamma", greek 0x03B4 "delta",
   greek 0x03B5 "varepsilon", greek 0x03B6 "zeta", greek 0x03B7 "eta", greek 0x03B8 "theta",
   greek 0x03B9 "iota", greek 0x03BA "kappa", greek 0x03BB "lambda", greek 0x03BC "mu",
   greek 0x03BD "nu", greek 0x03BE "xi", greek 0x03BF "omicron", greek 0x03C0 "pi",
   greek 0x03C1 "rho", greek 0x03C2 "varsigma", greek 0x03C3 "sigma", greek 0x03C4 "tau",
   greek 0x03C5 "upsilon", greek 0x03C6 "varphi", greek 0x03C7 "chi", greek 0x03C8 "psi",
   greek 0x03C9 "omega", some ⟨0x2202, "partial", "partial"⟩, greek 0x03F5 "epsilon",
   greek 0x03D1 "vartheta", none, greek 0x03D5 "phi", greek 0x03F1 "varrho",
   greek 0x03D6 "varpi"]

/-- The letters of a list with a code point and a spelling for each. -/
def greekAlphabet (point : Nat → GreekLetter → Nat) (spell : GreekLetter → String)
    (letters : List (Option GreekLetter)) : List (Char × List Char) :=
  letters.zipIdx.filterMap fun (letter?, i) =>
    letter?.map fun letter => (Char.ofNat (point i letter), braced (spell letter).toList)

/-- The alphabet whose code points run in a row from `first`. -/
def greekStyled (first : Nat) : (GreekLetter → String) → List (Option GreekLetter) →
    List (Char × List Char) :=
  greekAlphabet fun i _ => first + i

def greekTable : List (Char × List Char) :=
  let plain := greekAlphabet fun _ letter => letter.plain
  plain (·.upright) greekCapitals ++ plain (·.upright) greekSmalls ++
    greekStyled 0x1D6A8 ("bold " ++ ·.upright) greekCapitals ++
    greekStyled 0x1D6C2 ("bold " ++ ·.upright) greekSmalls ++
    greekStyled 0x1D6E2 (·.italic) greekCapitals ++
    greekStyled 0x1D6FC (·.italic) greekSmalls ++
    greekStyled 0x1D71C ("bold " ++ ·.italic) greekCapitals ++
    greekStyled 0x1D736 ("bold " ++ ·.italic) greekSmalls

/-- Every styled letter with its spelling. -/
def symbolTable : List (Char × List Char) := latinTable ++ greekTable

/-- The spelling of a styled letter. -/
def spelling? (c : Char) : Option (List Char) := symbolTable.lookup c

/-- The text with every styled letter spelled in control words. -/
def spellSymbols (s : List Char) : List Char :=
  s.flatMap fun c => (spelling? c).getD [c]

end Compositor.Formula
