/-
# Texts in files of settings

A text stands between double quotes, with escapes, or between single quotes,
without them. Between three quotes of either kind it may go over several
lines; a line feed right after the opening quotes does not count, and one or
two quotes may stand anywhere, also right before the closing ones.

Key definitions: `Toml.basic?`, `Toml.literal?`, `Toml.longBasic?`,
`Toml.longLiteral?`, `Toml.quoted?`.
-/
import Compositor.Text.Hex

namespace Compositor.Toml
open Text

/-- Is the character a control character other than a tab? None of them may
stand for itself. -/
def isControl (c : Char) : Bool := (c.toNat < 0x20 && c ≠ '\t') || c.toNat = 0x7F

/-- Is the character a blank within a line? -/
def isSpace (c : Char) : Bool := c = ' ' || c = '\t'

def skipSpace (s : List Char) : List Char := s.dropWhile isSpace

/-- What follows a line end. -/
def newline? : List Char → Option (List Char)
  | '\n' :: s => some s
  | '\r' :: '\n' :: s => some s
  | _ => none

/-- The character of an escape, after its backslash, and what follows it. -/
def escaped? : List Char → Option (Char × List Char)
  | 'b' :: s => some ('\x08', s)
  | 't' :: s => some ('\t', s)
  | 'n' :: s => some ('\n', s)
  | 'f' :: s => some ('\x0c', s)
  | 'r' :: s => some ('\r', s)
  | '"' :: s => some ('"', s)
  | '\\' :: s => some ('\\', s)
  | 'e' :: s => some ('\x1b', s)
  | 'x' :: a :: b :: s => ((hexValue? [a, b]).bind charOf?).map fun x => (x, s)
  | 'u' :: a :: b :: c :: d :: s =>
    ((hexValue? [a, b, c, d]).bind charOf?).map fun x => (x, s)
  | 'U' :: a :: b :: c :: d :: e :: f :: g :: h :: s =>
    ((hexValue? [a, b, c, d, e, f, g, h]).bind charOf?).map fun x => (x, s)
  | _ => none

theorem length_lt_of_escaped? {s rest : List Char} {c : Char} (h : escaped? s = some (c, rest)) :
    rest.length < s.length := by
  unfold escaped? at h
  split at h
  case h_9 | h_10 | h_11 =>
    obtain ⟨x, _, hx⟩ := Option.map_eq_some_iff.1 h
    cases hx
    simp
    try omega
  case h_12 => cases h
  all_goals cases h; simp

/-- The text up to a closing double quote, and what follows it. -/
def basic? (s : List Char) : Option (List Char × List Char) :=
  match s with
  | [] => none
  | '"' :: rest => some ([], rest)
  | '\\' :: rest =>
    match _h : escaped? rest with
    | none => none
    | some (c, rest) => (basic? rest).map fun (text, rest) => (c :: text, rest)
  | c :: rest =>
    if isControl c then none else (basic? rest).map fun (text, rest) => (c :: text, rest)
termination_by s.length
decreasing_by
  · have := length_lt_of_escaped? _h
    simp
    omega
  · simp

/-- The text up to a closing single quote, and what follows it. -/
def literal? : List Char → Option (List Char × List Char)
  | [] => none
  | c :: s =>
    if c = '\'' then some ([], s)
    else if isControl c then none
    else (literal? s).map fun (text, rest) => (c :: text, rest)

/-- The text without the blanks and the line ends at its head. -/
def skipBlankLines : List Char → List Char
  | [] => []
  | '\r' :: '\n' :: s => skipBlankLines s
  | c :: s => if isSpace c || c = '\n' then skipBlankLines s else c :: s

theorem length_skipBlankLines_le (s : List Char) : (skipBlankLines s).length ≤ s.length := by
  fun_induction skipBlankLines s with
  | case1 => exact Nat.le_refl _
  | case2 s ih => simp only [List.length_cons]; omega
  | case3 c s _ _ ih => simp only [List.length_cons]; omega
  | case4 => exact Nat.le_refl _

/-- What follows a backslash that joins lines: all blanks and line ends after
it, of which a line end has to be the first that is not a blank. -/
def joined? (s : List Char) : Option (List Char) :=
  (newline? (skipSpace s)).map fun _ => skipBlankLines s

theorem length_le_of_joined? {s rest : List Char} (h : joined? s = some rest) :
    rest.length ≤ s.length := by
  obtain ⟨_, _, hr⟩ := Option.map_eq_some_iff.1 h
  rw [← hr]
  exact length_skipBlankLines_le s

/-- The quotes at the head of a text, if they close a text over several
lines: those that still belong to the text, and what follows the closing
ones. -/
def closing? (quote : Char) (s : List Char) : Option (List Char × List Char) :=
  let count := (s.takeWhile (· = quote)).length
  if count < 3 then none
  else
    let inside := min (count - 3) 2
    some (List.replicate inside quote, s.drop (inside + 3))

/-- The text up to three closing double quotes, and what follows them. -/
def longBasic? (s : List Char) : Option (List Char × List Char) :=
  match s with
  | [] => none
  | '\\' :: rest =>
    match _h : joined? rest with
    | some rest => longBasic? rest
    | none =>
      match _h : escaped? rest with
      | none => none
      | some (c, rest) => (longBasic? rest).map fun (text, rest) => (c :: text, rest)
  | c :: rest =>
    match closing? '"' (c :: rest) with
    | some found => some found
    | none =>
      if isControl c && (newline? (c :: rest)).isNone then none
      else (longBasic? rest).map fun (text, rest) => (c :: text, rest)
termination_by s.length
decreasing_by
  · have := length_le_of_joined? _h
    simp
    omega
  · have := length_lt_of_escaped? _h
    simp
    omega
  · simp

/-- The text up to three closing single quotes, and what follows them. -/
def longLiteral? : List Char → Option (List Char × List Char)
  | [] => none
  | c :: s =>
    match closing? '\'' (c :: s) with
    | some found => some found
    | none =>
      if isControl c && (newline? (c :: s)).isNone then none
      else (longLiteral? s).map fun (text, rest) => (c :: text, rest)

/-- A text without a line end at its start. -/
def dropNewline (s : List Char) : List Char := (newline? s).getD s

/-- The text in quotes at the head of a text, and what follows it; only
within a line if `short`. -/
def quoted? (short : Bool) : List Char → Option (List Char × List Char)
  | '"' :: '"' :: '"' :: s => if short then none else longBasic? (dropNewline s)
  | '\'' :: '\'' :: '\'' :: s => if short then none else longLiteral? (dropNewline s)
  | '"' :: s => basic? s
  | '\'' :: s => literal? s
  | _ => none

end Compositor.Toml
