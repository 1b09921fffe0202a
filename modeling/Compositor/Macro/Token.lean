/-
# Macro tokens

A token is `%NAME%` or `%NAME(ARGUMENT)%`: the name is made of ASCII
letters, digits and underscores, and the argument has no line feed. In a
text the argument ends at the first `)%`; a text read as one whole token
ends it at its own end.

Key definitions: `Token`, `Token.parse?`, `tokenRecogniser`, `macroPattern`,
`includePattern`, `mainTextPattern`, `isReserved`, `keyName`.
-/
import Compositor.Text.Pattern

namespace Compositor.Macro
open Text

/-- A macro token by its name and its argument. -/
structure Token where
  name : String
  argument : Option String := none
  deriving Repr, DecidableEq, Inhabited

/-- A character that a name can hold. -/
def isNameChar (c : Char) : Bool := c.isAlphanum || c = '_'

namespace Token

/-- The token between its percent signs. -/
def keyChars (t : Token) : List Char :=
  match t.argument with
  | none => t.name.toList
  | some argument => t.name.toList ++ '(' :: argument.toList ++ [')']

/-- What a table looks the token up by: `NAME` or `NAME(ARGUMENT)`. -/
def key (t : Token) : String := String.ofList t.keyChars

def chars (t : Token) : List Char := '%' :: t.keyChars ++ ['%']

/-- The token as it stands in a text. -/
def raw (t : Token) : String := String.ofList t.chars

/-- Is the token just the given name, without an argument? -/
def isJust (t : Token) (name : String) : Bool := t.name = name && t.argument.isNone

end Token

/-! ### Names with a meaning of their own -/

def includeName : String := "INCLUDE"

def mainTextName : String := "MAIN_TEXT"

def contentsName : String := "TOC"

/-- The names that a user's values never answer. -/
def reservedNames : List String := [contentsName, mainTextName, includeName]

def isReserved (name : String) : Bool := name ∈ reservedNames

/-- The name in a key: what stands before the first opening bracket. -/
def keyName (key : String) : String := String.ofList (key.toList.takeWhile (· ≠ '('))

/-! ### Reading tokens -/

/-- The argument at the head of a text and what follows its `)%`. -/
def argument? : List Char → Option (List Char × List Char)
  | [] => none
  | ')' :: '%' :: rest => some ([], rest)
  | c :: s =>
    if c = '\n' then none else (argument? s).map fun (argument, rest) => (c :: argument, rest)

theorem append_of_argument? {s argument rest : List Char}
    (h : argument? s = some (argument, rest)) : s = argument ++ ')' :: '%' :: rest := by
  fun_induction argument? s generalizing argument rest with
  | case1 => cases h
  | case2 r => cases h; rfl
  | case3 => cases h
  | case4 c s _ _ ih =>
    obtain ⟨⟨a, r⟩, ha, he⟩ := Option.map_eq_some_iff.1 h
    cases he
    simp [ih ha]

/-- The name at the head of a text and what follows it. -/
def splitName (s : List Char) : List Char × List Char :=
  (s.takeWhile isNameChar, s.dropWhile isNameChar)

theorem splitName_append (s : List Char) : (splitName s).1 ++ (splitName s).2 = s :=
  List.takeWhile_append_dropWhile

/-- The token at the head of a text, and what follows it. -/
def token? : List Char → Option (Token × List Char)
  | '%' :: s =>
    let (name, rest) := splitName s
    if name.isEmpty then none
    else
      match rest with
      | '%' :: rest => some (⟨String.ofList name, none⟩, rest)
      | '(' :: rest =>
        (argument? rest).map fun (argument, rest) =>
          (⟨String.ofList name, some (String.ofList argument)⟩, rest)
      | _ => none
  | _ => none

theorem append_of_token? {s rest : List Char} {t : Token} (h : token? s = some (t, rest)) :
    t.chars ++ rest = s := by
  unfold token? at h
  split at h
  · rename_i s
    have happ := splitName_append s
    simp only at h
    split at h
    · cases h
    · split at h
      · rename_i r hr
        cases h
        conv => rhs; rw [← happ, hr]
        simp [Token.chars, Token.keyChars]
      · rename_i r hr
        obtain ⟨⟨a, r'⟩, ha, he⟩ := Option.map_eq_some_iff.1 h
        cases he
        rw [append_of_argument? ha] at hr
        conv => rhs; rw [← happ, hr]
        simp [Token.chars, Token.keyChars]
      · cases h
  · cases h

/-- Finds any token. -/
def tokenRecogniser : Recogniser where
  find s := (token? s).map fun (t, rest) => (t.chars, rest)
  append_of_find h := by
    obtain ⟨⟨t, r⟩, ht, he⟩ := Option.map_eq_some_iff.1 h
    cases he
    exact append_of_token? ht
  ne_nil_of_find h := by
    obtain ⟨⟨t, r⟩, ht, he⟩ := Option.map_eq_some_iff.1 h
    cases he
    simp [Token.chars]

/-- The start of a token that includes a file. -/
def includeStart : List Char := "%INCLUDE(".toList

/-- Finds a token that includes a file. -/
def includeRecogniser : Recogniser where
  find s :=
    ((after? includeStart s).bind argument?).map fun (argument, rest) =>
      (includeStart ++ argument ++ [')', '%'], rest)
  append_of_find h := by
    obtain ⟨⟨a, r⟩, ha, he⟩ := Option.map_eq_some_iff.1 h
    obtain ⟨t, ht, ha⟩ := Option.bind_eq_some_iff.1 ha
    cases he
    rw [after?_eq_some_iff.1 ht, append_of_argument? ha]
    simp
  ne_nil_of_find h := by
    obtain ⟨⟨a, r⟩, _, he⟩ := Option.map_eq_some_iff.1 h
    cases he
    simp

/-- The occurrences of all tokens. -/
def macroPattern : Pattern := tokenRecogniser.pattern

/-- The occurrences of the tokens that include a file. -/
def includePattern : Pattern := includeRecogniser.pattern

/-- The occurrences of the token for the main text. -/
def mainTextPattern : Pattern := .literal (Token.chars ⟨mainTextName, none⟩)

/-- The argument of a text that is one token from its opening bracket on. -/
def wholeArgument? (s : List Char) : Option (List Char) :=
  match s.reverse with
  | '%' :: ')' :: argument =>
    if '\n' ∈ argument then none else some argument.reverse
  | _ => none

/-- The token that a text is as a whole. -/
def Token.parse? (raw : String) : Option Token :=
  match raw.toList with
  | '%' :: s =>
    let (name, rest) := splitName s
    if name.isEmpty then none
    else
      match rest with
      | ['%'] => some ⟨String.ofList name, none⟩
      | '(' :: rest =>
        (wholeArgument? rest).map fun argument =>
          ⟨String.ofList name, some (String.ofList argument)⟩
      | _ => none
  | _ => none

end Compositor.Macro
