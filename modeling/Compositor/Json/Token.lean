/-
# Tokens of the data format

A text is cut into brackets, separators, the three words, numbers and
strings; the four blanks between them do not matter. A string holds no raw
control character and knows eight escapes of one letter besides `\u` with
four hexadecimal digits, which name a unit of UTF-16.

Key definitions: `Json.Token`, `Json.tokens?`.
-/
import Compositor.Json.Basic
import Compositor.Text.Hex
import Compositor.Text.Start

namespace Compositor.Json
open Text

inductive Token where
  | openArray
  | closeArray
  | openObject
  | closeObject
  | comma
  | colon
  /-- A value that is one token. -/
  | scalar (value : Json)
  | string (text? : Option String)
  deriving Repr, Inhabited

/-- A blank of the data format. -/
def isSpace (c : Char) : Bool := c = ' ' || c = '\t' || c = '\n' || c = '\r'

/-! ### Strings -/

/-- A character of a string literal, or an escaped unit of UTF-16. -/
inductive Piece where
  | char (c : Char)
  | unit (n : Nat)
  deriving Repr, DecidableEq

/-- Is the number a unit that opens a surrogate pair? -/
def isHighUnit (n : Nat) : Bool := 0xD800 ≤ n && n < 0xDC00

/-- Is the number a unit that closes a surrogate pair? -/
def isLowUnit (n : Nat) : Bool := 0xDC00 ≤ n && n < 0xE000

/-- The text of the pieces, if every half of a surrogate pair has its other
half next to it. -/
def decodePieces : List Piece → Option (List Char)
  | [] => some []
  | .char c :: rest => (decodePieces rest).map (c :: ·)
  | .unit high :: .unit low :: rest =>
    if isHighUnit high then
      if isLowUnit low then
        (decodePieces rest).map
          (Char.ofNat (0x10000 + (high - 0xD800) * 0x400 + (low - 0xDC00)) :: ·)
      else none
    else
      match charOf? high with
      | none => none
      | some c => (decodePieces (.unit low :: rest)).map (c :: ·)
  | .unit n :: rest =>
    match charOf? n with
    | none => none
    | some c => (decodePieces rest).map (c :: ·)

/-- The character that a backslash and a letter stand for. -/
def escapeLetter? : Char → Option Char
  | '"' => some '"'
  | '\\' => some '\\'
  | '/' => some '/'
  | 'b' => some '\x08'
  | 'f' => some '\x0c'
  | 'n' => some '\n'
  | 'r' => some '\r'
  | 't' => some '\t'
  | _ => none

/-- The number of four hexadecimal digits. -/
def fourDigits? (a b c d : Char) : Option Nat := hexValue? [a, b, c, d]

/-- The pieces of a string up to its closing quote, and what follows it. -/
def pieces? : List Char → Option (List Piece × List Char)
  | [] => none
  | '"' :: rest => some ([], rest)
  | '\\' :: 'u' :: a :: b :: c :: d :: rest =>
    match fourDigits? a b c d with
    | none => none
    | some n => (pieces? rest).map fun (pieces, rest) => (.unit n :: pieces, rest)
  | '\\' :: letter :: rest =>
    match escapeLetter? letter with
    | none => none
    | some c => (pieces? rest).map fun (pieces, rest) => (.char c :: pieces, rest)
  | c :: rest =>
    if c = '\\' ∨ c.toNat < 0x20 then none
    else (pieces? rest).map fun (pieces, rest) => (.char c :: pieces, rest)

/-! ### Numbers -/

/-- The digits at the head of a text and what follows them; there has to be
one. -/
def digits? (s : List Char) : Option (List Char × List Char) :=
  let digits := s.takeWhile Char.isDigit
  if digits.isEmpty then none else some (digits, s.dropWhile Char.isDigit)

/-- The digits after a point, if there is one. -/
def fraction? : List Char → Option (List Char × List Char)
  | '.' :: s => digits? s
  | s => some ([], s)

/-- The sign of an exponent and what follows it. -/
def exponentSign : List Char → Bool × List Char
  | '-' :: s => (true, s)
  | '+' :: s => (false, s)
  | s => (false, s)

/-- The exponent, if there is one. -/
def exponent? : List Char → Option (Option Int × List Char)
  | c :: s =>
    if c = 'e' ∨ c = 'E' then
      (digits? (exponentSign s).2).map fun (digits, rest) =>
        let n : Int := Nat.ofDigitChars 10 digits 0
        (some (if (exponentSign s).1 then -n else n), rest)
    else some (none, c :: s)
  | [] => some (none, [])

/-- The digits before the point. A zero at their start stands alone. -/
def whole? : List Char → Option (List Char × List Char)
  | '0' :: s => some (['0'], s)
  | s => digits? s

/-- A number without its sign. -/
def unsigned? (negative : Bool) (s : List Char) : Option (Numeral × List Char) :=
  (whole? s).bind fun (whole, s) =>
    (fraction? s).bind fun (fraction, s) =>
      (exponent? s).map fun (exponent?, s) => (⟨negative, whole, fraction, exponent?⟩, s)

/-- The number at the head of a text and what follows it. -/
def numeral? : List Char → Option (Numeral × List Char)
  | '-' :: s => unsigned? true s
  | s => unsigned? false s

/-! ### Tokens -/

/-- The token at the head of a text that does not start with a blank, and
what follows it. -/
def token? (s : List Char) : Option (Token × List Char) :=
  match s with
  | '[' :: s => some (.openArray, s)
  | ']' :: s => some (.closeArray, s)
  | '{' :: s => some (.openObject, s)
  | '}' :: s => some (.closeObject, s)
  | ',' :: s => some (.comma, s)
  | ':' :: s => some (.colon, s)
  | '"' :: s =>
    (pieces? s).map fun (pieces, rest) =>
      (.string ((decodePieces pieces).map String.ofList), rest)
  | 'n' :: s => (after? ['u', 'l', 'l'] s).map fun rest => (.scalar .null, rest)
  | 't' :: s => (after? ['r', 'u', 'e'] s).map fun rest => (.scalar (.bool true), rest)
  | 'f' :: s => (after? ['a', 'l', 's', 'e'] s).map fun rest => (.scalar (.bool false), rest)
  | s => (numeral? s).map fun (n, rest) => (.scalar (.number n), rest)

/-! ### A token takes at least a character -/

theorem length_lt_of_pieces? {s rest : List Char} {pieces : List Piece}
    (h : pieces? s = some (pieces, rest)) : rest.length < s.length := by
  fun_induction pieces? s generalizing pieces rest with
  | case1 => cases h
  | case2 r => cases h; simp
  | case3 a b c d r hn => cases h
  | case4 a b c d r n hn ih =>
    obtain ⟨⟨p, q⟩, hp, he⟩ := Option.map_eq_some_iff.1 h
    cases he
    have := ih hp
    simp
    omega
  | case5 letter r _ hn => cases h
  | case6 letter r _ c hc ih =>
    obtain ⟨⟨p, q⟩, hp, he⟩ := Option.map_eq_some_iff.1 h
    cases he
    have := ih hp
    simp
    omega
  | case7 => cases h
  | case8 c r _ _ _ _ ih =>
    obtain ⟨⟨p, q⟩, hp, he⟩ := Option.map_eq_some_iff.1 h
    cases he
    have := ih hp
    simp
    omega

theorem length_lt_of_digits? {s digits rest : List Char} (h : digits? s = some (digits, rest)) :
    rest.length < s.length := by
  unfold digits? at h
  simp only at h
  split at h
  · cases h
  · rename_i hne
    cases h
    have happ := List.takeWhile_append_dropWhile (p := Char.isDigit) (l := s)
    have hlen := congrArg List.length happ
    rw [List.length_append] at hlen
    have hpos : 0 < (s.takeWhile Char.isDigit).length :=
      List.length_pos_iff.2 (by simpa using hne)
    omega

theorem length_le_of_fraction? {s digits rest : List Char}
    (h : fraction? s = some (digits, rest)) : rest.length ≤ s.length := by
  unfold fraction? at h
  split at h
  · have := length_lt_of_digits? h
    simp
    omega
  · cases h; exact Nat.le_refl _

theorem length_exponentSign_le (s : List Char) : (exponentSign s).2.length ≤ s.length := by
  unfold exponentSign
  split <;> simp

theorem length_le_of_exponent? {s rest : List Char} {e : Option Int}
    (h : exponent? s = some (e, rest)) : rest.length ≤ s.length := by
  unfold exponent? at h
  split at h
  · rename_i c s
    split at h
    · obtain ⟨⟨d, r⟩, hd, he⟩ := Option.map_eq_some_iff.1 h
      cases he
      have := length_lt_of_digits? hd
      have := length_exponentSign_le s
      simp
      omega
    · cases h; exact Nat.le_refl _
  · cases h; exact Nat.le_refl _

theorem length_lt_of_unsigned? {negative : Bool} {s rest : List Char} {n : Numeral}
    (h : unsigned? negative s = some (n, rest)) : rest.length < s.length := by
  simp only [unsigned?, Option.bind_eq_some_iff, Option.map_eq_some_iff] at h
  obtain ⟨⟨w, s₁⟩, hw, ⟨f, s₂⟩, hf, ⟨e, s₃⟩, he, h⟩ := h
  have h₁ : s₁.length < s.length := by
    unfold whole? at hw
    split at hw
    · cases hw; simp
    · exact length_lt_of_digits? hw
  have h₂ : s₂.length ≤ s₁.length := length_le_of_fraction? hf
  have h₃ : s₃.length ≤ s₂.length := length_le_of_exponent? he
  obtain ⟨_, rfl⟩ := Prod.mk.inj h
  show s₃.length < s.length
  omega

theorem length_lt_of_numeral? {s rest : List Char} {n : Numeral}
    (h : numeral? s = some (n, rest)) : rest.length < s.length := by
  unfold numeral? at h
  split at h
  · have := length_lt_of_unsigned? h
    simp
    omega
  · exact length_lt_of_unsigned? h

theorem length_lt_of_token? {s rest : List Char} {t : Token} (h : token? s = some (t, rest)) :
    rest.length < s.length := by
  unfold token? at h
  split at h
  case h_7 =>
    obtain ⟨⟨p, q⟩, hp, he⟩ := Option.map_eq_some_iff.1 h
    cases he
    have := length_lt_of_pieces? hp
    simp
    omega
  case h_8 | h_9 | h_10 =>
    obtain ⟨q, hq, he⟩ := Option.map_eq_some_iff.1 h
    cases he
    have := length_lt_of_after? hq (by simp)
    simp
    omega
  case h_11 =>
    obtain ⟨⟨n, q⟩, hn, he⟩ := Option.map_eq_some_iff.1 h
    cases he
    exact length_lt_of_numeral? hn
  all_goals cases h; simp

/-- The text from its first character that is not a blank of the format. -/
def skipSpace (s : List Char) : List Char := s.dropWhile isSpace

theorem length_skipSpace_le (s : List Char) : (skipSpace s).length ≤ s.length :=
  (List.dropWhile_sublist _).length_le

/-- The tokens of a text, if it is made of tokens and blanks. -/
def tokens? (s : List Char) : Option (List Token) :=
  if (skipSpace s).isEmpty then some []
  else
    match _h : token? (skipSpace s) with
    | none => none
    | some (t, rest) => (tokens? rest).map (t :: ·)
termination_by s.length
decreasing_by
  have := length_lt_of_token? _h
  have := length_skipSpace_le s
  omega

end Compositor.Json
