/-
# Writing files of settings

A text is written in the plainest quotes that it fits in: double quotes,
then single ones, then three of them. Only if it fits in none are characters
escaped.

Key definitions: `Toml.QuoteStyle`, `Toml.styleOf`, `Toml.quote`.
-/
import Compositor.Toml.Text

namespace Compositor.Toml

/-- The quotes around a text. -/
inductive QuoteStyle where
  | basic
  | literal
  | longBasic
  | longLiteral
  deriving Repr, DecidableEq

/-- The most quotes that stand side by side, where `current` came right
before the text. -/
def longestRun (quote : Char) : (current : Nat) → List Char → Nat
  | current, [] => current
  | current, c :: s =>
    if c = quote then longestRun quote (current + 1) s
    else max current (longestRun quote 0 s)

/-- Is the character one that only an escape can stand for? -/
def needsEscape (c : Char) : Bool := isControl c && c ≠ '\n'

/-- The quotes that a text is written in. -/
def styleOf (s : List Char) : QuoteStyle :=
  let hasEscape := s.any needsEscape
  let hasNewline := s.contains '\n'
  let hasBackslash := s.contains '\\'
  let doubles := longestRun '"' 0 s
  let singles := longestRun '\'' 0 s
  if !hasEscape && !hasNewline && !hasBackslash && doubles = 0 then .basic
  else if !hasEscape && !hasNewline && singles = 0 then .literal
  else if !hasEscape && !hasBackslash && doubles ≤ 2 then .longBasic
  else if !hasEscape && singles ≤ 2 then .longLiteral
  else if hasNewline then .longBasic
  else .basic

/-- A hexadecimal digit in upper case. -/
def upperHexDigit (n : Nat) : Char := (Nat.digitChar n).toUpper

/-- A character within double quotes, apart from the quote itself. -/
def escapeChar (long : Bool) (c : Char) : List Char :=
  if c = '\\' then ['\\', '\\']
  else if c = '\x08' then ['\\', 'b']
  else if c = '\t' then ['\\', 't']
  else if c = '\x0c' then ['\\', 'f']
  else if c = '\r' then ['\\', 'r']
  else if c = '\n' then if long then ['\n'] else ['\\', 'n']
  else if isControl c then
    ['\\', 'u', '0', '0', upperHexDigit (c.toNat / 16), upperHexDigit (c.toNat % 16)]
  else [c]

/-- A text within double quotes, where `quotes` stand right before it. A quote
is escaped, but over several lines only every third one in a row. -/
def escapeBasic (long : Bool) : (quotes : Nat) → List Char → List Char
  | _, [] => []
  | quotes, c :: s =>
    if c = '"' then
      if long && quotes < 2 then '"' :: escapeBasic long (quotes + 1) s
      else '\\' :: '"' :: escapeBasic long 0 s
    else escapeChar long c ++ escapeBasic long 0 s

/-- Three quotes, and a line end if the text after them has one. -/
def openLong (quote : Char) (s : List Char) : List Char :=
  List.replicate 3 quote ++ if s.contains '\n' then ['\n'] else []

/-- A text in quotes. -/
def quote (s : List Char) : List Char :=
  match styleOf s with
  | .basic => '"' :: escapeBasic false 0 s ++ ['"']
  | .literal => '\'' :: s ++ ['\'']
  | .longBasic => openLong '"' s ++ escapeBasic true 0 s ++ List.replicate 3 '"'
  | .longLiteral => openLong '\'' s ++ s ++ List.replicate 3 '\''

end Compositor.Toml
