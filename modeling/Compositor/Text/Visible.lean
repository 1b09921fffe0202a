/-
# The visible form of a text

In the visible form of a text every character can be seen and told apart: a
quotation mark and a backslash follow a backslash, the usual controls are
letters after one, and characters that are unprintable or extend others are
written by their numbers.

Key definitions: `visibleChar`, `visible`.
-/
import Compositor.Text.GraphemeExtend
import Compositor.Text.Unprintable

namespace Compositor.Text

/-- A character in its visible form. -/
def visibleChar (c : Char) : List Char :=
  if c = '\x00' then ['\\', '0']
  else if c = '\t' then ['\\', 't']
  else if c = '\n' then ['\\', 'n']
  else if c = '\r' then ['\\', 'r']
  else if c = '"' then ['\\', '"']
  else if c = '\\' then ['\\', '\\']
  else if extendsGrapheme c || isUnprintable c then
    ['\\', 'u', '{'] ++ Nat.toDigits 16 c.toNat ++ ['}']
  else [c]

/-- A text in its visible form. -/
def visible (s : List Char) : List Char := s.flatMap visibleChar

example : visible ['a', '"', '\u200b'] = "a\\\"\\u\x7b200b\x7d".toList := by decide +kernel

end Compositor.Text
