/-
# Blank characters

A character is blank when Unicode gives it the White_Space property: 25
characters in ten ranges. Trimming, word counting and every "skip the gap"
of a recogniser go by this one class.

Key definitions: `isBlank`, `skipBlanks`, `trim`, `allBlank`, `wordCount`.
Key theorems: `length_skipBlanks_le`, `skipBlanks_split`.
-/
import Compositor.Text.Ranges

namespace Compositor.Text

/-- The code points with the White_Space property. -/
def blankRanges : CodeRanges :=
  [(0x09, 0x0D), (0x20, 0x20), (0x85, 0x85), (0xA0, 0xA0), (0x1680, 0x1680), (0x2000, 0x200A),
   (0x2028, 0x2029), (0x202F, 0x202F), (0x205F, 0x205F), (0x3000, 0x3000)]

/-- Has the character the White_Space property? -/
def isBlank (c : Char) : Bool := blankRanges.holds c

/-- The text from its first character that is not blank. -/
def skipBlanks (s : List Char) : List Char := s.dropWhile isBlank

theorem length_skipBlanks_le (s : List Char) : (skipBlanks s).length ≤ s.length :=
  (List.dropWhile_sublist _).length_le

/-- What is skipped is blank. -/
theorem skipBlanks_split (s : List Char) :
    ∃ gap, (∀ c ∈ gap, isBlank c = true) ∧ s = gap ++ skipBlanks s := by
  induction s with
  | nil => exact ⟨[], by simp [skipBlanks]⟩
  | cons c s ih =>
    by_cases h : isBlank c = true
    · obtain ⟨gap, hgap, hs⟩ := ih
      refine ⟨c :: gap, by simpa [h] using hgap, ?_⟩
      simpa [skipBlanks, h] using hs
    · exact ⟨[], by simp [skipBlanks, h]⟩

/-- The text without the blanks at its end. -/
def dropTrailingBlanks (s : List Char) : List Char := (skipBlanks s.reverse).reverse

/-- The text without the blanks at either end. -/
def trim (s : List Char) : List Char := dropTrailingBlanks (skipBlanks s)

/-- Holds the text nothing but blanks? An empty text does. -/
def allBlank (s : List Char) : Bool := s.all isBlank

/-- The number of maximal runs of characters that are not blank, where
`inside` says that the text continues a run already counted. -/
def wordsAfter : Bool → List Char → Nat
  | _, [] => 0
  | inside, c :: s =>
    if isBlank c then wordsAfter false s
    else if inside then wordsAfter true s
    else wordsAfter true s + 1

/-- The number of words: maximal runs of characters that are not blank. -/
def wordCount (s : List Char) : Nat := wordsAfter false s

/-- The string without the blanks at either end. -/
def trimmed (s : String) : String := String.ofList (trim s.toList)

/-- Holds the string nothing but blanks? -/
def isAllBlank (s : String) : Bool := allBlank s.toList

end Compositor.Text
