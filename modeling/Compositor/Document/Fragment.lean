/-
# Plain-text fragments

A plain text reads as a document: a line that starts with one to six `#` is
a heading, a line `![description](path)` an image, and the lines between
blank lines, headings and images make a paragraph, joined by spaces. A
paragraph between `$$` and `$$` is a formula. Formulas and images are
numbered from 1 on, each kind for itself.

Key definitions: `Fragment.Line`, `Fragment.Line.ofChars`, `Fragment.parse`.
-/
import Compositor.Text.Blank
import Compositor.Text.Lines
import Compositor.Text.Start
import Compositor.Document.Basic

namespace Compositor.Fragment
open Text

/-- What a line of a fragment is. -/
inductive Line where
  | blank
  | heading (level : Nat) (text : List Char)
  | image (description path : List Char)
  | words (text : List Char)
  deriving Repr, DecidableEq

/-- The deepest level of a heading. -/
def maxLevel : Nat := 6

/-- The level of a heading line and its text: one to six `#`, and then
nothing or a space. -/
def heading? (line : List Char) : Option (Nat × List Char) :=
  let level := (line.takeWhile (· = '#')).length
  let rest := line.drop level
  if 1 ≤ level ∧ level ≤ maxLevel ∧ (rest.isEmpty ∨ rest.head? = some ' ') then
    some (level, trim rest)
  else none

/-- The text before and after the last `](`. -/
def splitAtLastLink : List Char → Option (List Char × List Char)
  | [] => none
  | c :: s =>
    match splitAtLastLink s with
    | some (before, after) => some (c :: before, after)
    | none => (after? [']', '('] (c :: s)).map fun after => ([], after)

/-- The description and the path of an image line `![description](path)`. -/
def image? (line : List Char) : Option (List Char × List Char) :=
  match after? ['!', '['] line with
  | none => none
  | some inner =>
    match splitAtLastLink inner with
    | none => none
    | some (description, rest) =>
      if rest.getLast? = some ')' then some (description, rest.dropLast) else none

/-- What a line is, without the blanks around it. -/
def Line.ofChars (line : List Char) : Line :=
  let line := trim line
  if line.isEmpty then .blank
  else
    match heading? line with
    | some (level, text) => .heading level text
    | none =>
      match image? line with
      | some (description, path) => .image description path
      | none => .words line

/-- The text of a formula paragraph: what stands between `$$` and `$$`,
without the blanks around it. -/
def formula? (text : List Char) : Option (List Char) :=
  match after? ['$', '$'] text with
  | none => none
  | some rest =>
    match after? ['$', '$'] rest.reverse with
    | none => none
    | some inner => some (trim inner.reverse)

/-- Lines joined by single spaces. -/
def joinLines : List (List Char) → List Char
  | [] => []
  | [line] => line
  | line :: lines => line ++ ' ' :: joinLines lines

/-- The formulas and the images met so far. -/
structure Tally where
  formulas : Nat := 0
  images : Nat := 0

/-- The block of the collected lines of a paragraph, the last line first,
and the tally after it. -/
def closeParagraph (tally : Tally) (lines : List (List Char)) : List Block × Tally :=
  if lines.isEmpty then ([], tally)
  else
    let text := joinLines lines.reverse
    match formula? text with
    | some inner =>
      let formulas := tally.formulas + 1
      ([.object (.formula ("Formula" ++ toString formulas) (String.ofList inner))],
        { tally with formulas })
    | none => ([.paragraph (.plain (String.ofList text))], tally)

/-- The blocks of the remaining lines, where `collected` are the lines of the
paragraph at hand, the last one first. -/
def blocksOf (tally : Tally) (collected : List (List Char)) : List Line → List Block
  | [] => (closeParagraph tally collected).1
  | .words line :: rest => blocksOf tally (line :: collected) rest
  | .blank :: rest =>
    let (blocks, tally) := closeParagraph tally collected
    blocks ++ blocksOf tally [] rest
  | .heading level text :: rest =>
    let (blocks, tally) := closeParagraph tally collected
    blocks ++ .paragraph (.heading level.toUInt8 (String.ofList text)) :: blocksOf tally [] rest
  | .image description path :: rest =>
    let (blocks, tally) := closeParagraph tally collected
    let images := tally.images + 1
    let image := EmbeddedObject.image ("Image" ++ toString images) (String.ofList description)
    let image := image.setProperty EmbeddedObject.pathProperty (.text (String.ofList path))
    blocks ++ .object image :: blocksOf { tally with images } [] rest

/-- The document of a plain text. -/
def parse (title content : String) : Document :=
  .ofBlocks title (blocksOf {} [] ((lines content.toList).map Line.ofChars))

end Compositor.Fragment
