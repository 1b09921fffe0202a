/-
# Word processor documents

The body of a word processor document, and its import: paragraphs keep the
formats of their runs, heading styles become outline levels, tables become
tables of cells, and every drawing becomes an image after the paragraph that
anchors it. Tracked insertions in a paragraph of the body count as text.

Key definitions: `Word.BodyItem`, `Word.headingLevel?`, `Word.looksLikeHeader`,
`Word.importBody`.
-/
import Compositor.Text.Blank
import Compositor.Text.Bytes
import Compositor.Text.Start
import Compositor.Text.Visible
import Compositor.Document.Basic

namespace Compositor.Word
open Text

/-! ### The body -/

/-- What a run is made of. -/
inductive Part where
  /-- Text; line feeds in it do not count. -/
  | text (s : String)
  | tab
  | lineBreak
  | drawing
  deriving Repr, DecidableEq, Inhabited

/-- A run; a format is set if its mark is there at all. -/
structure Run where
  parts : List Part
  bold : Bool := false
  italic : Bool := false
  underline : Bool := false
  strike : Bool := false
  color : Option String := none
  deriving Repr, DecidableEq, Inhabited

/-- What a paragraph is made of. -/
inductive Item where
  | run (r : Run)
  | insertion (runs : List Run)
  | bookmark (name : String)
  deriving Repr, DecidableEq, Inhabited

structure Paragraph where
  style : Option String := none
  items : List Item
  deriving Repr, DecidableEq, Inhabited

/-- The paragraphs of a cell. -/
abbrev Cell := List Paragraph

inductive BodyItem where
  | paragraph (p : Paragraph)
  | table (rows : List (List Cell))
  deriving Repr, DecidableEq, Inhabited

/-! ### Runs -/

def Part.chars : Part → List Char
  | .text s => s.toList.filter (· ≠ '\n')
  | .tab => ['\t']
  | .lineBreak => ['\n']
  | .drawing => []

namespace Run

def chars (r : Run) : List Char := r.parts.flatMap Part.chars

/-- The name of a colour: its visible form up to the first quotation mark. -/
def colorName (value : String) : String :=
  String.ofList ((visible value.toList).takeWhile (· ≠ '"'))

def format (r : Run) : TextFormat :=
  { bold := r.bold, italic := r.italic, underline := r.underline
    strikethrough := r.strike, color := r.color.map colorName }

end Run

/-! ### Paragraphs of the body -/

/-- The runs of an item of the body. -/
def Item.runs : Item → List Run
  | .run r => [r]
  | .insertion runs => runs
  | .bookmark _ => []

def Paragraph.runs (p : Paragraph) : List Run := p.items.flatMap Item.runs

/-- The deepest outline level. -/
def maxLevel : Nat := 9

/-- The outline level of a heading style: the number that the digits of its
name make, if it is a number from 1 on that fits 32 bits, and otherwise 1. -/
def headingLevel? (style : String) : Option UInt8 :=
  let s := style.toList
  if (after? "Heading".toList s).isSome ∨ (after? "heading".toList s).isSome then
    let digits := s.filter Char.isDigit
    let number := Nat.ofDigitChars 10 digits 0
    if 1 ≤ number ∧ number < Nat.pow 2 32 then some (min number maxLevel).toUInt8 else some 1
  else none

/-- The text runs of a paragraph, without empty ones and with neighbours of
one format joined. -/
def Paragraph.textRuns (p : Paragraph) : List Compositor.Run :=
  Run.consolidate <| p.runs.filterMap fun r =>
    if r.chars.isEmpty then none
    else some { text := String.ofList r.chars, format := r.format }

/-- The paragraph as a block, unless its text is blank. -/
def Paragraph.block? (p : Paragraph) : Option Block :=
  let runs := p.textRuns
  if runs.all fun r => isAllBlank r.text then none
  else some (.paragraph { style := p.style, level := p.style.bind headingLevel?, runs })

def Paragraph.drawings (p : Paragraph) : Nat := (p.runs.flatMap Run.parts).countP (· = .drawing)

/-- So many images, numbered from `next` on. -/
def numberedImages (next : Nat) : Nat → List Block
  | 0 => []
  | count + 1 =>
    .object (.image ("Image" ++ toString next) ("Image " ++ toString next))
      :: numberedImages (next + 1) count

/-! ### Tables -/

/-- The runs that count in a cell. -/
def Item.cellRuns : Item → List Run
  | .run r => [r]
  | _ => []

/-- Texts one after the other with a space between, where the one before
does not end in a space. Empty texts add nothing. -/
def joinSpaced (texts : List (List Char)) : List Char :=
  texts.foldl
    (fun joined text =>
      if text.isEmpty then joined
      else if joined.isEmpty ∨ joined.getLast? = some ' ' then joined ++ text
      else joined ++ ' ' :: text)
    []

/-- A cell: its text, without the blanks around it, in the format of its
first run. -/
def importCell (cell : Cell) : Compositor.Cell :=
  let runs := cell.flatMap fun p => p.items.flatMap Item.cellRuns
  { content := String.ofList (trim (joinSpaced (runs.map Run.chars)))
    format := (runs.head?.map Run.format).getD {} }

/-- The words that a header often holds. -/
def headerWords : List (List Char) :=
  (["name", "date", "amount", "type", "status", "id", "description", "count"] : List String).map
    (·.toList)

/-- Is the word somewhere in the text? -/
def containsWord (word : List Char) : List Char → Bool
  | [] => word.isEmpty
  | c :: s => (after? word (c :: s)).isSome || containsWord word s

/-- Does a cell read like a column's name: up to three words, or one of the
header words in either case? -/
def looksLikeName (content : String) : Bool :=
  let s := content.toList
  let lower := s.map Char.toLower
  (Text.wordCount s ≤ 3 && !allBlank s) || headerWords.any fun word => containsWord word lower

/-- Does a row look like a header: up to 50 bytes to a cell, and more than
half of the cells read like names? -/
def looksLikeHeader (row : List String) : Bool :=
  !row.isEmpty && size (row.flatMap String.toList) / row.length ≤ 50
    && row.length / 2 < row.countP looksLikeName

/-- The table of some rows, unless all of them are empty. The first row is
the header if it looks like one or is the only one. -/
def importTable? (rows : List (List Cell)) : Option Block :=
  match (rows.map (·.map importCell)).filter fun row => !row.isEmpty with
  | [] => none
  | first :: others =>
    if looksLikeHeader (first.map (·.content)) ∨ others.isEmpty then
      some (.table { headers := first, rows := others })
    else some (.table { headers := [], rows := first :: others })

/-- The blocks of a body, its images numbered from `nextImage` on. -/
def importBody (nextImage : Nat) : List BodyItem → List Block
  | [] => []
  | .paragraph p :: rest =>
    p.block?.toList ++ numberedImages nextImage p.drawings
      ++ importBody (nextImage + p.drawings) rest
  | .table rows :: rest => (importTable? rows).toList ++ importBody nextImage rest

end Compositor.Word
