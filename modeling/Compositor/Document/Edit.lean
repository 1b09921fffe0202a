/-
# Edits of a document

A range of text can be replaced by text or by whole blocks. Text takes the
format at the start of the range. Blocks cut the paragraph in two: the text
before the range keeps the paragraph's id, the text after it moves to a new
paragraph of the same style, and a half that is blank is dropped. A cell
holds no blocks, so there their plain text goes in.

Key definitions: `Document.rangeText`, `Document.replaceText`,
`Document.splice`.
-/
import Compositor.Text.Blank
import Compositor.Text.Bytes
import Compositor.Document.Range

namespace Compositor
open Text

/-! ### Runs -/

namespace Run

def isEmpty (r : Run) : Bool := r.text.isEmpty

/-- The run with another text. -/
def withChars (r : Run) (chars : List Char) : Run := { r with text := String.ofList chars }

/-- The run as a list: nothing if it is empty. -/
def kept (r : Run) : List Run := if r.isEmpty then [] else [r]

/-- The runs without their first `n` bytes. -/
def dropBytes : Nat → List Run → List Run
  | _, [] => []
  | n, r :: rs => (r.withChars (cut r.chars n).2).kept ++ dropBytes (n - size r.chars) rs

/-- The runs with the bytes from `start` to `stop` replaced by `new`, if one
of the runs holds the position `start`: that run takes the new text. -/
def replaceInside (new : List Char) : (start stop : Nat) → List Run → Option (List Run)
  | _, _, [] => none
  | start, stop, r :: rs =>
    let length := size r.chars
    if start < length then
      some ((r.withChars (substitute r.chars start stop new)).kept
        ++ dropBytes (stop - length) rs)
    else
      (replaceInside new (start - length) (stop - length) rs).map (r.kept ++ ·)

/-- The runs with `new` at their end, in the format of the last of them. -/
def appendText (new : List Char) : List Run → List Run
  | [] => [.plain (String.ofList new)]
  | [r] => [r.withChars (r.chars ++ new)]
  | r :: rs => r :: appendText new rs

/-- The runs with the bytes from `start` to `stop` replaced by `new`. No run
is left empty. -/
def replace (new : List Char) (start stop : Nat) (runs : List Run) : List Run :=
  match replaceInside new start stop runs with
  | some runs => runs
  | none =>
    let runs := runs.flatMap kept
    if new.isEmpty then runs else appendText new runs

/-- The runs cut at byte position `n`. -/
def cutAt : Nat → List Run → List Run × List Run
  | _, [] => ([], [])
  | n, r :: rs =>
    let length := size r.chars
    if length ≤ n then
      let (before, after) := cutAt (n - length) rs
      (r :: before, after)
    else if n = 0 then ([], r :: rs)
    else
      let (left, right) := cut r.chars n
      ([r.withChars left], r.withChars right :: rs)

end Run

/-! ### The block of a range -/

/-- The blocks before the first paragraph with an id, that paragraph, and the
blocks after it. -/
def splitAtParagraph (id : Nat) : List Block → Option (List Block × Paragraph × List Block)
  | [] => none
  | b :: bs =>
    let further := (splitAtParagraph id bs).map fun (before, p, after) => (b :: before, p, after)
    match b with
    | .paragraph p => if p.id = id then some ([], p, bs) else further
    | _ => further

/-- The blocks before the first table with an id, that table, and the blocks
after it. -/
def splitAtTable (id : Nat) : List Block → Option (List Block × Table × List Block)
  | [] => none
  | b :: bs =>
    let further := (splitAtTable id bs).map fun (before, t, after) => (b :: before, t, after)
    match b with
    | .table t => if t.id = id then some ([], t, bs) else further
    | _ => further

namespace Document

/-- The text that a range addresses. -/
def rangeText (d : Document) (r : TextRange) : Except StaleRange String :=
  let text? : Option (List Char) :=
    match r.cell with
    | some place =>
      (d.table? r.block).bind fun t => (t.cell? place).map fun cell => cell.content.toList
    | none => (d.paragraph? r.block).map Paragraph.chars
  match text?.bind (slice? · r.start r.stop) with
  | some part => .ok (String.ofList part)
  | none => .error ⟨r⟩

/-- The document with a range in the cell at `place` replaced by `new`. -/
def replaceInCell (d : Document) (r : TextRange) (place : CellPosition) (new : String) :
    Except StaleRange (Document × Edit) :=
  match splitAtTable r.block d.blocks with
  | none => .error ⟨r⟩
  | some (before, t, after) =>
    match t.cell? place with
    | none => .error ⟨r⟩
    | some cell =>
      if (slice? cell.content.toList r.start r.stop).isNone then .error ⟨r⟩
      else
        let content := String.ofList (substitute cell.content.toList r.start r.stop new.toList)
        let t := t.modifyCell place fun cell => { cell with content }
        .ok ({ d with blocks := before ++ .table t :: after }, ⟨r, .text (size new.toList)⟩)

/-- The paragraph that a range addresses, between the blocks before and after
it. -/
def addressed (d : Document) (r : TextRange) :
    Except StaleRange (List Block × Paragraph × List Block) :=
  match splitAtParagraph r.block d.blocks with
  | none => .error ⟨r⟩
  | some (before, p, after) =>
    if (slice? p.chars r.start r.stop).isNone then .error ⟨r⟩ else .ok (before, p, after)

/-- The document with a range replaced by text. -/
def replaceText (d : Document) (r : TextRange) (new : String) :
    Except StaleRange (Document × Edit) :=
  match r.cell with
  | some place => d.replaceInCell r place new
  | none =>
    match d.addressed r with
    | .error e => .error e
    | .ok (before, p, after) =>
      let runs := Run.replace new.toList r.start r.stop p.runs
      .ok ({ d with blocks := before ++ .paragraph { p with runs } :: after },
        ⟨r, .text (size new.toList)⟩)

/-- The blocks as one line of text: their plain texts, the blank ones left
out, with single spaces between. -/
def inlineText (blocks : List Block) : String :=
  " ".intercalate ((blocks.map Block.plainText).filter fun text => !isAllBlank text)

/-- A paragraph as a list of blocks: nothing if its text is blank. -/
def half (p : Paragraph) : List Block := if allBlank p.chars then [] else [.paragraph p]

/-- The document with a range replaced by blocks. -/
def splice (d : Document) (r : TextRange) (blocks : List Block) :
    Except StaleRange (Document × Edit) :=
  match r.cell with
  | some place => d.replaceInCell r place (inlineText blocks)
  | none =>
    match d.addressed r with
    | .error e => .error e
    | .ok (before, p, after) =>
      let (headRuns, rest) := Run.cutAt r.start p.runs
      let (_, tailRuns) := Run.cutAt (r.stop - r.start) rest
      let (adopted, last) := adoptBlocks d.objectNames d.nextId blocks
      let tailId := freshId last
      let tail : Paragraph := { p with id := tailId, runs := tailRuns }
      let tail? := if allBlank tail.chars then none else some tailId
      .ok ({ d with
          blocks := before ++ half { p with runs := headRuns } ++ adopted ++ half tail ++ after
          nextId := tailId + 1 },
        ⟨r, .split tail?⟩)

/-- The document with the content of a cell of a table changed by `f`, if
they are there. -/
def modifyCell? (d : Document) (table : Nat) (place : CellPosition) (f : Cell → Cell) :
    Option Document :=
  match splitAtTable table d.blocks with
  | none => none
  | some (before, t, after) =>
    (t.cell? place).map fun _ =>
      { d with blocks := before ++ .table (t.modifyCell place f) :: after }

/-- The document with every object changed by `f`. -/
def mapObjects (d : Document) (f : EmbeddedObject → EmbeddedObject) : Document :=
  { d with blocks := d.blocks.map fun
      | .object o => .object (f o)
      | b => b }

/-- The document with the runs of every paragraph consolidated. -/
def consolidate (d : Document) : Document :=
  { d with blocks := d.blocks.map fun
      | .paragraph p => .paragraph { p with runs := Run.consolidate p.runs }
      | b => b }

end Document
end Compositor
