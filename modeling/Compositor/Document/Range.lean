/-
# Ranges of text

A range addresses a stretch of one paragraph's text, or of one cell's, by
byte positions. An edit records what was done to a range; a range that does
not overlap it can be followed through it.

Key definitions: `TextRange`, `Edit`, `TextRange.rebase`, `TextRange.follow`,
`StaleRange`.
-/
import Compositor.Document.Basic

namespace Compositor

/-- The bytes from `start` to `stop` of a paragraph, or of a cell of a table. -/
structure TextRange where
  block : Nat
  cell : Option CellPosition := none
  start : Nat
  stop : Nat
  deriving Repr, DecidableEq, Inhabited

/-- What an edit put in place of its range. -/
inductive EditKind where
  /-- So many bytes of text. -/
  | text (inserted : Nat)
  /-- Blocks; the text after the range is now the paragraph `tail`, if it is
  there at all. -/
  | split (tail : Option Nat)
  deriving Repr, DecidableEq, Inhabited

/-- A range that was replaced, and by what. -/
structure Edit where
  range : TextRange
  kind : EditKind
  deriving Repr, DecidableEq, Inhabited

namespace TextRange

/-- The number of bytes in the range. -/
def length (r : TextRange) : Nat := r.stop - r.start

def isEmpty (r : TextRange) : Bool := r.start = r.stop

/-- Where the text of a range is after an edit: nowhere, if the edit
overlapped it or dropped it. -/
def rebase (r : TextRange) (e : Edit) : Option TextRange :=
  if r.block ≠ e.range.block ∨ r.cell ≠ e.range.cell ∨ r.stop ≤ e.range.start then some r
  else if r.start < e.range.stop then none
  else
    match e.kind with
    | .text inserted =>
      let shift (position : Nat) := position - (e.range.stop - e.range.start) + inserted
      some { r with start := shift r.start, stop := shift r.stop }
    | .split none => none
    | .split (some tail) =>
      some ⟨tail, none, r.start - e.range.stop, r.stop - e.range.stop⟩

/-- Where the text of a range is after several edits, the first edit first. -/
def follow (r : TextRange) (edits : List Edit) : Option TextRange :=
  edits.foldl (fun r? e => r?.bind (·.rebase e)) (some r)

theorem follow_nil (r : TextRange) : r.follow [] = some r := rfl

theorem follow_append_singleton (r : TextRange) (edits : List Edit) (e : Edit) :
    r.follow (edits ++ [e]) = (r.follow edits).bind (·.rebase e) := by
  simp [follow]

/-- The range as a record: its fields by name. -/
def describe (r : TextRange) : String :=
  let cell :=
    match r.cell with
    | none => "None"
    | some place =>
      "Some(CellRef \x7b row: " ++ toString place.row ++ ", column: " ++ toString place.column
        ++ " \x7d)"
  "TextRange \x7b block: " ++ toString r.block ++ ", cell: " ++ cell ++ ", start: "
    ++ toString r.start ++ ", end: " ++ toString r.stop ++ " \x7d"

end TextRange

/-- A range that addresses no text of the document: its block or its cell is
not there, its ends are not in order, or they are no boundaries of the text. -/
structure StaleRange where
  range : TextRange
  deriving Repr, DecidableEq

def StaleRange.message (fault : StaleRange) : String :=
  "text range " ++ fault.range.describe ++ " no longer exists in the document"

end Compositor
