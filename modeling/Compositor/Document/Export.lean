/-
# Documents as text

A document can be written as Markdown, which reads back as a fragment, or as
plain text. Every block takes whole lines, and a blank line stands between
two blocks.

Key definitions: `ExportFormat`, `Document.render`.
-/
import Compositor.Text.Blank
import Compositor.Document.Query

namespace Compositor
open Text

inductive ExportFormat where
  | markdown
  | text
  deriving Repr, DecidableEq

/-- So many copies of a text, one after the other. -/
def repeated (n : Nat) (s : String) : String := String.join (List.replicate n s)

/-- The text with a line end after it. -/
def line (s : String) : String := s ++ "\n"

/-- A run in Markdown: its text between the marks of its format, unless it
is blank. -/
def Run.markdown (r : Run) : String :=
  if isAllBlank r.text then r.text
  else
    let mark := (if r.format.bold then "**" else "") ++ (if r.format.italic then "*" else "")
    let marked := mark ++ r.text ++ mark
    if r.format.strikethrough then "~~" ++ marked ++ "~~" else marked

def Paragraph.render (p : Paragraph) : ExportFormat → String
  | .markdown =>
    match p.level with
    | some level => line (repeated level.toNat "#" ++ " " ++ p.text)
    | none => line (String.join (p.runs.map Run.markdown))
  | .text =>
    match p.level with
    | some _ => line p.text ++ line (repeated p.chars.length "-")
    | none => line p.text

/-- The contents of a row of cells with a separator between. -/
def rowText (separator : String) (row : List Cell) : String :=
  separator.intercalate (row.map (·.content))

def Table.render (t : Table) (format : ExportFormat) : String :=
  let title := (t.title.map line).getD ""
  match format with
  | .markdown =>
    let row (cells : List Cell) := line ("| " ++ rowText " | " cells ++ " |")
    title ++ row t.headers ++ line ("|" ++ repeated t.headers.length " --- |")
      ++ String.join (t.rows.map row)
  | .text => title ++ String.join (t.allRows.map fun row => line (rowText "\t" row))

def EmbeddedObject.render (o : EmbeddedObject) (format : ExportFormat) : String :=
  match o.kind, format with
  | .formula, .markdown => line ("$$ " ++ o.textOrEmpty formulaProperty ++ " $$")
  | .formula, .text => line (o.textOrEmpty formulaProperty)
  | .image, .markdown =>
    line ("![" ++ o.textOrEmpty descriptionProperty ++ "](" ++ o.textOrEmpty pathProperty ++ ")")
  | .image, .text => line ("[Image: " ++ o.textOrEmpty descriptionProperty ++ "]")
  | .chart, _ => line ("[Chart: " ++ o.name ++ "]")

def TableOfContents.render (c : TableOfContents) (format : ExportFormat) : String :=
  let title :=
    match format with
    | .markdown => "**" ++ c.title ++ "**"
    | .text => c.title
  let entry (item : OutlineItem) :=
    line (repeated (item.level.toNat - 1) "  " ++ "- " ++ item.title)
  line title ++ "\n" ++ String.join (c.entries.map entry)

def Block.render (format : ExportFormat) : Block → String
  | .paragraph p => p.render format
  | .table t => t.render format
  | .object o => o.render format
  | .contents c => c.render format
  | .pageBreak =>
    match format with
    | .markdown => line "---"
    | .text => line "\x0c"

/-- The document as text. -/
def Document.render (d : Document) (format : ExportFormat) : String :=
  "\n".intercalate (d.blocks.map (Block.render format))

end Compositor
