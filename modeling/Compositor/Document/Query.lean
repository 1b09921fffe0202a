/-
# What a document holds

Reading a document: the places where a pattern occurs, its outline, its
counts and the properties of its objects.

Key definitions: `Document.search`, `Document.outline`, `Document.counts`,
`EmbeddedObject.property`, `EmbeddedObject.textProperty`.
-/
import Compositor.Decimal.Binary
import Compositor.Text.Blank
import Compositor.Text.Pattern
import Compositor.Document.Range

namespace Compositor
open Text

/-! ### Search -/

/-- The ranges of the occurrences of a pattern in one text of a block. -/
def rangesIn (p : Pattern) (block : Nat) (cell : Option CellPosition) (s : List Char) :
    List TextRange :=
  (p.spans s).map fun (start, stop) => ⟨block, cell, start, stop⟩

/-- The occurrences of a pattern in a block: in the text of a paragraph or
in each cell of a table. Other blocks are not searched. -/
def Block.search (p : Pattern) : Block → List TextRange
  | .paragraph para => rangesIn p para.id none para.chars
  | .table t =>
    t.cells.flatMap fun (place, cell) => rangesIn p t.id (some place) cell.content.toList
  | _ => []

/-- The occurrences of a pattern, in document order. -/
def Document.search (p : Pattern) (d : Document) : List TextRange :=
  d.blocks.flatMap (Block.search p)

/-! ### Outline -/

/-- The outline entry of a paragraph at an index: a level and a text that is
not blank make one. -/
def Paragraph.outlineItem? (index : Nat) (p : Paragraph) : Option OutlineItem :=
  match p.level with
  | none => none
  | some level =>
    let title := trimmed p.text
    if title.isEmpty then none else some ⟨title, level, index⟩

/-- The headings of the document, in order. -/
def Document.outline (d : Document) : List OutlineItem :=
  d.blocks.zipIdx.filterMap fun (b, i) => b.paragraph?.bind (·.outlineItem? i)

/-! ### Counts -/

/-- The number of words in the paragraphs. -/
def Document.wordCount (d : Document) : Nat :=
  d.paragraphs.foldr (fun p n => Text.wordCount p.chars + n) 0

/-- The pages that so many words take, at 250 words to a page: the number of
words is divided in single precision, and every begun page counts. -/
def pageEstimate (words : Nat) : Nat :=
  let dividend := BinaryFormat.single.round (words, 1)
  let pages := BinaryFormat.single.round (dividend.dividedBy ⟨250, 0⟩)
  (pages.quotient.1 + pages.quotient.2 - 1) / pages.quotient.2

example : pageEstimate 251 = 2 := by decide

-- 16777501 has no number of its own in single precision: it is read as 16777500
example : pageEstimate 16777501 = 67110 := by decide

/-- How many of each counted thing a document holds. -/
structure Counts where
  pages : Nat
  figures : Nat
  tables : Nat
  formulas : Nat
  deriving Repr, DecidableEq, Inhabited

/-- The counts of a document, which has at least one page. -/
def Document.counts (d : Document) : Counts where
  pages := max (pageEstimate d.wordCount) 1
  figures := (d.objects .image).length
  tables := d.tables.length
  formulas := (d.objects .formula).length

/-! ### Properties of objects -/

/-- Why a property cannot be read. -/
inductive PropertyFault where
  | missing (object property : String)
  | notText (object property : String) (value : PropertyValue)
  deriving Repr, DecidableEq

/-- A value with its kind. -/
def PropertyValue.describe : PropertyValue → String
  | .text value => "Text(\"" ++ value ++ "\")"
  | .integer value => "Integer(" ++ toString value.toInt ++ ")"
  | .boolean value => "Boolean(" ++ toString value ++ ")"

def PropertyFault.message : PropertyFault → String
  | .missing object property =>
    "property '" ++ property ++ "' of object '" ++ object ++ "' is missing"
  | .notText object property value =>
    "property '" ++ property ++ "' of object '" ++ object ++ "' is not text ("
      ++ value.describe ++ ")"

namespace EmbeddedObject

/-- The value of a property. -/
def property (o : EmbeddedObject) (name : String) : Except PropertyFault PropertyValue :=
  match o.properties.get? name with
  | some value => .ok value
  | none => .error (.missing o.name name)

/-- The value of a property that holds text. -/
def textProperty (o : EmbeddedObject) (name : String) : Except PropertyFault String :=
  match o.property name with
  | .error e => .error e
  | .ok (.text value) => .ok value
  | .ok value => .error (.notText o.name name value)

/-- The text of a property, or nothing if it has none. -/
def textOrEmpty (o : EmbeddedObject) (name : String) : String :=
  match o.textProperty name with
  | .ok value => value
  | .error _ => ""

end EmbeddedObject
end Compositor
