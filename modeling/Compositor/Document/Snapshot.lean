/-
# Documents as values of the data format

A snapshot is a document written in the data format, without the ids of its
blocks. Every record has a member for each of its fields, in a fixed order;
a format, an author or a title that is not there is null. Reading goes by the
rules for records and assumes what can be assumed: no author, style, level or
title, the default format of a cell, no properties and no entries.

Key definitions: `Document.toJson`, `Document.ofJson?`, `Document.snapshot`,
`Document.ofSnapshot?`.
-/
import Compositor.Document.Range
import Compositor.Json.Double
import Compositor.Json.Parser
import Compositor.Json.Printer
import Compositor.Json.Record

namespace Compositor
open Json

/-! ### Writing -/

/-- A text that may not be there. -/
def Json.ofText? : Option String → Json
  | none => null
  | some s => str s

/-- A size as a number; an infinite one has none. -/
def FontSize.toJson : FontSize → Json
  | finite d => number (.ofDecimal d)
  | infinite _ => null

def TextFormat.toJson (f : TextFormat) : Json :=
  obj [("bold", bool f.bold), ("italic", bool f.italic), ("underline", bool f.underline),
    ("strikethrough", bool f.strikethrough),
    ("font_size", match f.fontSize with
      | none => null
      | some size => size.toJson),
    ("color", ofText? f.color)]

def Run.toJson (r : Run) : Json :=
  obj [("text", str r.text), ("formatting", r.format.toJson)]

def Paragraph.toJson (p : Paragraph) : Json :=
  obj [("style", ofText? p.style),
    ("outline_level", match p.level with
      | none => null
      | some level => int level.toNat),
    ("runs", array (p.runs.map Run.toJson))]

def Cell.toJson (c : Cell) : Json :=
  obj [("content", str c.content), ("formatting", c.format.toJson)]

def Table.toJson (t : Table) : Json :=
  obj [("headers", array (t.headers.map Cell.toJson)),
    ("rows", array (t.rows.map fun row => array (row.map Cell.toJson))),
    ("title", ofText? t.title)]

def ObjectKind.name : ObjectKind → String
  | formula => "Formula"
  | image => "Image"
  | chart => "Chart"

def PropertyValue.toJson : PropertyValue → Json
  | text value => chosen "Text" (str value)
  | integer value => chosen "Integer" (int value.toInt)
  | boolean value => chosen "Boolean" (bool value)

def PropertyBag.toJson (bag : PropertyBag) : Json :=
  obj (bag.entries.map fun (name, value) => (name, value.toJson))

def EmbeddedObject.toJson (o : EmbeddedObject) : Json :=
  obj [("name", str o.name), ("kind", str o.kind.name), ("properties", o.properties.toJson)]

def OutlineItem.toJson (item : OutlineItem) : Json :=
  obj [("title", str item.title), ("level", int item.level.toNat),
    ("block_index", int item.blockIndex)]

def TableOfContents.toJson (c : TableOfContents) : Json :=
  obj [("title", str c.title), ("entries", array (c.entries.map OutlineItem.toJson))]

def Block.toJson : Block → Json
  | paragraph p => chosen "Paragraph" p.toJson
  | table t => chosen "Table" (obj [("table", t.toJson)])
  | object o => chosen "Object" o.toJson
  | contents c => chosen "TableOfContents" c.toJson
  | pageBreak => str "PageBreak"

def Metadata.toJson (m : Metadata) : Json :=
  obj [("file_path", str m.filePath), ("file_size", int m.fileSize), ("author", ofText? m.author)]

def Document.toJson (d : Document) : Json :=
  obj [("title", str d.title), ("metadata", d.metadata.toJson),
    ("blocks", array (d.blocks.map Block.toJson))]

/-! ### Reading -/

/-- The numbers that a byte holds are those below this one. -/
def byteBound : Nat := Nat.pow 2 8

/-- Sizes and positions are below this number. -/
def sizeBound : Nat := Nat.pow 2 64

def Json.byte? (v : Json) : Option UInt8 := (v.natural? byteBound).map Nat.toUInt8

def Json.size? (v : Json) : Option Nat := v.natural? sizeBound

/-- An integer of 64 bits with a sign. -/
def Json.int64? (v : Json) : Option Int64 :=
  v.integer?.bind fun n =>
    if Int64.minValue.toInt ≤ n ∧ n ≤ Int64.maxValue.toInt then some (Int64.ofInt n) else none

/-- The size nearest to a number, unless that is beyond all doubles. A short
decimal number is the shortest for its size. Of the others an integer of 64
bits is rounded at once, and what is left by way of double precision. -/
def FontSize.ofNumeral? (n : Numeral) : Option FontSize :=
  if n.decimal.isShort then some (finite n.decimal)
  else
    match n.integer?.filter fun i => -(Nat.pow 2 63 : Int) ≤ i && i < (Nat.pow 2 64 : Int) with
    | some i => some (ofQuotient n.negative (i.natAbs, 1))
    | none => n.double?.map fun b => ofQuotient n.negative b.quotient

theorem FontSize.ofNumeral?_of_isShort {n : Numeral} (h : n.decimal.isShort = true) :
    FontSize.ofNumeral? n = some (.finite n.decimal) := by
  unfold FontSize.ofNumeral?
  rw [if_pos h]

def FontSize.ofJson? (v : Json) : Option FontSize := v.number?.bind FontSize.ofNumeral?

def TextFormat.ofJson? (v : Json) : Option TextFormat :=
  match v.record? ["bold", "italic", "underline", "strikethrough", "font_size", "color"] 0 with
  | some [bold, italic, underline, strikethrough, fontSize, color] => do
    let bold ← required bool? bold
    let italic ← required bool? italic
    let underline ← required bool? underline
    let strikethrough ← required bool? strikethrough
    let fontSize ← nullable FontSize.ofJson? fontSize
    let color ← nullable text? color
    return { bold, italic, underline, strikethrough, fontSize, color }
  | _ => none

def Run.ofJson? (v : Json) : Option Run :=
  match v.record? ["text", "formatting"] 0 with
  | some [text, format] => do
    let text ← required text? text
    let format ← required TextFormat.ofJson? format
    return { text, format }
  | _ => none

def Paragraph.ofJson? (v : Json) : Option Paragraph :=
  match v.record? ["style", "outline_level", "runs"] 0 with
  | some [style, level, runs] => do
    let style ← nullable text? style
    let level ← nullable byte? level
    let runs ← required (list? Run.ofJson?) runs
    return { style, level, runs }
  | _ => none

def Cell.ofJson? (v : Json) : Option Cell :=
  match v.record? ["content", "formatting"] 1 with
  | some [content, format] => do
    let content ← required text? content
    let format ← assumed {} TextFormat.ofJson? format
    return { content, format }
  | _ => none

def CellPosition.ofJson? (v : Json) : Option CellPosition :=
  match v.record? ["row", "column"] 0 with
  | some [row, column] => do
    let row ← required size? row
    let column ← required size? column
    return { row, column }
  | _ => none

def Table.ofJson? (v : Json) : Option Table :=
  match v.record? ["headers", "rows", "title"] 1 with
  | some [headers, rows, title] => do
    let headers ← required (list? Cell.ofJson?) headers
    let rows ← required (list? (list? Cell.ofJson?)) rows
    let title ← nullable text? title
    return { headers, rows, title }
  | _ => none

def ObjectKind.ofName? (name : String) : Option ObjectKind :=
  [formula, image, chart].find? (·.name = name)

/-- A kind carries nothing besides its name. -/
def ObjectKind.ofJson? (v : Json) : Option ObjectKind :=
  match v.choice? with
  | some (name, .null) => ofName? name
  | _ => none

def PropertyValue.ofJson? (v : Json) : Option PropertyValue :=
  match v.choice? with
  | some ("Text", v) => v.text?.map text
  | some ("Integer", v) => v.int64?.map integer
  | some ("Boolean", v) => v.bool?.map boolean
  | _ => none

def PropertyBag.ofJson? : Json → Option PropertyBag
  | object members => do
    let entries ← members.mapM fun (name?, v) => do
      let name ← name?
      let value ← PropertyValue.ofJson? v
      return (name, value)
    return .ofList entries
  | _ => none

def EmbeddedObject.ofJson? (v : Json) : Option EmbeddedObject :=
  match v.record? ["name", "kind", "properties"] 1 with
  | some [name, kind, properties] => do
    let name ← required text? name
    let kind ← required ObjectKind.ofJson? kind
    let properties ← assumed .empty PropertyBag.ofJson? properties
    return { name, kind, properties }
  | _ => none

def OutlineItem.ofJson? (v : Json) : Option OutlineItem :=
  match v.record? ["title", "level", "block_index"] 0 with
  | some [title, level, blockIndex] => do
    let title ← required text? title
    let level ← required byte? level
    let blockIndex ← required size? blockIndex
    return { title, level, blockIndex }
  | _ => none

def TableOfContents.ofJson? (v : Json) : Option TableOfContents :=
  match v.record? ["title", "entries"] 1 with
  | some [title, entries] => do
    let title ← required text? title
    let entries ← assumed [] (list? OutlineItem.ofJson?) entries
    return { title, entries }
  | _ => none

def Block.ofJson? (v : Json) : Option Block :=
  match v.choice? with
  | some ("Paragraph", v) => (Paragraph.ofJson? v).map paragraph
  | some ("Table", v) =>
    match v.record? ["table"] 0 with
    | some [t] => (required Table.ofJson? t).map table
    | _ => none
  | some ("Object", v) => (EmbeddedObject.ofJson? v).map object
  | some ("TableOfContents", v) => (TableOfContents.ofJson? v).map contents
  | some ("PageBreak", .null) => some pageBreak
  | _ => none

def Metadata.ofJson? (v : Json) : Option Metadata :=
  match v.record? ["file_path", "file_size", "author"] 1 with
  | some [filePath, fileSize, author] => do
    let filePath ← required text? filePath
    let fileSize ← required size? fileSize
    let author ← nullable text? author
    return { filePath, fileSize, author }
  | _ => none

/-- The document of a snapshot, with ids from 1 on. -/
def Document.ofJson? (v : Json) : Option Document :=
  match v.record? ["title", "metadata", "blocks"] 0 with
  | some [title, metadata, blocks] => do
    let title ← required text? title
    let metadata ← required Metadata.ofJson? metadata
    let blocks ← required (list? Block.ofJson?) blocks
    return { Document.ofBlocks title blocks with metadata }
  | _ => none

/-! ### Snapshots as text -/

/-- The text of a document's snapshot. -/
def Document.snapshot (d : Document) : String := d.toJson.print

/-- The document that a snapshot's text is written for. -/
def Document.ofSnapshot? (s : String) : Option Document := (Json.parse? s).bind Document.ofJson?

end Compositor
