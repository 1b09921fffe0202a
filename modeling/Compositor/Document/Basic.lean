/-
# Documents

A document is a list of blocks: paragraphs made of runs of formatted text,
tables of cells, embedded objects, tables of contents and page breaks.
Paragraphs and tables have an id, by which a range of text finds its block
again after the list has changed.

Key definitions: `TextFormat`, `Run`, `Paragraph`, `Table`, `EmbeddedObject`,
`TableOfContents`, `Block`, `Document`, `Document.push`, `Document.renumber`,
`Document.adopt`, `freshName`.
Key theorem: `freshName_not_mem`.
-/
import Compositor.Document.FontSize
import Compositor.Document.PropertyBag

namespace Compositor

/-- How a stretch of text looks. -/
structure TextFormat where
  bold : Bool := false
  italic : Bool := false
  underline : Bool := false
  strikethrough : Bool := false
  fontSize : Option FontSize := none
  color : Option String := none
  deriving Repr, DecidableEq, Inhabited

/-- Are two formats one? The sign of a zero does not count. -/
def TextFormat.sameAs (f g : TextFormat) : Bool :=
  { f with fontSize := f.fontSize.map .unsigned } = { g with fontSize := g.fontSize.map .unsigned }

/-- A stretch of text in one format. -/
structure Run where
  text : String
  format : TextFormat := {}
  deriving Repr, DecidableEq, Inhabited

/-- A paragraph: its text in runs, and its level in the outline if it is a
heading. -/
structure Paragraph where
  id : Nat := 0
  style : Option String := none
  level : Option UInt8 := none
  runs : List Run
  deriving Repr, DecidableEq, Inhabited

structure Cell where
  content : String
  format : TextFormat := {}
  deriving Repr, DecidableEq, Inhabited

/-- A place in a table. Row 0 is the header row; the data rows follow. -/
structure CellPosition where
  row : Nat
  column : Nat
  deriving Repr, DecidableEq, Inhabited

structure Table where
  id : Nat := 0
  headers : List Cell
  rows : List (List Cell)
  title : Option String := none
  deriving Repr, DecidableEq, Inhabited

inductive ObjectKind where
  | formula
  | image
  | chart
  deriving Repr, DecidableEq, Inhabited

/-- A formula, an image or a chart in the flow of the text. -/
structure EmbeddedObject where
  name : String
  kind : ObjectKind
  properties : PropertyBag := .empty
  deriving Repr, DecidableEq, Inhabited

/-- A heading, with the place of its paragraph in the list of blocks. -/
structure OutlineItem where
  title : String
  level : UInt8
  blockIndex : Nat
  deriving Repr, DecidableEq, Inhabited

structure TableOfContents where
  title : String
  entries : List OutlineItem := []
  deriving Repr, DecidableEq, Inhabited

inductive Block where
  | paragraph (p : Paragraph)
  | table (t : Table)
  | object (o : EmbeddedObject)
  | contents (c : TableOfContents)
  | pageBreak
  deriving Repr, DecidableEq, Inhabited

/-- Where a document comes from. -/
structure Metadata where
  filePath : String := ""
  fileSize : Nat := 0
  author : Option String := none
  deriving Repr, DecidableEq, Inhabited

/-- A document. The ids that the document gives out come from `nextId` on. -/
structure Document where
  title : String
  metadata : Metadata := {}
  blocks : List Block := []
  nextId : Nat := 1
  deriving Repr, DecidableEq, Inhabited

/-! ### Paragraphs -/

namespace Run

/-- Text in the default format. -/
def plain (text : String) : Run := { text }

def chars (r : Run) : List Char := r.text.toList

/-- The runs with neighbours of one format joined. Of joined runs the first
one's format stays. -/
def consolidate : List Run → List Run
  | [] => []
  | r :: rs =>
    match consolidate rs with
    | [] => [r]
    | q :: qs =>
      if r.format.sameAs q.format then { r with text := r.text ++ q.text } :: qs else r :: q :: qs

end Run

namespace Paragraph

/-- A paragraph of plain text. -/
def plain (text : String) : Paragraph := { runs := [.plain text] }

/-- A heading of the given level. -/
def heading (level : UInt8) (text : String) : Paragraph :=
  { style := some ("Heading " ++ toString level.toNat), level, runs := [.plain text] }

def chars (p : Paragraph) : List Char := p.runs.flatMap Run.chars

/-- The text of the paragraph, without its formats. -/
def text (p : Paragraph) : String := String.ofList p.chars

end Paragraph

/-! ### Tables -/

namespace Table

/-- The header row and then the data rows. -/
def allRows (t : Table) : List (List Cell) := t.headers :: t.rows

def cell? (t : Table) (place : CellPosition) : Option Cell :=
  (t.allRows[place.row]?).bind (·[place.column]?)

/-- The table with the cell at a place changed by `f`. -/
def modifyCell (t : Table) (place : CellPosition) (f : Cell → Cell) : Table :=
  match place.row with
  | 0 => { t with headers := t.headers.modify place.column f }
  | row + 1 => { t with rows := t.rows.modify row (·.modify place.column f) }

/-- Every cell with its place, row by row. -/
def cells (t : Table) : List (CellPosition × Cell) :=
  t.allRows.zipIdx.flatMap fun (row, i) => row.zipIdx.map fun (cell, j) => (⟨i, j⟩, cell)

end Table

/-! ### Embedded objects -/

namespace EmbeddedObject

/-- The property that holds the text of a formula. -/
def formulaProperty : String := "Formula"

/-- The property that says how an object is anchored. -/
def anchorProperty : String := "AnchorType"

def descriptionProperty : String := "Description"

def pathProperty : String := "Path"

def formula (name text : String) : EmbeddedObject :=
  { name, kind := .formula, properties := PropertyBag.empty.insert formulaProperty (.text text) }

def image (name description : String) : EmbeddedObject :=
  { name, kind := .image
    properties := PropertyBag.empty.insert descriptionProperty (.text description) }

def setProperty (o : EmbeddedObject) (name : String) (value : PropertyValue) : EmbeddedObject :=
  { o with properties := o.properties.insert name value }

end EmbeddedObject

/-! ### Blocks -/

namespace Block

def paragraph? : Block → Option Paragraph
  | paragraph p => some p
  | _ => none

def table? : Block → Option Table
  | table t => some t
  | _ => none

def object? : Block → Option EmbeddedObject
  | object o => some o
  | _ => none

/-- The id of a paragraph or a table. -/
def id? : Block → Option Nat
  | paragraph p => some p.id
  | table t => some t.id
  | _ => none

/-- The block with a given id, if it is of a kind that has one. -/
def withId (id : Nat) : Block → Block
  | paragraph p => paragraph { p with id }
  | table t => table { t with id }
  | b => b

/-- Does the block have an id? -/
def hasId (b : Block) : Bool := b.id?.isSome

/-- The text of the block as it would read within a line. -/
def plainText : Block → String
  | paragraph p => p.text
  | table t => " ".intercalate (t.cells.map (·.2.content))
  | contents c => c.title
  | object _ | pageBreak => ""

end Block

/-! ### Ids and names -/

/-- The id that is given out where `next` is up. Zero never is: it is the id
of what has not got one yet. -/
def freshId (next : Nat) : Nat := max next 1

theorem le_freshId (next : Nat) : next ≤ freshId next := Nat.le_max_left next 1

theorem freshId_of_pos {next : Nat} (h : 1 ≤ next) : freshId next = next := Nat.max_eq_left h

@[simp] theorem freshId_succ (n : Nat) : freshId (n + 1) = n + 1 :=
  freshId_of_pos (Nat.le_add_left 1 n)

theorem freshId_mono {m n : Nat} (h : m ≤ n) : freshId m ≤ freshId n := by
  unfold freshId
  omega

/-- The blocks with fresh ids from `next` on, in order, and the id that is up
after them. -/
def numberBlocks : Nat → List Block → List Block × Nat
  | next, [] => ([], next)
  | next, b :: bs =>
    let (numbered, last) := numberBlocks (if b.hasId then freshId next + 1 else next) bs
    (b.withId (freshId next) :: numbered, last)

/-- A name with a number after it. -/
def suffixed (name : String) (n : Nat) : String := name ++ "_" ++ toString n

/-- The first of the names with the numbers `n`, `n + 1`, … that is not
taken; after so many `tries` the next one. -/
def firstFree (taken : List String) (name : String) : Nat → Nat → String
  | n, 0 => suffixed name n
  | n, tries + 1 =>
    if suffixed name n ∈ taken then firstFree taken name (n + 1) tries else suffixed name n

/-- A name that is not taken: the given one, or else the given one with the
least number from 2 on that makes it free. -/
def freshName (taken : List String) (name : String) : String :=
  if name ∈ taken then firstFree taken name 2 taken.length else name

namespace Document

/-- A document of the given blocks, with ids from 1 on. -/
def ofBlocks (title : String) (blocks : List Block) : Document :=
  let (blocks, nextId) := numberBlocks 1 blocks
  { title, blocks, nextId }

/-- The document with its ids given out anew from 1 on. -/
def renumber (d : Document) : Document :=
  let (blocks, nextId) := numberBlocks 1 d.blocks
  { d with blocks, nextId }

/-- The document with one more block, under a fresh id. -/
def push (d : Document) (b : Block) : Document :=
  let (blocks, nextId) := numberBlocks d.nextId [b]
  { d with blocks := d.blocks ++ blocks, nextId }

def pushParagraph (d : Document) (text : String) : Document :=
  d.push (.paragraph (.plain text))

/-- The document without the block at an index. -/
def removeAt (d : Document) (index : Nat) : Document :=
  { d with blocks := d.blocks.eraseIdx index }

def paragraphs (d : Document) : List Paragraph := d.blocks.filterMap Block.paragraph?

def tables (d : Document) : List Table := d.blocks.filterMap Block.table?

def allObjects (d : Document) : List EmbeddedObject := d.blocks.filterMap Block.object?

/-- The objects of one kind, in document order. -/
def objects (d : Document) (kind : ObjectKind) : List EmbeddedObject :=
  d.allObjects.filter (·.kind = kind)

def objectNames (d : Document) : List String := d.allObjects.map (·.name)

def paragraph? (d : Document) (id : Nat) : Option Paragraph := d.paragraphs.find? (·.id = id)

def table? (d : Document) (id : Nat) : Option Table := d.tables.find? (·.id = id)

end Document

/-- Blocks made safe to insert where the object names `taken` are in use and
the ids from `next` on are fresh: paragraphs and tables get fresh ids, and
an object whose name is taken gets a fresh one. -/
def adoptBlocks : (taken : List String) → (next : Nat) → List Block → List Block × Nat
  | _, next, [] => ([], next)
  | taken, next, .object o :: bs =>
    let name := freshName taken o.name
    let (adopted, last) := adoptBlocks (name :: taken) next bs
    (.object { o with name } :: adopted, last)
  | taken, next, b :: bs =>
    let (adopted, last) := adoptBlocks taken (if b.hasId then freshId next + 1 else next) bs
    (b.withId (freshId next) :: adopted, last)

/-! ### A fresh name is free

Different numbers make different names, so among one more of them than there
are names taken, one is free. -/

theorem suffixed_injective {name : String} {m n : Nat} (h : suffixed name m = suffixed name n) :
    m = n := by
  have h' : Nat.toDigits 10 m = Nat.toDigits 10 n := by
    simpa [suffixed, Nat.toString_eq_ofList_toDigits] using congrArg String.toList h
  have h'' := congrArg (Nat.ofDigitChars 10 · 0) h'
  simpa only [Nat.ofDigitChars_ten_toDigits] using h''

theorem firstFree_ge (taken : List String) (name : String) (n tries : Nat) :
    ∃ m, n ≤ m ∧ firstFree taken name n tries = suffixed name m := by
  induction tries generalizing n with
  | zero => exact ⟨n, Nat.le_refl _, rfl⟩
  | succ tries ih =>
    unfold firstFree
    split
    · obtain ⟨m, hm, h⟩ := ih (n + 1)
      exact ⟨m, by omega, h⟩
    · exact ⟨n, Nat.le_refl _, rfl⟩

theorem firstFree_congr {taken taken' : List String} {name : String} {n : Nat}
    (h : ∀ m, n ≤ m → (suffixed name m ∈ taken ↔ suffixed name m ∈ taken')) (tries : Nat) :
    firstFree taken name n tries = firstFree taken' name n tries := by
  induction tries generalizing n with
  | zero => rfl
  | succ tries ih =>
    have hrest := ih (n := n + 1) fun m hm => h m (by omega)
    simp only [firstFree, h n (Nat.le_refl _), hrest]

theorem firstFree_not_mem {taken : List String} {name : String} {n tries : Nat}
    (h : taken.length ≤ tries) : firstFree taken name n tries ∉ taken := by
  induction tries generalizing n taken with
  | zero => simp_all
  | succ tries ih =>
    unfold firstFree
    split
    · rename_i hmem
      have hlen := List.length_erase_of_mem hmem
      have hpos := List.length_pos_of_mem hmem
      have hne : ∀ m, n + 1 ≤ m → suffixed name m ≠ suffixed name n := fun m hm he => by
        have := suffixed_injective he
        omega
      rw [firstFree_congr fun m hm => (List.mem_erase_of_ne (hne m hm)).symm]
      have hfree :
          firstFree (taken.erase (suffixed name n)) name (n + 1) tries
            ∉ taken.erase (suffixed name n) := ih (by omega)
      obtain ⟨m, hm, he⟩ := firstFree_ge (taken.erase (suffixed name n)) name (n + 1) tries
      rw [he] at hfree ⊢
      rwa [List.mem_erase_of_ne (hne m hm)] at hfree
    · assumption

/-- A fresh name is not among the names taken. -/
theorem freshName_not_mem (taken : List String) (name : String) :
    freshName taken name ∉ taken := by
  unfold freshName
  split
  · exact firstFree_not_mem (Nat.le_refl _)
  · assumption

end Compositor
