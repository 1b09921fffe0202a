/-
# Documents rewritten at once

What the values of a table and the tables of contents are to make of a
document, all occurrences at once and read from the document as it stands. An
occurrence stays, or a value answers it, or it is the token for a table of
contents. In a cell each occurrence is replaced by its answer, a table of
contents by its title. A paragraph is cut where a table of contents goes in;
the text in each piece is replaced as in a cell, in the format in which each
occurrence began. A piece that ends at a cut is dropped if it is blank
afterwards, the last piece of a paragraph that is cut if it was blank before.
Values are not read again.

Key definitions: `LookupTable.answer`, `LookupTable.warnings`,
`LookupTable.rewrite`, `Stretch`, `imagesFrom`, `Block.images`,
`Image.Matches`.
Key theorems: `stretches_cons`, `imagesFrom_cons_of_stays`,
`imagesFrom_cons_of_contents`.
-/
import Mathlib.Data.List.Forall2
import Compositor.Macro.Pass
import Compositor.Proofs.Document.Bare
import Compositor.Proofs.Document.Steps

namespace Compositor
open Text

namespace Macro

/-! ### Answers -/

/-- The token for a table of contents. -/
def contentsToken : Token := ⟨contentsName, none⟩

/-- What becomes of an occurrence. -/
inductive Answer where
  | stays
  | value (text : String)
  | contents
  deriving Repr, DecidableEq

namespace LookupTable

/-- What becomes of a text that was found: the exact token for a table of
contents makes room for one, and a token that is not reserved and whose key
is answered is replaced by the answer. -/
def answer (table : LookupTable) (found : List Char) : Answer :=
  if found = contentsToken.chars then .contents
  else
    match Token.parse? (String.ofList found) with
    | none => .stays
    | some t =>
      if t.isReserved then .stays
      else
        match table.lookup? t.key with
        | some text => .value text
        | none => .stays

/-- The warnings about a text that was found: of a value under a reserved
name, and of a token that nothing answers. -/
def warnings (table : LookupTable) (found : List Char) : List Diagnostic :=
  match Token.parse? (String.ofList found) with
  | none => []
  | some t =>
    if t.isReserved then
      if table.overrides t then
        [⟨.forbiddenOverride, t.raw, "'" ++ t.key ++ "' is reserved and cannot be redefined"⟩]
      else []
    else if (table.lookup? t.key).isSome then []
    else [⟨.unresolvedMacro, t.raw, "no substitution is defined"⟩]

/-- The text of a cell for a text that was found in it. A table of contents
is its title there, or nothing if that is blank. -/
def replacement (table : LookupTable) (title : String) (found : List Char) : List Char :=
  match table.answer found with
  | .stays => found
  | .value text => text.toList
  | .contents => if isAllBlank title then [] else title.toList

/-- The text that the occurrences make with the gaps before them, each
occurrence replaced. -/
def replaced (table : LookupTable) (title : String) (os : List Occurrence) : List Char :=
  os.flatMap fun o => o.gap ++ table.replacement title o.found

/-- The text with each occurrence of a token replaced. -/
def rewrite (table : LookupTable) (title : String) (s : List Char) : List Char :=
  table.replaced title (macroPattern.cut s).occurrences ++ (macroPattern.cut s).rest

end LookupTable

/-! ### Stretches of a paragraph -/

/-- An occurrence with its answer, or the text between two occurrences, which
stays. -/
structure Stretch where
  text : Styled
  answer : Answer := .stays

/-- What stands in the place of a stretch: a value in the format in which the
stretch began. -/
def Stretch.put (x : Stretch) : Styled :=
  match x.answer with
  | .stays => x.text
  | .value text => x.text.inFormatOf text.toList
  | .contents => []

/-- The text of some stretches before they are replaced. -/
def textOf (xs : List Stretch) : Styled := xs.flatMap Stretch.text

/-- The text of some stretches with each of them replaced. -/
def putOf (xs : List Stretch) : Styled := xs.flatMap Stretch.put

/-- The stretches of a text from the gap before its next occurrences on. -/
def LookupTable.stretches (table : LookupTable) : List Occurrence → Styled → List Stretch
  | [], text => [{ text }]
  | o :: os, text =>
    let gap := text.take o.gap.length
    let found := (text.drop o.gap.length).take o.found.length
    let behind := (text.drop o.gap.length).drop o.found.length
    { text := gap } :: ⟨found, table.answer o.found⟩ :: table.stretches os behind

/-- The stretches of a paragraph. -/
def LookupTable.stretchesOf (table : LookupTable) (p : Paragraph) : List Stretch :=
  table.stretches (macroPattern.cut p.chars).occurrences p.styled

end Macro

open Macro

/-! ### Images -/

/-- A block of a rewritten document: one that was kept, up to the entries of a
table of contents, or a piece of a paragraph. The first piece has the id of
the paragraph, the others have new ones. -/
inductive Image where
  | kept (b : Block)
  | piece (id? : Option Nat) (style : Option String) (level : Option UInt8) (text : Styled)
  deriving Repr, DecidableEq

/-- Is the block the given image? -/
def Image.Matches : Image → Block → Prop
  | .kept a, b => b.bare = a.bare
  | .piece id? style level text, b =>
    ∃ p, b = .paragraph p ∧ (∀ id ∈ id?, p.id = id) ∧ p.style = style ∧ p.level = level ∧
      p.styled = text

/-- The piece that some stretches of a paragraph make. -/
def Paragraph.image (p : Paragraph) (id? : Option Nat) (xs : List Stretch) : Image :=
  .piece id? p.style p.level (putOf xs)

/-- The images of a paragraph from a piece on that has been read up to some
stretches. `id?` is the id of the paragraph as long as it has not been cut, and
`image` makes an image of a piece. -/
def imagesFrom (title : String) (image : Option Nat → List Stretch → Image) :
    (id? : Option Nat) → (piece : List Stretch) → List Stretch → List Image
  | id?, piece, [] =>
    if id?.isNone && allBlank (textOf piece).chars then [] else [image id? piece]
  | id?, piece, x :: xs =>
    match x.answer with
    | .contents =>
      (if allBlank (putOf piece).chars then [] else [image id? piece])
        ++ .kept (Handler.emptyContents title) :: imagesFrom title image none [] xs
    | _ => imagesFrom title image id? (piece ++ [x]) xs

/-- The cell with the tokens in it replaced. -/
def Cell.rewritten (table : LookupTable) (title : String) (c : Cell) : Cell :=
  { c with content := String.ofList (table.rewrite title c.content.toList) }

/-- The images of a block. A paragraph in which every occurrence stays is
kept with its runs. -/
def Block.images (table : LookupTable) (title : String) : Block → List Image
  | .paragraph p =>
    if (table.stretchesOf p).all (·.answer = .stays) then [.kept (.paragraph p)]
    else imagesFrom title p.image (some p.id) [] (table.stretchesOf p)
  | .table t => [.kept (.table (t.mapCells (Cell.rewritten table title)))]
  | b => [.kept b]

/-! ### Stretch by stretch -/

namespace Macro

theorem putOf_append (xs ys : List Stretch) : putOf (xs ++ ys) = putOf xs ++ putOf ys :=
  List.flatMap_append

theorem textOf_append (xs ys : List Stretch) : textOf (xs ++ ys) = textOf xs ++ textOf ys :=
  List.flatMap_append

theorem putOf_singleton (x : Stretch) : putOf [x] = x.put := List.flatMap_singleton Stretch.put x

theorem textOf_singleton (x : Stretch) : textOf [x] = x.text :=
  List.flatMap_singleton Stretch.text x

variable {table : LookupTable} {o : Occurrence} {gap found : Styled}

theorem stretches_cons (hgap : gap.chars = o.gap) (hfound : found.chars = o.found)
    (behind : Styled) (os : List Occurrence) :
    table.stretches (o :: os) (gap ++ (found ++ behind)) =
      { text := gap } :: ⟨found, table.answer o.found⟩ :: table.stretches os behind := by
  rw [LookupTable.stretches, ← hgap, Styled.length_chars, List.take_left, List.drop_left, ← hfound,
    Styled.length_chars, List.take_left, List.drop_left]

end Macro

variable {title : String} {image : Option Nat → List Stretch → Image}

theorem imagesFrom_cons_of_stays {x : Stretch} (h : x.answer ≠ .contents) (id? : Option Nat)
    (piece xs : List Stretch) :
    imagesFrom title image id? piece (x :: xs) = imagesFrom title image id? (piece ++ [x]) xs := by
  rw [imagesFrom]
  cases hanswer : x.answer with
  | stays => rfl
  | value text => rfl
  | contents => exact absurd hanswer h

theorem imagesFrom_cons_of_contents {x : Stretch} (h : x.answer = .contents) (id? : Option Nat)
    (piece xs : List Stretch) :
    imagesFrom title image id? piece (x :: xs) =
      (if allBlank (putOf piece).chars then [] else [image id? piece])
        ++ [.kept (Handler.emptyContents title)] ++ imagesFrom title image none [] xs := by
  rw [imagesFrom, h, List.append_assoc]
  rfl

end Compositor
