/-
# Blocks put for a range

What a document is after blocks were put for a range of it, said without the
way it is done. In a paragraph the blocks stand between its two parts, under
fresh ids and free names; a part that is blank is not there. A cell holds no
blocks, so there the text of the blocks stands in the cell, and all else of the
table is as it was.

Key definitions: `Block.anonymous`, `Document.Splicing`, `Document.Refilling`.
Key theorems: `map_anonymous_adoptBlocks`, `Numbered.exists_splicing`,
`exists_refilling`, `splice_puts_blocks`.
-/
import Compositor.Proofs.Document.Cells
import Compositor.Proofs.Document.Edits
import Compositor.Proofs.Document.Names

namespace Compositor
open Text

/-! ### Blocks without their ids and names -/

/-- The block without its id or, if it is an object, its name. -/
def Block.anonymous : Block → Block
  | .paragraph p => .paragraph { p with id := 0 }
  | .table t => .table { t with id := 0 }
  | .object o => .object { o with name := "" }
  | b => b

/-- Inserting blocks changes their ids and names only. -/
theorem map_anonymous_adoptBlocks (taken : List String) (next : Nat) (bs : List Block) :
    (adoptBlocks taken next bs).1.map Block.anonymous = bs.map Block.anonymous := by
  induction bs generalizing taken next with
  | nil => rfl
  | cons b bs ih =>
    cases b with
    | object o => exact congrArg (List.cons _) (ih _ _)
    | paragraph | table | contents | pageBreak => exact congrArg (List.cons _) (ih _ _)

namespace Document

/-- The ids of inserted blocks and of what stands behind them are distinct, and
none of them is below the first fresh one. -/
theorem nodup_ids_adoptBlocks (d : Document) (bs : List Block) :
    ((adoptBlocks d.objectNames d.nextId bs).1.filterMap Block.id? ++ [d.tailId bs]).Nodup ∧
      ∀ id ∈ (adoptBlocks d.objectNames d.nextId bs).1.filterMap Block.id? ++ [d.tailId bs],
        freshId d.nextId ≤ id := by
  have hrange : List.range' (freshId d.nextId) (idCount bs) ++ [freshId d.nextId + idCount bs] =
      List.range' (freshId d.nextId) (idCount bs + 1) := by
    rw [List.range'_concat, Nat.one_mul]
  rw [(ids_adoptBlocks d.objectNames d.nextId bs).1, tailId_eq, hrange]
  exact ⟨List.nodup_range', fun id hid => (List.mem_range'_1.mp hid).1⟩

/-! ### In a paragraph -/

/-- A way to put blocks for a range of a paragraph. The paragraph stands between
the blocks `before` and `after`. It gives way to a head, which has its id and
the text before the range, to the blocks under fresh ids and free names, and to
a tail, which has a fresh id and the text behind the range. -/
structure Splicing (d : Document) (r : TextRange) (bs : List Block) where
  before : List Block
  paragraph : Paragraph
  after : List Block
  removed : Styled
  head : Paragraph
  inserted : List Block
  tail : Paragraph
  blocks_eq : d.blocks = before ++ .paragraph paragraph :: after
  id_eq : paragraph.id = r.block
  styled_eq : paragraph.styled = head.styled ++ removed ++ tail.styled
  start_eq : size head.chars = r.start
  stop_eq : size (head.chars ++ removed.chars) = r.stop
  head_eq : head = { paragraph with runs := head.runs }
  tail_eq : tail = { paragraph with id := tail.id, runs := tail.runs }
  anonymous_eq : inserted.map Block.anonymous = bs.map Block.anonymous
  ids_fresh : ∀ id ∈ inserted.filterMap Block.id? ++ [tail.id], id ∉ d.ids
  ids_nodup : (inserted.filterMap Block.id? ++ [tail.id]).Nodup
  names_free : ∀ name ∈ namesOf inserted, name ∉ d.objectNames
  names_nodup : (namesOf inserted).Nodup

namespace Splicing

variable {d : Document} {r : TextRange} {bs : List Block}

/-- The document with the blocks in place. Of head and tail those are there
that are not blank. -/
def result (s : d.Splicing r bs) : Document :=
  { d with
    blocks := s.before ++ (if allBlank s.head.chars then [] else [.paragraph s.head])
      ++ s.inserted ++ (if allBlank s.tail.chars then [] else [.paragraph s.tail]) ++ s.after
    nextId := s.tail.id + 1 }

/-- The record of the edit: where the text behind the range is, if it is there. -/
def edit (s : d.Splicing r bs) : Edit :=
  ⟨r, .split (if allBlank s.tail.chars then none else some s.tail.id)⟩

end Splicing

theorem Numbered.exists_splicing {d : Document} (h : d.Numbered) {r : TextRange} {x : List Char}
    (hcell : r.cell = none) (hr : d.Reads r x) (bs : List Block) :
    ∃ s : d.Splicing r bs, d.splice r bs = .ok (s.result, s.edit) := by
  obtain ⟨text, htext, hslice⟩ := hr
  rw [hcell] at htext
  obtain ⟨p, hp, hid, hchars⟩ := exists_of_textAt_none htext
  obtain ⟨before, after, hblocks⟩ := List.mem_iff_append.mp hp
  obtain ⟨u, v, rfl, hstart, hstop⟩ := slice?_eq_some_iff.mp hslice
  rw [← Paragraph.chars_styled] at hchars
  obtain ⟨a, y, b, hparts, rfl, rfl, rfl⟩ := Styled.exists_parts hchars
  obtain ⟨head, tail, rfl, rfl, hsplice⟩ := h.splice_eq hblocks hparts bs
  have hrange : p.rangeAfter (head.flatMap Run.styled) y = r := by
    rw [Paragraph.rangeAfter, hid, hstart, hstop, ← hcell]
  rw [hrange] at hsplice
  obtain ⟨hnodup, hfresh⟩ := d.nodup_ids_adoptBlocks bs
  obtain ⟨hnames, hfree⟩ := nodup_names_adoptBlocks d.objectNames d.nextId bs
  have hhead : size (Paragraph.chars { p with runs := head }) = r.start := by
    rw [← Paragraph.chars_styled]
    exact hstart
  have hremoved : size (Paragraph.chars { p with runs := head } ++ y.chars) = r.stop := by
    rw [← Paragraph.chars_styled]
    exact hstop
  let s : d.Splicing r bs :=
    { before, paragraph := p, after, removed := y
      head := { p with runs := head }
      inserted := (adoptBlocks d.objectNames d.nextId bs).1
      tail := { p with id := d.tailId bs, runs := tail }
      blocks_eq := hblocks, id_eq := hid, styled_eq := hparts
      start_eq := hhead, stop_eq := hremoved
      head_eq := rfl, tail_eq := rfl
      anonymous_eq := map_anonymous_adoptBlocks d.objectNames d.nextId bs
      ids_fresh := fun id hmem hold => Nat.not_lt.mpr (hfresh id hmem) (h.fresh id hold)
      ids_nodup := hnodup, names_free := hfree, names_nodup := hnames }
  have hedit : s.edit = ⟨r, .split (if allBlank (Styled.chars (tail.flatMap Run.styled)) then none
      else some (d.tailId bs))⟩ := by
    rw [Run.chars_flatMap_styled]
    rfl
  refine ⟨s, ?_⟩
  rw [hsplice, hedit]
  rfl

/-! ### In a cell -/

/-- A way to put text for a range of a cell. The table stands between the blocks
`before` and `after`; of the table nothing changes but the content of the cell
at the place, and of this content nothing but the range. -/
structure Refilling (d : Document) (r : TextRange) (place : CellPosition) (new : String) where
  before : List Block
  table : Table
  after : List Block
  cell : Cell
  left : List Char
  removed : List Char
  right : List Char
  refilled : Table
  blocks_eq : d.blocks = before ++ .table table :: after
  id_eq : table.id = r.block
  cell_eq : table.cell? place = some cell
  content_eq : cell.content.toList = left ++ removed ++ right
  start_eq : size left = r.start
  stop_eq : size (left ++ removed) = r.stop
  alike : Table.AlikeBut [place] table refilled
  refilled_eq :
    refilled.cell? place = some { cell with content := String.ofList (left ++ new.toList ++ right) }

namespace Refilling

variable {d : Document} {r : TextRange} {place : CellPosition} {new : String}

/-- The document with the text in place. -/
def result (s : d.Refilling r place new) : Document :=
  { d with blocks := s.before ++ .table s.refilled :: s.after }

/-- The record of the edit: how much text was put in. -/
def edit (_ : d.Refilling r place new) : Edit := ⟨r, .text (size new.toList)⟩

end Refilling

theorem exists_refilling {d : Document} (h : d.ids.Nodup) {r : TextRange}
    {place : CellPosition} {x : List Char} (hcell : r.cell = some place) (hr : d.Reads r x)
    (new : String) :
    ∃ s : d.Refilling r place new, d.replaceInCell r place new = .ok (s.result, s.edit) := by
  obtain ⟨text, htext, hslice⟩ := hr
  rw [hcell] at htext
  obtain ⟨t, cell, ht, hid, hc, rfl⟩ := exists_of_textAt_some htext
  obtain ⟨before, after, hblocks⟩ := List.mem_iff_append.mp ht
  -- in a cell the next id does not matter, so it may be one above all ids
  obtain ⟨n, hn⟩ := exists_numbered h
  have hreplace := replaceInCell_nextId { d with nextId := n } d.nextId r place new
  rw [hn.replaceInCell_eq hblocks hid.symm hc hslice new] at hreplace
  obtain ⟨u, v, huv, hstart, hstop⟩ := slice?_eq_some_iff.mp hslice
  rw [huv, ← hstart, ← hstop, substitute_append] at hreplace
  refine ⟨{ before, table := t, after, cell, left := u, removed := x, right := v
            refilled := _
            blocks_eq := hblocks, id_eq := hid, cell_eq := hc, content_eq := huv
            start_eq := hstart, stop_eq := hstop
            alike := Table.AlikeBut.modifyCell t place _, refilled_eq := ?_ }, hreplace⟩
  rw [Table.cell?_modifyCell, hc, Option.map_some]

/-! ### Both -/

/-- A cell gets the text of the blocks. -/
theorem splice_in_cell (d : Document) {r : TextRange} {place : CellPosition}
    (hcell : r.cell = some place) (bs : List Block) :
    d.splice r bs = d.replaceInCell r place (inlineText bs) := by
  unfold splice
  rw [hcell]

/-- **Blocks for a range.** At every range that reads something the edit
succeeds. In a paragraph this one gives way to its head, the blocks and its
tail, with the characters around the range in their formats, and all other
blocks stay where they are. In a cell the range gives way to the plain texts of
the blocks, without the blank ones, and nothing else changes. Only a paragraph
takes ids that are still to be given out. -/
theorem splice_puts_blocks {d : Document} (h : d.ids.Nodup) {r : TextRange} {text : String}
    (hr : d.rangeText r = .ok text) (hnext : r.cell = none → d.Numbered) (bs : List Block) :
    match r.cell with
    | none => ∃ s : d.Splicing r bs, d.splice r bs = .ok (s.result, s.edit)
    | some place =>
      ∃ s : d.Refilling r place
          (" ".intercalate ((bs.map Block.plainText).filter fun text => !isAllBlank text)),
        d.splice r bs = .ok (s.result, s.edit) := by
  have hreads := reads_of_rangeText hr
  split
  · rename_i hcell
    exact (hnext hcell).exists_splicing hcell hreads bs
  · rename_i place hcell
    obtain ⟨s, hs⟩ := exists_refilling h hcell hreads (inlineText bs)
    exact ⟨s, (d.splice_in_cell hcell bs).trans hs⟩

/-- That the ids are distinct is not enough: the tail gets the id of the head. -/
theorem splice_repeats_id_overtaken :
    (overtaken "a %X% b").ids.Nodup ∧ (overtaken "a %X% b").rangeText ⟨1, none, 2, 5⟩ = .ok "%X%" ∧
    ∃ d' e, (overtaken "a %X% b").splice ⟨1, none, 2, 5⟩ [] = .ok (d', e) ∧
      e.kind = .split (some 1) ∧ d'.ids = [1, 1] :=
  ⟨nodup_ids_overtaken _, rfl, _, _, rfl, rfl, rfl⟩

/-- A token between blanks and a word, in two runs, under a formula. -/
def formulaAndToken : Document :=
  ofBlocks "Note" [.object (.formula "F" "x"),
    .paragraph { runs := [⟨" %M", {}⟩, ⟨"% zé", { bold := true }⟩] }]

/-- The head is blank, so it is not there; the formula that comes in has another
name; the word behind it stays in bold. -/
theorem puts_formula_for_token :
    formulaAndToken.Numbered ∧ formulaAndToken.rangeText ⟨1, none, 1, 4⟩ = .ok "%M%" ∧
      ∃ s : formulaAndToken.Splicing ⟨1, none, 1, 4⟩ [.object (.formula "F" "y")],
        formulaAndToken.splice ⟨1, none, 1, 4⟩ [.object (.formula "F" "y")] =
          .ok (s.result, s.edit) ∧
        s.result.blocks = [.object (.formula "F" "x"), .object (.formula "F_2" "y"),
          .paragraph { id := 2, runs := [⟨" zé", { bold := true }⟩] }] ∧
        s.edit.kind = .split (some 2) := by
  have hnumbered : formulaAndToken.Numbered := numbered_ofBlocks _ _
  have hrange : formulaAndToken.rangeText ⟨1, none, 1, 4⟩ = .ok "%M%" := rfl
  refine ⟨hnumbered, hrange, ?_⟩
  obtain ⟨s, hs⟩ := splice_puts_blocks hnumbered.distinct hrange (fun _ => hnumbered)
    [.object (.formula "F" "y")]
  have hdone : formulaAndToken.splice ⟨1, none, 1, 4⟩ [.object (.formula "F" "y")] = .ok
      ({ formulaAndToken with
          blocks := [.object (.formula "F" "x"), .object (.formula "F_2" "y"),
            .paragraph { id := 2, runs := [⟨" zé", { bold := true }⟩] }]
          nextId := 3 },
        ⟨⟨1, none, 1, 4⟩, .split (some 2)⟩) := by decide +kernel
  obtain ⟨hresult, hedit⟩ := Prod.mk.inj (Except.ok.inj (hs.symm.trans hdone))
  exact ⟨s, hs, congrArg Document.blocks hresult, congrArg Edit.kind hedit⟩

end Document
end Compositor
