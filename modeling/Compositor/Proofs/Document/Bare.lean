/-
# Edits of a document up to its tables of contents

Tables of contents are made anew in the middle of a pass, and their entries
change with it. The bare blocks of a document are its blocks without those
entries, so they do not see it. What an edit does to a document is told here
by what it does to the bare blocks: around the paragraph or the table that is
edited they stay.

Key definitions: `Block.bare`, `Document.bare`.
Key theorems: `bare_refreshContents`, `Numbered.bare_replaceText`,
`Numbered.bare_splice_contents`, `Numbered.bare_replaceInCell`.
-/
import Compositor.Proofs.Document.Edits
import Compositor.Proofs.Document.Formats

namespace Compositor
open Text

/-- The block without the entries of a table of contents. -/
def Block.bare (b : Block) : Block := b.withEntries []

namespace Block

theorem bare_withEntries (entries : List OutlineItem) (b : Block) :
    (b.withEntries entries).bare = b.bare := by
  cases b <;> rfl

theorem bare_bare (b : Block) : b.bare.bare = b.bare := b.bare_withEntries []

theorem id?_bare (b : Block) : b.bare.id? = b.id? := by
  cases b <;> rfl

theorem eq_of_bare_eq {b b' : Block} (h : b.bare = b') (hid : b'.hasId = true) : b = b' := by
  cases b with
  | paragraph | table | object | pageBreak => exact h
  | contents c =>
    subst h
    cases hid

end Block

namespace Document

/-- The blocks of a document without the entries of its tables of contents. -/
def bare (d : Document) : List Block := d.blocks.map Block.bare

theorem bare_refreshContents (d : Document) : d.refreshContents.bare = d.bare := by
  simp only [bare, refreshContents, List.map_map, Function.comp_def, Block.bare_withEntries]

/-- A paragraph or a table among the bare blocks is one among the blocks. -/
theorem exists_of_bare {d : Document} {before after : List Block} {b : Block}
    (h : d.bare = before ++ b :: after) (hid : b.hasId = true) :
    ∃ front back, d.blocks = front ++ b :: back ∧ front.map Block.bare = before ∧
      back.map Block.bare = after := by
  obtain ⟨front, rest, hblocks, hfront, hrest⟩ := List.map_eq_append_iff.mp h
  obtain ⟨b', back, rfl, hb, hback⟩ := List.map_eq_cons_iff.mp hrest
  obtain rfl := Block.eq_of_bare_eq hb hid
  exact ⟨front, back, hblocks, hfront, hback⟩

/-- The bare blocks around a block have other ids. -/
theorem Numbered.id?_ne_of_bare {d : Document} (h : d.Numbered) {before after : List Block}
    {b : Block} {id : Nat} (hb : d.bare = before ++ b :: after) (hid : b.id? = some id) :
    ∀ x ∈ before ++ after, x.id? ≠ some id := by
  obtain ⟨front, rest, hblocks, rfl, hrest⟩ := List.map_eq_append_iff.mp hb
  obtain ⟨b', back, rfl, rfl, rfl⟩ := List.map_eq_cons_iff.mp hrest
  rw [Block.id?_bare] at hid
  intro x hx
  rw [← List.map_append] at hx
  obtain ⟨y, hy, rfl⟩ := List.mem_map.mp hx
  rw [Block.id?_bare]
  exact h.id?_ne hblocks hid y hy

theorem Numbered.lt_freshId_of_bare {d : Document} (h : d.Numbered) {b : Block} {id : Nat}
    (hb : b ∈ d.bare) (hid : b.id? = some id) : id < freshId d.nextId := by
  obtain ⟨b', hb', rfl⟩ := List.mem_map.mp hb
  rw [Block.id?_bare] at hid
  exact h.fresh id (List.mem_filterMap.mpr ⟨b', hb', hid⟩)

theorem bare_of_blocks {d : Document} {front bs back : List Block}
    (h : d.blocks = front ++ bs ++ back) (hbs : bs.map Block.bare = bs) :
    d.bare = front.map Block.bare ++ bs ++ back.map Block.bare := by
  rw [bare, h, List.map_append, List.map_append, hbs]

/-! ### A paragraph -/

section Paragraph

variable {d d' : Document} {before after : List Block} {q : Paragraph} {a x b : Styled} {e : Edit}

/-- A range replaced by text: the text takes its format from there. -/
theorem Numbered.bare_replaceText (h : d.Numbered) (hb : d.bare = before ++ .paragraph q :: after)
    (hq : q.styled = a ++ x ++ b) (hx : x ≠ []) {text : String}
    (hr : d.replaceText (q.rangeAfter a x) text = .ok (d', e)) :
    ∃ runs, d'.bare = before ++ .paragraph { q with runs } :: after ∧
      runs.flatMap Run.styled = a ++ x.inFormatOf text.toList ++ b ∧
      e = ⟨q.rangeAfter a x, .text (size text.toList)⟩ := by
  obtain ⟨front, back, hblocks, rfl, rfl⟩ := exists_of_bare hb rfl
  have hchars : q.chars = a.chars ++ x.chars ++ b.chars := by
    rw [← Paragraph.chars_styled, hq, Styled.chars_append, Styled.chars_append]
  have hslice : slice? q.chars (size a.chars) (size (a.chars ++ x.chars)) = some x.chars :=
    slice?_eq_some_iff.mpr ⟨_, _, hchars, rfl, rfl⟩
  have haddressed : d.addressed (q.rangeAfter a x) = .ok (front, q, back) :=
    h.addressed_eq hblocks rfl hslice
  unfold Paragraph.rangeAfter at haddressed hr
  unfold replaceText at hr
  simp only [haddressed] at hr
  obtain ⟨rfl, rfl⟩ := Prod.mk.inj (Except.ok.inj hr)
  refine ⟨_, ?_, Run.styled_replace hx text.toList hq, rfl⟩
  rw [bare, List.map_append, List.map_cons]
  rfl

theorem map_bare_half (p : Paragraph) : (half p).map Block.bare = half p := by
  unfold half
  split <;> rfl

/-- A table of contents in place of a range: the text before it keeps the id,
and the text behind it has the next one. -/
theorem Numbered.bare_splice_contents (h : d.Numbered)
    (hb : d.bare = before ++ .paragraph q :: after) (hq : q.styled = a ++ x ++ b) {title : String}
    (hr : d.splice (q.rangeAfter a x) [.contents { title }] = .ok (d', e)) :
    ∃ head tail : List Run, head.flatMap Run.styled = a ∧ tail.flatMap Run.styled = b ∧
      d'.bare = before ++ (half { q with runs := head } ++ .contents { title } ::
        half { q with id := freshId d.nextId, runs := tail }) ++ after ∧
      e = ⟨q.rangeAfter a x,
        .split (if allBlank b.chars then none else some (freshId d.nextId))⟩ := by
  obtain ⟨front, back, hblocks, rfl, rfl⟩ := exists_of_bare hb rfl
  obtain ⟨head, tail, hhead, htail, hsplice⟩ := h.splice_eq hblocks hq [.contents { title }]
  rw [hsplice] at hr
  obtain ⟨rfl, rfl⟩ := Prod.mk.inj (Except.ok.inj hr)
  refine ⟨head, tail, hhead, htail, ?_, rfl⟩
  refine bare_of_blocks ?_ ?_
  · simp only [List.append_assoc]
    rfl
  · rw [List.map_append, List.map_cons, map_bare_half, map_bare_half]
    rfl

end Paragraph

/-! ### A cell -/

/-- A range in a cell replaced by text. -/
theorem Numbered.bare_replaceInCell {d d' : Document} (h : d.Numbered)
    {before after : List Block} {t : Table} (hb : d.bare = before ++ .table t :: after)
    {place : CellPosition} {cell : Cell} (hc : t.cell? place = some cell) {u x v : List Char}
    (hcontent : cell.content.toList = u ++ x ++ v) {text : String} {e : Edit}
    (hr : d.replaceInCell ⟨t.id, some place, size u, size (u ++ x)⟩ place text = .ok (d', e)) :
    d'.bare = before ++ .table (t.modifyCell place fun c =>
        { c with content := String.ofList (u ++ text.toList ++ v) }) :: after ∧
      e = ⟨⟨t.id, some place, size u, size (u ++ x)⟩, .text (size text.toList)⟩ := by
  obtain ⟨front, back, hblocks, rfl, rfl⟩ := exists_of_bare hb rfl
  have hslice : slice? cell.content.toList (size u) (size (u ++ x)) = some x :=
    slice?_eq_some_iff.mpr ⟨u, v, hcontent, rfl, rfl⟩
  rw [h.replaceInCell_eq hblocks rfl hc hslice text, hcontent] at hr
  dsimp only at hr
  rw [substitute_append] at hr
  obtain ⟨rfl, rfl⟩ := Prod.mk.inj (Except.ok.inj hr)
  refine ⟨?_, rfl⟩
  rw [bare, List.map_append, List.map_cons]
  rfl

end Document
end Compositor
