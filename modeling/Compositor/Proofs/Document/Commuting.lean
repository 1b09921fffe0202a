/-
# Edits in either order

A range replaced by text is a change of each block by itself: the block that
the range addresses takes the text, and all others stay. So two edits of a
document can be made in either order if they can in each block. In different
texts they have nothing to do with each other. In one text the first range stays
where it is, and the second one moves along with its text.

Key definitions: `Block.edited`, `Document.ReplacedInTurn`.
Key theorems: `Numbered.replaceText_eq_map`, `Block.edited_comm_elsewhere`,
`Numbered.edited_comm`, `replaceText_either_order`.
-/
import Compositor.Proofs.Document.Cells
import Compositor.Proofs.Document.Rebasing
import Compositor.Proofs.Document.Relabelling

namespace Compositor
open Text

/-! ### Cells -/

namespace Table

/-- Tables that are changed at the same places only, and are one at these. -/
theorem AlikeBut.eq_of_cells {t t' t'' : Table} {places : List CellPosition}
    (h : AlikeBut places t t') (h' : AlikeBut places t t'')
    (hcells : ∀ place ∈ places, t'.cell? place = t''.cell? place) : t' = t'' := by
  refine eq_of_cell?_eq (h.id.trans h'.id.symm) (h.title.trans h'.title.symm)
    (h.rows.trans h'.rows.symm) fun place => ?_
  by_cases hplace : place ∈ places
  · exact hcells place hplace
  · rw [h.others place hplace, h'.others place hplace]

/-- What a change of a place does is what it does to its cell. -/
theorem modifyCell_congr {t : Table} {place : CellPosition} {cell : Cell}
    (hcell : t.cell? place = some cell) {f g : Cell → Cell} (h : f cell = g cell) :
    t.modifyCell place f = t.modifyCell place g := by
  refine (AlikeBut.modifyCell t place f).eq_of_cells (.modifyCell t place g) fun place' hplace => ?_
  obtain rfl := List.mem_singleton.mp hplace
  simp only [cell?_modifyCell, hcell, Option.map_some, h]

/-- Two changes of one place are one change. -/
theorem modifyCell_modifyCell (t : Table) (place : CellPosition) (f g : Cell → Cell) :
    (t.modifyCell place f).modifyCell place g = t.modifyCell place (g ∘ f) := by
  have hboth := (AlikeBut.modifyCell t place f).trans (.modifyCell _ place g)
  refine hboth.eq_of_cells (.modifyCell t place _) fun place' hplace => ?_
  obtain rfl := List.mem_singleton.mp hplace
  simp only [cell?_modifyCell, Option.map_map]

/-- Changes of two places can be made in either order. -/
theorem modifyCell_comm (t : Table) {place place' : CellPosition} (h : place ≠ place')
    (f g : Cell → Cell) :
    (t.modifyCell place f).modifyCell place' g = (t.modifyCell place' g).modifyCell place f := by
  have hboth : ∀ p p' f g, p ∈ [place, place'] → p' ∈ [place, place'] →
      AlikeBut [place, place'] t ((t.modifyCell p f).modifyCell p' g) := by
    intro p p' f g hp hp'
    have hfirst : AlikeBut [place, place'] t (t.modifyCell p f) :=
      (AlikeBut.modifyCell t p f).mono (by simpa using hp)
    exact hfirst.trans ((AlikeBut.modifyCell _ p' g).mono (by simpa using hp'))
  refine (hboth place place' f g (by simp) (by simp)).eq_of_cells
    (hboth place' place g f (by simp) (by simp)) fun at' hat => ?_
  simp only [List.mem_cons, List.not_mem_nil, or_false] at hat
  rcases hat with rfl | rfl
  · rw [cell?_modifyCell_of_ne _ h, cell?_modifyCell, cell?_modifyCell, cell?_modifyCell_of_ne _ h]
  · rw [cell?_modifyCell, cell?_modifyCell_of_ne _ h.symm, cell?_modifyCell_of_ne _ h.symm,
      cell?_modifyCell]

end Table

/-- The cell with a part of its content replaced. -/
def Cell.reworded (start stop : Nat) (new : List Char) (cell : Cell) : Cell :=
  { cell with content := String.ofList (substitute cell.content.toList start stop new) }

/-- A cell that gets its own content with a part of it replaced. -/
theorem Table.modifyCell_eq_reworded {t : Table} {place : CellPosition} {cell : Cell}
    (hc : t.cell? place = some cell) (start stop : Nat) (new : List Char) :
    (t.modifyCell place fun c =>
        { c with content := String.ofList (substitute cell.content.toList start stop new) }) =
      t.modifyCell place (Cell.reworded start stop new) :=
  modifyCell_congr hc rfl

/-- Two parts of a content replaced, the first in front of the second one, in
either order. -/
theorem Cell.reworded_comm {cell : Cell} {u x m y v : List Char}
    (h : cell.content.toList = u ++ x ++ m ++ y ++ v) (new new' : List Char) :
    (cell.reworded (size u) (size (u ++ x)) new).reworded (size (u ++ new ++ m))
        (size (u ++ new ++ m ++ y)) new' =
      (cell.reworded (size (u ++ x ++ m)) (size (u ++ x ++ m ++ y)) new').reworded (size u)
        (size (u ++ x)) new := by
  have hassoc : ∀ w : List Char, u ++ w ++ m ++ y ++ v = u ++ w ++ (m ++ y ++ v) := by
    intro w
    simp only [List.append_assoc]
  have hassoc' : u ++ x ++ m ++ new' ++ v = u ++ x ++ (m ++ new' ++ v) := by
    simp only [List.append_assoc]
  simp only [Cell.reworded, String.toList_ofList, h]
  rw [hassoc x, substitute_append, ← hassoc new, substitute_append, ← hassoc x, substitute_append,
    hassoc', substitute_append]
  simp only [List.append_assoc]

/-! ### Blocks -/

/-- The block with a part of one of its texts replaced: of the text of a
paragraph, or of that of a cell. -/
def Block.reworded (start stop : Nat) (new : List Char) : Option CellPosition → Block → Block
  | none, .paragraph p => .paragraph { p with runs := Run.replace new start stop p.runs }
  | some place, .table t => .table (t.modifyCell place (Cell.reworded start stop new))
  | _, b => b

/-- The block with a range replaced by text, if the range addresses the block. -/
def Block.edited (r : TextRange) (new : List Char) (b : Block) : Block :=
  if b.id? = some r.block then b.reworded r.start r.stop new r.cell else b

namespace Block

/-- One of the texts of a block: that of a paragraph, or that of a cell. -/
def textIn (b : Block) : Option CellPosition → Option (List Char)
  | none => b.paragraph?.map Paragraph.chars
  | some place => b.table?.bind fun t => (t.cell? place).map fun cell => cell.content.toList

theorem id?_reworded (start stop : Nat) (new : List Char) (cell : Option CellPosition)
    (b : Block) : (b.reworded start stop new cell).id? = b.id? := by
  cases cell with
  | none => cases b <;> rfl
  | some place =>
    cases b with
    | table t => exact congrArg some (t.id_modifyCell place _)
    | paragraph | object | contents | pageBreak => rfl

theorem id?_edited (r : TextRange) (new : List Char) (b : Block) :
    (b.edited r new).id? = b.id? := by
  unfold edited
  split
  · exact id?_reworded _ _ _ _ b
  · rfl

theorem edited_of_eq {r : TextRange} {b : Block} (h : b.id? = some r.block) (new : List Char) :
    b.edited r new = b.reworded r.start r.stop new r.cell := if_pos h

theorem edited_of_ne {r : TextRange} {b : Block} (h : b.id? ≠ some r.block) (new : List Char) :
    b.edited r new = b := if_neg h

/-- Parts of two texts of one block replaced, in either order. -/
theorem reworded_comm {cell cell' : Option CellPosition} (h : cell ≠ cell')
    (start stop start' stop' : Nat) (new new' : List Char) (b : Block) :
    (b.reworded start stop new cell).reworded start' stop' new' cell' =
      (b.reworded start' stop' new' cell').reworded start stop new cell := by
  cases b with
  | paragraph p => cases cell <;> cases cell' <;> first | rfl | exact absurd rfl h
  | table t =>
    cases cell with
    | none => cases cell' <;> rfl
    | some place =>
      cases cell' with
      | none => rfl
      | some place' =>
        have hplace : place ≠ place' := fun he => h (congrArg some he)
        exact congrArg table (t.modifyCell_comm hplace _ _)
  | object | contents | pageBreak => cases cell <;> cases cell' <;> rfl

/-- Ranges of different texts replaced, in either order. -/
theorem edited_comm_elsewhere {q r : TextRange} (h : ¬ (q.block = r.block ∧ q.cell = r.cell))
    (new new' : List Char) (b : Block) :
    (b.edited q new).edited r new' = (b.edited r new').edited q new := by
  by_cases hq : b.id? = some q.block
  · by_cases hr : b.id? = some r.block
    · have hblock : q.block = r.block := Option.some.inj (hq.symm.trans hr)
      have hcell : q.cell ≠ r.cell := fun hcell => h ⟨hblock, hcell⟩
      rw [edited_of_eq hq, edited_of_eq hr, edited_of_eq ((id?_reworded ..).trans hr),
        edited_of_eq ((id?_reworded ..).trans hq)]
      exact reworded_comm hcell _ _ _ _ new new' b
    · rw [edited_of_ne hr, edited_of_ne (b := b.edited q new) (by rwa [id?_edited])]
  · rw [edited_of_ne hq, edited_of_ne (b := b.edited r new') (by rwa [id?_edited])]

/-- Parts of one text replaced, the first in front of the second one, in either
order. -/
theorem reworded_comm_within {cell : Option CellPosition} {b : Block} {u x m y v : List Char}
    (h : b.textIn cell = some (u ++ x ++ m ++ y ++ v)) (hx : x ≠ []) (hy : y ≠ [])
    (new new' : List Char) :
    (b.reworded (size u) (size (u ++ x)) new cell).reworded (size (u ++ new ++ m))
        (size (u ++ new ++ m ++ y)) new' cell =
      (b.reworded (size (u ++ x ++ m)) (size (u ++ x ++ m ++ y)) new' cell).reworded (size u)
        (size (u ++ x)) new cell := by
  cases cell with
  | none =>
    cases b with
    | paragraph p =>
      have hruns := Run.replace_comm hx hy (Option.some.inj h) new new'
      exact congrArg (fun runs => paragraph { p with runs }) hruns
    | table | object | contents | pageBreak => cases h
  | some place =>
    cases b with
    | table t =>
      obtain ⟨cell, hcell, hcontent⟩ := Option.map_eq_some_iff.mp h
      refine congrArg table ?_
      rw [Table.modifyCell_modifyCell, Table.modifyCell_modifyCell]
      exact Table.modifyCell_congr hcell (Cell.reworded_comm hcontent new new')
    | paragraph | object | contents | pageBreak => cases h

end Block

/-! ### Two ranges of one text -/

/-- Two slices of a text, the first in front of the second one, part it in five. -/
theorem Text.exists_five_parts {s x y : List Char} {start stop start' stop' : Nat}
    (hx : slice? s start stop = some x) (hy : slice? s start' stop' = some y)
    (hle : stop ≤ start') :
    ∃ u m v, s = u ++ x ++ m ++ y ++ v ∧ size u = start ∧ size (u ++ x) = stop ∧
      size (u ++ x ++ m) = start' ∧ size (u ++ x ++ m ++ y) = stop' := by
  obtain ⟨u, w, rfl, hstart, hstop⟩ := slice?_eq_some_iff.mp hx
  obtain ⟨m, v, rfl, hm, hmy⟩ := slice?_eq_some_iff.mp (slice?_after hy (hstop ▸ hle))
  have hle' := le_of_slice? hy
  refine ⟨u, m, v, ?_, hstart, hstop, ?_, ?_⟩
  · simp only [List.append_assoc]
  · rw [size_append, hm]
    omega
  · rw [List.append_assoc (u ++ x), size_append, hmy]
    omega

namespace Document

/-! ### Edits block by block -/

theorem Numbered.textIn_eq {d : Document} (h : d.Numbered) {b : Block} {id : Nat}
    {cell : Option CellPosition} {s : List Char} (hb : b ∈ d.blocks) (hid : b.id? = some id)
    (hs : d.textAt id cell = some s) : b.textIn cell = some s := by
  cases cell with
  | none =>
    obtain ⟨p, hp, hpid, rfl⟩ := exists_of_textAt_none hs
    obtain rfl := h.eq_of_id? hb hp hid (congrArg some hpid)
    rfl
  | some place =>
    obtain ⟨t, c, ht, htid, hc, rfl⟩ := exists_of_textAt_some hs
    obtain rfl := h.eq_of_id? hb ht hid (congrArg some htid)
    exact congrArg (Option.map fun cell : Cell => cell.content.toList) hc

theorem Numbered.map_edited {d : Document} (h : d.Numbered) {before after : List Block} {b : Block}
    {r : TextRange} (hb : d.blocks = before ++ b :: after) (hid : b.id? = some r.block)
    (new : List Char) :
    d.blocks.map (Block.edited r new) =
      before ++ b.reworded r.start r.stop new r.cell :: after := by
  have hothers : ∀ bs : List Block, (∀ c ∈ bs, c ∈ before ++ after) →
      bs.map (Block.edited r new) = bs := by
    intro bs hbs
    refine (List.map_congr_left fun c hc => ?_).trans (List.map_id bs)
    exact Block.edited_of_ne (h.id?_ne hb hid c (hbs c hc)) new
  rw [hb, List.map_append, List.map_cons, Block.edited_of_eq hid,
    hothers before fun c hc => List.mem_append_left _ hc,
    hothers after fun c hc => List.mem_append_right _ hc]

/-- A range replaced by text is a change of each block by itself. -/
theorem Numbered.replaceText_eq_map {d : Document} (h : d.Numbered) {r : TextRange}
    {x : List Char} (hr : d.Reads r x) (new : String) :
    d.replaceText r new = .ok ({ d with blocks := d.blocks.map (Block.edited r new.toList) },
      ⟨r, .text (size new.toList)⟩) := by
  obtain ⟨s, hs, hslice⟩ := hr
  unfold replaceText
  cases hcell : r.cell with
  | none =>
    rw [hcell] at hs
    obtain ⟨p, hp, hid, rfl⟩ := exists_of_textAt_none hs
    obtain ⟨before, after, hb⟩ := List.mem_iff_append.mp hp
    have hmap := h.map_edited hb (congrArg some hid) new.toList
    rw [hcell] at hmap
    simp only [h.addressed_eq hb hid.symm hslice]
    rw [hmap]
    rfl
  | some place =>
    rw [hcell] at hs
    obtain ⟨t, cell, ht, hid, hc, rfl⟩ := exists_of_textAt_some hs
    obtain ⟨before, after, hb⟩ := List.mem_iff_append.mp ht
    have hmap := h.map_edited hb (congrArg some hid) new.toList
    rw [hcell] at hmap
    simp only [h.replaceInCell_eq hb hid.symm hc hslice new]
    rw [hmap, Table.modifyCell_eq_reworded hc]
    rfl

/-! ### Two edits -/

/-- A range is replaced by text, and then another one, where it is after the
first edit, is replaced by text. -/
def ReplacedInTurn (d : Document) (q : TextRange) (new : String) (r : TextRange) (new' : String)
    (d'' : Document) : Prop :=
  ∃ d' e r' e', d.replaceText q new = .ok (d', e) ∧ r.rebase e = some r' ∧
    d'.replaceText r' new' = .ok (d'', e')

theorem Numbered.replacedInTurn {d : Document} (h : d.Numbered) {q r : TextRange}
    {x y : List Char} (hq : d.Reads q x) (hr : d.Reads r y) (hdisjoint : ¬ r.Overlaps q)
    (new new' : String) :
    ∃ r', r.rebase ⟨q, .text (size new.toList)⟩ = some r' ∧
      d.ReplacedInTurn q new r new' { d with
        blocks := d.blocks.map fun b => (b.edited q new.toList).edited r' new'.toList } := by
  have hfirst := h.replaceText_eq_map hq new
  obtain ⟨hedited, -⟩ := h.edited_of_replaceText hfirst
  have hread : d.Reads r (String.ofList y).toList := by rwa [String.toList_ofList]
  obtain ⟨r', hr', htext⟩ := hedited.readsAcross_text rfl hread hdisjoint
  have hsecond := hedited.numbered.replaceText_eq_map (reads_of_rangeText htext) new'
  rw [List.map_map] at hsecond
  exact ⟨r', hr', _, _, r', _, hfirst, hr', hsecond⟩

/-- Ranges of one text, the first in front of the second one. -/
theorem Numbered.edited_comm_before {d : Document} (h : d.Numbered) {b : Block} (hb : b ∈ d.blocks)
    {q r q' r' : TextRange} {x y new new' : List Char} (hq : d.Reads q x) (hr : d.Reads r y)
    (hx : x ≠ []) (hy : y ≠ []) (hblock : q.block = r.block) (hcell : q.cell = r.cell)
    (hle : q.stop ≤ r.start) (hr' : r.rebase ⟨q, .text (size new)⟩ = some r')
    (hq' : q.rebase ⟨r, .text (size new')⟩ = some q') :
    (b.edited q new).edited r' new' = (b.edited r new').edited q' new := by
  obtain ⟨s, hs, hqslice⟩ := hq
  obtain ⟨s', hs', hrslice⟩ := hr
  rw [hblock, hcell, hs'] at hs
  obtain rfl := Option.some.inj hs
  have hqlt := lt_of_slice? hqslice hx
  have hrlt := lt_of_slice? hrslice hy
  rw [TextRange.rebase_before hle] at hq'
  obtain rfl := Option.some.inj hq'
  rw [TextRange.rebase_behind hblock.symm hcell.symm hle (show q.start < r.stop by omega)] at hr'
  obtain rfl := Option.some.inj hr'
  by_cases hid : b.id? = some r.block
  · obtain ⟨u, m, v, rfl, hu, hux, hm, hmy⟩ := exists_five_parts hqslice hrslice hle
    have hcomm := Block.reworded_comm_within (h.textIn_eq hb hid hs') hx hy new new'
    have hstart : r.start - (q.stop - q.start) + size new = size (u ++ new ++ m) := by
      simp only [size_append] at hu hux hm ⊢
      omega
    have hstop : r.stop - (q.stop - q.start) + size new = size (u ++ new ++ m ++ y) := by
      simp only [size_append] at hu hux hm hmy ⊢
      omega
    rw [hu, hux, hm, hmy, ← hstart, ← hstop] at hcomm
    rw [Block.edited_of_eq (r := q) (hid.trans (congrArg some hblock.symm)),
      Block.edited_of_eq (r := r) hid, Block.edited_of_eq (by rw [Block.id?_reworded]; exact hid),
      Block.edited_of_eq (by rw [Block.id?_reworded, hblock]; exact hid), hcell]
    exact hcomm
  · rw [Block.edited_of_ne (r := q) (hblock ▸ hid), Block.edited_of_ne (r := r) hid,
      Block.edited_of_ne (r := q) (hblock ▸ hid)]
    exact if_neg hid

theorem Numbered.edited_comm {d : Document} (h : d.Numbered) {b : Block} (hb : b ∈ d.blocks)
    {q r q' r' : TextRange} {x y new new' : List Char} (hq : d.Reads q x) (hr : d.Reads r y)
    (hx : x ≠ []) (hy : y ≠ []) (hdisjoint : ¬ q.Overlaps r)
    (hr' : r.rebase ⟨q, .text (size new)⟩ = some r')
    (hq' : q.rebase ⟨r, .text (size new')⟩ = some q') :
    (b.edited q new).edited r' new' = (b.edited r new').edited q' new := by
  by_cases haddress : q.block = r.block ∧ q.cell = r.cell
  · obtain ⟨hblock, hcell⟩ := haddress
    rcases TextRange.isBefore_or_isBehind hblock hcell hdisjoint with hbefore | hbehind
    · exact h.edited_comm_before hb hq hr hx hy hblock hcell hbefore.2.2 hr' hq'
    · exact (h.edited_comm_before hb hr hq hy hx hblock.symm hcell.symm hbehind.2.2.2 hq' hr').symm
  · have haddress' : ¬ (r.block = q.block ∧ r.cell = q.cell) := fun hr =>
      haddress ⟨hr.1.symm, hr.2.symm⟩
    rw [TextRange.rebase_elsewhere haddress'] at hr'
    rw [TextRange.rebase_elsewhere haddress] at hq'
    obtain rfl := Option.some.inj hr'
    obtain rfl := Option.some.inj hq'
    exact Block.edited_comm_elsewhere haddress new new' b

theorem Numbered.exists_replacedInTurn {d : Document} (h : d.Numbered) {q r : TextRange}
    {x y : List Char} (hq : d.Reads q x) (hr : d.Reads r y) (hx : x ≠ []) (hy : y ≠ [])
    (hdisjoint : ¬ q.Overlaps r) (new new' : String) :
    ∃ d', d.ReplacedInTurn q new r new' d' ∧ d.ReplacedInTurn r new' q new d' := by
  have hdisjoint' : ¬ r.Overlaps q := fun ho =>
    hdisjoint ⟨ho.1.symm, ho.2.1.symm, ho.2.2.2, ho.2.2.1⟩
  obtain ⟨r', hr', hturn⟩ := h.replacedInTurn hq hr hdisjoint' new new'
  obtain ⟨q', hq', hturn'⟩ := h.replacedInTurn hr hq hdisjoint new' new
  have hblocks : (d.blocks.map fun b => (b.edited q new.toList).edited r' new'.toList) =
      d.blocks.map fun b => (b.edited r new'.toList).edited q' new.toList :=
    List.map_congr_left fun b hb => h.edited_comm hb hq hr hx hy hdisjoint hr' hq'
  rw [hblocks] at hturn
  exact ⟨_, hturn, hturn'⟩

/-! ### Any next id -/

theorem ReplacedInTurn.nextId {d d'' : Document} {q r : TextRange} {new new' : String} {n : Nat}
    (h : ReplacedInTurn { d with nextId := n } q new r new' d'') :
    d.ReplacedInTurn q new r new' { d'' with nextId := d.nextId } := by
  obtain ⟨d', e, r', e', hfirst, hr', hsecond⟩ := h
  have hback := replaceText_nextId { d with nextId := n } d.nextId q new
  have hback' := replaceText_nextId d' d.nextId r' new'
  rw [hfirst] at hback
  rw [hsecond] at hback'
  exact ⟨_, e, r', e', hback, hr', hback'⟩

/-- **Independent edits in either order.** Two ranges that read something and do
not overlap are replaced by text, the one after the other: each edit succeeds,
the range that is left can be followed through the first edit, and the document
is the same in the end, whichever range is replaced first, with its runs,
formats and ids. -/
theorem replaceText_either_order {d : Document} (h : d.ids.Nodup) {q r : TextRange} {x y : String}
    (hq : d.rangeText q = .ok x) (hr : d.rangeText r = .ok y) (hx : x ≠ "") (hy : y ≠ "")
    (hdisjoint : ¬ q.Overlaps r) (new new' : String) :
    ∃ d', d.ReplacedInTurn q new r new' d' ∧ d.ReplacedInTurn r new' q new d' := by
  obtain ⟨n, hn⟩ := exists_numbered h
  have hxlist : x.toList ≠ [] := fun hnil => hx (String.toList_eq_nil_iff.mp hnil)
  have hylist : y.toList ≠ [] := fun hnil => hy (String.toList_eq_nil_iff.mp hnil)
  obtain ⟨d', hturn, hturn'⟩ := hn.exists_replacedInTurn (reads_of_rangeText hq)
    (reads_of_rangeText hr) hxlist hylist hdisjoint new new'
  exact ⟨_, hturn.nextId, hturn'.nextId⟩

/-- Two tokens without a gap, and a run that takes part in both. -/
def adjacentTokens : Document :=
  ofBlocks "Note" [.pageBreak, .paragraph
    { runs := [⟨"a%M", {}⟩, ⟨"%%N", { bold := true }⟩, ⟨"% é", { italic := true }⟩] }]

/-- The first token is taken out, and the second one, now in front of all of
the bold run, leaves its text in this run. -/
theorem replaces_adjacentTokens :
    adjacentTokens.ids.Nodup ∧ adjacentTokens.rangeText ⟨1, none, 1, 4⟩ = .ok "%M%" ∧
      adjacentTokens.rangeText ⟨1, none, 4, 7⟩ = .ok "%N%" ∧
      ¬ TextRange.Overlaps ⟨1, none, 1, 4⟩ ⟨1, none, 4, 7⟩ ∧
      ∃ d', adjacentTokens.ReplacedInTurn ⟨1, none, 1, 4⟩ "" ⟨1, none, 4, 7⟩ "✓" d' ∧
        adjacentTokens.ReplacedInTurn ⟨1, none, 4, 7⟩ "✓" ⟨1, none, 1, 4⟩ "" d' ∧
        d'.blocks = [.pageBreak, .paragraph { id := 1, runs := [⟨"a", {}⟩, ⟨"✓", { bold := true }⟩,
          ⟨" é", { italic := true }⟩] }] := by
  have hdistinct : adjacentTokens.ids.Nodup := by decide
  have hq : adjacentTokens.rangeText ⟨1, none, 1, 4⟩ = .ok "%M%" := rfl
  have hr : adjacentTokens.rangeText ⟨1, none, 4, 7⟩ = .ok "%N%" := rfl
  have hdisjoint : ¬ TextRange.Overlaps ⟨1, none, 1, 4⟩ ⟨1, none, 4, 7⟩ := by decide
  refine ⟨hdistinct, hq, hr, hdisjoint, ?_⟩
  obtain ⟨d', hturn, hturn'⟩ :=
    replaceText_either_order hdistinct hq hr (by decide) (by decide) hdisjoint "" "✓"
  refine ⟨d', hturn, hturn', ?_⟩
  obtain ⟨middle, e, r', e', hfirst, hrebase, hsecond⟩ := hturn
  have hdone : adjacentTokens.replaceText ⟨1, none, 1, 4⟩ "" = .ok
      ({ adjacentTokens with
          blocks := [.pageBreak, .paragraph { id := 1, runs := [⟨"a", {}⟩,
            ⟨"%N", { bold := true }⟩, ⟨"% é", { italic := true }⟩] }] },
        ⟨⟨1, none, 1, 4⟩, .text 0⟩) := rfl
  obtain ⟨rfl, rfl⟩ := Prod.mk.inj (Except.ok.inj (hfirst.symm.trans hdone))
  obtain rfl := Option.some.inj hrebase
  obtain ⟨rfl, -⟩ := Prod.mk.inj (Except.ok.inj hsecond)
  decide +kernel

end Document
end Compositor
