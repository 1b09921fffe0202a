/-
# The texts of a document

A document has a text at each address: at the id of a paragraph, and at the
id of a table with the place of a cell. A range reads a slice of such a text.
The texts of a block stay as long as the block does.

Key definitions: `Document.textAt`, `Document.Reads`.
Key theorems: `rangeText_eq`, `rangeText_of_reads`, `exists_addressed`,
`Numbered.textAt_exchange`.
-/
import Compositor.Proofs.Document.Numbered

namespace Compositor
open Text

/-! ### Cells -/

namespace Table

theorem id_modifyCell (t : Table) (place : CellPosition) (f : Cell → Cell) :
    (t.modifyCell place f).id = t.id := by
  unfold modifyCell
  split <;> rfl

theorem cell?_modifyCell (t : Table) (place : CellPosition) (f : Cell → Cell) :
    (t.modifyCell place f).cell? place = (t.cell? place).map f := by
  obtain ⟨row, column⟩ := place
  cases row with
  | zero => simp [modifyCell, cell?, allRows]
  | succ row =>
    simp only [modifyCell, cell?, allRows, List.getElem?_cons_succ, List.getElem?_modify]
    cases t.rows[row]? with
    | none => rfl
    | some cells => simp

theorem cell?_modifyCell_of_ne (t : Table) {place place' : CellPosition} (h : place' ≠ place)
    (f : Cell → Cell) : (t.modifyCell place f).cell? place' = t.cell? place' := by
  obtain ⟨row, column⟩ := place
  obtain ⟨row', column'⟩ := place'
  have hne : row = row' → column ≠ column' := fun hr hc => h (by rw [hr, hc])
  cases row with
  | zero =>
    cases row' with
    | zero => simp [modifyCell, cell?, allRows, hne rfl]
    | succ row' => rfl
  | succ row =>
    cases row' with
    | zero => rfl
    | succ row' =>
      simp only [modifyCell, cell?, allRows, List.getElem?_cons_succ, List.getElem?_modify]
      by_cases hr : row = row'
      · subst hr
        cases t.rows[row]? with
        | none => rfl
        | some cells => simp [hne rfl]
      · simp [hr]

end Table

namespace Document

/-! ### Blocks by their ids -/

/-- The paragraph with an id is the one at which the blocks are split. -/
theorem paragraph?_eq_splitAtParagraph (d : Document) (id : Nat) :
    d.paragraph? id = (splitAtParagraph id d.blocks).map fun s => s.2.1 := by
  unfold Document.paragraph? Document.paragraphs
  induction d.blocks with
  | nil => rfl
  | cons b bs ih =>
    cases b with
    | paragraph p =>
      have hp : (Block.paragraph p).paragraph? = some p := rfl
      rw [List.filterMap_cons_some hp, List.find?_cons, splitAtParagraph]
      by_cases h : p.id = id
      · simp only [h, decide_true, if_true, Option.map_some]
      · simp only [h, decide_false, if_false, ih, Option.map_map, Function.comp_def]
    | table | object | contents | pageBreak =>
      simp only [splitAtParagraph, Option.map_map, Function.comp_def, ← ih]
      rfl

/-- The table with an id is the one at which the blocks are split. -/
theorem table?_eq_splitAtTable (d : Document) (id : Nat) :
    d.table? id = (splitAtTable id d.blocks).map fun s => s.2.1 := by
  unfold Document.table? Document.tables
  induction d.blocks with
  | nil => rfl
  | cons b bs ih =>
    cases b with
    | table t =>
      have ht : (Block.table t).table? = some t := rfl
      rw [List.filterMap_cons_some ht, List.find?_cons, splitAtTable]
      by_cases h : t.id = id
      · simp only [h, decide_true, if_true, Option.map_some]
      · simp only [h, decide_false, if_false, ih, Option.map_map, Function.comp_def]
    | paragraph | object | contents | pageBreak =>
      simp only [splitAtTable, Option.map_map, Function.comp_def, ← ih]
      rfl

/-! ### Texts -/

/-- The text of a paragraph, or of a cell of a table. -/
def textAt (d : Document) (block : Nat) : Option CellPosition → Option (List Char)
  | some place =>
    (d.table? block).bind fun t => (t.cell? place).map fun cell => cell.content.toList
  | none => (d.paragraph? block).map Paragraph.chars

/-- A range holds a text: the slice of the text at its address. -/
def Reads (d : Document) (r : TextRange) (x : List Char) : Prop :=
  ∃ s, d.textAt r.block r.cell = some s ∧ slice? s r.start r.stop = some x

/-- Reading a range goes by the text at its address. -/
theorem rangeText_eq (d : Document) (r : TextRange) :
    d.rangeText r =
      match (d.textAt r.block r.cell).bind (slice? · r.start r.stop) with
      | some part => .ok (String.ofList part)
      | none => .error ⟨r⟩ := by
  obtain ⟨block, cell, start, stop⟩ := r
  cases cell <;> rfl

theorem rangeText_of_reads {d : Document} {r : TextRange} {x : List Char} (h : d.Reads r x) :
    d.rangeText r = .ok (String.ofList x) := by
  obtain ⟨s, hs, hx⟩ := h
  simp only [rangeText_eq, hs, Option.bind_some, hx]

theorem reads_of_rangeText {d : Document} {r : TextRange} {text : String}
    (h : d.rangeText r = .ok text) : d.Reads r text.toList := by
  rw [rangeText_eq] at h
  split at h
  · rename_i part hpart
    obtain ⟨s, hs, hslice⟩ := Option.bind_eq_some_iff.mp hpart
    cases h
    exact ⟨s, hs, by rw [String.toList_ofList]; exact hslice⟩
  · cases h

/-- The paragraph that a range of a paragraph addresses, if it reads something. -/
theorem exists_addressed {d : Document} {r : TextRange} {x : List Char} (hcell : r.cell = none)
    (h : d.Reads r x) :
    ∃ before p after, d.addressed r = .ok (before, p, after) ∧ d.paragraph? r.block = some p ∧
      slice? p.chars r.start r.stop = some x := by
  obtain ⟨s, hs, hx⟩ := h
  rw [hcell] at hs
  obtain ⟨p, hp, rfl⟩ := Option.map_eq_some_iff.mp hs
  have hlookup := hp
  rw [paragraph?_eq_splitAtParagraph] at hlookup
  obtain ⟨⟨before, p, after⟩, hsplit, rfl⟩ := Option.map_eq_some_iff.mp hlookup
  refine ⟨before, p, after, ?_, hp, hx⟩
  rw [addressed, hsplit]
  simp only [hx, Option.isNone_some, Bool.false_eq_true, if_false]

/-- A range of a paragraph that addresses one reads something. -/
theorem reads_of_addressed {d : Document} {r : TextRange} {before after : List Block}
    {p : Paragraph} (hcell : r.cell = none) (h : d.addressed r = .ok (before, p, after)) :
    ∃ x, d.Reads r x := by
  unfold addressed at h
  split at h
  · cases h
  · rename_i p' after' hsplit
    split at h
    · cases h
    · rename_i hslice
      obtain ⟨x, hx⟩ := Option.ne_none_iff_exists'.mp (by simpa using hslice)
      refine ⟨x, _, ?_, hx⟩
      rw [hcell, textAt, paragraph?_eq_splitAtParagraph, hsplit]
      rfl

theorem Numbered.textAt_paragraph {d : Document} (h : d.Numbered) {p : Paragraph}
    (hp : .paragraph p ∈ d.blocks) : d.textAt p.id none = some p.chars := by
  rw [textAt, h.paragraph?_eq hp]
  rfl

theorem Numbered.textAt_cell {d : Document} (h : d.Numbered) {t : Table} {place : CellPosition}
    {cell : Cell} (ht : .table t ∈ d.blocks) (hc : t.cell? place = some cell) :
    d.textAt t.id (some place) = some cell.content.toList := by
  rw [textAt, h.table?_eq ht, Option.bind_some, hc]
  rfl

theorem exists_of_textAt_none {d : Document} {id : Nat} {s : List Char}
    (h : d.textAt id none = some s) : ∃ p, .paragraph p ∈ d.blocks ∧ p.id = id ∧ p.chars = s := by
  obtain ⟨p, hp, rfl⟩ := Option.map_eq_some_iff.mp h
  exact ⟨p, (mem_of_paragraph? hp).1, (mem_of_paragraph? hp).2, rfl⟩

theorem exists_of_textAt_some {d : Document} {id : Nat} {place : CellPosition} {s : List Char}
    (h : d.textAt id (some place) = some s) :
    ∃ t cell, .table t ∈ d.blocks ∧ t.id = id ∧ t.cell? place = some cell ∧
      cell.content.toList = s := by
  obtain ⟨t, ht, h⟩ := Option.bind_eq_some_iff.mp h
  obtain ⟨cell, hc, rfl⟩ := Option.map_eq_some_iff.mp h
  exact ⟨t, cell, (mem_of_table? ht).1, (mem_of_table? ht).2, hc, rfl⟩

/-- Texts belong to blocks with ids. -/
theorem exists_of_textAt {d : Document} {id : Nat} {cell : Option CellPosition} {s : List Char}
    (h : d.textAt id cell = some s) : ∃ b ∈ d.blocks, b.id? = some id := by
  cases cell with
  | none =>
    obtain ⟨p, hp, rfl, -⟩ := exists_of_textAt_none h
    exact ⟨_, hp, rfl⟩
  | some place =>
    obtain ⟨t, -, ht, rfl, -⟩ := exists_of_textAt_some h
    exact ⟨_, ht, rfl⟩

theorem textAt_eq_none {d : Document} {id : Nat} (h : ∀ b ∈ d.blocks, b.id? ≠ some id)
    (cell : Option CellPosition) : d.textAt id cell = none := by
  refine Option.eq_none_iff_forall_ne_some.mpr fun s hs => ?_
  obtain ⟨b, hb, hid⟩ := exists_of_textAt hs
  exact h b hb hid

theorem Numbered.lt_of_textAt {d : Document} (h : d.Numbered) {id : Nat}
    {cell : Option CellPosition} {s : List Char} (hs : d.textAt id cell = some s) :
    id < freshId d.nextId := by
  obtain ⟨b, hb, hid⟩ := exists_of_textAt hs
  exact h.fresh id (List.mem_filterMap.mpr ⟨b, hb, hid⟩)

/-- A text stays as long as its block does. -/
theorem Numbered.textAt_of_mem {d d' : Document} (h : d.Numbered) (h' : d'.Numbered) {id : Nat}
    {cell : Option CellPosition} {s : List Char} {b : Block} (hb : b ∈ d.blocks)
    (hid : b.id? = some id) (hb' : b ∈ d'.blocks) (hs : d.textAt id cell = some s) :
    d'.textAt id cell = some s := by
  cases cell with
  | none =>
    obtain ⟨p, hp, rfl, rfl⟩ := exists_of_textAt_none hs
    obtain rfl := h.eq_of_id? hb hp hid rfl
    exact h'.textAt_paragraph hb'
  | some place =>
    obtain ⟨t, cell, ht, rfl, hc, rfl⟩ := exists_of_textAt_some hs
    obtain rfl := h.eq_of_id? hb ht hid rfl
    exact h'.textAt_cell hb' hc

/-- The texts of the blocks around an exchange stay. -/
theorem Numbered.textAt_exchange {d d' : Document} (h : d.Numbered) (h' : d'.Numbered)
    {before new after : List Block} {b : Block} {id id' : Nat}
    (hold : d.blocks = before ++ b :: after) (hnew : d'.blocks = before ++ new ++ after)
    (hid : b.id? = some id) (hne : id' ≠ id) {cell : Option CellPosition} {s : List Char}
    (hs : d.textAt id' cell = some s) : d'.textAt id' cell = some s := by
  obtain ⟨x, hx, hxid⟩ := exists_of_textAt hs
  refine h.textAt_of_mem h' hx hxid ?_ hs
  rw [hold, List.mem_append, List.mem_cons] at hx
  rw [hnew, List.mem_append, List.mem_append]
  rcases hx with hx | rfl | hx
  · exact .inl (.inl hx)
  · rw [hid] at hxid
    exact absurd (Option.some.inj hxid).symm hne
  · exact .inr hx

end Document

end Compositor
