/-
# Edits in place

In place an edit is made step by step, and each step leaves its mark on the
document: a paragraph is looked up by its position, it is taken out, ids are
given away, and blocks are put where it was. An edit that fails midway would
leave the document in pieces. No edit does: whatever can fail, fails before the
first mark, and it fails at the ranges that cannot be read and at no others.

Key definitions: `Editing`, `Editing.replaceText`, `Editing.splice`,
`Document.Addresses`.
Key theorems: `Editing.run_replaceText`, `Editing.run_splice`,
`edits_fail_together`.
-/
import Compositor.Proofs.Document.Commuting

namespace Compositor
open Text

/-- Is it the paragraph with an id? -/
def Block.isParagraph (id : Nat) (b : Block) : Bool := b.paragraph?.any (·.id = id)

/-- Is it the table with an id? -/
def Block.isTable (id : Nat) (b : Block) : Bool := b.table?.any (·.id = id)

/-- Work on a document in place. Where it fails, the document stays as the work
has left it. -/
abbrev Editing := EStateM StaleRange Document

namespace Editing

open Document (half inlineText)

/-! ### Steps -/

/-- The position of the paragraph that a range addresses. -/
def checkedPosition (r : TextRange) : Editing Nat := do
  let blocks := (← get).blocks
  match blocks.findIdx? (·.isParagraph r.block) with
  | none => throw ⟨r⟩
  | some index =>
    match blocks[index]? with
    | some (.paragraph p) =>
      if (slice? p.chars r.start r.stop).isSome then return index else throw ⟨r⟩
    | _ => throw ⟨r⟩

/-- The position of the table in which a range addresses a cell. -/
def checkedTable (r : TextRange) (place : CellPosition) : Editing Nat := do
  let blocks := (← get).blocks
  match blocks.findIdx? (·.isTable r.block) with
  | none => throw ⟨r⟩
  | some index =>
    match (blocks[index]?.bind Block.table?).bind (·.cell? place) with
    | some cell =>
      if (slice? cell.content.toList r.start r.stop).isSome then return index else throw ⟨r⟩
    | none => throw ⟨r⟩

/-- Takes a block out. -/
def takeBlock (index : Nat) : Editing (Option Block) :=
  modifyGet fun d => (d.blocks[index]?, d.removeAt index)

/-- Puts blocks in front of the one at a position. -/
def putBlocks (index : Nat) (bs : List Block) : Editing Unit :=
  modify fun d => { d with blocks := d.blocks.take index ++ bs ++ d.blocks.drop index }

/-- Replaces a part of a text of the block at a position. -/
def reword (index : Nat) (r : TextRange) (new : String) : Editing Unit :=
  modify fun d =>
    { d with blocks := d.blocks.modify index (Block.reworded r.start r.stop new.toList r.cell) }

/-- Makes blocks safe to insert, with ids of the document. -/
def adopt (bs : List Block) : Editing (List Block) :=
  modifyGet fun d =>
    let (adopted, next) := adoptBlocks d.objectNames d.nextId bs
    (adopted, { d with nextId := next })

/-- Gives an id away. -/
def allocateId : Editing Nat :=
  modifyGet fun d => (freshId d.nextId, { d with nextId := freshId d.nextId + 1 })

/-! ### Edits -/

def replaceInCell (r : TextRange) (place : CellPosition) (new : String) : Editing Edit := do
  let index ← checkedTable r place
  reword index r new
  return ⟨r, .text (size new.toList)⟩

/-- Replaces a range by text. -/
def replaceText (r : TextRange) (new : String) : Editing Edit :=
  match r.cell with
  | some place => replaceInCell r place new
  | none => do
    let index ← checkedPosition r
    reword index r new
    return ⟨r, .text (size new.toList)⟩

/-- Replaces a range by blocks. The paragraph is taken out before it is seen
whether it is one. -/
def splice (r : TextRange) (bs : List Block) : Editing Edit :=
  match r.cell with
  | some place => replaceInCell r place (inlineText bs)
  | none => do
    let index ← checkedPosition r
    match ← takeBlock index with
    | some (.paragraph p) =>
      let (headRuns, rest) := Run.cutAt r.start p.runs
      let (_, tailRuns) := Run.cutAt (r.stop - r.start) rest
      let adopted ← adopt bs
      let tailId ← allocateId
      let tail : Paragraph := { p with id := tailId, runs := tailRuns }
      putBlocks index (half { p with runs := headRuns } ++ adopted ++ half tail)
      return ⟨r, .split (if allBlank tail.chars then none else some tailId)⟩
    | _ => throw ⟨r⟩

end Editing

/-! ### Blocks by position -/

theorem findIdx?_isParagraph (id : Nat) (bs : List Block) :
    bs.findIdx? (·.isParagraph id) = (splitAtParagraph id bs).map fun s => s.1.length := by
  induction bs with
  | nil => rfl
  | cons b bs ih =>
    rw [List.findIdx?_cons, ih]
    cases b with
    | paragraph p =>
      by_cases h : p.id = id
      · simp [Block.isParagraph, Block.paragraph?, splitAtParagraph, h]
      · simp [Block.isParagraph, Block.paragraph?, splitAtParagraph, h, Function.comp_def]
    | table | object | contents | pageBreak =>
      simp [Block.isParagraph, Block.paragraph?, splitAtParagraph, Function.comp_def]

theorem findIdx?_isTable (id : Nat) (bs : List Block) :
    bs.findIdx? (·.isTable id) = (splitAtTable id bs).map fun s => s.1.length := by
  induction bs with
  | nil => rfl
  | cons b bs ih =>
    rw [List.findIdx?_cons, ih]
    cases b with
    | table t =>
      by_cases h : t.id = id
      · simp [Block.isTable, Block.table?, splitAtTable, h]
      · simp [Block.isTable, Block.table?, splitAtTable, h, Function.comp_def]
    | paragraph | object | contents | pageBreak =>
      simp [Block.isTable, Block.table?, splitAtTable, Function.comp_def]

theorem modify_append_cons {α : Type} (f : α → α) (before : List α) (b : α) (after : List α) :
    (before ++ b :: after).modify before.length f = before ++ f b :: after := by
  induction before with
  | nil => rfl
  | cons c before ih => exact congrArg (c :: ·) ih

namespace Document

/-- What an edit in place does if it is all or nothing. -/
def allOrNothing (d : Document) : Except StaleRange (Document × Edit) →
    EStateM.Result StaleRange Document Edit
  | .ok (d', e) => .ok e d'
  | .error fault => .error fault d

theorem objectNames_without_paragraph {d : Document} {before after : List Block} {p : Paragraph}
    (h : d.blocks = before ++ .paragraph p :: after) :
    objectNames { d with blocks := before ++ after } = d.objectNames := by
  have hp : (Block.paragraph p).object? = none := rfl
  simp only [objectNames, allObjects, h, List.filterMap_append, List.filterMap_cons_none hp]

/-- The range addresses text: its block and its cell are there, and its ends, in
order, are boundaries of characters there. -/
def Addresses (d : Document) (r : TextRange) : Prop :=
  ∃ u x v, d.textAt r.block r.cell = some (u ++ x ++ v) ∧ size u = r.start ∧
    size (u ++ x) = r.stop

theorem addresses_iff {d : Document} {r : TextRange} : d.Addresses r ↔ ∃ x, d.Reads r x := by
  constructor
  · rintro ⟨u, x, v, hat, hstart, hstop⟩
    exact ⟨x, u ++ x ++ v, hat, slice?_eq_some_iff.mpr ⟨u, v, rfl, hstart, hstop⟩⟩
  · rintro ⟨x, s, hat, hslice⟩
    obtain ⟨u, v, rfl, hstart, hstop⟩ := slice?_eq_some_iff.mp hslice
    exact ⟨u, x, v, hat, hstart, hstop⟩

end Document

namespace Editing

open Document

variable (d : Document) (r : TextRange)

/-! ### In place and at once -/

/-- Looking a paragraph up changes nothing. -/
theorem run_checkedPosition :
    (checkedPosition r).run d =
      match d.addressed r with
      | .ok (before, _, _) => .ok before.length d
      | .error fault => .error fault d := by
  unfold checkedPosition addressed
  rw [EStateM.run_bind, EStateM.run_get]
  simp only [findIdx?_isParagraph]
  cases hsplit : splitAtParagraph r.block d.blocks with
  | none => rfl
  | some split =>
    obtain ⟨before, p, after⟩ := split
    have hat : d.blocks[before.length]? = some (.paragraph p) := by
      rw [eq_of_splitAtParagraph hsplit]
      simp
    simp only [Option.map_some, hat]
    cases slice? p.chars r.start r.stop <;> rfl

theorem run_reword {before after : List Block} {b : Block}
    (h : d.blocks = before ++ b :: after) (new : String) :
    (reword before.length r new).run d = .ok ()
      { d with blocks := before ++ b.reworded r.start r.stop new.toList r.cell :: after } := by
  unfold reword
  rw [EStateM.run_modify, h, modify_append_cons]

theorem run_replaceInCell {place : CellPosition} (hcell : r.cell = some place) (new : String) :
    (replaceInCell r place new).run d = d.allOrNothing (d.replaceInCell r place new) := by
  unfold replaceInCell checkedTable Document.replaceInCell
  rw [EStateM.run_bind, EStateM.run_bind, EStateM.run_get]
  simp only [findIdx?_isTable]
  cases hsplit : splitAtTable r.block d.blocks with
  | none => rfl
  | some split =>
    obtain ⟨before, t, after⟩ := split
    have hblocks := eq_of_splitAtTable hsplit
    have hat : (d.blocks[before.length]?).bind Block.table? = some t := by
      rw [hblocks]
      simp [Block.table?]
    simp only [Option.map_some, hat, Option.bind_some]
    cases hc : t.cell? place with
    | none => rfl
    | some cell =>
      cases hslice : slice? cell.content.toList r.start r.stop with
      | none => simp only [hslice]; rfl
      | some x =>
        simp only [hslice, Option.isSome_some, if_true, Option.isNone_some, Bool.false_eq_true,
          if_false, EStateM.run_pure]
        rw [EStateM.run_bind, run_reword d r hblocks, hcell, Table.modifyCell_eq_reworded hc]
        rfl

/-- Text put for a range in place is put for it at once. -/
theorem run_replaceText (new : String) :
    (replaceText r new).run d = d.allOrNothing (d.replaceText r new) := by
  unfold replaceText Document.replaceText
  cases hcell : r.cell with
  | some place => exact run_replaceInCell d r hcell new
  | none =>
    simp only
    rw [EStateM.run_bind, run_checkedPosition]
    cases haddressed : d.addressed r with
    | error fault => rfl
    | ok split =>
      obtain ⟨before, p, after⟩ := split
      simp only
      rw [EStateM.run_bind, run_reword d r (eq_of_addressed haddressed), hcell]
      rfl

/-- Blocks put for a range in place are put for it at once: what is taken out is
a paragraph. -/
theorem run_splice (bs : List Block) :
    (splice r bs).run d = d.allOrNothing (d.splice r bs) := by
  unfold splice Document.splice
  cases hcell : r.cell with
  | some place => exact run_replaceInCell d r hcell (inlineText bs)
  | none =>
    simp only
    rw [EStateM.run_bind, run_checkedPosition]
    cases haddressed : d.addressed r with
    | error fault => rfl
    | ok split =>
      obtain ⟨before, p, after⟩ := split
      have hblocks := eq_of_addressed haddressed
      have hat : d.blocks[before.length]? = some (.paragraph p) := by
        rw [hblocks]
        simp
      have hrest : d.removeAt before.length = { d with blocks := before ++ after } := by
        rw [removeAt, hblocks, List.eraseIdx_append_of_length_le (Nat.le_refl _), Nat.sub_self]
        rfl
      have hnames := objectNames_without_paragraph hblocks
      simp only [EStateM.run_bind, takeBlock, EStateM.run_modifyGet, hat, hrest, adopt, hnames,
        allocateId, putBlocks, EStateM.run_modify, EStateM.run_pure, List.take_left,
        List.drop_left, allOrNothing, List.append_assoc]

end Editing

namespace Document

variable {d : Document} {r : TextRange}

/-! ### At ranges that address text -/

theorem Addresses.exists_rangeText (h : d.Addresses r) : ∃ text, d.rangeText r = .ok text := by
  obtain ⟨x, hx⟩ := addresses_iff.mp h
  exact ⟨_, rangeText_of_reads hx⟩

theorem Addresses.exists_replaceInCell (h : d.Addresses r) {place : CellPosition}
    (hcell : r.cell = some place) (new : String) :
    ∃ d' e, d.replaceInCell r place new = .ok (d', e) := by
  obtain ⟨x, s, hs, hslice⟩ := addresses_iff.mp h
  rw [hcell, textAt, table?_eq_splitAtTable] at hs
  obtain ⟨t, ht, hs⟩ := Option.bind_eq_some_iff.mp hs
  obtain ⟨cell, hc, rfl⟩ := Option.map_eq_some_iff.mp hs
  obtain ⟨⟨before, t, after⟩, hsplit, rfl⟩ := Option.map_eq_some_iff.mp ht
  unfold replaceInCell
  simp only [hsplit, hc, hslice, Option.isNone_some, Bool.false_eq_true, if_false]
  exact ⟨_, _, rfl⟩

theorem Addresses.exists_replaceText (h : d.Addresses r) (new : String) :
    ∃ d' e, d.replaceText r new = .ok (d', e) := by
  unfold replaceText
  cases hcell : r.cell with
  | some place => exact h.exists_replaceInCell hcell new
  | none =>
    obtain ⟨x, hx⟩ := addresses_iff.mp h
    obtain ⟨before, p, after, haddressed, -, -⟩ := exists_addressed hcell hx
    simp only [haddressed]
    exact ⟨_, _, rfl⟩

theorem Addresses.exists_splice (h : d.Addresses r) (bs : List Block) :
    ∃ d' e, d.splice r bs = .ok (d', e) := by
  unfold splice
  cases hcell : r.cell with
  | some place => exact h.exists_replaceInCell hcell (inlineText bs)
  | none =>
    obtain ⟨x, hx⟩ := addresses_iff.mp h
    obtain ⟨before, p, after, haddressed, -, -⟩ := exists_addressed hcell hx
    simp only [haddressed]
    exact ⟨_, _, rfl⟩

/-! ### At stale ranges -/

theorem rangeText_of_stale (h : ¬ d.Addresses r) : d.rangeText r = .error ⟨r⟩ := by
  cases htext : d.rangeText r with
  | ok text => exact absurd (addresses_iff.mpr ⟨_, reads_of_rangeText htext⟩) h
  | error fault =>
    rw [rangeText_eq] at htext
    split at htext <;> cases htext
    rfl

theorem addressed_of_stale (h : ¬ d.Addresses r) (hcell : r.cell = none) :
    d.addressed r = .error ⟨r⟩ := by
  cases haddressed : d.addressed r with
  | ok split => exact absurd (addresses_iff.mpr (reads_of_addressed hcell haddressed)) h
  | error fault =>
    unfold addressed at haddressed
    split at haddressed
    · cases haddressed
      rfl
    · split at haddressed <;> cases haddressed
      rfl

theorem replaceInCell_of_stale (h : ¬ d.Addresses r) {place : CellPosition}
    (hcell : r.cell = some place) (new : String) :
    d.replaceInCell r place new = .error ⟨r⟩ := by
  cases hdone : d.replaceInCell r place new with
  | ok done => exact absurd (addresses_iff.mpr (reads_of_replaceInCell hcell hdone).1) h
  | error fault =>
    unfold replaceInCell at hdone
    split at hdone
    · cases hdone
      rfl
    · split at hdone
      · cases hdone
        rfl
      · split at hdone <;> cases hdone
        rfl

theorem replaceText_of_stale (h : ¬ d.Addresses r) (new : String) :
    d.replaceText r new = .error ⟨r⟩ := by
  unfold replaceText
  cases hcell : r.cell with
  | some place => exact replaceInCell_of_stale h hcell new
  | none => simp only [addressed_of_stale h hcell]

theorem splice_of_stale (h : ¬ d.Addresses r) (bs : List Block) :
    d.splice r bs = .error ⟨r⟩ := by
  unfold splice
  cases hcell : r.cell with
  | some place => exact replaceInCell_of_stale h hcell (inlineText bs)
  | none => simp only [addressed_of_stale h hcell]

/-- **Edits that fail.** Where a range addresses text, it can be read, replaced
by any text and replaced by any blocks. Everywhere else each of the three fails,
with this range as the stale one, and the edits, made in place, leave the
document as it was. -/
theorem edits_fail_together (d : Document) (r : TextRange) :
    (d.Addresses r ∧ (∃ text, d.rangeText r = .ok text) ∧
      (∀ new, ∃ d' e, d.replaceText r new = .ok (d', e) ∧
        (Editing.replaceText r new).run d = .ok e d') ∧
      ∀ bs, ∃ d' e, d.splice r bs = .ok (d', e) ∧ (Editing.splice r bs).run d = .ok e d') ∨
    (¬ d.Addresses r ∧ d.rangeText r = .error ⟨r⟩ ∧
      (∀ new, d.replaceText r new = .error ⟨r⟩ ∧
        (Editing.replaceText r new).run d = .error ⟨r⟩ d) ∧
      ∀ bs, d.splice r bs = .error ⟨r⟩ ∧ (Editing.splice r bs).run d = .error ⟨r⟩ d) := by
  by_cases h : d.Addresses r
  · refine .inl ⟨h, h.exists_rangeText, fun new => ?_, fun bs => ?_⟩
    · obtain ⟨d', e, hdone⟩ := h.exists_replaceText new
      exact ⟨d', e, hdone, by rw [Editing.run_replaceText, hdone]; rfl⟩
    · obtain ⟨d', e, hdone⟩ := h.exists_splice bs
      exact ⟨d', e, hdone, by rw [Editing.run_splice, hdone]; rfl⟩
  · refine .inr ⟨h, rangeText_of_stale h, fun new => ?_, fun bs => ?_⟩
    · have hstale := replaceText_of_stale h new
      exact ⟨hstale, by rw [Editing.run_replaceText, hstale]; rfl⟩
    · have hstale := splice_of_stale h bs
      exact ⟨hstale, by rw [Editing.run_splice, hstale]; rfl⟩

/-- The end of the range is inside a character of two bytes. -/
example : (Editing.splice ⟨1, none, 6, 7⟩ [.pageBreak]).run
    (ofBlocks "Note" [.paragraph (.plain "%M% zé")]) =
      .error ⟨1, none, 6, 7⟩ (ofBlocks "Note" [.paragraph (.plain "%M% zé")]) := by
  rfl

end Document
end Compositor
