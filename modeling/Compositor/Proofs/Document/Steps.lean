/-
# Documents step by step

Whatever is done to a document while it is processed is done in three kinds
of steps: a range is replaced by text, a range is replaced by blocks, or the
tables of contents are made anew. Apart from its texts a document is its
frame: the list of its blocks with the texts left out. A step leaves the
frame as it is, or it splits one paragraph and inserts blocks that were made
safe to insert. What is known of ids, names and kinds of blocks is read off
the frame, so nothing else about a step has to be looked at.

Key definitions: `Block.frame`, `Document.Step`, `Document.Rewords`,
`Document.Splits`.
Key theorems: `replaceText_rewords`, `splice_cases`, `Step.rewords_or_splits`,
`Step.title_eq`.
-/
import Mathlib.Logic.Relation
import Compositor.Document.Contents
import Compositor.Proofs.Document.Numbered

namespace Compositor
open Text

/-! ### Frames -/

/-- The table with every cell changed by `f`. -/
def Table.mapCells (f : Cell → Cell) (t : Table) : Table :=
  { t with headers := t.headers.map f, rows := t.rows.map (·.map f) }

/-- The cell without its text. -/
def Cell.frame (c : Cell) : Cell := { c with content := "" }

/-- The block without its texts: a paragraph without runs, a table with
empty cells, a table of contents without entries. -/
def Block.frame : Block → Block
  | .paragraph p => .paragraph { p with runs := [] }
  | .table t => .table (t.mapCells Cell.frame)
  | .contents c => .contents { c with entries := [] }
  | b => b

namespace Block

theorem id?_frame (b : Block) : b.frame.id? = b.id? := by
  cases b <;> rfl

theorem object?_frame (b : Block) : b.frame.object? = b.object? := by
  cases b <;> rfl

theorem frame_withEntries (entries : List OutlineItem) (b : Block) :
    (b.withEntries entries).frame = b.frame := by
  cases b <;> rfl

end Block

/-- A change at one index is not seen by a map that does not see the change. -/
theorem map_modify_of_eq {α β : Type} {f : α → α} {g : α → β} (h : ∀ a, g (f a) = g a)
    (l : List α) (i : Nat) : (l.modify i f).map g = l.map g := by
  refine List.ext_getElem? fun j => ?_
  simp only [List.getElem?_map, List.getElem?_modify]
  by_cases hij : i = j
  · cases l[j]? <;> simp [hij, h]
  · simp [hij]

theorem Table.mapCells_modifyCell {f g : Cell → Cell} (h : ∀ c, g (f c) = g c) (t : Table)
    (place : CellPosition) : (t.modifyCell place f).mapCells g = t.mapCells g := by
  have hrow : ∀ (row : List Cell) (i : Nat), (row.modify i f).map g = row.map g :=
    fun row i => map_modify_of_eq h row i
  unfold modifyCell mapCells
  split
  · simp only [hrow]
  · simp only [map_modify_of_eq fun row => hrow row place.column]

namespace Document

/-- The blocks of a document without their texts. -/
def frames (d : Document) : List Block := d.blocks.map Block.frame

theorem filterMap_id?_frames (d : Document) : d.frames.filterMap Block.id? = d.ids := by
  simp only [frames, ids, List.filterMap_map, Function.comp_def, Block.id?_frame]

theorem filterMap_object?_frames (d : Document) :
    d.frames.filterMap Block.object? = d.allObjects := by
  simp only [frames, allObjects, List.filterMap_map, Function.comp_def, Block.object?_frame]

theorem mem_ids_iff {d : Document} {id : Nat} :
    id ∈ d.ids ↔ ∃ b ∈ d.frames, b.id? = some id := by
  rw [← filterMap_id?_frames, List.mem_filterMap]

/-! ### Steps -/

/-- One step of the work on a document. -/
inductive Step (d : Document) : Document → Prop
  | replaceText {r : TextRange} {new : String} {d' : Document} {e : Edit} :
    d.replaceText r new = .ok (d', e) → d.Step d'
  | splice {r : TextRange} {bs : List Block} {d' : Document} {e : Edit} :
    d.splice r bs = .ok (d', e) → d.Step d'
  | refreshContents : d.Step d.refreshContents

/-- Only texts differ. -/
structure Rewords (d d' : Document) : Prop where
  title : d'.title = d.title
  metadata : d'.metadata = d.metadata
  frames : d'.frames = d.frames
  nextId : d'.nextId = d.nextId

/-- A paragraph was split and blocks were inserted between its halves: the
half before keeps the id, and the half behind has the first id that is fresh
after those of the blocks. -/
def Splits (bs : List Block) (d d' : Document) : Prop :=
  ∃ before p after head tail, d.blocks = before ++ .paragraph p :: after ∧
    d' = { d with
      blocks := before ++ half { p with runs := head }
        ++ (adoptBlocks d.objectNames d.nextId bs).1
        ++ half { p with id := d.tailId bs, runs := tail } ++ after
      nextId := d.tailId bs + 1 }

theorem eq_of_splitAtParagraph {id : Nat} {bs before after : List Block} {p : Paragraph}
    (h : splitAtParagraph id bs = some (before, p, after)) :
    bs = before ++ .paragraph p :: after := by
  induction bs generalizing before with
  | nil => cases h
  | cons b bs ih =>
    have hfurther : ((splitAtParagraph id bs).map fun x => (b :: x.1, x.2.1, x.2.2)) =
        some (before, p, after) → b :: bs = before ++ .paragraph p :: after := by
      intro hmap
      obtain ⟨⟨front, q, back⟩, hsplit, he⟩ := Option.map_eq_some_iff.mp hmap
      cases he
      exact congrArg (b :: ·) (ih hsplit)
    cases b with
    | paragraph q =>
      simp only [splitAtParagraph] at h
      split at h
      · cases h
        rfl
      · exact hfurther h
    | table | object | contents | pageBreak =>
      simp only [splitAtParagraph] at h
      exact hfurther h

theorem eq_of_splitAtTable {id : Nat} {bs before after : List Block} {t : Table}
    (h : splitAtTable id bs = some (before, t, after)) :
    bs = before ++ .table t :: after := by
  induction bs generalizing before with
  | nil => cases h
  | cons b bs ih =>
    have hfurther : ((splitAtTable id bs).map fun x => (b :: x.1, x.2.1, x.2.2)) =
        some (before, t, after) → b :: bs = before ++ .table t :: after := by
      intro hmap
      obtain ⟨⟨front, q, back⟩, hsplit, he⟩ := Option.map_eq_some_iff.mp hmap
      cases he
      exact congrArg (b :: ·) (ih hsplit)
    cases b with
    | table q =>
      simp only [splitAtTable] at h
      split at h
      · cases h
        rfl
      · exact hfurther h
    | paragraph | object | contents | pageBreak =>
      simp only [splitAtTable] at h
      exact hfurther h

/-- A block exchanged for one with the same frame. -/
theorem rewords_of_exchange {d : Document} {before after : List Block} {b b' : Block}
    (hb : d.blocks = before ++ b :: after) (hframe : b'.frame = b.frame) :
    d.Rewords { d with blocks := before ++ b' :: after } := by
  refine ⟨rfl, rfl, ?_, rfl⟩
  simp only [Document.frames, hb, List.map_append, List.map_cons, hframe]

theorem replaceInCell_rewords {d d' : Document} {r : TextRange} {place : CellPosition}
    {new : String} {e : Edit} (h : d.replaceInCell r place new = .ok (d', e)) : d.Rewords d' := by
  unfold replaceInCell at h
  split at h
  · cases h
  · rename_i before t after hsplit
    split at h
    · cases h
    · split at h
      · cases h
      · rename_i cell _ _
        cases h
        refine rewords_of_exchange (eq_of_splitAtTable hsplit) (congrArg Block.table ?_)
        generalize String.ofList (substitute cell.content.toList r.start r.stop new.toList) = text
        exact Table.mapCells_modifyCell (f := fun cell' => { cell' with content := text })
          (fun _ => rfl) t place

theorem eq_of_addressed {d : Document} {r : TextRange} {before after : List Block} {p : Paragraph}
    (h : d.addressed r = .ok (before, p, after)) : d.blocks = before ++ .paragraph p :: after := by
  unfold addressed at h
  split at h
  · cases h
  · rename_i hsplit
    split at h
    · cases h
    · cases h
      exact eq_of_splitAtParagraph hsplit

/-- A range replaced by text changes texts only. -/
theorem replaceText_rewords {d d' : Document} {r : TextRange} {new : String} {e : Edit}
    (h : d.replaceText r new = .ok (d', e)) : d.Rewords d' := by
  unfold replaceText at h
  split at h
  · exact replaceInCell_rewords h
  · split at h
    · cases h
    · rename_i haddressed
      cases h
      exact rewords_of_exchange (eq_of_addressed haddressed) rfl

/-- A range replaced by blocks changes the text of a cell, or it splits a
paragraph. -/
theorem splice_cases {d d' : Document} {r : TextRange} {bs : List Block} {e : Edit}
    (h : d.splice r bs = .ok (d', e)) :
    r.cell ≠ none ∧ d.Rewords d' ∨ r.cell = none ∧ Splits bs d d' := by
  unfold splice at h
  split at h
  · rename_i place hcell
    refine .inl ⟨?_, replaceInCell_rewords h⟩
    rw [hcell]
    exact Option.some_ne_none place
  · rename_i hcell
    split at h
    · cases h
    · rename_i haddressed
      cases h
      exact .inr ⟨hcell, _, _, _, _, _, eq_of_addressed haddressed, rfl⟩

theorem refreshContents_rewords (d : Document) : d.Rewords d.refreshContents := by
  refine ⟨rfl, rfl, ?_, rfl⟩
  simp only [frames, refreshContents, List.map_map, Function.comp_def, Block.frame_withEntries]

/-- What a step does. -/
theorem Step.rewords_or_splits {d d' : Document} (h : d.Step d') :
    d.Rewords d' ∨ ∃ bs, Splits bs d d' := by
  cases h with
  | replaceText h => exact .inl (replaceText_rewords h)
  | splice h =>
    rcases splice_cases h with ⟨-, h⟩ | ⟨-, h⟩
    · exact .inl h
    · exact .inr ⟨_, h⟩
  | refreshContents => exact .inl d.refreshContents_rewords

/-- No step touches the title or the metadata. -/
theorem Step.title_eq {d d' : Document} (h : d.Step d') :
    d'.title = d.title ∧ d'.metadata = d.metadata := by
  rcases h.rewords_or_splits with h | ⟨bs, before, p, after, head, tail, -, rfl⟩
  · exact ⟨h.title, h.metadata⟩
  · exact ⟨rfl, rfl⟩

/-- The document after an edit: the one that the edit made, or the one as it
was if the edit failed. -/
def afterEdit (d : Document) : Except StaleRange (Document × Edit) → Document
  | .ok (d', _) => d'
  | .error _ => d

theorem steps_afterEdit {d : Document} {result : Except StaleRange (Document × Edit)}
    (h : ∀ d' e, result = .ok (d', e) → d.Step d') :
    Relation.ReflTransGen Step d (d.afterEdit result) := by
  cases result with
  | ok done => exact .single (h done.1 done.2 rfl)
  | error e => exact .refl

theorem steps_splice (d : Document) (r : TextRange) (bs : List Block) :
    Relation.ReflTransGen Step d (d.afterEdit (d.splice r bs)) :=
  steps_afterEdit fun _ _ h => .splice h

theorem title_eq_of_steps {d d' : Document} (h : Relation.ReflTransGen Step d d') :
    d'.title = d.title ∧ d'.metadata = d.metadata := by
  induction h with
  | refl => exact ⟨rfl, rfl⟩
  | tail _ hstep ih => exact ⟨hstep.title_eq.1.trans ih.1, hstep.title_eq.2.trans ih.2⟩

end Document
end Compositor
