/-
# Fixtures of a document

The tables and the objects of a document, in document order, are its fixtures:
of a table all but the texts of its cells, so its id, its rows and its columns,
and of an object the name and the kind. How many tables and how many objects of
each kind there are can be read off the fixtures. Text put for a range leaves
them alone, and so do a table of contents put for a range, the repair of the
formulas and the refresh of the tables of contents.

Key definitions: `Block.fixture?`, `Document.fixtures`.
Key theorems: `length_objects`, `length_tables`, `Rewords.fixtures_eq`,
`fixtures_replaceText`, `fixtures_splice_contents`, `fixturesOf_repairBlocks`.
-/
import Compositor.Document.Formulas
import Compositor.Proofs.Document.Steps

namespace Compositor

/-- The block without the texts of its cells or without its properties, if it is
a table or an object. -/
def Block.fixture? : Block → Option Block
  | .table t => some (.table (t.mapCells Cell.frame))
  | .object o => some (.object { o with properties := .empty })
  | _ => none

/-- The fixtures among some blocks. -/
def fixturesOf (bs : List Block) : List Block := bs.filterMap Block.fixture?

theorem fixturesOf_cons (b : Block) (bs : List Block) :
    fixturesOf (b :: bs) = b.fixture?.toList ++ fixturesOf bs := by
  unfold fixturesOf
  cases h : b.fixture? with
  | none => rw [List.filterMap_cons_none h]; rfl
  | some f => rw [List.filterMap_cons_some h]; rfl

theorem fixturesOf_append (bs cs : List Block) :
    fixturesOf (bs ++ cs) = fixturesOf bs ++ fixturesOf cs := List.filterMap_append

namespace Block

theorem fixture?_frame (b : Block) : b.frame.fixture? = b.fixture? := by
  have hcells : ∀ t : Table,
      (t.mapCells Cell.frame).mapCells Cell.frame = t.mapCells Cell.frame := by
    intro t
    have hrow : ∀ row : List Cell, (row.map Cell.frame).map Cell.frame = row.map Cell.frame := by
      intro row
      rw [List.map_map]
      rfl
    simp only [Table.mapCells, hrow, List.map_map, Function.comp_def]
  cases b with
  | table t => exact congrArg (fun t => some (table t)) (hcells t)
  | paragraph | object | contents | pageBreak => rfl

end Block

namespace Document

/-- The tables and objects of a document, in document order. -/
def fixtures (d : Document) : List Block := fixturesOf d.blocks

/-! ### Numbers of fixtures -/

/-- The number of objects of a kind can be read off the fixtures. -/
theorem length_objects (d : Document) (kind : ObjectKind) :
    (d.objects kind).length =
      d.fixtures.countP fun f => (f.object?.map (·.kind)) = some kind := by
  unfold objects allObjects fixtures fixturesOf
  rw [← List.countP_eq_length_filter, List.countP_filterMap, List.countP_filterMap]
  refine List.countP_congr fun b _ => ?_
  cases b with
  | object o => simp [Block.object?, Block.fixture?]
  | paragraph | table | contents | pageBreak => simp [Block.object?, Block.fixture?]

/-- The number of tables can be read off the fixtures. -/
theorem length_tables (d : Document) :
    d.tables.length = d.fixtures.countP fun f => f.table?.isSome := by
  unfold tables fixtures fixturesOf
  rw [List.length_filterMap_eq_countP, List.countP_filterMap]
  refine List.countP_congr fun b _ => ?_
  cases b <;> simp [Block.table?, Block.fixture?]

/-! ### What leaves the fixtures alone -/

theorem filterMap_fixture?_frames (d : Document) :
    d.frames.filterMap Block.fixture? = d.fixtures := by
  simp only [frames, fixtures, fixturesOf, List.filterMap_map, Function.comp_def,
    Block.fixture?_frame]

theorem Rewords.fixtures_eq {d d' : Document} (h : d.Rewords d') : d'.fixtures = d.fixtures := by
  rw [← filterMap_fixture?_frames, h.frames, filterMap_fixture?_frames]

theorem fixturesOf_half (p : Paragraph) : fixturesOf (half p) = [] := by
  unfold half
  split <;> rfl

/-- A split at which a table of contents comes in. -/
theorem Splits.fixtures_eq {c : TableOfContents} {d d' : Document}
    (h : Splits [.contents c] d d') : d'.fixtures = d.fixtures := by
  obtain ⟨before, p, after, head, tail, hb, rfl⟩ := h
  have hadopted : fixturesOf (adoptBlocks d.objectNames d.nextId [.contents c]).1 = [] := rfl
  unfold fixtures
  rw [hb]
  simp only [fixturesOf_append, fixturesOf_half, hadopted, List.append_nil]
  rfl

theorem fixtures_replaceText {d d' : Document} {r : TextRange} {new : String} {e : Edit}
    (h : d.replaceText r new = .ok (d', e)) : d'.fixtures = d.fixtures :=
  (replaceText_rewords h).fixtures_eq

theorem fixtures_splice_contents {d d' : Document} {r : TextRange} {c : TableOfContents}
    {e : Edit} (h : d.splice r [.contents c] = .ok (d', e)) : d'.fixtures = d.fixtures := by
  rcases splice_cases h with ⟨-, h⟩ | ⟨-, h⟩
  · exact h.fixtures_eq
  · exact h.fixtures_eq

theorem fixtures_refreshContents (d : Document) : d.refreshContents.fixtures = d.fixtures :=
  d.refreshContents_rewords.fixtures_eq

end Document

/-- A repair changes a property of formulas at most. -/
theorem fixturesOf_repairBlocks (bs : List Block) :
    fixturesOf (repairBlocks bs).blocks = fixturesOf bs := by
  induction bs with
  | nil => rfl
  | cons b bs ih =>
    unfold repairBlocks
    split
    · -- no formula: the block stays as it is
      show fixturesOf (b :: (repairBlocks bs).blocks) = _
      rw [fixturesOf_cons, fixturesOf_cons, ih]
    · rename_i o ho
      split
      · rfl
      · rename_i text htext
        have hb : b = .object o := by
          have hobject : b.object? = some o := (Option.filter_eq_some_iff.mp ho).1
          cases b with
          | object o' => exact congrArg Block.object (Option.some.inj hobject)
          | paragraph | table | contents | pageBreak => cases hobject
        show fixturesOf (.object (o.withFormula _) :: (repairBlocks bs).blocks) = _
        rw [fixturesOf_cons, ih, hb, fixturesOf_cons]
        rfl

end Compositor
