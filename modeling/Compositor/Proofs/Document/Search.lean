/-
# What a search finds

A search gives a range for each occurrence. In a numbered document the range
reads the occurrence, and of two ranges in one text the first one found ends
before the second one starts: texts of different blocks have different ids,
and the cells of a table have different places.

Key definition: `Document.found`.
Key theorems: `map_fst_found`, `Numbered.reads_of_mem_found`,
`Numbered.pairwise_found`.
-/
import Compositor.Document.Query
import Compositor.Proofs.Document.Following
import Compositor.Proofs.Text.Occurrences

namespace Compositor
open Text

/-- The occurrences in one text of a block: for each its range and what it is. -/
def foundIn (p : Pattern) (block : Nat) (cell : Option CellPosition) (s : List Char) :
    List (TextRange × List Char) :=
  (p.placed s).map fun o => (⟨block, cell, o.1.1, o.1.2⟩, o.2)

/-- The occurrences in a block. -/
def Block.found (p : Pattern) : Block → List (TextRange × List Char)
  | .paragraph para => foundIn p para.id none para.chars
  | .table t => t.cells.flatMap fun c => foundIn p t.id (some c.1) c.2.content.toList
  | _ => []

/-- The occurrences of a pattern, in document order: for each its range and
what it is. -/
def Document.found (p : Pattern) (d : Document) : List (TextRange × List Char) :=
  d.blocks.flatMap (Block.found p)

/-! ### The ranges are those of the search -/

theorem map_fst_foundIn (p : Pattern) (block : Nat) (cell : Option CellPosition) (s : List Char) :
    (foundIn p block cell s).map Prod.fst = rangesIn p block cell s := by
  rw [foundIn, rangesIn, ← map_fst_placed, List.map_map, List.map_map]
  rfl

theorem map_snd_foundIn (p : Pattern) (block : Nat) (cell : Option CellPosition) (s : List Char) :
    (foundIn p block cell s).map Prod.snd = (p.cut s).occurrences.map Occurrence.found := by
  rw [foundIn, ← map_snd_placed, List.map_map]
  rfl

/-- Ranges in a text that the edits have left alone. -/
theorem map_follow_foundIn {p : Pattern} {block : Nat} {cell : Option CellPosition}
    {s : List Char} {edits : List Edit}
    (h : ∀ o ∈ foundIn p block cell s, o.1.follow edits = some o.1) :
    ((foundIn p block cell s).map Prod.fst).map (·.follow edits) =
      (p.spans s).map fun span => some ⟨block, cell, span.1, span.2⟩ := by
  have hranges : (foundIn p block cell s).map (fun o => some o.1) =
      (rangesIn p block cell s).map some := by
    rw [← map_fst_foundIn, List.map_map]
    rfl
  rw [List.map_map]
  refine (List.map_congr_left h).trans (hranges.trans ?_)
  rw [rangesIn, List.map_map]
  rfl

theorem Document.map_fst_found (p : Pattern) (d : Document) :
    (d.found p).map Prod.fst = d.search p := by
  rw [found, search, List.map_flatMap]
  congr 1
  funext b
  cases b with
  | paragraph para => exact map_fst_foundIn p para.id none para.chars
  | table t =>
    simp only [Block.found, Block.search, List.map_flatMap, map_fst_foundIn]
  | object | contents | pageBreak => rfl

/-- What was found occurs in one of the texts. -/
theorem exists_of_mem_found {p : Pattern} {d : Document} {o : TextRange × List Char}
    (h : o ∈ d.found p) : ∃ s, o.2 ∈ (p.cut s).occurrences.map Occurrence.found := by
  have hin : ∀ {block cell s}, o ∈ foundIn p block cell s →
      o.2 ∈ (p.cut s).occurrences.map Occurrence.found := by
    intro block cell s h
    rw [← map_snd_foundIn p block cell s]
    exact List.mem_map_of_mem h
  obtain ⟨b, -, ho⟩ := List.mem_flatMap.mp h
  cases b with
  | paragraph para => exact ⟨_, hin ho⟩
  | table t =>
    obtain ⟨c, -, ho⟩ := List.mem_flatMap.mp ho
    exact ⟨_, hin ho⟩
  | object | contents | pageBreak => cases ho

/-! ### The ranges read what was found -/

theorem Table.cell?_of_mem_cells {t : Table} {place : CellPosition} {cell : Cell}
    (h : (place, cell) ∈ t.cells) : t.cell? place = some cell := by
  obtain ⟨⟨row, i⟩, hrow, h⟩ := List.mem_flatMap.mp h
  obtain ⟨⟨c, j⟩, hc, he⟩ := List.mem_map.mp h
  cases he
  have hi := List.mem_zipIdx_iff_getElem?.mp hrow
  have hj := List.mem_zipIdx_iff_getElem?.mp hc
  simp only at hi hj
  rw [cell?, hi, Option.bind_some, hj]

theorem slice?_of_mem_foundIn {p : Pattern} {block : Nat} {cell : Option CellPosition}
    {s found : List Char} {r : TextRange} (h : (r, found) ∈ foundIn p block cell s) :
    r.block = block ∧ r.cell = cell ∧ slice? s r.start r.stop = some found := by
  obtain ⟨⟨span, found'⟩, ho, he⟩ := List.mem_map.mp h
  cases he
  exact ⟨rfl, rfl, slice?_of_mem_placed ho⟩

theorem Document.Numbered.reads_of_mem_found {d : Document} (h : d.Numbered) {p : Pattern}
    {r : TextRange} {found : List Char} (hr : (r, found) ∈ d.found p) : d.Reads r found := by
  obtain ⟨b, hb, hr⟩ := List.mem_flatMap.mp hr
  cases b with
  | paragraph para =>
    obtain ⟨hblock, hcell, hslice⟩ := slice?_of_mem_foundIn hr
    refine ⟨para.chars, ?_, hslice⟩
    rw [hblock, hcell]
    exact h.textAt_paragraph hb
  | table t =>
    obtain ⟨⟨place, cell⟩, hc, hr⟩ := List.mem_flatMap.mp hr
    obtain ⟨hblock, hcell, hslice⟩ := slice?_of_mem_foundIn hr
    refine ⟨cell.content.toList, ?_, hslice⟩
    rw [hblock, hcell]
    exact h.textAt_cell hb (Table.cell?_of_mem_cells hc)
  | object | contents | pageBreak => cases hr

/-! ### The ranges come in order -/

theorem pairwise_foundIn (p : Pattern) (block : Nat) (cell : Option CellPosition) (s : List Char) :
    (foundIn p block cell s).Pairwise fun o o' => o.1.Before o'.1 := by
  have hspans : ((p.placed s).map Prod.fst).Pairwise fun a b => a.2 ≤ b.1 := by
    rw [map_fst_placed]
    exact pairwise_spans p s
  refine List.pairwise_map.mpr ?_
  exact (List.pairwise_map.mp hspans).imp fun hle _ _ => hle

theorem pairwise_zipIdx {α : Type} (l : List α) :
    l.zipIdx.Pairwise fun a b => a.2 ≠ b.2 := by
  have h : (l.zipIdx.map Prod.snd).Nodup := by
    rw [List.zipIdx_map_snd]
    exact List.nodup_range'
  exact List.pairwise_map.mp h

theorem Table.pairwise_cells (t : Table) : t.cells.Pairwise fun a b => a.1 ≠ b.1 := by
  refine List.pairwise_flatMap.mpr ⟨?_, ?_⟩
  · rintro ⟨row, i⟩ -
    refine List.pairwise_map.mpr ((pairwise_zipIdx row).imp ?_)
    intro a b hne he
    exact hne (congrArg CellPosition.column he)
  · refine (pairwise_zipIdx t.allRows).imp ?_
    intro a b hne x hx y hy he
    obtain ⟨c, -, rfl⟩ := List.mem_map.mp hx
    obtain ⟨c', -, rfl⟩ := List.mem_map.mp hy
    exact hne (congrArg CellPosition.row he)

theorem id?_of_mem_found {p : Pattern} {b : Block} {o : TextRange × List Char}
    (h : o ∈ b.found p) : b.id? = some o.1.block := by
  obtain ⟨r, found⟩ := o
  cases b with
  | paragraph para => exact congrArg some (slice?_of_mem_foundIn h).1.symm
  | table t =>
    obtain ⟨c, -, h⟩ := List.mem_flatMap.mp h
    exact congrArg some (slice?_of_mem_foundIn h).1.symm
  | object | contents | pageBreak => cases h

theorem pairwise_blockFound (p : Pattern) (b : Block) :
    (b.found p).Pairwise fun o o' => o.1.Before o'.1 := by
  cases b with
  | paragraph para => exact pairwise_foundIn p para.id none para.chars
  | table t =>
    refine List.pairwise_flatMap.mpr ⟨fun c _ => pairwise_foundIn p _ _ _, ?_⟩
    refine t.pairwise_cells.imp ?_
    rintro a b hne ⟨r, x⟩ hr ⟨r', x'⟩ hr' - hcell
    obtain ⟨-, hc, -⟩ := slice?_of_mem_foundIn hr
    obtain ⟨-, hc', -⟩ := slice?_of_mem_foundIn hr'
    rw [hc, hc'] at hcell
    exact absurd (Option.some.inj hcell) hne
  | object | contents | pageBreak => exact List.Pairwise.nil

theorem Document.Numbered.pairwise_found {d : Document} (h : d.Numbered) (p : Pattern) :
    (d.found p).Pairwise fun o o' => o.1.Before o'.1 := by
  refine List.pairwise_flatMap.mpr ⟨fun b _ => pairwise_blockFound p b, ?_⟩
  have hdistinct : d.blocks.Pairwise fun b b' => ∀ id, b.id? = some id → b'.id? ≠ some id := by
    refine (List.pairwise_filterMap.mp h.distinct).imp ?_
    intro b b' hne id hid hid'
    exact hne id hid id hid' rfl
  refine hdistinct.imp ?_
  intro b b' hne o ho o' ho' hblock
  have hid := id?_of_mem_found ho
  rw [hblock] at hid
  exact absurd (id?_of_mem_found ho') (hne _ hid)

end Compositor
