/-
# Tables cell by cell

A table is known by its cells: if two tables have one id, one title and as
many rows, and every place has one cell in both, they are one table. So when
every cell of a table has been changed, each at its time, the table is the one
with all its cells changed at once.

Key definition: `Table.AlikeBut`.
Key theorems: `mem_cells_iff`, `eq_of_cell?_eq`, `AlikeBut.eq_mapCells`.
-/
import Compositor.Proofs.Document.Search
import Compositor.Proofs.Document.Steps

namespace Compositor.Table

theorem mem_cells_iff {t : Table} {place : CellPosition} {cell : Cell} :
    (place, cell) ∈ t.cells ↔ t.cell? place = some cell := by
  constructor
  · exact cell?_of_mem_cells
  · intro h
    obtain ⟨row, hrow, hcell⟩ := Option.bind_eq_some_iff.mp h
    refine List.mem_flatMap.mpr ⟨(row, place.row), List.mem_zipIdx_iff_getElem?.mpr hrow, ?_⟩
    exact List.mem_map.mpr ⟨(cell, place.column), List.mem_zipIdx_iff_getElem?.mpr hcell, rfl⟩

theorem cell?_mapCells (f : Cell → Cell) (t : Table) (place : CellPosition) :
    (t.mapCells f).cell? place = (t.cell? place).map f := by
  have hrows : (t.mapCells f).allRows = t.allRows.map (·.map f) := rfl
  unfold cell?
  rw [hrows, List.getElem?_map]
  cases t.allRows[place.row]? with
  | none => rfl
  | some row => exact List.getElem?_map

/-- A table is known by its cells. -/
theorem eq_of_cell?_eq {t t' : Table} (hid : t'.id = t.id) (htitle : t'.title = t.title)
    (hrows : t'.rows.length = t.rows.length)
    (hcells : ∀ place, t'.cell? place = t.cell? place) : t' = t := by
  have hall : t'.allRows = t.allRows := by
    refine List.ext_getElem (congrArg (· + 1) hrows) fun i hi hi' => ?_
    refine List.ext_getElem? fun j => ?_
    have hplace := hcells ⟨i, j⟩
    unfold cell? at hplace
    rwa [List.getElem?_eq_getElem hi, List.getElem?_eq_getElem hi'] at hplace
  obtain ⟨hheaders, hrest⟩ := List.cons.inj hall
  cases t
  cases t'
  simp_all

/-- The tables have one shape, and they differ in the cells at the given
places at most. -/
structure AlikeBut (places : List CellPosition) (t t' : Table) : Prop where
  id : t'.id = t.id
  title : t'.title = t.title
  rows : t'.rows.length = t.rows.length
  others : ∀ place, place ∉ places → t'.cell? place = t.cell? place

namespace AlikeBut

variable {t t' t'' : Table} {places places' : List CellPosition}

theorem refl (t : Table) : AlikeBut places t t := ⟨rfl, rfl, rfl, fun _ _ => rfl⟩

theorem trans (h : AlikeBut places t t') (h' : AlikeBut places t' t'') :
    AlikeBut places t t'' :=
  ⟨h'.id.trans h.id, h'.title.trans h.title, h'.rows.trans h.rows,
    fun place hplace => (h'.others place hplace).trans (h.others place hplace)⟩

theorem mono (h : AlikeBut places t t') (hsub : ∀ place ∈ places, place ∈ places') :
    AlikeBut places' t t' :=
  ⟨h.id, h.title, h.rows, fun place hplace => h.others place fun hmem => hplace (hsub place hmem)⟩

theorem modifyCell (t : Table) (place : CellPosition) (f : Cell → Cell) :
    AlikeBut [place] t (t.modifyCell place f) := by
  refine ⟨t.id_modifyCell place f, ?_, ?_, fun place' hplace => ?_⟩
  · unfold Table.modifyCell
    split <;> rfl
  · unfold Table.modifyCell
    split
    · rfl
    · exact List.length_modify _ _ _
  · exact t.cell?_modifyCell_of_ne (fun he => hplace (List.mem_singleton.mpr he)) f

/-- A table of which every cell has been changed. -/
theorem eq_mapCells {f : Cell → Cell} (h : AlikeBut (t.cells.map Prod.fst) t t')
    (hcells : ∀ place cell, (place, cell) ∈ t.cells → t'.cell? place = some (f cell)) :
    t' = t.mapCells f := by
  refine eq_of_cell?_eq h.id h.title ?_ fun place => ?_
  · rw [h.rows]
    exact (List.length_map _).symm
  · rw [cell?_mapCells]
    cases hcell : t.cell? place with
    | some cell => exact hcells place cell (mem_cells_iff.mpr hcell)
    | none =>
      have hnot : place ∉ t.cells.map Prod.fst := by
        intro hmem
        obtain ⟨⟨place', cell⟩, hc, rfl⟩ := List.mem_map.mp hmem
        rw [mem_cells_iff.mp hc] at hcell
        cases hcell
      rw [h.others place hnot, hcell]
      rfl

end AlikeBut

end Compositor.Table
