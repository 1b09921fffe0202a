/-
# What an import keeps of a text

The ink of a text is its characters that are not blank. Joining runs, putting
spaces between them, trimming a cell and leaving out blank paragraphs change
no ink, so the ink of an imported document is that of the runs that were
read. In a paragraph of the body these are all runs; in a cell a tracked
insertion is passed over. So nothing is lost just if no insertion in a cell
holds any ink. Rows that have cells keep their number of cells.

Key definitions: `ink`, `BodyItem.ink`, `BodyItem.inkRead`, `Document.ink`.
Key theorems: `ink_importBody`, `inkRead_eq_iff`, `widths_importBody`,
`loadDocument_ink_iff`.
-/
import Mathlib.Data.List.Flatten
import Compositor.File.Document
import Compositor.Proofs.Document.Numbered

namespace Compositor
open Text

/-! ### Ink -/

/-- The characters of a text that are not blank. -/
def Text.ink (s : List Char) : List Char := s.filter fun c => !isBlank c

namespace Text

@[simp] theorem ink_nil : ink [] = [] := rfl

@[simp] theorem ink_append (s t : List Char) : ink (s ++ t) = ink s ++ ink t :=
  List.filter_append s t

theorem ink_flatMap {α : Type} (f : α → List Char) (l : List α) :
    ink (l.flatMap f) = l.flatMap fun a => ink (f a) :=
  List.filter_flatMap

theorem ink_eq_nil_iff {s : List Char} : ink s = [] ↔ allBlank s = true := by
  simp [ink, allBlank]

theorem ink_cons_of_blank {c : Char} (hc : isBlank c = true) (s : List Char) :
    ink (c :: s) = ink s :=
  List.filter_cons_of_neg (by simp [hc])

theorem ink_skipBlanks (s : List Char) : ink (skipBlanks s) = ink s := by
  obtain ⟨gap, hgap, hs⟩ := skipBlanks_split s
  have hnone : ink gap = [] := ink_eq_nil_iff.mpr (List.all_eq_true.mpr hgap)
  calc ink (skipBlanks s) = ink gap ++ ink (skipBlanks s) := by rw [hnone, List.nil_append]
    _ = ink s := by rw [← ink_append, ← hs]

theorem ink_reverse (s : List Char) : ink s.reverse = (ink s).reverse := List.filter_reverse

theorem ink_trim (s : List Char) : ink (trim s) = ink s := by
  rw [trim, dropTrailingBlanks, ink_reverse, ink_skipBlanks, ink_reverse, List.reverse_reverse,
    ink_skipBlanks]

end Text

theorem Run.flatMap_chars_consolidate (rs : List Run) :
    (consolidate rs).flatMap chars = rs.flatMap chars := by
  induction rs with
  | nil => rfl
  | cons r rs ih =>
    rw [List.flatMap_cons, ← ih, consolidate]
    cases consolidate rs with
    | nil => rfl
    | cons q qs =>
      by_cases hsame : r.format.sameAs q.format = true <;> simp [hsame, chars]

/-! ### The ink of a document -/

/-- The cells of a row after row. -/
def Table.ink (t : Table) : List Char :=
  t.allRows.flatten.flatMap fun c => Text.ink c.content.toList

/-- The ink of a block's text. -/
def Block.ink : Block → List Char
  | .paragraph p => Text.ink p.chars
  | .table t => t.ink
  | _ => []

def Document.ink (d : Document) : List Char := d.blocks.flatMap Block.ink

theorem Block.ink_withId (b : Block) (id : Nat) : (b.withId id).ink = b.ink := by
  cases b <;> rfl

/-- The lengths of the rows that are not empty. -/
def widths {α : Type} (rows : List (List α)) : List Nat :=
  (rows.map List.length).filter (0 < ·)

/-- The numbers of cells in the rows of a table that have any. -/
def Block.widths? : Block → Option (List Nat)
  | .table t => some (widths t.allRows)
  | _ => none

theorem Block.widths?_withId (b : Block) (id : Nat) : (b.withId id).widths? = b.widths? := by
  cases b <;> rfl

namespace Word

/-! ### The ink of a body -/

/-- The ink of a run's texts. -/
def Run.ink (r : Run) : List Char :=
  r.parts.flatMap fun
    | .text s => Text.ink s.toList
    | _ => []

/-- All runs of an item, in the order of the text. -/
def BodyItem.runs : BodyItem → List Run
  | .paragraph p => p.runs
  | .table rows => rows.flatten.flatMap fun cell => cell.flatMap Paragraph.runs

/-- The runs of an item that are read. -/
def BodyItem.runsRead : BodyItem → List Run
  | .paragraph p => p.runs
  | .table rows => rows.flatten.flatMap fun cell => cell.flatMap fun p =>
      p.items.flatMap Item.cellRuns

/-- The ink of an item of the body. -/
def BodyItem.ink (item : BodyItem) : List Char := item.runs.flatMap Run.ink

/-- The ink of the runs that are read. -/
def BodyItem.inkRead (item : BodyItem) : List Char := item.runsRead.flatMap Run.ink

/-- The numbers of cells in the rows of a table that have any; `none` if no
row has. -/
def BodyItem.widths? : BodyItem → Option (List Nat)
  | .paragraph _ => none
  | .table rows => if widths rows = [] then none else some (widths rows)

theorem Run.ink_chars (r : Run) : Text.ink r.chars = r.ink := by
  rw [Run.chars, ink_flatMap, Run.ink]
  congr 1
  funext part
  cases part with
  | text s =>
    -- the line feeds that do not count are blank
    simp only [Part.chars, Text.ink, List.filter_filter]
    refine List.filter_congr fun c _ => ?_
    by_cases hc : c = '\n'
    · subst hc; decide
    · simp [hc]
  | tab => decide
  | lineBreak => decide
  | drawing => rfl

/-! ### Paragraphs -/

theorem Paragraph.ink_textRuns (p : Paragraph) :
    Text.ink (p.textRuns.flatMap Compositor.Run.chars) = p.runs.flatMap Run.ink := by
  rw [textRuns, Compositor.Run.flatMap_chars_consolidate, ink_flatMap]
  induction p.runs with
  | nil => rfl
  | cons r rs ih =>
    rw [List.filterMap_cons, List.flatMap_cons, ← Run.ink_chars]
    by_cases hr : r.chars.isEmpty = true
    · rw [if_pos hr, ih, List.isEmpty_iff.mp hr]
      rfl
    · rw [if_neg hr, List.flatMap_cons, ih, Compositor.Run.chars, String.toList_ofList]

theorem Paragraph.ink_block? (p : Paragraph) :
    p.block?.toList.flatMap Block.ink = p.runs.flatMap Run.ink := by
  rw [← p.ink_textRuns, block?]
  split
  · rename_i hblank
    symm
    rw [Option.toList_none, List.flatMap_nil, ink_flatMap, List.flatMap_eq_nil_iff]
    exact fun r hr => ink_eq_nil_iff.mpr (List.all_eq_true.mp hblank r hr)
  · simp [Block.ink, Compositor.Paragraph.chars]

theorem ink_numberedImages (next count : Nat) :
    (numberedImages next count).flatMap Block.ink = [] := by
  induction count generalizing next with
  | zero => rfl
  | succ count ih => rw [numberedImages, List.flatMap_cons, ih]; rfl

/-! ### Tables -/

theorem ink_joinSpaced (texts : List (List Char)) :
    Text.ink (joinSpaced texts) = texts.flatMap Text.ink := by
  suffices h : ∀ joined, Text.ink (texts.foldl (fun joined text =>
      if text.isEmpty then joined
      else if joined.isEmpty ∨ joined.getLast? = some ' ' then joined ++ text
      else joined ++ ' ' :: text) joined) = Text.ink joined ++ texts.flatMap Text.ink from h []
  induction texts with
  | nil => simp
  | cons text texts ih =>
    intro joined
    have hspace := ink_cons_of_blank (c := ' ') (by decide) text
    rw [List.foldl_cons, ih, List.flatMap_cons, ← List.append_assoc]
    congr 1
    split
    · simp_all
    · split <;> simp [hspace]

theorem ink_importCell (cell : Cell) :
    Text.ink (importCell cell).content.toList =
      (cell.flatMap fun p => p.items.flatMap Item.cellRuns).flatMap Run.ink := by
  rw [importCell, String.toList_ofList, ink_trim, ink_joinSpaced, List.flatMap_map]
  simp only [Run.ink_chars]

/-- The rows that have cells become the rows of the table that is put in,
whichever of them is its header. -/
theorem importTable?_eq (rows : List (List Cell)) :
    (importTable? rows = none ∧ rows.filter (!·.isEmpty) = []) ∨
      ∃ t, importTable? rows = some (.table t) ∧ rows.filter (!·.isEmpty) ≠ [] ∧
        t.allRows.filter (!·.isEmpty) = (rows.filter (!·.isEmpty)).map (·.map importCell) := by
  have hrows : (rows.map (·.map importCell)).filter (!·.isEmpty) =
      (rows.filter (!·.isEmpty)).map (·.map importCell) := by
    rw [List.filter_map]
    congr 2
    funext row
    simp
  unfold importTable?
  rw [hrows]
  cases hfilled : rows.filter (!·.isEmpty) with
  | nil => exact .inl ⟨rfl, rfl⟩
  | cons first others => 
    have hcells : ∀ row ∈ (first :: others).map (·.map importCell), (!row.isEmpty) = true := by
      intro row hrow
      rw [← hfilled, ← hrows] at hrow
      exact (List.mem_filter.mp hrow).2
    refine .inr ?_
    simp only [List.map_cons]
    split
    · exact ⟨_, rfl, nofun, List.filter_eq_self.mpr hcells⟩
    · exact ⟨_, rfl, nofun, List.filter_eq_self.mpr hcells⟩

theorem ink_importTable? (rows : List (List Cell)) :
    (importTable? rows).toList.flatMap Block.ink = (BodyItem.table rows).inkRead := by
  have hread : (BodyItem.table rows).inkRead =
      ((rows.filter (!·.isEmpty)).map (·.map importCell)).flatten.flatMap
        fun c => Text.ink c.content.toList := by
    rw [BodyItem.inkRead, BodyItem.runsRead, ← List.map_flatten, List.flatten_filter_not_isEmpty,
      List.flatMap_map, List.flatMap_assoc]
    simp only [ink_importCell]
  rw [hread]
  rcases importTable?_eq rows with ⟨hnone, hempty⟩ | ⟨t, hsome, -, hall⟩
  · rw [hnone, hempty]
    rfl
  · rw [hsome, ← hall, List.flatten_filter_not_isEmpty]
    simp [Block.ink, Table.ink]

theorem widths_eq {α : Type} (rows : List (List α)) :
    widths rows = (rows.filter (!·.isEmpty)).map List.length := by
  rw [widths, List.filter_map]
  congr 2
  funext row
  cases row <;> rfl

theorem widths?_importTable? (rows : List (List Cell)) :
    (importTable? rows).bind Block.widths? = (BodyItem.table rows).widths? := by
  rw [BodyItem.widths?, widths_eq]
  rcases importTable?_eq rows with ⟨hnone, hempty⟩ | ⟨t, hsome, hne, hall⟩
  · rw [hnone, hempty]
    rfl
  · rw [hsome, if_neg (by simpa using hne), Option.bind_some, Block.widths?, widths_eq, hall]
    simp

/-! ### The whole body -/

theorem ink_importBody (next : Nat) (body : List BodyItem) :
    (importBody next body).flatMap Block.ink = body.flatMap BodyItem.inkRead := by
  induction body generalizing next with
  | nil => rfl
  | cons item body ih =>
    cases item with
    | paragraph p =>
      rw [importBody, List.flatMap_append, List.flatMap_append, ih, p.ink_block?,
        ink_numberedImages, List.append_nil, List.flatMap_cons]
      rfl
    | table rows =>
      rw [importBody, List.flatMap_append, ih, ink_importTable?, List.flatMap_cons]

theorem widths_importBody (next : Nat) (body : List BodyItem) :
    (importBody next body).filterMap Block.widths? = body.filterMap BodyItem.widths? := by
  induction body generalizing next with
  | nil => rfl
  | cons item body ih =>
    cases item with
    | paragraph p =>
      have hblock : p.block?.toList.filterMap Block.widths? = [] := by
        rw [Paragraph.block?]
        split <;> rfl
      have himages : ∀ next count, (numberedImages next count).filterMap Block.widths? = [] := by
        intro next count
        induction count generalizing next with
        | zero => rfl
        | succ count ih => exact ih (next + 1)
      rw [importBody, List.filterMap_append, List.filterMap_append, hblock, himages, ih]
      rfl
    | table rows =>
      rw [importBody, List.filterMap_append, ih, List.filterMap_cons, ← widths?_importTable?]
      cases importTable? rows with
      | none => rfl
      | some b => cases hb : b.widths? <;> simp [hb]

/-! ### What is passed over -/

theorem flatMap_eq_iff_of_sublist {α β : Type} {f g : α → List β} {l : List α}
    (h : ∀ a ∈ l, (f a).Sublist (g a)) : l.flatMap f = l.flatMap g ↔ ∀ a ∈ l, f a = g a := by
  induction l with
  | nil => simp
  | cons a l ih =>
    obtain ⟨ha, hl⟩ := List.forall_mem_cons.mp h
    rw [List.flatMap_cons, List.flatMap_cons, List.forall_mem_cons, ← ih hl]
    constructor
    · intro heq
      have hfirst := ha.length_le
      have hothers := (List.Sublist.flatMap_right l hl).length_le
      have hlength := congrArg List.length heq
      rw [List.length_append, List.length_append] at hlength
      have hsame : (f a).length = (g a).length := by omega
      have hfa := ha.eq_of_length hsame
      rw [hfa] at heq
      exact ⟨hfa, List.append_cancel_left heq⟩
    · rintro ⟨hfa, hfl⟩
      rw [hfa, hfl]

theorem Item.cellRuns_sublist (i : Item) : i.cellRuns.Sublist i.runs := by
  cases i with
  | run r => exact .refl _
  | insertion runs => exact List.nil_sublist _
  | bookmark name => exact .refl _

theorem Item.cellRuns_ink_eq_iff (i : Item) :
    i.cellRuns.flatMap Run.ink = i.runs.flatMap Run.ink ↔
      ∀ runs, i = .insertion runs → ∀ r ∈ runs, r.ink = [] := by
  cases i with
  | insertion runs => 
    constructor
    · rintro h _ ⟨⟩
      exact List.flatMap_eq_nil_iff.mp h.symm
    · intro h
      exact (List.flatMap_eq_nil_iff.mpr (h runs rfl)).symm
  | _ => simp [cellRuns, runs]

theorem Paragraph.cellRuns_ink_eq_iff (p : Paragraph) :
    (p.items.flatMap Item.cellRuns).flatMap Run.ink = p.runs.flatMap Run.ink ↔
      ∀ runs, .insertion runs ∈ p.items → ∀ r ∈ runs, r.ink = [] := by
  rw [runs, List.flatMap_assoc, List.flatMap_assoc,
    flatMap_eq_iff_of_sublist fun i _ => i.cellRuns_sublist.flatMap Run.ink]
  simp only [Item.cellRuns_ink_eq_iff]
  exact ⟨fun h runs hmem => h _ hmem runs rfl, fun h i hi runs hruns => h runs (hruns ▸ hi)⟩

theorem Paragraph.cellRuns_sublist (p : Paragraph) :
    (p.items.flatMap Item.cellRuns).Sublist p.runs :=
  List.Sublist.flatMap_right _ fun i _ => i.cellRuns_sublist

theorem BodyItem.runsRead_sublist (item : BodyItem) : item.runsRead.Sublist item.runs := by
  cases item with
  | paragraph p => exact .refl _
  | table rows =>
    exact List.Sublist.flatMap_right _ fun cell _ =>
      List.Sublist.flatMap_right _ fun p _ => p.cellRuns_sublist

theorem BodyItem.inkRead_eq_iff (item : BodyItem) :
    item.inkRead = item.ink ↔
      ∀ rows, item = .table rows → ∀ row ∈ rows, ∀ cell ∈ row, ∀ p ∈ cell,
        ∀ runs, .insertion runs ∈ p.items → ∀ r ∈ runs, r.ink = [] := by
  cases item with
  | paragraph p => simp [inkRead, ink, runsRead, runs]
  | table rows =>
    rw [inkRead, ink, runsRead, runs, List.flatMap_assoc, List.flatMap_assoc,
      flatMap_eq_iff_of_sublist fun cell _ => (List.Sublist.flatMap_right cell
        fun p _ => p.cellRuns_sublist).flatMap Run.ink]
    have hcell : ∀ cell : Cell,
        (cell.flatMap fun p => p.items.flatMap Item.cellRuns).flatMap Run.ink =
            (cell.flatMap Paragraph.runs).flatMap Run.ink ↔
          ∀ p ∈ cell, ∀ runs, .insertion runs ∈ p.items → ∀ r ∈ runs, r.ink = [] := by
      intro cell
      rw [List.flatMap_assoc, List.flatMap_assoc,
        flatMap_eq_iff_of_sublist fun p _ => p.cellRuns_sublist.flatMap Run.ink]
      simp only [Paragraph.cellRuns_ink_eq_iff]
    simp only [hcell, List.mem_flatten, BodyItem.table.injEq]
    constructor
    · rintro h _ rfl row hrow cell hcell
      exact h cell ⟨row, hrow, hcell⟩
    · rintro h cell ⟨row, hrow, hcell⟩
      exact h rows rfl row hrow cell hcell

/-- Nothing is lost just if no insertion in a cell holds any ink. -/
theorem inkRead_eq_iff (body : List BodyItem) :
    body.flatMap BodyItem.inkRead = body.flatMap BodyItem.ink ↔
      ∀ rows, .table rows ∈ body → ∀ row ∈ rows, ∀ cell ∈ row, ∀ p ∈ cell,
        ∀ runs, .insertion runs ∈ p.items → ∀ r ∈ runs, r.ink = [] := by
  rw [flatMap_eq_iff_of_sublist fun item _ => item.runsRead_sublist.flatMap Run.ink]
  simp only [BodyItem.inkRead_eq_iff]
  constructor
  · intro h rows hmem
    exact h _ hmem rows rfl
  · intro h item hitem rows hrows
    exact h rows (hrows ▸ hitem)

end Word

/-! ### Documents that are imported -/

theorem Document.ink_ofBlocks (title : String) (blocks : List Block) :
    (ofBlocks title blocks).ink = blocks.flatMap Block.ink := by
  rw [ink, List.flatMap_def, List.flatMap_def]
  exact congrArg List.flatten (map_numberBlocks Block.ink_withId 1 blocks)

theorem Document.widths_ofBlocks (title : String) (blocks : List Block) :
    (ofBlocks title blocks).blocks.filterMap Block.widths? = blocks.filterMap Block.widths? := by
  have hmap := congrArg (List.filterMap id) (map_numberBlocks Block.widths?_withId 1 blocks)
  rwa [List.filterMap_map, List.filterMap_map] at hmap

namespace FileSystem

theorem loadDocument_of_readWord {fs : FileSystem} {path : String} {body : List Word.BodyItem}
    (hextension : Path.extension path = wordExtension) (hread : fs.readWord path = .ok body) :
    fs.loadDocument path = .ok
      { Document.ofBlocks (titleOf path) (Word.importBody 1 body) with
        metadata := { filePath := path } } := by
  have hsnapshot : wordExtension ≠ snapshotExtension := by decide
  rw [loadDocument, hextension, if_neg hsnapshot, if_pos rfl, hread]
  rfl

/-- **An import loses a text only in a cell.** The document has the ink of the
body if and only if no tracked insertion in a cell holds any ink. In every
case the ink of the runs that are read is all there, in the order of the
body, and the rows that have cells keep their number. -/
theorem loadDocument_ink_iff {fs : FileSystem} {path : String} {body : List Word.BodyItem}
    (hextension : Path.extension path = wordExtension) (hread : fs.readWord path = .ok body) :
    ∃ d, fs.loadDocument path = .ok d ∧
      (d.ink = body.flatMap Word.BodyItem.ink ↔
        ∀ rows, .table rows ∈ body → ∀ row ∈ rows, ∀ cell ∈ row, ∀ p ∈ cell,
          ∀ runs, .insertion runs ∈ p.items → ∀ r ∈ runs, r.ink = []) ∧
      d.ink = body.flatMap Word.BodyItem.inkRead ∧
      d.blocks.filterMap Block.widths? = body.filterMap Word.BodyItem.widths? := by
  refine ⟨_, loadDocument_of_readWord hextension hread, ?_⟩
  generalize hd : Document.ofBlocks (titleOf path) (Word.importBody 1 body) = d
  have hink : d.ink = body.flatMap Word.BodyItem.inkRead := by
    rw [← hd, Document.ink_ofBlocks, Word.ink_importBody]
  have hwidths : d.blocks.filterMap Block.widths? = body.filterMap Word.BodyItem.widths? := by
    rw [← hd, Document.widths_ofBlocks, Word.widths_importBody]
  refine ⟨?_, hink, hwidths⟩
  rw [← Word.inkRead_eq_iff, ← hink]
  rfl

/-- A body with one cell that holds an item. -/
def cellBody (item : Word.Item) : List Word.BodyItem := [.table [[[{ items := [item] }]]]]

/-- A file with that body. -/
def cellFile (item : Word.Item) : FileSystem :=
  { entries := [(["a.docx"], .file (.word (cellBody item)))] }

/-- A run in a cell is imported. -/
theorem loads_run_of_cell :
    Path.extension "a.docx" = wordExtension ∧
      (cellFile (.run { parts := [.text "x"] })).readWord "a.docx" =
        .ok (cellBody (.run { parts := [.text "x"] })) ∧
      ∃ d, (cellFile (.run { parts := [.text "x"] })).loadDocument "a.docx" = .ok d ∧
        d.ink = ['x'] ∧ d.blocks.filterMap Block.widths? = [[1]] := by
  have hextension : Path.extension "a.docx" = wordExtension := by decide +kernel
  have hread : (cellFile (.run { parts := [.text "x"] })).readWord "a.docx" =
      .ok (cellBody (.run { parts := [.text "x"] })) := by rfl
  obtain ⟨d, hload, -, hink, hwidths⟩ := loadDocument_ink_iff hextension hread
  exact ⟨hextension, hread, d, hload, hink.trans (by decide), hwidths.trans (by decide)⟩

/-- The same run as a tracked insertion is not. -/
theorem loses_insertion_of_cell :
    (cellBody (.insertion [{ parts := [.text "x"] }])).flatMap Word.BodyItem.ink = ['x'] ∧
      ((cellFile (.insertion [{ parts := [.text "x"] }])).loadDocument "a.docx").toOption.map
        Document.ink = some [] := by
  decide +kernel

end FileSystem
end Compositor
