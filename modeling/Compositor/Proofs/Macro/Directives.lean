/-
# Directives and what they bring in

An include directive brings in the document in its file, if the file exists.
The directives of a document are at level 1, and those of a document brought
in by a directive are one level below it. These definitions look at
documents and files only; no pass is made.

Key definitions: `Block.directives`, `Document.directivesRead`,
`Workspace.brought?`, `Workspace.AtLevel`, `Workspace.Reaches`, `Workspace.ClearCells`.
Key theorems: `directives_paragraph`, `map_found_directives`,
`not_allBlank_of_cuts`, `atLevel_succ_iff`.
-/
import Compositor.Macro.Include
import Compositor.Proofs.Document.Search
import Compositor.Proofs.Macro.Tokens
import Compositor.Proofs.Text.Pieces

namespace Compositor
open Text Macro

/-! ### Directives in blocks -/

/-- The include directives in a block, as they stand there. -/
def Block.directives (b : Block) : List String :=
  (b.found includePattern).map fun o => String.ofList o.2

/-- The include directives in several blocks. -/
def directivesOf (bs : List Block) : List String := bs.flatMap Block.directives

/-- The texts that a document gives for the include directives found in it. -/
def Document.directivesRead (d : Document) : Except StaleRange (List String) :=
  (d.search includePattern).mapM d.rangeText

/-- The include directives among the occurrences in a text. -/
def directivesAt (os : List Occurrence) : List String := os.map fun o => String.ofList o.found

theorem map_foundIn_directives (block : Nat) (cell : Option CellPosition) (s : List Char) :
    (foundIn includePattern block cell s).map (fun o => String.ofList o.2) =
      directivesAt (includePattern.cut s).occurrences := by
  have hfound := congrArg (List.map String.ofList) (map_snd_foundIn includePattern block cell s)
  rw [List.map_map, List.map_map] at hfound
  exact hfound

theorem directives_paragraph (p : Paragraph) :
    (Block.paragraph p).directives = directivesAt (includePattern.cut p.chars).occurrences :=
  map_foundIn_directives p.id none p.chars

theorem directives_table (t : Table) :
    (Block.table t).directives =
      t.cells.flatMap fun c =>
        directivesAt (includePattern.cut c.2.content.toList).occurrences := by
  rw [Block.directives, Block.found, List.map_flatMap]
  simp only [map_foundIn_directives]

theorem map_found_directives (d : Document) :
    (d.found includePattern).map (fun o => String.ofList o.2) = directivesOf d.blocks :=
  List.map_flatMap

/-- Each occurrence in a text is a directive that includes a path. -/
theorem exists_of_cuts {c : Cut} (h : includeRecogniser.Cuts c) {o : Occurrence}
    (ho : o ∈ c.occurrences) :
    ∃ argument, '\n' ∉ argument ∧ o.found = (includeToken argument).chars := by
  have hfound : o.found ∈ (includeRecogniser.cutBy c.text).occurrences.map Occurrence.found := by
    rw [h]
    exact List.mem_map_of_mem ho
  obtain ⟨u, rest, hfind⟩ := find_of_mem_cutBy hfound
  exact exists_of_find_include hfind

/-- A text in which a directive occurs is not blank. -/
theorem not_allBlank_of_cuts {c : Cut} (h : includeRecogniser.Cuts c) (hne : c.occurrences ≠ []) :
    allBlank c.text = false := by
  obtain ⟨os, rest⟩ := c
  obtain ⟨o, os, rfl⟩ := List.exists_cons_of_ne_nil hne
  obtain ⟨argument, -, hargument⟩ := exists_of_cuts h List.mem_cons_self
  have hfound : allBlank o.found = false := by
    rw [hargument]
    exact (includeToken argument).not_allBlank_chars
  rw [Cut.text_cons_eq, allBlank, List.all_append, List.all_append]
  rw [allBlank] at hfound
  rw [hfound, Bool.and_false, Bool.false_and]

/-! ### Files -/

namespace Workspace

/-- The path that a directive names. -/
@[irreducible]
def pathOf (w : Workspace) (directive : String) : String :=
  w.resolve (((Token.parse? directive).bind Token.argument).getD "")

/-- The document in the file that a directive names, if there is a file. -/
@[irreducible]
def brought? (w : Workspace) (directive : String) : Option Document :=
  if w.files.isFile (w.pathOf directive) then
    (w.files.loadDocument (w.pathOf directive)).toOption
  else none

/-- Every file holds a document. -/
def Loads (w : Workspace) : Prop :=
  ∀ path, w.files.isFile path = true → ∃ d, w.files.loadDocument path = .ok d

theorem pathOf_includeToken (w : Workspace) {argument : List Char}
    (h : '\n' ∉ argument) :
    w.pathOf (includeToken argument).raw = w.resolve (String.ofList argument) := by
  unfold pathOf
  rw [Token.parse?_raw (isWellFormed_includeToken h)]
  exact congrArg w.resolve rfl

theorem brought?_of_isFile {w : Workspace} {x : String} {d : Document}
    (h : w.files.isFile (w.pathOf x) = true) (hd : w.files.loadDocument (w.pathOf x) = .ok d) :
    w.brought? x = some d := by
  unfold brought?
  rw [if_pos h, hd]
  rfl

theorem brought?_of_not_isFile {w : Workspace} {x : String}
    (h : w.files.isFile (w.pathOf x) = false) : w.brought? x = none := by
  unfold brought?
  rw [h]
  rfl

/-! ### Levels -/

/-- The directive stands at a level below the blocks: at level 1 in the blocks
themselves, and one level below a directive in what that brings in. -/
inductive AtLevel (w : Workspace) (bs : List Block) : Nat → String → Prop
  | top {x : String} : x ∈ directivesOf bs → w.AtLevel bs 1 x
  | inside {k : Nat} {x y : String} {d : Document} : w.AtLevel bs k x →
      w.brought? x = some d → y ∈ directivesOf d.blocks → w.AtLevel bs (k + 1) y

/-- The document is brought in by a directive at some level. -/
def Reaches (w : Workspace) (bs : List Block) (d : Document) : Prop :=
  ∃ k x, w.AtLevel bs k x ∧ w.brought? x = some d

/-- No cell of the blocks, or of a document they reach, holds a directive. -/
structure ClearCells (w : Workspace) (bs : List Block) : Prop where
  here : ∀ t, .table t ∈ bs → (Block.table t).directives = []
  reached : ∀ d, w.Reaches bs d → ∀ t, .table t ∈ d.blocks → (Block.table t).directives = []

theorem AtLevel.pos {w : Workspace} {bs : List Block} {k : Nat} {x : String}
    (h : w.AtLevel bs k x) : 0 < k := by
  cases h with
  | top => exact Nat.one_pos
  | inside => exact Nat.succ_pos _

theorem atLevel_one_iff {w : Workspace} {bs : List Block} {x : String} :
    w.AtLevel bs 1 x ↔ x ∈ directivesOf bs := by
  constructor
  · intro h
    generalize hk : 1 = k at h
    cases h with
    | top hx => exact hx
    | inside hx => exact absurd hx.pos (by omega)
  · exact .top

/-- A level below another one is reached through a directive at that level. -/
theorem atLevel_succ_iff {w : Workspace} {bs : List Block} {k : Nat} {y : String} (hk : 0 < k) :
    w.AtLevel bs (k + 1) y ↔
      ∃ x d, w.AtLevel bs k x ∧ w.brought? x = some d ∧ y ∈ directivesOf d.blocks := by
  constructor
  · intro h
    generalize hk' : k + 1 = k' at h
    cases h with
    | top => omega
    | inside hx hd hy =>
      obtain rfl := Nat.succ.inj hk'
      exact ⟨_, _, hx, hd, hy⟩
  · rintro ⟨x, d, hx, hd, hy⟩
    exact .inside hx hd hy

end Workspace
end Compositor
