/-
# Tables of contents

A table of contents lists the headings of its document as they were when it
was last refreshed.

Key definitions: `Document.refreshContents`, `Document.contentsCount`.
Key theorem: `Document.outline_refreshContents`.
-/
import Compositor.Document.Query

namespace Compositor

/-- The block with the given entries, if it is a table of contents. -/
def Block.withEntries (entries : List OutlineItem) : Block → Block
  | .contents c => .contents { c with entries }
  | b => b

def Block.isContents : Block → Bool
  | .contents _ => true
  | _ => false

namespace Document

/-- The document with the entries of every table of contents made anew from
its outline. -/
def refreshContents (d : Document) : Document :=
  { d with blocks := d.blocks.map (Block.withEntries d.outline) }

/-- The number of tables of contents. -/
def contentsCount (d : Document) : Nat := d.blocks.countP Block.isContents

/-- A refresh leaves the outline as it is. -/
theorem outline_refreshContents (d : Document) : d.refreshContents.outline = d.outline := by
  have hp : ∀ (entries : List OutlineItem) (b : Block),
      (b.withEntries entries).paragraph? = b.paragraph? := by
    intro entries b
    cases b <;> rfl
  simp only [outline, refreshContents, List.zipIdx_map, List.filterMap_map]
  congr 1
  funext ⟨b, i⟩
  simp [hp]

end Document
end Compositor
