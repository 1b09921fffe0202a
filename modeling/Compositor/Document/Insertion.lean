/-
# Documents made ready for insertion

Before the blocks of a document go into another one, its formulas and images
are anchored as characters, so that they travel with the text around them,
and its blank paragraphs are dropped.

Key definitions: `Document.anchorObjects`, `dropBlankParagraphs`.
-/
import Compositor.Text.Blank
import Compositor.Document.Edit

namespace Compositor
open Text

/-- Does an object of this kind get anchored? -/
def ObjectKind.isAnchored : ObjectKind → Bool
  | formula | image => true
  | chart => false

/-- The value of the anchor property of an object that stands among the
characters of a line. -/
def asCharacter : PropertyValue := .text "AsCharacter"

namespace Document

/-- The document with every formula and image anchored as a character. -/
def anchorObjects (d : Document) : Document :=
  d.mapObjects fun o =>
    if o.kind.isAnchored then o.setProperty EmbeddedObject.anchorProperty asCharacter else o

/-- The number of objects that get anchored. -/
def anchoredCount (d : Document) : Nat := d.allObjects.countP (·.kind.isAnchored)

end Document

/-- Is the block a paragraph of nothing but blanks? -/
def Block.isBlankParagraph (b : Block) : Bool := b.paragraph?.any fun p => allBlank p.chars

/-- The blocks without the blank paragraphs. -/
def dropBlankParagraphs (blocks : List Block) : List Block :=
  blocks.filter fun b => !b.isBlankParagraph

end Compositor
