/-
# Open documents

Documents opened from a workspace lie on a desk, each under a handle. Handles
count up from 0 and are not used again; a document is open until it is
closed.

Key definitions: `Desk`, `Desk.openDocument`, `Desk.edit?`, `Desk.close`,
`Desk.openCount`.
-/
import Compositor.Fault
import Compositor.Workspace

namespace Compositor

/-- The documents opened so far by their handles; one that was closed has
left its place. -/
structure Desk where
  workspace : Workspace
  places : List (Option Document) := []
  deriving Repr, Inhabited

namespace Desk

/-- The number of documents that are open. -/
def openCount (desk : Desk) : Nat := desk.places.countP Option.isSome

/-- Opens the document at an include path. A document that cannot be loaded
uses up no handle. -/
def openDocument (desk : Desk) (path : String) : Except Fault (Desk × Nat × Document) := do
  let path := desk.workspace.resolve path
  let d ← (desk.workspace.files.loadDocument path).mapError (.load path)
  return ({ desk with places := desk.places ++ [some d] }, desk.places.length, d)

/-- Changes a document that is open. -/
def edit? (desk : Desk) (handle : Nat) (f : Document → Document) : Option (Desk × Document) :=
  (desk.places[handle]?).join.map fun d =>
    ({ desk with places := desk.places.set handle (some (f d)) }, f d)

/-- Closes a document. The result says whether it was open, if the handle was
ever given out. -/
def close (desk : Desk) (handle : Nat) : Desk × Option Bool :=
  ({ desk with places := desk.places.set handle none },
    (desk.places[handle]?).map Option.isSome)

end Desk
end Compositor
