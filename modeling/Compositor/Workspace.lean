/-
# Workspaces

A workspace is a file system and the directory that include paths are
relative to.

Key definitions: `Workspace`, `Workspace.resolve`.
-/
import Compositor.Text.Blank
import Compositor.File.Document

namespace Compositor

structure Workspace where
  files : FileSystem
  /-- The directory that include paths start from. -/
  base : String
  deriving Repr, Inhabited

namespace Workspace

/-- The absolute form of an include path, without the blanks around it. -/
def resolve (w : Workspace) (path : String) : String :=
  w.files.absolute (Path.join w.base (Text.trimmed path))

end Workspace
end Compositor
