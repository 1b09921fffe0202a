/-
# Settings

What a user can set once and for all: the locale, how deep documents may
include each other, the title of the tables of contents, and whether to tell
about progress.

Key definitions: `Settings`, `Settings.title`.
-/
import Compositor.Locale

namespace Compositor

structure Settings where
  locale : Locale := .en
  includeDepthLimit : Nat := 16
  /-- The title of the tables of contents, in place of the locale's. -/
  contentsTitle : Option String := none
  verbose : Bool := false
  deriving Repr, DecidableEq, Inhabited

/-- The title of the tables of contents. -/
def Settings.title (s : Settings) : String := s.contentsTitle.getD s.locale.contentsTitle

end Compositor
