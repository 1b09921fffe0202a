/-
# Inclusion of documents

The main text goes in first, at its token in the template. Then documents are
included, one level of nesting with each pass, until the only directives left
are those whose files are missing. Every pass takes one from a limit: a
directive that is left after the last pass nests too deeply, or includes
itself.

Key definitions: `insertMainText`, `pendingDirectives`, `includeAll`,
`includeDocuments`.
-/
import Compositor.Macro.Pass

namespace Compositor.Macro
open Text

/-- The token for the main text. -/
def mainTextToken : Token := ⟨mainTextName, none⟩

/-- Inserts the main text at its first token. -/
def insertMainText (content : List Block) : Job Unit := do
  Job.notify (.stage "Inserting main text")
  let report ← Pass.run ⟨mainTextPattern, [.mainText (some content)]⟩
  if report.scanned = 0 then
    Job.warn .missingMainText mainTextToken.raw "the template has no place for the main text"
  else return

/-- The include directives of a document that are not known to be missing. -/
def pendingDirectives (d : Document) (j : Journal) : Except StaleRange (List String) :=
  ((d.search includePattern).mapM d.rangeText).map (·.filter fun raw => !j.isMissing raw)

/-- The first include directive of the session's document that is not known
to be missing. -/
def pendingDirective? : Job (Option String) := do
  let s ← get
  return (← Job.lift ((pendingDirectives s.document s.journal).mapError .stale)).head?

/-- The pass that includes documents of a workspace. -/
def includePass (w : Workspace) : Pass := ⟨includePattern, [.inclusion w]⟩

/-- Makes at most `left` of the `limit` passes, as long as a directive is
pending, and counts them. -/
def includeAll (w : Workspace) (limit : Nat) : (left : Nat) → Job Nat
  | 0 => do
    match ← pendingDirective? with
    | none => return 0
    | some pending => throw (.includeTooDeep limit pending)
  | left + 1 => do
    match ← pendingDirective? with
    | none => return 0
    | some _ =>
      let _ ← (includePass w).run
      return (← includeAll w limit left) + 1

/-- Inserts the main text, if there is one, and includes documents. The
result is the number of passes that had something to include. -/
def includeDocuments (w : Workspace) (limit : Nat) (mainText? : Option (List Block)) :
    Job Nat := do
  match mainText? with
  | none => pure ()
  | some content => insertMainText content
  Job.notify (.stage "Including documents")
  includeAll w limit limit

end Compositor.Macro
