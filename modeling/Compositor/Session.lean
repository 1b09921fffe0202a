/-
# Sessions

A session is the work on one document: the document as it stands, its
journal and the progress made. A job changes the session and has a result,
or stops with a fault; then the session stays as the job left it.

Key definitions: `Session`, `Job`, `Job.warn`, `Job.notify`, `Job.edit`.
-/
import Compositor.Document.Edit
import Compositor.Fault
import Compositor.Journal
import Compositor.Progress

namespace Compositor

structure Session where
  document : Document
  journal : Journal := {}
  notices : List Notice := []
  deriving Repr, DecidableEq, Inhabited

/-- Work on a document. -/
abbrev Job := EStateM Fault Session

namespace Job

/-- Changes the document. -/
def modifyDocument (f : Document → Document) : Job Unit :=
  modify fun s => { s with document := f s.document }

/-- Changes the journal. -/
def modifyJournal (f : Journal → Journal) : Job Unit :=
  modify fun s => { s with journal := f s.journal }

/-- Notes a problem that does not stop the work. -/
def warn (kind : DiagnosticKind) (subject detail : String) : Job Unit :=
  modifyJournal (·.warn kind subject detail)

/-- Tells how far the work is. -/
def notify (n : Notice) : Job Unit :=
  modify fun s => { s with notices := s.notices ++ [n] }

/-- The result of a computation that may fail. -/
def lift {α : Type} : Except Fault α → Job α
  | .ok a => pure a
  | .error e => throw e

/-- The text of a range of the document. -/
def rangeText (r : TextRange) : Job String := do
  lift (((← get).document.rangeText r).mapError .stale)

/-- Makes an edit of the document and says what it did. -/
def edit (f : Document → Except StaleRange (Document × Edit)) : Job Edit := do
  let (document, e) ← lift ((f (← get).document).mapError .stale)
  modifyDocument fun _ => document
  return e

end Job
end Compositor
