/-
# What passes do with a document

Passes and the inclusion of documents work on a document by steps only:
whatever the handlers are, and wherever a fault stops the work, the document
that is left was made from the one before by replacing ranges by text or by
blocks and by making the tables of contents anew. Nothing registers a formula
meanwhile. Both are kept by what the handlers do, so they hold for a pass of
any length.

Key definitions: `Session.Advances`, `Job.Advances`.
Key theorems: `keptByHandlers_advances`, `advances_run`,
`advances_includeDocuments`, `Job.Advances.ends`.
-/
import Compositor.Proofs.Document.Steps
import Compositor.Proofs.Macro.Keeping

namespace Compositor

/-- The second session comes from the first by steps of work on the document,
and no formula was registered. -/
structure Session.Advances (s s' : Session) : Prop where
  steps : Relation.ReflTransGen Document.Step s.document s'.document
  formulas : s'.journal.formulas = s.journal.formulas

/-- Wherever it starts and wherever it stops, the job has only advanced the
session. -/
def Job.Advances {α : Type} (job : Job α) : Prop := ∀ s : Session, s.Advances (job.left s)

namespace Session

theorem advances_of_document_eq {s s' : Session} (hdoc : s'.document = s.document)
    (hformulas : s'.journal.formulas = s.journal.formulas) : s.Advances s' := by
  refine ⟨?_, hformulas⟩
  rw [hdoc]

theorem Advances.refl (s : Session) : s.Advances s := advances_of_document_eq rfl rfl

theorem Advances.trans (s s' s'' : Session) (h : s.Advances s') (h' : s'.Advances s'') :
    s.Advances s'' :=
  ⟨h.steps.trans h'.steps, h'.formulas.trans h.formulas⟩

end Session

namespace Job

/-- A job that ends has advanced the session. -/
theorem Advances.ends {α : Type} {job : Job α} (h : job.Advances) (s : Session) :
    job.Ends s (fun _ s' => s.Advances s') fun _ => True := by
  have hleft := h s
  unfold left at hleft
  unfold Ends
  cases hrun : job.run s with
  | ok a s' =>
    rw [hrun] at hleft
    exact hleft
  | error e s' => trivial

end Job

namespace Macro
open Job

/-- Whatever a handler does is a step or leaves the document alone. -/
theorem Handler.actsWithin_advances (h : Handler) :
    h.ActsWithin Session.Advances fun _ => True where
  refl := .refl
  trans := .trans
  stale _ := trivial
  load _ _ := trivial
  splice _ _ _ _ _ _ he := ⟨.single (.splice he), rfl⟩
  replaceText _ _ _ _ _ he := ⟨.single (.replaceText he), rfl⟩
  refresh _ := ⟨.single .refreshContents, rfl⟩
  report s x _ _ := by
    refine Session.advances_of_document_eq rfl ?_
    unfold Journal.markMissing
    split <;> rfl
  warn _ _ _ _ _ := Session.advances_of_document_eq rfl rfl

/-- All that a pass is made of advances the session. -/
theorem keptByHandlers_advances : KeptByHandlers Session.Advances fun _ => True where
  refl := .refl
  trans := .trans
  notify _ _ := Session.advances_of_document_eq rfl rfl
  warn _ _ _ _ _ := Session.advances_of_document_eq rfl rfl
  stale _ := trivial
  substitute r t h := h.actsWithin_advances.keeps_substitute r t

/-- A pass advances its session, whatever it looks for and whatever its
handlers are. -/
theorem advances_run (pass : Pass) : pass.run.Advances := (keptByHandlers_advances.run pass).left

/-- The inclusion of documents advances its session, also where it fails. -/
theorem advances_includeDocuments (w : Workspace) (limit : Nat)
    (mainText? : Option (List Block)) : (includeDocuments w limit mainText?).Advances :=
  (keptByHandlers_advances.includeDocuments (fun _ _ => trivial) w limit mainText?).left

end Macro
end Compositor
