/-
# How jobs end

A job ends with a result and a session, or stops with a fault. What holds
then is put together from what holds for its parts: a sequence of two jobs
ends as the second one does, started where the first one ended, or stops
with a fault of either.

Key definitions: `Journal.note`, `Job.Ends`.
Key theorems: `ends_bind`, `Ends.mono`, `ends_edit`, `ends_rangeText`.
-/
import Compositor.Proofs.Document.Texts
import Compositor.Session

namespace Compositor

/-- The journal with more diagnostics. -/
def Journal.note (j : Journal) (ds : List Diagnostic) : Journal :=
  { j with diagnostics := j.diagnostics ++ ds }

theorem Journal.note_nil (j : Journal) : j.note [] = j := by
  rw [note, List.append_nil]

theorem Journal.note_note (j : Journal) (ds es : List Diagnostic) :
    (j.note ds).note es = j.note (ds ++ es) := by
  simp only [note, List.append_assoc]

namespace Job

variable {α β : Type} {s : Session} {post : α → Session → Prop} {fault : Fault → Prop}

/-- Started in `s`, the job ends with a result and a session for which `post`
holds, or stops with a fault for which `fault` holds. -/
def Ends (job : Job α) (s : Session) (post : α → Session → Prop) (fault : Fault → Prop) : Prop :=
  match job.run s with
  | .ok a s' => post a s'
  | .error e _ => fault e

/-- How a job ends can be told by running it. -/
instance {job : Job α} [∀ a s, Decidable (post a s)] [∀ e, Decidable (fault e)] :
    Decidable (job.Ends s post fault) :=
  match h : job.run s with
  | .ok a s' => decidable_of_iff (post a s') (by rw [Ends, h])
  | .error e _ => decidable_of_iff (fault e) (by rw [Ends, h])

theorem Ends.mono {job : Job α} {post' : α → Session → Prop} {fault' : Fault → Prop}
    (h : job.Ends s post fault) (hpost : ∀ a s', post a s' → post' a s')
    (hfault : ∀ e, fault e → fault' e) : job.Ends s post' fault' := by
  unfold Ends at h ⊢
  split at h
  · exact hpost _ _ h
  · exact hfault _ h

/-- A job that stops with no fault ends. -/
theorem Ends.exists_ok {job : Job α} (h : job.Ends s post fun _ => False) :
    ∃ a s', job.run s = .ok a s' ∧ post a s' := by
  unfold Ends at h
  split at h
  · rename_i a s' hrun
    exact ⟨a, s', hrun, h⟩
  · exact h.elim

/-- What holds of a job holds of one that does the same. -/
theorem Ends.congr {job job' : Job α} (hrun : job'.run s = job.run s)
    (h : job.Ends s post fault) : job'.Ends s post fault := by
  unfold Ends at h ⊢
  rw [hrun]
  exact h

theorem ends_pure {a : α} (h : post a s) : (pure a : Job α).Ends s post fault := h

theorem ends_throw {e : Fault} (h : fault e) : (throw e : Job α).Ends s post fault := h

/-- A sequence of two jobs goes on where the first one ends, and stops where
it stops. -/
theorem run_bind (job : Job α) (next : α → Job β) (s : Session) :
    (job >>= next).run s =
      match job.run s with
      | .ok a s' => (next a).run s'
      | .error e s' => .error e s' := by
  change EStateM.bind job next s = _
  unfold EStateM.bind EStateM.run
  cases job s with
  | ok a s' => rfl
  | error e s' => rfl

/-- A sequence of two jobs that ends has got through the first one. -/
theorem exists_of_run_bind {job : Job α} {next : α → Job β} {b : β} {s' : Session}
    (h : (job >>= next).run s = .ok b s') :
    ∃ a s₁, job.run s = .ok a s₁ ∧ (next a).run s₁ = .ok b s' := by
  rw [run_bind] at h
  cases hrun : job.run s with
  | ok a s₁ =>
    rw [hrun] at h
    exact ⟨a, s₁, rfl, h⟩
  | error e s₁ =>
    rw [hrun] at h
    cases h

theorem ends_bind {job : Job α} {next : α → Job β} {post : β → Session → Prop}
    (h : job.Ends s (fun a s' => (next a).Ends s' post fault) fault) :
    (job >>= next).Ends s post fault := by
  unfold Ends at h ⊢
  change match EStateM.bind job next s with
    | .ok a s' => post a s'
    | .error e _ => fault e
  unfold EStateM.bind
  cases hrun : job s with
  | ok a s' =>
    rw [EStateM.run, hrun] at h
    exact h
  | error e s' =>
    rw [EStateM.run, hrun] at h
    exact h

theorem ends_get {post : Session → Session → Prop} (h : post s s) :
    (get : Job Session).Ends s post fault := h

/-! ### The document, the journal and the notices -/

theorem ends_notify {n : Notice} {post : Unit → Session → Prop}
    (h : post () { s with notices := s.notices ++ [n] }) : (notify n).Ends s post fault := h

theorem ends_modifyJournal {f : Journal → Journal} {post : Unit → Session → Prop}
    (h : post () { s with journal := f s.journal }) : (modifyJournal f).Ends s post fault := h

theorem ends_modifyDocument {f : Document → Document} {post : Unit → Session → Prop}
    (h : post () { s with document := f s.document }) : (modifyDocument f).Ends s post fault := h

theorem ends_warn {kind : DiagnosticKind} {subject detail : String}
    {post : Unit → Session → Prop}
    (h : post () { s with journal := s.journal.warn kind subject detail }) :
    (warn kind subject detail).Ends s post fault := h

theorem ends_edit {f : Document → Except StaleRange (Document × Edit)} {d : Document} {e : Edit}
    {post : Edit → Session → Prop} (hf : f s.document = .ok (d, e))
    (h : post e { s with document := d }) : (edit f).Ends s post fault := by
  refine ends_bind (ends_get (ends_bind ?_))
  rw [hf]
  exact ends_pure (ends_bind (ends_modifyDocument (ends_pure h)))

theorem ends_rangeText {r : TextRange} {x : List Char} {post : String → Session → Prop}
    (hr : s.document.Reads r x) (h : post (String.ofList x) s) :
    (rangeText r).Ends s post fault := by
  refine ends_bind (ends_get ?_)
  rw [Document.rangeText_of_reads hr]
  exact ends_pure h

end Job
end Compositor
