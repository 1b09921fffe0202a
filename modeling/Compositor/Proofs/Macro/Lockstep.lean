/-
# Two passes in lockstep

Two passes for one pattern find the same occurrences in one document. If
their handlers do the same with every token, up to warnings of forbidden
overrides, and stay related by it, then the passes go through the occurrences
in lockstep: at each of them they make one edit, or stop with one fault, and
they end with one report. How the handlers are related is left open; it has to
be kept by dispatch.

Key definitions: `Dispatch.Alike`, `Lockstep`.
Key theorems: `Handler.alike_substitute_self`, `dispatch_of_not_accept`,
`Lockstep.processAll`, `Lockstep.run`.
-/
import Compositor.Macro.Include
import Compositor.Proofs.Agreement
import Compositor.Proofs.Macro.Kinds

namespace Compositor.Macro
open Job

/-! ### One handler -/

namespace Handler

theorem alike_includeDocument (w : Workspace) (r : TextRange) (t : Token) :
    Job.Alike Eq (includeDocument w r t) (includeDocument w r t) := by
  unfold includeDocument
  refine alike_get.bind fun s s' hs => ?_
  rw [hs.journal.isMissing_eq]
  split
  · exact alike_pure rfl
  · dsimp only
    split
    · refine (alike_lift _).bind fun d d' hd => ?_
      subst hd
      exact (alike_edit _).bind fun e e' he => alike_pure (congrArg some he)
    · refine (alike_modifyJournal fun _ _ h => h.markMissing t.raw).bind fun _ _ _ => ?_
      exact (alike_warn _ _ _).bind fun _ _ _ => alike_pure rfl

/-- A handler makes one edit in sessions that are alike, becomes one handler,
and stays of its kind. -/
theorem alike_substitute_self (r : TextRange) (t : Token) (h : Handler) :
    Job.Alike (fun done done' => done = done' ∧ done.2.kind = h.kind)
      (h.substitute r t) (h.substitute r t) := by
  cases h with
  | inclusion w =>
    refine (alike_includeDocument w r t).bind fun edit? edit?' he => ?_
    subst he
    exact alike_pure ⟨rfl, rfl⟩
  | mainText content? =>
    cases content? with
    | none => exact (alike_warn _ _ _).bind fun _ _ _ => alike_pure ⟨rfl, rfl⟩
    | some content =>
      refine (alike_edit _).bind fun e e' he => ?_
      subst he
      exact alike_pure ⟨rfl, rfl⟩
  | value table =>
    simp only [substitute]
    split
    · refine (alike_edit _).bind fun e e' he => ?_
      subst he
      exact alike_pure ⟨rfl, rfl⟩
    · exact alike_pure ⟨rfl, rfl⟩
  | contents title =>
    refine (alike_edit _).bind fun e e' he => ?_
    subst he
    exact (alike_modifyDocument _).bind fun _ _ _ => alike_pure ⟨rfl, rfl⟩

end Handler

/-! ### Dispatch -/

/-- What a handler that does not accept a token does before the next one is
asked. -/
theorem dispatch_of_not_accept {t : Token} {h : Handler} (hjudge : h.judge t ≠ .accept)
    (r : TextRange) (hs : List Handler) :
    ∃ warning : Job Unit, warning.Silent ∧
      dispatch r t (h :: hs) = (do
        warning
        let d ← dispatch r t hs
        return { d with handlers := h :: d.handlers }) := by
  rw [dispatch]
  cases hverdict : h.judge t with
  | accept => exact absurd hverdict hjudge
  | decline => exact ⟨pure (), silent_pure, rfl⟩
  | refuse kind detail =>
    obtain rfl := Handler.kind_of_refuse hverdict
    exact ⟨_, silent_warn_forbidden _ _, rfl⟩

/-- The same was done with a token, and the handlers are related. -/
structure Dispatch.Alike (rel : List Handler → List Handler → Prop) (d d' : Dispatch) : Prop where
  accepted : d.accepted = d'.accepted
  edit : d.edit? = d'.edit?
  handlers : rel d.handlers d'.handlers

/-- Related handlers do the same with every token, and are related afterwards. -/
def Lockstep (rel : List Handler → List Handler → Prop) : Prop :=
  ∀ r t hs hs', rel hs hs' →
    Job.Alike (Dispatch.Alike rel) (dispatch r t hs) (dispatch r t hs')

/-! ### Passes -/

namespace Lockstep

variable {rel : List Handler → List Handler → Prop} {hs hs' : List Handler}

theorem processOne (hrel : Lockstep rel) (r : TextRange) (h : rel hs hs') :
    Job.Alike (fun done done' => done.1 = done'.1 ∧ rel done.2 done'.2)
      (processOne hs r) (processOne hs' r) := by
  refine (alike_rangeText r).bind fun text text' htext => ?_
  subst htext
  cases Token.parse? text with
  | none => exact alike_pure ⟨rfl, h⟩
  | some t =>
    refine (hrel r t hs hs' h).bind fun d d' hd => ?_
    rw [hd.accepted]
    split
    · exact alike_pure ⟨hd.edit, hd.handlers⟩
    · exact (alike_warn _ _ _).bind fun _ _ _ => alike_pure ⟨hd.edit, hd.handlers⟩

theorem processAll (hrel : Lockstep rel) (total current : Nat) (edits : List Edit)
    (report : PassReport) (ranges : List TextRange) (h : rel hs hs') :
    Job.Alike Eq (processAll total current edits hs report ranges)
      (processAll total current edits hs' report ranges) := by
  induction ranges generalizing current edits hs hs' report with
  | nil => exact alike_pure rfl
  | cons r rs ih =>
    unfold Macro.processAll
    refine (alike_notify _).bind fun _ _ _ => ?_
    split
    · exact ih _ _ _ h
    · refine (hrel.processOne _ h).bind fun done done' hdone => ?_
      obtain ⟨hedit, hhandlers⟩ := hdone
      dsimp only
      rw [hedit]
      exact ih _ _ _ hhandlers

/-- Passes for one pattern whose handlers are related. -/
theorem run (hrel : Lockstep rel) (pattern : Text.Pattern) (h : rel hs hs') :
    Job.Alike Eq (Pass.run ⟨pattern, hs⟩) (Pass.run ⟨pattern, hs'⟩) := by
  refine alike_get.bind fun s s' hs => ?_
  rw [hs.document]
  exact hrel.processAll _ _ _ _ _ h

end Lockstep
end Compositor.Macro
