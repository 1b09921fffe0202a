/-
# What handlers do with a token

A handler that is given a token at a range does one of two things to the
document: it leaves it as it is, or it makes one edit, at that range. It
stops only if it includes a document that cannot be loaded. Dispatch does
what the handler that accepts the token does.

Key definitions: `Document.DoneAt`, `CannotLoad`, `Handler.Included`.
Key theorems: `includeDocument_ends`, `substitute_ends`, `dispatch_ends`.
-/
import Compositor.Macro.Pass
import Compositor.Proofs.Document.Edits
import Compositor.Proofs.Outcome

namespace Compositor

/-- What was done at a range: nothing to the document, or an edit there. -/
def Document.DoneAt (d : Document) (r : TextRange) (d' : Document) : Option Edit → Prop
  | none => d' = d
  | some e => e.range = r ∧ d.Edited d' e

theorem Document.DoneAt.numbered {d d' : Document} {r : TextRange} {edit? : Option Edit}
    (h : d.DoneAt r d' edit?) (hd : d.Numbered) : d'.Numbered := by
  cases edit? with
  | none =>
    obtain rfl : d' = d := h
    exact hd
  | some e => exact h.2.numbered

namespace Macro
open Job

/-- A file that one of the handlers includes is there but holds no document. -/
def CannotLoad (handlers : List Handler) (fault : Fault) : Prop :=
  ∃ w path cause, .inclusion w ∈ handlers ∧ w.files.isFile path = true ∧
    w.files.loadDocument path = .error cause ∧ fault = .load path cause

theorem CannotLoad.mono {handlers handlers' : List Handler} {fault : Fault}
    (h : ∀ w, Handler.inclusion w ∈ handlers → Handler.inclusion w ∈ handlers')
    (hf : CannotLoad handlers fault) : CannotLoad handlers' fault := by
  obtain ⟨w, path, cause, hw, hpath, hcause, rfl⟩ := hf
  exact ⟨w, path, cause, h w hw, hpath, hcause, rfl⟩

namespace Handler

variable {s : Session} {r : TextRange} {x : List Char}

theorem splice_ends (hd : s.document.Numbered) (hr : s.document.Reads r x) (bs : List Block)
    {post : Edit → Session → Prop} {fault : Fault → Prop}
    (h : ∀ d e, e.range = r → s.document.Edited d e → post e { s with document := d }) :
    (Job.edit (·.splice r bs)).Ends s post fault := by
  obtain ⟨d, e, hsplice, hrange, hedited⟩ := hd.edited_splice hr bs
  exact ends_edit hsplice (h d e hrange hedited)

/-- What becomes of a directive at a range: it is left as it is, if it is known
to be missing or is found to be missing now, or a document is spliced in. -/
inductive Included (w : Workspace) (r : TextRange) (t : Token) (s s' : Session) :
    Option Edit → Prop
  | known : s.journal.isMissing t.raw = true → s' = s → Included w r t s s' none
  | missing : w.files.isFile (w.resolve (t.argument.getD "")) = false →
    s'.document = s.document → s'.journal.missing = (s.journal.markMissing t.raw).missing →
      Included w r t s s' none
  | found {d : Document} {e : Edit} : w.files.isFile (w.resolve (t.argument.getD "")) = true →
    w.files.loadDocument (w.resolve (t.argument.getD "")) = .ok d →
      s.document.splice r d.blocks = .ok (s'.document, e) → s'.journal = s.journal →
        Included w r t s s' (some e)

theorem includeDocument_ends (hd : s.document.Numbered) (hr : s.document.Reads r x)
    (w : Workspace) (t : Token) :
    (includeDocument w r t).Ends s (fun edit? s' => Included w r t s s' edit?)
      (CannotLoad [.inclusion w]) := by
  refine ends_bind (ends_get ?_)
  split
  · rename_i hknown
    exact ends_pure (.known hknown rfl)
  · dsimp only
    generalize hpath : w.resolve (t.argument.getD "") = path
    by_cases hfile : w.files.isFile path = true
    · rw [if_pos hfile]
      cases hload : w.files.loadDocument path with
      | error cause =>
        exact ends_bind (ends_throw ⟨w, path, cause, List.mem_singleton_self _, hfile, hload, rfl⟩)
      | ok d =>
        obtain ⟨d', e, hsplice, -, -⟩ := hd.edited_splice hr d.blocks
        refine ends_bind (ends_pure (ends_bind (ends_edit hsplice (ends_pure ?_))))
        rw [← hpath] at hfile hload
        exact .found hfile hload hsplice rfl
    · rw [if_neg hfile]
      refine ends_bind (ends_modifyJournal (ends_bind (ends_warn (ends_pure ?_))))
      rw [← hpath] at hfile
      exact .missing (Bool.eq_false_iff.mpr hfile) rfl rfl

theorem Included.doneAt {w : Workspace} {t : Token} {s' : Session} {edit? : Option Edit}
    (h : Included w r t s s' edit?) (hd : s.document.Numbered) (hr : s.document.Reads r x) :
    s.document.DoneAt r s'.document edit? := by
  cases h with
  | known _ hs => exact congrArg Session.document hs
  | missing _ hdoc _ => exact hdoc
  | found _ _ hsplice _ =>
    obtain ⟨d', e, hsplice', hdone⟩ := hd.edited_splice hr _
    rw [hsplice'] at hsplice
    obtain ⟨rfl, rfl⟩ := Prod.mk.inj (Except.ok.inj hsplice)
    exact hdone

/-- A handler makes no edit or one at the range, and includes from the same
workspace as before. -/
theorem substitute_ends (hd : s.document.Numbered) (hr : s.document.Reads r x) (t : Token)
    (h : Handler) :
    (h.substitute r t).Ends s
      (fun done s' => s.document.DoneAt r s'.document done.1 ∧
        ∀ w, done.2 = .inclusion w → h = .inclusion w)
      (CannotLoad [h]) := by
  cases h with
  | inclusion w =>
    refine ends_bind ((includeDocument_ends hd hr w t).mono (fun edit? s' h => ?_) fun _ => id)
    exact ends_pure ⟨h.doneAt hd hr, fun _ he => he⟩
  | mainText content? =>
    cases content? with
    | none => exact ends_bind (ends_warn (ends_pure ⟨rfl, fun _ he => he⟩))
    | some content =>
      refine ends_bind (splice_ends hd hr content fun d e hrange hedited => ?_)
      exact ends_pure ⟨⟨hrange, hedited⟩, fun _ he => nomatch he⟩
  | value table =>
    simp only [substitute]
    split
    · rename_i text htext
      obtain ⟨d, e, hreplace, hrange, hedited⟩ := hd.edited_replaceText hr text
      refine ends_bind (ends_edit hreplace ?_)
      exact ends_pure ⟨⟨hrange, hedited⟩, fun _ he => he⟩
    · exact ends_pure ⟨rfl, fun _ he => he⟩
  | contents title =>
    refine ends_bind (splice_ends hd hr _ fun d e hrange hedited => ?_)
    refine ends_bind (ends_modifyDocument ?_)
    exact ends_pure ⟨⟨hrange, hedited.refreshContents⟩, fun _ he => he⟩

end Handler

theorem dispatch_ends {s : Session} {r : TextRange} {x : List Char} (hd : s.document.Numbered)
    (hr : s.document.Reads r x) (t : Token) (handlers : List Handler) :
    (dispatch r t handlers).Ends s
      (fun done s' => s.document.DoneAt r s'.document done.edit? ∧
        ∀ w, Handler.inclusion w ∈ done.handlers → Handler.inclusion w ∈ handlers)
      (CannotLoad handlers) := by
  induction handlers generalizing s with
  | nil => exact ends_pure ⟨rfl, fun _ hw => hw⟩
  | cons h hs ih =>
    have hrest : ∀ s' : Session, s'.document = s.document →
        (do
          let d ← dispatch r t hs
          return { d with handlers := h :: d.handlers }).Ends s'
        (fun done s'' => s.document.DoneAt r s''.document done.edit? ∧
          ∀ w, Handler.inclusion w ∈ done.handlers → Handler.inclusion w ∈ h :: hs)
        (CannotLoad (h :: hs)) := by
      intro s' hs'
      rw [← hs'] at hd hr ⊢
      refine ends_bind ((ih hd hr).mono (fun done s'' hdone => ?_) fun fault hf => ?_)
      · refine ends_pure ⟨hdone.1, fun w hw => ?_⟩
        rcases List.mem_cons.mp hw with hw | hw
        · exact hw ▸ List.mem_cons_self
        · exact List.mem_cons_of_mem h (hdone.2 w hw)
      · exact hf.mono fun w hw => List.mem_cons_of_mem h hw
    unfold dispatch
    split
    · refine ends_bind ((Handler.substitute_ends hd hr t h).mono (fun done s' hdone => ?_)
        fun fault hf => ?_)
      · refine ends_pure ⟨hdone.1, fun w hw => ?_⟩
        rcases List.mem_cons.mp hw with hw | hw
        · exact hdone.2 w hw.symm ▸ List.mem_cons_self
        · exact List.mem_cons_of_mem h hw
      · refine hf.mono fun w hw => ?_
        rw [List.mem_singleton.mp hw]
        exact List.mem_cons_self
    · exact hrest s rfl
    · exact ends_bind (ends_warn (hrest _ rfl))

end Macro
end Compositor
