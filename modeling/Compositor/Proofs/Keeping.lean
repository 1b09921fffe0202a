/-
# What jobs keep

A job leaves a session behind wherever it stops, with a result or at a fault.
A relation that holds between the session before and the session left, for
every session before, is kept by the job. If it holds of no change at all and
of two changes in a row, a sequence of jobs keeps it as soon as each of them
does.

Key definitions: `Job.left`, `Job.Leaves`, `Job.Keeps`, `Job.Yields`.
Key theorems: `leaves_bind`, `Keeps.bind`, `Keeps.left`, `keeps_edit`,
`Yields.bind`.
-/
import Compositor.Proofs.Outcome

namespace Compositor.Job

variable {α β : Type} {s : Session}

/-- The session as a job leaves it, with a result or at a fault. -/
def left (job : Job α) (s : Session) : Session :=
  match job.run s with
  | .ok _ s' => s'
  | .error _ s' => s'

/-- Started in `s`, the job ends with a result and a session for which `post`
holds, or stops with a fault and a session for which `stop` holds. -/
def Leaves (job : Job α) (s : Session) (post : α → Session → Prop)
    (stop : Fault → Session → Prop) : Prop :=
  match job.run s with
  | .ok a s' => post a s'
  | .error e s' => stop e s'

/-- What a job leaves can be told by running it. -/
instance {job : Job α} {post : α → Session → Prop} {stop : Fault → Session → Prop}
    [∀ a s, Decidable (post a s)] [∀ e s, Decidable (stop e s)] :
    Decidable (job.Leaves s post stop) :=
  match h : job.run s with
  | .ok a s' => decidable_of_iff (post a s') (by rw [Leaves, h])
  | .error e s' => decidable_of_iff (stop e s') (by rw [Leaves, h])

theorem Leaves.mono {job : Job α} {post post' : α → Session → Prop}
    {stop stop' : Fault → Session → Prop} (h : job.Leaves s post stop)
    (hpost : ∀ a s', post a s' → post' a s') (hstop : ∀ e s', stop e s' → stop' e s') :
    job.Leaves s post' stop' := by
  unfold Leaves at h ⊢
  split at h
  · exact hpost _ _ h
  · exact hstop _ _ h

theorem leaves_pure {a : α} {post : α → Session → Prop} {stop : Fault → Session → Prop}
    (h : post a s) : (pure a : Job α).Leaves s post stop := h

theorem leaves_throw {e : Fault} {post : α → Session → Prop} {stop : Fault → Session → Prop}
    (h : stop e s) : (throw e : Job α).Leaves s post stop := h

theorem leaves_get {post : Session → Session → Prop} {stop : Fault → Session → Prop}
    (h : post s s) : (get : Job Session).Leaves s post stop := h

theorem leaves_modifyJournal {f : Journal → Journal} {post : Unit → Session → Prop}
    {stop : Fault → Session → Prop} (h : post () { s with journal := f s.journal }) :
    (modifyJournal f).Leaves s post stop := h

theorem leaves_warn {kind : DiagnosticKind} {subject detail : String}
    {post : Unit → Session → Prop} {stop : Fault → Session → Prop}
    (h : post () { s with journal := s.journal.warn kind subject detail }) :
    (warn kind subject detail).Leaves s post stop := h

theorem leaves_bind {job : Job α} {next : α → Job β} {post : β → Session → Prop}
    {stop : Fault → Session → Prop}
    (h : job.Leaves s (fun a s' => (next a).Leaves s' post stop) stop) :
    (job >>= next).Leaves s post stop := by
  unfold Leaves at h ⊢
  rw [run_bind]
  cases hrun : job.run s with
  | ok a s' =>
    rw [hrun] at h
    exact h
  | error e s' =>
    rw [hrun] at h
    exact h

/-- Wherever the job starts and wherever it stops, the session left is related
to the first one, and the job stops with no fault but those for which `fault`
holds. -/
structure Keeps (rel : Session → Session → Prop) (fault : Fault → Prop) (job : Job α) : Prop where
  leaves : ∀ s, job.Leaves s (fun _ s' => rel s s') fun e s' => rel s s' ∧ fault e

variable {rel : Session → Session → Prop} {fault : Fault → Prop}

theorem Keeps.left {job : Job α} (h : job.Keeps rel fault) (s : Session) : rel s (job.left s) := by
  have hs := h.leaves s
  unfold Leaves at hs
  unfold Job.left
  cases hrun : job.run s with
  | ok a s' =>
    rw [hrun] at hs
    exact hs
  | error e s' =>
    rw [hrun] at hs
    exact hs.1

theorem Keeps.rel_of_run {job : Job α} (h : job.Keeps rel fault) {a : α} {s' : Session}
    (hrun : job.run s = .ok a s') : rel s s' := by
  have hs := h.leaves s
  unfold Leaves at hs
  rw [hrun] at hs
  exact hs

theorem keeps_pure (hrefl : ∀ s, rel s s) (a : α) : (pure a : Job α).Keeps rel fault := ⟨hrefl⟩

theorem keeps_throw (hrefl : ∀ s, rel s s) {e : Fault} (he : fault e) :
    (throw e : Job α).Keeps rel fault := ⟨fun s => ⟨hrefl s, he⟩⟩

theorem keeps_get (hrefl : ∀ s, rel s s) : (get : Job Session).Keeps rel fault := ⟨hrefl⟩

theorem Keeps.bind (htrans : ∀ s s' s'', rel s s' → rel s' s'' → rel s s'') {job : Job α}
    {next : α → Job β} (h : job.Keeps rel fault) (hnext : ∀ a, (next a).Keeps rel fault) :
    (job >>= next).Keeps rel fault := by
  refine ⟨fun s => leaves_bind ((h.leaves s).mono (fun a s' hs' => ?_) fun _ _ => id)⟩
  exact ((hnext a).leaves s').mono (fun _ s'' hs'' => htrans s s' s'' hs' hs'')
    fun _ s'' hs'' => ⟨htrans s s' s'' hs' hs''.1, hs''.2⟩

theorem keeps_notify {n : Notice} (h : ∀ s, rel s { s with notices := s.notices ++ [n] }) :
    (notify n).Keeps rel fault := ⟨h⟩

theorem keeps_modifyDocument {f : Document → Document}
    (h : ∀ s, rel s { s with document := f s.document }) :
    (modifyDocument f).Keeps rel fault := ⟨h⟩

theorem keeps_warn {kind : DiagnosticKind} {subject detail : String}
    (h : ∀ s, rel s { s with journal := s.journal.warn kind subject detail }) :
    (warn kind subject detail).Keeps rel fault := ⟨h⟩

/-- A range that is read may be stale, and nothing else goes wrong. -/
theorem keeps_lift_stale (hrefl : ∀ s, rel s s) (hstale : ∀ e, fault (.stale e))
    (result : Except StaleRange α) : (lift (result.mapError .stale)).Keeps rel fault := by
  cases result with
  | ok a => exact keeps_pure hrefl a
  | error e => exact keeps_throw hrefl (hstale e)

theorem keeps_rangeText (htrans : ∀ s s' s'', rel s s' → rel s' s'' → rel s s'')
    (hrefl : ∀ s, rel s s) (hstale : ∀ e, fault (.stale e)) (r : TextRange) :
    (rangeText r).Keeps rel fault :=
  (keeps_get hrefl).bind htrans fun _ => keeps_lift_stale hrefl hstale _

theorem keeps_edit (hrefl : ∀ s, rel s s) (hstale : ∀ e, fault (.stale e))
    {f : Document → Except StaleRange (Document × Edit)}
    (h : ∀ s d e, f s.document = .ok (d, e) → rel s { s with document := d }) :
    (edit f).Keeps rel fault := by
  refine ⟨fun s => leaves_bind ?_⟩
  show (lift ((f s.document).mapError .stale) >>= fun done =>
    modifyDocument (fun _ => done.1) >>= fun _ => pure done.2 : Job Edit).Leaves s _ _
  cases hf : f s.document with
  | ok done => exact h s done.1 done.2 hf
  | error e => exact ⟨hrefl s, hstale e⟩

/-! ### Results -/

/-- The job keeps the relation, and if it has a result, `good` holds of it. -/
structure Yields (rel : Session → Session → Prop) (fault : Fault → Prop) (good : α → Prop)
    (job : Job α) : Prop where
  leaves : ∀ s, job.Leaves s (fun a s' => rel s s' ∧ good a) fun e s' => rel s s' ∧ fault e

variable {good : α → Prop}

theorem Yields.keeps {job : Job α} (h : job.Yields rel fault good) : job.Keeps rel fault :=
  ⟨fun s => (h.leaves s).mono (fun _ _ ha => ha.1) fun _ _ => id⟩

theorem Keeps.yields {job : Job α} (h : job.Keeps rel fault) (hgood : ∀ a, good a) :
    job.Yields rel fault good :=
  ⟨fun s => (h.leaves s).mono (fun a _ hs => ⟨hs, hgood a⟩) fun _ _ => id⟩

theorem yields_pure (hrefl : ∀ s, rel s s) {a : α} (h : good a) :
    (pure a : Job α).Yields rel fault good := ⟨fun s => ⟨hrefl s, h⟩⟩

/-- What is done next only has to work for the results that there can be. -/
theorem Yields.bind (htrans : ∀ s s' s'', rel s s' → rel s' s'' → rel s s'') {job : Job α}
    {next : α → Job β} {good' : β → Prop} (h : job.Yields rel fault good)
    (hnext : ∀ a, good a → (next a).Yields rel fault good') :
    (job >>= next).Yields rel fault good' := by
  refine ⟨fun s => leaves_bind ((h.leaves s).mono (fun a s' hs' => ?_) fun _ _ => id)⟩
  refine ((hnext a hs'.2).leaves s').mono (fun _ s'' hs'' => ?_) fun _ s'' hs'' => ?_
  · exact ⟨htrans s s' s'' hs'.1 hs''.1, hs''.2⟩
  · exact ⟨htrans s s' s'' hs'.1 hs''.1, hs''.2⟩

/-- A job whose result does not matter for what is done next. -/
theorem Keeps.then (htrans : ∀ s s' s'', rel s s' → rel s' s'' → rel s s'') {job : Job α}
    {next : α → Job β} {good' : β → Prop} (h : job.Keeps rel fault)
    (hnext : ∀ a, (next a).Yields rel fault good') : (job >>= next).Yields rel fault good' :=
  (h.yields fun _ => trivial : job.Yields rel fault fun _ => True).bind htrans fun a _ => hnext a

end Compositor.Job
