/-
# Two runs side by side

Two sessions are alike if they differ at most in their warnings of forbidden
overrides. No job reads the diagnostics, so two jobs that do the same up to
such warnings, started in sessions that are alike, stop with one fault, or
they end with related results, and leave sessions that are alike again. What
holds of two sequences of jobs is put together from what holds of their parts.

Key definitions: `Session.Alike`, `Job.Alike`, `Job.Silent`.
Key theorems: `Job.Alike.bind`, `Job.Silent.alike`, `alike_lift_document`.
-/
import Compositor.Document.Formulas
import Compositor.Proofs.Outcome

namespace Compositor

/-- The diagnostics but for the warnings of forbidden overrides. -/
def unforbidden (ds : List Diagnostic) : List Diagnostic :=
  ds.filter (·.kind ≠ .forbiddenOverride)

/-- At most the warnings of forbidden overrides differ. -/
structure Journal.Alike (j j' : Journal) : Prop where
  missing : j'.missing = j.missing
  formulas : j'.formulas = j.formulas
  diagnostics : unforbidden j'.diagnostics = unforbidden j.diagnostics

/-- At most the warnings of forbidden overrides differ. -/
structure Session.Alike (s s' : Session) : Prop where
  document : s'.document = s.document
  journal : s.journal.Alike s'.journal
  notices : s'.notices = s.notices

/-- Two jobs end with related results, or they stop with one fault, and the
sessions that they leave are alike. -/
inductive EndsAlike {α β : Type} (rel : α → β → Prop) :
    EStateM.Result Fault Session α → EStateM.Result Fault Session β → Prop
  | ok {a : α} {b : β} {s s' : Session} : rel a b → s.Alike s' →
    EndsAlike rel (.ok a s) (.ok b s')
  | error (e : Fault) {s s' : Session} : s.Alike s' → EndsAlike rel (.error e s) (.error e s')

/-- Started in sessions that are alike, the two jobs end alike. -/
def Job.Alike {α β : Type} (rel : α → β → Prop) (job : Job α) (job' : Job β) : Prop :=
  ∀ s s' : Session, s.Alike s' → EndsAlike rel (job.run s) (job'.run s')

/-- The job changes nothing but warnings of forbidden overrides. -/
def Job.Silent (job : Job Unit) : Prop := ∀ s : Session, ∃ s', job.run s = .ok () s' ∧ s.Alike s'

namespace Session

theorem Alike.refl (s : Session) : s.Alike s := ⟨rfl, ⟨rfl, rfl, rfl⟩, rfl⟩

theorem Alike.symm {s s' : Session} (h : s.Alike s') : s'.Alike s :=
  ⟨h.document.symm, ⟨h.journal.missing.symm, h.journal.formulas.symm,
    h.journal.diagnostics.symm⟩, h.notices.symm⟩

theorem Alike.trans {s s' s'' : Session} (h : s.Alike s') (h' : s'.Alike s'') : s.Alike s'' :=
  ⟨h'.document.trans h.document, ⟨h'.journal.missing.trans h.journal.missing,
    h'.journal.formulas.trans h.journal.formulas,
    h'.journal.diagnostics.trans h.journal.diagnostics⟩, h'.notices.trans h.notices⟩

end Session

theorem Journal.Alike.isMissing_eq {j j' : Journal} (h : j.Alike j') (raw : String) :
    j'.isMissing raw = j.isMissing raw := by
  unfold Journal.isMissing
  rw [h.missing]

theorem Journal.Alike.warn {j j' : Journal} (h : j.Alike j') (kind : DiagnosticKind)
    (subject detail : String) :
    (j.warn kind subject detail).Alike (j'.warn kind subject detail) := by
  refine ⟨h.missing, h.formulas, ?_⟩
  unfold unforbidden Journal.warn
  rw [List.filter_append, List.filter_append]
  exact congrArg (· ++ _) h.diagnostics

theorem Journal.Alike.markMissing {j j' : Journal} (h : j.Alike j') (raw : String) :
    (j.markMissing raw).Alike (j'.markMissing raw) := by
  unfold Journal.markMissing
  rw [h.isMissing_eq]
  split
  · exact h
  · exact ⟨congrArg (raw :: ·) h.missing, h.formulas, h.diagnostics⟩

theorem Journal.Alike.registerAll {j j' : Journal} (h : j.Alike j') (names : List String) :
    (names.foldl Journal.register j).Alike (names.foldl Journal.register j') := by
  induction names generalizing j j' with
  | nil => exact h
  | cons name names ih =>
    exact ih ⟨h.missing, congrArg (· ++ [name]) h.formulas, h.diagnostics⟩

theorem Journal.alike_warn_forbidden (j : Journal) (subject detail : String) :
    j.Alike (j.warn .forbiddenOverride subject detail) := by
  refine ⟨rfl, rfl, ?_⟩
  unfold unforbidden Journal.warn
  rw [List.filter_append]
  exact List.append_nil _

namespace Job

variable {α β γ δ : Type} {rel : α → β → Prop} {rel' : γ → δ → Prop}

theorem Alike.mono {job : Job α} {job' : Job β} {other : α → β → Prop}
    (h : Alike rel job job') (hrel : ∀ a b, rel a b → other a b) : Alike other job job' := by
  intro s s' hs
  have hjob := h s s' hs
  generalize job.run s = x, job'.run s' = y at hjob ⊢
  cases hjob with
  | ok hab ht => exact .ok (hrel _ _ hab) ht
  | error e ht => exact .error e ht

theorem alike_pure {a : α} {b : β} (h : rel a b) : Alike rel (pure a) (pure b) :=
  fun _ _ hs => .ok h hs

theorem alike_throw (e : Fault) : Alike rel (throw e) (throw e) := fun _ _ hs => .error e hs

theorem Alike.bind {job : Job α} {job' : Job β} {next : α → Job γ} {next' : β → Job δ}
    (h : Alike rel job job') (hnext : ∀ a b, rel a b → Alike rel' (next a) (next' b)) :
    Alike rel' (job >>= next) (job' >>= next') := by
  intro s s' hs
  have hjob := h s s' hs
  rw [run_bind, run_bind]
  generalize job.run s = x, job'.run s' = y at hjob ⊢
  cases hjob with
  | ok hab ht => exact hnext _ _ hab _ _ ht
  | error e ht => exact .error e ht

/-! ### Jobs that warn of forbidden overrides -/

theorem silent_pure : Silent (pure ()) := fun s => ⟨s, rfl, .refl s⟩

theorem silent_warn_forbidden (subject detail : String) :
    Silent (warn .forbiddenOverride subject detail) :=
  fun s => ⟨_, rfl, rfl, s.journal.alike_warn_forbidden subject detail, rfl⟩

theorem Silent.bind {job job' : Job Unit} (h : job.Silent) (h' : job'.Silent) :
    (job >>= fun _ => job').Silent := by
  intro s
  obtain ⟨t, hrun, ht⟩ := h s
  obtain ⟨t', hrun', ht'⟩ := h' t
  refine ⟨t', ?_, ht.trans ht'⟩
  rw [run_bind, hrun]
  exact hrun'

theorem Silent.alike {job job' : Job Unit} (h : job.Silent) (h' : job'.Silent) :
    Alike (fun _ _ => True) job job' := by
  intro s s' hs
  obtain ⟨t, hrun, ht⟩ := h s
  obtain ⟨t', hrun', ht'⟩ := h' s'
  rw [hrun, hrun']
  exact .ok trivial (ht.symm.trans (hs.trans ht'))

/-! ### The document, the journal and the notices -/

theorem alike_get : Alike Session.Alike get get := fun _ _ hs => .ok hs hs

theorem alike_set {t t' : Session} (h : t.Alike t') :
    Alike (fun _ _ => True) (set t : Job PUnit) (set t') := fun _ _ _ => .ok trivial h

theorem alike_notify (n : Notice) : Alike Eq (notify n) (notify n) :=
  fun _ _ hs => .ok rfl ⟨hs.document, hs.journal, congrArg (· ++ [n]) hs.notices⟩

theorem alike_modifyJournal {f : Journal → Journal}
    (h : ∀ j j' : Journal, j.Alike j' → (f j).Alike (f j')) :
    Alike Eq (modifyJournal f) (modifyJournal f) :=
  fun _ _ hs => .ok rfl ⟨hs.document, h _ _ hs.journal, hs.notices⟩

theorem alike_modifyDocument (f : Document → Document) :
    Alike Eq (modifyDocument f) (modifyDocument f) :=
  fun _ _ hs => .ok rfl ⟨congrArg f hs.document, hs.journal, hs.notices⟩

theorem alike_warn (kind : DiagnosticKind) (subject detail : String) :
    Alike Eq (warn kind subject detail) (warn kind subject detail) :=
  alike_modifyJournal fun _ _ h => h.warn kind subject detail

theorem alike_lift (result : Except Fault α) : Alike Eq (lift result) (lift result) := by
  cases result with
  | ok a => exact alike_pure rfl
  | error e => exact alike_throw e

/-- A computation that reads nothing of a session but its document. -/
theorem alike_lift_document (f : Document → Except Fault α) :
    Alike Eq (do lift (f (← get).document)) (do lift (f (← get).document)) := by
  refine alike_get.bind fun s s' hs => ?_
  rw [hs.document]
  exact alike_lift _

theorem alike_rangeText (r : TextRange) : Alike Eq (rangeText r) (rangeText r) :=
  alike_lift_document fun d => (d.rangeText r).mapError .stale

theorem alike_edit (f : Document → Except StaleRange (Document × Edit)) :
    Alike Eq (edit f) (edit f) := by
  unfold edit
  refine alike_get.bind fun s s' hs => ?_
  rw [hs.document]
  refine (alike_lift _).bind fun done done' hdone => ?_
  subst hdone
  exact (alike_modifyDocument _).bind fun _ _ _ => alike_pure rfl

theorem alike_repairFormulas : Alike Eq repairFormulas repairFormulas := by
  unfold repairFormulas
  refine alike_get.bind fun s s' hs => ?_
  rw [hs.document]
  dsimp only
  have hset := hs.journal.registerAll (repairBlocks s.document.blocks).names
  refine Alike.bind (alike_set ⟨rfl, hset, ?_⟩) fun _ _ _ => ?_
  · dsimp only
    rw [hs.notices]
  · split
    · exact alike_throw _
    · exact alike_pure rfl

end Job
end Compositor
