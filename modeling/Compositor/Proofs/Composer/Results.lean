/-
# What composing results in

Composing loads two documents and processes one of them; its result is read
off the session in which processing ends, or it is the fault at which
processing stops.

Key definition: `Composer.outcomeOf`.
Key theorems: `compose_eq`, `exists_of_compose`.
-/
import Compositor.Composer
import Compositor.Proofs.File.Loadable

namespace Compositor
open Macro FileSystem

namespace Composer

/-- The outcome for a session in which processing ends. -/
def outcomeOf : EStateM.Result Fault Session (Nat × Nat) → Except Fault Outcome
  | .ok (includePasses, formulasFixed) s =>
    .ok ⟨s.document, s.journal.diagnostics, includePasses, s.journal.formulas, formulasFixed⟩
  | .error fault _ => .error fault

theorem compose_eq (c : Composer) (w : Workspace) (template main : String) :
    c.compose w template main = (do
      let mainText ← (w.files.loadDocument main).mapError (.load main)
      let document ← (w.files.loadDocument template).mapError (.load template)
      outcomeOf ((processTemplate w c.settings c.table (mainTextBlocks mainText)).run
        { document })) := by
  unfold compose
  refine bind_congr fun mainText => bind_congr fun document => ?_
  cases (processTemplate w c.settings c.table (mainTextBlocks mainText)).run { document } with
  | ok done s => rfl
  | error fault s => rfl

theorem eq_ok_of_mapError {ε ε' α : Type} {f : ε → ε'} {x : Except ε α} {a : α}
    (h : x.mapError f = .ok a) : x = .ok a := by
  cases x with
  | ok b => exact congrArg Except.ok (Except.ok.inj h)
  | error e => cases h

/-- A document that was composed comes from processing its template. -/
theorem exists_of_compose {c : Composer} {w : Workspace} {template main : String}
    {outcome : Outcome} (h : c.compose w template main = .ok outcome) :
    ∃ mainText d passes fixed s',
      w.files.loadDocument main = .ok mainText ∧ w.files.loadDocument template = .ok d ∧
      (processTemplate w c.settings c.table (mainTextBlocks mainText)).run { document := d } =
        .ok (passes, fixed) s' ∧
      outcome = ⟨s'.document, s'.journal.diagnostics, passes, s'.journal.formulas, fixed⟩ := by
  rw [compose_eq] at h
  obtain ⟨mainText, hmain, h⟩ := exists_of_bind_eq_ok h
  obtain ⟨d, htemplate, h⟩ := exists_of_bind_eq_ok h
  cases hrun : (processTemplate w c.settings c.table (mainTextBlocks mainText)).run
      { document := d } with
  | ok done s' =>
    rw [hrun] at h
    cases h
    exact ⟨mainText, d, done.1, done.2, s', eq_ok_of_mapError hmain, eq_ok_of_mapError htemplate,
      hrun, rfl⟩
  | error fault s' =>
    rw [hrun] at h
    cases h

end Composer

/-- A composer without values of the user. -/
def newYearComposer : Composer := .ofSettings {} ⟨2024, 1, 1, 0, 0, 0, 0⟩

theorem eq_ok_of_toOption {ε α : Type} {x : Except ε α} {a : α} (h : x.toOption = some a) :
    x = .ok a := by
  cases x with
  | ok b => exact congrArg Except.ok (Option.some.inj h)
  | error e => cases h

end Compositor
