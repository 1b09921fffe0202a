/-
# Composing does not depend on values under built-in keys

Two composers whose tables differ under built-in keys only, or in counters
that an earlier run left behind, compose the same document. The counters are
made anew before values are put in, so by then the tables answer every key
alike, and the passes and the repair do the same up to warnings of forbidden
overrides.

Key definitions: `Outcome.Alike`, `ComposedAlike`.
Key theorems: `alike_processTemplate`, `compose_ignores_overrides`.
-/
import Compositor.Proofs.Composer.Results
import Compositor.Proofs.Macro.Overrides

namespace Compositor
open Macro Job

theorem alike_processTemplate (w : Workspace) (settings : Settings) (mainText : List Block)
    {table table' : LookupTable} (h : table.SameBut table') :
    Job.Alike Eq (processTemplate w settings table mainText)
      (processTemplate w settings table' mainText) := by
  refine (alike_includeDocuments w settings.includeDepthLimit (some mainText)).bind
    fun passes passes' hpasses => ?_
  subst hpasses
  refine alike_get.bind fun s s' hs => ?_
  rw [hs.document]
  -- both tables have the counters of this document from here on
  generalize s.document.counts = counts
  have hcounted : LookupTable.SameBut { table with counters := some counts }
      { table' with counters := some counts } := ⟨h.locale, h.clock, h.statics⟩
  have hhandlers : List.Forall₂ Handler.Alike
      (valuePass { table with counters := some counts } settings.title).handlers
      (valuePass { table' with counters := some counts } settings.title).handlers :=
    .cons (.value (hcounted.lookup?_eq rfl rfl)) (.cons (.refl _) .nil)
  refine (alike_notify _).bind fun _ _ _ => ?_
  refine (alike_run macroPattern hhandlers).bind fun _ _ _ => ?_
  refine (alike_notify _).bind fun _ _ _ => ?_
  refine alike_repairFormulas.bind fun fixed fixed' hfixed => ?_
  subst hfixed
  refine (alike_notify _).bind fun _ _ _ => ?_
  exact (alike_modifyDocument _).bind fun _ _ _ => alike_pure rfl

/-- The outcomes are the same up to warnings of forbidden overrides. -/
structure Outcome.Alike (o o' : Outcome) : Prop where
  document : o'.document = o.document
  includePasses : o'.includePasses = o.includePasses
  formulas : o'.formulas = o.formulas
  formulasFixed : o'.formulasFixed = o.formulasFixed
  diagnostics : unforbidden o'.diagnostics = unforbidden o.diagnostics

/-- One fault, or outcomes that are the same up to warnings of forbidden
overrides. -/
def ComposedAlike : Except Fault Outcome → Except Fault Outcome → Prop
  | .ok o, .ok o' => o.Alike o'
  | .error fault, .error fault' => fault' = fault
  | _, _ => False

theorem composedAlike_outcomeOf {x y : EStateM.Result Fault Session (Nat × Nat)}
    (h : EndsAlike Eq x y) : ComposedAlike (Composer.outcomeOf x) (Composer.outcomeOf y) := by
  cases h with
  | @ok done done' s s' hdone hs =>
    subst hdone
    exact ⟨hs.document, rfl, hs.journal.formulas, rfl, hs.journal.diagnostics⟩
  | error fault hs => rfl

/-- **Values of the user cannot touch what is built in.** Two composers of
one configuration and one clock whose values differ under built-in keys only,
whatever earlier runs left in their counters, stop with one fault, or their
outcomes are the same up to warnings of forbidden overrides. -/
theorem compose_ignores_overrides {c c' : Composer} (hsettings : c'.settings = c.settings)
    (htables : c.table.SameBut c'.table) (w : Workspace) (template main : String) :
    ComposedAlike (c.compose w template main) (c'.compose w template main) := by
  rw [Composer.compose_eq, Composer.compose_eq, hsettings]
  cases (w.files.loadDocument main).mapError (Fault.load main) with
  | error fault => rfl
  | ok mainText =>
    cases (w.files.loadDocument template).mapError (Fault.load template) with
    | error fault => rfl
    | ok d =>
      exact composedAlike_outcomeOf (alike_processTemplate w c.settings (mainTextBlocks mainText)
        htables { document := d } { document := d } (.refl _))

/-- A composer with a value for `A`. -/
def plainComposer : Composer where
  settings := {}
  table := { clock := ⟨2024, 1, 1, 0, 0, 0, 0⟩, statics := [("A", "one")] }

/-- The composer with values under built-in keys besides, after a run. -/
def overridingComposer : Composer where
  settings := {}
  table := {
    clock := ⟨2024, 1, 1, 0, 0, 0, 0⟩
    statics := [("TOC", "none"), ("YEAR", "1999"), ("N_TABLES", "12"), ("A", "one")]
    counters := some ⟨5, 5, 5, 5⟩ }

/-- A template with a built-in token of each kind, and a main text. -/
def builtInTokens : Workspace where
  files := {
    entries := [
      (["template.txt"], .file (.text "%MAIN_TEXT% %TOC% %YEAR% %N_TABLES% %A%")),
      (["main.txt"], .file (.text "words"))] }
  base := "/"

theorem sameBut_overridingComposer :
    plainComposer.table.SameBut overridingComposer.table := by
  refine ⟨rfl, rfl, fun key hkey => ?_⟩
  have hcontents : (key == "TOC") = false := by
    refine beq_eq_false_iff_ne.mpr ?_
    rintro rfl
    exact hkey (.inl (by decide))
  have hyear : (key == "YEAR") = false := by
    refine beq_eq_false_iff_ne.mpr ?_
    rintro rfl
    exact hkey (.inr (.inl (by decide)))
  have htables : (key == "N_TABLES") = false := by
    refine beq_eq_false_iff_ne.mpr ?_
    rintro rfl
    exact hkey (.inr (.inr (.inl (by decide))))
  simp only [plainComposer, overridingComposer, List.lookup_cons, hcontents, hyear, htables]

/-- The warning of the forbidden override is all that differs. -/
theorem alike_overridingComposer :
    plainComposer.table.SameBut overridingComposer.table ∧
    ∃ o o', plainComposer.compose builtInTokens "template.txt" "main.txt" = .ok o ∧
      overridingComposer.compose builtInTokens "template.txt" "main.txt" = .ok o' ∧
      o'.document = o.document ∧ o.diagnostics = [] ∧
      o'.diagnostics.map (·.kind) = [.forbiddenOverride] := by
  have hplain : (plainComposer.compose builtInTokens "template.txt" "main.txt").toOption.map
      (·.diagnostics) = some [] := by decide +kernel
  have hoverriding :
      (overridingComposer.compose builtInTokens "template.txt" "main.txt").toOption.map
        (·.diagnostics.map (·.kind)) = some [.forbiddenOverride] := by decide +kernel
  obtain ⟨o, ho, hdiagnostics⟩ := Option.map_eq_some_iff.mp hplain
  obtain ⟨o', ho', hkinds⟩ := Option.map_eq_some_iff.mp hoverriding
  have hsettings : overridingComposer.settings = plainComposer.settings := rfl
  have halike := compose_ignores_overrides hsettings sameBut_overridingComposer builtInTokens
    "template.txt" "main.txt"
  have hok := eq_ok_of_toOption ho
  have hok' := eq_ok_of_toOption ho'
  rw [hok, hok'] at halike
  exact ⟨sameBut_overridingComposer, o, o', hok, hok', halike.document, hdiagnostics, hkinds⟩

end Compositor
