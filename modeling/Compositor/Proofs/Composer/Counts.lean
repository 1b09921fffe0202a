/-
# Counts in composed documents

The counters are set before values are put in, and are still right when the
document is done: whatever is done from then on leaves the tables and the
objects alone. Every step of the value pass does, so the pass does by
induction over its visits; and the repair of the formulas and the refresh of
the tables of contents do.

Key definitions: `LookupTable.counting`, `Stages`.
Key theorems: `Handler.actsWithin_fixtures`, `keptBy_fixtures`, `exists_stages`,
`counts_of_compose`.
-/
import Compositor.Proofs.Composer.Results
import Compositor.Proofs.Document.Fixtures
import Compositor.Proofs.Macro.Keeping

namespace Compositor
open Macro Job

/-- The tables and the objects are the same. -/
def Session.KeepsFixtures (s s' : Session) : Prop := s'.document.fixtures = s.document.fixtures

namespace Session.KeepsFixtures

theorem refl (s : Session) : s.KeepsFixtures s := rfl

theorem trans (s s' s'' : Session) (h : s.KeepsFixtures s') (h' : s'.KeepsFixtures s'') :
    s.KeepsFixtures s'' := Eq.trans h' h

end Session.KeepsFixtures

/-! ### The value pass -/

namespace Macro

/-- Handlers that bring in no table and no object. -/
def Handler.KeepsFixtures (h : Handler) : Prop := h.kind = .value ∨ h.kind = .contents

/-- Values and tables of contents leave the tables and the objects alone,
wherever they go. -/
theorem Handler.actsWithin_fixtures {h : Handler} (hh : h.KeepsFixtures) :
    h.ActsWithin Session.KeepsFixtures fun _ => True where
  refl := .refl
  trans := .trans
  stale _ := trivial
  load _ _ := trivial
  splice bs hbs s r d e he := by
    cases hbs with
    | document | mainText => rcases hh with hh | hh <;> cases hh
    | contents title => exact Document.fixtures_splice_contents he
  replaceText _ _ _ _ _ he := Document.fixtures_replaceText he
  refresh s := s.document.fixtures_refreshContents
  report _ _ _ _ := rfl
  warn _ _ _ _ _ := rfl

/-- All that the value pass is made of leaves the tables and the objects alone. -/
theorem keptBy_fixtures : KeptBy Handler.KeepsFixtures Session.KeepsFixtures fun _ => True where
  refl := .refl
  trans := .trans
  notify _ _ := rfl
  warn _ _ _ _ _ := rfl
  stale _ := trivial
  substitute r t h hh := by
    refine (Handler.actsWithin_fixtures hh).yields_substitute _ hh ?_ r t
    rintro content rfl
    rcases hh with hh | hh <;> cases hh

theorem keeps_fixtures_valuePass (table : LookupTable) (title : String) :
    (valuePass table title).run.Keeps Session.KeepsFixtures fun _ => True := by
  refine keptBy_fixtures.run fun h hh => ?_
  rcases List.mem_pair.mp hh with rfl | rfl
  · exact .inl rfl
  · exact .inr rfl

end Macro

/-! ### The repair of formulas -/

/-- What the repaired blocks keep is kept, also where a fault stops the repair:
then the blocks up to the fault are repaired. -/
theorem Job.keeps_repairFormulas {rel : Session → Session → Prop}
    (h : ∀ s journal notices, rel s
      { document := { s.document with blocks := (repairBlocks s.document.blocks).blocks }
        journal, notices }) :
    Job.repairFormulas.Keeps rel fun _ => True := by
  refine ⟨fun s => leaves_bind (leaves_get (leaves_bind ?_))⟩
  dsimp only
  cases (repairBlocks s.document.blocks).fault? with
  | none => exact h s _ _
  | some fault => exact ⟨h s _ _, trivial⟩

theorem keeps_fixtures_repairFormulas :
    Job.repairFormulas.Keeps Session.KeepsFixtures fun _ => True :=
  keeps_repairFormulas fun s _ _ => fixturesOf_repairBlocks s.document.blocks

/-! ### The counters -/

namespace Macro.LookupTable

/-- The table with the counters of a document. -/
def counting (t : LookupTable) (d : Document) : LookupTable := { t with counters := some d.counts }

/-- The clock answers no key of a counter. -/
theorem clockValue?_of_counter (t : LookupTable) {key : String}
    (hkey : key ∈ ["N_FIGURES", "N_TABLES", "N_FORMULAS"]) : t.clockValue? key = none := by
  have hpattern : t.datePattern? key = none := by
    simp only [List.mem_cons, List.not_mem_nil, or_false] at hkey
    rcases hkey with rfl | rfl | rfl <;> rfl
  have hyear : key ≠ "YEAR" := by
    rintro rfl
    exact absurd hkey (by decide)
  rw [clockValue?, if_neg hyear, hpattern]
  rfl

/-- What the counters stand for. -/
theorem lookup?_counting (t : LookupTable) (d : Document) :
    (t.counting d).lookup? "N_FIGURES" = some (toString (d.objects .image).length) ∧
      (t.counting d).lookup? "N_TABLES" = some (toString d.tables.length) ∧
      (t.counting d).lookup? "N_FORMULAS" = some (toString (d.objects .formula).length) := by
  unfold lookup?
  rw [clockValue?_of_counter _ (by decide), clockValue?_of_counter _ (by decide),
    clockValue?_of_counter _ (by decide)]
  exact ⟨rfl, rfl, rfl⟩

end Macro.LookupTable

/-! ### The stages of composing -/

/-- The session with a stage noted. -/
def Session.noting (s : Session) (stage : String) : Session :=
  { s with notices := s.notices ++ [.stage stage] }

/-- How an outcome was composed: the sessions after the inclusion of documents,
after values were put in and after the repair of the formulas. The values are
those of a table with the counters of the document at that time. -/
structure Composer.Stages (c : Composer) (w : Workspace) (template main : String)
    (outcome : Outcome) (included valued repaired : Session) : Prop where
  inclusion : ∃ d mainText passes, w.files.loadDocument template = .ok d ∧
    w.files.loadDocument main = .ok mainText ∧
    (includeDocuments w c.settings.includeDepthLimit (some (mainTextBlocks mainText))).run
      { document := d } = .ok passes included
  values : ∃ report, (valuePass (c.table.counting included.document) c.settings.title).run.run
    (included.noting "Substituting macros") = .ok report valued
  repair : ∃ fixed, Job.repairFormulas.run (valued.noting "Fixing formulas") = .ok fixed repaired
  refresh : outcome.document = repaired.document.refreshContents

theorem Composer.exists_stages {c : Composer} {w : Workspace} {template main : String}
    {outcome : Outcome} (h : c.compose w template main = .ok outcome) :
    ∃ included valued repaired, c.Stages w template main outcome included valued repaired := by
  obtain ⟨mainText, d, passes, fixed, s', hmain, htemplate, hrun, rfl⟩ := exists_of_compose h
  unfold processTemplate at hrun
  obtain ⟨passes', included, hincluded, hrun⟩ := exists_of_run_bind hrun
  obtain ⟨_, _, hget, hrun⟩ := exists_of_run_bind hrun
  cases hget
  obtain ⟨_, _, hnotify, hrun⟩ := exists_of_run_bind hrun
  cases hnotify
  obtain ⟨report, valued, hvalued, hrun⟩ := exists_of_run_bind hrun
  obtain ⟨_, _, hnotify, hrun⟩ := exists_of_run_bind hrun
  cases hnotify
  obtain ⟨fixed', repaired, hrepaired, hrun⟩ := exists_of_run_bind hrun
  refine ⟨included, valued, repaired, ⟨d, mainText, passes', htemplate, hmain, hincluded⟩,
    ⟨report, hvalued⟩, ⟨fixed', hrepaired⟩, ?_⟩
  cases hrun
  rfl

/-- **The counts are right in the end.** Text put for a range, a table of
contents put for a range of a paragraph or of a cell, the value pass, the repair
of the formulas and the refresh of the tables of contents never add, drop,
reorder or change a table or an object, but for the texts of cells and the
properties of objects, and they do not even where they stop with a fault. So
whatever is composed, the counters stand for the numbers of images, tables and
formulas of the outcome, although they were set before the value pass. -/
theorem counts_of_compose :
    (∀ (d : Document) (r : TextRange) (new : String) (d' : Document) (e : Edit),
      d.replaceText r new = .ok (d', e) → d'.fixtures = d.fixtures) ∧
    (∀ (d : Document) (r : TextRange) (title : String) (d' : Document) (e : Edit),
      d.splice r [Handler.emptyContents title] = .ok (d', e) → d'.fixtures = d.fixtures) ∧
    (∀ (table : LookupTable) (title : String) (s : Session),
      ((valuePass table title).run.left s).document.fixtures = s.document.fixtures) ∧
    (∀ s : Session, (Job.repairFormulas.left s).document.fixtures = s.document.fixtures) ∧
    (∀ d : Document, d.refreshContents.fixtures = d.fixtures) ∧
    ∀ (c : Composer) (w : Workspace) (template main : String) (outcome : Outcome),
      c.compose w template main = .ok outcome →
      ∃ included valued repaired, c.Stages w template main outcome included valued repaired ∧
        outcome.document.fixtures = included.document.fixtures ∧
        (c.table.counting included.document).lookup? "N_FIGURES" =
          some (toString (outcome.document.objects .image).length) ∧
        (c.table.counting included.document).lookup? "N_TABLES" =
          some (toString outcome.document.tables.length) ∧
        (c.table.counting included.document).lookup? "N_FORMULAS" =
          some (toString (outcome.document.objects .formula).length) := by
  refine ⟨fun d r new d' e => Document.fixtures_replaceText,
    fun d r title d' e => Document.fixtures_splice_contents,
    fun table title => (keeps_fixtures_valuePass table title).left,
    keeps_fixtures_repairFormulas.left, Document.fixtures_refreshContents, ?_⟩
  intro c w template main outcome h
  obtain ⟨included, valued, repaired, hstages⟩ := Composer.exists_stages h
  obtain ⟨report, hvalued⟩ := hstages.values
  obtain ⟨fixed, hrepaired⟩ := hstages.repair
  have hpass : (included.noting "Substituting macros").KeepsFixtures valued :=
    (keeps_fixtures_valuePass _ _).rel_of_run hvalued
  have hrepair : (valued.noting "Fixing formulas").KeepsFixtures repaired :=
    keeps_fixtures_repairFormulas.rel_of_run hrepaired
  have hfixtures : outcome.document.fixtures = included.document.fixtures := by
    calc outcome.document.fixtures
        = repaired.document.fixtures := by
          rw [hstages.refresh, Document.fixtures_refreshContents]
      _ = valued.document.fixtures := hrepair
      _ = included.document.fixtures := hpass
  refine ⟨included, valued, repaired, hstages, hfixtures, ?_⟩
  simp only [Document.length_objects, Document.length_tables, hfixtures]
  simp only [← Document.length_objects, ← Document.length_tables]
  exact c.table.lookup?_counting included.document

/-- A template with two counters around a table of contents, and a main text
with an image and a formula. -/
def illustrated : Workspace where
  files := {
    entries := [
      (["template.txt"], .file (.text "%MAIN_TEXT%\n\n%N_FIGURES% and %N_FORMULAS% %TOC% end")),
      (["main.txt"], .file (.text "![View](v.png)\n\n$$a$$"))] }
  base := "/"

theorem compose_illustrated :
    (newYearComposer.compose illustrated "template.txt" "main.txt").toOption.map
      (fun o => (o.document.paragraphs.map Paragraph.text, (o.document.objects .image).length,
        (o.document.objects .formula).length)) =
      some (["1 and 1 ", " end"], 1, 1) := by decide +kernel

/-- The counters stand for the one image and the one formula, in the table of
the value pass as in the text of the outcome. -/
theorem counts_illustrated :
    ∃ outcome included valued repaired,
      newYearComposer.compose illustrated "template.txt" "main.txt" = .ok outcome ∧
      newYearComposer.Stages illustrated "template.txt" "main.txt" outcome included valued
        repaired ∧
      (newYearComposer.table.counting included.document).lookup? "N_FIGURES" = some "1" ∧
      (newYearComposer.table.counting included.document).lookup? "N_FORMULAS" = some "1" ∧
      outcome.document.paragraphs.map Paragraph.text = ["1 and 1 ", " end"] := by
  obtain ⟨outcome, houtcome, hcomposed⟩ := Option.map_eq_some_iff.mp compose_illustrated
  obtain ⟨htexts, hnumbers⟩ := Prod.mk.inj hcomposed
  obtain ⟨himages, hformulas⟩ := Prod.mk.inj hnumbers
  have hok : newYearComposer.compose illustrated "template.txt" "main.txt" = .ok outcome :=
    eq_ok_of_toOption houtcome
  obtain ⟨included, valued, repaired, hstages, -, hfigures, -, hnumber⟩ :=
    counts_of_compose.2.2.2.2.2 _ _ _ _ outcome hok
  rw [himages] at hfigures
  rw [hformulas] at hnumber
  exact ⟨outcome, included, valued, repaired, hok, hstages, hfigures, hnumber, htexts⟩

end Compositor
