/-
# Tables of contents in composed documents

The last thing that is done to a document is a refresh, so its tables of
contents list its headings and another refresh changes nothing. They also do
when the document is saved as a snapshot and loaded again: that only gives out
the ids anew and rereads the font sizes. It can be loaded, since all formats of
a composed document come from loaded documents, and those have modest sizes.

Key definitions: `Session.KeepsFormats`, `Handler.BringsModest`.
Key theorems: `Handler.actsWithin_formats`, `keptBy_formats`, `Stages.isModest`,
`contents_of_compose`.
-/
import Compositor.Proofs.Composer.Counts
import Compositor.Proofs.Document.Headings
import Compositor.Proofs.File.LoadedFormats
import Compositor.Proofs.File.Saving

namespace Compositor
open Macro Job

/-! ### Formats -/

/-- The document's formats stay modest. -/
def Session.KeepsFormats (s s' : Session) : Prop :=
  s.document.FormatsAmong TextFormat.IsModest → s'.document.FormatsAmong TextFormat.IsModest

namespace Session.KeepsFormats

theorem refl (s : Session) : s.KeepsFormats s := id

theorem trans (s s' s'' : Session) (h : s.KeepsFormats s') (h' : s'.KeepsFormats s'') :
    s.KeepsFormats s'' := h' ∘ h

end Session.KeepsFormats

namespace Macro

/-- The main text that the handler inserts, if it inserts one, has modest
formats. -/
def Handler.BringsModest : Handler → Prop
  | .mainText (some content) => ∀ b ∈ content, b.FormatsAmong TextFormat.IsModest
  | _ => True

/-- What a handler puts in has modest formats. -/
theorem Handler.actsWithin_formats {h : Handler} (hh : h.BringsModest) :
    h.ActsWithin Session.KeepsFormats fun _ => True where
  refl := .refl
  trans := .trans
  stale _ := trivial
  load _ _ := trivial
  splice bs hbs s r d e he hs := by
    refine hs.splice ?_ he
    cases hbs with
    | document hload => exact FileSystem.isModest_of_loadDocument hload
    | mainText content => exact hh
    | contents title => exact List.forall_mem_singleton.mpr (List.forall_mem_nil _)
  replaceText _ _ _ _ _ he hs := hs.replaceText TextFormat.isModest_default he
  refresh _ hs := hs.refreshContents
  report _ _ _ _ := id
  warn _ _ _ _ _ := id

/-- All that a pass is made of keeps the formats modest. -/
theorem keptBy_formats : KeptBy Handler.BringsModest Session.KeepsFormats fun _ => True where
  refl := .refl
  trans := .trans
  notify _ _ := id
  warn _ _ _ _ _ := id
  stale _ := trivial
  substitute r t _ hh :=
    (Handler.actsWithin_formats hh).yields_substitute _ hh (fun _ _ => trivial) r t

end Macro

theorem keeps_formats_repairFormulas :
    Job.repairFormulas.Keeps Session.KeepsFormats fun _ => True :=
  keeps_repairFormulas fun _ _ _ => formatsAmong_repairBlocks

/-- A composed document has modest formats only. -/
theorem Composer.Stages.isModest {c : Composer} {w : Workspace} {template main : String}
    {outcome : Outcome} {included valued repaired : Session}
    (h : c.Stages w template main outcome included valued repaired) :
    outcome.document.FormatsAmong TextFormat.IsModest := by
  obtain ⟨d, mainText, passes, htemplate, hmain, hincluded⟩ := h.inclusion
  obtain ⟨report, hvalued⟩ := h.values
  obtain ⟨fixed, hrepaired⟩ := h.repair
  have hcontent : (Handler.mainText (some (mainTextBlocks mainText))).BringsModest :=
    (FileSystem.isModest_of_loadDocument hmain).mainTextBlocks
  have hinclusion : ({ document := d } : Session).KeepsFormats included :=
    (keptBy_formats.includeDocuments (fun _ _ => trivial) trivial _
      fun _ heq => Option.some.inj heq ▸ hcontent).rel_of_run hincluded
  have hpass : (included.noting "Substituting macros").KeepsFormats valued :=
    (keptBy_formats.run fun g hg => by
      rcases List.mem_pair.mp hg with rfl | rfl <;> exact trivial).rel_of_run hvalued
  have hrepair : (valued.noting "Fixing formulas").KeepsFormats repaired :=
    keeps_formats_repairFormulas.rel_of_run hrepaired
  have hmodest : repaired.document.FormatsAmong TextFormat.IsModest :=
    hrepair (hpass (hinclusion (FileSystem.isModest_of_loadDocument htemplate)))
  rw [h.refresh]
  exact hmodest.refreshContents

/-! ### Contents -/

/-- **Tables of contents are right in the end, and stay so on disk.** In a
composed document every table of contents lists the headings, and another
refresh changes nothing. If the document is saved as a snapshot, it can be
loaded again, and both are then true of the document loaded. The two bounds are
those of the numbers that places and file sizes are kept in. -/
theorem contents_of_compose {c : Composer} {w : Workspace} {template main : String}
    {outcome : Outcome} (h : c.compose w template main = .ok outcome) :
    outcome.document.ContentsCurrent ∧ outcome.document.refreshContents = outcome.document ∧
      ∀ (fs files : FileSystem) (path : String), Path.extension path = snapshotExtension →
        outcome.document.blocks.length ≤ sizeBound →
        outcome.document.metadata.fileSize < sizeBound →
        fs.saveDocument outcome.document path = .ok files →
        ∃ d, files.loadDocument path = .ok d ∧ d.ContentsCurrent ∧ d.refreshContents = d ∧
          d.outline = outcome.document.outline := by
  obtain ⟨included, valued, repaired, hstages⟩ := Composer.exists_stages h
  have hrefresh : outcome.document.refreshContents = outcome.document := by
    rw [hstages.refresh, Document.refreshContents_refreshContents]
  refine ⟨Document.contentsCurrent_of_refreshContents_eq hrefresh, hrefresh, ?_⟩
  intro fs files path hjson hlength hsize hsave
  have hreadable : outcome.document.Readable := by
    refine ⟨fun b hb => ⟨hstages.isModest b hb, fun place hplace => ?_⟩, hsize⟩
    exact Nat.lt_of_lt_of_le
      (Document.place_lt_of_refreshContents_eq hrefresh hb hplace) hlength
  have houtlined := outcome.document.outlined_reread_renumber
  have hloaded := Document.refreshContents_eq_congr houtlined hrefresh
  exact ⟨_, FileSystem.loadDocument_of_saveDocument hreadable hjson hsave,
    Document.contentsCurrent_of_refreshContents_eq hloaded, hloaded,
    Document.outline_congr houtlined⟩

/-- A template with a table of contents before two headings, one of which is
split by the main text. -/
def chaptered : Workspace where
  files := {
    entries := [
      (["template.txt"], .file (.text "%TOC%\n\n# One %MAIN_TEXT% and more")),
      (["main.txt"], .file (.text "## Two"))] }
  base := "/"

theorem compose_chaptered :
    (newYearComposer.compose chaptered "template.txt" "main.txt").toOption.map
      (fun o => (o.document.outline.map fun item => (item.title, item.level, item.blockIndex),
        o.document.blocks.length, o.document.metadata.fileSize)) =
      some ([("One", 1, 1), ("Two", 2, 2), ("and more", 1, 3)], 4, 33) := by decide +kernel

/-- The table of contents lists the three headings, in the outcome as in the
document that is loaded from its snapshot. -/
theorem contents_chaptered :
    ∃ outcome files d,
      newYearComposer.compose chaptered "template.txt" "main.txt" = .ok outcome ∧
      chaptered.files.saveDocument outcome.document "out.json" = .ok files ∧
      files.loadDocument "out.json" = .ok d ∧ d.ContentsCurrent ∧ d.refreshContents = d ∧
      d.outline.map (fun item => (item.title, item.level, item.blockIndex)) =
        [("One", 1, 1), ("Two", 2, 2), ("and more", 1, 3)] := by
  obtain ⟨outcome, houtcome, hcomposed⟩ := Option.map_eq_some_iff.mp compose_chaptered
  obtain ⟨houtline, hnumbers⟩ := Prod.mk.inj hcomposed
  obtain ⟨hlength, hsize⟩ := Prod.mk.inj hnumbers
  have hok : newYearComposer.compose chaptered "template.txt" "main.txt" = .ok outcome :=
    eq_ok_of_toOption houtcome
  have hjson : Path.extension "out.json" = snapshotExtension := by decide +kernel
  have hsave : chaptered.files.saveDocument outcome.document "out.json" =
      .ok (chaptered.files.put ["out.json"] (.file (.text outcome.document.snapshot))) :=
    FileSystem.saveDocument_eq hjson (by decide +kernel) rfl (by decide +kernel)
  obtain ⟨-, -, hloaded⟩ := contents_of_compose hok
  obtain ⟨d, hd, hcurrent, hrefresh, hsame⟩ :=
    hloaded chaptered.files _ "out.json" hjson (by rw [hlength]; decide) (by rw [hsize]; decide)
      hsave
  exact ⟨outcome, _, d, hok, hsave, hd, hcurrent, hrefresh, by rw [hsame, houtline]⟩

end Compositor
