/-
# The files of a run

A run that stops leaves all files as they were. One that ends writes the
output and nothing else. The template and the main text are as they were
unless the output is written over one of them: the check of the paths
compares their names, and `..` can make two names of one file. Without `..`
the check keeps the files apart.

Key definitions: `Composer.filesLeft`, `Composer.WritesOnlyOutput`,
`Composer.Spares`.
Key theorems: `Composer.exists_of_run`, `Composer.Ran.read_eq_iff`,
`Composer.spares_iff`.
-/
import Compositor.Proofs.Composer.Results
import Compositor.Proofs.File.Paths

namespace Compositor.Composer
open FileSystem

/-- The files after a run. One that stops at a fault has written nothing. -/
def filesLeft (c : Composer) (w : Workspace) (template main output : String)
    (overwrite : Bool) : FileSystem :=
  match c.run w template main output overwrite with
  | .ok (_, files) => files
  | .error _ => w.files

/-- A run that stops changes no file, and one that ends puts its document
where the path of the output leads and changes no other place. -/
structure WritesOnlyOutput (c : Composer) (w : Workspace) (template main output : String)
    (overwrite : Bool) : Prop where
  stopped : ∀ fault, c.run w template main output overwrite = .error fault →
    c.filesLeft w template main output overwrite = w.files
  ended : ∀ outcome files, c.run w template main output overwrite = .ok (outcome, files) →
    ∃ target, w.files.locate output = .ok target ∧
      (c.filesLeft w template main output overwrite).lookup? target =
        some (.file (.text (outcome.document.savedAs (Path.extension output)))) ∧
      ∀ location, location ≠ target →
        (c.filesLeft w template main output overwrite).lookup? location =
          w.files.lookup? location

/-- Besides, the template and the main text hold what they held. -/
structure Spares (c : Composer) (w : Workspace) (template main output : String)
    (overwrite : Bool) : Prop extends WritesOnlyOutput c w template main output overwrite where
  inputs : ∀ path ∈ [template, main],
    (c.filesLeft w template main output overwrite).read path = w.files.read path

/-- What a run that ends has found and done: the files to read were there, the
names of the output differed from theirs, and the text was put where the path
of the output leads. -/
structure Ran (fs : FileSystem) (inputs : List String) (output text : String)
    (files : FileSystem) (target : Location) : Prop where
  there : ∀ path ∈ inputs, fs.isFile path = true
  apart : ∀ path ∈ inputs, namesFromRoot fs path ≠ namesFromRoot fs output
  locate : fs.locate output = .ok target
  no_directory : fs.lookup? target ≠ some .directory
  files_eq : files = fs.put target (.file (.text text))

theorem inputs_of_checkPaths {files : FileSystem} {template main output : String}
    {overwrite : Bool} (h : checkPaths files template main output overwrite = .ok ()) :
    ∀ path ∈ [template, main],
      files.isFile path = true ∧ namesFromRoot files path ≠ namesFromRoot files output := by
  unfold checkPaths at h
  split at h
  · cases h
  · rename_i htemplate
    split at h
    · cases h
    · rename_i hmain
      dsimp only at h
      split at h
      · cases h
      · rename_i hapart
        obtain ⟨-, htemplate', hmain'⟩ := by simpa only [not_or] using hapart
        rw [Bool.not_eq_true', Bool.not_eq_false] at htemplate hmain
        intro path hpath
        obtain rfl | hpath := List.mem_cons.mp hpath
        · exact ⟨htemplate, htemplate'⟩
        · obtain rfl := List.mem_singleton.mp hpath
          exact ⟨hmain, hmain'⟩

section

variable {c : Composer} {w : Workspace} {template main output : String} {overwrite : Bool}

theorem exists_of_run {outcome : Outcome} {files : FileSystem}
    (h : c.run w template main output overwrite = .ok (outcome, files)) :
    ∃ target, Ran w.files [template, main] output
      (outcome.document.savedAs (Path.extension output)) files target := by
  obtain ⟨⟨⟩, hcheck, h⟩ := exists_of_bind_eq_ok h
  obtain ⟨outcome', -, h⟩ := exists_of_bind_eq_ok h
  obtain ⟨files', hsave, h⟩ := exists_of_bind_eq_ok h
  cases h
  have hinputs := inputs_of_checkPaths (eq_ok_of_mapError hcheck)
  obtain ⟨target, hlocate, hdir, hfiles⟩ := exists_of_write (eq_ok_of_mapError hsave)
  exact ⟨target, fun path hpath => (hinputs path hpath).1, fun path hpath => (hinputs path hpath).2,
    hlocate, hdir, hfiles⟩

theorem filesLeft_of_ok {outcome : Outcome} {files : FileSystem}
    (h : c.run w template main output overwrite = .ok (outcome, files)) :
    c.filesLeft w template main output overwrite = files := by
  rw [filesLeft, h]

theorem filesLeft_of_error {fault : Fault}
    (h : c.run w template main output overwrite = .error fault) :
    c.filesLeft w template main output overwrite = w.files := by
  rw [filesLeft, h]

end

namespace Ran

variable {fs files : FileSystem} {inputs : List String} {output text path : String}
  {target : Location}

theorem lookup?_target (h : Ran fs inputs output text files target) :
    files.lookup? target = some (.file (.text text)) := by
  rw [h.files_eq]
  refine lookup?_put ?_
  rintro rfl
  exact h.no_directory rfl

theorem lookup?_of_ne (h : Ran fs inputs output text files target) {location : Location}
    (hne : location ≠ target) : files.lookup? location = fs.lookup? location := by
  rw [h.files_eq]
  exact lookup?_put_of_ne hne

/-- The file at a path holds what it held, unless the output was written over
it with another text. -/
theorem read_eq_iff (h : Ran fs inputs output text files target) (hpath : path ∈ inputs) :
    files.read path = fs.read path ↔
      (fs.locate path = fs.locate output → fs.read path = .ok (.text text)) := by
  obtain ⟨content, hfind⟩ := exists_of_isFile (h.there path hpath)
  obtain ⟨location, hlocate, hlookup⟩ := exists_of_find hfind
  have hold : fs.read path = .ok content := read_of_locate hlocate hlookup
  have hlocate' : files.locate path = .ok location := by
    rw [h.files_eq]
    exact locate_put h.no_directory hlocate
  by_cases hsame : location = target
  · subst hsame
    have hnew : files.read path = .ok (.text text) := read_of_locate hlocate' h.lookup?_target
    rw [hnew, hlocate, h.locate]
    exact ⟨fun heq _ => heq.symm, fun himp => (himp rfl).symm⟩
  · have hnew : files.read path = .ok content :=
      read_of_locate hlocate' ((h.lookup?_of_ne hsame).trans hlookup)
    rw [hnew, hold, hlocate, h.locate]
    exact ⟨fun _ hlocates => absurd (Except.ok.inj hlocates) hsame, fun _ => rfl⟩

/-- Paths without `..` whose names differ do not lead to one place. -/
theorem locate_ne (h : Ran fs inputs output text files target) (hcwd : fs.HasNames)
    (hpath : path ∈ inputs) (hup : ".." ∉ Path.pieces path) (hup' : ".." ∉ Path.pieces output) :
    fs.locate path ≠ fs.locate output := by
  intro hsame
  have hlocate : fs.locate path = .ok target := hsame.trans h.locate
  refine h.apart path hpath ?_
  rw [← eq_namesFromRoot_of_locate hcwd hup hlocate,
    ← eq_namesFromRoot_of_locate hcwd hup' h.locate]

end Ran

theorem writesOnlyOutput (c : Composer) (w : Workspace) (template main output : String)
    (overwrite : Bool) : c.WritesOnlyOutput w template main output overwrite where
  stopped _ := filesLeft_of_error
  ended outcome files hrun := by
    obtain ⟨target, hran⟩ := exists_of_run hrun
    rw [filesLeft_of_ok hrun]
    exact ⟨target, hran.locate, hran.lookup?_target, fun _ => hran.lookup?_of_ne⟩

/-- **A run writes only the output**, which may be the template or the main
text under another name. It spares them exactly if the path of neither leads
where that of the output leads, or what is written is what was there; and it
does so where no path has a `..`. -/
theorem spares_iff (c : Composer) (w : Workspace) (template main output : String)
    (overwrite : Bool) :
    c.WritesOnlyOutput w template main output overwrite ∧
    (c.Spares w template main output overwrite ↔
      ∀ outcome files, c.run w template main output overwrite = .ok (outcome, files) →
        ∀ path ∈ [template, main], w.files.locate path = w.files.locate output →
          w.files.read path =
            .ok (.text (outcome.document.savedAs (Path.extension output)))) ∧
    (w.files.HasNames → (∀ path ∈ [template, main, output], ".." ∉ Path.pieces path) →
      c.Spares w template main output overwrite) := by
  have hwrites := writesOnlyOutput c w template main output overwrite
  have hiff : c.Spares w template main output overwrite ↔
      ∀ outcome files, c.run w template main output overwrite = .ok (outcome, files) →
        ∀ path ∈ [template, main], w.files.locate path = w.files.locate output →
          w.files.read path =
            .ok (.text (outcome.document.savedAs (Path.extension output))) := by
    constructor
    · intro h outcome files hrun path hpath
      obtain ⟨target, hran⟩ := exists_of_run hrun
      have hread := h.inputs path hpath
      rw [filesLeft_of_ok hrun] at hread
      exact (hran.read_eq_iff hpath).mp hread
    · intro h
      refine ⟨hwrites, fun path hpath => ?_⟩
      cases hrun : c.run w template main output overwrite with
      | error fault => rw [filesLeft_of_error hrun]
      | ok done =>
        obtain ⟨target, hran⟩ := exists_of_run hrun
        rw [filesLeft_of_ok hrun]
        exact (hran.read_eq_iff hpath).mpr (h done.1 done.2 hrun path hpath)
  refine ⟨hwrites, hiff, fun hcwd hup => hiff.mpr fun outcome files hrun path hpath hsame => ?_⟩
  obtain ⟨target, hran⟩ := exists_of_run hrun
  have hinput : path ∈ [template, main, output] := List.mem_append_left [output] hpath
  have houtput : output ∈ [template, main, output] := List.mem_append_right [template, main]
    List.mem_cons_self
  exact absurd hsame (hran.locate_ne hcwd hpath (hup path hinput) (hup output houtput))

/-- A template, a main text and an empty directory. -/
def besideDirectory : Workspace where
  files := {
    entries := [
      (["t.txt"], .file (.text "Head\n\n%MAIN_TEXT%")),
      (["m.txt"], .file (.text "Body")),
      (["d"], .directory)] }
  base := "."

/-- The names of the main text and of `d/../m.txt` differ, and the output is
written over the main text. -/
theorem not_spares_through_directory :
    ¬ newYearComposer.Spares besideDirectory "t.txt" "m.txt" "d/../m.txt" true := by
  intro h
  have hread := h.inputs "m.txt" (by decide)
  have hold : besideDirectory.files.read "m.txt" = .ok (.text "Body") := by rfl
  have hnew : ((newYearComposer.filesLeft besideDirectory "t.txt" "m.txt" "d/../m.txt" true).read
      "m.txt").toOption = some (.text "Head\n\nBody\n") := by decide +kernel
  rw [hread, hold] at hnew
  exact absurd hnew (by decide)

/-- An output in the directory spares both files. -/
theorem spares_into_directory :
    besideDirectory.files.HasNames ∧
    (∀ path ∈ ["t.txt", "m.txt", "d/o.txt"], ".." ∉ Path.pieces path) ∧
    (newYearComposer.run besideDirectory "t.txt" "m.txt" "d/o.txt" false).isOk = true ∧
    newYearComposer.Spares besideDirectory "t.txt" "m.txt" "d/o.txt" false := by
  have hnames : besideDirectory.files.HasNames := fun _ hname => absurd hname List.not_mem_nil
  have hup : ∀ path ∈ ["t.txt", "m.txt", "d/o.txt"], ".." ∉ Path.pieces path := by decide
  have hok : (newYearComposer.run besideDirectory "t.txt" "m.txt" "d/o.txt" false).isOk = true := by
    decide +kernel
  obtain ⟨-, -, hspares⟩ :=
    spares_iff newYearComposer besideDirectory "t.txt" "m.txt" "d/o.txt" false
  exact ⟨hnames, hup, hok, hspares hnames hup⟩

end Compositor.Composer
