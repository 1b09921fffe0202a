/-
# Documents saved and loaded

A document that is saved as a snapshot is loaded again from the same path:
with its title, its metadata and its blocks, whose ids are given out anew in
their order. It takes a path that leads to a file or to nothing yet; the file
system afterwards is another one, and the path leads to the same place there.

Key theorem: `loadDocument_of_saved`.
-/
import Compositor.File.Document
import Compositor.Proofs.Document.Numbered
import Compositor.Proofs.Document.Snapshots
import Compositor.Proofs.File.Paths

namespace Compositor
namespace FileSystem

variable {fs : FileSystem} {path : String} {target : Location}

/-- What is put where a path leads is what is read there. -/
theorem readText_put (htarget : fs.locate path = .ok target)
    (hfile : fs.lookup? target ≠ some .directory) (s : String) :
    (fs.put target (.file (.text s))).readText path = .ok s := by
  have hne : target ≠ [] := by
    rintro rfl
    exact hfile rfl
  rw [readText, read_of_locate (locate_put hfile htarget) (lookup?_put hne)]

/-- A document that is saved as a snapshot is loaded again, with its sizes
reread and its ids given out anew. -/
theorem loadDocument_put_of_readable {d : Document} (hd : d.Readable)
    (hjson : Path.extension path = snapshotExtension) (htarget : fs.locate path = .ok target)
    (hfile : fs.lookup? target ≠ some .directory) :
    (fs.put target (.file (.text d.snapshot))).loadDocument path = .ok d.reread.renumber := by
  unfold loadDocument
  dsimp only
  rw [if_pos hjson, readText_put htarget hfile]
  dsimp only [bind, Except.bind]
  rw [hd.ofSnapshot?_snapshot]
  rfl

/-- Sizes that are multiples of one half are the same again. -/
theorem loadDocument_put {d : Document} (hd : d.Storable)
    (hjson : Path.extension path = snapshotExtension) (htarget : fs.locate path = .ok target)
    (hfile : fs.lookup? target ≠ some .directory) :
    (fs.put target (.file (.text d.snapshot))).loadDocument path = .ok d.renumber := by
  rw [loadDocument_put_of_readable hd.readable hjson htarget hfile, hd.reread_eq]

/-- A document that was saved as a snapshot can be loaded again. -/
theorem loadDocument_of_saveDocument {d : Document} (hd : d.Readable) {files : FileSystem}
    (hjson : Path.extension path = snapshotExtension)
    (hsave : fs.saveDocument d path = .ok files) :
    files.loadDocument path = .ok d.reread.renumber := by
  obtain ⟨target, htarget, hfile, rfl⟩ := exists_of_write hsave
  rw [Document.savedAs, if_pos hjson]
  exact loadDocument_put_of_readable hd hjson htarget hfile

theorem saveDocument_eq {d : Document} (hjson : Path.extension path = snapshotExtension)
    (hslash : Path.endsInSlash path = false) (htarget : fs.locate path = .ok target)
    (hfile : fs.lookup? target ≠ some .directory) :
    fs.saveDocument d path = .ok (fs.put target (.file (.text d.snapshot))) := by
  rw [saveDocument, Document.savedAs, if_pos hjson]
  exact write_of_locate _ hslash htarget hfile

/-- A document that is saved as a snapshot is loaded again as it was, but for
the ids: those count the paragraphs and tables from 1 on, and the next one is
fresh. -/
theorem loadDocument_of_saved {d : Document} (hd : d.Storable)
    (hjson : Path.extension path = snapshotExtension) (hslash : Path.endsInSlash path = false)
    (htarget : fs.locate path = .ok target) (hfile : fs.lookup? target ≠ some .directory) :
    ∃ files d', fs.saveDocument d path = .ok files ∧ files.loadDocument path = .ok d' ∧
      d'.title = d.title ∧ d'.metadata = d.metadata ∧
      d'.blocks.map (·.withId 0) = d.blocks.map (·.withId 0) ∧
      d'.ids = List.range' 1 (idCount d.blocks) ∧ d'.nextId = idCount d.blocks + 1 := by
  have hforget : ∀ (b : Block) (id : Nat), (b.withId id).withId 0 = b.withId 0 := by
    intro b id
    cases b <;> rfl
  obtain ⟨hids, hnext, hle⟩ := ids_numberBlocks 1 d.blocks
  rw [freshId_of_pos hle] at hnext
  exact ⟨_, d.renumber, saveDocument_eq hjson hslash htarget hfile,
    loadDocument_put hd hjson htarget hfile, rfl, rfl, map_numberBlocks hforget 1 d.blocks, hids,
    hnext.trans (Nat.add_comm _ _)⟩

/-- A document with a block of each kind, and with texts that are not written
as they are. -/
def ledger : Document where
  title := "Ledger \"\\\" \u0001\u001f\t\u007f é 😀"
  metadata := { filePath := "in/ledger.txt", fileSize := 1024, author := some "" }
  nextId := 40
  blocks := [
    .paragraph { id := 9, style := some "Heading 1", level := some 1, runs := [
      { text := "Costs\r\n", format := {
          bold := true, fontSize := some (.finite (.of false 125 (-1)))
          color := some "#ff0000" } },
      { text := "", format := { fontSize := some (.finite (.of true 99995 (-1))) } }] },
    .contents { title := "Contents", entries := [
      { title := "Costs", level := 1, blockIndex := 0 }] },
    .table { id := 2, headers := [{ content := "a/b" }], rows := [[], [
      { content := "\x08\x0c", format := { fontSize := some (.finite (.of false 0 (-1))) } },
      { content := "x" }]] },
    .object { name := "Object1", kind := .formula, properties := .ofList [
      ("Width", .integer (-9223372036854775808)), ("Formula", .text "{a} over {b}"),
      ("Locked", .boolean false)] },
    .pageBreak]

theorem storable_ledger : ledger.Storable := by
  have hplain : ∀ f : TextFormat, f.fontSize = none → f.HasHalves := by
    intro f hf size hsize
    rw [hf] at hsize
    cases hsize
  have hsized : ∀ (f : TextFormat) negative m, m < 20000 →
      f.fontSize = some (.finite (.of negative (5 * m) (-1))) → f.HasHalves := by
    intro f negative m hm hf size hsize
    rw [hf] at hsize
    exact ⟨negative, m, hm, (Option.some.inj hsize).symm⟩
  refine ⟨?_, by decide⟩
  simp only [ledger, List.forall_mem_cons]
  refine ⟨⟨?_, nofun⟩, ⟨nofun, ?_⟩, ⟨?_, nofun⟩, ⟨nofun, nofun⟩, ⟨nofun, nofun⟩, nofun⟩
  · simp only [Block.formats, List.map_cons, List.map_nil, List.forall_mem_cons]
    exact ⟨hsized _ false 25 (by decide) rfl, hsized _ true 19999 (by decide) rfl, nofun⟩
  · decide
  · simp only [Block.formats, Table.allRows, List.flatten_cons, List.flatten_nil,
      List.append_nil, List.nil_append, List.cons_append, List.map_cons, List.map_nil,
      List.forall_mem_cons]
    exact ⟨hplain _ rfl, hsized _ false 0 (by decide) rfl, hplain _ rfl, nofun⟩

/-- A working directory with one directory in it. -/
def withOut : FileSystem := { entries := [(["out"], .directory)] }

theorem loads_saved_ledger :
    ledger.Storable ∧ Path.extension "out/L.JSON" = snapshotExtension ∧
    Path.endsInSlash "out/L.JSON" = false ∧
    withOut.locate "out/L.JSON" = .ok ["out", "L.JSON"] ∧
    withOut.lookup? ["out", "L.JSON"] ≠ some .directory ∧
    ∃ files d', withOut.saveDocument ledger "out/L.JSON" = .ok files ∧
      files.loadDocument "out/L.JSON" = .ok d' ∧
      d'.title = ledger.title ∧ d'.metadata = ledger.metadata ∧
      d'.blocks.map (·.withId 0) = ledger.blocks.map (·.withId 0) ∧
      d'.ids = [1, 2] ∧ d'.nextId = 3 := by
  have hjson : Path.extension "out/L.JSON" = snapshotExtension := by decide +kernel
  have hslash : Path.endsInSlash "out/L.JSON" = false := by decide +kernel
  have htarget : withOut.locate "out/L.JSON" = .ok ["out", "L.JSON"] := by rfl
  have hfile : withOut.lookup? ["out", "L.JSON"] ≠ some .directory := by decide +kernel
  exact ⟨storable_ledger, hjson, hslash, htarget, hfile,
    loadDocument_of_saved storable_ledger hjson hslash htarget hfile⟩

end FileSystem
end Compositor
