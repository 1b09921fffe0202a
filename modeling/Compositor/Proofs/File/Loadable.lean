/-
# What can be loaded

A file system holds finitely many files, so documents loaded from it have
finitely many contents, however many paths lead to the files. Whether all
its files hold documents can be told from the files as well: a path that
leads to a file ends in the name of the file, so it has its extension.

Key definitions: `FileSystem.loadable`, `FileSystem.loadsAll`.
Key theorems: `blocks_mem_loadable`, `fileName?_of_isFile`,
`exists_loadDocument`.
-/
import Compositor.File.Document

namespace Compositor

/-- The blocks of the documents that a content may be loaded as. -/
def Content.loadable : Content → List (List Block)
  | text s =>
    [(Fragment.parse "" s).blocks] ++ ((Document.ofSnapshot? s).map Document.blocks).toList
  | word body => [(Document.ofBlocks "" (Word.importBody 1 body)).blocks]
  | _ => []

namespace FileSystem

/-- The blocks of the documents that may be loaded. -/
def loadable (fs : FileSystem) : List (List Block) :=
  fs.entries.flatMap fun
    | (_, .file content) => content.loadable
    | (_, .directory) => []

theorem exists_of_find {fs : FileSystem} {path : String} {entry : Entry}
    (h : fs.find path = .ok entry) :
    ∃ location, fs.locate path = .ok location ∧ fs.lookup? location = some entry := by
  unfold find at h
  split at h
  · cases h
  · rename_i location hlocate
    split at h
    · cases h
    · rename_i entry' hlookup
      cases h
      exact ⟨location, hlocate, hlookup⟩

theorem mem_of_lookup? {fs : FileSystem} {location : Location} {entry : Entry}
    (h : fs.lookup? location = some entry) (hne : entry ≠ .directory) :
    (location, entry) ∈ fs.entries := by
  unfold lookup? at h
  split at h
  · cases h
    exact absurd rfl hne
  · obtain ⟨before, after, hentries, -⟩ := List.lookup_eq_some_iff.mp h
    rw [hentries]
    simp

theorem exists_of_read {fs : FileSystem} {path : String} {content : Content}
    (h : fs.read path = .ok content) : ∃ location, (location, .file content) ∈ fs.entries := by
  have hfind : fs.find path = .ok (.file content) := by
    unfold read at h
    split at h
    · rename_i content' hfind
      cases h
      exact hfind
    · cases h
    · cases h
  obtain ⟨location, -, hlookup⟩ := exists_of_find hfind
  exact ⟨location, mem_of_lookup? hlookup (fun h => nomatch h)⟩

theorem mem_loadable {fs : FileSystem} {path : String} {content : Content} {bs : List Block}
    (h : fs.read path = .ok content) (hbs : bs ∈ content.loadable) : bs ∈ fs.loadable := by
  obtain ⟨location, hmem⟩ := exists_of_read h
  exact List.mem_flatMap.mpr ⟨_, hmem, hbs⟩

theorem read_of_readText {fs : FileSystem} {path s : String} (h : fs.readText path = .ok s) :
    fs.read path = .ok (.text s) := by
  unfold readText at h
  split at h
  · rename_i s' hread
    cases h
    exact hread
  · cases h
  · cases h

theorem read_of_readWord {fs : FileSystem} {path : String} {body : List Word.BodyItem}
    (h : fs.readWord path = .ok body) : fs.read path = .ok (.word body) := by
  unfold readWord at h
  split at h
  · rename_i body' hread
    cases h
    exact hread
  · split at h
    · cases h
    · split at h <;> cases h
  · cases h
  · cases h

theorem exists_of_bind_eq_ok {ε α β : Type} {x : Except ε α} {f : α → Except ε β} {b : β}
    (h : (x >>= f) = .ok b) : ∃ a, x = .ok a ∧ f a = .ok b := by
  cases x with
  | error e => cases h
  | ok a => exact ⟨a, rfl, h⟩

/-- The path says how a file is read, and its blocks depend on nothing else. -/
theorem blocks_mem_loadable {fs : FileSystem} {path : String} {d : Document}
    (h : fs.loadDocument path = .ok d) : d.blocks ∈ fs.loadable := by
  unfold loadDocument at h
  generalize Path.extension path = extension at h
  dsimp only at h
  split at h
  · obtain ⟨s, hread, h⟩ := exists_of_bind_eq_ok h
    cases hsnapshot : Document.ofSnapshot? s with
    | none =>
      rw [hsnapshot] at h
      cases h
    | some d' =>
      rw [hsnapshot] at h
      cases h
      refine mem_loadable (read_of_readText hread) (List.mem_append_right _ ?_)
      rw [hsnapshot]
      exact List.mem_singleton_self _
  · split at h
    · obtain ⟨body, hread, h⟩ := exists_of_bind_eq_ok h
      cases h
      exact mem_loadable (read_of_readWord hread) (List.mem_singleton_self _)
    · obtain ⟨s, hread, h⟩ := exists_of_bind_eq_ok h
      cases h
      exact mem_loadable (read_of_readText hread) List.mem_cons_self

/-! ### Paths to files -/

/-- The working directory and what is above a directory are directories. -/
structure IsTree (fs : FileSystem) : Prop where
  cwd : fs.lookup? fs.cwd = some .directory
  above : ∀ location, fs.lookup? location = some .directory →
    fs.lookup? location.dropLast = some .directory

/-- A walk from a directory to a file ends with the name of the file. -/
theorem last_of_walk {fs : FileSystem} (h : fs.IsTree) {location target : Location}
    {names : List String} {content : Content} (hstart : fs.lookup? location = some .directory)
    (hwalk : fs.walk location names = .ok target)
    (hfile : fs.lookup? target = some (.file content)) :
    ∃ before name, names = before ++ [name] ∧ (name ≠ "" ∧ name ≠ ".") ∧ name ≠ ".." ∧
      target.getLast? = some name := by
  induction names generalizing location with
  | nil =>
    cases hwalk
    rw [hstart] at hfile
    cases hfile
  | cons n names ih =>
    unfold walk at hwalk
    split at hwalk
    · rename_i next hstep
      by_cases hnext : fs.lookup? next = some .directory
      · obtain ⟨before, name, rfl, hname⟩ := ih hnext hwalk
        exact ⟨n :: before, name, rfl, hname⟩
      · -- nothing is below a file, so this is the last name
        have hend : names = [] ∧ next = target := by
          cases names with
          | nil => exact ⟨rfl, Except.ok.inj hwalk⟩
          | cons m ms =>
            unfold walk step at hwalk
            split at hwalk
            · rename_i further hfurther
              split at hfurther
              · cases hfurther
              · cases hfurther
              · rename_i hdirectory
                exact absurd hdirectory hnext
            · cases hwalk
        obtain ⟨rfl, rfl⟩ := hend
        unfold step at hstep
        rw [hstart] at hstep
        dsimp only at hstep
        split at hstep
        · cases hstep
          exact absurd hstart hnext
        · rename_i hhere
          split at hstep
          · cases hstep
            exact absurd (h.above location hstart) hnext
          · rename_i habove
            split at hstep
            · cases hstep
            · cases hstep
              refine ⟨[], n, rfl, not_or.mp hhere, habove, ?_⟩
              rw [List.getLast?_append, List.getLast?_singleton]
              rfl
    · cases hwalk

/-- A path to a file ends in the name of the file. -/
theorem fileName?_of_find {fs : FileSystem} (h : fs.IsTree) {path : String} {content : Content}
    (hfind : fs.find path = .ok (.file content)) :
    ∃ location name, fs.lookup? location = some (.file content) ∧
      location.getLast? = some name ∧ Path.fileName? path = some name := by
  obtain ⟨location, hlocate, hfile⟩ := exists_of_find hfind
  unfold locate at hlocate
  split at hlocate
  · cases hlocate
  · have hstart : fs.lookup? (fs.origin path) = some .directory := by
      unfold origin
      split
      · rfl
      · exact h.cwd
    obtain ⟨before, name, hpieces, ⟨hne, hdot⟩, habove, hlast⟩ :=
      last_of_walk h hstart hlocate hfile
    refine ⟨location, name, hfile, hlast, ?_⟩
    have hsegments : (Path.segments path).getLast? = some name := by
      rw [Path.segments, hpieces, List.filter_append]
      simp [hne, hdot]
    rw [Path.fileName?, hsegments]
    split
    · rename_i hup
      exact absurd (Option.some.inj hup) habove
    · rfl

end FileSystem

/-! ### Files that hold documents -/

/-- The extension of a file name, its ASCII letters in lower case. -/
def Path.extensionOf (name : String) : String :=
  String.ofList (((Path.splitName name).2.getD "").toList.map Char.toLower)

/-- Is the content a document in a file with the extension? -/
def Content.loadsAs (extension : String) : Content → Bool
  | text s =>
    if extension = snapshotExtension then (Document.ofSnapshot? s).isSome
    else extension ≠ wordExtension
  | word _ => extension = wordExtension
  | _ => false

namespace FileSystem

/-- Is the working directory there, is every directory in a directory, and
does every file hold a document? -/
def loadsAll (fs : FileSystem) : Bool :=
  fs.lookup? fs.cwd = some .directory && fs.entries.all fun
    | (location, .directory) => fs.lookup? location.dropLast = some .directory
    | (location, .file content) =>
      content.loadsAs (Path.extensionOf (location.getLast?.getD ""))

theorem isTree_of_loadsAll {fs : FileSystem} (h : fs.loadsAll = true) : fs.IsTree := by
  unfold loadsAll at h
  obtain ⟨hcwd, hentries⟩ := Bool.and_eq_true_iff.mp h
  refine ⟨of_decide_eq_true hcwd, fun location hlookup => ?_⟩
  by_cases hroot : location = []
  · subst hroot
    rfl
  · have hmem : (location, Entry.directory) ∈ fs.entries := by
      rw [lookup?, if_neg hroot] at hlookup
      obtain ⟨before, after, hsplit, -⟩ := List.lookup_eq_some_iff.mp hlookup
      rw [hsplit]
      simp
    exact of_decide_eq_true (List.all_eq_true.mp hentries _ hmem)

theorem loadDocument_eq_ok {fs : FileSystem} {path : String} {content : Content}
    (hread : fs.read path = .ok content)
    (h : content.loadsAs (Path.extension path) = true) : ∃ d, fs.loadDocument path = .ok d := by
  unfold loadDocument
  generalize Path.extension path = extension at h ⊢
  dsimp only
  cases content with
  | text s =>
    have htext : fs.readText path = .ok s := by rw [readText, hread]
    rw [Content.loadsAs] at h
    split at h
    · rename_i hsnapshot
      obtain ⟨d, hd⟩ := Option.isSome_iff_exists.mp h
      refine ⟨d, ?_⟩
      rw [if_pos hsnapshot, htext]
      dsimp only [bind, Except.bind]
      rw [hd]
      rfl
    · rename_i hsnapshot
      rw [if_neg hsnapshot, if_neg (of_decide_eq_true h), htext]
      exact ⟨_, rfl⟩
  | word body =>
    have hword : fs.readWord path = .ok body := by rw [readWord, hread]
    have hextension : extension = wordExtension := of_decide_eq_true h
    have hsnapshot : extension ≠ snapshotExtension := by
      rw [hextension]
      decide
    rw [if_neg hsnapshot, if_pos hextension, hword]
    exact ⟨_, rfl⟩
  | archive names => cases h
  | binary bytes => cases h

/-- If all files hold documents, every path to a file leads to a document. -/
theorem exists_loadDocument {fs : FileSystem} (h : fs.loadsAll = true) {path : String}
    (hfile : fs.isFile path = true) : ∃ d, fs.loadDocument path = .ok d := by
  unfold isFile at hfile
  split at hfile
  · rename_i content hfind
    obtain ⟨location, name, hlookup, hlast, hname⟩ := fileName?_of_find (isTree_of_loadsAll h) hfind
    have hmem := mem_of_lookup? hlookup fun he => nomatch he
    have hentry := List.all_eq_true.mp (Bool.and_eq_true_iff.mp h).2 _ hmem
    have hread : fs.read path = .ok content := by rw [read, hfind]
    refine loadDocument_eq_ok hread ?_
    have hextension : Path.extension path = Path.extensionOf name := by
      rw [Path.extension, hname]
      rfl
    rw [hextension]
    dsimp only at hentry
    rw [hlast] at hentry
    exact hentry
  · cases hfile

end FileSystem
end Compositor
