/-
# Names and places

The names from the root on are those of the working directory and those of
the path. Walking along names without `..` leads to the place with those
names, so two paths without `..` that lead to one place are told to be one by
their names alone. With `..` they are not: it goes up only where there is a
directory to go up from, and the names keep it.

A file that is written where there was no directory changes no walk that led
somewhere before.

Key definition: `Path.IsName`.
Key theorems: `Path.segments_absolute`, `namesFromRoot_eq`,
`eq_namesFromRoot_of_locate`, `locate_put`, `exists_of_write`.
-/
import Compositor.Composer
import Compositor.Proofs.File.Loadable
import Compositor.Proofs.Text.Lines

namespace Compositor
open Text

/-! ### The names of a path -/

namespace Path

/-- A name that leads somewhere. -/
structure IsName (name : String) : Prop where
  ne_empty : name ≠ ""
  ne_here : name ≠ "."
  no_slash : '/' ∉ name.toList

theorem pieces_eq (path : String) : pieces path = (piecesOf '/' path.toList).map String.ofList :=
  rfl

theorem segments_append_slash (p q : String) :
    segments (p ++ "/" ++ q) = segments p ++ segments q := by
  have htext : (p ++ "/" ++ q).toList = p.toList ++ '/' :: q.toList := by
    rw [String.toList_append, String.toList_append, List.append_assoc]
    rfl
  rw [segments, pieces_eq, htext, piecesOf_append, List.map_append, List.filter_append]
  rfl

theorem segments_empty : segments "" = [] := rfl

theorem segments_name {name : String} (h : IsName name) : segments name = [name] := by
  rw [segments, pieces_eq, piecesOf_of_not_mem h.no_slash]
  simp [h.ne_empty, h.ne_here]

theorem isName_of_mem_segments {path name : String} (h : name ∈ segments path) : IsName name := by
  obtain ⟨hpiece, hname⟩ := List.mem_filter.mp h
  rw [pieces_eq] at hpiece
  obtain ⟨piece, hmem, rfl⟩ := List.mem_map.mp hpiece
  simp only [ne_eq, Bool.and_eq_true, decide_eq_true_eq] at hname
  refine ⟨hname.1, hname.2, ?_⟩
  rw [String.toList_ofList]
  exact not_mem_of_mem_piecesOf hmem

/-- A slash at the end adds no name, and what follows it is on its own. -/
theorem segments_withSlash_append (base path : String) :
    segments (withSlash base ++ path) = segments base ++ segments path := by
  unfold withSlash
  by_cases hslash : endsInSlash base = true
  · obtain ⟨before, hbefore⟩ := List.getLast?_eq_some_iff.mp (of_decide_eq_true hslash)
    have hbase : base = String.ofList before ++ "/" ++ "" := by
      rw [← String.toList_inj, hbefore]
      simp
    have hends : segments (String.ofList before ++ "/") = segments (String.ofList before) := by
      have h := segments_append_slash (String.ofList before) ""
      rwa [String.append_empty, segments_empty, List.append_nil] at h
    rw [if_pos hslash, hbase, String.append_empty, segments_append_slash, hends]
  · rw [if_neg hslash, segments_append_slash]

theorem segments_withSlash (base : String) : segments (withSlash base) = segments base := by
  have h := segments_withSlash_append base ""
  rwa [String.append_empty, segments_empty, List.append_nil] at h

theorem segments_join {name : String} (h : IsName name) (base : String) :
    segments (join base name) = segments base ++ [name] := by
  have habsolute : isAbsolute name = false := by
    refine decide_eq_false fun hhead => ?_
    exact h.no_slash (List.mem_of_head? hhead)
  unfold join
  rw [if_neg (by rw [habsolute]; exact Bool.false_ne_true)]
  by_cases hbase : base = ""
  · rw [if_pos hbase, hbase, segments_name h, segments_empty, List.nil_append]
  · rw [if_neg hbase, segments_withSlash_append, segments_name h]

theorem segments_extend {names : List String} (h : ∀ name ∈ names, IsName name) (base : String) :
    segments (extend base names) = segments base ++ names := by
  unfold extend
  induction names generalizing base with
  | nil => rw [List.foldl_nil, List.append_nil]
  | cons name names ih =>
    rw [List.foldl_cons, ih fun n hn => h n (List.mem_cons_of_mem _ hn),
      segments_join (h name List.mem_cons_self), List.append_assoc]
    rfl

/-- The names from the root on. -/
theorem segments_absolute (cwd path : String) :
    segments (absolute cwd path) =
      (if isAbsolute path then [] else segments cwd) ++ segments path := by
  have hextended : ∀ root : String,
      segments (if endsInSlash path then withSlash (extend root (segments path))
        else extend root (segments path)) = segments root ++ segments path := by
    intro root
    have hnames : segments (extend root (segments path)) = segments root ++ segments path :=
      segments_extend (fun _ hname => isName_of_mem_segments hname) root
    split
    · rw [segments_withSlash, hnames]
    · exact hnames
  unfold absolute
  dsimp only
  rw [hextended]
  congr 1
  split
  · split <;> rfl
  · rfl

/-- The names of a directory, written as a path. -/
theorem segments_intercalate {names : List String} (h : ∀ name ∈ names, IsName name) :
    segments ("/".intercalate names) = names := by
  induction names with
  | nil => rw [String.intercalate_nil, segments_empty]
  | cons name names ih =>
    have hname := segments_name (h name List.mem_cons_self)
    cases names with
    | nil => rw [String.intercalate_singleton, hname]
    | cons next names =>
      rw [String.intercalate_cons_cons, segments_append_slash, hname,
        ih fun n hn => h n (List.mem_cons_of_mem _ hn)]
      rfl

end Path

namespace FileSystem
open Compositor.Path

/-! ### The place of a path -/

/-- The names of the working directory are names as paths have them. -/
def HasNames (fs : FileSystem) : Prop := ∀ name ∈ fs.cwd, IsName name

theorem namesFromRoot_eq {fs : FileSystem} (h : fs.HasNames) (path : String) :
    namesFromRoot fs path = fs.origin path ++ segments path := by
  have hcwd : segments ("/" ++ "/".intercalate fs.cwd) = fs.cwd := by
    have hslash := segments_append_slash "" ("/".intercalate fs.cwd)
    rwa [segments_empty, List.nil_append, segments_intercalate h, String.empty_append] at hslash
  rw [namesFromRoot, FileSystem.absolute, segments_absolute, hcwd, origin]

/-- Names without `..` lead down only, each of them that leads somewhere one
step. -/
theorem eq_append_of_walk {fs : FileSystem} {location target : Location} {names : List String}
    (hup : ".." ∉ names) (h : fs.walk location names = .ok target) :
    target = location ++ names.filter fun name => name ≠ "" && name ≠ "." := by
  induction names generalizing location with
  | nil =>
    cases h
    rw [List.filter_nil, List.append_nil]
  | cons name names ih =>
    obtain ⟨hname, hnames⟩ := not_or.mp (mt List.mem_cons.mpr hup)
    unfold walk at h
    split at h
    · rename_i next hstep
      rw [ih hnames h]
      unfold step at hstep
      split at hstep
      · cases hstep
      · cases hstep
      · by_cases hhere : name = "" ∨ name = "."
        · have hskipped : ¬ (name ≠ "" && name ≠ ".") = true := by
            obtain rfl | rfl := hhere <;> decide
          rw [if_pos hhere] at hstep
          cases hstep
          rw [List.filter_cons, if_neg hskipped]
        · rw [if_neg hhere, if_neg (Ne.symm hname)] at hstep
          split at hstep
          · cases hstep
          · cases hstep
            rw [List.filter_cons_of_pos (by simpa [not_or] using hhere), List.append_assoc]
            rfl
    · cases h

theorem walk_of_locate {fs : FileSystem} {path : String} {target : Location}
    (h : fs.locate path = .ok target) : fs.walk (fs.origin path) (pieces path) = .ok target := by
  unfold locate at h
  split at h
  · cases h
  · exact h

/-- A path without `..` leads to the place that its names tell. -/
theorem eq_namesFromRoot_of_locate {fs : FileSystem} (hcwd : fs.HasNames) {path : String}
    (hup : ".." ∉ pieces path) {target : Location} (h : fs.locate path = .ok target) :
    target = namesFromRoot fs path := by
  rw [namesFromRoot_eq hcwd, segments]
  exact eq_append_of_walk hup (walk_of_locate h)

/-! ### Writing a file -/

section Put

variable {fs : FileSystem} {target : Location} {content : Content}

theorem step_put (hdir : fs.lookup? target ≠ some .directory) {location next : Location}
    {name : String} (h : fs.step location name = .ok next) :
    (fs.put target (.file content)).step location name = .ok next := by
  have hlocation : fs.lookup? location = some .directory := by
    unfold step at h
    split at h
    · cases h
    · cases h
    · assumption
  have hne : location ≠ target := by
    rintro rfl
    exact hdir hlocation
  unfold step at h ⊢
  rw [lookup?_put_of_ne hne]
  exact h

/-- What led somewhere leads there still when a file is put where there was no
directory. -/
theorem walk_put (hdir : fs.lookup? target ≠ some .directory) {location location' : Location}
    {names : List String} (h : fs.walk location names = .ok location') :
    (fs.put target (.file content)).walk location names = .ok location' := by
  induction names generalizing location with
  | nil => exact h
  | cons name names ih =>
    unfold walk at h ⊢
    split at h
    · rename_i next hstep
      rw [step_put hdir hstep]
      exact ih h
    · cases h

theorem locate_put (hdir : fs.lookup? target ≠ some .directory) {path : String}
    {location : Location} (h : fs.locate path = .ok location) :
    (fs.put target (.file content)).locate path = .ok location := by
  unfold locate at h ⊢
  split at h
  · cases h
  · exact walk_put hdir h

end Put

/-- A file that is written is put where its path leads, and there was no
directory. -/
theorem exists_of_write {fs fs' : FileSystem} {path : String} {content : Content}
    (h : fs.write path content = .ok fs') :
    ∃ target, fs.locate path = .ok target ∧ fs.lookup? target ≠ some .directory ∧
      fs' = fs.put target (.file content) := by
  unfold write at h
  split at h
  · cases h
  · split at h
    · cases h
    · rename_i target hlocate
      split at h
      · cases h
      · rename_i hdir
        cases h
        exact ⟨target, hlocate, hdir, rfl⟩

/-- What is written where no directory is gets there. -/
theorem write_of_locate {fs : FileSystem} {path : String} {target : Location} (content : Content)
    (hslash : endsInSlash path = false) (htarget : fs.locate path = .ok target)
    (hdir : fs.lookup? target ≠ some .directory) :
    fs.write path content = .ok (fs.put target (.file content)) := by
  rw [write, if_neg (Bool.eq_false_iff.mp hslash), htarget]
  dsimp only
  split
  · exact absurd ‹_› hdir
  · rfl

theorem exists_of_isFile {fs : FileSystem} {path : String} (h : fs.isFile path = true) :
    ∃ content, fs.find path = .ok (.file content) := by
  unfold isFile at h
  split at h
  · exact ⟨_, ‹_›⟩
  · cases h

theorem read_of_locate {fs : FileSystem} {path : String} {location : Location}
    {content : Content} (h : fs.locate path = .ok location)
    (hfile : fs.lookup? location = some (.file content)) : fs.read path = .ok content := by
  rw [read, find, h]
  dsimp only
  rw [hfile]

end FileSystem
end Compositor
