/-
# Formats stay among certain ones

Nothing that is done to a document makes up a format: text that is put in takes
the format at its place or the default one, and blocks bring their own. So if
the formats of a document, and those of the blocks put in, are among certain
ones with the default format, they still are after an edit, a refresh of the
tables of contents, the repair of the formulas and the steps that make a main
text ready for insertion.

Key definitions: `Block.FormatsAmong`, `Document.FormatsAmong`.
Key theorems: `FormatsAmong.replaceText`, `FormatsAmong.splice`,
`formatsAmong_repairBlocks`, `formatsAmong_mainTextBlocks`.
-/
import Compositor.Composer
import Compositor.Proofs.Document.Snapshots

namespace Compositor

variable {good : TextFormat → Prop}

/-- The formats of the block are among certain ones. -/
def Block.FormatsAmong (good : TextFormat → Prop) (b : Block) : Prop := ∀ f ∈ b.formats, good f

def Document.FormatsAmong (good : TextFormat → Prop) (d : Document) : Prop :=
  ∀ b ∈ d.blocks, b.FormatsAmong good

/-! ### Runs -/

namespace Run

/-- The formats of the runs are among certain ones. -/
def FormatsAmong (good : TextFormat → Prop) (runs : List Run) : Prop := ∀ r ∈ runs, good r.format

theorem formatsAmong_append {runs runs' : List Run} :
    FormatsAmong good (runs ++ runs') ↔ FormatsAmong good runs ∧ FormatsAmong good runs' :=
  List.forall_mem_append

theorem formatsAmong_cons {r : Run} {runs : List Run} :
    FormatsAmong good (r :: runs) ↔ good r.format ∧ FormatsAmong good runs :=
  List.forall_mem_cons

theorem formatsAmong_nil : FormatsAmong good [] := fun _ => nofun

theorem formatsAmong_kept {r : Run} (h : good r.format) : FormatsAmong good r.kept := by
  unfold kept
  split
  · exact formatsAmong_nil
  · exact formatsAmong_cons.mpr ⟨h, formatsAmong_nil⟩

namespace FormatsAmong

variable {runs : List Run}

theorem dropBytes (h : FormatsAmong good runs) (n : Nat) :
    FormatsAmong good (dropBytes n runs) := by
  induction runs generalizing n with
  | nil => exact formatsAmong_nil
  | cons r rs ih =>
    obtain ⟨hr, hrs⟩ := formatsAmong_cons.mp h
    exact formatsAmong_append.mpr ⟨formatsAmong_kept hr, ih hrs _⟩

theorem replaceInside (h : FormatsAmong good runs) {new : List Char} {start stop : Nat}
    {replaced : List Run} (hr : replaceInside new start stop runs = some replaced) :
    FormatsAmong good replaced := by
  induction runs generalizing start stop replaced with
  | nil => cases hr
  | cons r rs ih =>
    obtain ⟨hfirst, hrs⟩ := formatsAmong_cons.mp h
    unfold Run.replaceInside at hr
    dsimp only at hr
    split at hr
    · cases hr
      exact formatsAmong_append.mpr ⟨formatsAmong_kept hfirst, hrs.dropBytes _⟩
    · obtain ⟨others, hothers, rfl⟩ := Option.map_eq_some_iff.mp hr
      exact formatsAmong_append.mpr ⟨formatsAmong_kept hfirst, ih hrs hothers⟩

theorem appendText (hdefault : good {}) (h : FormatsAmong good runs) (new : List Char) :
    FormatsAmong good (appendText new runs) := by
  induction runs with
  | nil => exact formatsAmong_cons.mpr ⟨hdefault, formatsAmong_nil⟩
  | cons r rs ih =>
    obtain ⟨hr, hrs⟩ := formatsAmong_cons.mp h
    cases rs with
    | nil => exact formatsAmong_cons.mpr ⟨hr, formatsAmong_nil⟩
    | cons q qs => exact formatsAmong_cons.mpr ⟨hr, ih hrs⟩

theorem replace (hdefault : good {}) (h : FormatsAmong good runs) (new : List Char)
    (start stop : Nat) : FormatsAmong good (replace new start stop runs) := by
  unfold Run.replace
  split
  · rename_i hr
    exact h.replaceInside hr
  · have hkept : FormatsAmong good (runs.flatMap kept) := by
      intro q hq
      obtain ⟨r, hr, hq⟩ := List.mem_flatMap.mp hq
      exact formatsAmong_kept (h r hr) q hq
    dsimp only
    split
    · exact hkept
    · exact hkept.appendText hdefault new

theorem cutAt (h : FormatsAmong good runs) (n : Nat) :
    FormatsAmong good (cutAt n runs).1 ∧ FormatsAmong good (cutAt n runs).2 := by
  induction runs generalizing n with
  | nil => exact ⟨formatsAmong_nil, formatsAmong_nil⟩
  | cons r rs ih =>
    obtain ⟨hr, hrs⟩ := formatsAmong_cons.mp h
    unfold Run.cutAt
    dsimp only
    split
    · obtain ⟨hbefore, hafter⟩ := ih hrs (n - Text.size r.chars)
      exact ⟨formatsAmong_cons.mpr ⟨hr, hbefore⟩, hafter⟩
    · split
      · exact ⟨formatsAmong_nil, h⟩
      · exact ⟨formatsAmong_cons.mpr ⟨hr, formatsAmong_nil⟩, formatsAmong_cons.mpr ⟨hr, hrs⟩⟩

end FormatsAmong
end Run

/-! ### Blocks -/

theorem Block.formatsAmong_paragraph {p : Paragraph} :
    (paragraph p).FormatsAmong good ↔ Run.FormatsAmong good p.runs := List.forall_mem_map

theorem Block.formats_withId (b : Block) (id : Nat) : (b.withId id).formats = b.formats := by
  cases b <;> rfl

theorem Block.formats_withEntries (entries : List OutlineItem) (b : Block) :
    (b.withEntries entries).formats = b.formats := by
  cases b <;> rfl

/-- The formats of a table are those of its frame. -/
theorem Table.formats_mapCells_frame (t : Table) :
    (Block.table (t.mapCells Cell.frame)).formats = (Block.table t).formats := by
  simp [Block.formats, Table.allRows, Table.mapCells, Cell.frame, Function.comp_def]

theorem formatsAmong_half {p : Paragraph} (h : Run.FormatsAmong good p.runs) :
    ∀ b ∈ Document.half p, b.FormatsAmong good := by
  unfold Document.half
  split
  · exact fun _ => nofun
  · exact fun b hb => List.mem_singleton.mp hb ▸ Block.formatsAmong_paragraph.mpr h

theorem formatsAmong_adoptBlocks {bs : List Block} (h : ∀ b ∈ bs, b.FormatsAmong good)
    (taken : List String) (next : Nat) :
    ∀ b ∈ (adoptBlocks taken next bs).1, b.FormatsAmong good := by
  induction bs generalizing taken next with
  | nil => exact h
  | cons b bs ih =>
    obtain ⟨hfirst, hothers⟩ := List.forall_mem_cons.mp h
    cases b with
    | object o => exact List.forall_mem_cons.mpr ⟨hfirst, ih hothers _ _⟩
    | paragraph | table | contents | pageBreak =>
      exact List.forall_mem_cons.mpr ⟨hfirst, ih hothers _ _⟩

theorem formatsAmong_numberBlocks {bs : List Block} (h : ∀ b ∈ bs, b.FormatsAmong good)
    (next : Nat) : ∀ b ∈ (numberBlocks next bs).1, b.FormatsAmong good := by
  induction bs generalizing next with
  | nil => exact h
  | cons b bs ih =>
    obtain ⟨hfirst, hothers⟩ := List.forall_mem_cons.mp h
    refine List.forall_mem_cons.mpr ⟨?_, ih hothers _⟩
    unfold Block.FormatsAmong
    rw [Block.formats_withId]
    exact hfirst

theorem formatsAmong_repairBlocks {bs : List Block} (h : ∀ b ∈ bs, b.FormatsAmong good) :
    ∀ b ∈ (repairBlocks bs).blocks, b.FormatsAmong good := by
  induction bs with
  | nil => exact h
  | cons b bs ih =>
    obtain ⟨hfirst, hothers⟩ := List.forall_mem_cons.mp h
    unfold repairBlocks
    split
    · exact List.forall_mem_cons.mpr ⟨hfirst, ih hothers⟩
    · split
      · exact h
      · exact List.forall_mem_cons.mpr ⟨nofun, ih hothers⟩

/-! ### Documents -/

namespace Document.FormatsAmong

variable {d d' : Document}

theorem replaceInCell (h : d.FormatsAmong good) {r : TextRange} {place : CellPosition}
    {new : String} {e : Edit} (hr : d.replaceInCell r place new = .ok (d', e)) :
    d'.FormatsAmong good := by
  unfold Document.replaceInCell at hr
  split at hr
  · cases hr
  · rename_i before t after hsplit
    split at hr
    · cases hr
    · split at hr
      · cases hr
      · cases hr
        generalize String.ofList (Text.substitute _ r.start r.stop new.toList) = text
        have hframe := Table.mapCells_modifyCell (f := fun cell => { cell with content := text })
          (g := Cell.frame) (fun _ => rfl) t place
        have hformats := congrArg (fun t => (Block.table t).formats) hframe
        rw [Table.formats_mapCells_frame, Table.formats_mapCells_frame] at hformats
        rw [Document.FormatsAmong, eq_of_splitAtTable hsplit] at h
        obtain ⟨hbefore, ht⟩ := List.forall_mem_append.mp h
        obtain ⟨ht, hafter⟩ := List.forall_mem_cons.mp ht
        refine List.forall_mem_append.mpr ⟨hbefore, List.forall_mem_cons.mpr ⟨?_, hafter⟩⟩
        rw [Block.FormatsAmong, hformats]
        exact ht

theorem replaceText (hdefault : good {}) (h : d.FormatsAmong good) {r : TextRange} {new : String}
    {e : Edit} (hr : d.replaceText r new = .ok (d', e)) : d'.FormatsAmong good := by
  unfold Document.replaceText at hr
  split at hr
  · exact h.replaceInCell hr
  · split at hr
    · cases hr
    · rename_i haddressed
      cases hr
      rw [Document.FormatsAmong, eq_of_addressed haddressed] at h
      obtain ⟨hbefore, hp⟩ := List.forall_mem_append.mp h
      obtain ⟨hp, hafter⟩ := List.forall_mem_cons.mp hp
      have hruns := Block.formatsAmong_paragraph.mp hp
      exact List.forall_mem_append.mpr ⟨hbefore, List.forall_mem_cons.mpr
        ⟨Block.formatsAmong_paragraph.mpr (hruns.replace hdefault _ _ _), hafter⟩⟩

theorem splice (h : d.FormatsAmong good) {r : TextRange} {bs : List Block}
    (hbs : ∀ b ∈ bs, b.FormatsAmong good) {e : Edit} (hr : d.splice r bs = .ok (d', e)) :
    d'.FormatsAmong good := by
  unfold Document.splice at hr
  split at hr
  · exact h.replaceInCell hr
  · split at hr
    · cases hr
    · rename_i haddressed
      cases hr
      rw [Document.FormatsAmong, eq_of_addressed haddressed] at h
      obtain ⟨hbefore, hp⟩ := List.forall_mem_append.mp h
      obtain ⟨hp, hafter⟩ := List.forall_mem_cons.mp hp
      obtain ⟨hhead, hrest⟩ := (Block.formatsAmong_paragraph.mp hp).cutAt r.start
      obtain ⟨-, htail⟩ := hrest.cutAt (r.stop - r.start)
      refine List.forall_mem_append.mpr ⟨List.forall_mem_append.mpr ⟨List.forall_mem_append.mpr
        ⟨List.forall_mem_append.mpr ⟨hbefore, formatsAmong_half hhead⟩,
          formatsAmong_adoptBlocks hbs _ _⟩, formatsAmong_half htail⟩, hafter⟩

theorem refreshContents (h : d.FormatsAmong good) : d.refreshContents.FormatsAmong good := by
  intro b hb
  obtain ⟨b', hb', rfl⟩ := List.mem_map.mp hb
  rw [Block.FormatsAmong, Block.formats_withEntries]
  exact h b' hb'

/-- Anchoring objects and dropping blank paragraphs makes up no format. -/
theorem mainTextBlocks (h : d.FormatsAmong good) :
    ∀ b ∈ mainTextBlocks d, b.FormatsAmong good := by
  intro b hb
  obtain ⟨b', hb', rfl⟩ := List.mem_map.mp (List.mem_filter.mp hb).1
  split
  · exact nofun
  · exact h b' hb'

end Document.FormatsAmong
end Compositor
