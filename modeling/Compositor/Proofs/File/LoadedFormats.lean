/-
# Formats of loaded documents

A plain text brings no formats, and the formats of a word processor document
have no sizes. The sizes of a snapshot were read from numbers. So the formats of
every document that is loaded have modest sizes, and what is written for them
can be read again.

Key theorem: `isModest_of_loadDocument`.
-/
import Compositor.Proofs.Document.FormatsAmong
import Compositor.Proofs.Document.Importing
import Compositor.Proofs.File.Loadable

namespace Compositor
open Json

/-! ### Snapshots -/

theorem Json.forall_of_mapM {α β : Type} {read : α → Option β} {good : β → Prop}
    (hread : ∀ a b, read a = some b → good b) {as : List α} {bs : List β}
    (h : as.mapM read = some bs) : ∀ b ∈ bs, good b := by
  induction as generalizing bs with
  | nil => cases h; exact fun _ => nofun
  | cons a as ih =>
    simp only [List.mapM_cons, bind, Option.bind_eq_some_iff, pure, Option.some.injEq] at h
    obtain ⟨b, hb, bs, hbs, rfl⟩ := h
    exact List.forall_mem_cons.mpr ⟨hread a b hb, ih hbs⟩

theorem Json.forall_of_list? {α : Type} {read : Json → Option α} {good : α → Prop}
    (hread : ∀ v a, read v = some a → good a) {v : Json} {as : List α}
    (h : list? read v = some as) : ∀ a ∈ as, good a := by
  cases v with
  | array vs => exact forall_of_mapM hread h
  | _ => cases h

theorem TextFormat.isModest_default : IsModest {} := nofun

theorem TextFormat.isModest_of_ofJson? {v : Json} {f : TextFormat} (h : ofJson? v = some f) :
    f.IsModest := by
  unfold ofJson? at h
  split at h
  · rename_i bold italic underline strikethrough fontSize color _
    simp only [bind, Option.bind_eq_some_iff, pure, Option.some.injEq] at h
    obtain ⟨_, _, _, _, _, _, _, _, size?, hsize, _, _, rfl⟩ := h
    intro size hsome
    cases hsome
    unfold nullable at hsize
    split at hsize
    · cases hsize
    · cases hsize
    · obtain ⟨size', hsize', heq⟩ := Option.map_eq_some_iff.mp hsize
      cases heq
      exact FontSize.isModest_of_ofJson? hsize'
  · cases h

theorem Run.isModest_of_ofJson? {v : Json} {r : Run} (h : Run.ofJson? v = some r) :
    r.format.IsModest := by
  unfold Run.ofJson? at h
  split at h
  · simp only [bind, Option.bind_eq_some_iff, pure, Option.some.injEq, required] at h
    obtain ⟨_, _, f, ⟨v, _, hf⟩, rfl⟩ := h
    exact TextFormat.isModest_of_ofJson? hf
  · cases h

theorem Cell.isModest_of_ofJson? {v : Json} {c : Cell} (h : Cell.ofJson? v = some c) :
    c.format.IsModest := by
  unfold Cell.ofJson? at h
  split at h
  · simp only [bind, Option.bind_eq_some_iff, pure, Option.some.injEq] at h
    obtain ⟨_, _, f, hf, rfl⟩ := h
    unfold assumed at hf
    split at hf
    · cases hf
      exact TextFormat.isModest_default
    · exact TextFormat.isModest_of_ofJson? hf
  · cases h

theorem Paragraph.isModest_of_ofJson? {v : Json} {p : Paragraph}
    (h : Paragraph.ofJson? v = some p) : Run.FormatsAmong TextFormat.IsModest p.runs := by
  unfold Paragraph.ofJson? at h
  split at h
  · simp only [bind, Option.bind_eq_some_iff, pure, Option.some.injEq, required] at h
    obtain ⟨_, _, _, _, runs, ⟨v, _, hruns⟩, rfl⟩ := h
    exact forall_of_list? (fun _ _ => Run.isModest_of_ofJson?) hruns
  · cases h

theorem Table.isModest_of_ofJson? {v : Json} {t : Table} (h : Table.ofJson? v = some t) :
    (Block.table t).FormatsAmong TextFormat.IsModest := by
  unfold Table.ofJson? at h
  split at h
  · simp only [bind, Option.bind_eq_some_iff, pure, Option.some.injEq, required] at h
    obtain ⟨headers, ⟨v, _, hheaders⟩, rows, ⟨v', _, hrows⟩, _, _, rfl⟩ := h
    have hcells : ∀ row ∈ headers :: rows, ∀ c ∈ row, c.format.IsModest :=
      List.forall_mem_cons.mpr ⟨forall_of_list? (fun _ _ => Cell.isModest_of_ofJson?) hheaders,
        forall_of_list? (fun _ _ => forall_of_list? fun _ _ => Cell.isModest_of_ofJson?) hrows⟩
    intro f hf
    obtain ⟨c, hc, rfl⟩ := List.mem_map.mp hf
    obtain ⟨row, hrow, hc⟩ := List.mem_flatten.mp hc
    exact hcells row hrow c hc
  · cases h

theorem Block.isModest_of_ofJson? {v : Json} {b : Block} (h : Block.ofJson? v = some b) :
    b.FormatsAmong TextFormat.IsModest := by
  unfold Block.ofJson? at h
  split at h
  · obtain ⟨p, hp, rfl⟩ := Option.map_eq_some_iff.mp h
    exact Block.formatsAmong_paragraph.mpr (Paragraph.isModest_of_ofJson? hp)
  · split at h
    · obtain ⟨t, ht, rfl⟩ := Option.map_eq_some_iff.mp h
      obtain ⟨v', -, ht⟩ := Option.bind_eq_some_iff.mp ht
      exact Table.isModest_of_ofJson? ht
    · cases h
  · obtain ⟨o, -, rfl⟩ := Option.map_eq_some_iff.mp h
    exact nofun
  · obtain ⟨c, -, rfl⟩ := Option.map_eq_some_iff.mp h
    exact nofun
  · cases h
    exact nofun
  · cases h

theorem Document.isModest_of_ofSnapshot? {s : String} {d : Document} (h : ofSnapshot? s = some d) :
    d.FormatsAmong TextFormat.IsModest := by
  obtain ⟨v, -, h⟩ := Option.bind_eq_some_iff.mp h
  unfold ofJson? at h
  split at h
  · simp only [bind, Option.bind_eq_some_iff, pure, Option.some.injEq, required] at h
    obtain ⟨_, _, _, _, blocks, ⟨v, _, hblocks⟩, rfl⟩ := h
    have hmodest := forall_of_list? (fun _ _ => Block.isModest_of_ofJson?) hblocks
    exact formatsAmong_numberBlocks hmodest 1
  · cases h

/-! ### Plain texts -/

namespace Fragment

theorem isModest_closeParagraph (tally : Tally) (lines : List (List Char)) :
    ∀ b ∈ (closeParagraph tally lines).1, b.FormatsAmong TextFormat.IsModest := by
  unfold closeParagraph
  split
  · exact fun _ => nofun
  · dsimp only
    split
    · exact fun b hb => List.mem_singleton.mp hb ▸ nofun
    · refine fun b hb => List.mem_singleton.mp hb ▸ Block.formatsAmong_paragraph.mpr ?_
      exact Run.formatsAmong_cons.mpr ⟨TextFormat.isModest_default, Run.formatsAmong_nil⟩

theorem isModest_blocksOf (tally : Tally) (collected : List (List Char)) (ls : List Line) :
    ∀ b ∈ blocksOf tally collected ls, b.FormatsAmong TextFormat.IsModest := by
  induction ls generalizing tally collected with
  | nil => exact isModest_closeParagraph tally collected
  | cons l ls ih =>
    have hclosed := isModest_closeParagraph tally collected
    cases l with
    | words line => exact ih tally (line :: collected)
    | blank => exact List.forall_mem_append.mpr ⟨hclosed, ih _ _⟩
    | heading level text =>
      refine List.forall_mem_append.mpr ⟨hclosed, List.forall_mem_cons.mpr ⟨?_, ih _ _⟩⟩
      exact Block.formatsAmong_paragraph.mpr
        (Run.formatsAmong_cons.mpr ⟨TextFormat.isModest_default, Run.formatsAmong_nil⟩)
    | image description path =>
      exact List.forall_mem_append.mpr ⟨hclosed, List.forall_mem_cons.mpr ⟨nofun, ih _ _⟩⟩

end Fragment

/-! ### Word processor documents -/

theorem Run.formatsAmong_consolidate {good : TextFormat → Prop} {runs : List Run}
    (h : FormatsAmong good runs) : FormatsAmong good (consolidate runs) := by
  induction runs with
  | nil => exact h
  | cons r rs ih =>
    obtain ⟨hr, hrs⟩ := formatsAmong_cons.mp h
    have hothers := ih hrs
    unfold consolidate
    split
    · exact formatsAmong_cons.mpr ⟨hr, formatsAmong_nil⟩
    · rename_i q qs hq
      rw [hq] at hothers
      split
      · exact formatsAmong_cons.mpr ⟨hr, (formatsAmong_cons.mp hothers).2⟩
      · exact formatsAmong_cons.mpr ⟨hr, hothers⟩

namespace Word

theorem isModest_format (r : Run) : r.format.IsModest := nofun

theorem isModest_block? (p : Paragraph) :
    ∀ b ∈ p.block?.toList, b.FormatsAmong TextFormat.IsModest := by
  unfold Paragraph.block?
  dsimp only
  split
  · exact fun _ => nofun
  · refine fun b hb => List.mem_singleton.mp hb ▸ Block.formatsAmong_paragraph.mpr ?_
    refine Run.formatsAmong_consolidate fun q hq => ?_
    obtain ⟨r, -, hr⟩ := List.mem_filterMap.mp hq
    split at hr
    · cases hr
    · cases hr
      exact isModest_format r

theorem isModest_numberedImages (next count : Nat) :
    ∀ b ∈ numberedImages next count, b.FormatsAmong TextFormat.IsModest := by
  induction count generalizing next with
  | zero => exact fun _ => nofun
  | succ count ih => exact List.forall_mem_cons.mpr ⟨nofun, ih _⟩

theorem isModest_importCell (cell : Cell) : (importCell cell).format.IsModest := by
  unfold importCell
  dsimp only
  cases (cell.flatMap fun p => p.items.flatMap Item.cellRuns).head? with
  | none => exact TextFormat.isModest_default
  | some r => exact isModest_format r

theorem isModest_importTable? (rows : List (List Cell)) :
    ∀ b ∈ (importTable? rows).toList, b.FormatsAmong TextFormat.IsModest := by
  rcases importTable?_eq rows with ⟨hnone, -⟩ | ⟨t, hsome, -, hall⟩
  · rw [hnone]
    exact fun _ => nofun
  · rw [hsome]
    refine fun b hb => List.mem_singleton.mp hb ▸ fun f hf => ?_
    obtain ⟨c, hc, rfl⟩ := List.mem_map.mp hf
    rw [← List.flatten_filter_not_isEmpty, hall, ← List.map_flatten] at hc
    obtain ⟨cell, -, rfl⟩ := List.mem_map.mp hc
    exact isModest_importCell cell

theorem isModest_importBody (next : Nat) (body : List BodyItem) :
    ∀ b ∈ importBody next body, b.FormatsAmong TextFormat.IsModest := by
  induction body generalizing next with
  | nil => exact fun _ => nofun
  | cons item body ih =>
    cases item with
    | paragraph p =>
      exact List.forall_mem_append.mpr ⟨List.forall_mem_append.mpr
        ⟨isModest_block? p, isModest_numberedImages _ _⟩, ih _⟩
    | table rows => exact List.forall_mem_append.mpr ⟨isModest_importTable? rows, ih _⟩

end Word

/-! ### Files -/

theorem Content.isModest_of_mem_loadable {content : Content} {bs : List Block}
    (h : bs ∈ content.loadable) : ∀ b ∈ bs, b.FormatsAmong TextFormat.IsModest := by
  cases content with
  | text s =>
    rcases List.mem_append.mp h with h | h
    · rw [List.mem_singleton.mp h]
      exact formatsAmong_numberBlocks (Fragment.isModest_blocksOf _ _ _) 1
    · obtain ⟨d, hd, rfl⟩ := Option.map_eq_some_iff.mp (Option.mem_toList.mp h)
      exact Document.isModest_of_ofSnapshot? hd
  | word body =>
    rw [List.mem_singleton.mp h]
    exact formatsAmong_numberBlocks (Word.isModest_importBody _ _) 1
  | _ => cases h

/-- What is loaded can be written and read again. -/
theorem FileSystem.isModest_of_loadDocument {fs : FileSystem} {path : String} {d : Document}
    (h : fs.loadDocument path = .ok d) : d.FormatsAmong TextFormat.IsModest := by
  obtain ⟨entry, -, hloadable⟩ := List.mem_flatMap.mp (blocks_mem_loadable h)
  split at hloadable
  · exact Content.isModest_of_mem_loadable hloadable
  · cases hloadable

end Compositor
