/-
# One pass that includes documents

The pass goes through the include directives of a document and inlines one
level: each document brought in is put in its place as it is. Block by block,
what the pass has gone through is opened, and what is still before it is as
it was found.

Key theorems: `walk_block_ends`, `includePass_ends`,
`pendingDirective?_ends`.
-/
import Compositor.Proofs.Macro.Cursor

namespace Compositor.Macro
open Text Job Document

/-! ### All blocks -/

section Blocks

variable {w : Workspace} {s : Session} {k : Walk}

theorem walk_block_ends (hw : w.Loads) {before after : List Block} {b : Block}
    (hd : s.document.Numbered) (hj : s.journal.Sound w) (hk : k.handlers = [.inclusion w])
    (hb : s.document.blocks = before ++ b :: after)
    (hclear : ∀ t, b = .table t → b.directives = [])
    (hfollow : ∀ o ∈ b.found includePattern, o.1.follow k.edits = some o.1) (total : Nat) :
    (((b.found includePattern).map Prod.fst).foldlM (Walk.visit total) k).Ends s
      (fun k' s' => Walk.Opens w before after b.id? b.directives
        ((w.segments b).flatMap Segment.opened) s s' k k')
      (fun _ => False) := by
  by_cases hnone : b.directives = []
  · -- nothing to visit
    have hfound : b.found includePattern = [] := List.map_eq_nil_iff.mp hnone
    have hsettled : ∀ y ∈ b.directives, w.brought? y = none := by
      rw [hnone]
      exact fun y hy => absurd hy List.not_mem_nil
    rw [hfound, hnone, segments_of_settled hsettled]
    refine ends_pure ⟨⟨hd, hk, Journal.learns_nil w s.journal⟩, ⟨[b], ?_, .cons rfl .nil⟩,
      fun _ => rfl, fun r r' hr _ _ => hr⟩
    rw [hb, List.append_assoc]
    rfl
  · cases b with
    | table t => exact absurd (hclear t rfl) hnone
    | object | contents | pageBreak => exact absurd rfl hnone
    | paragraph p =>
      have hcut : Cut.text (includePattern.cut p.chars) = p.chars := includePattern.text_cut _
      have hcuts : includeRecogniser.Cuts (includePattern.cut p.chars) :=
        congrArg includeRecogniser.cutBy hcut
      have hos : (includePattern.cut p.chars).occurrences ≠ [] := by
        intro hnil
        rw [directives_paragraph, hnil] at hnone
        exact hnone rfl
      have hblank : allBlank p.chars = false := hcut ▸ not_allBlank_of_cuts hcuts hos
      have hcursor : Cursor w before after p [] p.styled (includePattern.cut p.chars)
          (((Block.paragraph p).found includePattern).map Prod.fst) s k := by
        refine ⟨hd, hj, hk, hb, rfl, hcuts, ?_, hblank, ?_⟩
        · rw [Paragraph.chars_styled, hcut]
        · exact map_follow_foundIn hfollow
      refine (walk_cursor_ends hw hcursor total).mono (fun k' s' h => ?_) fun _ => id
      rw [directives_paragraph]
      by_cases hbrings : w.bringsIn (.paragraph p) = true
      · rw [Workspace.segments, if_pos hbrings]
        exact h
      · -- nothing is brought in, so the paragraph is as it was
        have hsettled := bringsIn_eq_false_iff.mp (Bool.eq_false_iff.mpr hbrings)
        have hdoc := h.untouched (directives_paragraph p ▸ hsettled)
        rw [segments_of_settled hsettled]
        refine ⟨h.toIncluded, ⟨[.paragraph p], ?_, .cons rfl .nil⟩, h.untouched, h.elsewhere⟩
        rw [hdoc, hb, List.append_assoc]
        rfl

theorem walk_blocks_ends (hw : w.Loads) {done todo : List Block} (hd : s.document.Numbered)
    (hj : s.journal.Sound w) (hk : k.handlers = [.inclusion w])
    (hb : s.document.blocks = done ++ todo)
    (hclear : ∀ t, .table t ∈ todo → (Block.table t).directives = [])
    (hfollow : ∀ b ∈ todo, ∀ o ∈ b.found includePattern, o.1.follow k.edits = some o.1)
    (total : Nat) :
    (((todo.flatMap (Block.found includePattern)).map Prod.fst).foldlM (Walk.visit total) k).Ends s
      (fun k' s' => Walk.Included w (directivesOf todo) s s' k' ∧
        ∃ bs, s'.document.blocks = done ++ bs ∧
          List.Forall₂ Part.Matches ((todo.flatMap w.segments).flatMap Segment.opened) bs)
      (fun _ => False) := by
  induction todo generalizing s k done with
  | nil => exact ends_pure ⟨⟨hd, hk, Journal.learns_nil w s.journal⟩, [], hb, .nil⟩
  | cons b todo ih =>
    rw [List.flatMap_cons, List.map_append, List.foldlM_append]
    have hclear' : ∀ t, b = .table t → b.directives = [] := by
      rintro t rfl
      exact hclear t List.mem_cons_self
    refine ends_bind ((walk_block_ends hw hd hj hk hb hclear' (hfollow b List.mem_cons_self)
      total).mono (fun k' s' h => ?_) fun _ => id)
    obtain ⟨bs, hbs, hmatches⟩ := h.blocks
    have hfollow' : ∀ b' ∈ todo, ∀ o ∈ b'.found includePattern, o.1.follow k'.edits = some o.1 := by
      intro b' hb' o ho
      have hid := id?_of_mem_found ho
      have hmem : b' ∈ s.document.blocks := by
        rw [hb]
        exact List.mem_append_right _ (List.mem_cons_of_mem _ hb')
      refine h.elsewhere o.1 o.1 (hfollow b' (List.mem_cons_of_mem _ hb') o ho) (fun he => ?_) ?_
      · exact hd.id?_ne hb he b' (List.mem_append_right _ hb') hid
      · exact hd.fresh _ (List.mem_filterMap.mpr ⟨b', hmem, hid⟩)
    refine (ih h.numbered (h.learns.sound hj) h.handlers hbs
      (fun t ht => hclear t (List.mem_cons_of_mem _ ht)) hfollow').mono (fun k'' s'' h' => ?_)
        fun _ => id
    obtain ⟨hincluded, bs', hbs', hmatches'⟩ := h'
    refine ⟨⟨hincluded.numbered, hincluded.handlers, h.learns.append hincluded.learns⟩,
      bs ++ bs', ?_, ?_⟩
    · rw [hbs', List.append_assoc]
    · rw [List.flatMap_cons, List.flatMap_append]
      exact List.rel_append hmatches hmatches'

/-- **A pass includes one level.** Each document brought in by a directive is
put in its place as it is, and all else stays. -/
theorem includePass_ends (hw : w.Loads) (hd : s.document.Numbered) (hj : s.journal.Sound w)
    (hclear : ∀ t, .table t ∈ s.document.blocks → (Block.table t).directives = []) :
    (includePass w).run.Ends s
      (fun _ s' => s'.document.Numbered ∧
        s.journal.Learns w (directivesOf s.document.blocks) s'.journal ∧
        List.Forall₂ Part.Matches
          ((s.document.blocks.flatMap w.segments).flatMap Segment.opened) s'.document.blocks)
      (fun _ => False) := by
  have hpass := processAll_eq_foldlM (s.document.search includePattern).length
    ((includePass w).start (s.document.search includePattern).length)
    (s.document.search includePattern)
  have hrun := congrArg (fun job : Job PassReport => job.run s) hpass
  refine Ends.congr (show (includePass w).run.run s = _ from hrun) (ends_bind ?_)
  rw [← s.document.map_fst_found includePattern]
  refine (walk_blocks_ends hw hd hj rfl (List.nil_append _).symm hclear (fun b _ o _ => rfl) _).mono
    (fun k' s' h => ?_) fun _ => id
  obtain ⟨hincluded, bs, hbs, hmatches⟩ := h
  refine ends_pure ⟨hincluded.numbered, hincluded.learns, ?_⟩
  rw [hbs]
  exact hmatches

end Blocks

/-! ### Between passes -/

theorem mapM_ok {α β ε : Type} {f : α → Except ε β} {g : α → β} {l : List α}
    (h : ∀ a ∈ l, f a = .ok (g a)) : l.mapM f = .ok (l.map g) := by
  induction l with
  | nil => rfl
  | cons a l ih =>
    rw [List.mapM_cons, h a List.mem_cons_self, ih fun b hb => h b (List.mem_cons_of_mem a hb)]
    rfl

theorem directivesRead_eq {d : Document} (hd : d.Numbered) :
    d.directivesRead = .ok (directivesOf d.blocks) := by
  have hread : ∀ o ∈ d.found includePattern,
      (d.rangeText ∘ Prod.fst) o = .ok (String.ofList o.2) :=
    fun o ho => Document.rangeText_of_reads (hd.reads_of_mem_found ho)
  rw [Document.directivesRead, ← d.map_fst_found, List.mapM_map, mapM_ok hread,
    map_found_directives]

theorem pendingDirectives_eq {d : Document} (hd : d.Numbered) (j : Journal) :
    pendingDirectives d j = .ok ((directivesOf d.blocks).filter fun x => !j.isMissing x) :=
  congrArg (Except.map _) (directivesRead_eq hd)

/-- The directive that is pending, if there is one. -/
theorem pendingDirective?_ends {s : Session} (hd : s.document.Numbered) :
    pendingDirective?.Ends s
      (fun pending? s' => s' = s ∧
        match pending? with
        | none => ∀ x ∈ directivesOf s.document.blocks, s.journal.isMissing x = true
        | some x => x ∈ directivesOf s.document.blocks ∧ s.journal.isMissing x = false)
      (fun _ => False) := by
  refine ends_bind (ends_get ?_)
  rw [pendingDirectives_eq hd]
  refine ends_bind (ends_pure (ends_pure ⟨rfl, ?_⟩))
  cases hhead : ((directivesOf s.document.blocks).filter fun x => !s.journal.isMissing x).head? with
  | none =>
    intro x hx
    have hall := List.filter_eq_nil_iff.mp (List.head?_eq_none_iff.mp hhead) x hx
    simpa using hall
  | some x =>
    have hmem := List.mem_filter.mp (List.mem_of_head? hhead)
    exact ⟨hmem.1, by simpa using hmem.2⟩

end Compositor.Macro
