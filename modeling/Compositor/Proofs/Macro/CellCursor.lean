/-
# A cursor in a cell

The pass for values and tables of contents walks through the occurrences of
one cell after the other. In the middle of a cell the invariant of the walk
says what the text before the cursor has become, that the text behind it is
as it was found, and that the ranges still to be visited are the spans of its
occurrences, behind what has become of the text before. The other cells of
the table stay.

Key definition: `CellCursor`.
Key theorems: `answered_cell`, `CellCursor.step`, `walk_cell_ends`.
-/
import Compositor.Proofs.Document.Cells
import Compositor.Proofs.Macro.Answering
import Compositor.Proofs.Macro.Cursor

namespace Compositor
open Text

namespace Macro
open Job Document

theorem toList_inlineText_contents (title : String) :
    (inlineText [Handler.emptyContents title]).toList =
      if isAllBlank title then [] else title.toList := by
  have htext : inlineText [Handler.emptyContents title] =
      " ".intercalate ([title].filter fun text => !isAllBlank text) := rfl
  rw [htext]
  cases h : isAllBlank title with
  | true => simp [h]
  | false => simp [h]

/-- In a cell the answer to an occurrence is text in its place. -/
theorem answered_cell {table : LookupTable} {title : String} {r : TextRange}
    {place : CellPosition} (hcell : r.cell = some place) {d d' : Document} {found : List Char}
    {edits : List Edit} (h : Answered title r d d' (table.answer found) edits) :
    (edits = [] ∧ d' = d ∧ table.replacement title found = found) ∨
      ∃ e d₁ text, edits = [e] ∧ d.replaceInCell r place text = .ok (d₁, e) ∧
        d'.bare = d₁.bare ∧ text.toList = table.replacement title found := by
  unfold LookupTable.replacement
  cases hanswer : table.answer found with
  | stays =>
    rw [hanswer] at h
    exact .inl ⟨h.1, h.2, rfl⟩
  | value text =>
    rw [hanswer] at h
    obtain ⟨e, hedits, hreplace⟩ := h
    unfold replaceText at hreplace
    rw [hcell] at hreplace
    exact .inr ⟨e, d', text, hedits, hreplace, rfl, rfl⟩
  | contents =>
    rw [hanswer] at h
    obtain ⟨e, d₁, hedits, hsplice, rfl⟩ := h
    unfold splice at hsplice
    rw [hcell] at hsplice
    exact .inr ⟨e, d₁, _, hedits, hsplice, d₁.bare_refreshContents,
      toList_inlineText_contents title⟩

/-- A walk in the middle of a cell: the text before the cursor has become
`new`, and the text behind it is cut as given. -/
structure CellCursor (table : LookupTable) (title : String) (before after : List Block) (t : Table)
    (place : CellPosition) (cell : Cell) (new : List Char) (c : Cut) (ranges : List TextRange)
    (s : Session) (k : Walk) : Prop where
  numbered : s.document.Numbered
  handlers : k.handlers = (valuePass table title).handlers
  blocks : s.document.bare = before ++ .table t :: after
  cell : t.cell? place = some { cell with content := String.ofList (new ++ c.text) }
  tokens : ∀ o ∈ c.occurrences, ReadsAsToken o.found
  spans : ranges.map (·.follow k.edits) =
    (spansFrom (size new) c.occurrences).map fun span => some ⟨t.id, some place, span.1, span.2⟩

namespace CellCursor

variable {table : LookupTable} {title : String} {before after : List Block} {t : Table}
  {place : CellPosition} {cell : Cell} {new : List Char} {o : Occurrence} {os : List Occurrence}
  {rest : List Char} {r : TextRange} {ranges : List TextRange} {s s' : Session} {k k' : Walk}

/-- The range of the next occurrence. -/
theorem spans_cons
    (h : CellCursor table title before after t place cell new ⟨o :: os, rest⟩ (r :: ranges) s k) :
    r.follow k.edits =
        some ⟨t.id, some place, size (new ++ o.gap), size (new ++ o.gap ++ o.found)⟩ ∧
      ranges.map (·.follow k.edits) =
        (spansFrom (size (new ++ o.gap ++ o.found)) os).map
          fun span => some ⟨t.id, some place, span.1, span.2⟩ := by
  have hspans := h.spans
  dsimp only at hspans
  rw [spansFrom, ← size_append, ← size_append] at hspans
  exact List.cons.inj hspans

theorem content_cons
    (h : CellCursor table title before after t place cell new ⟨o :: os, rest⟩ (r :: ranges) s k) :
    t.cell? place = some { cell with
      content := String.ofList (new ++ o.gap ++ o.found ++ Cut.text ⟨os, rest⟩) } := by
  rw [h.cell, Cut.text_cons_eq]
  simp only [List.append_assoc]

theorem reads
    (h : CellCursor table title before after t place cell new ⟨o :: os, rest⟩ (r :: ranges) s k) :
    s.document.Reads ⟨t.id, some place, size (new ++ o.gap), size (new ++ o.gap ++ o.found)⟩
      o.found := by
  obtain ⟨front, back, hblocks, -, -⟩ := exists_of_bare h.blocks rfl
  have hmem : Block.table t ∈ s.document.blocks := by
    rw [hblocks]
    simp
  refine ⟨_, h.numbered.textAt_cell hmem h.content_cons, ?_⟩
  rw [String.toList_ofList]
  exact slice?_eq_some_iff.mpr ⟨new ++ o.gap, Cut.text ⟨os, rest⟩, rfl, rfl, rfl⟩

/-- Behind an occurrence the cursor stands behind what it was replaced by. -/
theorem step
    (h : CellCursor table title before after t place cell new ⟨o :: os, rest⟩ (r :: ranges) s k)
    {edits : List Edit}
    (hk : Walk.Replies table title
      ⟨t.id, some place, size (new ++ o.gap), size (new ++ o.gap ++ o.found)⟩ o.found s s' k k'
      edits) :
    ∃ t', t.AlikeBut [place] t' ∧
      CellCursor table title before after t' place cell
        (new ++ o.gap ++ table.replacement title o.found) ⟨os, rest⟩ ranges s' k' ∧
      ∀ r r' : TextRange, r.follow k.edits = some r' → ¬ (r'.block = t.id ∧ r'.cell = some place) →
        r.follow k'.edits = some r' := by
  obtain ⟨-, hspans⟩ := h.spans_cons
  have htokens : ∀ o' ∈ os, ReadsAsToken o'.found :=
    fun o' ho' => h.tokens o' (List.mem_cons_of_mem o ho')
  have hedits := hk.appended
  rcases answered_cell rfl hk.answered with ⟨rfl, hdoc, hreplacement⟩ |
    ⟨e, d₁, text, rfl, hreplace, hbare, htext⟩
  · rw [List.append_nil] at hedits
    refine ⟨t, .refl t, ⟨hk.numbered, hk.handlers.trans h.handlers, ?_, ?_, htokens, ?_⟩,
      fun r r' hr _ => ?_⟩
    · rw [hdoc]
      exact h.blocks
    · rw [hreplacement]
      exact h.content_cons
    · rw [hreplacement, hedits]
      exact hspans
    · rw [hedits]
      exact hr
  · have hcontent : (String.ofList (new ++ o.gap ++ o.found ++ Cut.text ⟨os, rest⟩)).toList =
        new ++ o.gap ++ o.found ++ Cut.text ⟨os, rest⟩ := String.toList_ofList
    obtain ⟨hblocks, rfl⟩ :=
      h.numbered.bare_replaceInCell h.blocks h.content_cons hcontent hreplace
    refine ⟨_, .modifyCell t place _, ⟨hk.numbered, hk.handlers.trans h.handlers,
      hbare.trans hblocks, ?_, htokens, ?_⟩, fun r r' hr hne => ?_⟩
    · rw [Table.cell?_modifyCell, h.content_cons, htext]
      rfl
    · have hlt : size (new ++ o.gap) < size (new ++ o.gap ++ o.found) := by
        obtain ⟨_, -, hslice⟩ := h.reads
        exact lt_of_slice? hslice (h.tokens o List.mem_cons_self).ne_nil
      rw [hedits, map_follow_text hlt hspans, ← htext, size_append (new ++ o.gap),
        Table.id_modifyCell]
    · rw [hedits, TextRange.follow_append_singleton, hr]
      exact TextRange.rebase_elsewhere hne

end CellCursor

/-- A walk on from the cursor replaces the occurrences behind it. -/
theorem walk_cell_ends {table : LookupTable} {title : String} {before after : List Block}
    {t : Table} {place : CellPosition} {cell : Cell} {new : List Char} {os : List Occurrence}
    {rest : List Char} {ranges : List TextRange} {s : Session} {k : Walk}
    (h : CellCursor table title before after t place cell new ⟨os, rest⟩ ranges s k)
    (total : Nat) :
    (ranges.foldlM (Walk.visit total) k).Ends s
      (fun k' s' => Walk.Answers table (os.map Occurrence.found) s s' k k' ∧
        (∃ t', s'.document.bare = before ++ .table t' :: after ∧ t.AlikeBut [place] t' ∧
          t'.cell? place = some { cell with
            content := String.ofList (new ++ table.replaced title os ++ rest) }) ∧
        ∀ r r' : TextRange, r.follow k.edits = some r' →
          ¬ (r'.block = t.id ∧ r'.cell = some place) → r.follow k'.edits = some r')
      (fun _ => False) := by
  induction os generalizing s k t new ranges with
  | nil =>
    obtain rfl : ranges = [] := List.map_eq_nil_iff.mp h.spans
    refine ends_pure ⟨.nil h.numbered, ⟨t, h.blocks, .refl t, ?_⟩, fun r r' hr _ => hr⟩
    rw [h.cell, LookupTable.replaced, List.flatMap_nil, List.append_nil]
    rfl
  | cons o os ih =>
    obtain ⟨r, ranges, rfl, -, -⟩ := List.map_eq_cons_iff.mp h.spans
    obtain ⟨hr, -⟩ := h.spans_cons
    rw [List.foldlM_cons]
    refine ends_bind ((visit_replies h.numbered (h.tokens o List.mem_cons_self) h.reads hr
      h.handlers total).mono (fun k' s' hvisit => ?_) fun _ => id)
    obtain ⟨edits, hk⟩ := hvisit
    obtain ⟨t', halike, hcursor, helsewhere⟩ := h.step hk
    refine (ih hcursor).mono (fun k'' s'' hrest => ?_) fun _ => id
    obtain ⟨hk', ⟨t'', hblocks, halike', hcell⟩, helsewhere'⟩ := hrest
    refine ⟨hk.answers.append hk', ⟨t'', hblocks, halike.trans halike', ?_⟩, fun r r' hr hne => ?_⟩
    · rw [hcell, LookupTable.replaced, LookupTable.replaced, List.flatMap_cons]
      simp only [List.append_assoc]
    · refine helsewhere' r r' (helsewhere r r' hr hne) ?_
      rw [halike.id]
      exact hne

end Macro
end Compositor
