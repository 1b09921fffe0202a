/-
# What an edit does to the texts of a document

An edit at a range that reads something always succeeds. It changes the text
at the address of its range only: around the range the text stays, and if
the paragraph is split, what stood after the range is the text at a fresh id,
unless it is blank.

Key definitions: `Document.Leaves`, `Document.Edited`.
Key theorems: `Numbered.splice_eq`, `Numbered.exists_split`, `Numbered.edited_replaceText`,
`Numbered.edited_splice`, `Edited.refreshContents`.
-/
import Compositor.Document.Contents
import Compositor.Proofs.Document.Formats
import Compositor.Proofs.Document.Texts

namespace Compositor
open Text

/-- The range of the text `x` behind the text `a` in a paragraph. -/
def Paragraph.rangeAfter (p : Paragraph) (a x : Styled) : TextRange :=
  ⟨p.id, none, size a.chars, size (a.chars ++ x.chars)⟩

namespace Document

/-- What became of a text cut into `u`, the range of an edit, and `v`. -/
def Leaves (d d' : Document) (r : TextRange) (u v : List Char) : EditKind → Prop
  | .text inserted =>
    ∃ new, size new = inserted ∧ d'.textAt r.block r.cell = some (u ++ new ++ v)
  | .split none => allBlank v = true
  | .split (some tail) => freshId d.nextId ≤ tail ∧ d'.textAt tail none = some v

/-- An edit was made of `d`, and `d'` is the document since then: what stood
around the range is still there, and so are all other texts. -/
structure Edited (d d' : Document) (e : Edit) : Prop where
  numbered : d'.Numbered
  others : ∀ id cell s, ¬ (id = e.range.block ∧ cell = e.range.cell) →
    d.textAt id cell = some s → d'.textAt id cell = some s
  around : ∃ u x v, d.textAt e.range.block e.range.cell = some (u ++ x ++ v) ∧
    size u = e.range.start ∧ size (u ++ x) = e.range.stop ∧ d.Leaves d' e.range u v e.kind

/-! ### Any next id -/

/-- Text is put in a cell without a look at the next id. -/
theorem replaceInCell_nextId (d : Document) (n : Nat) (r : TextRange) (place : CellPosition)
    (new : String) :
    replaceInCell { d with nextId := n } r place new =
      (d.replaceInCell r place new).map fun done => ({ done.1 with nextId := n }, done.2) := by
  unfold replaceInCell
  cases splitAtTable r.block d.blocks with
  | none => rfl
  | some split =>
    cases hc : split.2.1.cell? place with
    | none => simp only [hc, Except.map]
    | some cell =>
      cases hx : slice? cell.content.toList r.start r.stop <;> simp [hc, hx, Except.map]

/-- Text is put for a range without a look at the next id. -/
theorem replaceText_nextId (d : Document) (n : Nat) (r : TextRange) (new : String) :
    replaceText { d with nextId := n } r new =
      (d.replaceText r new).map fun done => ({ done.1 with nextId := n }, done.2) := by
  unfold replaceText
  cases r.cell with
  | none =>
    have haddressed : addressed { d with nextId := n } r = d.addressed r := rfl
    simp only [haddressed]
    cases d.addressed r <;> rfl
  | some place => exact d.replaceInCell_nextId n r place new

/-! ### A cell -/

theorem Numbered.replaceInCell_eq {d : Document} (h : d.Numbered) {before after : List Block}
    {t : Table} {place : CellPosition} {cell : Cell} {r : TextRange} {x : List Char}
    (hb : d.blocks = before ++ .table t :: after) (hid : r.block = t.id)
    (hc : t.cell? place = some cell) (hx : slice? cell.content.toList r.start r.stop = some x)
    (new : String) :
    d.replaceInCell r place new = .ok
      ({ d with blocks := before ++ .table (t.modifyCell place fun cell' => { cell' with
          content := String.ofList (substitute cell.content.toList r.start r.stop new.toList) })
          :: after },
        ⟨r, .text (size new.toList)⟩) := by
  have hfree : ∀ b ∈ before, b.id? ≠ some t.id :=
    fun b hmem => h.id?_ne hb rfl b (List.mem_append_left _ hmem)
  unfold replaceInCell
  rw [hid, hb, splitAtTable_append hfree]
  simp only [hc, hx, Option.isNone_some, Bool.false_eq_true, if_false]

theorem Numbered.edited_replaceInCell {d : Document} (h : d.Numbered) {r : TextRange}
    {place : CellPosition} {x : List Char} (hcell : r.cell = some place) (hr : d.Reads r x)
    (new : String) :
    ∃ d' e, d.replaceInCell r place new = .ok (d', e) ∧ e.range = r ∧ d.Edited d' e := by
  obtain ⟨s, hs, hx⟩ := hr
  rw [hcell] at hs
  obtain ⟨t, cell, ht, hid, hc, rfl⟩ := exists_of_textAt_some hs
  obtain ⟨before, after, hb⟩ := List.mem_iff_append.mp ht
  refine ⟨_, _, h.replaceInCell_eq hb hid.symm hc hx new, rfl, ?_⟩
  generalize hput : (fun cell' : Cell => { cell' with
    content := String.ofList (substitute cell.content.toList r.start r.stop new.toList) }) = put
  have hold : d.blocks = before ++ [.table t] ++ after := by rw [hb]; simp
  have hnum : Numbered { d with blocks := before ++ .table (t.modifyCell place put) :: after } := by
    refine h.exchange hold (List.append_cons _ _ _) ?_ ?_ (Nat.le_refl _)
    · exact List.nodup_cons.mpr ⟨List.not_mem_nil, List.nodup_nil⟩
    · intro id hmem
      have hsame : (Block.table (t.modifyCell place put)).id? = some t.id :=
        congrArg some (Table.id_modifyCell t place put)
      rw [List.filterMap_cons_some hsame] at hmem
      exact .inl hmem
  have hmem : Block.table (t.modifyCell place put) ∈
      before ++ .table (t.modifyCell place put) :: after := by simp
  refine ⟨hnum, ?_, ?_⟩
  · intro id c s hne hs
    change ¬ (id = r.block ∧ c = r.cell) at hne
    rw [hcell] at hne
    by_cases hsame : id = t.id
    · subst hsame
      cases c with
      | none =>
        -- no paragraph has the id of the table
        obtain ⟨p, hp, hpid, -⟩ := exists_of_textAt_none hs
        cases h.eq_of_id? ht hp rfl (congrArg some hpid)
      | some place' =>
        have hplace : place' ≠ place := fun he => hne ⟨hid, congrArg some he⟩
        obtain ⟨t', cell', ht', hid', hc', rfl⟩ := exists_of_textAt_some hs
        cases h.eq_of_id? ht ht' rfl (congrArg some hid')
        rw [← Table.cell?_modifyCell_of_ne t hplace put] at hc'
        rw [← Table.id_modifyCell t place put]
        exact hnum.textAt_cell hmem hc'
    · exact h.textAt_exchange hnum hb (List.append_cons _ _ _) rfl hsame hs
  · obtain ⟨u, v, huv, hstart, hstop⟩ := slice?_eq_some_iff.mp hx
    refine ⟨u, x, v, ?_, hstart, hstop, new.toList, rfl, ?_⟩
    · show d.textAt r.block r.cell = _
      rw [hcell, hs, huv]
    · show Document.textAt _ r.block r.cell = _
      have hc' : (t.modifyCell place put).cell? place = some (put cell) := by
        rw [Table.cell?_modifyCell, hc]
        rfl
      rw [hcell, ← hid, ← Table.id_modifyCell t place put, hnum.textAt_cell hmem hc', ← hput, huv,
        ← hstart, ← hstop, substitute_append, String.toList_ofList]

/-! ### A paragraph -/

theorem Numbered.addressed_eq {d : Document} (h : d.Numbered) {before after : List Block}
    {p : Paragraph} {r : TextRange} {x : List Char}
    (hb : d.blocks = before ++ .paragraph p :: after) (hid : r.block = p.id)
    (hx : slice? p.chars r.start r.stop = some x) : d.addressed r = .ok (before, p, after) := by
  have hfree : ∀ b ∈ before, b.id? ≠ some p.id :=
    fun b hmem => h.id?_ne hb rfl b (List.mem_append_left _ hmem)
  unfold addressed
  rw [hid, hb, splitAtParagraph_append hfree]
  simp only [hx, Option.isNone_some, Bool.false_eq_true, if_false]

/-- In a paragraph only its own text changes. -/
theorem Numbered.others_paragraph {d d' : Document} (h : d.Numbered) (h' : d'.Numbered)
    {before new after : List Block} {p : Paragraph}
    (hb : d.blocks = before ++ .paragraph p :: after) (hb' : d'.blocks = before ++ new ++ after)
    {id : Nat} {cell : Option CellPosition} {s : List Char} (hne : ¬ (id = p.id ∧ cell = none))
    (hs : d.textAt id cell = some s) : d'.textAt id cell = some s := by
  have hp : .paragraph p ∈ d.blocks := by rw [hb]; simp
  by_cases hsame : id = p.id
  · cases cell with
    | none => exact absurd ⟨hsame, rfl⟩ hne
    | some place =>
      -- no table has the id of the paragraph
      obtain ⟨t, cell, ht, htid, -⟩ := exists_of_textAt_some hs
      cases h.eq_of_id? hp ht rfl (congrArg some (htid.trans hsame))
  · exact h.textAt_exchange h' hb hb' rfl hsame hs

theorem Numbered.edited_replaceText {d : Document} (h : d.Numbered) {r : TextRange}
    {x : List Char} (hr : d.Reads r x) (new : String) :
    ∃ d' e, d.replaceText r new = .ok (d', e) ∧ e.range = r ∧ d.Edited d' e := by
  unfold replaceText
  cases hcell : r.cell with
  | some place => exact h.edited_replaceInCell hcell hr new
  | none =>
    obtain ⟨s, hs, hx⟩ := hr
    rw [hcell] at hs
    obtain ⟨p, hp, hid, rfl⟩ := exists_of_textAt_none hs
    obtain ⟨before, after, hb⟩ := List.mem_iff_append.mp hp
    simp only [h.addressed_eq hb hid.symm hx]
    refine ⟨_, _, rfl, rfl, ?_⟩
    generalize hq :
      ({ p with runs := Run.replace new.toList r.start r.stop p.runs } : Paragraph) = q
    have hqid : q.id = p.id := by rw [← hq]
    have hold : d.blocks = before ++ [.paragraph p] ++ after := by rw [hb]; simp
    have hnum : Numbered { d with blocks := before ++ .paragraph q :: after } := by
      refine h.exchange hold (List.append_cons _ _ _) ?_ ?_ (Nat.le_refl _)
      · exact List.nodup_cons.mpr ⟨List.not_mem_nil, List.nodup_nil⟩
      · intro id hmem
        have hsame : (Block.paragraph q).id? = some p.id := congrArg some hqid
        rw [List.filterMap_cons_some hsame] at hmem
        exact .inl hmem
    refine ⟨hnum, ?_, ?_⟩
    · intro id cell s hne hs
      change ¬ (id = r.block ∧ cell = r.cell) at hne
      rw [hcell, ← hid] at hne
      exact h.others_paragraph hnum hb (List.append_cons _ _ _) hne hs
    · obtain ⟨u, v, huv, hstart, hstop⟩ := slice?_eq_some_iff.mp hx
      refine ⟨u, x, v, ?_, hstart, hstop, new.toList, rfl, ?_⟩
      · show d.textAt r.block r.cell = _
        rw [hcell, hs, huv]
      · show Document.textAt _ r.block r.cell = _
        have hmem : Block.paragraph q ∈ before ++ .paragraph q :: after := by simp
        have hnew : q.chars = u ++ new.toList ++ v := by
          rw [← hq, ← hstart, ← hstop]
          exact Run.allChars_replace new.toList huv
        rw [hcell, ← hid, ← hqid, hnum.textAt_paragraph hmem, hnew]

/-! ### A paragraph split -/

theorem nodup_ids_half (p : Paragraph) : ((half p).filterMap Block.id?).Nodup := by
  unfold half
  split
  · exact List.nodup_nil
  · exact List.nodup_cons.mpr ⟨List.not_mem_nil, List.nodup_nil⟩

theorem eq_of_mem_ids_half {p : Paragraph} {id : Nat} (h : id ∈ (half p).filterMap Block.id?) :
    id = p.id := by
  unfold half at h
  split at h
  · cases h
  · exact List.mem_singleton.mp h

theorem mem_half {p : Paragraph} (h : allBlank p.chars = false) : .paragraph p ∈ half p := by
  rw [half, h]
  exact List.mem_singleton_self _

theorem half_eq_nil {p : Paragraph} (h : allBlank p.chars = true) : half p = [] := if_pos h

/-- A split leaves the document numbered: the part before the range keeps the
id, and all other new blocks have fresh ones. -/
theorem Numbered.split {d : Document} (h : d.Numbered) {before after : List Block}
    {p : Paragraph} (hb : d.blocks = before ++ .paragraph p :: after) (bs : List Block)
    {head tail : Paragraph}
    (hhead : head.id = p.id) (htail : tail.id = d.tailId bs) :
    Numbered { d with
      blocks := before ++ half head ++ (adoptBlocks d.objectNames d.nextId bs).1 ++ half tail
        ++ after
      nextId := d.tailId bs + 1 } := by
  obtain ⟨hids, -⟩ := ids_adoptBlocks d.objectNames d.nextId bs
  have hlast := d.tailId_eq bs
  have hold : d.blocks = before ++ [.paragraph p] ++ after := by rw [hb]; simp
  have hp : p.id < freshId d.nextId :=
    h.fresh p.id (List.mem_filterMap.mpr ⟨.paragraph p, by rw [hb]; simp, rfl⟩)
  have hnew : before ++ half head ++ (adoptBlocks d.objectNames d.nextId bs).1 ++ half tail
        ++ after
      = before ++ (half head ++ (adoptBlocks d.objectNames d.nextId bs).1 ++ half tail)
        ++ after := by
    simp only [List.append_assoc]
  refine h.exchange hold hnew ?_ ?_ ?_
  · rw [List.filterMap_append, List.filterMap_append, List.nodup_append, List.nodup_append]
    refine ⟨⟨nodup_ids_half head, by rw [hids]; exact List.nodup_range', ?_⟩,
      nodup_ids_half tail, ?_⟩
    · rintro i hi j hj rfl
      rw [hids, List.mem_range'_1] at hj
      have := eq_of_mem_ids_half hi
      omega
    · rintro i hi j hj rfl
      have := eq_of_mem_ids_half hj
      rcases List.mem_append.mp hi with hi | hi
      · have := eq_of_mem_ids_half hi
        omega
      · rw [hids, List.mem_range'_1] at hi
        omega
  · intro id hmem
    rw [List.filterMap_append, List.filterMap_append, List.mem_append, List.mem_append] at hmem
    rcases hmem with (hmem | hmem) | hmem
    · refine .inl (List.mem_singleton.mpr ?_)
      rw [eq_of_mem_ids_half hmem, hhead]
    · rw [hids, List.mem_range'_1] at hmem
      refine .inr ⟨hmem.1, ?_⟩
      show id < freshId (d.tailId bs + 1)
      rw [freshId_succ]
      omega
    · have := eq_of_mem_ids_half hmem
      refine .inr ⟨by omega, ?_⟩
      show id < freshId (d.tailId bs + 1)
      rw [freshId_succ]
      omega
  · show freshId d.nextId ≤ freshId (d.tailId bs + 1)
    rw [freshId_succ]
    omega

/-- The part before the range is the text at the id, or nothing is, if that
part is blank: all other new blocks have fresh ids. -/
theorem Numbered.textAt_head {d : Document} (h : d.Numbered) {before after : List Block}
    {p : Paragraph} (hb : d.blocks = before ++ .paragraph p :: after) (bs : List Block)
    {head tail : Paragraph}
    (hhead : head.id = p.id) (htail : tail.id = d.tailId bs) :
    Document.textAt { d with
      blocks := before ++ half head ++ (adoptBlocks d.objectNames d.nextId bs).1 ++ half tail
        ++ after
      nextId := d.tailId bs + 1 } p.id none =
      if allBlank head.chars then none else some head.chars := by
  cases hblank : allBlank head.chars with
  | false =>
    have hmem : Block.paragraph head ∈ before ++ half head
        ++ (adoptBlocks d.objectNames d.nextId bs).1 ++ half tail ++ after := by
      simp only [List.mem_append]
      exact .inl (.inl (.inl (.inr (mem_half hblank))))
    rw [← hhead]
    exact (h.split hb bs hhead htail).textAt_paragraph hmem
  | true =>
    obtain ⟨hids, -⟩ := ids_adoptBlocks d.objectNames d.nextId bs
    have hlast := d.tailId_eq bs
    have hlow : p.id < freshId d.nextId :=
      h.fresh p.id (List.mem_filterMap.mpr ⟨.paragraph p, by rw [hb]; simp, rfl⟩)
    refine textAt_eq_none (fun c hc hid => ?_) none
    simp only [half_eq_nil hblank, List.append_nil, List.mem_append] at hc
    rcases hc with ((hc | hc) | hc) | hc
    · exact h.id?_ne hb rfl c (List.mem_append_left _ hc) hid
    · have hmem : p.id ∈ (adoptBlocks d.objectNames d.nextId bs).1.filterMap Block.id? :=
        List.mem_filterMap.mpr ⟨c, hc, hid⟩
      rw [hids, List.mem_range'_1] at hmem
      omega
    · have hmem := eq_of_mem_ids_half (List.mem_filterMap.mpr ⟨c, hc, hid⟩)
      omega
    · exact h.id?_ne hb rfl c (List.mem_append_right _ hc) hid

/-- The part after the range is the text at its new id, unless it is blank. -/
theorem Numbered.textAt_tail {d : Document} (h : d.Numbered) {before after : List Block}
    {p : Paragraph} (hb : d.blocks = before ++ .paragraph p :: after) (bs : List Block)
    {head tail : Paragraph}
    (hhead : head.id = p.id) (htail : tail.id = d.tailId bs)
    (hblank : allBlank tail.chars = false) :
    Document.textAt { d with
      blocks := before ++ half head ++ (adoptBlocks d.objectNames d.nextId bs).1 ++ half tail
        ++ after
      nextId := d.tailId bs + 1 } tail.id none = some tail.chars := by
  have hmem : Block.paragraph tail ∈ before ++ half head
      ++ (adoptBlocks d.objectNames d.nextId bs).1 ++ half tail ++ after :=
    List.mem_append_left _ (List.mem_append_right _ (mem_half hblank))
  exact (h.split hb bs hhead htail).textAt_paragraph hmem

/-- The blocks and the edit that a split at a range makes, where `a`, `x` and
`b` are the text before the range, in it and after it. -/
theorem Numbered.splice_eq {d : Document} (h : d.Numbered) {before after : List Block}
    {p : Paragraph} {a x b : Styled} (hb : d.blocks = before ++ .paragraph p :: after)
    (hp : p.styled = a ++ x ++ b) (bs : List Block) :
    ∃ head tail : List Run, head.flatMap Run.styled = a ∧ tail.flatMap Run.styled = b ∧
      d.splice (p.rangeAfter a x) bs = .ok
        ({ d with
            blocks := before ++ half { p with runs := head }
              ++ (adoptBlocks d.objectNames d.nextId bs).1
              ++ half { p with id := d.tailId bs, runs := tail }
              ++ after
            nextId := d.tailId bs + 1 },
          ⟨p.rangeAfter a x, .split (if allBlank b.chars then none
            else some (d.tailId bs))⟩) := by
  have hchars : p.chars = a.chars ++ x.chars ++ b.chars := by
    rw [← Paragraph.chars_styled, hp, Styled.chars_append, Styled.chars_append]
  have hx : slice? p.chars (size a.chars) (size (a.chars ++ x.chars)) = some x.chars :=
    slice?_eq_some_iff.mpr ⟨_, _, hchars, rfl, rfl⟩
  have hparts : p.runs.flatMap Run.styled = a ++ (x ++ b) := by
    rw [← List.append_assoc]
    exact hp
  obtain ⟨hhead, hrest⟩ := Run.styled_cutAt hparts
  obtain ⟨-, htail⟩ := Run.styled_cutAt hrest
  refine ⟨_, _, hhead, htail, ?_⟩
  have hlength : size (a.chars ++ x.chars) - size a.chars = size x.chars := by
    rw [size_append, Nat.add_sub_cancel_left]
  have htailChars : ∀ id, Paragraph.chars { p with
      id, runs := (Run.cutAt (size x.chars) (Run.cutAt (size a.chars) p.runs).2).2 } = b.chars := by
    intro id
    rw [← Paragraph.chars_styled]
    exact congrArg Styled.chars htail
  have haddressed : d.addressed (p.rangeAfter a x) = .ok (before, p, after) :=
    h.addressed_eq hb rfl hx
  unfold Paragraph.rangeAfter at haddressed ⊢
  unfold splice tailId
  simp only [haddressed, hlength, htailChars]

/-- A split at a range succeeds. The text before the range is the text at its
address then, unless it is blank; the text after it is one at a fresh id, unless
it is blank; and all other texts stay. -/
theorem Numbered.exists_split {d : Document} (h : d.Numbered) {r : TextRange}
    {u x v : List Char} (hcell : r.cell = none) (hs : d.textAt r.block none = some (u ++ x ++ v))
    (hstart : size u = r.start) (hstop : size (u ++ x) = r.stop) (bs : List Block) :
    ∃ d' tail, d.splice r bs =
        .ok (d', ⟨r, .split (if allBlank v then none else some tail)⟩) ∧
      d'.Numbered ∧ freshId d.nextId ≤ tail ∧
      (∀ id cell s, ¬ (id = r.block ∧ cell = r.cell) → d.textAt id cell = some s →
        d'.textAt id cell = some s) ∧
      (d'.textAt r.block none = if allBlank u then none else some u) ∧
      (allBlank v = false → d'.textAt tail none = some v) := by
  obtain ⟨p, hp, hid, hchars⟩ := exists_of_textAt_none hs
  obtain ⟨before, after, hb⟩ := List.mem_iff_append.mp hp
  rw [← Paragraph.chars_styled] at hchars
  obtain ⟨a, y, b, hparts, rfl, rfl, rfl⟩ := Styled.exists_parts hchars
  obtain ⟨head, tail, hhead, htail, hsplice⟩ := h.splice_eq hb hparts bs
  have hrange : r = p.rangeAfter a y := by
    rw [Paragraph.rangeAfter, hid, ← hcell, hstart, hstop]
  rw [← hrange] at hsplice
  have hfresh : freshId d.nextId ≤ d.tailId bs := by
    rw [tailId_eq]
    exact Nat.le_add_right _ _
  generalize hheadP : ({ p with runs := head } : Paragraph) = headP at hsplice
  generalize htailP : ({ p with
    id := d.tailId bs, runs := tail } : Paragraph) = tailP at hsplice
  have hheadId : headP.id = p.id := (congrArg Paragraph.id hheadP).symm
  have htailId : tailP.id = d.tailId bs :=
    (congrArg Paragraph.id htailP).symm
  have hheadChars : headP.chars = a.chars := by
    rw [← Paragraph.chars_styled, ← hheadP]
    exact congrArg Styled.chars hhead
  have htailChars : tailP.chars = b.chars := by
    rw [← Paragraph.chars_styled, ← htailP]
    exact congrArg Styled.chars htail
  have hnum := h.split hb bs hheadId htailId
  refine ⟨_, _, hsplice, hnum, hfresh, ?_, ?_, ?_⟩
  · intro id cell s hne hs
    rw [hcell, ← hid] at hne
    have hnew : before ++ half headP ++ (adoptBlocks d.objectNames d.nextId bs).1 ++ half tailP
        ++ after
        = before ++ (half headP ++ (adoptBlocks d.objectNames d.nextId bs).1 ++ half tailP)
          ++ after := by
      simp only [List.append_assoc]
    exact h.others_paragraph hnum hb hnew hne hs
  · rw [← hid, ← hheadChars]
    exact h.textAt_head hb bs hheadId htailId
  · intro hblank
    rw [← htailChars] at hblank
    rw [← htailId, ← htailChars]
    exact h.textAt_tail hb bs hheadId htailId hblank

theorem Numbered.edited_splice {d : Document} (h : d.Numbered) {r : TextRange} {x : List Char}
    (hr : d.Reads r x) (bs : List Block) :
    ∃ d' e, d.splice r bs = .ok (d', e) ∧ e.range = r ∧ d.Edited d' e := by
  cases hcell : r.cell with
  | some place =>
    unfold splice
    rw [hcell]
    exact h.edited_replaceInCell hcell hr (inlineText bs)
  | none =>
    obtain ⟨s, hs, hx⟩ := hr
    obtain ⟨u, v, rfl, hstart, hstop⟩ := slice?_eq_some_iff.mp hx
    have hsplit := h.exists_split hcell (hcell ▸ hs) hstart hstop bs
    obtain ⟨d', tail, hsplice, hnum, hfresh, hothers, -, htail⟩ := hsplit
    refine ⟨d', _, hsplice, rfl, hnum, hothers, u, x, v, hs, hstart, hstop, ?_⟩
    cases hblank : allBlank v with
    | true => exact hblank
    | false => exact ⟨hfresh, htail hblank⟩

/-! ### Tables of contents made anew -/

theorem id?_withEntries (entries : List OutlineItem) (b : Block) :
    (b.withEntries entries).id? = b.id? := by
  cases b <;> rfl

theorem textAt_refreshContents (d : Document) (id : Nat) (cell : Option CellPosition) :
    d.refreshContents.textAt id cell = d.textAt id cell := by
  have hp : ∀ b : Block, (b.withEntries d.outline).paragraph? = b.paragraph? := by
    intro b
    cases b <;> rfl
  have ht : ∀ b : Block, (b.withEntries d.outline).table? = b.table? := by
    intro b
    cases b <;> rfl
  cases cell with
  | none =>
    simp only [textAt, paragraph?, paragraphs, refreshContents, List.filterMap_map,
      Function.comp_def, hp]
  | some place =>
    simp only [textAt, table?, tables, refreshContents, List.filterMap_map, Function.comp_def, ht]

theorem Numbered.refreshContents {d : Document} (h : d.Numbered) : d.refreshContents.Numbered := by
  have hids : d.refreshContents.ids = d.ids := by
    simp only [ids, Document.refreshContents, List.filterMap_map, Function.comp_def,
      id?_withEntries]
  exact ⟨hids ▸ h.distinct, fun id hid => h.fresh id (hids ▸ hid)⟩

theorem Edited.refreshContents {d d' : Document} {e : Edit} (h : d.Edited d' e) :
    d.Edited d'.refreshContents e := by
  obtain ⟨hnum, hothers, u, x, v, hat, hu, hx, hleaves⟩ := h
  refine ⟨hnum.refreshContents, ?_, u, x, v, hat, hu, hx, ?_⟩
  · intro id cell s hne hs
    rw [textAt_refreshContents]
    exact hothers id cell s hne hs
  · cases hkind : e.kind with
    | text inserted =>
      rw [hkind] at hleaves
      simp only [Leaves, textAt_refreshContents] at hleaves ⊢
      exact hleaves
    | split tail? =>
      rw [hkind] at hleaves
      cases tail? with
      | none => exact hleaves
      | some tail =>
        simp only [Leaves, textAt_refreshContents] at hleaves ⊢
        exact hleaves

end Document
end Compositor
