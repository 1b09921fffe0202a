/-
# Ranges across an edit

A range that was read before an edit can be read after it, wherever it lies,
unless the edit overlaps it. In the text of the edit a range lies before the
edited one or behind it. Before it nothing moves; behind it everything moves
alike, or goes along to the paragraph that is split off. Only a split loses
more: a half that is blank is dropped, and the ranges in it with it.

Key definitions: `TextRange.Overlaps`, `TextRange.IsBefore`,
`TextRange.IsBehind`, `TextRange.rebaseChecked?`, `Document.ReadsAcross`.
Key theorems: `TextRange.rebaseChecked?_eq`, `Edited.readsAcross_text`,
`Numbered.readsAcross_split`, `rangeText_rebase`.
-/
import Compositor.Proofs.Document.Following

namespace Compositor
open Text

namespace TextRange

/-! ### How two ranges lie -/

/-- The ranges are in one text, and each ends behind the start of the other. -/
def Overlaps (q r : TextRange) : Prop :=
  q.block = r.block ∧ q.cell = r.cell ∧ r.start < q.stop ∧ q.start < r.stop

/-- The ranges are in one text, and the first ends where the second starts, or
before. -/
def IsBefore (q r : TextRange) : Prop :=
  q.block = r.block ∧ q.cell = r.cell ∧ q.stop ≤ r.start

/-- The ranges are in one text, and the first starts where the second ends, or
behind. Of two empty ranges at one position neither is behind the other. -/
def IsBehind (q r : TextRange) : Prop :=
  q.block = r.block ∧ q.cell = r.cell ∧ r.start < q.stop ∧ r.stop ≤ q.start

instance (q r : TextRange) : Decidable (q.Overlaps r) :=
  inferInstanceAs (Decidable (_ ∧ _))

instance (q r : TextRange) : Decidable (q.IsBefore r) :=
  inferInstanceAs (Decidable (_ ∧ _))

instance (q r : TextRange) : Decidable (q.IsBehind r) :=
  inferInstanceAs (Decidable (_ ∧ _))

/-- Ranges of one text that do not overlap lie one before the other. -/
theorem isBefore_or_isBehind {q r : TextRange} (hblock : q.block = r.block)
    (hcell : q.cell = r.cell) (hover : ¬ q.Overlaps r) : q.IsBefore r ∨ q.IsBehind r := by
  by_cases hstop : q.stop ≤ r.start
  · exact .inl ⟨hblock, hcell, hstop⟩
  · have hstart : ¬ q.start < r.stop := fun hlt =>
      hover ⟨hblock, hcell, Nat.lt_of_not_le hstop, hlt⟩
    exact .inr ⟨hblock, hcell, Nat.lt_of_not_le hstop, Nat.le_of_not_lt hstart⟩

theorem rebase_overlaps {q : TextRange} {e : Edit} (h : q.Overlaps e.range) :
    q.rebase e = none := by
  obtain ⟨hblock, hcell, hstop, hstart⟩ := h
  have hfirst : ¬ (q.block ≠ e.range.block ∨ q.cell ≠ e.range.cell ∨ q.stop ≤ e.range.start) := by
    rintro (hne | hne | hle)
    · exact hne hblock
    · exact hne hcell
    · omega
  rw [rebase, if_neg hfirst, if_pos hstart]

theorem rebase_before {q : TextRange} {e : Edit} (h : q.stop ≤ e.range.start) :
    q.rebase e = some q := if_pos (.inr (.inr h))

/-! ### Subtractions -/

/-- The difference of two numbers, if it is not below zero. -/
def minus? (m n : Nat) : Option Nat := if n ≤ m then some (m - n) else none

theorem minus?_eq {m n : Nat} (h : n ≤ m) : minus? m n = some (m - n) := if_pos h

/-- The range after an edit, with no result if a difference that it takes is
below zero. -/
def rebaseChecked? (r : TextRange) (e : Edit) : Option (Option TextRange) :=
  if r.block ≠ e.range.block ∨ r.cell ≠ e.range.cell ∨ r.stop ≤ e.range.start then some (some r)
  else if r.start < e.range.stop then some none
  else
    match e.kind with
    | .text inserted => do
      let removed ← minus? e.range.stop e.range.start
      let start ← minus? r.start removed
      let stop ← minus? r.stop removed
      some (some { r with start := start + inserted, stop := stop + inserted })
    | .split none => some none
    | .split (some tail) => do
      let start ← minus? r.start e.range.stop
      let stop ← minus? r.stop e.range.stop
      some (some ⟨tail, none, start, stop⟩)

/-- Following a range through an edit takes no difference below zero. -/
theorem rebaseChecked?_eq {r : TextRange} {e : Edit} (hr : r.start ≤ r.stop)
    (he : e.range.start ≤ e.range.stop) : r.rebaseChecked? e = some (r.rebase e) := by
  unfold rebaseChecked? rebase
  split
  · rfl
  · split
    · rfl
    · rename_i hstart
      have hlow : e.range.stop ≤ r.start := Nat.le_of_not_lt hstart
      cases e.kind with
      | text inserted =>
        have hshiftStart : e.range.stop - e.range.start ≤ r.start := by omega
        have hshiftStop : e.range.stop - e.range.start ≤ r.stop := by omega
        simp only [minus?_eq he, minus?_eq hshiftStart, minus?_eq hshiftStop,
          Option.bind_eq_bind, Option.bind_some]
      | split tail? =>
        cases tail? with
        | none => rfl
        | some tail =>
          have hlowStop : e.range.stop ≤ r.stop := Nat.le_trans hlow hr
          simp only [minus?_eq hlow, minus?_eq hlowStop, Option.bind_eq_bind, Option.bind_some]

end TextRange

namespace Document

/-- The range can be followed through the edit and reads the text there. -/
def ReadsAcross (d' : Document) (e : Edit) (q : TextRange) (text : String) : Prop :=
  ∃ q', q.rebase e = some q' ∧ d'.rangeText q' = .ok text

theorem readsAcross_of_reads {d' : Document} {e : Edit} {q q' : TextRange} {text : String}
    (hq : q.rebase e = some q') (h : d'.Reads q' text.toList) : d'.ReadsAcross e q text := by
  refine ⟨q', hq, ?_⟩
  rw [rangeText_of_reads h, String.ofList_toList]

/-- A range in another text stays. -/
theorem Edited.readsAcross_elsewhere {d d' : Document} {e : Edit} (h : d.Edited d' e)
    {q : TextRange} {text : String} (hq : d.Reads q text.toList)
    (haddress : ¬ (q.block = e.range.block ∧ q.cell = e.range.cell)) :
    d'.ReadsAcross e q text :=
  readsAcross_of_reads (TextRange.rebase_elsewhere haddress) (h.reads_elsewhere haddress hq)

/-! ### Text for a range -/

/-- Where text was put for a range, all ranges are left that do not overlap it. -/
theorem Edited.readsAcross_text {d d' : Document} {e : Edit} {inserted : Nat} (h : d.Edited d' e)
    (hkind : e.kind = .text inserted) {q : TextRange} {text : String}
    (hq : d.Reads q text.toList) (hover : ¬ q.Overlaps e.range) : d'.ReadsAcross e q text := by
  by_cases haddress : q.block = e.range.block ∧ q.cell = e.range.cell
  · obtain ⟨hblock, hcell⟩ := haddress
    rcases TextRange.isBefore_or_isBehind hblock hcell hover with ⟨-, -, hstop⟩ | hbehind
    · -- the text before the range is as it was
      obtain ⟨u, x, v, hat, hu, -, hleaves⟩ := h.around
      rw [hkind] at hleaves
      obtain ⟨new, -, hnew⟩ := hleaves
      obtain ⟨s, hs, hslice⟩ := hq
      rw [hblock, hcell, hat] at hs
      obtain rfl := Option.some.inj hs
      rw [List.append_assoc] at hslice
      have hfront := slice?_within hslice (hu ▸ hstop)
      refine readsAcross_of_reads (TextRange.rebase_before hstop) ⟨u ++ new ++ v, ?_, ?_⟩
      · rw [hblock, hcell]
        exact hnew
      · rw [List.append_assoc]
        exact slice?_append hfront (new ++ v)
    · obtain ⟨-, -, hstop, hstart⟩ := hbehind
      have hreads := h.reads_behind hq hblock hcell hstart hstop
      have hrebase := TextRange.rebase_behind hblock hcell hstart hstop
      rw [hkind] at hrebase
      rw [hrebase] at hreads
      exact readsAcross_of_reads hrebase hreads
  · exact h.readsAcross_elsewhere hq haddress

/-! ### Edits that succeed -/

/-- What an edit in a cell can be: the range reads something, and text was put
for it. -/
theorem reads_of_replaceInCell {d d' : Document} {r : TextRange} {place : CellPosition}
    {new : String} {e : Edit} (hcell : r.cell = some place)
    (he : d.replaceInCell r place new = .ok (d', e)) :
    (∃ x, d.Reads r x) ∧ e = ⟨r, .text (size new.toList)⟩ := by
  unfold replaceInCell at he
  split at he
  · cases he
  · rename_i before t after hsplit
    split at he
    · cases he
    · rename_i cell hc
      split at he
      · cases he
      · rename_i hslice
        obtain ⟨x, hx⟩ := Option.ne_none_iff_exists'.mp (by simpa using hslice)
        cases he
        refine ⟨⟨x, cell.content.toList, ?_, hx⟩, rfl⟩
        rw [hcell, textAt, table?_eq_splitAtTable, hsplit]
        simp only [Option.map_some, Option.bind_some, hc]

theorem Numbered.edited_of_replaceInCell {d d' : Document} (hd : d.Numbered) {r : TextRange}
    {place : CellPosition} {new : String} {e : Edit} (hcell : r.cell = some place)
    (he : d.replaceInCell r place new = .ok (d', e)) :
    d.Edited d' e ∧ e = ⟨r, .text (size new.toList)⟩ := by
  obtain ⟨⟨x, hx⟩, hedit⟩ := reads_of_replaceInCell hcell he
  obtain ⟨d'', e', hsame, -, hedited⟩ := hd.edited_replaceInCell hcell hx new
  cases he.symm.trans hsame
  exact ⟨hedited, hedit⟩

theorem Numbered.edited_of_replaceText {d d' : Document} (hd : d.Numbered) {r : TextRange}
    {new : String} {e : Edit} (he : d.replaceText r new = .ok (d', e)) :
    d.Edited d' e ∧ e = ⟨r, .text (size new.toList)⟩ := by
  cases hcell : r.cell with
  | some place =>
    unfold replaceText at he
    rw [hcell] at he
    exact hd.edited_of_replaceInCell hcell he
  | none =>
    have hdone := he
    unfold replaceText at hdone
    simp only [hcell] at hdone
    split at hdone
    · cases hdone
    · rename_i before p after haddressed
      obtain ⟨x, hx⟩ := reads_of_addressed hcell haddressed
      obtain ⟨d'', e', hsame, -, hedited⟩ := hd.edited_replaceText hx new
      cases he.symm.trans hsame
      cases hdone
      exact ⟨hedited, rfl⟩

theorem reads_of_splice {d d' : Document} {r : TextRange} {bs : List Block} {e : Edit}
    (he : d.splice r bs = .ok (d', e)) : ∃ x, d.Reads r x := by
  unfold splice at he
  split at he
  · rename_i place hcell
    exact (reads_of_replaceInCell hcell he).1
  · rename_i hcell
    split at he
    · cases he
    · rename_i before p after haddressed
      exact reads_of_addressed hcell haddressed

/-! ### Blocks for a range -/

/-- Where a paragraph was split, the ranges are left that do not overlap the
one that was replaced, except in a half that is blank: those behind are gone,
and those before read nothing. -/
theorem Numbered.readsAcross_split {d d' : Document} (hd : d.Numbered) {r : TextRange}
    {u x v : List Char} {bs : List Block} {e : Edit} (hcell : r.cell = none)
    (hs : d.textAt r.block none = some (u ++ x ++ v)) (hstart : size u = r.start)
    (hstop : size (u ++ x) = r.stop) (he : d.splice r bs = .ok (d', e)) {q : TextRange}
    {text : String} (hq : d.Reads q text.toList) (hover : ¬ q.Overlaps r) :
    if q.IsBehind r ∧ allBlank v then q.rebase e = none
    else if q.IsBefore r ∧ allBlank u then q.rebase e = some q ∧ d'.rangeText q = .error ⟨q⟩
    else d'.ReadsAcross e q text := by
  obtain ⟨d'', tail, hsplice, -, -, hothers, hhead, htail⟩ :=
    hd.exists_split hcell hs hstart hstop bs
  cases he.symm.trans hsplice
  obtain ⟨s, hqs, hslice⟩ := hq
  by_cases haddress : q.block = r.block ∧ q.cell = r.cell
  · obtain ⟨hblock, hqcell⟩ := haddress
    have hnone : q.cell = none := hqcell.trans hcell
    rw [hblock, hnone, hs] at hqs
    obtain rfl := Option.some.inj hqs
    rcases TextRange.isBefore_or_isBehind hblock hqcell hover with hbefore | hbehind
    · have hnot : ¬ (q.IsBehind r ∧ allBlank v = true) := by
        rintro ⟨hbehind, -⟩
        exact absurd hbehind.2.2.1 (Nat.not_lt.mpr hbefore.2.2)
      have hrebase := TextRange.rebase_before (e := ⟨r, .split (if allBlank v then none
        else some tail)⟩) hbefore.2.2
      rw [if_neg hnot]
      split
      · rename_i hblank
        refine ⟨hrebase, ?_⟩
        rw [rangeText_eq, hblock, hnone, hhead, if_pos hblank.2]
        rfl
      · rename_i hblank
        rw [if_neg fun h => hblank ⟨hbefore, h⟩] at hhead
        rw [List.append_assoc] at hslice
        have hfront := slice?_within hslice (hstart ▸ hbefore.2.2)
        exact readsAcross_of_reads hrebase ⟨u, by rw [hblock, hnone, hhead], hfront⟩
    · have hnot : ¬ (q.IsBefore r ∧ allBlank u = true) := by
        rintro ⟨hbefore, -⟩
        exact absurd hbehind.2.2.1 (Nat.not_lt.mpr hbefore.2.2)
      have hrebase := TextRange.rebase_behind (e := ⟨r, .split (if allBlank v then none
        else some tail)⟩) hblock hqcell hbehind.2.2.2 hbehind.2.2.1
      rw [if_neg hnot]
      split
      · rename_i hblank
        rw [hrebase, hblank.2]
        rfl
      · rename_i hblank
        have hv : allBlank v = false := Bool.eq_false_iff.mpr fun h => hblank ⟨hbehind, h⟩
        have hback := slice?_after hslice (by rw [hstop]; exact hbehind.2.2.2)
        rw [hstop] at hback
        simp only [hv, Bool.false_eq_true, if_false] at hrebase ⊢
        exact readsAcross_of_reads hrebase ⟨v, htail hv, hback⟩
  · have hbehind : ¬ q.IsBehind r := fun h => haddress ⟨h.1, h.2.1⟩
    have hbefore : ¬ q.IsBefore r := fun h => haddress ⟨h.1, h.2.1⟩
    rw [if_neg fun h => hbehind h.1, if_neg fun h => hbefore h.1]
    exact readsAcross_of_reads (TextRange.rebase_elsewhere haddress)
      ⟨s, hothers q.block q.cell s haddress hqs, hslice⟩

/-- Text for a range needs distinct ids only: the next id does not matter. -/
theorem rebase_of_replaceText {d d' : Document} (hd : d.ids.Nodup) {q r : TextRange}
    {text new : String} {e : Edit} (hq : d.rangeText q = .ok text)
    (he : d.replaceText r new = .ok (d', e)) :
    q.rebaseChecked? e = some (q.rebase e) ∧
      if q.Overlaps r then q.rebase e = none else d'.ReadsAcross e q text := by
  have hreads := reads_of_rangeText hq
  obtain ⟨s, -, hslice⟩ := reads_of_rangeText hq
  obtain ⟨n, hn⟩ := exists_numbered hd
  have he' := d.replaceText_nextId n r new
  rw [he] at he'
  obtain ⟨hedited, rfl⟩ := hn.edited_of_replaceText he'
  obtain ⟨u, x, v, -, hu, hx, -⟩ := hedited.around
  refine ⟨TextRange.rebaseChecked?_eq (le_of_slice? hslice) ?_, ?_⟩
  · rw [← hu, ← hx, size_append]
    exact Nat.le_add_right _ _
  · split
    · rename_i hover
      exact TextRange.rebase_overlaps hover
    · rename_i hover
      exact hedited.readsAcross_text rfl hreads hover

/-- **Ranges across an edit.** Let a range `q` read a text, and let an edit at
a range `r` succeed. If `q` overlaps `r`, then it cannot be followed. Else it
can, and reads the same text then, whatever block it is in. There are two
exceptions, both where a paragraph is split and a half is blank: a range in the
half behind cannot be followed, and a range in the half before is followed to
where it was, but nothing is left to be read there. No difference of positions
that is taken on the way is below zero. Only a paragraph that is split takes ids
that are still to be given out. -/
theorem rangeText_rebase {d : Document} (hd : d.ids.Nodup) {q : TextRange} {text : String}
    (hq : d.rangeText q = .ok text) (r : TextRange) :
    (∀ new d' e, d.replaceText r new = .ok (d', e) →
      q.rebaseChecked? e = some (q.rebase e) ∧
      if q.Overlaps r then q.rebase e = none else d'.ReadsAcross e q text) ∧
    ∀ bs d' e, (r.cell = none → d.Numbered) → d.splice r bs = .ok (d', e) →
      ∃ u x v, d.textAt r.block r.cell = some (u ++ x ++ v) ∧ size u = r.start ∧
        size (u ++ x) = r.stop ∧ q.rebaseChecked? e = some (q.rebase e) ∧
        if q.Overlaps r then q.rebase e = none
        else if r.cell = none ∧ q.IsBehind r ∧ allBlank v then q.rebase e = none
        else if r.cell = none ∧ q.IsBefore r ∧ allBlank u then
          q.rebase e = some q ∧ d'.rangeText q = .error ⟨q⟩
        else d'.ReadsAcross e q text := by
  refine ⟨fun new d' e he => rebase_of_replaceText hd hq he, fun bs d' e hnext he => ?_⟩
  obtain ⟨x, sr, hsr, hx⟩ := reads_of_splice he
  obtain ⟨u, v, rfl, hstart, hstop⟩ := slice?_eq_some_iff.mp hx
  refine ⟨u, x, v, hsr, hstart, hstop, ?_⟩
  cases hcell : r.cell with
  | some place =>
    have hreplace : d.replaceText r (inlineText bs) = .ok (d', e) := by
      unfold splice at he
      unfold replaceText
      rw [hcell] at he ⊢
      exact he
    simp only [reduceCtorEq, false_and, if_false]
    exact rebase_of_replaceText hd hq hreplace
  | none =>
    have hnumbered := hnext hcell
    have hreads := reads_of_rangeText hq
    obtain ⟨s, -, hslice⟩ := reads_of_rangeText hq
    obtain ⟨d'', e', hsame, hrange, -⟩ := hnumbered.edited_splice ⟨_, hsr, hx⟩ bs
    cases he.symm.trans hsame
    refine ⟨TextRange.rebaseChecked?_eq (le_of_slice? hslice) (hrange ▸ le_of_slice? hx), ?_⟩
    split
    · rename_i hover
      exact TextRange.rebase_overlaps (hrange ▸ hover)
    · rename_i hover
      rw [hcell] at hsr
      simp only [true_and]
      exact hnumbered.readsAcross_split hcell hsr hstart hstop he hreads hover

/-- That the ids are distinct is not enough: the tail gets the id of the head, in
which the last character is then looked for. -/
theorem rangeText_rebase_overtaken :
    (overtaken "a %X% b").ids.Nodup ∧
    (overtaken "a %X% b").rangeText ⟨1, none, 6, 7⟩ = .ok "b" ∧
    ∃ d' e, (overtaken "a %X% b").splice ⟨1, none, 2, 5⟩ [] = .ok (d', e) ∧
      (⟨1, none, 6, 7⟩ : TextRange).rebase e = some ⟨1, none, 1, 2⟩ ∧
      d'.rangeText ⟨1, none, 1, 2⟩ = .ok " " :=
  ⟨nodup_ids_overtaken _, rfl, _, _, rfl, rfl, rfl⟩

/-- A document with a token in the middle of its text. -/
def tokenWithin : Document := ofBlocks "Report" [.paragraph (.plain "é %TOC% und"), .pageBreak]

/-- The word behind the token is read at its new place, in the paragraph that
was split off, and the character before it where it was. -/
theorem readsAcross_tokenWithin :
    tokenWithin.rangeText ⟨1, none, 9, 12⟩ = .ok "und" ∧
      tokenWithin.rangeText ⟨1, none, 0, 2⟩ = .ok "é" ∧
      ∃ d' e, tokenWithin.splice ⟨1, none, 3, 8⟩ [.contents { title := "Contents" }] =
          .ok (d', e) ∧
        d'.ReadsAcross e ⟨1, none, 9, 12⟩ "und" ∧ d'.ReadsAcross e ⟨1, none, 0, 2⟩ "é" := by
  have hd : tokenWithin.Numbered := numbered_ofBlocks _ _
  have hbehind : tokenWithin.rangeText ⟨1, none, 9, 12⟩ = .ok "und" := rfl
  have hbefore : tokenWithin.rangeText ⟨1, none, 0, 2⟩ = .ok "é" := rfl
  have hsplice : ∃ d' e, tokenWithin.splice ⟨1, none, 3, 8⟩ [.contents { title := "Contents" }] =
      .ok (d', e) := ⟨_, _, rfl⟩
  have htext : tokenWithin.textAt 1 none = some "é %TOC% und".toList := by decide
  obtain ⟨d', e, he⟩ := hsplice
  refine ⟨hbehind, hbefore, d', e, he, ?_, ?_⟩
  · obtain ⟨u, x, v, hat, -, hstop, -, hreads⟩ :=
      (rangeText_rebase hd.distinct hbehind ⟨1, none, 3, 8⟩).2 _ _ _ (fun _ => hd) he
    have hparts : u ++ x ++ v = "é %TOC% und".toList := Option.some.inj (hat.symm.trans htext)
    have hv : v = " und".toList := by
      have hcut := cut_size_append (u ++ x) v
      rw [hparts, hstop] at hcut
      exact (congrArg Prod.snd hcut).symm.trans (by decide)
    rw [if_neg (by decide), hv, if_neg (by decide), if_neg fun h => absurd h.2.1 (by decide)]
      at hreads
    exact hreads
  · obtain ⟨u, x, v, hat, hstart, -, -, hreads⟩ :=
      (rangeText_rebase hd.distinct hbefore ⟨1, none, 3, 8⟩).2 _ _ _ (fun _ => hd) he
    have hparts : u ++ (x ++ v) = "é %TOC% und".toList := by
      rw [← List.append_assoc]
      exact Option.some.inj (hat.symm.trans htext)
    have hu : u = "é ".toList := by
      have hcut := cut_size_append u (x ++ v)
      rw [hparts, hstart] at hcut
      exact (congrArg Prod.fst hcut).symm.trans (by decide)
    rw [if_neg (by decide), if_neg fun h => absurd h.2.1 (by decide), hu, if_neg (by decide)]
      at hreads
    exact hreads

end Document
end Compositor
