/-
# What the rule of one accent does to a stack

Accents on one character are written one behind the other, each as the word
`csup` and its mark. A stack stands behind a top: a text without marks. The
rule of the accent at the bottom of the stack puts it around the end of the top.
The rule of an accent further up finds the mark below it as its base, and that
mark is loose then.

Key definitions: `spelledMarks`, `IsTop`.
Key theorems: `hit_split`, `apply_of_no_match`, `apply_bottom`,
`hasLooseMark_apply_above`, `hasLooseMark_apply_again`.
-/
import Compositor.Proofs.Formula.LooseMarks

namespace Compositor.Formula
open Text

/-- The accents of a stack, each as the word `csup` and its mark. -/
def spelledMarks (stack : List (Char × String)) : List Char :=
  stack.flatMap fun a => [' ', 'c', 's', 'u', 'p', ' ', a.1]

theorem spelledMarks_append (as bs : List (Char × String)) :
    spelledMarks (as ++ bs) = spelledMarks as ++ spelledMarks bs := List.flatMap_append

theorem spelledMarks_cons (a : Char × String) (as : List (Char × String)) :
    spelledMarks (a :: as) = [' ', 'c', 's', 'u', 'p', ' '] ++ a.1 :: spelledMarks as := rfl

/-- Where a mark stands in a stack. -/
theorem spelledMarks_split {stack : List (Char × String)} {x y : List Char} {m : Char}
    (hm : isMark m = true) (h : x ++ m :: y = spelledMarks stack) :
    ∃ front a back, stack = front ++ a :: back ∧ a.1 = m ∧
      x = spelledMarks front ++ [' ', 'c', 's', 'u', 'p', ' '] ∧ y = spelledMarks back := by
  induction stack generalizing x with
  | nil => cases List.append_eq_nil_iff.mp h |>.2
  | cons a stack ih =>
    rw [spelledMarks_cons] at h
    rcases append_cons_cases h with ⟨z, hz, -⟩ | ⟨z, rfl, hz⟩
    · have hword : marks [' ', 'c', 's', 'u', 'p', ' '] = 0 := by decide
      exact absurd hm (List.countP_eq_zero.mp hword m (by simp [hz]))
    · cases z with
      | nil =>
        obtain ⟨rfl, rfl⟩ := List.cons.inj hz
        exact ⟨[], a, stack, rfl, rfl, rfl, rfl⟩
      | cons c z =>
        obtain ⟨rfl, hrest⟩ := List.cons.inj hz
        obtain ⟨front, a', back, rfl, ha', rfl, rfl⟩ := ih hrest.symm
        exact ⟨a :: front, a', back, rfl, ha', by simp [spelledMarks_cons], rfl⟩

theorem eq_of_mark_eq {a a' : Char × String} (ha : a ∈ accents) (ha' : a' ∈ accents)
    (h : a.1 = a'.1) : a = a' := by
  have hmarks : ∀ a ∈ accents, ∀ a' ∈ accents, a.1 = a'.1 → a = a' := by decide
  exact hmarks a ha a' ha' h

/-- A text before a stack: it holds no mark and ends in no blank. -/
structure IsTop (t : List Char) : Prop where
  marks_eq_zero : marks t = 0
  drop_eq_self : dropTrailingBlanks t = t

theorem dropTrailingBlanks_concat {c : Char} (hc : isBlank c = false) (s : List Char) :
    dropTrailingBlanks (s ++ [c]) = s ++ [c] := dropTrailingBlanks_append_cons hc s []

theorem IsBase.drop_append {base : List Char} (h : IsBase base) (u : List Char) :
    dropTrailingBlanks (u ++ base) = u ++ base := by
  obtain ⟨front, c, rfl⟩ := (List.eq_nil_or_concat base).resolve_left h.ne_nil
  have hc := h.not_blank c (by simp)
  rw [List.concat_eq_append, ← List.append_assoc, dropTrailingBlanks_concat hc]

section Hits

variable {a : Char × String} {t : List Char} {stack : List (Char × String)}

/-- Behind an accent a text ends in a mark. -/
theorem exists_last_mark (hne : stack ≠ []) (hstack : ∀ a ∈ stack, a ∈ accents) (t : List Char) :
    ∃ u m, isMark m = true ∧ t ++ spelledMarks stack = u ++ [m] := by
  obtain ⟨front, a, rfl⟩ := (List.eq_nil_or_concat stack).resolve_left hne
  have ha : isMark a.1 = true := isMark_of_mem (hstack a (by simp))
  refine ⟨t ++ (spelledMarks front ++ [' ', 'c', 's', 'u', 'p', ' ']), a.1, ha, ?_⟩
  simp [spelledMarks]

theorem drop_top_spelledMarks (ht : IsTop t) (hstack : ∀ a ∈ stack, a ∈ accents) :
    dropTrailingBlanks (t ++ spelledMarks stack) = t ++ spelledMarks stack := by
  by_cases hne : stack = []
  · rw [hne]
    simpa [spelledMarks] using ht.drop_eq_self
  · obtain ⟨u, m, hm, hlast⟩ := exists_last_mark hne hstack t
    rw [hlast, dropTrailingBlanks_concat (isBlank_of_isMark hm)]

/-- **The matches in a stack.** A match uses up the mark of one accent of the
stack; its base ends where that accent starts. -/
theorem hit_split (ht : IsTop t) (ha : a ∈ accents) (hstack : ∀ a ∈ stack, a ∈ accents)
    {u v put rest : List Char} (h : t ++ spelledMarks stack = u ++ v)
    (hhit : accentHit a.1 a.2 v = some (put, rest)) :
    ∃ front back base, IsBase base ∧ stack = front ++ a :: back ∧
      u ++ base = t ++ spelledMarks front ∧ put = accented a.2 base ∧ rest = spelledMarks back := by
  obtain ⟨base, gap, gap', hbase, hgap, hgap', rfl, rfl⟩ := accentHit_split hhit
  have hm : isMark a.1 = true := isMark_of_mem ha
  have hsplit : (u ++ base ++ gap ++ ['c', 's', 'u', 'p'] ++ gap') ++ a.1 :: rest =
      t ++ spelledMarks stack := by rw [h]; simp
  rcases append_cons_cases hsplit with ⟨y, rfl, -⟩ | ⟨y, hy, hrest⟩
  · exact absurd hm (List.countP_eq_zero.mp ht.marks_eq_zero a.1 (by simp))
  obtain ⟨front, a', back, rfl, ha', rfl, rfl⟩ := spelledMarks_split hm hrest.symm
  obtain rfl : a' = a := eq_of_mark_eq (hstack a' (by simp)) ha ha'
  refine ⟨front, back, base, hbase, rfl, ?_, rfl, rfl⟩
  -- without the blanks at its end, the text before the mark ends in `csup`; so does the base then
  have hcsup : ∀ s : List Char, dropTrailingBlanks (s ++ ['c', 's', 'u', 'p']) =
      s ++ ['c', 's', 'u', 'p'] := fun s => by
    have := dropTrailingBlanks_concat (c := 'p') (by decide) (s ++ ['c', 's', 'u'])
    simpa using this
  have hdrop := congrArg dropTrailingBlanks hy
  have hright : t ++ (spelledMarks front ++ [' ', 'c', 's', 'u', 'p', ' ']) =
      (t ++ spelledMarks front ++ [' ']) ++ ['c', 's', 'u', 'p'] ++ [' '] := by simp
  rw [dropTrailingBlanks_append_gap hgap', hcsup, hright,
    dropTrailingBlanks_append_gap isBlank_of_mem_space, hcsup] at hdrop
  have hdrop' := congrArg dropTrailingBlanks (List.append_cancel_right hdrop)
  rwa [dropTrailingBlanks_append_gap hgap, hbase.drop_append,
    dropTrailingBlanks_append_gap isBlank_of_mem_space,
    drop_top_spelledMarks ht fun p hp => hstack p (by simp [hp])] at hdrop'

/-- Before an accent, whatever can be a base is matched. -/
theorem accentHit_base {base : List Char} (hbase : IsBase base) (ha : a ∈ accents)
    (back : List (Char × String)) :
    accentHit a.1 a.2 (base ++ spelledMarks (a :: back)) =
      some (accented a.2 base, spelledMarks back) := by
  have hm : isBlank a.1 = false := isBlank_of_isMark (isMark_of_mem ha)
  have hafter := afterMark?_append hm isBlank_of_mem_space isBlank_of_mem_space (spelledMarks back)
  obtain ⟨hne, hlength, hnot⟩ := hbase
  match base with
  | [c] =>
    have hc := hnot c (by simp)
    have hspace : isBlank ' ' = true := by decide
    simp [accentHit, accentOn, spelledMarks_cons, hc, hspace] at hafter ⊢
    exact hafter
  | [c, d] =>
    have hc := hnot c (by simp)
    have hd := hnot d (by simp)
    simp [accentHit, accentOn, spelledMarks_cons, hc, hd] at hafter ⊢
    exact .inl hafter
  | c :: d :: e :: base => simp at hlength

/-- What a rule does to a stack in which it has a match: it goes on behind the
first one. -/
theorem exists_first_accent (ht : IsTop t) (ha : a ∈ accents) (hstack : ∀ a ∈ stack, a ∈ accents)
    {front back : List (Char × String)} {u base : List Char} (hbase : IsBase base)
    (h : stack = front ++ a :: back) (hu : u ++ base = t ++ spelledMarks front) :
    ∃ front' back' u' base', stack = front' ++ a :: back' ∧ IsBase base' ∧ u' <+: u ∧
      u' ++ base' = t ++ spelledMarks front' ∧
      (accentRule a.1 a.2).apply (t ++ spelledMarks stack) =
        u' ++ accented a.2 base' ++ (accentRule a.1 a.2).apply (spelledMarks back') := by
  have hhit : (accentRule a.1 a.2).hit (base ++ spelledMarks (a :: back)) ≠ none :=
    Option.ne_none_iff_exists'.mpr ⟨_, accentHit_base hbase ha back⟩
  obtain ⟨u', v', put, rest, hu', hsplit, hhit', happly⟩ := Rule.exists_first_hit hhit u
  have htext : t ++ spelledMarks stack = u ++ (base ++ spelledMarks (a :: back)) := by
    rw [h, spelledMarks_append, ← List.append_assoc, ← hu, List.append_assoc]
  obtain ⟨front', back', base', hbase', hstack', hu'', rfl, rfl⟩ :=
    hit_split ht ha hstack (htext.trans hsplit) hhit'
  exact ⟨front', back', u', base', hstack', hbase', hu', hu'', by rw [htext, happly]⟩

/-- A rule that has no match in a stack: its accent is not there, or only at
the bottom, with no text before it. -/
theorem apply_of_no_match (ht : IsTop t) (ha : a ∈ accents) (hstack : ∀ a ∈ stack, a ∈ accents)
    (h : ∀ front back, stack = front ++ a :: back → front = [] ∧ t = []) :
    (accentRule a.1 a.2).apply (t ++ spelledMarks stack) = t ++ spelledMarks stack := by
  refine Rule.apply_eq_self_of_clear fun v hv => ?_
  obtain ⟨u, hu⟩ := hv
  cases hhit : (accentRule a.1 a.2).hit v with
  | none => rfl
  | some out =>
    obtain ⟨front, back, base, hbase, hsplit, hbefore, -, -⟩ := hit_split ht ha hstack hu.symm hhit
    obtain ⟨rfl, rfl⟩ := h front back hsplit
    exact absurd (List.append_eq_nil_iff.mp hbefore).2 hbase.ne_nil

theorem isTop_nil : IsTop [] := ⟨rfl, rfl⟩

/-- **The bottom accent goes around the base.** The rule of the bottom accent,
if the same accent is not further up than right behind it. -/
theorem apply_bottom {u base : List Char} (ht : IsTop (u ++ base)) (hbase : IsBase base)
    (hshort : base.length = 1 → u = []) (hstack : ∀ q ∈ a :: stack, q ∈ accents)
    (h : a ∉ stack.tail) :
    (accentRule a.1 a.2).apply (u ++ base ++ spelledMarks (a :: stack)) =
      u ++ accented a.2 base ++ spelledMarks stack := by
  obtain ⟨ha, hrest⟩ := List.forall_mem_cons.mp hstack
  have hstart : u ++ base = u ++ base ++ spelledMarks [] := by simp [spelledMarks]
  have hbottom : a :: stack = [] ++ a :: stack := rfl
  obtain ⟨front, back, u', base', hsplit, hbase', ⟨w, rfl⟩, hbefore, happly⟩ :=
    exists_first_accent ht ha hstack hbase hbottom hstart
  -- no longer base is matched before this one
  have hwhole : base' = w ++ (base ++ spelledMarks front) :=
    List.append_cancel_left (hbefore.trans (by simp))
  have hlength := congrArg List.length hwhole
  have hle := hbase'.length_le
  have hpos := List.length_pos_iff.mpr hbase.ne_nil
  simp only [List.length_append] at hlength
  cases front with
  | cons q front =>
    simp only [spelledMarks_cons, List.length_append, List.length_cons] at hlength
    omega
  | nil =>
    have hw : w = [] := by
      by_cases hone : base.length = 1
      · exact (List.append_eq_nil_iff.mp (hshort hone)).2
      · exact List.length_eq_zero_iff.mp (by omega)
    obtain rfl : stack = back := (List.cons.inj hsplit).2
    have hbehind : (accentRule a.1 a.2).apply (spelledMarks stack) = spelledMarks stack := by
      refine apply_of_no_match isTop_nil ha hrest fun front back hsplit => ⟨?_, rfl⟩
      cases front with
      | nil => rfl
      | cons q front => exact absurd (by simp [hsplit]) h
    rw [happly, hbehind, hwhole, hw]
    simp [spelledMarks]

/-- A match above the bottom has a mark in its base. -/
theorem hasLooseMark_of_front {u base : List Char} {front : List (Char × String)}
    (ha : a ∈ accents) (hbase : IsBase base) (hne : front ≠ []) (hfront : ∀ q ∈ front, q ∈ accents)
    (hu : u ++ base = t ++ spelledMarks front) (v : List Char) :
    HasLooseMark (u ++ accented a.2 base ++ v) := by
  obtain ⟨x, m, hm, hlast⟩ := exists_last_mark hne hfront t
  obtain ⟨y, c, rfl⟩ := (List.eq_nil_or_concat base).resolve_left hbase.ne_nil
  rw [hlast, List.concat_eq_append, ← List.append_assoc] at hu
  obtain rfl : c = m := by simpa using (List.append_inj' hu rfl).2
  exact hasLooseMark_accented ha hbase hm (by simp) u v

/-- The rule of an accent above the bottom: its first match leaves a loose mark,
or is at the bottom. -/
theorem hasLooseMark_or_bottom {x y : List (Char × String)} (ht : IsTop t)
    (hstack : ∀ q ∈ x ++ a :: y, q ∈ accents) (hne : x ≠ []) :
    HasLooseMark ((accentRule a.1 a.2).apply (t ++ spelledMarks (x ++ a :: y))) ∨
      ∃ back u base, x ++ a :: y = a :: back ∧ IsBase base ∧ u ++ base = t ∧
        (accentRule a.1 a.2).apply (t ++ spelledMarks (x ++ a :: y)) =
          u ++ accented a.2 base ++ (accentRule a.1 a.2).apply (spelledMarks back) := by
  have ha : a ∈ accents := hstack a (by simp)
  obtain ⟨u, m, hm, hlast⟩ :=
    exists_last_mark hne (fun q hq => hstack q (List.mem_append_left _ hq)) t
  have hbase : IsBase [m] := ⟨by simp, by simp, by simpa using isBlank_of_isMark hm⟩
  obtain ⟨front, back, u', base, hsplit, hbase', -, hbefore, happly⟩ :=
    exists_first_accent ht ha hstack hbase rfl hlast.symm
  rw [happly]
  by_cases hfront : front = []
  · subst hfront
    exact .inr ⟨back, u', base, hsplit, hbase', by simpa [spelledMarks] using hbefore, rfl⟩
  · rw [hsplit] at hstack
    have hfront' : ∀ q ∈ front, q ∈ accents := fun q hq => hstack q (List.mem_append_left _ hq)
    exact .inl (hasLooseMark_of_front ha hbase' hfront hfront' hbefore _)

theorem hasLooseMark_apply_above {p : Char × String} (ht : IsTop t)
    (hstack : ∀ q ∈ p :: stack, q ∈ accents) (hmem : a ∈ stack) (h : p ≠ a ∨ t = []) :
    HasLooseMark ((accentRule a.1 a.2).apply (t ++ spelledMarks (p :: stack))) := by
  obtain ⟨x, y, rfl⟩ := List.append_of_mem hmem
  rcases hasLooseMark_or_bottom (x := p :: x) ht hstack (List.cons_ne_nil p x) with
    hloose | ⟨back, u, base, hsplit, hbase, rfl, -⟩
  · exact hloose
  · rcases h with hp | hnil
    · exact absurd (List.cons.inj hsplit).1 hp
    · exact absurd (List.append_eq_nil_iff.mp hnil).2 hbase.ne_nil

/-- If the bottom accent is there again further up than right behind it, its
rule has a second match. -/
theorem hasLooseMark_apply_again {p : Char × String} (ht : IsTop t)
    (hstack : ∀ q ∈ a :: p :: stack, q ∈ accents) (hmem : a ∈ stack) :
    HasLooseMark ((accentRule a.1 a.2).apply (t ++ spelledMarks (a :: p :: stack))) := by
  obtain ⟨x, y, rfl⟩ := List.append_of_mem hmem
  rcases hasLooseMark_or_bottom (x := a :: p :: x) ht hstack (List.cons_ne_nil a _) with
    hloose | ⟨back, u, base, hsplit, -, -, happly⟩
  · exact hloose
  · obtain rfl : p :: (x ++ a :: y) = back := (List.cons.inj hsplit).2
    have hrest : ∀ q ∈ p :: (x ++ a :: y), q ∈ accents :=
      fun q hq => hstack q (List.mem_cons_of_mem a hq)
    have hnext := hasLooseMark_apply_above isTop_nil hrest hmem (.inr rfl)
    exact happly ▸ hnext.behind_accented a.2 u base

end Hits

end Compositor.Formula
