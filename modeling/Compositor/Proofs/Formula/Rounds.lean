/-
# How many rounds the accents take

A round exchanges matches for groups, one after the other. Each exchange uses
up a mark, and the group that is put in holds no `csup` and ends in a brace on
either side. So a `csup` of the text after a round has stood in the text
before, and what stands around it was folded on either side of it. Since a
round that changes the text leaves fewer marks, the rounds are one more than
the marks at most, and then no base is left before a `csup` and its mark.

Key definitions: `FoldStep`, `FoldsTo`, `Rounds`.
Key theorems: `foldsTo_accentRound`, `FoldsTo.exists_csup`, `Rounds.add_marks_le`,
`exists_rounds`, `foldAccents_within_marks`.
-/
import Mathlib.Logic.Relation
import Compositor.Proofs.Formula.NormalForm
import Compositor.Proofs.Text.Endings
import Compositor.Proofs.Text.Rewriting

namespace Compositor.Formula
open Text Relation

/-! ### Folding, match by match -/

/-- One match of an accent is exchanged for the group around its base. -/
inductive FoldStep : List Char → List Char → Prop
  | fold {a : Char × String} {base gap gap' : List Char} (u v : List Char) :
    a ∈ accents → IsBase base → (∀ c ∈ gap, isBlank c = true) →
    (∀ c ∈ gap', isBlank c = true) →
    FoldStep (u ++ (base ++ gap ++ ['c', 's', 'u', 'p'] ++ gap' ++ [a.1]) ++ v)
      (u ++ accented a.2 base ++ v)

/-- Any number of matches is exchanged, one after the other. -/
def FoldsTo : List Char → List Char → Prop := ReflTransGen FoldStep

theorem FoldStep.within {s t : List Char} (h : FoldStep s t) (u v : List Char) :
    FoldStep (u ++ s ++ v) (u ++ t ++ v) := by
  obtain ⟨x, y, ha, hbase, hgap, hgap'⟩ := h
  have hstep := FoldStep.fold (u ++ x) (y ++ v) ha hbase hgap hgap'
  simpa only [List.append_assoc] using hstep

namespace FoldsTo

theorem refl (s : List Char) : FoldsTo s s := ReflTransGen.refl

theorem trans {s t u : List Char} (h : FoldsTo s t) (h' : FoldsTo t u) : FoldsTo s u :=
  ReflTransGen.trans h h'

theorem within {s t : List Char} (h : FoldsTo s t) (u v : List Char) :
    FoldsTo (u ++ s ++ v) (u ++ t ++ v) := by
  induction h with
  | refl => exact ReflTransGen.refl
  | tail _ hstep ih => exact ih.tail (hstep.within u v)

theorem append {s s' t t' : List Char} (h : FoldsTo s s') (h' : FoldsTo t t') :
    FoldsTo (s ++ t) (s' ++ t') := by
  have hfirst := h.within [] t
  have hsecond := h'.within s' []
  rw [List.nil_append, List.nil_append] at hfirst
  rw [List.append_nil, List.append_nil] at hsecond
  exact hfirst.trans hsecond

end FoldsTo

theorem foldsTo_accentRule {a : Char × String} (ha : a ∈ accents) (s : List Char) :
    FoldsTo s ((accentRule a.1 a.2).apply s) := by
  refine Rule.apply_rel FoldsTo.refl FoldsTo.append (fun {s put rest} hit => ?_) s
  obtain ⟨base, gap, gap', hbase, hgap, hgap', rfl, rfl⟩ := accentHit_split hit
  refine ⟨base ++ gap ++ ['c', 's', 'u', 'p'] ++ gap' ++ [a.1], by simp, ?_⟩
  have hstep := FoldStep.fold [] [] ha hbase hgap hgap'
  rw [List.nil_append, List.nil_append, List.append_nil, List.append_nil] at hstep
  exact ReflTransGen.single hstep

/-- A round does nothing but exchange matches. -/
theorem foldsTo_accentRound (s : List Char) : FoldsTo s (accentRound s) := by
  refine applyAll_rel FoldsTo.refl FoldsTo.trans (fun r hr s => ?_) s
  obtain ⟨a, ha, rfl⟩ := List.mem_map.mp hr
  exact foldsTo_accentRule ha s

/-! ### No new word -/

/-- A word that stands around no character `c` stands before it or behind it. -/
theorem word_beside {c : Char} {word x y u v : List Char} (hc : c ∉ word)
    (h : u ++ c :: v = x ++ word ++ y) :
    (∃ z, u = x ++ word ++ z ∧ y = z ++ c :: v) ∨ ∃ z, x = u ++ c :: z ∧ v = z ++ word ++ y := by
  rcases append_cons_cases h with ⟨z, hz, rfl⟩ | ⟨z, rfl, rfl⟩
  · rcases append_cons_cases hz.symm with ⟨w, rfl, rfl⟩ | ⟨w, -, rfl⟩
    · exact .inr ⟨w, rfl, rfl⟩
    · exact absurd (by simp) hc
  · exact .inl ⟨z, rfl, rfl⟩

/-- The group of an accent holds no `csup`: the word of the accent has no `s`,
and the base is too short. So a `csup` stands before the group or behind it. -/
theorem csup_beside_accented {a : Char × String} (ha : a ∈ accents) {base x y u v : List Char}
    (hbase : IsBase base)
    (h : u ++ accented a.2 base ++ v = x ++ ['c', 's', 'u', 'p'] ++ y) :
    (∃ z, u = x ++ ['c', 's', 'u', 'p'] ++ z ∧ y = z ++ accented a.2 base ++ v) ∨
      ∃ z, v = z ++ ['c', 's', 'u', 'p'] ++ y ∧ x = u ++ accented a.2 base ++ z := by
  have hletters : ∀ a ∈ accents, 's' ∉ a.2.toList := by decide
  have hgroup : ∀ t, accented a.2 base ++ t =
      '{' :: (a.2.toList ++ ' ' :: (base ++ '}' :: t)) := fun t => by simp [accented]
  rw [List.append_assoc, hgroup] at h
  rcases word_beside (by decide) h with ⟨z, rfl, rfl⟩ | ⟨z, rfl, hopen⟩
  · exact .inl ⟨z, rfl, by rw [List.append_assoc, hgroup]⟩
  · right
    rcases word_beside (by decide) hopen with ⟨w, hw, -⟩ | ⟨w, rfl, hspace⟩
    · exact absurd (by simp [hw]) (hletters a ha)
    · rcases word_beside (by decide) hspace with ⟨w', rfl, -⟩ | ⟨w', rfl, rfl⟩
      · have hlength := hbase.length_le
        simp only [List.length_append, List.length_cons] at hlength
        omega
      · exact ⟨w', rfl, by rw [List.append_assoc, hgroup]⟩

/-- A `csup` has stood in the text before a match was exchanged, and only what
is around it was folded. -/
theorem FoldStep.exists_csup {s x y : List Char}
    (h : FoldStep s (x ++ ['c', 's', 'u', 'p'] ++ y)) :
    ∃ x' y', s = x' ++ ['c', 's', 'u', 'p'] ++ y' ∧ FoldsTo x' x ∧ FoldsTo y' y := by
  generalize ht : x ++ ['c', 's', 'u', 'p'] ++ y = t at h
  obtain ⟨u, v, ha, hbase, hgap, hgap'⟩ := h
  rcases csup_beside_accented ha hbase ht.symm with ⟨z, rfl, rfl⟩ | ⟨z, rfl, rfl⟩
  · exact ⟨x, _, by simp only [List.append_assoc], .refl x,
      .single (.fold z v ha hbase hgap hgap')⟩
  · exact ⟨_, y, by simp only [List.append_assoc],
      .single (.fold u z ha hbase hgap hgap'), .refl y⟩

/-- **No `csup` is new.** Each one of a text that was folded has stood in the
text before, and the text before it and the text behind it were folded apart
from each other. -/
theorem FoldsTo.exists_csup {s x y : List Char} (h : FoldsTo s (x ++ ['c', 's', 'u', 'p'] ++ y)) :
    ∃ x' y', s = x' ++ ['c', 's', 'u', 'p'] ++ y' ∧ FoldsTo x' x ∧ FoldsTo y' y := by
  generalize ht : x ++ ['c', 's', 'u', 'p'] ++ y = t at h
  induction h generalizing x y with
  | refl => exact ⟨x, y, ht.symm, .refl x, .refl y⟩
  | tail _ hstep ih =>
    obtain ⟨x₁, y₁, rfl, hx, hy⟩ := FoldStep.exists_csup (ht ▸ hstep)
    obtain ⟨x₂, y₂, rfl, hx', hy'⟩ := ih rfl
    exact ⟨x₂, y₂, rfl, hx'.trans hx, hy'.trans hy⟩

/-! ### The rounds -/

/-- The rounds that are made on a text, their number and the text in which
they end. The last round is the one that changes nothing. -/
inductive Rounds : Nat → List Char → List Char → Prop
  | last {s : List Char} : accentRound s = s → Rounds 1 s s
  | next {n : Nat} {s t : List Char} : accentRound s ≠ s → Rounds n (accentRound s) t →
    Rounds (n + 1) s t

/-- Every round but the last one takes a mark from the text. -/
theorem Rounds.add_marks_le {n : Nat} {s t : List Char} (h : Rounds n s t) :
    n + marks t ≤ marks s + 1 := by
  induction h with
  | last => omega
  | next hround _ ih =>
    have hlt := marks_accentRound_lt hround
    omega

/-- The rounds are told by the text. -/
theorem Rounds.unique {n k : Nat} {s t u : List Char} (h : Rounds n s t) (h' : Rounds k s u) :
    n = k ∧ t = u := by
  induction h generalizing k with
  | last hsame =>
    cases h' with
    | last => exact ⟨rfl, rfl⟩
    | next hround _ => exact absurd hsame hround
  | next hround _ ih =>
    cases h' with
    | last hsame => exact absurd hsame hround
    | next _ hrest =>
      obtain ⟨rfl, rfl⟩ := ih hrest
      exact ⟨rfl, rfl⟩

/-- Rounds are made until one changes nothing. -/
theorem exists_rounds (s : List Char) : ∃ n, Rounds n s (foldAccents s) := by
  fun_induction foldAccents s with
  | case1 s hround => exact ⟨1, .last hround⟩
  | case2 s hround ih =>
    obtain ⟨n, hn⟩ := ih
    exact ⟨n + 1, .next hround hn⟩

/-- Where a `csup` and its mark are left there is no base before them. -/
theorem allBlank_before_accent {m : Char} (hm : isMark m = true) {s u gap v : List Char}
    (hgap : ∀ c ∈ gap, isBlank c = true)
    (h : foldAccents s = u ++ ['c', 's', 'u', 'p'] ++ gap ++ m :: v) :
    ∀ c ∈ u, isBlank c = true := by
  refine (blank_or_last u).resolve_right ?_
  rintro ⟨front, base, blanks, hbase, hblanks, rfl⟩
  -- the last character that is not blank would be the base of a match
  obtain ⟨a, ha, rfl⟩ : ∃ a ∈ accents, a.1 = m := by
    simpa only [isMark, List.any_eq_true, decide_eq_true_eq] using hm
  refine avoids_foldAccents ha s (base :: (blanks ++ ['c', 's', 'u', 'p'] ++ gap ++ [a.1]))
    ⟨base, blanks, gap, hbase, hblanks, hgap, rfl⟩ ⟨front, v, ?_⟩
  rw [h]
  simp

/-- **The rounds end, and soon.** A round that changes the text leaves fewer
marks in it. Every `csup` that stands in the text after a round has stood in
the text before, and only what is around it was folded. So the rounds end, in
the folded text and in nothing else, and there are at most one more of them
than the text has marks. Wherever `csup` and a mark are left then, with blanks
between, no base stands before them: nothing but blanks does. -/
theorem foldAccents_within_marks (s : List Char) :
    (accentRound s ≠ s → marks (accentRound s) < marks s) ∧
    (∀ x y, accentRound s = x ++ ['c', 's', 'u', 'p'] ++ y →
      ∃ x' y', s = x' ++ ['c', 's', 'u', 'p'] ++ y' ∧ FoldsTo x' x ∧ FoldsTo y' y) ∧
    (∃ n, Rounds n s (foldAccents s) ∧ n ≤ marks s + 1 ∧
      ∀ k t, Rounds k s t → k = n ∧ t = foldAccents s) ∧
    ∀ u gap m v, isMark m = true → (∀ c ∈ gap, isBlank c = true) →
      foldAccents s = u ++ ['c', 's', 'u', 'p'] ++ gap ++ m :: v → ∀ c ∈ u, isBlank c = true := by
  obtain ⟨n, hn⟩ := exists_rounds s
  refine ⟨marks_accentRound_lt, fun x y h => ?_, ⟨n, hn, ?_, fun k t hk => hk.unique hn⟩, ?_⟩
  · exact FoldsTo.exists_csup (h ▸ foldsTo_accentRound s)
  · have hmarks := hn.add_marks_le
    omega
  · intro u gap m v hm hgap h
    exact allBlank_before_accent hm hgap h

/-- A text with an accent that has no base, and one that has. -/
def leadingAccent : List Char := "\u2003csup\u00a0\u0302 x csup \u0303".toList

/-- The accent without a base stays behind a blank; the other one takes a
round, and the round after it is the last. -/
theorem within_marks_leadingAccent :
    accentRound leadingAccent ≠ leadingAccent ∧
    marks (accentRound leadingAccent) < marks leadingAccent ∧
    accentRound leadingAccent =
      ['\u2003'] ++ ['c', 's', 'u', 'p'] ++ "\u00a0\u0302 {tilde x}".toList ∧
    (∃ x' y', leadingAccent = x' ++ ['c', 's', 'u', 'p'] ++ y' ∧ FoldsTo x' ['\u2003'] ∧
      FoldsTo y' "\u00a0\u0302 {tilde x}".toList) ∧
    (∃ n, Rounds n leadingAccent (foldAccents leadingAccent) ∧ n ≤ 3) ∧
    foldAccents leadingAccent =
      ['\u2003'] ++ ['c', 's', 'u', 'p'] ++ ['\u00a0'] ++ '\u0302' :: " {tilde x}".toList ∧
    ∀ c ∈ ['\u2003'], isBlank c = true := by
  have hround : accentRound leadingAccent =
      ['\u2003'] ++ ['c', 's', 'u', 'p'] ++ "\u00a0\u0302 {tilde x}".toList := by decide +kernel
  have hfolded : foldAccents leadingAccent =
      ['\u2003'] ++ ['c', 's', 'u', 'p'] ++ ['\u00a0'] ++ '\u0302' :: " {tilde x}".toList := by
    decide +kernel
  have hchanged : accentRound leadingAccent ≠ leadingAccent := by
    rw [hround]
    decide
  obtain ⟨hmarks, hcsup, ⟨n, hrounds, hle, -⟩, hbefore⟩ := foldAccents_within_marks leadingAccent
  refine ⟨hchanged, hmarks hchanged, hround, hcsup _ _ hround, ⟨n, hrounds, hle⟩, hfolded, ?_⟩
  have hgap : ∀ c ∈ ['\u00a0'], isBlank c = true := List.forall_mem_singleton.mpr (by decide)
  exact hbefore ['\u2003'] ['\u00a0'] '\u0302' _ (by decide) hgap hfolded

end Compositor.Formula
