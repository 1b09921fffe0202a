/-
# The text of runs

Runs are one way to write a text in which every character has a format. Two
views go through all operations on runs: the characters with their formats,
and the characters alone. Where runs are cut at a boundary both views are
cut there.

Key definitions: `Run.styled`, `Paragraph.styled`, `Run.allChars`.
Key theorems: `styled_cutAt_append`, `styled_cutAt`.
-/
import Compositor.Document.Edit
import Compositor.Proofs.Text.Slices

namespace Compositor
open Text

/-- Text with a format at each character. -/
abbrev Styled := List (Char × TextFormat)

/-- The characters without their formats. -/
def Styled.chars (t : Styled) : List Char := t.map Prod.fst

namespace Run

/-- The characters of a run, each in the format of the run. -/
def styled (r : Run) : Styled := r.chars.map fun c => (c, r.format)

/-- The characters of several runs. -/
def allChars (runs : List Run) : List Char := runs.flatMap chars

end Run

/-- The characters of a paragraph with their formats. -/
def Paragraph.styled (p : Paragraph) : Styled := p.runs.flatMap Run.styled

namespace Styled

theorem chars_append (t u : Styled) : (t ++ u : Styled).chars = t.chars ++ u.chars :=
  List.map_append

theorem length_chars (t : Styled) : t.chars.length = t.length := List.length_map _

/-- Where the characters can be cut, the text with its formats can. -/
theorem exists_of_chars_eq {t : Styled} {u v : List Char} (h : t.chars = u ++ v) :
    ∃ a b : Styled, t = a ++ b ∧ a.chars = u ∧ b.chars = v :=
  List.map_eq_append_iff.mp h

/-- A text whose characters are in three parts is in three parts. -/
theorem exists_parts {t : Styled} {u x v : List Char} (h : t.chars = u ++ x ++ v) :
    ∃ a y b : Styled, t = a ++ y ++ b ∧ a.chars = u ∧ y.chars = x ∧ b.chars = v := by
  obtain ⟨front, b, rfl, hfront, hb⟩ := exists_of_chars_eq h
  obtain ⟨a, y, rfl, ha, hy⟩ := exists_of_chars_eq hfront
  exact ⟨a, y, b, rfl, ha, hy, hb⟩

end Styled

namespace Run

theorem chars_withChars (r : Run) (s : List Char) : (r.withChars s).chars = s :=
  String.toList_ofList

theorem styled_withChars (r : Run) (s : List Char) :
    (r.withChars s).styled = s.map fun c => (c, r.format) := by
  rw [styled, chars_withChars]
  rfl

theorem chars_styled (r : Run) : r.styled.chars = r.chars := by
  rw [styled, Styled.chars, List.map_map]
  exact List.map_id r.chars

theorem chars_flatMap_styled (runs : List Run) :
    Styled.chars (runs.flatMap styled) = allChars runs := by
  induction runs with
  | nil => rfl
  | cons r rs ih => rw [List.flatMap_cons, Styled.chars_append, chars_styled, ih]; rfl

theorem allChars_cons (r : Run) (rs : List Run) : allChars (r :: rs) = r.chars ++ allChars rs :=
  List.flatMap_cons

/-! ### Runs cut in two -/

theorem cutAt_cons (n : Nat) (r : Run) (rs : List Run) :
    cutAt n (r :: rs) =
      if size r.chars ≤ n then
        (r :: (cutAt (n - size r.chars) rs).1, (cutAt (n - size r.chars) rs).2)
      else if n = 0 then ([], r :: rs)
      else ([r.withChars (cut r.chars n).1], r.withChars (cut r.chars n).2 :: rs) := rfl

/-- A cut loses no character and no format. -/
theorem styled_cutAt_append (n : Nat) (runs : List Run) :
    (cutAt n runs).1.flatMap styled ++ (cutAt n runs).2.flatMap styled = runs.flatMap styled := by
  induction runs generalizing n with
  | nil => rfl
  | cons r rs ih =>
    rw [cutAt_cons]
    split
    · simp only [List.flatMap_cons, List.append_assoc, ih]
    · split
      · rfl
      · simp only [List.flatMap_cons, List.flatMap_nil, List.append_nil, styled_withChars]
        rw [← List.append_assoc, ← List.map_append, cut_append]
        rfl

theorem allChars_cutAt {u v : List Char} {runs : List Run} (h : allChars runs = u ++ v) :
    allChars (cutAt (size u) runs).1 = u := by
  induction runs generalizing u with
  | nil => exact (List.append_eq_nil_iff.mp h.symm).1.symm
  | cons r rs ih =>
    rw [allChars_cons] at h
    rw [cutAt_cons]
    split
    · rename_i hle
      obtain ⟨m, rfl, hrest⟩ := exists_of_append_eq h hle
      have hm := ih hrest
      rw [size_append, Nat.add_sub_cancel_left]
      show allChars (r :: (cutAt (size m) rs).1) = r.chars ++ m
      rw [allChars_cons, hm]
    · rename_i hlt
      obtain ⟨m, hr, -⟩ := exists_of_append_eq h.symm (by omega)
      split
      · rename_i hu
        rw [size_eq_zero_iff.mp hu]
        rfl
      · rw [hr, cut_size_append]
        show allChars [r.withChars u] = u
        rw [allChars_cons, chars_withChars, allChars, List.flatMap_nil, List.append_nil]

/-- Runs cut where a part of their text ends fall into the two parts. -/
theorem styled_cutAt {a b : Styled} {runs : List Run} (h : runs.flatMap styled = a ++ b) :
    (cutAt (size a.chars) runs).1.flatMap styled = a ∧
      (cutAt (size a.chars) runs).2.flatMap styled = b := by
  have hchars : allChars runs = a.chars ++ b.chars := by
    rw [← chars_flatMap_styled, h, Styled.chars_append]
  have hleft := allChars_cutAt hchars
  rw [← chars_flatMap_styled] at hleft
  refine List.append_inj ((styled_cutAt_append _ runs).trans h) ?_
  rw [← Styled.length_chars, hleft, Styled.length_chars]

end Run

theorem Paragraph.chars_styled (p : Paragraph) : p.styled.chars = p.chars :=
  Run.chars_flatMap_styled p.runs

end Compositor
