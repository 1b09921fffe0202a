/-
# Text replaced run by run

The runs of a paragraph can be replaced in one walk over all of them: each
run loses what the range has of it, by positions clamped to the run, and the
first run that holds the start of the range takes the new text, once. Every
part of a run that the walk takes is a slice of it, so none of them may fall
off a boundary. At a range of the text none does, and the walk makes the runs
that the recursive replacement makes.

Key definitions: `Run.replaceAlong`, `Run.replaceChecked?`.
Key theorems: `Run.replaceAlong_placed`, `Run.replaceAlong_eq`,
`Run.replaceChecked?_eq`, `Run.isEmpty_of_mem_replace`, `replaceText_styled`.
-/
import Compositor.Proofs.Document.Formats
import Compositor.Proofs.Document.Steps
import Compositor.Proofs.Document.Texts

namespace Compositor
open Text

namespace Run

/-- The runs from byte `offset` of a text on, with its bytes from `start` to
`stop` left out: the first run that holds `start` takes `new`, if no run before
has. Also says whether a run has taken it by then. There is no result if a
part to be taken is no slice of its run. -/
def replaceAlong (new : List Char) (start stop : Nat) :
    (offset : Nat) → (placed : Bool) → List Run → Option (List Run × Bool)
  | _, placed, [] => some ([], placed)
  | offset, placed, r :: rs => do
    let length := size r.chars
    let front ← slice? r.chars 0 (min (start - offset) length)
    let back ← slice? r.chars (min (stop - offset) length) length
    let takes := !placed && decide (offset ≤ start) && decide (start < offset + length)
    let (rest, placed) ← replaceAlong new start stop (offset + length) (placed || takes) rs
    some ((r.withChars (front ++ (if takes then new else []) ++ back)).kept ++ rest, placed)

/-- The runs with the bytes from `start` to `stop` replaced by `new` in one
walk, if every part that the walk takes is a slice. -/
def replaceChecked? (new : List Char) (start stop : Nat) (runs : List Run) :
    Option (List Run) :=
  (replaceAlong new start stop 0 false runs).map fun (runs, placed) =>
    if placed || new.isEmpty then runs else appendText new runs

theorem withChars_chars (r : Run) : r.withChars r.chars = r := by
  rw [withChars, chars, String.ofList_toList]

/-- Once the new text is placed, the walk drops what is left of the range. -/
theorem replaceAlong_placed (new : List Char) {start stop offset : Nat} {u v : List Char}
    {runs : List Run} (h : allChars runs = u ++ v) (hstart : start ≤ offset)
    (hstop : stop - offset = size u) :
    replaceAlong new start stop offset true runs = some (dropBytes (size u) runs, true) := by
  induction runs generalizing offset u v with
  | nil => rfl
  | cons r rs ih =>
    rw [allChars_cons] at h
    obtain ⟨-, -, u', v', -, -, -, hrest, hsize⟩ := exists_cut_of_append_eq h
    have hfront : slice? r.chars 0 (min (start - offset) (size r.chars)) = some [] := by
      rw [Nat.sub_eq_zero_of_le hstart, Nat.zero_min]
      exact slice?_eq_some_iff.mpr ⟨[], r.chars, rfl, rfl, rfl⟩
    have hgo : replaceAlong new start stop (offset + size r.chars) true rs =
        some (dropBytes (size u') rs, true) := ih hrest (by omega) (by omega)
    simp only [replaceAlong, hfront, hstop, slice?_clamped_back h, Bool.not_true, Bool.false_and,
      Bool.or_false, hgo, Option.bind_eq_bind, Option.bind_some, hsize, dropBytes,
      Bool.false_eq_true, if_false, List.nil_append]

/-- Before that, the walk is the recursion that looks for the start of the
range. -/
theorem replaceAlong_eq (new : List Char) {start stop offset : Nat} {u x v : List Char}
    {runs : List Run} (h : allChars runs = u ++ x ++ v) (hstart : start = offset + size u)
    (hstop : stop = offset + size (u ++ x)) :
    replaceAlong new start stop offset false runs =
      some (match replaceInside new (size u) (size (u ++ x)) runs with
        | some replaced => (replaced, true)
        | none => (runs.flatMap kept, false)) := by
  induction runs generalizing offset u x v with
  | nil => rfl
  | cons r rs ih =>
    rw [allChars_cons] at h
    have hfrom : start - offset = size u := by omega
    have hto : stop - offset = size (u ++ x) := by omega
    have hfront := slice?_clamped_front (h.trans (List.append_assoc u x v))
    have hback := slice?_clamped_back h
    rw [replaceInside]
    by_cases hlt : size u < size r.chars
    · -- this run takes the new text
      obtain ⟨-, -, u', v', -, -, -, hrest, hsize⟩ := exists_cut_of_append_eq h
      have hgo : replaceAlong new start stop (offset + size r.chars) true rs =
          some (dropBytes (size u') rs, true) :=
        replaceAlong_placed new hrest (by omega) (by omega)
      have hholds : start < offset + size r.chars := by omega
      have hle : offset ≤ start := by omega
      simp only [replaceAlong, hfrom, hto, hfront, hback, Bool.not_false, Bool.true_and, hle,
        hholds, decide_true, Bool.or_true, hgo, Option.bind_eq_bind, Option.bind_some, if_true,
        hlt, hsize, substitute]
    · -- this run stays
      obtain ⟨m, rfl, hrest⟩ := exists_of_append_eq
        (h.trans (List.append_assoc u x v)) (by omega)
      have hholds : ¬ start < offset + size r.chars := by omega
      have hfurther : start = offset + size r.chars + size m := by
        rw [size_append] at hstart
        omega
      have hend : stop = offset + size r.chars + size (m ++ x) := by
        rw [List.append_assoc, size_append] at hstop
        omega
      have hgo := ih (hrest.trans (List.append_assoc m x v).symm) hfurther hend
      have hmove : ∀ s, size (r.chars ++ s) - size r.chars = size s := by
        intro s
        rw [size_append, Nat.add_sub_cancel_left]
      have hwhole : ∀ s, cut r.chars (size (r.chars ++ s)) = (r.chars, []) := by
        intro s
        refine cut_of_size_le ?_
        rw [size_append]
        exact Nat.le_add_right _ _
      rw [hwhole] at hfront
      rw [List.append_assoc, hwhole] at hback
      rw [List.append_assoc] at hto ⊢
      simp only [replaceAlong, hfrom, hto, hfront, hback, hholds, decide_false, Bool.and_false,
        Bool.or_false, hgo, Option.bind_eq_bind, Option.bind_some, Bool.false_eq_true, if_false,
        hlt, hmove, List.append_nil, withChars_chars]
      cases replaceInside new (size m) (size (m ++ x)) rs with
      | some replaced => rfl
      | none => rfl

/-- At a range of the text every part that the walk takes is a slice, and it
makes the same runs as the recursion. -/
theorem replaceChecked?_eq (new : List Char) {u x v : List Char} {runs : List Run}
    (h : allChars runs = u ++ x ++ v) :
    replaceChecked? new (size u) (size (u ++ x)) runs =
      some (replace new (size u) (size (u ++ x)) runs) := by
  rw [replaceChecked?, replaceAlong_eq new h (Nat.zero_add _).symm (Nat.zero_add _).symm, replace]
  cases replaceInside new (size u) (size (u ++ x)) runs with
  | some replaced => rfl
  | none => rfl

/-! ### No empty runs -/

theorem isEmpty_of_mem_dropBytes {n : Nat} {runs : List Run} {q : Run}
    (h : q ∈ dropBytes n runs) : q.isEmpty = false := by
  induction runs generalizing n with
  | nil => cases h
  | cons r rs ih =>
    rcases List.mem_append.mp h with h | h
    · exact isEmpty_of_mem_kept h
    · exact ih h

theorem isEmpty_of_mem_replaceInside {new : List Char} {start stop : Nat}
    {runs replaced : List Run} (hr : replaceInside new start stop runs = some replaced) {q : Run}
    (h : q ∈ replaced) : q.isEmpty = false := by
  induction runs generalizing start stop replaced with
  | nil => cases hr
  | cons r rs ih =>
    rw [replaceInside] at hr
    split at hr
    · obtain rfl := Option.some.inj hr
      rcases List.mem_append.mp h with h | h
      · exact isEmpty_of_mem_kept h
      · exact isEmpty_of_mem_dropBytes h
    · obtain ⟨rest, hrest, rfl⟩ := Option.map_eq_some_iff.mp hr
      rcases List.mem_append.mp h with h | h
      · exact isEmpty_of_mem_kept h
      · exact ih hrest h

theorem isEmpty_withChars {s : List Char} (h : s ≠ []) (r : Run) :
    (r.withChars s).isEmpty = false := by
  refine Bool.eq_false_iff.mpr fun hempty => h ?_
  have htext : String.ofList s = "" := by simpa [isEmpty, withChars] using hempty
  exact String.ofList_eq_empty_iff.mp htext

theorem isEmpty_of_mem_appendText {new : List Char} (hnew : new ≠ []) {runs : List Run}
    (hruns : ∀ r ∈ runs, r.isEmpty = false) {q : Run} (h : q ∈ appendText new runs) :
    q.isEmpty = false := by
  fun_induction appendText new runs with
  | case1 =>
    obtain rfl := List.mem_singleton.mp h
    exact isEmpty_withChars hnew default
  | case2 r =>
    obtain rfl := List.mem_singleton.mp h
    exact isEmpty_withChars (List.append_ne_nil_of_right_ne_nil _ hnew) r
  | case3 r rs hrs ih =>
    rcases List.mem_cons.mp h with rfl | h
    · exact hruns _ List.mem_cons_self
    · exact ih (fun r hr => hruns r (List.mem_cons_of_mem _ hr)) h

/-- No replacement leaves an empty run. -/
theorem isEmpty_of_mem_replace {new : List Char} {start stop : Nat} {runs : List Run} {q : Run}
    (h : q ∈ replace new start stop runs) : q.isEmpty = false := by
  unfold replace at h
  split at h
  · rename_i hr
    exact isEmpty_of_mem_replaceInside hr h
  · split at h
    · exact isEmpty_of_mem_flatMap_kept h
    · rename_i hnew
      exact isEmpty_of_mem_appendText (fun he => hnew (List.isEmpty_iff.mpr he))
        (fun _ => isEmpty_of_mem_flatMap_kept) h

end Run

namespace Document

/-- **A range of a paragraph replaced by text.** However the text is cut into
runs, nothing of the document changes but the runs of this paragraph. The
characters before and after the range keep their formats, and the new text
between them is in one format: that of the character at the start of the
range, or of the last character if the range starts at the end. No run is left
empty, and no slice that the walk over the runs takes is off a boundary. -/
theorem replaceText_styled {d : Document} {r : TextRange} {removed : String}
    (hcell : r.cell = none) (hr : d.rangeText r = .ok removed) (new : String) :
    ∃ before p after runs, ∃ a x b : Styled,
      d.blocks = before ++ .paragraph p :: after ∧ d.paragraph? r.block = some p ∧
      p.styled = a ++ x ++ b ∧ size a.chars = r.start ∧ size (a.chars ++ x.chars) = r.stop ∧
      x.chars = removed.toList ∧
      d.replaceText r new =
        .ok ({ d with blocks := before ++ .paragraph { p with runs } :: after },
          ⟨r, .text (size new.toList)⟩) ∧
      runs.flatMap Run.styled =
        a ++ (new.toList.map fun c => (c, p.styled.formatAt r.start)) ++ b ∧
      (∀ run ∈ runs, run.isEmpty = false) ∧
      Run.replaceChecked? new.toList r.start r.stop p.runs = some runs := by
  obtain ⟨before, p, after, haddressed, hp, hslice⟩ :=
    exists_addressed hcell (reads_of_rangeText hr)
  obtain ⟨u, v, huv, hstart, hstop⟩ := slice?_eq_some_iff.mp hslice
  have hchars := huv
  rw [← Paragraph.chars_styled] at hchars
  obtain ⟨a, x, b, hparts, rfl, hx, rfl⟩ := Styled.exists_parts hchars
  rw [← hx] at hstop huv
  refine ⟨before, p, after, Run.replace new.toList r.start r.stop p.runs, a, x, b,
    eq_of_addressed haddressed, hp, hparts, hstart, hstop, hx, ?_, ?_,
    fun _ => Run.isEmpty_of_mem_replace, ?_⟩
  · unfold replaceText
    simp only [hcell, haddressed]
  · rw [← hstart, ← hstop, Run.styled_replaceAt new.toList hparts, hparts]
  · rw [← hstart, ← hstop]
    exact Run.replaceChecked?_eq new.toList huv

/-- A paragraph with an empty run and with characters of several bytes. -/
def mixedParagraph : Paragraph where
  id := 1
  runs := [⟨"a", {}⟩, ⟨"", { underline := true }⟩, ⟨"é✓", { bold := true }⟩,
    ⟨"z", { italic := true }⟩]

def mixedDocument : Document where
  title := "Note"
  blocks := [.pageBreak, .paragraph mixedParagraph]
  nextId := 2

/-- The range starts in the bold run and takes the run behind it, too: the new
text is in bold. -/
theorem styled_mixedDocument :
    mixedDocument.rangeText ⟨1, none, 3, 7⟩ = .ok "✓z" ∧
      ∃ runs, ∃ a x b : Styled, mixedParagraph.styled = a ++ x ++ b ∧ size a.chars = 3 ∧
        x.chars = ['✓', 'z'] ∧
        runs.flatMap Run.styled = a ++ [('-', { bold := true }), ('>', { bold := true })] ++ b ∧
        Run.replaceChecked? ['-', '>'] 3 7 mixedParagraph.runs = some runs := by
  have hrange : mixedDocument.rangeText ⟨1, none, 3, 7⟩ = .ok "✓z" := rfl
  refine ⟨hrange, ?_⟩
  obtain ⟨before, p, after, runs, a, x, b, -, hp, hparts, hstart, -, hx, -, hstyled, -, hchecked⟩ :=
    replaceText_styled rfl hrange "->"
  obtain rfl : mixedParagraph = p := Option.some.inj hp
  have hformat : mixedParagraph.styled.formatAt 3 = { bold := true } := by decide
  refine ⟨runs, a, x, b, hparts, hstart, hx, ?_, hchecked⟩
  rw [hformat] at hstyled
  exact hstyled

end Document
end Compositor
