/-
# Pieces and lines of a text

No piece of a text cut at a character has the character, and the pieces of two
texts with the character between them are the pieces of the one and then those
of the other. So a line that is written with a line feed after it is read as
the first line of the text, and what follows is read on its own; and what is put
before a text in one line is put before the first line of the text.

Key definition: `piecesOf`.
Key theorems: `piecesOf_append`, `piecesOf_of_not_mem`,
`not_mem_of_mem_piecesOf`, `lines_append`, `lines_append_left`,
`prefix_head_lines`, `not_mem_of_mem_lines`.
-/
import Compositor.Text.Lines

namespace Compositor.Text

/-- The text cut at every `sep`, as one list. -/
def piecesOf (sep : Char) (s : List Char) : List (List Char) :=
  (pieces sep s).1 :: (pieces sep s).2

variable {sep : Char}

theorem piecesOf_cons_self (s : List Char) : piecesOf sep (sep :: s) = [] :: piecesOf sep s := by
  simp only [piecesOf, pieces, if_true]

theorem piecesOf_cons_of_ne {c : Char} (hc : c ≠ sep) (s : List Char) :
    piecesOf sep (c :: s) = (c :: (pieces sep s).1) :: (pieces sep s).2 := by
  simp only [piecesOf, pieces, if_neg hc]

theorem piecesOf_append (s t : List Char) :
    piecesOf sep (s ++ sep :: t) = piecesOf sep s ++ piecesOf sep t := by
  induction s with
  | nil => exact piecesOf_cons_self t
  | cons c s ih =>
    by_cases hc : c = sep
    · rw [hc, List.cons_append, piecesOf_cons_self, piecesOf_cons_self, ih, List.cons_append]
    · obtain ⟨hfirst, hothers⟩ := List.cons.inj ih
      rw [List.cons_append, piecesOf_cons_of_ne hc, piecesOf_cons_of_ne hc, hfirst, hothers]
      rfl

theorem piecesOf_of_not_mem {s : List Char} (h : sep ∉ s) : piecesOf sep s = [s] := by
  induction s with
  | nil => rfl
  | cons c s ih =>
    obtain ⟨hc, hs⟩ := not_or.mp (mt List.mem_cons.mpr h)
    obtain ⟨hfirst, hothers⟩ := List.cons.inj (ih hs)
    rw [piecesOf_cons_of_ne (Ne.symm hc), hfirst, hothers]

theorem not_mem_of_mem_piecesOf {s piece : List Char} (h : piece ∈ piecesOf sep s) :
    sep ∉ piece := by
  induction s generalizing piece with
  | nil =>
    rw [List.mem_singleton.mp h]
    exact List.not_mem_nil
  | cons c s ih =>
    by_cases hc : c = sep
    · subst hc
      rw [piecesOf_cons_self, List.mem_cons] at h
      obtain rfl | h := h
      · exact List.not_mem_nil
      · exact ih h
    · rw [piecesOf_cons_of_ne hc, List.mem_cons] at h
      obtain rfl | h := h
      · rw [List.mem_cons, not_or]
        exact ⟨Ne.symm hc, ih List.mem_cons_self⟩
      · exact ih (List.mem_cons_of_mem _ h)

/-! ### Lines -/

theorem dropReturn_append {x : List Char} (h : x.getLast? ≠ some '\r') (y : List Char) :
    dropReturn (x ++ y) = x ++ dropReturn y := by
  cases y with
  | nil =>
    have hnil : dropReturn ([] : List Char) = [] := rfl
    rw [hnil, List.append_nil, dropReturn, if_neg h]
  | cons c y =>
    have hlast : (x ++ c :: y).getLast? = (c :: y).getLast? := by
      rw [List.getLast?_append, List.getLast?_cons, Option.some_or]
    unfold dropReturn
    rw [hlast]
    split
    · exact List.dropLast_append_of_ne_nil (List.cons_ne_nil c y)
    · rfl

theorem lines_eq_endedLines {s first : List Char} {others : List (List Char)}
    (h : piecesOf '\n' s = first :: others) : lines s = endedLines first others := by
  obtain ⟨rfl, rfl⟩ := List.cons.inj h
  rfl

/-- What stands before a line feed is a line, but for the carriage return that
belongs to the line feed. -/
theorem lines_append_feed {x : List Char} (h : '\n' ∉ x) (s : List Char) :
    lines (x ++ '\n' :: s) = dropReturn x :: lines s := by
  have hpieces : piecesOf '\n' (x ++ '\n' :: s) = x :: piecesOf '\n' s := by
    rw [piecesOf_append, piecesOf_of_not_mem h, List.singleton_append]
  rw [lines_eq_endedLines hpieces, piecesOf, endedLines]
  rfl

/-- A line that ends in a line feed and not in a carriage return is the first
line of the text. -/
theorem lines_append {x : List Char} (hfeed : '\n' ∉ x) (hreturn : x.getLast? ≠ some '\r')
    (s : List Char) : lines (x ++ '\n' :: s) = x :: lines s := by
  rw [lines_append_feed hfeed, dropReturn, if_neg hreturn]

/-- A text in one line is its line, if there is any. -/
theorem lines_of_not_mem {x : List Char} (h : '\n' ∉ x) (hne : x ≠ []) : lines x = [x] := by
  rw [lines_eq_endedLines (piecesOf_of_not_mem h), endedLines, if_neg (mt List.isEmpty_iff.mp hne)]

theorem lines_feed_cons (s : List Char) : lines ('\n' :: s) = [] :: lines s :=
  lines_append List.not_mem_nil nofun s

/-- What is put before a text, without a line feed, is put before its first line. -/
theorem lines_append_left {x : List Char} (hfeed : '\n' ∉ x) (hreturn : x.getLast? ≠ some '\r')
    (hne : x ≠ []) (s : List Char) :
    lines (x ++ s) = (x ++ (lines s).headD []) :: (lines s).tail := by
  by_cases hs : '\n' ∈ s
  · obtain ⟨y, t, rfl, hy⟩ := List.eq_append_cons_of_mem hs
    have hxy : '\n' ∉ x ++ y := mt List.mem_append.mp (not_or.mpr ⟨hfeed, hy⟩)
    rw [← List.append_assoc, lines_append_feed hxy, lines_append_feed hy, dropReturn_append hreturn]
    rfl
  · have hxs : '\n' ∉ x ++ s := mt List.mem_append.mp (not_or.mpr ⟨hfeed, hs⟩)
    rw [lines_of_not_mem hxs (List.append_ne_nil_of_left_ne_nil hne s)]
    cases s with
    | nil => rfl
    | cons c s =>
      rw [lines_of_not_mem hs (List.cons_ne_nil c s)]
      rfl

theorem mem_of_mem_dropReturn {x : List Char} {c : Char} (h : c ∈ dropReturn x) : c ∈ x := by
  unfold dropReturn at h
  split at h
  · exact List.dropLast_subset _ h
  · exact h

/-- The first line is what the text starts with. -/
theorem prefix_head_lines (s : List Char) :
    (lines s).headD [] <+: s ∧ '\n' ∉ (lines s).headD [] := by
  by_cases hs : '\n' ∈ s
  · obtain ⟨y, t, rfl, hy⟩ := List.eq_append_cons_of_mem hs
    rw [lines_append_feed hy, List.headD_cons]
    refine ⟨List.IsPrefix.trans ?_ (List.prefix_append y _), mt mem_of_mem_dropReturn hy⟩
    unfold dropReturn
    split
    · exact List.dropLast_prefix y
    · exact List.prefix_rfl
  · cases s with
    | nil => exact ⟨List.prefix_rfl, List.not_mem_nil⟩
    | cons c s =>
      rw [lines_of_not_mem hs (List.cons_ne_nil c s)]
      exact ⟨List.prefix_rfl, hs⟩

theorem not_mem_of_mem_endedLines {first : List Char} {others : List (List Char)}
    (h : ∀ piece ∈ first :: others, '\n' ∉ piece) {x : List Char}
    (hx : x ∈ endedLines first others) : '\n' ∉ x := by
  induction others generalizing first with
  | nil =>
    unfold endedLines at hx
    split at hx
    · cases hx
    · rw [List.mem_singleton.mp hx]
      exact h first List.mem_cons_self
  | cons next others ih =>
    obtain rfl | hx := List.mem_cons.mp hx
    · exact fun hmem => h first List.mem_cons_self (mem_of_mem_dropReturn hmem)
    · exact ih (fun piece hpiece => h piece (List.mem_cons_of_mem _ hpiece)) hx

theorem not_mem_of_mem_lines {s x : List Char} (h : x ∈ lines s) : '\n' ∉ x :=
  not_mem_of_mem_endedLines (fun _ hpiece => not_mem_of_mem_piecesOf hpiece) h

end Compositor.Text
