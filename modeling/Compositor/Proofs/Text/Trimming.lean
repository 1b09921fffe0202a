/-
# Trimming

A text is trimmed when no blank stands at either end. Trimming gives such a
text and changes none that is; blanks added at an end make no difference.

Key definition: `Trimmed`.
Key theorems: `trimmed_trim`, `trim_eq_self`, `trim_cons_of_blank`,
`trim_append_blank`, `trim_trim`.
-/
import Compositor.Text.Blank

namespace Compositor.Text

/-- No blank stands at either end of the text. -/
structure Trimmed (s : List Char) : Prop where
  first : ∀ c, s.head? = some c → isBlank c = false
  last : ∀ c, s.getLast? = some c → isBlank c = false

theorem Trimmed.reverse {s : List Char} (h : Trimmed s) : Trimmed s.reverse := by
  refine ⟨?_, ?_⟩
  · rw [List.head?_reverse]
    exact h.last
  · rw [List.getLast?_reverse]
    exact h.first

/-- What starts as one trimmed text and ends as another is trimmed. -/
theorem Trimmed.enclose {s t : List Char} (hs : Trimmed s) (ht : Trimmed t) (hs' : s ≠ [])
    (ht' : t ≠ []) (between : List Char) : Trimmed (s ++ (between ++ t)) := by
  refine ⟨fun c hc => hs.first c ?_, fun c hc => ht.last c ?_⟩
  · cases s with
    | nil => exact absurd rfl hs'
    | cons d s => exact hc
  · rw [← List.append_assoc, List.getLast?_append, List.getLast?_eq_some_getLast ht',
      Option.some_or] at hc
    rw [List.getLast?_eq_some_getLast ht', hc]

theorem skipBlanks_eq_self {s : List Char} (h : ∀ c, s.head? = some c → isBlank c = false) :
    skipBlanks s = s := by
  cases s with
  | nil => rfl
  | cons c s =>
    have hc : ¬ isBlank c = true := by
      rw [h c rfl]
      exact Bool.false_ne_true
    exact List.dropWhile_cons_of_neg hc

theorem not_isBlank_of_skipBlanks {s : List Char} {c : Char} (h : (skipBlanks s).head? = some c) :
    isBlank c = false := by
  have hhead := List.head?_dropWhile_not isBlank s
  rw [show (List.dropWhile isBlank s).head? = some c from h] at hhead
  exact hhead

theorem trim_eq_self {s : List Char} (h : Trimmed s) : trim s = s := by
  rw [trim, skipBlanks_eq_self h.first, dropTrailingBlanks,
    skipBlanks_eq_self h.reverse.first, List.reverse_reverse]

/-- Only blanks at the end are dropped, so the text starts as it did. -/
theorem head?_dropTrailingBlanks {s : List Char} {c : Char}
    (h : (dropTrailingBlanks s).head? = some c) : s.head? = some c := by
  obtain ⟨gap, -, hgap⟩ := skipBlanks_split s.reverse
  have hs : s = dropTrailingBlanks s ++ gap.reverse := by
    rw [dropTrailingBlanks, ← List.reverse_append, ← hgap, List.reverse_reverse]
  rw [hs, List.head?_append, h]
  rfl

theorem not_isBlank_of_dropTrailingBlanks {s : List Char} {c : Char}
    (h : (dropTrailingBlanks s).getLast? = some c) : isBlank c = false := by
  rw [dropTrailingBlanks, List.getLast?_reverse] at h
  exact not_isBlank_of_skipBlanks h

theorem trimmed_trim (s : List Char) : Trimmed (trim s) := by
  refine ⟨fun c hc => ?_, fun c hc => ?_⟩
  · exact not_isBlank_of_skipBlanks (head?_dropTrailingBlanks hc)
  · exact not_isBlank_of_dropTrailingBlanks hc

theorem trim_trim (s : List Char) : trim (trim s) = trim s := trim_eq_self (trimmed_trim s)

theorem mem_of_mem_trim {s : List Char} {c : Char} (h : c ∈ trim s) : c ∈ s := by
  rw [trim, dropTrailingBlanks, List.mem_reverse] at h
  have hskip := (List.dropWhile_sublist isBlank).subset h
  rw [List.mem_reverse] at hskip
  exact (List.dropWhile_sublist isBlank).subset hskip

theorem trim_cons_of_blank {c : Char} (hc : isBlank c = true) (s : List Char) :
    trim (c :: s) = trim s := by
  rw [trim, skipBlanks, List.dropWhile_cons_of_pos hc]
  rfl

theorem dropTrailingBlanks_append_blank {c : Char} (hc : isBlank c = true) (s : List Char) :
    dropTrailingBlanks (s ++ [c]) = dropTrailingBlanks s := by
  rw [dropTrailingBlanks, List.reverse_append, List.reverse_singleton, List.singleton_append,
    skipBlanks, List.dropWhile_cons_of_pos hc]
  rfl

theorem trim_append_blank {c : Char} (hc : isBlank c = true) (s : List Char) :
    trim (s ++ [c]) = trim s := by
  rw [trim, skipBlanks, List.dropWhile_append]
  by_cases hs : (s.dropWhile isBlank).isEmpty = true
  · have hnil : s.dropWhile isBlank = [] := List.isEmpty_iff.mp hs
    rw [if_pos hs, List.dropWhile_cons_of_pos hc, trim, skipBlanks, hnil]
    rfl
  · rw [if_neg hs, dropTrailingBlanks_append_blank hc]
    rfl

end Compositor.Text
