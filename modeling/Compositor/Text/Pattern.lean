/-
# Occurrences in a text

A pattern says where in a text something occurs: it cuts the text into the
occurrences, in order and apart from each other, and the gaps between them.
A recogniser finds an occurrence at the head of a text; the pattern it
makes takes the leftmost occurrence, and then goes on after it.

Key definitions: `Cut`, `Pattern`, `Pattern.spans`, `Recogniser`,
`Recogniser.pattern`, `Pattern.literal`.
Key theorems: `Recogniser.text_cutBy`.
-/
import Compositor.Text.Bytes
import Compositor.Text.Start

namespace Compositor.Text

/-- An occurrence of something, with the text between it and the occurrence
before. -/
structure Occurrence where
  gap : List Char
  found : List Char
  deriving Repr, DecidableEq

/-- A text cut into its occurrences and the text after the last of them. -/
structure Cut where
  occurrences : List Occurrence
  rest : List Char
  deriving Repr, DecidableEq

namespace Cut

/-- The text that was cut. -/
def text (c : Cut) : List Char :=
  (c.occurrences.flatMap fun o => o.gap ++ o.found) ++ c.rest

/-- The cut of `gap ++ found ++ s`, where `c` cuts `s`. -/
def cons (gap found : List Char) (c : Cut) : Cut :=
  { c with occurrences := ⟨gap, found⟩ :: c.occurrences }

@[simp] theorem text_cons (gap found : List Char) (c : Cut) :
    (c.cons gap found).text = gap ++ found ++ c.text := by
  simp [cons, text]

/-- The cut of `a :: s`, where `c` cuts `s` and nothing occurs at `a`. -/
def skip (a : Char) : Cut → Cut
  | ⟨[], rest⟩ => ⟨[], a :: rest⟩
  | ⟨o :: os, rest⟩ => ⟨{ o with gap := a :: o.gap } :: os, rest⟩

@[simp] theorem text_skip (a : Char) (c : Cut) : (c.skip a).text = a :: c.text := by
  rcases c with ⟨_ | ⟨o, os⟩, rest⟩ <;> simp [skip, text]

end Cut

/-- A rule that says where something occurs in a text. -/
structure Pattern where
  cut : List Char → Cut
  text_cut : ∀ s, (cut s).text = s

/-- The byte positions where the occurrences start and stop, the first gap
starting at `offset`. -/
def spansFrom (offset : Nat) : List Occurrence → List (Nat × Nat)
  | [] => []
  | o :: os =>
    let start := offset + size o.gap
    let stop := start + size o.found
    (start, stop) :: spansFrom stop os

/-- The byte positions where the occurrences in a text start and stop. -/
def Pattern.spans (p : Pattern) (s : List Char) : List (Nat × Nat) :=
  spansFrom 0 (p.cut s).occurrences

/-- Finds an occurrence at the head of a text: its text and what follows. An
occurrence is not empty. -/
structure Recogniser where
  find : List Char → Option (List Char × List Char)
  append_of_find : ∀ {s found rest}, find s = some (found, rest) → found ++ rest = s
  ne_nil_of_find : ∀ {s found rest}, find s = some (found, rest) → found ≠ []

namespace Recogniser

theorem length_lt_of_find (r : Recogniser) {s found rest : List Char}
    (h : r.find s = some (found, rest)) : rest.length < s.length := by
  have happ := r.append_of_find h
  have hne := List.length_pos_iff.mpr (r.ne_nil_of_find h)
  rw [← happ, List.length_append]
  omega

/-- The text cut at the leftmost occurrence, and so on after it. -/
def cutBy (r : Recogniser) : List Char → Cut
  | [] => ⟨[], []⟩
  | c :: s =>
    match _h : r.find (c :: s) with
    | some (found, rest) => (r.cutBy rest).cons [] found
    | none => (r.cutBy s).skip c
termination_by s => s.length
decreasing_by
  · exact r.length_lt_of_find _h
  · simp

theorem text_cutBy (r : Recogniser) (s : List Char) : (r.cutBy s).text = s := by
  fun_induction r.cutBy s with
  | case1 => rfl
  | case2 c s found rest h ih => simp [ih, r.append_of_find h]
  | case3 c s h ih => simp [ih]

/-- The occurrences that a recogniser finds, from left to right. -/
def pattern (r : Recogniser) : Pattern := ⟨r.cutBy, r.text_cutBy⟩

end Recogniser

/-- A given word that is not empty, wherever it stands. -/
def wordRecogniser (word : List Char) : Recogniser where
  find s :=
    if word.isEmpty then none
    else (after? word s).map fun rest => (word, rest)
  append_of_find := by
    intro s found rest h
    split at h
    · cases h
    · obtain ⟨r, hr, he⟩ := Option.map_eq_some_iff.1 h
      cases he
      exact (after?_eq_some_iff.1 hr).symm
  ne_nil_of_find := by
    intro s found rest h
    split at h
    · cases h
    · obtain ⟨r, hr, he⟩ := Option.map_eq_some_iff.1 h
      cases he
      simp_all

/-- The empty text occurs before every character and at the end. -/
def emptyCut : List Char → Cut
  | [] => ⟨[⟨[], []⟩], []⟩
  | c :: s => ((emptyCut s).skip c).cons [] []

theorem text_emptyCut (s : List Char) : (emptyCut s).text = s := by
  induction s with
  | nil => rfl
  | cons c s ih => simp [emptyCut, ih]

/-- The occurrences of a given text: from left to right if it is not empty,
and at every boundary if it is. -/
def Pattern.literal (word : List Char) : Pattern :=
  if word.isEmpty then ⟨emptyCut, text_emptyCut⟩ else (wordRecogniser word).pattern

end Compositor.Text
