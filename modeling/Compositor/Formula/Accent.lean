/-
# Accents

A combining mark that follows its base after the word `csup` becomes an
accent group around the base: `x csup ◌̂` is `{hat x}`. The base is the one
or two characters before, blanks excepted. A stack of marks takes one round
for each level, and every round that changes the text uses up a mark, so the
rounds end.

Key definitions: `accents`, `accentRule`, `foldAccents`.
Key theorem: `marks_accentRound_lt`.
-/
import Compositor.Text.Blank
import Compositor.Text.Start
import Compositor.Text.Rule

namespace Compositor.Formula
open Text

/-- The combining marks, each with the word for its accent. -/
def accents : List (Char × String) :=
  [('\u0300', "grave"), ('\u0301', "acute"), ('\u0302', "hat"), ('\u0303', "tilde"),
   ('\u0304', "bar"), ('\u0305', "widebar"), ('\u0306', "breve"), ('\u0307', "dot"),
   ('\u0308', "ddot"), ('\u030A', "circle"), ('\u030C', "check"), ('\u035E', "overline"),
   ('\u035F', "underline"), ('\u0360', "widetilde")]

/-- Is the character one of the combining marks? -/
def isMark (c : Char) : Bool := accents.any fun a => a.1 = c

/-- The number of combining marks in a text. -/
def marks (s : List Char) : Nat := s.countP isMark

/-- What follows the word `csup` and the mark, with any blanks before each. -/
def afterMark? (mark : Char) (s : List Char) : Option (List Char) :=
  match after? ['c', 's', 'u', 'p'] (skipBlanks s) with
  | none => none
  | some t =>
    match skipBlanks t with
    | [] => none
    | c :: rest => if c = mark then some rest else none

/-- A base put into the group of an accent. -/
def accented (word : String) (base : List Char) : List Char :=
  '{' :: word.toList ++ ' ' :: base ++ ['}']

/-- The match of an accent on a given base, where `s` follows the base. -/
def accentOn (mark : Char) (word : String) (base s : List Char) :
    Option (List Char × List Char) :=
  if base.any isBlank then none
  else (afterMark? mark s).map fun rest => (accented word base, rest)

/-- The match of an accent at the head of a text: on two characters if it
can be, and on one otherwise. -/
def accentHit (mark : Char) (word : String) : List Char → Option (List Char × List Char)
  | a :: b :: s => (accentOn mark word [a, b] s).or (accentOn mark word [a] (b :: s))
  | _ => none

/-! ### A match uses up its mark -/

theorem afterMark?_split {mark : Char} {s rest : List Char} (h : afterMark? mark s = some rest) :
    ∃ gap gap', (∀ c ∈ gap, isBlank c) ∧ (∀ c ∈ gap', isBlank c) ∧
      s = gap ++ ['c', 's', 'u', 'p'] ++ gap' ++ mark :: rest := by
  unfold afterMark? at h
  split at h
  · cases h
  · rename_i t ht
    split at h
    · cases h
    · rename_i c r hr
      split at h
      · rename_i hc
        cases h
        rw [after?_eq_some_iff] at ht
        obtain ⟨gap, hgap, hs⟩ := skipBlanks_split s
        obtain ⟨gap', hgap', hs'⟩ := skipBlanks_split t
        refine ⟨gap, gap', hgap, hgap', ?_⟩
        rw [hs, ht, hs', hr, hc]
        simp
      · cases h

theorem not_isMark_of_isBlank {c : Char} (h : isBlank c = true) : isMark c = false := by
  cases hm : isMark c with
  | false => rfl
  | true =>
    simp only [isMark, List.any_eq_true, decide_eq_true_eq] at hm
    obtain ⟨a, ha, rfl⟩ := hm
    have : ∀ a ∈ accents, isBlank a.1 = false := by decide
    rw [this a ha] at h
    cases h

theorem marks_of_allBlank {s : List Char} (h : ∀ c ∈ s, isBlank c = true) : marks s = 0 := by
  rw [marks, List.countP_eq_zero]
  intro c hc
  simp [not_isMark_of_isBlank (h c hc)]

theorem marks_afterMark? {mark : Char} {s rest : List Char} (hm : isMark mark = true)
    (h : afterMark? mark s = some rest) : marks s = marks rest + 1 := by
  obtain ⟨gap, gap', hgap, hgap', rfl⟩ := afterMark?_split h
  have hg := marks_of_allBlank hgap
  have hg' := marks_of_allBlank hgap'
  have hw : marks ['c', 's', 'u', 'p'] = 0 := by decide
  simp only [marks, List.countP_append, List.countP_cons_of_pos hm] at *
  omega

theorem marks_accentOn {mark : Char} {word : String} {base s put rest : List Char}
    (hm : isMark mark = true) (hw : marks word.toList = 0)
    (h : accentOn mark word base s = some (put, rest)) :
    marks put + marks rest < marks base + marks s := by
  unfold accentOn at h
  split at h
  · cases h
  · obtain ⟨r, hr, he⟩ := Option.map_eq_some_iff.1 h
    cases he
    have := marks_afterMark? hm hr
    have hb : marks (accented word base) = marks base := by
      have ho : isMark '{' = false := by decide
      have hc : isMark '}' = false := by decide
      have hs : isMark ' ' = false := by decide
      simp only [marks] at *
      simp [accented, hw, ho, hc, hs]
    omega

theorem length_lt_of_afterMark? {mark : Char} {s rest : List Char}
    (h : afterMark? mark s = some rest) : rest.length < s.length := by
  obtain ⟨gap, gap', _, _, rfl⟩ := afterMark?_split h
  simp
  omega

theorem length_lt_of_accentHit {mark : Char} {word : String} {s put rest : List Char}
    (h : accentHit mark word s = some (put, rest)) : rest.length < s.length := by
  unfold accentHit accentOn at h
  split at h
  · simp only [Option.or_eq_some_iff] at h
    rcases h with h | ⟨_, h⟩ <;> split at h <;> try cases h
    all_goals
      obtain ⟨r, hr, he⟩ := Option.map_eq_some_iff.1 h
      cases he
      have := length_lt_of_afterMark? hr
      simp at *
      omega
  · cases h

theorem marks_accentHit {mark : Char} {word : String} {s put rest : List Char}
    (hm : isMark mark = true) (hw : marks word.toList = 0)
    (h : accentHit mark word s = some (put, rest)) : marks put + marks rest < marks s := by
  unfold accentHit at h
  split at h
  · rename_i a b s
    have hab : marks (a :: b :: s) = marks [a, b] + marks s := by
      simp only [marks, List.countP_cons, List.countP_nil]; omega
    have hb : marks (a :: b :: s) = marks [a] + marks (b :: s) := by
      simp only [marks, List.countP_cons, List.countP_nil]; omega
    simp only [Option.or_eq_some_iff] at h
    rcases h with h | ⟨_, h⟩
    · rw [hab]; exact marks_accentOn hm hw h
    · rw [hb]; exact marks_accentOn hm hw h
  · cases h

/-- The rule for one mark. -/
def accentRule (mark : Char) (word : String) : Rule where
  hit := accentHit mark word
  length_lt_of_hit := length_lt_of_accentHit

/-- One round: the rule of every mark in turn. -/
def accentRound : List Char → List Char :=
  applyAll (accents.map fun a => accentRule a.1 a.2)

/-- A round that changes the text leaves fewer marks in it. -/
theorem marks_accentRound_lt {s : List Char} (h : accentRound s ≠ s) :
    marks (accentRound s) < marks s := by
  have hr := applyAll_eq_or_countP_lt isMark (accents.map fun a => accentRule a.1 a.2)
    (by
      intro r hr
      obtain ⟨a, ha, rfl⟩ := List.mem_map.1 hr
      have hm : ∀ a ∈ accents, isMark a.1 = true := by decide
      have hw : ∀ a ∈ accents, marks a.2.toList = 0 := by decide
      exact Rule.apply_eq_or_countP_lt _ _ fun hit => marks_accentHit (hm a ha) (hw a ha) hit) s
  exact hr.resolve_left h

/-- The text with every stack of marks folded around its base: round after
round until one changes nothing. -/
def foldAccents (s : List Char) : List Char :=
  if _h : accentRound s = s then s else foldAccents (accentRound s)
termination_by marks s
decreasing_by exact marks_accentRound_lt _h

end Compositor.Formula
