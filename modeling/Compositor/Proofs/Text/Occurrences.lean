/-
# Where occurrences are

The spans of the occurrences in a text are slices of it, each reads its
occurrence, and they come one after the other. What a recogniser's pattern
finds is what the recogniser finds at the head of some end of the text.

Key definition: `Pattern.placed`.
Key theorems: `slice?_of_mem_placed`, `pairwise_spans`, `find_of_mem_cutBy`,
`eq_of_mem_cut_literal`.
-/
import Compositor.Proofs.Text.Slices
import Compositor.Text.Pattern

namespace Compositor.Text

/-- The occurrences in a text: where each starts and stops, and what it is. -/
def Pattern.placed (p : Pattern) (s : List Char) : List ((Nat × Nat) × List Char) :=
  (p.spans s).zip ((p.cut s).occurrences.map Occurrence.found)

theorem length_spansFrom (offset : Nat) (os : List Occurrence) :
    (spansFrom offset os).length = os.length := by
  induction os generalizing offset with
  | nil => rfl
  | cons o os ih => rw [spansFrom, List.length_cons, ih, List.length_cons]

theorem map_fst_placed (p : Pattern) (s : List Char) :
    (p.placed s).map Prod.fst = p.spans s := by
  have hlength : (p.spans s).length = ((p.cut s).occurrences.map Occurrence.found).length := by
    rw [Pattern.spans, length_spansFrom, List.length_map]
  exact List.map_fst_zip (Nat.le_of_eq hlength)

theorem map_snd_placed (p : Pattern) (s : List Char) :
    (p.placed s).map Prod.snd = (p.cut s).occurrences.map Occurrence.found := by
  have hlength : ((p.cut s).occurrences.map Occurrence.found).length = (p.spans s).length := by
    rw [Pattern.spans, length_spansFrom, List.length_map]
  exact List.map_snd_zip (Nat.le_of_eq hlength)

/-! ### Spans -/

theorem spansFrom_add (n offset : Nat) (os : List Occurrence) :
    spansFrom (n + offset) os = (spansFrom offset os).map fun span => (n + span.1, n + span.2) := by
  induction os generalizing offset with
  | nil => rfl
  | cons o os ih =>
    rw [spansFrom, spansFrom, List.map_cons, ← ih]
    simp only [Nat.add_assoc]

theorem slice?_of_mem_spansFrom {u rest : List Char} {os : List Occurrence}
    {span : Nat × Nat} {found : List Char}
    (h : (span, found) ∈ (spansFrom (size u) os).zip (os.map Occurrence.found)) :
    slice? (u ++ Cut.text ⟨os, rest⟩) span.1 span.2 = some found := by
  induction os generalizing u with
  | nil => cases h
  | cons o os ih =>
    have htext : Cut.text ⟨o :: os, rest⟩ = o.gap ++ o.found ++ Cut.text ⟨os, rest⟩ := by
      simp [Cut.text]
    rw [htext]
    rcases List.mem_cons.mp h with h | h
    · obtain ⟨rfl, rfl⟩ := Prod.mk.inj h
      refine slice?_eq_some_iff.mpr ⟨u ++ o.gap, Cut.text ⟨os, rest⟩, by simp, ?_, ?_⟩
      · rw [size_append]
      · rw [size_append, size_append]
    · have hu : size u + size o.gap + size o.found = size (u ++ o.gap ++ o.found) := by
        rw [size_append, size_append]
      simp only [hu] at h
      have := ih h
      simpa only [List.append_assoc] using this

/-- Each span reads its occurrence. -/
theorem slice?_of_mem_placed {p : Pattern} {s : List Char} {span : Nat × Nat}
    {found : List Char} (h : (span, found) ∈ p.placed s) :
    slice? s span.1 span.2 = some found := by
  have hslice : slice? ([] ++ (p.cut s).text) span.1 span.2 = some found :=
    slice?_of_mem_spansFrom h
  rwa [List.nil_append, p.text_cut] at hslice

theorem le_of_mem_spansFrom {offset : Nat} {os : List Occurrence} {span : Nat × Nat}
    (h : span ∈ spansFrom offset os) : offset ≤ span.1 := by
  induction os generalizing offset with
  | nil => cases h
  | cons o os ih =>
    rcases List.mem_cons.mp h with rfl | h
    · exact Nat.le_add_right _ _
    · have := ih h
      omega

theorem start_le_stop {offset : Nat} {os : List Occurrence} {span : Nat × Nat}
    (h : span ∈ spansFrom offset os) : span.1 ≤ span.2 := by
  induction os generalizing offset with
  | nil => cases h
  | cons o os ih =>
    rcases List.mem_cons.mp h with rfl | h
    · exact Nat.le_add_right _ _
    · exact ih h

/-- A span ends where the next one starts, or before. -/
theorem pairwise_spans (p : Pattern) (s : List Char) :
    (p.spans s).Pairwise fun a b => a.2 ≤ b.1 := by
  have h : ∀ offset os, (spansFrom offset os).Pairwise fun a b => a.2 ≤ b.1 := by
    intro offset os
    induction os generalizing offset with
    | nil => exact List.Pairwise.nil
    | cons o os ih => exact List.Pairwise.cons (fun _ => le_of_mem_spansFrom) (ih _)
  exact h 0 _

/-! ### What a recogniser finds -/

theorem found_skip (a : Char) (c : Cut) :
    (c.skip a).occurrences.map Occurrence.found = c.occurrences.map Occurrence.found := by
  obtain ⟨os, rest⟩ := c
  cases os with
  | nil => rfl
  | cons o os => rfl

theorem find_of_mem_cutBy {r : Recogniser} {s found : List Char}
    (h : found ∈ (r.cutBy s).occurrences.map Occurrence.found) :
    ∃ u rest, r.find u = some (found, rest) := by
  fun_induction r.cutBy s with
  | case1 => cases h
  | case2 c s first rest hfind ih =>
    rcases List.mem_cons.mp h with rfl | h
    · exact ⟨c :: s, rest, hfind⟩
    · exact ih h
  | case3 c s hfind ih =>
    rw [found_skip] at h
    exact ih h

/-- The occurrences of a word are the word. -/
theorem eq_of_mem_cut_literal {word : List Char} (hword : word ≠ []) {s found : List Char}
    (h : found ∈ ((Pattern.literal word).cut s).occurrences.map Occurrence.found) :
    found = word := by
  have hnonempty : word.isEmpty = false := by simpa using hword
  rw [Pattern.literal, hnonempty] at h
  obtain ⟨u, rest, hfind⟩ := find_of_mem_cutBy h
  simp only [wordRecogniser, hnonempty, Bool.false_eq_true, if_false] at hfind
  obtain ⟨r, -, he⟩ := Option.map_eq_some_iff.mp hfind
  exact (Prod.mk.inj he).1.symm

end Compositor.Text
