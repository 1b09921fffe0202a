/-
# What a text ends in

A text ends in a word when nothing but blanks stands behind the word. Whether
it does is settled by the text behind any character that is neither blank nor
in the word: what stands before such a character makes no difference.

Key definition: `EndsIn`.
Key theorems: `endsIn_iff`, `endsIn_gap_append`, `endsIn_append_cons`.
-/
import Compositor.Proofs.Text.Avoids
import Compositor.Proofs.Text.Trimming

namespace Compositor.Text

theorem isBlank_of_mem_space : ∀ c ∈ [' '], isBlank c = true := fun c hc => by
  rw [List.mem_singleton.mp hc]
  decide

theorem dropTrailingBlanks_append_gap {gap : List Char} (hgap : ∀ c ∈ gap, isBlank c = true)
    (s : List Char) : dropTrailingBlanks (s ++ gap) = dropTrailingBlanks s := by
  have hgap' : ∀ c ∈ gap.reverse, isBlank c = true := fun c hc => hgap c (List.mem_reverse.mp hc)
  rw [dropTrailingBlanks, skipBlanks, List.reverse_append, List.dropWhile_append_of_pos hgap']
  rfl

theorem dropTrailingBlanks_append_cons {c : Char} (hc : isBlank c = false) (s t : List Char) :
    dropTrailingBlanks (s ++ c :: t) = s ++ c :: dropTrailingBlanks t := by
  have hcons : (s ++ c :: t).reverse = t.reverse ++ c :: s.reverse := by simp
  rw [dropTrailingBlanks, hcons, skipBlanks, List.dropWhile_append, dropTrailingBlanks, skipBlanks]
  cases hdrop : t.reverse.dropWhile isBlank with
  | nil => simp [hc]
  | cons e u => simp

/-- What is dropped are blanks. -/
theorem dropTrailingBlanks_split (s : List Char) :
    ∃ gap, (∀ c ∈ gap, isBlank c = true) ∧ s = dropTrailingBlanks s ++ gap := by
  obtain ⟨gap, hgap, hs⟩ := skipBlanks_split s.reverse
  refine ⟨gap.reverse, fun c hc => hgap c (List.mem_reverse.mp hc), ?_⟩
  rw [dropTrailingBlanks, ← List.reverse_append, ← hs, List.reverse_reverse]

/-- A text is blank, or it has a last character that is not. -/
theorem blank_or_last (s : List Char) : (∀ c ∈ s, isBlank c = true) ∨
    ∃ front c gap, isBlank c = false ∧ (∀ b ∈ gap, isBlank b = true) ∧
      s = front ++ c :: gap := by
  obtain ⟨gap, hgap, hs⟩ := dropTrailingBlanks_split s
  rcases List.eq_nil_or_concat (dropTrailingBlanks s) with hnil | ⟨front, c, hlast⟩
  · rw [hnil, List.nil_append] at hs
    rw [hs]
    exact .inl hgap
  · have hc : isBlank c = false := not_isBlank_of_dropTrailingBlanks (s := s) (by simp [hlast])
    exact .inr ⟨front, c, gap, hc, hgap, by rw [hs, hlast]; simp⟩

/-- Does the text end in the word, blanks behind it apart? -/
def EndsIn (word s : List Char) : Prop := word <:+ dropTrailingBlanks s

instance (word s : List Char) : Decidable (EndsIn word s) :=
  inferInstanceAs (Decidable (_ <:+ _))

variable {word : List Char}

theorem endsIn_append_gap {gap : List Char} (hgap : ∀ c ∈ gap, isBlank c = true) (s : List Char) :
    EndsIn word (s ++ gap) ↔ EndsIn word s := by
  rw [EndsIn, dropTrailingBlanks_append_gap hgap, EndsIn]

theorem not_endsIn_nil (hne : word ≠ []) : ¬ EndsIn word [] :=
  fun h => hne (List.suffix_nil.mp h)

/-- A word that ends in no blank is what a text ends in if and only if the
word and a gap stand at its end. -/
theorem endsIn_iff (hlast : ∀ c, word.getLast? = some c → isBlank c = false) (hne : word ≠ [])
    {s : List Char} : EndsIn word s ↔
      ∃ x gap, (∀ c ∈ gap, isBlank c = true) ∧ s = x ++ word ++ gap := by
  constructor
  · rintro ⟨x, hx⟩
    obtain ⟨gap, hgap, hs⟩ := dropTrailingBlanks_split s
    exact ⟨x, gap, hgap, by rw [hx]; exact hs⟩
  · rintro ⟨x, gap, hgap, rfl⟩
    obtain ⟨w, c, rfl⟩ := (List.eq_nil_or_concat word).resolve_left hne
    have hc : isBlank c = false := hlast c (by simp)
    rw [endsIn_append_gap hgap, EndsIn, List.concat_eq_append, ← List.append_assoc,
      dropTrailingBlanks_append_cons hc]
    exact ⟨x, by simp [dropTrailingBlanks, skipBlanks]⟩

/-- Blanks before a text make no difference. -/
theorem endsIn_gap_append (hword : ∀ c ∈ word, isBlank c = false) (hne : word ≠ [])
    {gap : List Char} (hgap : ∀ c ∈ gap, isBlank c = true) (s : List Char) :
    EndsIn word (gap ++ s) ↔ EndsIn word s := by
  have hlast : ∀ c, word.getLast? = some c → isBlank c = false :=
    fun c hc => hword c (List.mem_of_getLast? hc)
  rw [endsIn_iff hlast hne, endsIn_iff hlast hne]
  constructor
  · rintro ⟨x, gap', hgap', hs⟩
    have hsuffix : word ++ gap' <:+ gap ++ s := ⟨x, by rw [hs, List.append_assoc]⟩
    rcases suffix_append_cases hsuffix with ⟨y, hy⟩ | ⟨w, hw, hws, he⟩
    · exact ⟨y, gap', hgap', by rw [← hy, List.append_assoc]⟩
    · -- the word would start in the blanks
      obtain ⟨c, w, rfl⟩ := List.exists_cons_of_ne_nil hw
      obtain ⟨d, word, rfl⟩ := List.exists_cons_of_ne_nil hne
      obtain rfl := (List.cons.inj he).1
      have hd := hword d List.mem_cons_self
      rw [hgap d (hws.subset List.mem_cons_self)] at hd
      cases hd
  · rintro ⟨x, gap', hgap', rfl⟩
    exact ⟨gap ++ x, gap', hgap', by simp only [List.append_assoc]⟩

/-- A character that is neither blank nor in the word keeps apart what is
before it. -/
theorem endsIn_append_cons {c : Char} (hc : isBlank c = false) (hword : c ∉ word) (hne : word ≠ [])
    (s t : List Char) : EndsIn word (s ++ c :: t) ↔ EndsIn word t := by
  rw [EndsIn, dropTrailingBlanks_append_cons hc, EndsIn]
  have hsplit : s ++ c :: dropTrailingBlanks t = (s ++ [c]) ++ dropTrailingBlanks t := by simp
  rw [hsplit]
  constructor
  · intro h
    rcases suffix_append_cases h with h | ⟨w, hw, hws, rfl⟩
    · exact h
    · -- a part of the word would end in the character
      obtain ⟨u, e, rfl⟩ := (List.eq_nil_or_concat w).resolve_left hw
      obtain ⟨v, hv⟩ := hws
      rw [List.concat_eq_append, ← List.append_assoc] at hv
      have he : e = c := by simpa using (List.append_inj' hv rfl).2
      exact absurd (by simp [he]) hword
  · exact fun h => h.trans (List.suffix_append _ _)

end Compositor.Text
