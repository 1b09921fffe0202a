/-
# Spelled texts

The spelling of a letter is a group: control words in braces. The characters
of the words are below all styled letters, so a spelled text holds no letter
that has a spelling. A match that does not run across a brace lies in one
spelling, or outside all of them, where it stood before.

Key definition: `IsSpelled`.
Key theorems: `spelling_braced_of`, `spelling_braced`, `spelling?_spellSymbols`,
`avoids_spellSymbols`.
-/
import Compositor.Formula.Symbol
import Compositor.Text.Blank
import Compositor.Proofs.Text.Avoids

namespace Compositor.Formula
open Text

/-- What all control words have in common: their characters are below the
styled letters, and do not make up a bracket keyword. -/
def IsSpelled (words : List Char) : Prop :=
  (∀ c ∈ words, c.toNat < 0x80) ∧
    ¬ ('e' ∈ words ∧ 'm' ∈ words ∧ ('f' ∈ words ∨ 'g' ∈ words ∧ 'h' ∈ words))

-- by the list: there is another way to decide a statement on all characters
instance (words : List Char) : Decidable (IsSpelled words) :=
  have : Decidable (∀ c ∈ words, c.toNat < 0x80) := List.decidableBAll _ words
  inferInstanceAs (Decidable (_ ∧ ¬ _))

theorem isSpelled_latin : ∀ style ∈ latinStyles, ∀ letter ∈ capitals ++ smalls,
    IsSpelled (style.attributes.toList ++ [' ', letter]) := by
  have hall : ∀ style ∈ latinStyles, style.attributes.toList.all
      (fun c => c.toNat < 0x80 ∧ c ≠ 'e' ∧ c ≠ 'm') = true := by decide
  have hletter : (capitals ++ smalls).all (fun c => c.toNat < 0x80) = true := by decide
  intro style hs letter hl
  have hstyle : ∀ c ∈ style.attributes.toList, c.toNat < 0x80 ∧ c ≠ 'e' ∧ c ≠ 'm' :=
    fun c hc => of_decide_eq_true (List.all_eq_true.mp (hall style hs) c hc)
  simp only [IsSpelled, List.mem_append, List.mem_cons, List.not_mem_nil, or_false]
  constructor
  · rintro c (hc | rfl | rfl)
    · exact (hstyle c hc).1
    · decide
    · exact of_decide_eq_true (List.all_eq_true.mp hletter c hl)
  · -- no attribute has either letter, and there is only one letter besides
    rintro ⟨he | he | rfl, hm | hm | hm, -⟩
    · exact (hstyle _ he).2.1 rfl
    · exact (hstyle _ he).2.1 rfl
    · exact (hstyle _ he).2.1 rfl
    · exact absurd he (by decide)
    · exact absurd he (by decide)
    · exact absurd he (by decide)
    · exact (hstyle _ hm).2.2 rfl
    · exact absurd hm (by decide)
    · exact absurd hm (by decide)

theorem isSpelled_greek : ∀ letter ∈ (greekCapitals ++ greekSmalls).filterMap id,
    IsSpelled letter.upright.toList ∧ IsSpelled letter.italic.toList := by
  decide +kernel

theorem IsSpelled.bold {words : String} (h : IsSpelled words.toList) :
    IsSpelled ("bold " ++ words).toList := by
  have hall : "bold ".toList.all
      (fun c => c.toNat < 0x80 ∧ c ∉ ['e', 'm', 'f', 'g', 'h']) = true := by decide
  have hbold : ∀ c ∈ "bold ".toList, c.toNat < 0x80 ∧ c ∉ ['e', 'm', 'f', 'g', 'h'] :=
    fun c hc => of_decide_eq_true (List.all_eq_true.mp hall c hc)
  have hnot : ∀ c ∈ ['e', 'm', 'f', 'g', 'h'],
      c ∈ ("bold " ++ words).toList ↔ c ∈ words.toList := by
    intro c hc
    rw [String.toList_append, List.mem_append]
    exact or_iff_right fun hb => (hbold c hb).2 hc
  constructor
  · intro c hc
    rw [String.toList_append, List.mem_append] at hc
    exact hc.elim (fun hc => (hbold c hc).1) (h.1 c)
  · simp only [hnot _ (by decide : 'e' ∈ _), hnot _ (by decide : 'm' ∈ _),
      hnot _ (by decide : 'f' ∈ _), hnot _ (by decide : 'g' ∈ _), hnot _ (by decide : 'h' ∈ _)]
    exact h.2

theorem braced_of_mem_greekAlphabet {P : List Char → Prop} {point : Nat → GreekLetter → Nat}
    {spell : GreekLetter → String} {letters : List (Option GreekLetter)}
    (hletters : letters ⊆ greekCapitals ++ greekSmalls)
    (hspell : ∀ letter ∈ (greekCapitals ++ greekSmalls).filterMap id, P (spell letter).toList)
    {a : Char × List Char} (h : a ∈ greekAlphabet point spell letters) :
    ∃ words, P words ∧ a.2 = braced words := by
  obtain ⟨⟨letter?, i⟩, hl, ha⟩ := List.mem_filterMap.mp h
  obtain ⟨letter, rfl, rfl⟩ := Option.map_eq_some_iff.mp ha
  have hmem : letter ∈ (greekCapitals ++ greekSmalls).filterMap id :=
    List.mem_filterMap.mpr ⟨_, hletters (List.fst_mem_of_mem_zipIdx hl), rfl⟩
  exact ⟨_, hspell letter hmem, rfl⟩

/-- Every spelling is a group. Its words have a property that the words for
every Latin style and letter have, those for every Greek letter, and bold
words if the words have it. -/
theorem spelling_braced_of {P : List Char → Prop}
    (hlatin : ∀ style ∈ latinStyles, ∀ letter ∈ capitals ++ smalls,
      P (style.attributes.toList ++ [' ', letter]))
    (hgreek : ∀ letter ∈ (greekCapitals ++ greekSmalls).filterMap id,
      P letter.upright.toList ∧ P letter.italic.toList)
    (hbold : ∀ words : String, P words.toList → P ("bold " ++ words).toList)
    {a : Char × List Char} (h : a ∈ symbolTable) : ∃ words, P words ∧ a.2 = braced words := by
  rcases List.mem_append.mp h with h | h
  · obtain ⟨style, hs, h⟩ := List.mem_flatMap.mp h
    rcases List.mem_append.mp h with h | h
    · obtain ⟨⟨letter, i⟩, hl, rfl⟩ := List.mem_map.mp h
      have := List.mem_append_left smalls (List.fst_mem_of_mem_zipIdx hl)
      exact ⟨_, hlatin style hs letter this, rfl⟩
    · obtain ⟨⟨letter, i⟩, hl, rfl⟩ := List.mem_map.mp h
      have := List.mem_append_right capitals (List.fst_mem_of_mem_zipIdx hl)
      exact ⟨_, hlatin style hs letter this, rfl⟩
  · have hc : greekCapitals ⊆ greekCapitals ++ greekSmalls := List.subset_append_left _ _
    have hs : greekSmalls ⊆ greekCapitals ++ greekSmalls := List.subset_append_right _ _
    simp only [greekTable, greekStyled, List.mem_append] at h
    rcases h with ((((((h | h) | h) | h) | h) | h) | h) | h
    · exact braced_of_mem_greekAlphabet hc (fun l hl => (hgreek l hl).1) h
    · exact braced_of_mem_greekAlphabet hs (fun l hl => (hgreek l hl).1) h
    · exact braced_of_mem_greekAlphabet hc (fun l hl => hbold _ (hgreek l hl).1) h
    · exact braced_of_mem_greekAlphabet hs (fun l hl => hbold _ (hgreek l hl).1) h
    · exact braced_of_mem_greekAlphabet hc (fun l hl => (hgreek l hl).2) h
    · exact braced_of_mem_greekAlphabet hs (fun l hl => (hgreek l hl).2) h
    · exact braced_of_mem_greekAlphabet hc (fun l hl => hbold _ (hgreek l hl).2) h
    · exact braced_of_mem_greekAlphabet hs (fun l hl => hbold _ (hgreek l hl).2) h

/-- Every spelling is a group of control words. -/
theorem spelling_braced {a : Char × List Char} (h : a ∈ symbolTable) :
    ∃ words, IsSpelled words ∧ a.2 = braced words :=
  spelling_braced_of isSpelled_latin isSpelled_greek (fun _ => IsSpelled.bold) h

/-- The styled letters are above the characters of their spellings, and none
is blank. -/
theorem symbolTable_point : ∀ a ∈ symbolTable, 0x80 ≤ a.1.toNat ∧ isBlank a.1 = false := by
  decide +kernel

theorem mem_symbolTable_of_spelling? {c : Char} {p : List Char} (h : spelling? c = some p) :
    (c, p) ∈ symbolTable := by
  obtain ⟨l₁, l₂, hl, -⟩ := List.lookup_eq_some_iff.mp h
  rw [hl]
  simp

theorem spelling?_of_lt {c : Char} (h : c.toNat < 0x80) : spelling? c = none := by
  cases hp : spelling? c with
  | none => rfl
  | some p =>
    have := (symbolTable_point _ (mem_symbolTable_of_spelling? hp)).1
    simp only at this
    omega

theorem lt_of_mem_spelling {a : Char × List Char} (ha : a ∈ symbolTable) {c : Char} (hc : c ∈ a.2) :
    c.toNat < 0x80 := by
  obtain ⟨words, hw, he⟩ := spelling_braced ha
  simp only [he, braced, List.mem_append, List.mem_cons, List.not_mem_nil, or_false] at hc
  rcases hc with (rfl | hc) | rfl
  · decide
  · exact hw.1 c hc
  · decide

theorem spelling?_spellSymbols (s : List Char) : ∀ c ∈ spellSymbols s, spelling? c = none := by
  intro c hc
  obtain ⟨b, -, hb⟩ := List.mem_flatMap.mp hc
  cases hp : spelling? b with
  | none =>
    simp only [hp, Option.getD_none, List.mem_singleton] at hb
    rw [hb, hp]
  | some p =>
    simp only [hp, Option.getD_some] at hb
    exact spelling?_of_lt (lt_of_mem_spelling (mem_symbolTable_of_spelling? hp) hb)

/-- What starts a spelled text, and has no opening brace, started it before. -/
theorem prefix_of_prefix_spellSymbols {s z : List Char} (hz : '{' ∉ z)
    (h : z <+: spellSymbols s) : z <+: s := by
  induction s generalizing z with
  | nil => exact h
  | cons c s ih =>
    simp only [spellSymbols, List.flatMap_cons] at h
    cases z with
    | nil => exact List.nil_prefix
    | cons e z =>
      have hz' : '{' ∉ z := fun hm => hz (List.mem_cons_of_mem e hm)
      cases hp : spelling? c with
      | none =>
        rw [hp, Option.getD_none, List.singleton_append, List.cons_prefix_cons] at h
        rw [List.cons_prefix_cons]
        exact ⟨h.1, ih hz' h.2⟩
      | some p =>
        obtain ⟨words, -, he⟩ := spelling_braced (mem_symbolTable_of_spelling? hp)
        obtain rfl : p = braced words := he
        rw [hp, Option.getD_some, braced, List.cons_append, List.cons_append,
          List.cons_prefix_cons] at h
        exact absurd (by simp [h.1]) hz

/-- What avoids a set before the letters are spelled avoids it after, if no
spelling has a member in it, no member goes on with a brace, and one that
starts with a closing brace could start with a letter. -/
theorem avoids_spellSymbols {L : List Char → Prop} (hnil : ¬ L [])
    (hL : ∀ {e z}, L (e :: z) → '{' ∉ z ∧ '}' ∉ z) (hp : ∀ a ∈ symbolTable, Avoids L a.2)
    (hclose : ∀ a ∈ symbolTable, ∀ z, L ('}' :: z) → L (a.1 :: z)) {s : List Char}
    (hs : Avoids L s) : Avoids L (spellSymbols s) := by
  induction s with
  | nil => exact hs
  | cons c s ih =>
    have ih := ih (hs.of_infix (List.suffix_cons c s).isInfix)
    intro z hz hzs
    obtain ⟨e, z, rfl⟩ := List.exists_cons_of_ne_nil fun h : z = [] => hnil (h ▸ hz)
    obtain ⟨t, hzt, ht⟩ := List.infix_iff_prefix_suffix.mp hzs
    rw [spellSymbols, List.flatMap_cons] at ht
    rcases suffix_append_cases ht with ht | ⟨w, hw, hwp, rfl⟩
    · exact ih _ hz (hzt.isInfix.trans ht.isInfix)
    change e :: z <+: w ++ spellSymbols s at hzt
    cases hsp : spelling? c with
    | none =>
      rw [hsp, Option.getD_none, List.suffix_cons_iff, List.suffix_nil] at hwp
      obtain rfl := hwp.resolve_right hw
      rw [List.singleton_append, List.cons_prefix_cons] at hzt
      refine hs _ hz (List.IsPrefix.isInfix ?_)
      exact List.cons_prefix_cons.mpr ⟨hzt.1, prefix_of_prefix_spellSymbols (hL hz).1 hzt.2⟩
    | some p =>
      have hmem := mem_symbolTable_of_spelling? hsp
      rw [hsp, Option.getD_some] at hwp
      obtain ⟨v, hv⟩ := hzt
      rcases List.append_eq_append_iff.mp hv with ⟨u, rfl, -⟩ | ⟨u, hu, hv⟩
      · exact hp _ hmem _ hz ((List.prefix_append _ u).isInfix.trans hwp.isInfix)
      · -- the match goes beyond the spelling, so past its closing brace
        obtain ⟨words, -, he⟩ := spelling_braced hmem
        obtain rfl : p = braced words := he
        obtain ⟨w, rfl⟩ : ∃ q, w = q ++ ['}'] := by
          obtain ⟨q, hq⟩ := hwp
          obtain ⟨w, e, rfl⟩ := (List.eq_nil_or_concat w).resolve_left hw
          rw [braced, List.concat_eq_append, ← List.append_assoc] at hq
          obtain rfl : e = '}' := by simpa using (List.append_inj' hq rfl).2
          exact ⟨w, List.concat_eq_append⟩
        cases w with
        | nil =>
          obtain ⟨rfl, rfl⟩ := List.cons.inj hu
          have hus : z <+: s := prefix_of_prefix_spellSymbols (hL hz).1 ⟨v, hv.symm⟩
          exact hs _ (hclose _ hmem z hz) (List.cons_prefix_cons.mpr ⟨rfl, hus⟩).isInfix
        | cons b w =>
          obtain ⟨rfl, rfl⟩ := List.cons.inj hu
          exact (hL hz).2 (by simp)

end Compositor.Formula
