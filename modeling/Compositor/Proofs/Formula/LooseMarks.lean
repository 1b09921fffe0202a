/-
# Marks that stay

A combining mark is used up together with the word `csup` before it. A mark
with other text before it is loose: no rule uses it up, and a match that takes
it as its base puts it behind the word of an accent, where it is loose again.
So a text with a loose mark has one however often the rules are applied.

Key definition: `HasLooseMark`.
Key theorems: `hasLooseMark_accented`, `HasLooseMark.accentRules`,
`HasLooseMark.foldAccents`.
-/
import Compositor.Proofs.Formula.Matches
import Compositor.Proofs.Text.Endings
import Compositor.Proofs.Text.Rewriting

namespace Compositor.Formula
open Text

/-- Some mark of the text has no `csup` before it. -/
def HasLooseMark (s : List Char) : Prop :=
  ∃ u m v, s = u ++ m :: v ∧ isMark m = true ∧ ¬ EndsIn ['c', 's', 'u', 'p'] u

theorem HasLooseMark.marks_ne_zero {s : List Char} (h : HasLooseMark s) : marks s ≠ 0 := by
  obtain ⟨u, m, v, rfl, hm, -⟩ := h
  intro hzero
  exact absurd hm (List.countP_eq_zero.mp hzero m (by simp))

theorem not_mem_csup_of_isMark {m : Char} (h : isMark m = true) : m ∉ ['c', 's', 'u', 'p'] := by
  have hword : marks ['c', 's', 'u', 'p'] = 0 := by decide
  exact fun hmem => List.countP_eq_zero.mp hword m hmem h

/-- Whether a text ends in `csup` is settled behind any mark and any brace. -/
theorem endsIn_csup_append_cons {c : Char} (hc : isMark c = true ∨ c = '{' ∨ c = '}')
    (s t : List Char) :
    EndsIn ['c', 's', 'u', 'p'] (s ++ c :: t) ↔ EndsIn ['c', 's', 'u', 'p'] t := by
  have hblank : isBlank c = false := by
    rcases hc with hc | rfl | rfl
    · exact isBlank_of_isMark hc
    · decide
    · decide
  have hword : c ∉ ['c', 's', 'u', 'p'] := by
    rcases hc with hc | rfl | rfl
    · exact not_mem_csup_of_isMark hc
    · decide
    · decide
  exact endsIn_append_cons hblank hword (List.cons_ne_nil _ _) s t

/-- A mark in the base of an accent is loose. -/
theorem hasLooseMark_accented {a : Char × String} (ha : a ∈ accents) {base : List Char}
    (hbase : IsBase base) {m : Char} (hm : isMark m = true) (hmem : m ∈ base) (w v : List Char) :
    HasLooseMark (w ++ accented a.2 base ++ v) := by
  obtain ⟨y, x, rfl⟩ := List.append_of_mem hmem
  refine ⟨w ++ '{' :: (a.2.toList ++ ' ' :: y), m, x ++ '}' :: v, by simp [accented], hm, ?_⟩
  rw [endsIn_csup_append_cons (.inr (.inl rfl))]
  rcases y with _ | ⟨c, _ | ⟨d, y⟩⟩
  · have hword : ∀ a ∈ accents, ¬ EndsIn ['c', 's', 'u', 'p'] (a.2.toList ++ [' ']) := by decide
    exact hword a ha
  · -- a space stands where the word has its `u`
    have hc : isBlank c = false := hbase.not_blank c (by simp)
    have hsplit : a.2.toList ++ [' ', c] = (a.2.toList ++ [' ']) ++ c :: [] := by simp
    rw [EndsIn, hsplit, dropTrailingBlanks_append_cons hc]
    rintro ⟨z, hz⟩
    have hlast := congrArg List.reverse hz
    simp [dropTrailingBlanks, skipBlanks] at hlast
  · have hlength := hbase.length_le
    simp only [List.length_append, List.length_cons] at hlength
    omega

/-- A loose mark behind an accent is loose in the whole text. -/
theorem HasLooseMark.behind_accented {s : List Char} (h : HasLooseMark s) (word : String)
    (w base : List Char) : HasLooseMark (w ++ accented word base ++ s) := by
  obtain ⟨u, m, v, rfl, hm, hu⟩ := h
  have hsplit : w ++ accented word base ++ u =
      (w ++ '{' :: (word.toList ++ ' ' :: base)) ++ '}' :: u := by simp [accented]
  refine ⟨w ++ accented word base ++ u, m, v, by simp, hm, ?_⟩
  rwa [hsplit, endsIn_csup_append_cons (.inr (.inr rfl))]

/-- In any surroundings, where the first text has a loose mark the second has
one. -/
def KeepsLooseMarks (s t : List Char) : Prop :=
  ∀ w v, HasLooseMark (w ++ s ++ v) → HasLooseMark (w ++ t ++ v)

theorem KeepsLooseMarks.append {s s' t t' : List Char} (h : KeepsLooseMarks s s')
    (h' : KeepsLooseMarks t t') : KeepsLooseMarks (s ++ t) (s' ++ t') := by
  intro w v hloose
  have hfirst := h w (t ++ v) (by simpa using hloose)
  have hboth := h' (w ++ s') v (by simpa using hfirst)
  simpa using hboth

/-- A match that is replaced leaves a loose mark. -/
theorem keepsLooseMarks_accented {a : Char × String} (ha : a ∈ accents)
    {base gap gap' : List Char} (hbase : IsBase base) (hgap : ∀ c ∈ gap, isBlank c = true)
    (hgap' : ∀ c ∈ gap', isBlank c = true) :
    KeepsLooseMarks (base ++ (gap ++ ['c', 's', 'u', 'p'] ++ gap' ++ [a.1]))
      (accented a.2 base) := by
  rintro w v ⟨u, m, x, hsplit, hm, hu⟩
  have hlast : isMark a.1 = true := isMark_of_mem ha
  rw [List.append_assoc] at hsplit
  rcases append_cons_cases hsplit.symm with ⟨y, rfl, rfl⟩ | ⟨y, rfl, hmatch⟩
  · -- before the match
    exact ⟨u, m, y ++ (accented a.2 base ++ v), by simp, hm, hu⟩
  rw [List.append_assoc] at hmatch
  rcases append_cons_cases hmatch.symm with ⟨z, rfl, -⟩ | ⟨z, rfl, hcsup⟩
  · -- in the base
    exact hasLooseMark_accented ha hbase hm (by simp) w v
  rw [List.append_assoc] at hcsup
  rcases append_cons_cases hcsup.symm with ⟨z', hz', -⟩ | ⟨z', rfl, hmark⟩
  · -- between the base and the mark, where there is none
    have hmem : m ∈ gap ++ ['c', 's', 'u', 'p'] ++ gap' := by simp [hz']
    rcases List.mem_append.mp hmem with hmem | hmem
    · rcases List.mem_append.mp hmem with hmem | hmem
      · rw [not_isMark_of_isBlank (hgap m hmem)] at hm; cases hm
      · exact absurd hmem (not_mem_csup_of_isMark hm)
    · rw [not_isMark_of_isBlank (hgap' m hmem)] at hm; cases hm
  cases z' with
  | nil =>
    -- the mark of the match has `csup` before it
    refine absurd ?_ hu
    have hlast : isBlank 'p' = false := by decide
    rw [endsIn_iff (by simpa using hlast) (List.cons_ne_nil _ _)]
    exact ⟨w ++ base ++ gap, gap', hgap', by simp⟩
  | cons c z' =>
    -- behind the match
    obtain ⟨rfl, rfl⟩ := List.cons.inj hmark
    have hbehind : HasLooseMark (z' ++ m :: x) := by
      refine ⟨z', m, x, rfl, hm, fun hends => hu ?_⟩
      have hsplit' : w ++ (base ++ (gap ++ ['c', 's', 'u', 'p'] ++ gap' ++ a.1 :: z')) =
        (w ++ (base ++ (gap ++ ['c', 's', 'u', 'p'] ++ gap'))) ++ a.1 :: z' := by simp
      rwa [hsplit', endsIn_csup_append_cons (.inl hlast)]
    exact hbehind.behind_accented a.2 w base

theorem keepsLooseMarks_accentRule {a : Char × String} (ha : a ∈ accents) (s : List Char) :
    KeepsLooseMarks s ((accentRule a.1 a.2).apply s) := by
  refine Rule.apply_rel (fun _ _ _ => id) .append (fun {s put rest} h => ?_) s
  obtain ⟨base, gap, gap', hbase, hgap, hgap', rfl, rfl⟩ := accentHit_split h
  exact ⟨_, by simp, keepsLooseMarks_accented ha hbase hgap hgap'⟩

namespace HasLooseMark

variable {s : List Char}

theorem accentRules {as : List (Char × String)} (has : ∀ a ∈ as, a ∈ accents)
    (h : HasLooseMark s) : HasLooseMark (applyAll (as.map fun a => accentRule a.1 a.2) s) := by
  have hkeep : KeepsLooseMarks s (applyAll (as.map fun a => accentRule a.1 a.2) s) := by
    refine applyAll_rel (fun _ _ _ => id) (fun h h' w v => h' w v ∘ h w v) (fun r hr s => ?_) s
    obtain ⟨a, ha, rfl⟩ := List.mem_map.mp hr
    exact keepsLooseMarks_accentRule (has a ha) s
  simpa using hkeep [] [] (by simpa using h)

theorem foldAccents (h : HasLooseMark s) : HasLooseMark (foldAccents s) := by
  fun_induction Formula.foldAccents s with
  | case1 s _ => exact h
  | case2 s _ ih => exact ih (accentRules (fun _ => id) h)

end HasLooseMark
end Compositor.Formula
