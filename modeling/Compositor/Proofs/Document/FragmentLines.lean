/-
# What a line of a fragment is

A heading is told by the number signs at the start of its line and by what
follows them, so neither a blank at the end nor words after a space make a
heading of a line that is none. An image line is its description and its path
between fixed marks, and the same holds of a formula. What a line is depends
on the line without the blanks around it.

Key theorems: `heading?_hashes`, `heading?_append_space`, `eq_of_image?`,
`formula?_marked`, `trimmed_of_ofChars_words`, `ofChars_trim`.
-/
import Compositor.Document.Fragment
import Compositor.Proofs.Text.Trimming

namespace Compositor.Fragment
open Text

/-! ### Headings -/

theorem exists_hashes (s : List Char) :
    ∃ n rest, s = List.replicate n '#' ++ rest ∧ rest.head? ≠ some '#' := by
  refine ⟨(s.takeWhile (· = '#')).length, s.dropWhile (· = '#'), ?_, fun hhead => ?_⟩
  · have hhashes : s.takeWhile (· = '#') =
        List.replicate (s.takeWhile (· = '#')).length '#' :=
      List.eq_replicate_iff.mpr ⟨rfl, fun c hc =>
        of_decide_eq_true (List.all_eq_true.mp List.all_takeWhile c hc)⟩
    rw [← hhashes, List.takeWhile_append_dropWhile]
  · have hnot := List.head?_dropWhile_not (· = '#') s
    rw [hhead] at hnot
    exact absurd hnot (by decide)

/-- A heading has one to six number signs, and then nothing or a space. -/
theorem heading?_hashes (n : Nat) {rest : List Char} (h : rest.head? ≠ some '#') :
    heading? (List.replicate n '#' ++ rest) =
      if 1 ≤ n ∧ n ≤ maxLevel ∧ (rest.isEmpty ∨ rest.head? = some ' ') then some (n, trim rest)
      else none := by
  have hrest : rest.takeWhile (· = '#') = [] := by
    cases rest with
    | nil => rfl
    | cons c rest =>
      exact List.takeWhile_cons_of_neg fun hc => h (congrArg some (of_decide_eq_true hc))
  have hlevel : ((List.replicate n '#' ++ rest).takeWhile (· = '#')).length = n := by
    rw [List.takeWhile_append_of_pos (by simp), hrest, List.append_nil, List.length_replicate]
  have hdrop : (List.replicate n '#' ++ rest).drop n = rest :=
    List.drop_left' List.length_replicate
  unfold heading?
  dsimp only
  rw [hlevel, hdrop]

theorem heading?_append_space {s : List Char} (h : heading? s = none) (t : List Char) :
    heading? (s ++ ' ' :: t) = none := by
  obtain ⟨n, rest, rfl, hrest⟩ := exists_hashes s
  have hrest' : (rest ++ ' ' :: t).head? ≠ some '#' := by
    cases rest with
    | nil => exact fun he => absurd (Option.some.inj he) (by decide)
    | cons c rest => exact hrest
  rw [List.append_assoc, heading?_hashes n hrest', if_neg]
  rintro ⟨hpos, hmax, hspace⟩
  have hcond : rest.isEmpty ∨ rest.head? = some ' ' := by
    cases rest with
    | nil => exact .inl rfl
    | cons c rest => exact .inr (hspace.resolve_left Bool.false_ne_true)
  rw [heading?_hashes n hrest, if_pos ⟨hpos, hmax, hcond⟩] at h
  cases h

theorem of_heading?_eq_some {s text : List Char} {level : Nat}
    (h : heading? s = some (level, text)) :
    1 ≤ level ∧ level ≤ maxLevel ∧ Trimmed text ∧ ∀ c ∈ text, c ∈ s := by
  unfold heading? at h
  dsimp only at h
  split at h
  · rename_i hcond
    cases h
    exact ⟨hcond.1, hcond.2.1, trimmed_trim _, fun c hc =>
      List.mem_of_mem_drop (mem_of_mem_trim hc)⟩
  · cases h

/-! ### Images and formulas -/

theorem eq_of_splitAtLastLink {s before after : List Char}
    (h : splitAtLastLink s = some (before, after)) : s = before ++ ']' :: '(' :: after := by
  induction s generalizing before with
  | nil => cases h
  | cons c s ih =>
    unfold splitAtLastLink at h
    split at h
    · rename_i before' after' hrest
      cases h
      rw [ih hrest]
      rfl
    · obtain ⟨after', hafter, hpair⟩ := Option.map_eq_some_iff.mp h
      obtain ⟨rfl, rfl⟩ := Prod.mk.inj hpair
      have hlink : c :: s = [']', '('] ++ after' := after?_eq_some_iff.mp hafter
      exact hlink

theorem eq_of_image? {s description path : List Char} (h : image? s = some (description, path)) :
    s = '!' :: '[' :: (description ++ ']' :: '(' :: (path ++ [')'])) := by
  unfold image? at h
  split at h
  · cases h
  · rename_i inner hinner
    split at h
    · cases h
    · rename_i description' rest hsplit
      split at h
      · rename_i hlast
        cases h
        obtain ⟨path, rfl⟩ := List.getLast?_eq_some_iff.mp hlast
        rw [after?_eq_some_iff.mp hinner, eq_of_splitAtLastLink hsplit, List.dropLast_concat]
        rfl
      · cases h

theorem image?_eq_none_of_head {s : List Char} (h : s.head? ≠ some '!') : image? s = none := by
  have hafter : after? ['!', '['] s = none := by
    rw [Option.eq_none_iff_forall_not_mem]
    intro rest hrest
    rw [after?_eq_some_iff.mp hrest] at h
    exact h rfl
  rw [image?, hafter]

theorem of_formula?_eq_some {s inner : List Char} (h : formula? s = some inner) :
    Trimmed inner ∧ ∀ c ∈ inner, c ∈ s := by
  unfold formula? at h
  split at h
  · cases h
  · rename_i rest hrest
    split at h
    · cases h
    · rename_i reversed hreversed
      cases h
      refine ⟨trimmed_trim _, fun c hc => ?_⟩
      have hc' : c ∈ rest.reverse := by
        rw [after?_eq_some_iff.mp hreversed]
        exact List.mem_append_right _ (List.mem_reverse.mp (mem_of_mem_trim hc))
      rw [after?_eq_some_iff.mp hrest]
      exact List.mem_append_right _ (List.mem_reverse.mp hc')

/-- The marks of a formula, each with a space towards the formula. -/
def marked (inner : List Char) : List Char := '$' :: '$' :: ' ' :: (inner ++ [' ', '$', '$'])

theorem trimmed_marked (inner : List Char) : Trimmed (marked inner) := by
  have hdollar : isBlank '$' = false := by decide
  have hmark : Trimmed ['$', '$'] :=
    ⟨fun _ hc => Option.some.inj hc ▸ hdollar, fun _ hc => Option.some.inj hc ▸ hdollar⟩
  have hmarked : marked inner = ['$', '$'] ++ ((' ' :: (inner ++ [' '])) ++ ['$', '$']) := by
    simp [marked]
  rw [hmarked]
  exact hmark.enclose hmark (List.cons_ne_nil _ _) (List.cons_ne_nil _ _) _

theorem formula?_marked {inner : List Char} (h : Trimmed inner) :
    formula? (marked inner) = some inner := by
  have hreverse : (' ' :: (inner ++ [' ', '$', '$'])).reverse =
      '$' :: '$' :: ' ' :: (inner.reverse ++ [' ']) := by
    rw [List.reverse_cons, List.reverse_append]
    rfl
  have htrim : trim (' ' :: (inner.reverse ++ [' '])).reverse = inner := by
    rw [List.reverse_cons, List.reverse_append, List.reverse_reverse]
    exact (trim_append_blank (by decide) _).trans ((trim_cons_of_blank (by decide) _).trans
      (trim_eq_self h))
  have hstart : after? ['$', '$'] (marked inner) = some (' ' :: (inner ++ [' ', '$', '$'])) :=
    after?_eq_some_iff.mpr rfl
  have hend : after? ['$', '$'] (' ' :: (inner ++ [' ', '$', '$'])).reverse =
      some (' ' :: (inner.reverse ++ [' '])) := after?_eq_some_iff.mpr hreverse
  rw [formula?, hstart]
  dsimp only
  rw [hend]
  exact congrArg some htrim

/-! ### Lines -/

namespace Line

theorem ofChars_eq (s : List Char) :
    ofChars s =
      if (trim s).isEmpty then .blank
      else
        match heading? (trim s) with
        | some (level, text) => .heading level text
        | none =>
          match image? (trim s) with
          | some (description, path) => .image description path
          | none => .words (trim s) :=
  rfl

theorem ofChars_trim (s : List Char) : ofChars (trim s) = ofChars s := by
  rw [ofChars_eq, ofChars_eq s, trim_trim]

theorem ofChars_of_heading {s text : List Char} {level : Nat} (hne : trim s ≠ [])
    (h : heading? (trim s) = some (level, text)) : ofChars s = .heading level text := by
  rw [ofChars_eq, if_neg (mt List.isEmpty_iff.mp hne), h]

theorem ofChars_of_image {s description path : List Char} (hs : Trimmed s) (hne : s ≠ [])
    (hheading : heading? s = none) (h : image? s = some (description, path)) :
    ofChars s = .image description path := by
  rw [ofChars_eq, trim_eq_self hs, if_neg (mt List.isEmpty_iff.mp hne), hheading, h]

theorem ofChars_of_words {s : List Char} (hs : Trimmed s) (hne : s ≠ [])
    (hheading : heading? s = none) (h : image? s = none) : ofChars s = .words s := by
  rw [ofChars_eq, trim_eq_self hs, if_neg (mt List.isEmpty_iff.mp hne), hheading, h]

/-- A heading is read from its number signs and its text. The space between
is dropped where there is no text. -/
theorem ofChars_hashes {level : Nat} {text : List Char} (hpos : 1 ≤ level)
    (hmax : level ≤ maxLevel) (htext : Trimmed text) :
    ofChars (List.replicate level '#' ++ ' ' :: text) = .heading level text := by
  have hhashes : Trimmed (List.replicate level '#') := by
    have hblank : isBlank '#' = false := by decide
    refine ⟨fun c hc => ?_, fun c hc => ?_⟩
    · rwa [List.eq_of_mem_replicate (List.mem_of_head? hc)]
    · rwa [List.eq_of_mem_replicate (List.mem_of_getLast? hc)]
  have hne : List.replicate level '#' ≠ [] := by
    rw [ne_eq, List.replicate_eq_nil_iff]
    exact Nat.ne_of_gt hpos
  have hspace : isBlank ' ' = true := by decide
  by_cases hempty : text = []
  · subst hempty
    have htrim : trim (List.replicate level '#' ++ [' ']) = List.replicate level '#' ++ [] := by
      rw [trim_append_blank hspace, trim_eq_self hhashes, List.append_nil]
    refine ofChars_of_heading ?_ ?_
    · rw [htrim, List.append_nil]
      exact hne
    · rw [htrim, heading?_hashes level (by decide), if_pos ⟨hpos, hmax, .inl rfl⟩]
      rfl
  · have htrim := trim_eq_self (hhashes.enclose htext hne hempty [' '])
    rw [List.singleton_append] at htrim
    refine ofChars_of_heading ?_ ?_
    · rw [htrim]
      exact List.append_ne_nil_of_left_ne_nil hne _
    · have hhead : (' ' :: text).head? ≠ some '#' :=
        fun he => absurd (Option.some.inj he) (by decide)
      rw [htrim, heading?_hashes level hhead, if_pos ⟨hpos, hmax, .inr rfl⟩,
        trim_cons_of_blank hspace, trim_eq_self htext]

theorem ofChars_marked (inner : List Char) : ofChars (marked inner) = .words (marked inner) := by
  have hhead : ∀ c : Char, c ≠ '$' → (marked inner).head? ≠ some c :=
    fun c hc he => hc (Option.some.inj he).symm
  have hheading : heading? (marked inner) = none :=
    (heading?_hashes 0 (hhead '#' (by decide))).trans (if_neg fun h => absurd h.1 (by decide))
  exact ofChars_of_words (trimmed_marked inner) (List.cons_ne_nil _ _) hheading
    (image?_eq_none_of_head (hhead '!' (by decide)))

/-- A line of words is what is left of the line without the blanks around it;
it is not empty, no heading and no image. -/
theorem of_ofChars_words {s x : List Char} (h : ofChars s = .words x) :
    x = trim s ∧ x ≠ [] ∧ heading? x = none ∧ image? x = none := by
  rw [ofChars_eq] at h
  split at h
  · cases h
  · rename_i hs
    split at h
    · cases h
    · rename_i hheading
      split at h
      · cases h
      · rename_i himage
        cases h
        exact ⟨rfl, mt List.isEmpty_iff.mpr hs, hheading, himage⟩

theorem of_ofChars_heading {s text : List Char} {level : Nat}
    (h : ofChars s = .heading level text) : heading? (trim s) = some (level, text) := by
  rw [ofChars_eq] at h
  split at h
  · cases h
  · split at h
    · rename_i hheading
      cases h
      exact hheading
    · split at h <;> cases h

theorem of_ofChars_image {s description path : List Char}
    (h : ofChars s = .image description path) : image? (trim s) = some (description, path) := by
  rw [ofChars_eq] at h
  split at h
  · cases h
  · split at h
    · cases h
    · split at h
      · rename_i himage
        cases h
        exact himage
      · cases h

end Line
end Compositor.Fragment
