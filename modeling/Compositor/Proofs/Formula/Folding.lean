/-
# Stacks folded

In one round the rules of all accents have their turn. Where a stack is in the
order of the rules, each puts its accent around the base; otherwise a mark
becomes loose and stays. But from the third accent on the base that a rule
finds are the braces of the groups so far, and the groups are not nested.

Key definitions: `heaped`, `Turns`, `InTurn`, `IsFolded`.
Key theorems: `applyAll_of_turns`, `hasLooseMark_or_turns`, `turns_iff`,
`foldAccents_inTurn`, `marks_foldAccents_eq_zero_iff`, `stack_folds_iff`.
-/
import Compositor.Proofs.Formula.Stacks

namespace Compositor.Formula
open Text

/-! ### Rounds -/

/-- A base with the accents of some words put around it one after the other.
From the third on, the base of an accent are the braces that close the groups
so far. -/
def heaped (b : Char) : List String → List Char
  | [] => [b]
  | [word] => accented word [b]
  | first :: second :: words =>
    '{' :: first.toList ++ ' ' :: '{' :: second.toList ++ ' ' :: b ::
      words.flatMap (fun word => accented word []) ++ ['}', '}']

/-- The characters that the next accent goes around. -/
theorem heaped_split {b : Char} (hb : isBlank b = false) (words : List String) :
    ∃ u base, heaped b words = u ++ base ∧ IsBase base ∧ (base.length = 1 → u = []) ∧
      ∀ word, heaped b (words ++ [word]) = u ++ accented word base := by
  have hbrace : isBlank '}' = false := by decide
  match words with
  | [] => exact ⟨[], [b], rfl, ⟨by simp, by simp, by simpa using hb⟩, fun _ => rfl, fun _ => rfl⟩
  | [first] =>
    refine ⟨'{' :: first.toList ++ [' '], [b, '}'], by simp [heaped, accented],
      ⟨by simp, by simp, by simp [hb, hbrace]⟩, by simp, fun word => by simp [heaped, accented]⟩
  | first :: second :: words =>
    refine ⟨'{' :: first.toList ++ ' ' :: '{' :: second.toList ++ ' ' :: b ::
      words.flatMap (fun word => accented word []), ['}', '}'], by simp [heaped],
      ⟨by simp, by simp, by simp [hbrace]⟩, by simp, fun word => by simp [heaped, accented]⟩

theorem mem_heaped {b c : Char} {words : List String} (h : c ∈ heaped b words) :
    c = b ∨ c ∈ [' ', '{', '}'] ∨ ∃ word ∈ words, c ∈ word.toList := by
  match words with
  | [] => exact .inl (List.mem_singleton.mp h)
  | [first] =>
    simp only [heaped, accented, List.mem_append, List.mem_cons, List.not_mem_nil] at h ⊢
    grind
  | first :: second :: words =>
    simp only [heaped, accented, List.mem_append, List.mem_cons, List.mem_flatMap,
      List.not_mem_nil] at h ⊢
    grind

theorem isTop_heaped {b : Char} (hb : isBlank b = false) (hm : isMark b = false)
    {done : List (Char × String)} (hdone : ∀ a ∈ done, a ∈ accents) :
    IsTop (heaped b (done.map (·.2))) where
  marks_eq_zero := by
    have hsigns : marks [' ', '{', '}'] = 0 := by decide
    have hletters : ∀ a ∈ accents, marks a.2.toList = 0 := by decide
    rw [marks, List.countP_eq_zero]
    intro c hc
    rcases mem_heaped hc with rfl | hc | ⟨word, hword, hc⟩
    · rw [hm]
      exact Bool.false_ne_true
    · exact List.countP_eq_zero.mp hsigns c hc
    · obtain ⟨a, ha, rfl⟩ := List.mem_map.mp hword
      exact List.countP_eq_zero.mp (hletters a (hdone a ha)) c hc
  drop_eq_self := by
    obtain ⟨u, base, hsplit, hbase, -, -⟩ := heaped_split hb (done.map (·.2))
    rw [hsplit, hbase.drop_append]

/-- What the rules of some accents in turn do to a stack: the accents that go
around the base, and those left. -/
inductive Turns : List (Char × String) → List (Char × String) → List (Char × String) →
    List (Char × String) → Prop
  | done (stack) : Turns [] stack [] stack
  | skip {a as stack folded left} : a ∉ stack → Turns as stack folded left →
    Turns (a :: as) stack folded left
  | take {a as stack folded left} : a ∉ stack.tail → Turns as stack folded left →
    Turns (a :: as) (a :: stack) (a :: folded) left

section Rounds

variable {b : Char} (hb : isBlank b = false) (hm : isMark b = false)
  {done : List (Char × String)} (hdone : ∀ a ∈ done, a ∈ accents)

include hb hm hdone

theorem apply_skip {a : Char × String} {stack : List (Char × String)} (ha : a ∈ accents)
    (hstack : ∀ q ∈ stack, q ∈ accents) (h : a ∉ stack) :
    (accentRule a.1 a.2).apply (heaped b (done.map (·.2)) ++ spelledMarks stack) =
      heaped b (done.map (·.2)) ++ spelledMarks stack :=
  apply_of_no_match (isTop_heaped hb hm hdone) ha hstack
    fun front back hsplit => absurd (by simp [hsplit]) h

theorem apply_take {a : Char × String} {stack : List (Char × String)}
    (hstack : ∀ q ∈ a :: stack, q ∈ accents) (h : a ∉ stack.tail) :
    (accentRule a.1 a.2).apply (heaped b (done.map (·.2)) ++ spelledMarks (a :: stack)) =
      heaped b ((done ++ [a]).map (·.2)) ++ spelledMarks stack := by
  obtain ⟨u, base, hsplit, hbase, hshort, hnext⟩ := heaped_split hb (done.map (·.2))
  have htop := isTop_heaped hb hm hdone
  rw [hsplit] at htop
  rw [hsplit, apply_bottom htop hbase hshort hstack h, ← hnext, List.map_append]
  rfl

/-- **A round.** Accents whose turn comes are put around the base. -/
theorem applyAll_of_turns {as stack folded left : List (Char × String)}
    (h : Turns as stack folded left) (has : ∀ a ∈ as, a ∈ accents)
    (hstack : ∀ a ∈ stack, a ∈ accents) :
    applyAll (as.map fun a => accentRule a.1 a.2)
        (heaped b (done.map (·.2)) ++ spelledMarks stack) =
      heaped b ((done ++ folded).map (·.2)) ++ spelledMarks left := by
  induction h generalizing done with
  | done stack => simp [applyAll]
  | @skip a as stack folded left hmem _ ih =>
    obtain ⟨ha, has⟩ := List.forall_mem_cons.mp has
    rw [List.map_cons, applyAll_cons, apply_skip hb hm hdone ha hstack hmem, ih hdone has hstack]
  | @take a as stack folded left hmem _ ih =>
    obtain ⟨ha, has⟩ := List.forall_mem_cons.mp has
    have hdone' : ∀ q ∈ done ++ [a], q ∈ accents :=
      List.forall_mem_append.mpr ⟨hdone, List.forall_mem_singleton.mpr ha⟩
    rw [List.map_cons, applyAll_cons, apply_take hb hm hdone hstack hmem,
      ih hdone' has (List.forall_mem_cons.mp hstack).2, List.append_assoc]
    rfl

/-- If not, a mark becomes loose. -/
theorem hasLooseMark_or_turns {as stack : List (Char × String)} (has : ∀ a ∈ as, a ∈ accents)
    (hstack : ∀ a ∈ stack, a ∈ accents) :
    HasLooseMark (applyAll (as.map fun a => accentRule a.1 a.2)
        (heaped b (done.map (·.2)) ++ spelledMarks stack)) ∨
      ∃ folded left, Turns as stack folded left := by
  induction as generalizing done stack with
  | nil => exact .inr ⟨[], stack, .done stack⟩
  | cons a as ih =>
    obtain ⟨ha, has'⟩ := List.forall_mem_cons.mp has
    have htop := isTop_heaped hb hm hdone
    rw [List.map_cons, applyAll_cons]
    -- the rule folds the bottom accent or has no match, unless its accent is further up
    by_cases hmem : a ∈ stack
    · obtain ⟨p, stack, rfl⟩ := List.exists_cons_of_ne_nil (List.ne_nil_of_mem hmem)
      by_cases hp : p = a
      · subst hp
        by_cases hagain : p ∈ stack.tail
        · obtain ⟨q, stack, rfl⟩ := List.exists_cons_of_ne_nil
            (List.ne_nil_of_mem (List.mem_of_mem_tail hagain))
          exact .inl (HasLooseMark.accentRules has' (hasLooseMark_apply_again htop hstack hagain))
        · have hdone' : ∀ q ∈ done ++ [p], q ∈ accents :=
            List.forall_mem_append.mpr ⟨hdone, List.forall_mem_singleton.mpr ha⟩
          rw [apply_take hb hm hdone hstack hagain]
          refine (ih hdone' has' (List.forall_mem_cons.mp hstack).2).imp_right ?_
          exact fun ⟨folded, left, h⟩ => ⟨p :: folded, left, .take hagain h⟩
      · have habove : a ∈ stack := (List.mem_cons.mp hmem).resolve_left (Ne.symm hp)
        exact .inl (HasLooseMark.accentRules has'
          (hasLooseMark_apply_above htop hstack habove (.inl hp)))
    · rw [apply_skip hb hm hdone ha hstack hmem]
      exact (ih hdone has' hstack).imp_right fun ⟨folded, left, h⟩ => ⟨folded, left, .skip hmem h⟩

end Rounds

/-! ### Stacks in turn -/

/-- What goes around the base are the first accents of the stack, in the order
of the rules; an accent of theirs that is left is the last of them, once more. -/
theorem turns_iff {as stack folded left : List (Char × String)} (hnodup : as.Nodup) :
    Turns as stack folded left ↔ stack = folded ++ left ∧ folded.Sublist as ∧
      ∀ a ∈ left, a ∈ as → folded.getLast? = some a ∧ ∃ back, left = a :: back ∧ a ∉ back := by
  constructor
  · intro h
    clear hnodup
    induction h with
    | done stack => exact ⟨rfl, .slnil, fun a _ ha => absurd ha List.not_mem_nil⟩
    | @skip a as stack folded left hmem _ ih =>
      obtain ⟨rfl, hsub, hleft⟩ := ih
      refine ⟨rfl, hsub.cons a, fun c hc hmem' => ?_⟩
      rcases List.mem_cons.mp hmem' with rfl | hmem'
      · exact absurd (List.mem_append_right _ hc) hmem
      · exact hleft c hc hmem'
    | @take a as stack folded left hmem _ ih =>
      obtain ⟨rfl, hsub, hleft⟩ := ih
      refine ⟨rfl, hsub.cons_cons a, fun c hc hmem' => ?_⟩
      rcases List.mem_cons.mp hmem' with rfl | hmem'
      · -- the accent is left after its own turn, so it was right behind itself
        cases folded with
        | cons d folded => exact absurd (by simp [hc]) hmem
        | nil =>
          obtain ⟨d, back, rfl⟩ := List.exists_cons_of_ne_nil (List.ne_nil_of_mem hc)
          obtain rfl : c = d := (List.mem_cons.mp hc).resolve_right hmem
          exact ⟨rfl, back, rfl, hmem⟩
      · obtain ⟨hlast, hback⟩ := hleft c hc hmem'
        exact ⟨by rw [List.getLast?_cons, hlast]; rfl, hback⟩
  · rintro ⟨rfl, hsub, hleft⟩
    induction as generalizing folded with
    | nil =>
      obtain rfl := List.sublist_nil.mp hsub
      exact .done left
    | cons a as ih =>
      obtain ⟨ha, hnodup⟩ := List.nodup_cons.mp hnodup
      rcases List.sublist_cons_iff.mp hsub with hsub' | ⟨folded, rfl, hsub'⟩
      · have hfolded : a ∉ folded := fun hmem => ha (hsub'.subset hmem)
        refine .skip (fun hmem => ?_) (ih hnodup hsub' fun c hc hmem =>
          hleft c hc (List.mem_cons_of_mem a hmem))
        rcases List.mem_append.mp hmem with hmem | hmem
        · exact hfolded hmem
        · exact hfolded (List.mem_of_getLast? (hleft a hmem List.mem_cons_self).1)
      · have hfolded : a ∉ folded := fun hmem => ha (hsub'.subset hmem)
        cases folded with
        | nil =>
          refine .take (fun hmem => ?_) (ih hnodup hsub' fun c hc hmem => ?_)
          · obtain ⟨-, back, rfl, hback⟩ := hleft a (List.mem_of_mem_tail hmem) List.mem_cons_self
            exact hback hmem
          · have hlast := (hleft c hc (List.mem_cons_of_mem a hmem)).1
            obtain rfl : a = c := by simpa using hlast
            exact absurd hmem ha
        | cons d folded =>
          refine .take (fun hmem => ?_) (ih hnodup hsub' fun c hc hmem => ?_)
          · rcases List.mem_append.mp hmem with hmem | hmem
            · exact hfolded (List.mem_cons_of_mem d hmem)
            · have hlast := (hleft a hmem List.mem_cons_self).1
              rw [List.getLast?_cons_cons] at hlast
              exact hfolded (List.mem_of_getLast? hlast)
          · have hlast := hleft c hc (List.mem_cons_of_mem a hmem)
            rwa [List.getLast?_cons_cons] at hlast

/-- A stack in the order of the rules: every accent once, except that the last
may stand there twice. -/
def InTurn (stack : List (Char × String)) : Prop :=
  ∃ front a, (front ++ [a]).Sublist accents ∧ (stack = front ++ [a] ∨ stack = front ++ [a, a])

theorem nodup_accents : accents.Nodup := by decide

theorem inTurn_of_turns {stack folded left : List (Char × String)} (hne : stack ≠ [])
    (hstack : ∀ a ∈ stack, a ∈ accents) (h : Turns accents stack folded left) : InTurn stack := by
  obtain ⟨rfl, hsub, hleft⟩ := (turns_iff nodup_accents).mp h
  cases left with
  | nil =>
    obtain ⟨front, a, rfl⟩ := (List.eq_nil_or_concat folded).resolve_left (by simpa using hne)
    rw [List.concat_eq_append] at hsub ⊢
    exact ⟨front, a, hsub, .inl (List.append_nil _)⟩
  | cons a left =>
    have hmem : ∀ c ∈ a :: left, c ∈ accents := fun c hc => hstack c (List.mem_append_right _ hc)
    obtain ⟨hlast, back, hback, hnot⟩ := hleft a List.mem_cons_self (hmem a List.mem_cons_self)
    obtain ⟨front, rfl⟩ := List.getLast?_eq_some_iff.mp hlast
    cases left with
    | nil => exact ⟨front, a, hsub, .inr (by simp)⟩
    | cons c left =>
      -- a second one left would have to stand at the head of what is left too
      have hc : c ∈ a :: c :: left := by simp
      obtain ⟨-, back', hback', hnot'⟩ := hleft c hc (hmem c hc)
      obtain ⟨rfl, rfl⟩ := List.cons.inj hback'
      exact absurd List.mem_cons_self hnot'

/-! ### The whole stack -/

/-- A base character with a stack of accents behind it. -/
def stacked (b : Char) (stack : List (Char × String)) : List Char := b :: spelledMarks stack

/-- A base in one group for each word, the first outermost. -/
def nested (words : List String) (base : List Char) : List Char := words.foldr accented base

/-- The text is the base character with its whole stack folded: in as many
nested groups as there are accents, a group for the word of each, and neither a
`csup` nor a mark is left. -/
structure IsFolded (b : Char) (stack : List (Char × String)) (s : List Char) : Prop where
  groups : ∃ words, words.Perm (stack.map (·.2)) ∧ s = nested words [b]
  no_csup : ¬ ['c', 's', 'u', 'p'] <:+: s
  no_mark : marks s = 0

theorem foldAccents_accentRound (s : List Char) : foldAccents (accentRound s) = foldAccents s := by
  by_cases h : accentRound s = s
  · rw [h]
  · have hstep : foldAccents s = foldAccents (accentRound s) := by rw [foldAccents, dif_neg h]
    exact hstep.symm

theorem foldAccents_of_noMarks {s : List Char} (h : marks s = 0) : foldAccents s = s := by
  rw [foldAccents]
  split
  · rfl
  · rename_i hround
    have hlt := marks_accentRound_lt hround
    omega

section Stacks

variable {b : Char} {stack : List (Char × String)} (hb : isBlank b = false)
  (hm : isMark b = false)

include hb hm

theorem foldAccents_of_turns {done folded left : List (Char × String)}
    (hdone : ∀ a ∈ done, a ∈ accents) (hstack : ∀ a ∈ stack, a ∈ accents)
    (h : Turns accents stack folded left) :
    foldAccents (heaped b (done.map (·.2)) ++ spelledMarks stack) =
      foldAccents (heaped b ((done ++ folded).map (·.2)) ++ spelledMarks left) := by
  rw [← foldAccents_accentRound, accentRound, applyAll_of_turns hb hm hdone h (fun _ => id) hstack]

theorem foldAccents_heaped {done : List (Char × String)} (hdone : ∀ a ∈ done, a ∈ accents) :
    foldAccents (heaped b (done.map (·.2)) ++ spelledMarks []) = heaped b (done.map (·.2)) := by
  have hnil : spelledMarks [] = [] := rfl
  rw [hnil, List.append_nil, foldAccents_of_noMarks (isTop_heaped hb hm hdone).marks_eq_zero]

/-- A stack in turn is used up: in one round, or in two if the last accent is
there twice. -/
theorem foldAccents_inTurn (h : InTurn stack) :
    foldAccents (stacked b stack) = heaped b (stack.map (·.2)) := by
  obtain ⟨front, a, hsub, hstack⟩ := h
  have hfront : ∀ q ∈ front ++ [a], q ∈ accents := fun q hq => hsub.subset hq
  have ha : ∀ q ∈ [a], q ∈ accents := fun q hq => hfront q (List.mem_append_right _ hq)
  have hnone : ∀ q ∈ ([] : List (Char × String)), q ∈ accents := List.forall_mem_nil _
  have hstart : stacked b stack =
      heaped b (([] : List (Char × String)).map (·.2)) ++ spelledMarks stack := rfl
  rw [hstart]
  rcases hstack with rfl | rfl
  · have hturns : Turns accents (front ++ [a]) (front ++ [a]) [] :=
      (turns_iff nodup_accents).mpr ⟨by simp, hsub, by simp⟩
    rw [foldAccents_of_turns hb hm hnone hfront hturns, List.nil_append,
      foldAccents_heaped hb hm hfront]
  · have hturns : Turns accents (front ++ [a, a]) (front ++ [a]) [a] :=
      (turns_iff nodup_accents).mpr ⟨by simp, hsub, by simp⟩
    have hturns' : Turns accents [a] [a] [] :=
      (turns_iff nodup_accents).mpr ⟨rfl, List.singleton_sublist.mpr (ha a (by simp)), by simp⟩
    have hstack' : ∀ q ∈ front ++ [a, a], q ∈ accents := by
      intro q hq
      exact hfront q (by simp at hq ⊢; exact hq)
    have hall : ∀ q ∈ front ++ [a] ++ [a], q ∈ accents := List.forall_mem_append.mpr ⟨hfront, ha⟩
    rw [foldAccents_of_turns hb hm hnone hstack' hturns, List.nil_append,
      foldAccents_of_turns hb hm hfront ha hturns', foldAccents_heaped hb hm hall]
    simp

/-- **The marks of a stack are used up if and only if it is in turn.** -/
theorem marks_foldAccents_eq_zero_iff (hne : stack ≠ []) (hstack : ∀ a ∈ stack, a ∈ accents) :
    marks (foldAccents (stacked b stack)) = 0 ↔ InTurn stack := by
  constructor
  · intro hzero
    have hnone : ∀ q ∈ ([] : List (Char × String)), q ∈ accents := List.forall_mem_nil _
    rcases hasLooseMark_or_turns hb hm hnone (fun _ => id) hstack with
      hloose | ⟨folded, left, hturns⟩
    · have hmark := hloose.foldAccents.marks_ne_zero
      change marks (foldAccents (accentRound (stacked b stack))) ≠ 0 at hmark
      rw [foldAccents_accentRound] at hmark
      exact absurd hzero hmark
    · exact inTurn_of_turns hne hstack hturns
  · intro h
    rw [foldAccents_inTurn hb hm h]
    exact (isTop_heaped hb hm hstack).marks_eq_zero

end Stacks

/-! ### Nested groups -/

theorem nested_cons (word : String) (words : List String) (base : List Char) :
    nested (word :: words) base = ('{' :: word.toList) ++ ' ' :: (nested words base ++ ['}']) := by
  simp [nested, accented]

theorem no_csup_nested {words : List String} (hwords : ∀ word ∈ words, 'p' ∉ word.toList)
    (b : Char) : ¬ ['c', 's', 'u', 'p'] <:+: nested words [b] := by
  have hshort : ∀ s : List Char, s.length ≤ 1 → ¬ ['c', 's', 'u', 'p'] <:+: s := by
    intro s hs h
    have hle := h.length_le
    simp only [List.length_cons, List.length_nil] at hle
    omega
  induction words with
  | nil => exact hshort [b] (Nat.le_refl 1)
  | cons word words ih =>
    intro h
    rw [nested_cons] at h
    rcases infix_append_cons (by decide) h with h | h
    · rcases infix_append_cons (s := []) (by decide) h with h | h
      · exact hshort [] (Nat.zero_le 1) h
      · exact hwords word List.mem_cons_self (h.subset (by decide))
    · rcases infix_append_cons (by decide) h with h | h
      · exact ih (fun w hw => hwords w (List.mem_cons_of_mem word hw)) h
      · exact hshort [] (Nat.zero_le 1) h

/-- Three nested groups end in their base and three braces. -/
theorem nested_end {b : Char} (hb : isBlank b = false) {words : List String}
    (h : 3 ≤ words.length) :
    ∃ s c, isBlank c = false ∧ nested words [b] = s ++ [c, '}', '}', '}'] := by
  match words with
  | first :: second :: third :: words =>
    have hinner : ∃ s c, isBlank c = false ∧ nested words [b] = s ++ [c] := by
      cases words with
      | nil => exact ⟨[], b, hb, rfl⟩
      | cons word words =>
        exact ⟨'{' :: word.toList ++ ' ' :: nested words [b], '}', by decide, by simp [nested_cons]⟩
    obtain ⟨s, c, hc, hs⟩ := hinner
    exact ⟨'{' :: first.toList ++ ' ' :: '{' :: second.toList ++ ' ' :: '{' :: third.toList ++
      ' ' :: s, c, hc, by simp [nested_cons, hs]⟩

/-- The third accent goes around no base: a space stands before its brace. -/
theorem heaped_end (b : Char) {words : List String} (h : 3 ≤ words.length) :
    ∃ s, heaped b words = s ++ [' ', '}', '}', '}'] := by
  match words with
  | first :: second :: third :: words =>
    obtain ⟨front, word, hwords⟩ :=
      (List.eq_nil_or_concat (third :: words)).resolve_left (List.cons_ne_nil _ _)
    rw [hwords]
    exact ⟨'{' :: first.toList ++ ' ' :: '{' :: second.toList ++ ' ' :: b ::
      front.flatMap (fun word => accented word []) ++ '{' :: word.toList,
      by simp [heaped, accented]⟩

/-- **When a stack is folded.** The marks of a stack are used up if and only if
the stack is in the order of the rules, every accent once, except that the last
may stand there twice; then the text is the heap of the accents. That is the
whole stack folded, in a group for each accent, if there are at most two. -/
theorem stack_folds_iff {b : Char} (hb : isBlank b = false) (hm : isMark b = false)
    {stack : List (Char × String)} (hne : stack ≠ []) (hstack : ∀ a ∈ stack, a ∈ accents) :
    (IsFolded b stack (foldAccents (stacked b stack)) ↔ InTurn stack ∧ stack.length ≤ 2) ∧
      (marks (foldAccents (stacked b stack)) = 0 ↔ InTurn stack) ∧
      (InTurn stack → foldAccents (stacked b stack) = heaped b (stack.map (·.2))) := by
  have hmarks := marks_foldAccents_eq_zero_iff hb hm hne hstack
  refine ⟨⟨fun h => ?_, fun ⟨h, hlength⟩ => ?_⟩, hmarks, foldAccents_inTurn hb hm⟩
  · have hturn := hmarks.mp h.no_mark
    refine ⟨hturn, Nat.not_lt.mp fun hlong => ?_⟩
    obtain ⟨words, hwords, hnested⟩ := h.groups
    rw [foldAccents_inTurn hb hm hturn] at hnested
    -- the fourth character from the end is a space in the one text, and none in the other
    have hheap : 3 ≤ (stack.map (·.2)).length := by rw [List.length_map]; exact hlong
    have hwords' : 3 ≤ words.length := by rw [hwords.length_eq]; exact hheap
    obtain ⟨s, hs⟩ := heaped_end b hheap
    obtain ⟨s', c, hc, hs'⟩ := nested_end hb hwords'
    rw [hs, hs'] at hnested
    have hlast := (List.append_inj' hnested rfl).2
    obtain rfl : ' ' = c := (List.cons.inj hlast).1
    exact absurd hc (by decide)
  · have hnested : foldAccents (stacked b stack) = nested (stack.map (·.2)) [b] := by
      rw [foldAccents_inTurn hb hm h]
      match stack with
      | [] => rfl
      | [a] => rfl
      | [a, c] => simp [heaped, nested, accented]
      | a :: c :: d :: stack => simp at hlength
    refine ⟨⟨_, .refl _, hnested⟩, ?_, hmarks.mpr h⟩
    rw [hnested]
    refine no_csup_nested (fun word hword => ?_) b
    obtain ⟨a, ha, rfl⟩ := List.mem_map.mp hword
    have hwords : ∀ a ∈ accents, 'p' ∉ a.2.toList := by decide
    exact hwords a (hstack a ha)

/-- The same accent three times. -/
def threeGraves : List (Char × String) := List.replicate 3 ('\u0300', "grave")

/-- The first three accents, in the order of the rules. -/
def firstThree : List (Char × String) := accents.take 3

/-- Of three graves the third is put around the mark of the second, and the
`csup` before that mark stays. Of the first three accents the third is put
around nothing. -/
theorem not_folded_threeDeep :
    isBlank 'a' = false ∧ isMark 'a' = false ∧
    (∀ a ∈ threeGraves ++ firstThree, a ∈ accents) ∧
    stacked 'a' threeGraves = "a csup \u0300 csup \u0300 csup \u0300".toList ∧
    foldAccents (stacked 'a' threeGraves) = "{grave a} csup \x7bgrave \u0300\x7d".toList ∧
    ¬ IsFolded 'a' threeGraves (foldAccents (stacked 'a' threeGraves)) ∧
    stacked 'a' firstThree = "a csup \u0300 csup \u0301 csup \u0302".toList ∧
    foldAccents (stacked 'a' firstThree) = "{grave {acute a{hat }}}".toList ∧
    ¬ IsFolded 'a' firstThree (foldAccents (stacked 'a' firstThree)) := by
  have hfirst : foldAccents (stacked 'a' firstThree) = "{grave {acute a{hat }}}".toList := by
    decide +kernel
  refine ⟨by decide, by decide, by decide, by decide, by decide +kernel, fun h => ?_, by decide,
    hfirst, fun h => ?_⟩
  · exact absurd h.no_mark (by decide +kernel)
  · obtain ⟨words, hwords, hnested⟩ := h.groups
    have hthree : 3 ≤ words.length := by rw [hwords.length_eq]; decide
    obtain ⟨s, c, hc, hs⟩ := nested_end (b := 'a') (by decide) hthree
    have hend : "{grave {acute a{hat }}}".toList =
      "\x7bgrave \x7bacute a\x7bhat".toList ++ [' ', '}', '}', '}'] := by decide
    rw [hfirst, hend, hs] at hnested
    obtain rfl : ' ' = c := (List.cons.inj (List.append_inj' hnested rfl).2).1
    exact absurd hc (by decide)

/-- Two accents in the order of the rules fold, the other way round they do not. -/
theorem folds_hatTilde :
    let stack := [('\u0302', "hat"), ('\u0303', "tilde")]
    let turned := [('\u0303', "tilde"), ('\u0302', "hat")]
    IsFolded 'x' stack (foldAccents (stacked 'x' stack)) ∧
      foldAccents (stacked 'x' stack) = "{hat {tilde x}}".toList ∧
      ¬ InTurn turned ∧ ¬ IsFolded 'x' turned (foldAccents (stacked 'x' turned)) := by
  intro stack turned
  have hb : isBlank 'x' = false := by decide
  have hm : isMark 'x' = false := by decide
  have hturn : InTurn stack := ⟨[('\u0302', "hat")], ('\u0303', "tilde"), by decide, .inl rfl⟩
  have hstack : ∀ a ∈ stack, a ∈ accents := by decide
  have hturned : ∀ a ∈ turned, a ∈ accents := by decide
  obtain ⟨hfolded, -, hheap⟩ := stack_folds_iff hb hm (List.cons_ne_nil _ _) hstack
  obtain ⟨hfolded', hmarks, -⟩ := stack_folds_iff hb hm (List.cons_ne_nil _ _) hturned
  have hnot : ¬ InTurn turned := fun h => absurd (hmarks.mpr h) (by decide +kernel)
  refine ⟨hfolded.mpr ⟨hturn, by decide⟩, ?_, hnot, fun h => hnot (hfolded'.mp h).1⟩
  rw [hheap hturn]
  decide

end Compositor.Formula
