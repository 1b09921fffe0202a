/-
# Tokens that are found, and tokens that are read

A token found in a text, taken by itself, reads as the same token. So each
occurrence that one of the patterns for tokens finds is the text of exactly
one token, and that token is what the occurrence reads as.

Key definitions: `Token.IsWellFormed`, `FindsTokens`.
Key theorems: `parse?_raw`, `findsTokens_macroPattern`,
`findsTokens_includePattern`, `findsTokens_mainTextPattern`.
-/
import Compositor.Macro.Token
import Compositor.Proofs.Text.Occurrences
import Compositor.Text.Blank

namespace Compositor.Macro
open Text

/-- A name of name characters, at least one of them, and an argument in one
line. -/
structure Token.IsWellFormed (t : Token) : Prop where
  name_ne : t.name.toList ≠ []
  name_chars : ∀ c ∈ t.name.toList, isNameChar c = true
  argument_line : ∀ argument ∈ t.argument, '\n' ∉ argument.toList

theorem not_mem_of_argument? {s argument rest : List Char}
    (h : argument? s = some (argument, rest)) : '\n' ∉ argument := by
  fun_induction argument? s generalizing argument rest with
  | case1 => cases h
  | case2 r => cases h; exact List.not_mem_nil
  | case3 => cases h
  | case4 c s _ hc ih =>
    obtain ⟨⟨a, r⟩, ha, he⟩ := Option.map_eq_some_iff.mp h
    cases he
    rw [List.mem_cons, not_or]
    exact ⟨fun he => hc he.symm, ih ha⟩

theorem isWellFormed_of_token? {s rest : List Char} {t : Token} (h : token? s = some (t, rest)) :
    t.IsWellFormed := by
  unfold token? at h
  split at h
  · rename_i s
    have hchars : ∀ c ∈ (splitName s).1, isNameChar c = true :=
      fun c hc => List.all_eq_true.mp List.all_takeWhile c hc
    simp only at h
    split at h
    · cases h
    · rename_i hne
      have hname : (splitName s).1 ≠ [] := by simpa using hne
      split at h
      · cases h
        refine ⟨?_, ?_, fun argument ha => nomatch ha⟩
        · rwa [String.toList_ofList]
        · rwa [String.toList_ofList]
      · obtain ⟨⟨a, r⟩, ha, he⟩ := Option.map_eq_some_iff.mp h
        cases he
        refine ⟨?_, ?_, ?_⟩
        · rwa [String.toList_ofList]
        · rwa [String.toList_ofList]
        · intro argument hargument
          obtain rfl := Option.some.inj hargument
          rw [String.toList_ofList]
          exact not_mem_of_argument? ha
      · cases h
  · cases h

theorem splitName_append_cons {name s : List Char} {c : Char}
    (h : ∀ c ∈ name, isNameChar c = true) (hc : isNameChar c = false) :
    splitName (name ++ c :: s) = (name, c :: s) := by
  have htake : (c :: s).takeWhile isNameChar = [] := by simp [hc]
  have hdrop : (c :: s).dropWhile isNameChar = c :: s := by simp [hc]
  rw [splitName, List.takeWhile_append_of_pos h, List.dropWhile_append_of_pos h, htake, hdrop,
    List.append_nil]

theorem wholeArgument?_append {argument : List Char} (h : '\n' ∉ argument) :
    wholeArgument? (argument ++ [')', '%']) = some argument := by
  have hreverse : (argument ++ [')', '%']).reverse = '%' :: ')' :: argument.reverse := by simp
  rw [wholeArgument?, hreverse]
  simp only [List.mem_reverse, h, if_false, List.reverse_reverse]

/-- What a token looks like in a text reads as the token. -/
theorem Token.parse?_raw {t : Token} (h : t.IsWellFormed) : Token.parse? t.raw = some t := by
  obtain ⟨name, argument?⟩ := t
  obtain ⟨hne, hchars, hline⟩ := h
  cases argument? with
  | none =>
    have hsplit := splitName_append_cons (s := []) hchars (by decide : isNameChar '%' = false)
    unfold Token.parse? raw chars keyChars
    simp only [String.toList_ofList, List.cons_append, hsplit, List.isEmpty_iff, hne, if_false,
      String.ofList_toList]
  | some argument =>
    have hsplit := splitName_append_cons (s := argument.toList ++ [')', '%']) hchars
      (by decide : isNameChar '(' = false)
    have hargument := wholeArgument?_append (hline argument rfl)
    unfold Token.parse? raw chars keyChars
    simp only [String.toList_ofList, List.cons_append, List.append_assoc, List.nil_append, hsplit,
      List.isEmpty_iff, hne, if_false, hargument, Option.map_some, String.ofList_toList]

theorem Token.not_allBlank_chars (t : Token) : allBlank t.chars = false := by
  have hpercent : isBlank '%' = false := by decide
  rw [chars, List.cons_append, allBlank, List.all_cons, hpercent, Bool.false_and]

/-! ### The patterns -/

/-- Every occurrence of the pattern is the text of a token, as which it reads. -/
def FindsTokens (p : Pattern) : Prop :=
  ∀ s, ∀ found ∈ (p.cut s).occurrences.map Occurrence.found,
    ∃ t, Token.parse? (String.ofList found) = some t ∧ t.chars = found

theorem findsTokens_macroPattern : FindsTokens macroPattern := by
  intro s found h
  obtain ⟨u, rest, hfind⟩ := find_of_mem_cutBy h
  obtain ⟨⟨t, r⟩, ht, he⟩ := Option.map_eq_some_iff.mp hfind
  cases he
  exact ⟨t, Token.parse?_raw (isWellFormed_of_token? ht), rfl⟩

/-- The directive that includes a path. -/
def includeToken (argument : List Char) : Token := ⟨includeName, some (String.ofList argument)⟩

theorem isWellFormed_includeToken {argument : List Char} (h : '\n' ∉ argument) :
    (includeToken argument).IsWellFormed := by
  refine ⟨?_, fun c hc => ?_, ?_⟩
  · show "INCLUDE".toList ≠ []
    decide
  · have hall : "INCLUDE".toList.all isNameChar = true := by decide
    exact List.all_eq_true.mp hall c hc
  · intro a ha
    obtain rfl := Option.some.inj ha
    rwa [String.toList_ofList]

theorem exists_of_find_include {s found rest : List Char}
    (h : includeRecogniser.find s = some (found, rest)) :
    ∃ argument, '\n' ∉ argument ∧ found = (includeToken argument).chars := by
  simp only [includeRecogniser] at h
  obtain ⟨⟨a, r⟩, ha, he⟩ := Option.map_eq_some_iff.mp h
  obtain ⟨v, -, hv⟩ := Option.bind_eq_some_iff.mp ha
  obtain ⟨rfl, rfl⟩ := Prod.mk.inj he
  refine ⟨a, not_mem_of_argument? hv, ?_⟩
  have hstart : includeStart = '%' :: includeName.toList ++ ['('] := by decide
  simp only [hstart, Token.chars, Token.keyChars, includeToken, String.toList_ofList,
    List.cons_append, List.append_assoc, List.nil_append]

theorem findsTokens_includePattern : FindsTokens includePattern := by
  intro s found h
  obtain ⟨u, rest, hfind⟩ := find_of_mem_cutBy h
  obtain ⟨argument, hline, rfl⟩ := exists_of_find_include hfind
  exact ⟨includeToken argument, Token.parse?_raw (isWellFormed_includeToken hline), rfl⟩

theorem findsTokens_mainTextPattern : FindsTokens mainTextPattern := by
  intro s found h
  obtain rfl := eq_of_mem_cut_literal (by decide) h
  refine ⟨⟨mainTextName, none⟩, Token.parse?_raw ⟨by decide, ?_, fun a ha => nomatch ha⟩, rfl⟩
  have hall : "MAIN_TEXT".toList.all isNameChar = true := by decide
  exact fun c hc => List.all_eq_true.mp hall c hc

end Compositor.Macro
