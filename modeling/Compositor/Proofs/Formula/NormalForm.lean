/-
# The normal form of a formula

A repaired formula is in normal form: no rule of the repair matches anywhere
in it, and none of its characters has a spelling. No phase undoes an earlier
one. What the keyword and operator rules put in starts no match of any rule,
and no match runs across it; a spelling is a closed group, so a match ends
before it or after it. So every phase leaves a repaired formula as it is, and
so does the repair.

Key definition: `IsNormal`.
Key theorems: `isNormal_repairText`, `IsNormal.repairText_eq`, `repair_repair`,
`repair_normalForm`.
-/
import Compositor.Formula.Repair
import Compositor.Proofs.Formula.Matches
import Compositor.Proofs.Formula.Spelling

namespace Compositor.Formula
open Text

/-- Nothing is left to repair in the text: no rule matches anywhere, and no
character has a spelling. -/
structure IsNormal (s : List Char) : Prop where
  accents : ∀ a ∈ accents, (accentRule a.1 a.2).Clear s
  keywords : ∀ r ∈ keywordRules, r.Clear s
  symbols : ∀ c ∈ s, spelling? c = none
  left : leftRule.Clear s
  right : rightRule.Clear s

/-! ### What a phase leaves as it is -/

theorem applyAll_eq_self_of_clear {rules : List Rule} {s : List Char}
    (h : ∀ r ∈ rules, r.Clear s) : applyAll rules s = s := by
  induction rules with
  | nil => rfl
  | cons r rules ih =>
    change applyAll rules (r.apply s) = s
    rw [Rule.apply_eq_self_of_clear (h r (by simp))]
    exact ih fun q hq => h q (by simp [hq])

theorem spellSymbols_eq_self {s : List Char} (h : ∀ c ∈ s, spelling? c = none) :
    spellSymbols s = s := by
  induction s with
  | nil => rfl
  | cons c s ih =>
    have hs := ih fun a ha => h a (List.mem_cons_of_mem c ha)
    simp only [spellSymbols, List.flatMap_cons, h c (by simp)] at hs ⊢
    simpa using hs

namespace IsNormal

variable {s : List Char}

theorem foldAccents_eq (h : IsNormal s) : foldAccents s = s := by
  have hround : accentRound s = s := applyAll_eq_self_of_clear fun r hr => by
    obtain ⟨a, ha, rfl⟩ := List.mem_map.mp hr
    exact h.accents a ha
  rw [foldAccents, dif_pos hround]

theorem fixKeywords_eq (h : IsNormal s) : fixKeywords s = s := applyAll_eq_self_of_clear h.keywords

theorem spellSymbols_eq (h : IsNormal s) : spellSymbols s = s := spellSymbols_eq_self h.symbols

theorem fixOperators_eq (h : IsNormal s) : fixOperators s = s := by
  rw [fixOperators, Rule.apply_eq_self_of_clear h.left, Rule.apply_eq_self_of_clear h.right]

theorem repairText_eq (h : IsNormal s) : repairText s = s := by
  rw [repairText, h.foldAccents_eq, h.fixKeywords_eq, h.spellSymbols_eq, h.fixOperators_eq]

end IsNormal

/-! ### Accents

The rounds stop at a text that no round changes, and a match always changes
the text: it uses up a mark. -/

theorem avoids_foldAccents {a : Char × String} (ha : a ∈ accents) (s : List Char) :
    Avoids (IsAccentMatch a.1) (foldAccents s) := by
  have hmark : ∀ b ∈ accents, ∀ {s put rest}, (accentRule b.1 b.2).hit s = some (put, rest) →
      put.countP isMark + rest.countP isMark < s.countP isMark := by
    intro b hb s put rest hit
    have hw : ∀ a ∈ accents, marks a.2.toList = 0 := by decide
    exact marks_accentHit (isMark_of_mem hb) (hw b hb) hit
  rw [← accentRule_reads a.2 (isBlank_of_isMark (isMark_of_mem ha))]
  fun_induction foldAccents s with
  | case1 s hround =>
    refine Rule.clear_of_apply_eq_self isMark rfl (hmark a ha) ?_
    refine Rule.apply_eq_self_of_applyAll_eq_self isMark ?_ hround _ (List.mem_map_of_mem ha)
    intro r hr
    obtain ⟨b, hb, rfl⟩ := List.mem_map.mp hr
    exact Rule.apply_eq_or_countP_lt _ isMark (hmark b hb)
  | case2 s _ ih => exact ih

/-! ### Keywords

The rules put `l` or `r` before the `line` of `mline`. -/

theorem leftKeyword_widens :
    (keywordRule "left" "left lline").Widens ["left".toList] 'l' [] [['l', 'i', 'n', 'e']] :=
  keywordRule_widens (by decide)

theorem rightKeyword_widens :
    (keywordRule "right" "right rline").Widens ["right".toList] 'r' [] [['l', 'i', 'n', 'e']] :=
  keywordRule_widens (by decide)

theorem not_isKeywordMatch_nil {side : List Char} : ¬ IsKeywordMatch side [] := by
  rintro ⟨gap, -, -, h⟩
  simp at h

/-- The new text of a keyword rule, and what is behind it. -/
theorem keyword_new {d : Char} {n last : List Char} (hn : n ≠ []) (h : n <:+ [d])
    (hl : last ∈ [['l', 'i', 'n', 'e']]) : n ++ last = [d, 'l', 'i', 'n', 'e'] := by
  simp only [List.suffix_cons_iff, List.suffix_nil, hn, or_false] at h
  simp only [List.mem_singleton] at hl
  rw [h, hl]
  rfl

/-- What avoids a set before the keywords are corrected avoids it after, if
no member runs into or starts with `lline` or `rline`. -/
theorem avoids_fixKeywords {L : List Char → Prop} (hnil : ¬ L [])
    (hL : ∀ z, L z → Unbroken 'l' z ∧ Unbroken 'r' z)
    (hnew : ∀ x z, L z →
      ¬ z <+: ['l', 'l', 'i', 'n', 'e'] ++ x ∧ ¬ z <+: ['r', 'l', 'i', 'n', 'e'] ++ x)
    {s : List Char} (hs : Avoids L s) : Avoids L (fixKeywords s) := by
  have h1 := Rule.avoids_apply leftKeyword_widens (fun z hz => (hL z hz).1) hnil
    (fun n last x z hn h hl hz => keyword_new hn h hl ▸ (hnew x z hz).1) hs
  exact Rule.avoids_apply rightKeyword_widens (fun z hz => (hL z hz).2) hnil
    (fun n last x z hn h hl hz => keyword_new hn h hl ▸ (hnew x z hz).2) h1

/-- A keyword rule leaves no match of its own. -/
theorem clear_keyword_self {side put : String} {d : Char}
    (hr : (keywordRule side put).Widens [side.toList] d [] [['l', 'i', 'n', 'e']])
    (hd : isBlank d = false) (hdm : d ≠ 'm') (hside : ' ' ∉ side.toList) (hm : 'm' ∉ side.toList)
    (hnew : ∀ w x, w ≠ [] → w <:+ [d, 'l', 'i', 'n', 'e'] →
      keywordHit side.toList put.toList (w ++ x) = none) (s : List Char) :
    (keywordRule side put).Clear ((keywordRule side put).apply s) := by
  have hfind : ∀ {s z}, IsKeywordMatch side.toList z → z <+: s →
      (keywordRule side put).hit s ≠ none := keywordHit_ne_none _
  refine Rule.clear_apply_self (keywordRule_reads side put) hr
    (fun z hz => hz.unbroken hd hdm hside) not_isKeywordMatch_nil ?_ ?_ ?_ hfind s
  · intro head hhead z hz hzs
    obtain ⟨gap, -, -, rfl⟩ := hz
    rw [List.mem_singleton.mp hhead] at hzs
    exact hm (hzs.subset (by simp))
  · intro n last x z hn h hl hz hzs
    rw [keyword_new hn h hl] at hzs
    exact hfind hz hzs (hnew _ x (by simp) (List.suffix_refl _))
  · intro w last x z hw h hl hz hzs
    rw [List.mem_singleton.mp hl] at h
    exact hfind hz hzs (hnew w x hw (h.trans (List.suffix_cons d _)))

theorem clear_fixKeywords (s : List Char) : ∀ r ∈ keywordRules, r.Clear (fixKeywords s) := by
  have hsuffix : ∀ {w : List Char} {d : Char}, w ≠ [] → w <:+ [d, 'l', 'i', 'n', 'e'] →
      w = [d, 'l', 'i', 'n', 'e'] ∨ w = ['l', 'i', 'n', 'e'] ∨ w = ['i', 'n', 'e'] ∨
        w = ['n', 'e'] ∨ w = ['e'] := by
    intro w d hw h
    simpa only [List.suffix_cons_iff, List.suffix_nil, hw, or_false] using h
  have hl := clear_keyword_self leftKeyword_widens (by decide) (by decide) (by decide) (by decide)
    (fun w x hw h => by rcases hsuffix hw h with rfl | rfl | rfl | rfl | rfl <;> rfl) s
  have hr := clear_keyword_self rightKeyword_widens (by decide) (by decide) (by decide) (by decide)
    (fun w x hw h => by rcases hsuffix hw h with rfl | rfl | rfl | rfl | rfl <;> rfl)
    ((keywordRule "left" "left lline").apply s)
  intro r h
  simp only [keywordRules, List.mem_cons, List.not_mem_nil, or_false] at h
  rcases h with rfl | rfl
  · rw [keywordRule_reads] at hl ⊢
    refine Rule.avoids_apply rightKeyword_widens
      (fun z hz => hz.unbroken (by decide) (by decide) (by decide)) not_isKeywordMatch_nil ?_ hl
    intro n last x z hn h hlast hz hzs
    rw [keyword_new hn h hlast] at hzs
    exact keywordHit_ne_none [] hz hzs rfl
  · exact hr

/-! ### Operators

Both rules put an empty group between the two tokens. -/

/-- The new text of an operator rule from any place on, with the token behind
it. -/
theorem operator_new {n : List Char} (hn : n ≠ []) (h : n <:+ ['{', '}', ' ']) :
    n = ['{', '}', ' '] ∨ n = ['}', ' '] ∨ n = [' '] := by
  simpa only [List.suffix_cons_iff, List.suffix_nil, hn, or_false] using h

/-- What avoids a set before operators are completed avoids it after, if no
member starts in the empty group. -/
theorem avoids_fixOperators {L : List Char → Prop} (hnil : ¬ L []) (hL : ∀ z, L z → Unbroken '{' z)
    (hnew : ∀ n last x z, n ≠ [] → n <:+ ['{', '}', ' '] →
      last ∈ leftOperators ++ [['#'], ['}']] → L z → ¬ z <+: n ++ last ++ x)
    {s : List Char} (hs : Avoids L s) : Avoids L (fixOperators s) := by
  have h1 := Rule.avoids_apply leftRule_widens hL hnil
    (fun n last x z hn h hl => hnew n last x z hn h (List.mem_append_left _ hl)) hs
  exact Rule.avoids_apply rightRule_widens hL hnil
    (fun n last x z hn h hl => hnew n last x z hn h (List.mem_append_right _ hl)) h1

/-- The operators that cannot open an expression, letter by letter. -/
theorem leftOperators_eq : leftOperators =
    [['*'], ['/'], ['&'], ['|'], ['='], ['<'], ['>'], [','], ['c', 'd', 'o', 't'],
      ['t', 'i', 'm', 'e', 's'], ['d', 'i', 'v']] := by
  decide

theorem leftHit_empty_group {n : List Char} (hn : n ≠ []) (h : n <:+ ['{', '}', ' '])
    (x : List Char) : leftHit (n ++ x) = none := by
  rcases operator_new hn h with rfl | rfl | rfl <;> rfl

theorem rightHit_empty_group {n : List Char} (hn : n ≠ []) (h : n <:+ ['{', '}', ' '])
    (x : List Char) : rightHit (n ++ x) = none := by
  rcases operator_new hn h with rfl | rfl | rfl <;> rfl

theorem clear_leftRule_apply (s : List Char) : leftRule.Clear (leftRule.apply s) := by
  have hsign : ∀ op ∈ leftOperators, op ≠ [] ∧ '#' ∉ op ∧ '{' ∉ op := by decide
  refine Rule.clear_apply_self leftRule_reads leftRule_widens (fun _ hz => hz.unbroken) ?_ ?_ ?_ ?_
    leftHit_ne_none s
  · rintro ⟨c, gap, op, -, -, -, h⟩
    cases h
  · rintro head hhead z ⟨c, gap, op, -, -, hop, rfl⟩ hzs
    have hlen := hzs.length_le
    have hpos := List.length_pos_iff.mpr (hsign op hop).1
    have hone : head.length = 1 := by
      simp only [List.mem_cons, List.not_mem_nil, or_false] at hhead
      rcases hhead with rfl | rfl <;> rfl
    simp only [List.length_cons, List.length_append] at hlen
    omega
  · intro n last x z hn h _ hz hzs
    exact leftHit_ne_none hz hzs (by rw [List.append_assoc]; exact leftHit_empty_group hn h _)
  · rintro w last x z hw hwl hlast ⟨c, gap, op, hc, -, -, rfl⟩ hzs
    obtain ⟨e, w, rfl⟩ := List.exists_cons_of_ne_nil hw
    obtain rfl : c = e := (List.cons_prefix_cons.mp hzs).1
    have hmem : c ∈ last := hwl.subset (by simp)
    rcases hc with rfl | rfl
    · exact (hsign last hlast).2.1 hmem
    · exact (hsign last hlast).2.2 hmem

theorem clear_rightRule_apply (s : List Char) : rightRule.Clear (rightRule.apply s) := by
  have hsign : ∀ op ∈ rightOperators, op ≠ [] ∧ '#' ∉ op ∧ '}' ∉ op := by decide
  refine Rule.clear_apply_self rightRule_reads rightRule_widens (fun _ hz => hz.unbroken)
    ?_ ?_ ?_ ?_
    rightHit_ne_none s
  · rintro ⟨op, gap, c, -, -, -, h⟩
    simp at h
  · rintro head hhead z ⟨op, gap, c, -, -, hc, rfl⟩ hzs
    have hmem : c ∈ head := hzs.subset (by simp)
    rcases hc with rfl | rfl
    · exact (hsign head hhead).2.1 hmem
    · exact (hsign head hhead).2.2 hmem
  · intro n last x z hn h _ hz hzs
    exact rightHit_ne_none hz hzs (by rw [List.append_assoc]; exact rightHit_empty_group hn h _)
  · rintro w last x z hw hwl hlast ⟨op, gap, c, hop, -, -, rfl⟩ hzs
    obtain ⟨e, op, rfl⟩ := List.exists_cons_of_ne_nil (hsign op hop).1
    obtain ⟨a, w, rfl⟩ := List.exists_cons_of_ne_nil hw
    obtain rfl : e = a := (List.cons_prefix_cons.mp hzs).1
    have hmem : e ∈ last := hwl.subset (by simp)
    simp only [List.mem_cons, List.not_mem_nil, or_false] at hlast
    rcases hlast with rfl | rfl
    · exact (hsign _ hop).2.1 (by simp_all)
    · exact (hsign _ hop).2.2 (by simp_all)

theorem avoids_left_rightRule {s : List Char} (h : leftRule.Clear s) :
    leftRule.Clear (rightRule.apply s) := by
  rw [leftRule_reads] at h ⊢
  refine Rule.avoids_apply rightRule_widens (fun _ hz => hz.unbroken) ?_ ?_ h
  · rintro ⟨c, gap, op, -, -, -, h⟩
    cases h
  · intro n last x z hn hn' _ hz hzs
    exact leftHit_ne_none hz hzs (by rw [List.append_assoc]; exact leftHit_empty_group hn hn' _)

/-! ### What later phases keep

Accents and keywords start neither with what the later rules put in nor with
a closing brace, unless a letter would do as well. -/

/-- After the accents are folded, no later phase makes one. -/
theorem avoids_accent {a : Char × String} (ha : a ∈ accents) {s : List Char}
    (h : Avoids (IsAccentMatch a.1) s) :
    Avoids (IsAccentMatch a.1) (fixOperators (spellSymbols (fixKeywords s))) := by
  have hm := isBlank_of_isMark (isMark_of_mem ha)
  have hpoint : ∀ a ∈ accents, 0x80 ≤ a.1.toNat := by decide
  have hne : ∀ {d : Char}, d.toNat < 0x80 → d ≠ a.1 := by
    rintro d hd rfl
    have := hpoint a ha
    omega
  have hnil : ¬ IsAccentMatch a.1 [] := by
    rintro ⟨base, gap, gap', -, -, -, h⟩
    cases h
  have hfind : ∀ {s z}, IsAccentMatch a.1 z → z <+: s → accentHit a.1 a.2 s ≠ none :=
    fun hz h => accentHit_ne_none hm hz h
  refine avoids_fixOperators hnil (fun z hz => ?_) ?_ (avoids_spellSymbols hnil ?_ ?_ ?_
    (avoids_fixKeywords hnil (fun z hz => ⟨?_, ?_⟩) (fun x z hz => ⟨?_, ?_⟩) h))
  · exact hz.unbroken (by decide) (by decide) (hne (by decide)) hm
  · -- the base is a brace, and `csup` would be an operator or a sign
    intro n last x z hn hn' hlast hz hzs
    simp only [leftOperators_eq, List.mem_append, List.mem_cons, List.not_mem_nil, or_false]
      at hlast
    rcases operator_new hn hn' with rfl | rfl | rfl <;>
      rcases hlast with (rfl | rfl | rfl | rfl | rfl | rfl | rfl | rfl | rfl | rfl | rfl) |
        rfl | rfl <;> exact hfind hz hzs rfl
  · intro e z hz
    exact ⟨hz.not_mem (by decide) (by decide) (hne (by decide)),
      hz.not_mem (by decide) (by decide) (hne (by decide))⟩
  · rintro b hb z ⟨base, gap, gap', -, -, -, rfl⟩ hzb
    have := lt_of_mem_spelling hb (c := a.1) (hzb.subset (by simp))
    have := hpoint a ha
    omega
  · rintro b hb z ⟨base, gap, gap', -, hgap, hgap', h⟩
    obtain ⟨rfl, rfl⟩ := List.cons.inj h
    exact ⟨b.1, gap, gap', (symbolTable_point b hb).2, hgap, hgap', rfl⟩
  · exact hz.unbroken (by decide) (by decide) (hne (by decide)) hm
  · exact hz.unbroken (by decide) (by decide) (hne (by decide)) hm
  · exact fun hzs => hfind hz hzs rfl
  · exact fun hzs => hfind hz hzs rfl

/-- After the keywords are corrected, no later phase makes one. -/
theorem avoids_keyword {side : List Char} (hside : side = "left".toList ∨ side = "right".toList)
    {s : List Char} (h : Avoids (IsKeywordMatch side) s) :
    Avoids (IsKeywordMatch side) (fixOperators (spellSymbols s)) := by
  have hbrace : ' ' ∉ side ∧ '{' ∉ side ∧ '}' ∉ side := by rcases hside with rfl | rfl <;> decide
  have hhead : ∀ {n x z}, IsKeywordMatch side z → n ≠ [] → n <:+ ['{', '}', ' '] →
      ¬ z <+: n ++ x := by
    rintro n x z ⟨gap, -, -, rfl⟩ hn hn' hzs
    rcases operator_new hn hn' with rfl | rfl | rfl <;> rcases hside with rfl | rfl <;>
      exact absurd (List.cons_prefix_cons.mp hzs).1 (by decide)
  refine avoids_fixOperators not_isKeywordMatch_nil (fun z hz => ?_) ?_
    (avoids_spellSymbols not_isKeywordMatch_nil ?_ ?_ ?_ h)
  · exact hz.unbroken (by decide) (by decide) hbrace.1
  · intro n last x z hn hn' _ hz hzs
    exact hhead hz hn hn' (by rwa [List.append_assoc] at hzs)
  · intro e z hz
    exact ⟨hz.not_mem (by decide) hbrace.2.1 (by decide),
      hz.not_mem (by decide) hbrace.2.2 (by decide)⟩
  · rintro b hb z ⟨gap, -, -, rfl⟩ hzb
    obtain ⟨words, hw, he⟩ := spelling_braced hb
    have hall : ∀ c ∈ side ++ ['m', 'l', 'i', 'n', 'e'], c ≠ '{' → c ≠ '}' → c ∈ words := by
      intro c hc ho hcl
      have hmem : c ∈ side ++ gap ++ ['m', 'l', 'i', 'n', 'e'] := by
        rcases List.mem_append.mp hc with hc | hc
        · exact List.mem_append_left _ (List.mem_append_left _ hc)
        · exact List.mem_append_right _ hc
      simpa [he, braced, ho, hcl] using hzb.subset hmem
    apply hw.2
    rcases hside with rfl | rfl
    · exact ⟨hall _ (by decide) (by decide) (by decide), hall _ (by decide) (by decide) (by decide),
        .inl (hall _ (by decide) (by decide) (by decide))⟩
    · exact ⟨hall _ (by decide) (by decide) (by decide), hall _ (by decide) (by decide) (by decide),
        .inr ⟨hall _ (by decide) (by decide) (by decide),
          hall _ (by decide) (by decide) (by decide)⟩⟩
  · rintro b hb z ⟨gap, -, -, h⟩
    rcases hside with rfl | rfl <;> cases (List.cons.inj h).1

/-! ### The normal form -/

/-- A repaired text is in normal form. -/
theorem isNormal_repairText (s : List Char) : IsNormal (repairText s) where
  accents a ha := by
    rw [accentRule_reads _ (isBlank_of_isMark (isMark_of_mem ha))]
    exact avoids_accent ha (avoids_foldAccents ha s)
  keywords r hr := by
    have hclear := clear_fixKeywords (foldAccents s) r hr
    simp only [keywordRules, List.mem_cons, List.not_mem_nil, or_false] at hr
    rcases hr with rfl | rfl
    · rw [keywordRule_reads] at hclear ⊢
      exact avoids_keyword (.inl rfl) hclear
    · rw [keywordRule_reads] at hclear ⊢
      exact avoids_keyword (.inr rfl) hclear
  symbols c hc := by
    have hlow : [' ', '{', '}', ' '].all (fun c => c.toNat < 0x80) = true := by decide
    have hsign : ∀ c ∈ [' ', '{', '}', ' '], spelling? c = none :=
      fun c hc => spelling?_of_lt (of_decide_eq_true (List.all_eq_true.mp hlow c hc))
    rcases Rule.mem_of_mem_apply rightRule_widens hc with hc | hc
    · rcases Rule.mem_of_mem_apply leftRule_widens hc with hc | hc
      · exact spelling?_spellSymbols _ c hc
      · exact hsign c hc
    · exact hsign c hc
  left := avoids_left_rightRule (clear_leftRule_apply _)
  right := clear_rightRule_apply _

/-- A second repair changes nothing. -/
theorem repair_repair (formula : String) : repair (repair formula) = repair formula := by
  rw [repair, repair, String.toList_ofList, (isNormal_repairText formula.toList).repairText_eq]

/-- **Repair reaches a normal form.** No rule matches in a repaired formula
and no character of it has a spelling; so every phase leaves it as it is, and
so does a second repair. -/
theorem repair_normalForm (formula : String) :
    let repaired := repair formula
    IsNormal repaired.toList ∧ foldAccents repaired.toList = repaired.toList ∧
      fixKeywords repaired.toList = repaired.toList ∧
      spellSymbols repaired.toList = repaired.toList ∧
      fixOperators repaired.toList = repaired.toList ∧ repair repaired = repaired := by
  have h : IsNormal (repair formula).toList := by
    rw [repair, String.toList_ofList]
    exact isNormal_repairText formula.toList
  refine ⟨h, h.foldAccents_eq, h.fixKeywords_eq, h.spellSymbols_eq, h.fixOperators_eq, ?_⟩
  rw [repair, h.repairText_eq, String.ofList_toList]

end Compositor.Formula
