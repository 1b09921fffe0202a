/-
# Groups of a repaired formula

Braces make groups. The depth of a text is the number of its opening braces
less the number of its closing ones; a text is balanced if its depth is zero
and no stretch from its start has a depth below. Every phase of the repair puts
braces in, and an accent may even put them around a brace that closes another
group. But what stands in the place of a match ends as deep as the match did,
and is nowhere lower than the match was somewhere; so it is with the whole text.

Key definitions: `depth`, `lowest`, `IsBalanced`, `KeepsGroups`.
Key theorems: `le_lowest_iff`, `lowest_append`, `keepsGroups_accented`,
`keepsGroups_foldAccents`, `repair_keeps_groups`.
-/
import Compositor.Proofs.Formula.Spelling
import Compositor.Proofs.Formula.Matches
import Compositor.Proofs.Text.Rewriting
import Compositor.Formula.Repair

namespace Compositor.Formula
open Text

/-- The number of opening braces less the number of closing ones. -/
def depth (s : List Char) : Int := s.count '{' - s.count '}'

/-- The least depth of a stretch from the start of the text. -/
def lowest : List Char → Int
  | [] => 0
  | c :: s => min 0 (depth [c] + lowest s)

/-- Every group is closed, and no brace closes a group that was not opened. -/
structure IsBalanced (s : List Char) : Prop where
  depth_eq : depth s = 0
  depth_nonneg : ∀ u, u <+: s → 0 ≤ depth u

/-! ### Depths -/

@[simp] theorem depth_nil : depth [] = 0 := rfl

@[simp] theorem depth_append (s t : List Char) : depth (s ++ t) = depth s + depth t := by
  simp only [depth, List.count_append]
  omega

theorem depth_cons (c : Char) (s : List Char) : depth (c :: s) = depth [c] + depth s :=
  depth_append [c] s

theorem lowest_le_zero (s : List Char) : lowest s ≤ 0 := by
  cases s with
  | nil => exact Int.le_refl 0
  | cons c s => exact Int.min_le_left _ _

theorem lowest_le_depth (s : List Char) : lowest s ≤ depth s := by
  induction s with
  | nil => exact Int.le_refl 0
  | cons c s ih =>
    rw [depth_cons, lowest]
    omega

theorem lowest_append (s t : List Char) :
    lowest (s ++ t) = min (lowest s) (depth s + lowest t) := by
  induction s with
  | nil =>
    have := lowest_le_zero t
    simp only [List.nil_append, lowest, depth_nil]
    omega
  | cons c s ih =>
    rw [List.cons_append, lowest, lowest, depth_cons c s, ih]
    omega

/-- The lowest depth is the greatest bound from below on the depths of all
stretches from the start. -/
theorem le_lowest_iff {k : Int} {s : List Char} : k ≤ lowest s ↔ ∀ u, u <+: s → k ≤ depth u := by
  constructor
  · rintro h u ⟨v, rfl⟩
    rw [lowest_append] at h
    have := lowest_le_depth u
    omega
  · intro h
    induction s generalizing k with
    | nil => exact h [] List.nil_prefix
    | cons c s ih =>
      have hnil : k ≤ 0 := h [] List.nil_prefix
      have hrest : k - depth [c] ≤ lowest s := by
        refine ih fun u hu => ?_
        have := h (c :: u) ((List.prefix_cons_inj c).mpr hu)
        rw [depth_cons] at this
        omega
      rw [lowest]
      omega

/-! ### Balanced texts -/

theorem isBalanced_iff {s : List Char} : IsBalanced s ↔ depth s = 0 ∧ lowest s = 0 := by
  constructor
  · intro h
    exact ⟨h.depth_eq, Int.le_antisymm (lowest_le_zero s) (le_lowest_iff.mpr h.depth_nonneg)⟩
  · rintro ⟨hd, hl⟩
    exact ⟨hd, le_lowest_iff.mp (Int.le_of_eq hl.symm)⟩

instance (s : List Char) : Decidable (IsBalanced s) := decidable_of_iff _ isBalanced_iff.symm

theorem IsBalanced.append {s t : List Char} (hs : IsBalanced s) (ht : IsBalanced t) :
    IsBalanced (s ++ t) := by
  rw [isBalanced_iff] at hs ht ⊢
  rw [depth_append, lowest_append]
  omega

theorem isBalanced_of_not_mem {s : List Char} (ho : '{' ∉ s) (hc : '}' ∉ s) : IsBalanced s := by
  have hdepth : ∀ u, u <+: s → depth u = 0 := fun u hu => by
    have ho' : u.count '{' = 0 := List.count_eq_zero.mpr fun h => ho (hu.subset h)
    have hc' : u.count '}' = 0 := List.count_eq_zero.mpr fun h => hc (hu.subset h)
    rw [depth, ho', hc']
    rfl
  exact ⟨hdepth s (List.prefix_refl s), fun u hu => Int.le_of_eq (hdepth u hu).symm⟩

/-- A group around a balanced text. -/
theorem isBalanced_braced {s : List Char} (hs : IsBalanced s) : IsBalanced (braced s) := by
  have hsplit : braced s = ['{'] ++ (s ++ ['}']) := rfl
  have ho : depth ['{'] = 1 ∧ lowest ['{'] = 0 := by decide
  have hc : depth ['}'] = -1 ∧ lowest ['}'] = -1 := by decide
  rw [isBalanced_iff] at hs ⊢
  rw [hsplit, depth_append, depth_append, lowest_append, lowest_append]
  omega

theorem isBalanced_of_blank {gap : List Char} (hgap : ∀ c ∈ gap, isBlank c = true) :
    IsBalanced gap :=
  isBalanced_of_not_mem (fun h => absurd (hgap _ h) (by decide))
    fun h => absurd (hgap _ h) (by decide)

/-! ### Texts that go as deep -/

/-- The second text ends as deep as the first, and is nowhere lower than the
first is somewhere. -/
structure KeepsGroups (s t : List Char) : Prop where
  depth_eq : depth t = depth s
  lowest_le : lowest s ≤ lowest t

namespace KeepsGroups

theorem refl (s : List Char) : KeepsGroups s s := ⟨rfl, Int.le_refl _⟩

theorem trans {s t u : List Char} (h : KeepsGroups s t) (h' : KeepsGroups t u) :
    KeepsGroups s u := ⟨h'.depth_eq.trans h.depth_eq, Int.le_trans h.lowest_le h'.lowest_le⟩

theorem append {s s' t t' : List Char} (h : KeepsGroups s s') (h' : KeepsGroups t t') :
    KeepsGroups (s ++ t) (s' ++ t') := by
  obtain ⟨hd, hl⟩ := h
  obtain ⟨hd', hl'⟩ := h'
  constructor
  · rw [depth_append, depth_append, hd, hd']
  · rw [lowest_append, lowest_append, hd]
    omega

theorem of_isBalanced {s t : List Char} (hs : IsBalanced s) (ht : IsBalanced t) :
    KeepsGroups s t := by
  rw [isBalanced_iff] at hs ht
  constructor
  · omega
  · omega

theorem isBalanced {s t : List Char} (h : KeepsGroups s t) (hs : IsBalanced s) : IsBalanced t := by
  obtain ⟨hd, hl⟩ := h
  have := lowest_le_zero t
  rw [isBalanced_iff] at hs ⊢
  omega

end KeepsGroups

/-! ### Accents -/

/-- A group around a base, which may hold any braces, in the place of the base
and a balanced text behind it. -/
theorem keepsGroups_accented {word : String} (hw : IsBalanced word.toList) (base : List Char)
    {z : List Char} (hz : IsBalanced z) : KeepsGroups (base ++ z) (accented word base) := by
  have hsplit : accented word base = ['{'] ++ (word.toList ++ ([' '] ++ (base ++ ['}']))) := by
    simp [accented]
  have ho : depth ['{'] = 1 ∧ lowest ['{'] = 0 := by decide
  have hs : depth [' '] = 0 ∧ lowest [' '] = 0 := by decide
  have hc : depth ['}'] = -1 ∧ lowest ['}'] = -1 := by decide
  have hle := lowest_le_depth base
  have hle' := lowest_le_zero base
  rw [isBalanced_iff] at hw hz
  rw [hsplit]
  constructor
  · simp only [depth_append]
    omega
  · simp only [lowest_append]
    omega

theorem keepsGroups_accentRule {a : Char × String} (ha : a ∈ accents) (s : List Char) :
    KeepsGroups s ((accentRule a.1 a.2).apply s) := by
  have hmark : ∀ a ∈ accents, '{' ≠ a.1 ∧ '}' ≠ a.1 := by decide
  have hword : ∀ a ∈ accents, IsBalanced a.2.toList := by decide
  obtain ⟨ho, hc⟩ := hmark a ha
  refine Rule.apply_rel .refl .append (fun {s put rest} h => ?_) s
  obtain ⟨base, gap, gap', -, hgap, hgap', rfl, rfl⟩ := accentHit_split h
  have hcsup : IsBalanced ['c', 's', 'u', 'p'] := by decide
  have hm : IsBalanced [a.1] := isBalanced_of_not_mem (by simpa using ho) (by simpa using hc)
  have hz :=
    (((isBalanced_of_blank hgap).append hcsup).append (isBalanced_of_blank hgap')).append hm
  exact ⟨_, by simp, keepsGroups_accented (hword a ha) base hz⟩

theorem keepsGroups_foldAccents (s : List Char) : KeepsGroups s (foldAccents s) := by
  fun_induction foldAccents s with
  | case1 s _ => exact .refl s
  | case2 s _ ih =>
    refine KeepsGroups.trans (applyAll_rel .refl .trans (fun r hr s => ?_) s) ih
    obtain ⟨a, ha, rfl⟩ := List.mem_map.mp hr
    exact keepsGroups_accentRule ha s

/-! ### The other phases

Their matches are balanced but for a sign that is kept, and so is what they
put. -/

theorem keepsGroups_keywordRule {side put : String} (hside : IsBalanced side.toList)
    (hput : IsBalanced put.toList) (s : List Char) :
    KeepsGroups s ((keywordRule side put).apply s) := by
  refine Rule.apply_rel .refl .append (fun {s out rest} h => ?_) s
  obtain ⟨rfl, z, ⟨gap, -, hgap, rfl⟩, rfl⟩ := keywordHit_split h
  have hline : IsBalanced ['m', 'l', 'i', 'n', 'e'] := by decide
  exact ⟨_, rfl, .of_isBalanced ((hside.append (isBalanced_of_blank hgap)).append hline) hput⟩

theorem keepsGroups_fixKeywords (s : List Char) : KeepsGroups s (fixKeywords s) := by
  refine applyAll_rel .refl .trans (fun r hr s => ?_) s
  simp only [keywordRules, List.mem_cons, List.not_mem_nil, or_false] at hr
  rcases hr with rfl | rfl
  · exact keepsGroups_keywordRule (by decide) (by decide) s
  · exact keepsGroups_keywordRule (by decide) (by decide) s

/-- Every spelling is one closed group. -/
theorem isBalanced_spelling {a : Char × List Char} (ha : a ∈ symbolTable) : IsBalanced a.2 := by
  have hstyle : ∀ style ∈ latinStyles, IsBalanced style.attributes.toList := by decide +kernel
  have hletter : '{' ∉ capitals ++ smalls ∧ '}' ∉ capitals ++ smalls := by decide
  have hgreek : ∀ letter ∈ (greekCapitals ++ greekSmalls).filterMap id,
      IsBalanced letter.upright.toList ∧ IsBalanced letter.italic.toList := by decide +kernel
  have hlatin : ∀ style ∈ latinStyles, ∀ letter ∈ capitals ++ smalls,
      IsBalanced (style.attributes.toList ++ [' ', letter]) := by
    intro style hs letter hl
    refine (hstyle style hs).append (isBalanced_of_not_mem ?_ ?_)
    · rintro h
      have he : '{' = letter := by simpa using h
      exact hletter.1 (he ▸ hl)
    · rintro h
      have he : '}' = letter := by simpa using h
      exact hletter.2 (he ▸ hl)
  have hbold : ∀ words : String, IsBalanced words.toList →
      IsBalanced ("bold " ++ words).toList := by
    intro words hw
    rw [String.toList_append]
    exact IsBalanced.append (by decide) hw
  obtain ⟨words, hw, he⟩ := spelling_braced_of hlatin hgreek hbold ha
  rw [he]
  exact isBalanced_braced hw

theorem keepsGroups_spellSymbols (s : List Char) : KeepsGroups s (spellSymbols s) := by
  induction s with
  | nil => exact .refl []
  | cons c s ih =>
    change KeepsGroups ([c] ++ s) ((spelling? c).getD [c] ++ spellSymbols s)
    refine KeepsGroups.append ?_ ih
    cases hp : spelling? c with
    | none =>
      rw [Option.getD_none]
      exact .refl [c]
    | some p =>
      rw [Option.getD_some]
      have hmem := mem_symbolTable_of_spelling? hp
      -- a brace has no spelling
      have hbrace : ∀ d : Char, spelling? d = none → d ∉ [c] := by
        rintro d hd h
        rw [List.mem_singleton.mp h, hp] at hd
        cases hd
      have hc := isBalanced_of_not_mem (hbrace '{' (spelling?_of_lt (by decide)))
        (hbrace '}' (spelling?_of_lt (by decide)))
      exact .of_isBalanced hc (isBalanced_spelling hmem)

/-- An empty group between two tokens, in the place of a gap. -/
theorem keepsGroups_spaced (left right : List Char) {gap : List Char}
    (hgap : ∀ c ∈ gap, isBlank c = true) :
    KeepsGroups (left ++ gap ++ right) (spaced left right) := by
  have hgroup : IsBalanced [' ', '{', '}', ' '] := by decide
  exact ((KeepsGroups.refl left).append (.of_isBalanced (isBalanced_of_blank hgap) hgroup)).append
    (.refl right)

theorem keepsGroups_fixOperators (s : List Char) : KeepsGroups s (fixOperators s) := by
  have hleft : KeepsGroups s (leftRule.apply s) := by
    refine Rule.apply_rel .refl .append (fun {s put rest} h => ?_) s
    obtain ⟨c, gap, op, -, hgap, -, rfl, rfl⟩ := leftHit_split h
    exact ⟨_, rfl, keepsGroups_spaced [c] op hgap⟩
  have hright : KeepsGroups (leftRule.apply s) (fixOperators s) := by
    refine Rule.apply_rel .refl .append (fun {s put rest} h => ?_) _
    obtain ⟨op, gap, c, -, hgap, -, rfl, rfl⟩ := rightHit_split h
    exact ⟨_, by rw [← List.append_assoc], keepsGroups_spaced op [c] hgap⟩
  exact hleft.trans hright

theorem keepsGroups_repairText (s : List Char) : KeepsGroups s (repairText s) :=
  (keepsGroups_foldAccents s).trans ((keepsGroups_fixKeywords _).trans
    ((keepsGroups_spellSymbols _).trans (keepsGroups_fixOperators _)))

/-- **Repair keeps the groups.** A repaired formula has as many more opening
braces than closing ones as the formula had; if no brace of the formula closes
a group that was not opened, none of the repaired one does. So a balanced
formula stays balanced. -/
theorem repair_keeps_groups (formula : String) :
    let repaired := repair formula
    depth repaired.toList = depth formula.toList ∧
      ((∀ u, u <+: formula.toList → 0 ≤ depth u) → ∀ u, u <+: repaired.toList → 0 ≤ depth u) ∧
      (IsBalanced formula.toList → IsBalanced repaired.toList) := by
  have h : KeepsGroups formula.toList (repair formula).toList := by
    rw [repair, String.toList_ofList]
    exact keepsGroups_repairText formula.toList
  refine ⟨h.depth_eq, fun hopen => ?_, h.isBalanced⟩
  exact le_lowest_iff.mp (Int.le_trans (le_lowest_iff.mpr hopen) h.lowest_le)

/-- The base is a letter and the brace that closes its group, so the new braces
stand around half of that group. -/
theorem groups_accentOnGroup :
    IsBalanced "{a} csup \u0302".toList ∧ repair "{a} csup \u0302" = "{{hat a}}" ∧
      (∀ u, u <+: (repair "{a} csup \u0302").toList → 0 ≤ depth u) ∧
      IsBalanced (repair "{a} csup \u0302").toList := by
  have hbalanced : IsBalanced "{a} csup \u0302".toList := by decide +kernel
  obtain ⟨-, hopen, hclosed⟩ := repair_keeps_groups "{a} csup \u0302"
  exact ⟨hbalanced, by decide +kernel, hopen hbalanced.depth_nonneg, hclosed hbalanced⟩

end Compositor.Formula
