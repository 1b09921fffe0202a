/-
# What the repair rules match

The texts that each rule of the repair matches, without reference to how the
rule finds them: a base, the word `csup` and a mark, with blanks between; a
side and `mline`; an operator behind a wrap sign or a brace, or before one.
All rules but those for accents widen their match.

Key definitions: `IsAccentMatch`, `IsBase`, `IsKeywordMatch`, `IsLeftMatch`,
`IsRightMatch`.
Key theorems: `accentHit_split`, `accentRule_reads`, `keywordRule_reads`, `leftRule_reads`,
`rightRule_reads`, `keywordRule_widens`, `leftRule_widens`,
`rightRule_widens`.
-/
import Compositor.Formula.Accent
import Compositor.Formula.Keyword
import Compositor.Formula.Operator
import Compositor.Proofs.Text.Avoids

namespace Compositor.Formula
open Text

/-- What is behind a gap of blanks. -/
theorem skipBlanks_gap {gap : List Char} (hgap : ∀ c ∈ gap, isBlank c = true) {c : Char}
    (hc : isBlank c = false) (s : List Char) : skipBlanks (gap ++ c :: s) = c :: s := by
  rw [skipBlanks, List.dropWhile_append_of_pos hgap]
  simp [hc]

theorem after?_append (word s : List Char) : after? word (word ++ s) = some s :=
  after?_eq_some_iff.mpr rfl

theorem isMark_of_mem {a : Char × String} (h : a ∈ accents) : isMark a.1 = true := by
  simp only [isMark, List.any_eq_true, decide_eq_true_eq]
  exact ⟨a, h, rfl⟩

theorem isBlank_of_isMark {c : Char} (h : isMark c = true) : isBlank c = false := by
  cases hb : isBlank c with
  | false => rfl
  | true => rw [not_isMark_of_isBlank hb] at h; cases h

/-! ### Accents -/

/-- A base, the word `csup` and the mark, with any blanks between. A second
character of the base is not part of it: where two match, the last one does. -/
def IsAccentMatch (mark : Char) (z : List Char) : Prop :=
  ∃ base gap gap', isBlank base = false ∧ (∀ c ∈ gap, isBlank c = true) ∧
    (∀ c ∈ gap', isBlank c = true) ∧
    z = base :: (gap ++ ['c', 's', 'u', 'p'] ++ gap' ++ [mark])

theorem afterMark?_append {mark : Char} (hm : isBlank mark = false) {gap gap' : List Char}
    (hgap : ∀ c ∈ gap, isBlank c = true) (hgap' : ∀ c ∈ gap', isBlank c = true) (s : List Char) :
    afterMark? mark (gap ++ ['c', 's', 'u', 'p'] ++ gap' ++ [mark] ++ s) = some s := by
  have h1 := skipBlanks_gap hgap (c := 'c') (by decide) (['s', 'u', 'p'] ++ gap' ++ [mark] ++ s)
  have h2 := skipBlanks_gap hgap' hm s
  have h3 := after?_append ['c', 's', 'u', 'p'] (gap' ++ mark :: s)
  simp only [List.append_assoc, List.cons_append, List.nil_append] at h1 h2 h3 ⊢
  simp only [afterMark?, h1, h3, h2, if_pos]

/-- The base of a match: one or two characters, none of them blank. -/
structure IsBase (base : List Char) : Prop where
  ne_nil : base ≠ []
  length_le : base.length ≤ 2
  not_blank : ∀ c ∈ base, isBlank c = false

theorem accentOn_split {mark : Char} {word : String} {base s put rest : List Char}
    (h : accentOn mark word base s = some (put, rest)) :
    (∀ c ∈ base, isBlank c = false) ∧ put = accented word base ∧
      ∃ gap gap', (∀ c ∈ gap, isBlank c = true) ∧ (∀ c ∈ gap', isBlank c = true) ∧
        s = gap ++ ['c', 's', 'u', 'p'] ++ gap' ++ mark :: rest := by
  unfold accentOn at h
  split at h
  · cases h
  · rename_i hbase
    obtain ⟨r, hr, he⟩ := Option.map_eq_some_iff.mp h
    obtain ⟨rfl, rfl⟩ := Prod.mk.inj he
    simp only [List.any_eq_true, not_exists, not_and, Bool.not_eq_true] at hbase
    exact ⟨hbase, rfl, afterMark?_split hr⟩

/-- What a match at the head of a text is: a base, and what follows it. -/
theorem accentHit_split {mark : Char} {word : String} {s put rest : List Char}
    (h : accentHit mark word s = some (put, rest)) :
    ∃ base gap gap', IsBase base ∧ (∀ c ∈ gap, isBlank c = true) ∧
      (∀ c ∈ gap', isBlank c = true) ∧ put = accented word base ∧
      s = base ++ gap ++ ['c', 's', 'u', 'p'] ++ gap' ++ mark :: rest := by
  unfold accentHit at h
  split at h
  · rename_i a b s
    rcases Option.or_eq_some_iff.mp h with h | ⟨-, h⟩
    · obtain ⟨hbase, rfl, gap, gap', hgap, hgap', rfl⟩ := accentOn_split h
      exact ⟨[a, b], gap, gap', ⟨by simp, by simp, hbase⟩, hgap, hgap', rfl, by simp⟩
    · obtain ⟨hbase, rfl, gap, gap', hgap, hgap', hs⟩ := accentOn_split h
      exact ⟨[a], gap, gap', ⟨by simp, by simp, hbase⟩, hgap, hgap', rfl, by simp [hs]⟩
  · cases h

theorem accentHit_ne_none {mark : Char} {word : String} (hm : isBlank mark = false)
    {s z : List Char} (hz : IsAccentMatch mark z) (h : z <+: s) : accentHit mark word s ≠ none := by
  obtain ⟨base, gap, gap', hbase, hgap, hgap', rfl⟩ := hz
  obtain ⟨v, rfl⟩ := h
  have ha := afterMark?_append hm hgap hgap' v
  have hon :
      accentOn mark word [base] (gap ++ ['c', 's', 'u', 'p'] ++ gap' ++ [mark] ++ v) ≠ none := by
    simp only [accentOn, ha]
    simp [hbase]
  cases hs : gap ++ ['c', 's', 'u', 'p'] ++ gap' ++ [mark] ++ v with
  | nil => simp at hs
  | cons b s =>
    rw [hs] at hon
    simp only [List.cons_append, hs, accentHit, ne_eq, Option.or_eq_none_iff, not_and]
    exact fun _ => hon

theorem accentRule_reads {mark : Char} (word : String) (hm : isBlank mark = false) :
    (accentRule mark word).Reads (IsAccentMatch mark) := by
  refine Rule.reads_of_hit (fun {s hit} h => ?_) fun hz h => accentHit_ne_none hm hz h
  obtain ⟨put, rest⟩ := hit
  obtain ⟨base, gap, gap', hbase, hgap, hgap', -, rfl⟩ := accentHit_split h
  -- a match is told by the last character of its base
  obtain ⟨front, b, rfl⟩ := (List.eq_nil_or_concat base).resolve_left hbase.ne_nil
  have hb := hbase.not_blank b (by simp)
  exact ⟨_, ⟨b, gap, gap', hb, hgap, hgap', rfl⟩, ⟨front, rest, by simp⟩⟩

theorem IsAccentMatch.unbroken {d mark : Char} (hd : isBlank d = false) (hc : d ≠ 'c')
    (hdm : d ≠ mark) (hm : isBlank mark = false) {z : List Char} (hz : IsAccentMatch mark z) :
    Unbroken d z := by
  obtain ⟨base, gap, gap', hbase, hgap, hgap', rfl⟩ := hz
  have hb : Unbroken d [base] := .of_not_mem (by rintro h; simp at h; subst h; cases hbase)
  have hmark : Unbroken d [mark] := .of_not_mem (by rintro h; simp at h; subst h; cases hm)
  have hend := hmark.gap_append hd hgap' (by simp) (by simpa using Ne.symm hdm)
  have hword : Unbroken d ['c', 's', 'u', 'p'] := .of_not_mem (by decide)
  have := hb.append ((hword.append hend).gap_append hd hgap (by simp) (by simpa using hc.symm))
  simpa using this

/-- Behind its base a match has only blanks, the word and the mark. -/
theorem IsAccentMatch.not_mem {mark c e : Char} {z : List Char} (h : IsAccentMatch mark (e :: z))
    (hb : isBlank c = false) (hword : c ∉ ['c', 's', 'u', 'p']) (hc : c ≠ mark) : c ∉ z := by
  obtain ⟨base, gap, gap', -, hgap, hgap', he⟩ := h
  obtain ⟨rfl, rfl⟩ := List.cons.inj he
  simp only [List.mem_append, List.mem_singleton]
  rintro (((h | h) | h) | h)
  · rw [hgap c h] at hb; cases hb
  · exact hword h
  · rw [hgap' c h] at hb; cases hb
  · exact hc h

/-! ### Keywords -/

/-- A side and `mline` with blanks between. -/
def IsKeywordMatch (side z : List Char) : Prop :=
  ∃ gap, gap ≠ [] ∧ (∀ c ∈ gap, isBlank c = true) ∧ z = side ++ gap ++ ['m', 'l', 'i', 'n', 'e']

theorem keywordHit_split {side put s out rest : List Char}
    (h : keywordHit side put s = some (out, rest)) :
    out = put ∧ ∃ z, IsKeywordMatch side z ∧ s = z ++ rest := by
  unfold keywordHit at h
  split at h
  · rename_i c t ht
    split at h
    · rename_i hc
      obtain ⟨r, hr, he⟩ := Option.map_eq_some_iff.mp h
      obtain ⟨rfl, rfl⟩ := Prod.mk.inj he
      obtain ⟨gap, hgap, hs⟩ := skipBlanks_split t
      rw [after?_eq_some_iff] at ht hr
      refine ⟨rfl, _, ⟨c :: gap, by simp, by simpa [hc] using hgap, rfl⟩, ?_⟩
      rw [ht, hs, hr]
      simp
    · cases h
  · cases h

theorem keywordHit_ne_none {side s z : List Char} (put : List Char) (hz : IsKeywordMatch side z)
    (h : z <+: s) : keywordHit side put s ≠ none := by
  obtain ⟨gap, hne, hgap, rfl⟩ := hz
  obtain ⟨v, rfl⟩ := h
  obtain ⟨c, gap, rfl⟩ := List.exists_cons_of_ne_nil hne
  have hgap' : ∀ c ∈ gap, isBlank c = true := fun x hx => hgap x (List.mem_cons_of_mem c hx)
  have h1 := after?_append side (c :: gap ++ ['m', 'l', 'i', 'n', 'e'] ++ v)
  have h2 := skipBlanks_gap hgap' (c := 'm') (by decide) (['l', 'i', 'n', 'e'] ++ v)
  have h3 := after?_append ['m', 'l', 'i', 'n', 'e'] v
  simp only [List.append_assoc, List.cons_append, List.nil_append] at h1 h2 h3 ⊢
  simp [keywordHit, h1, hgap c, h2, h3]

theorem keywordRule_reads (side put : String) :
    (keywordRule side put).Reads (IsKeywordMatch side.toList) := by
  refine Rule.reads_of_hit (fun {s hit} h => ?_) (keywordHit_ne_none _)
  obtain ⟨out, rest⟩ := hit
  obtain ⟨-, z, hz, rfl⟩ := keywordHit_split h
  exact ⟨z, hz, (List.prefix_append z rest).isInfix⟩

/-- If a rule for a side puts the side, a space, one more character and the
rest of `mline`, it widens. -/
theorem keywordRule_widens {side put : String} {d : Char}
    (hput : put.toList = side.toList ++ ' ' :: d :: ['l', 'i', 'n', 'e']) :
    (keywordRule side put).Widens [side.toList] d [] [['l', 'i', 'n', 'e']] := by
  intro s out rest h
  obtain ⟨rfl, z, ⟨gap, -, -, rfl⟩, rfl⟩ := keywordHit_split h
  exact ⟨side.toList, by simp, gap ++ ['m'], ['l', 'i', 'n', 'e'], by simp, by simp, by simp [hput]⟩

theorem IsKeywordMatch.unbroken {d : Char} (hd : isBlank d = false) (hdm : d ≠ 'm')
    {side z : List Char} (hside : ' ' ∉ side) (hz : IsKeywordMatch side z) : Unbroken d z := by
  obtain ⟨gap, -, hgap, rfl⟩ := hz
  have hword : Unbroken d ['m', 'l', 'i', 'n', 'e'] := .of_not_mem (by decide)
  have := (Unbroken.of_not_mem hside).append
    (hword.gap_append hd hgap (by simp) (by simpa using hdm.symm))
  simpa using this

theorem IsKeywordMatch.not_mem {side : List Char} {c e : Char} {z : List Char}
    (h : IsKeywordMatch side (e :: z)) (hb : isBlank c = false) (hside : c ∉ side)
    (hword : c ∉ ['m', 'l', 'i', 'n', 'e']) : c ∉ z := by
  obtain ⟨gap, -, hgap, he⟩ := h
  intro hz
  have hmem : c ∈ side ++ gap ++ ['m', 'l', 'i', 'n', 'e'] := he ▸ List.mem_cons_of_mem e hz
  simp only [List.mem_append] at hmem
  rcases hmem with (h | h) | h
  · exact hside h
  · rw [hgap c h] at hb; cases hb
  · exact hword h

/-! ### Operators -/

theorem operator?_split {operators : List (List Char)} {s op rest : List Char}
    (h : operator? operators s = some (op, rest)) : op ∈ operators ∧ s = op ++ rest := by
  obtain ⟨o, ho, h⟩ := List.exists_of_findSome?_eq_some h
  obtain ⟨r, hr, he⟩ := Option.map_eq_some_iff.mp h
  obtain ⟨rfl, rfl⟩ := Prod.mk.inj he
  exact ⟨ho, after?_eq_some_iff.mp hr⟩

/-- If no operator of the list starts another, the one that a text starts
with is found. -/
theorem operator?_append {operators : List (List Char)}
    (huniq : ∀ a ∈ operators, ∀ b ∈ operators, a <+: b → a = b) {op : List Char}
    (hop : op ∈ operators) (s : List Char) : operator? operators (op ++ s) = some (op, s) := by
  cases h : operator? operators (op ++ s) with
  | none =>
    have := List.findSome?_eq_none_iff.mp h op hop
    simp [after?_append] at this
  | some found =>
    obtain ⟨o, rest⟩ := found
    obtain ⟨ho, hs⟩ := operator?_split h
    have heq : op = o := by
      rcases List.prefix_or_prefix_of_prefix (List.prefix_append op s)
        (hs ▸ List.prefix_append o rest) with hle | hle
      · exact huniq op hop o ho hle
      · exact (huniq o ho op hop hle).symm
    subst heq
    rw [List.append_cancel_left hs]

/-- A wrap sign or an opening brace, and an operator behind it. -/
def IsLeftMatch (z : List Char) : Prop :=
  ∃ c gap op, (c = '#' ∨ c = '{') ∧ (∀ b ∈ gap, isBlank b = true) ∧ op ∈ leftOperators ∧
    z = c :: (gap ++ op)

/-- An operator, and a wrap sign or a closing brace behind it. -/
def IsRightMatch (z : List Char) : Prop :=
  ∃ op gap c, op ∈ rightOperators ∧ (∀ b ∈ gap, isBlank b = true) ∧ (c = '#' ∨ c = '}') ∧
    z = op ++ (gap ++ [c])

theorem leftHit_split {s put rest : List Char} (h : leftHit s = some (put, rest)) :
    ∃ c gap op, (c = '#' ∨ c = '{') ∧ (∀ b ∈ gap, isBlank b = true) ∧ op ∈ leftOperators ∧
      s = c :: (gap ++ op) ++ rest ∧ put = spaced [c] op := by
  unfold leftHit at h
  split at h
  · cases h
  · rename_i c s
    split at h
    · rename_i hc
      obtain ⟨⟨op, r⟩, hr, he⟩ := Option.map_eq_some_iff.mp h
      obtain ⟨rfl, rfl⟩ := Prod.mk.inj he
      obtain ⟨gap, hgap, hs⟩ := skipBlanks_split s
      obtain ⟨hop, hr⟩ := operator?_split hr
      exact ⟨c, gap, op, hc, hgap, hop, by rw [hs, hr]; simp, rfl⟩
    · cases h

theorem rightHit_split {s put rest : List Char} (h : rightHit s = some (put, rest)) :
    ∃ op gap c, op ∈ rightOperators ∧ (∀ b ∈ gap, isBlank b = true) ∧ (c = '#' ∨ c = '}') ∧
      s = op ++ (gap ++ [c]) ++ rest ∧ put = spaced op [c] := by
  unfold rightHit at h
  split at h
  · cases h
  · rename_i op t ht
    split at h
    · cases h
    · rename_i c r hr
      split at h
      · rename_i hc
        obtain ⟨rfl, rfl⟩ := Prod.mk.inj (Option.some.inj h)
        obtain ⟨gap, hgap, hs⟩ := skipBlanks_split t
        obtain ⟨hop, rfl⟩ := operator?_split ht
        exact ⟨op, gap, c, hop, hgap, hc, by rw [hs, hr]; simp, rfl⟩
      · cases h

theorem head_leftOperators : ∀ op ∈ leftOperators, ∃ c s, op = c :: s ∧ isBlank c = false := by
  intro op hop
  have h : ∀ op ∈ leftOperators, op ≠ [] ∧ op.any isBlank = false := by decide
  obtain ⟨hne, hblank⟩ := h op hop
  obtain ⟨c, s, rfl⟩ := List.exists_cons_of_ne_nil hne
  exact ⟨c, s, rfl, Bool.eq_false_iff.mpr (List.any_eq_false.mp hblank c (by simp))⟩

theorem leftHit_ne_none {s z : List Char} (hz : IsLeftMatch z) (h : z <+: s) :
    leftHit s ≠ none := by
  obtain ⟨c, gap, op, hc, hgap, hop, rfl⟩ := hz
  obtain ⟨v, rfl⟩ := h
  have hfound := operator?_append (by decide) hop v
  obtain ⟨b, s, rfl, hb⟩ := head_leftOperators op hop
  have hskip := skipBlanks_gap hgap hb (s ++ v)
  simp only [List.cons_append, List.append_assoc] at hfound hskip ⊢
  simp [leftHit, hc, hskip, hfound]

theorem rightHit_ne_none {s z : List Char} (hz : IsRightMatch z) (h : z <+: s) :
    rightHit s ≠ none := by
  obtain ⟨op, gap, c, hop, hgap, hc, rfl⟩ := hz
  obtain ⟨v, rfl⟩ := h
  have hfound := operator?_append (by decide) hop (gap ++ c :: v)
  have hb : isBlank c = false := by rcases hc with rfl | rfl <;> decide
  have hskip := skipBlanks_gap hgap hb v
  simp only [List.cons_append, List.append_assoc, List.nil_append] at hfound hskip ⊢
  simp [rightHit, hfound, hskip, hc]

theorem leftRule_reads : leftRule.Reads IsLeftMatch := by
  refine Rule.reads_of_hit (fun {s hit} h => ?_) leftHit_ne_none
  obtain ⟨put, rest⟩ := hit
  obtain ⟨c, gap, op, hc, hgap, hop, rfl, -⟩ := leftHit_split h
  exact ⟨_, ⟨c, gap, op, hc, hgap, hop, rfl⟩, (List.prefix_append _ rest).isInfix⟩

theorem rightRule_reads : rightRule.Reads IsRightMatch := by
  refine Rule.reads_of_hit (fun {s hit} h => ?_) rightHit_ne_none
  obtain ⟨put, rest⟩ := hit
  obtain ⟨op, gap, c, hop, hgap, hc, rfl, -⟩ := rightHit_split h
  exact ⟨_, ⟨op, gap, c, hop, hgap, hc, rfl⟩, (List.prefix_append _ rest).isInfix⟩

theorem leftRule_widens : leftRule.Widens [['#'], ['{']] '{' ['}', ' '] leftOperators := by
  intro s put rest h
  obtain ⟨c, gap, op, hc, -, hop, rfl, rfl⟩ := leftHit_split h
  exact ⟨[c], by simpa using hc, gap, op, hop, by simp, by simp [spaced]⟩

theorem rightRule_widens : rightRule.Widens rightOperators '{' ['}', ' '] [['#'], ['}']] := by
  intro s put rest h
  obtain ⟨op, gap, c, hop, -, hc, rfl, rfl⟩ := rightHit_split h
  exact ⟨op, hop, gap, [c], by simpa using hc, by simp, by simp [spaced]⟩

theorem IsLeftMatch.unbroken {z : List Char} (hz : IsLeftMatch z) : Unbroken '{' z := by
  obtain ⟨c, gap, op, hc, hgap, hop, rfl⟩ := hz
  have hsign : Unbroken '{' [c] := .of_not_mem (by rcases hc with rfl | rfl <;> decide)
  have hspace : ∀ op ∈ leftOperators, ' ' ∉ op ∧ op ≠ [] ∧ op.head? ≠ some '{' := by decide
  obtain ⟨h1, h2, h3⟩ := hspace op hop
  exact hsign.append ((Unbroken.of_not_mem h1).gap_append (by decide) hgap h2 h3)

theorem IsRightMatch.unbroken {z : List Char} (hz : IsRightMatch z) : Unbroken '{' z := by
  obtain ⟨op, gap, c, hop, hgap, hc, rfl⟩ := hz
  have hspace : ∀ op ∈ rightOperators, ' ' ∉ op := by decide
  have hsign : Unbroken '{' [c] := .of_not_mem (by rcases hc with rfl | rfl <;> decide)
  refine (Unbroken.of_not_mem (hspace op hop)).append (hsign.gap_append (by decide) hgap ?_ ?_)
  · simp
  · rcases hc with rfl | rfl <;> decide

end Compositor.Formula
