/-
# Where an operand is missing

An operator lacks its left operand if a wrap sign or an opening brace stands
before it, and its right one if a wrap sign or a closing brace stands behind it,
blanks apart. Completing a formula puts an empty group at each such place, once
for each operand, and changes nothing else but blanks: the formula without its
blanks and the completed one without its blanks differ by these groups alone.

A token before such a place and one behind it have no character in common. So
the places at which one rule puts its groups are not moved, made or lost by the
groups of the other, and one statement about a rule serves both.

Key definitions: `solid`, `Meet`, `fill`, `LacksLeft`, `LacksRight`,
`Completes`, `Indifferent`.
Key theorems: `fill_append`, `fill_apply`, `fixOperators_completes`.
-/
import Compositor.Proofs.Formula.NormalForm
import Compositor.Proofs.Text.Endings
import Compositor.Proofs.Text.Rewriting

namespace Compositor.Formula
open Text

/-- The text without its blanks. -/
def solid (s : List Char) : List Char := s.filter fun c => !isBlank c

/-- One of `heads` stands before a place and one of `ends` behind it, blanks
apart. -/
def Meet (heads ends : List (List Char)) (before after : List Char) : Prop :=
  (∃ a ∈ heads, EndsIn a before) ∧ ∃ b ∈ ends, b <+: after

instance (heads ends : List (List Char)) (before after : List Char) :
    Decidable (Meet heads ends before after) :=
  inferInstanceAs (Decidable (_ ∧ _))

/-- Behind the place is an operator without its left operand. -/
def LacksLeft : (before after : List Char) → Prop := Meet [['#'], ['{']] leftOperators

/-- Before the place is an operator without its right operand. -/
def LacksRight : (before after : List Char) → Prop := Meet rightOperators [['#'], ['}']]

instance (before after : List Char) : Decidable (LacksLeft before after) :=
  inferInstanceAs (Decidable (Meet _ _ _ _))

instance (before after : List Char) : Decidable (LacksRight before after) :=
  inferInstanceAs (Decidable (Meet _ _ _ _))

/-- The rest `s` of a text, which stands behind `before`, without its blanks
and with what is due at each place put in. A place is before a character that
is not blank. -/
def fill (due : (before after : List Char) → List Char) : (before s : List Char) → List Char
  | _, [] => []
  | before, c :: s =>
    if isBlank c then fill due (before ++ [c]) s
    else due before (c :: s) ++ c :: fill due (before ++ [c]) s

/-- An empty group, if it is due. -/
def groupIf (p : Prop) [Decidable p] : List Char := if p then ['{', '}'] else []

/-! ### Blanks -/

theorem solid_of_blank {gap : List Char} (hgap : ∀ c ∈ gap, isBlank c = true) : solid gap = [] := by
  rw [solid, List.filter_eq_nil_iff]
  intro c hc
  simp [hgap c hc]

theorem solid_of_not_blank {s : List Char} (hs : ∀ c ∈ s, isBlank c = false) : solid s = s := by
  rw [solid, List.filter_eq_self]
  intro c hc
  simp [hs c hc]

/-! ### Filling in -/

section Fill

variable {due due' : List Char → List Char → List Char} {b b' : List Char}

theorem fill_append (due : List Char → List Char → List Char) (b x y : List Char) :
    fill due b (x ++ y) = fill (fun u v => due u (v ++ y)) b x ++ fill due (b ++ x) y := by
  induction x generalizing b with
  | nil => simp [fill]
  | cons c x ih =>
    simp only [List.cons_append, fill, ih, List.append_assoc, List.nil_append]
    split
    · rfl
    · simp

theorem fill_congr {x : List Char} (h : ∀ u c v, x = u ++ c :: v → isBlank c = false →
    due (b ++ u) (c :: v) = due' (b' ++ u) (c :: v)) : fill due b x = fill due' b' x := by
  induction x generalizing b b' with
  | nil => rfl
  | cons c x ih =>
    have hrest : fill due (b ++ [c]) x = fill due' (b' ++ [c]) x := by
      refine ih fun u d v hx hd => ?_
      have := h (c :: u) d v (by rw [hx]; rfl) hd
      simpa using this
    rw [fill, fill]
    split
    · exact hrest
    · rename_i hc
      have := h [] c x rfl (by simpa using hc)
      rw [List.append_nil, List.append_nil] at this
      rw [this, hrest]

theorem fill_eq_solid {x : List Char} (h : ∀ u c v, x = u ++ c :: v → isBlank c = false →
    due (b ++ u) (c :: v) = []) : fill due b x = solid x := by
  induction x generalizing b with
  | nil => rfl
  | cons c x ih =>
    have hrest : fill due (b ++ [c]) x = solid x := by
      refine ih fun u d v hx hd => ?_
      have := h (c :: u) d v (by rw [hx]; rfl) hd
      simpa using this
    rw [fill, hrest]
    cases hc : isBlank c with
    | true => simp [solid, hc]
    | false =>
      have := h [] c x rfl hc
      rw [List.append_nil] at this
      simp [solid, hc, this]

end Fill

/-! ### A rule that puts groups in -/

/-- A match of the rule is one of `heads` and one of `ends` with a gap between,
and the rule puts an empty group between the two. No character is in a token of
both kinds, and none is blank. -/
structure Completes (r : Rule) (heads ends : List (List Char)) : Prop where
  split : ∀ {s put rest}, r.hit s = some (put, rest) → ∃ a ∈ heads, ∃ gap, ∃ b ∈ ends,
    (∀ c ∈ gap, isBlank c = true) ∧ s = a ++ (gap ++ (b ++ rest)) ∧ put = spaced a b
  found : ∀ {a gap b}, a ∈ heads → (∀ c ∈ gap, isBlank c = true) → b ∈ ends →
    ∀ rest, r.hit (a ++ (gap ++ (b ++ rest))) ≠ none
  head : ∀ a ∈ heads, a ≠ [] ∧ ∀ c ∈ a, isBlank c = false
  last : ∀ b ∈ ends, b ≠ [] ∧ ∀ c ∈ b, isBlank c = false
  apart : ∀ a ∈ heads, ∀ b ∈ ends, ∀ c ∈ a, c ∉ b

/-- What else is due at a place depends on the next character only of what is
behind it. It is not due in the groups that are put between one of `heads` and
one of `ends`, nor does it depend on them. -/
structure Indifferent (heads ends : List (List Char)) (due : List Char → List Char → List Char) :
    Prop where
  ahead : ∀ u c v v', due u (c :: v) = due u (c :: v')
  opening : ∀ u v, due u ('{' :: v) = []
  closing : ∀ u v, due (u ++ ['{']) ('}' :: v) = []
  last : ∀ b ∈ ends, ∀ c ∈ b, ∀ u v, due u (c :: v) = []
  behind : ∀ a ∈ heads, ∀ b ∈ ends, ∀ gap, (∀ c ∈ gap, isBlank c = true) → ∀ w u v,
    due (w ++ spaced a b ++ u) v = due (w ++ (a ++ (gap ++ b)) ++ u) v

/-- Tokens that are neither empty nor hold a blank. -/
theorem solid_tokens {tokens : List (List Char)}
    (h : ∀ a ∈ tokens, a ≠ [] ∧ a.any isBlank = false) :
    ∀ a ∈ tokens, a ≠ [] ∧ ∀ c ∈ a, isBlank c = false := fun a ha =>
  ⟨(h a ha).1, fun c hc => by simpa using List.any_eq_false.mp (h a ha).2 c hc⟩

/-- Tokens of two kinds that share no character. -/
theorem apart_tokens {heads ends : List (List Char)}
    (h : ∀ a ∈ heads, ∀ b ∈ ends, a.any (fun c => decide (c ∈ b)) = false) :
    ∀ a ∈ heads, ∀ b ∈ ends, ∀ c ∈ a, c ∉ b := fun a ha b hb c hc => by
  simpa using List.any_eq_false.mp (h a ha b hb) c hc

namespace Completes

variable {r : Rule} {heads ends : List (List Char)} {due : List Char → List Char → List Char}

/-- Tokens that meet make up a match. -/
theorem meet_iff (hr : Completes r heads ends) {u v : List Char} :
    Meet heads ends u v ↔ ∃ a ∈ heads, ∃ b ∈ ends, ∃ x gap rest,
      (∀ c ∈ gap, isBlank c = true) ∧ u = x ++ a ++ gap ∧ v = b ++ rest := by
  have hends : ∀ a ∈ heads, (EndsIn a u ↔
      ∃ x gap, (∀ c ∈ gap, isBlank c = true) ∧ u = x ++ a ++ gap) := fun a ha =>
    endsIn_iff (fun c hc => (hr.head a ha).2 c (List.mem_of_getLast? hc)) (hr.head a ha).1
  constructor
  · rintro ⟨⟨a, ha, hu⟩, b, hb, rest, hv⟩
    obtain ⟨x, gap, hgap, hu⟩ := (hends a ha).mp hu
    exact ⟨a, ha, b, hb, x, gap, rest, hgap, hu, hv.symm⟩
  · rintro ⟨a, ha, b, hb, x, gap, rest, hgap, hu, hv⟩
    exact ⟨⟨a, ha, (hends a ha).mpr ⟨x, gap, hgap, hu⟩⟩, b, hb, rest, hv.symm⟩

/-- Where nothing matches, no tokens meet. -/
theorem not_meet_of_clear (hr : Completes r heads ends) {s : List Char} (h : r.Clear s)
    {u v : List Char} (hs : s = u ++ v) : ¬ Meet heads ends u v := by
  rw [hr.meet_iff]
  rintro ⟨a, ha, b, hb, x, gap, rest, hgap, rfl, rfl⟩
  exact hr.found ha hgap hb rest (h _ ⟨x, by simp [hs]⟩)

/-- A text that starts with no match has its first character in none. -/
theorem meet_cons (hr : Completes r heads ends) {c : Char} {u v : List Char}
    (h : r.hit (c :: (u ++ v)) = none) : Meet heads ends (c :: u) v ↔ Meet heads ends u v := by
  rw [hr.meet_iff, hr.meet_iff]
  constructor
  · rintro ⟨a, ha, b, hb, x, gap, rest, hgap, hu, rfl⟩
    cases x with
    | nil =>
      refine absurd h ?_
      rw [← List.cons_append, hu]
      simpa using hr.found ha hgap hb rest
    | cons d x => exact ⟨a, ha, b, hb, x, gap, rest, hgap, (List.cons.inj hu).2, rfl⟩
  · rintro ⟨a, ha, b, hb, x, gap, rest, hgap, rfl, rfl⟩
    exact ⟨a, ha, b, hb, c :: x, gap, rest, hgap, rfl, rfl⟩

/-- Behind the end of a match, what is before it makes no difference. -/
theorem meet_append (hr : Completes r heads ends) {b : List Char} (hb : b ∈ ends)
    (w u v : List Char) : Meet heads ends (w ++ b ++ u) v ↔ Meet heads ends u v := by
  obtain ⟨hne, hblank⟩ := hr.last b hb
  obtain ⟨x, c, rfl⟩ := (List.eq_nil_or_concat b).resolve_left hne
  have hc : c ∈ x.concat c := by simp
  have hends : ∀ a ∈ heads, (EndsIn a (w ++ x.concat c ++ u) ↔ EndsIn a u) := by
    intro a ha
    have hsplit : w ++ x.concat c ++ u = (w ++ x) ++ c :: u := by simp
    rw [hsplit]
    exact endsIn_append_cons (hblank c hc) (fun h => hr.apart a ha _ hb c h hc) (hr.head a ha).1 _ _
  unfold Meet
  rw [and_congr_left_iff]
  exact fun _ => exists_congr fun a => and_congr_right (hends a)

/-- No tokens meet at a place before a character of one of `heads`. -/
theorem not_meet_head (hr : Completes r heads ends) {a : List Char} (ha : a ∈ heads) {c : Char}
    (hc : c ∈ a) (u v : List Char) : ¬ Meet heads ends u (c :: v) := by
  rintro ⟨-, b, hb, hprefix⟩
  obtain ⟨d, b', rfl⟩ := List.exists_cons_of_ne_nil (hr.last b hb).1
  obtain rfl := (List.cons_prefix_cons.mp hprefix).1
  exact hr.apart a ha _ hb d hc List.mem_cons_self

/-- No tokens meet within one of `ends`. -/
theorem not_meet_last (hr : Completes r heads ends) {b u : List Char} (hb : b ∈ ends) (hu : u ≠ [])
    (hub : u ⊆ b) (w v : List Char) : ¬ Meet heads ends (w ++ u) v := by
  obtain ⟨x, c, rfl⟩ := (List.eq_nil_or_concat u).resolve_left hu
  have hc : c ∈ b := hub (by simp)
  have hsplit : w ++ x.concat c = (w ++ x) ++ c :: [] := by simp
  rintro ⟨⟨a, ha, hends⟩, -⟩
  rw [hsplit, endsIn_append_cons ((hr.last b hb).2 c hc) (fun h => hr.apart a ha b hb c h hc)
    (hr.head a ha).1] at hends
  exact not_endsIn_nil (hr.head a ha).1 hends

/-- Up to a match nothing but what is due else is put in. -/
theorem fill_head (hr : Completes r heads ends) (hd : Indifferent heads ends due) {a : List Char}
    (ha : a ∈ heads) (w s : List Char) :
    fill (fun u v => groupIf (Meet heads ends u (v ++ s)) ++ due u (v ++ s)) w a =
      fill due w a := by
  refine fill_congr fun u c v hsplit _ => ?_
  have hc : c ∈ a := by simp [hsplit]
  have hnot : ¬ Meet heads ends (w ++ u) (c :: v ++ s) := hr.not_meet_head ha hc _ _
  rw [groupIf, if_neg hnot, List.nil_append]
  exact hd.ahead _ c _ _

/-- Before the end of a match a group is put in, and in it nothing. -/
theorem fill_last (hr : Completes r heads ends) (hd : Indifferent heads ends due) {b : List Char}
    (hb : b ∈ ends) {w s : List Char} (h : Meet heads ends w (b ++ s)) :
    fill (fun u v => groupIf (Meet heads ends u (v ++ s)) ++ due u (v ++ s)) w b =
      '{' :: '}' :: b := by
  obtain ⟨hne, hblank⟩ := hr.last b hb
  obtain ⟨d, b', rfl⟩ := List.exists_cons_of_ne_nil hne
  have hd' : isBlank d = false := hblank d List.mem_cons_self
  have hrest : fill (fun u v => groupIf (Meet heads ends u (v ++ s)) ++ due u (v ++ s))
      (w ++ [d]) b' = b' := by
    rw [fill_eq_solid, solid_of_not_blank fun c hc => hblank c (List.mem_cons_of_mem d hc)]
    intro u c v hsplit _
    have hc : c ∈ d :: b' := by simp [hsplit]
    have hub : d :: u ⊆ d :: b' := by simp [hsplit]
    have hnot : ¬ Meet heads ends (w ++ [d] ++ u) (c :: v ++ s) := by
      rw [List.append_assoc]
      exact hr.not_meet_last hb (List.cons_ne_nil d u) hub _ _
    rw [groupIf, if_neg hnot, List.nil_append]
    exact hd.last _ hb c hc _ _
  have hdue : due w (d :: b' ++ s) = [] := hd.last _ hb d List.mem_cons_self _ _
  rw [fill, if_neg (by simp [hd']), hrest, groupIf, if_pos h, hdue]
  rfl

/-- A match, filled in. -/
theorem fill_match (hr : Completes r heads ends) (hd : Indifferent heads ends due)
    {a gap b : List Char} (ha : a ∈ heads) (hgap : ∀ c ∈ gap, isBlank c = true) (hb : b ∈ ends)
    (w s : List Char) :
    fill (fun u v => groupIf (Meet heads ends u v) ++ due u v) w (a ++ (gap ++ (b ++ s))) =
      fill due w a ++ '{' :: '}' :: b ++
        fill (fun u v => groupIf (Meet heads ends u v) ++ due u v) (w ++ (a ++ (gap ++ b))) s := by
  have hmeet : Meet heads ends (w ++ a ++ gap) (b ++ s) :=
    hr.meet_iff.mpr ⟨a, ha, b, hb, w, gap, s, hgap, rfl, rfl⟩
  rw [fill_append, hr.fill_head hd ha, fill_append, fill_eq_solid (x := gap), solid_of_blank hgap,
    fill_append, hr.fill_last hd hb hmeet]
  · simp only [List.nil_append, List.append_assoc]
  · intro u c v hsplit hc
    rw [hgap c (by simp [hsplit])] at hc
    cases hc

/-- A match with its group put in, filled in. -/
theorem fill_spaced (hr : Completes r heads ends) (hd : Indifferent heads ends due)
    {a b : List Char} (hb : b ∈ ends) (w t : List Char) :
    fill due w (spaced a b ++ t) =
      fill due w a ++ '{' :: '}' :: b ++ fill due (w ++ spaced a b) t := by
  have hsplit : spaced a b ++ t = a ++ ([' ', '{', '}', ' '] ++ (b ++ t)) := by simp [spaced]
  have hhead :
      fill (fun u v => due u (v ++ ([' ', '{', '}', ' '] ++ (b ++ t)))) w a = fill due w a :=
    fill_congr fun u c v _ _ => hd.ahead _ c _ _
  have hgroup :
      fill (fun u v => due u (v ++ (b ++ t))) (w ++ a) [' ', '{', '}', ' '] = ['{', '}'] := by
    have hspace : isBlank ' ' = true := by decide
    have hopen : isBlank '{' = false := by decide
    have hclose : isBlank '}' = false := by decide
    have hclosing := hd.closing (w ++ a ++ [' ']) (' ' :: (b ++ t))
    simp only [List.append_assoc, List.cons_append, List.nil_append] at hclosing
    simp [fill, hspace, hopen, hclose, hd.opening, hclosing]
  have hlast : fill (fun u v => due u (v ++ t)) (w ++ a ++ [' ', '{', '}', ' ']) b = b := by
    rw [fill_eq_solid, solid_of_not_blank (hr.last b hb).2]
    exact fun u c v hsplit _ => hd.last b hb c (by simp [hsplit]) _ _
  rw [hsplit, fill_append, hhead, fill_append, hgroup, fill_append, hlast]
  simp [spaced]

/-- The rule puts a group in wherever tokens meet. If they meet nowhere across
the start of the text, then what is due else and put in after the rule is what
is due, and the groups, put in before. -/
theorem fill_apply (hr : Completes r heads ends) (hd : Indifferent heads ends due) (s : List Char)
    {w : List Char} (hw : ∀ u v, s = u ++ v → (Meet heads ends (w ++ u) v ↔ Meet heads ends u v)) :
    fill due w (r.apply s) =
      fill (fun u v => groupIf (Meet heads ends u v) ++ due u v) w s := by
  fun_induction r.apply s generalizing w with
  | case1 => rfl
  | case2 c s put rest hit ih =>
    obtain ⟨a, ha, gap, b, hb, hgap, hs, rfl⟩ := hr.split hit
    have hsplit : ∀ w : List Char, w ++ spaced a b = w ++ (a ++ [' ', '{', '}', ' ']) ++ b := by
      simp [spaced]
    have hbehind : ∀ u v, (Meet heads ends (w ++ spaced a b ++ u) v ↔ Meet heads ends u v) := by
      intro u v
      rw [hsplit]
      exact hr.meet_append hb _ u v
    have hbehind' : ∀ u v,
        (Meet heads ends (w ++ (a ++ (gap ++ b)) ++ u) v ↔ Meet heads ends u v) := by
      intro u v
      have := hr.meet_append hb (w ++ (a ++ gap)) u v
      simpa only [List.append_assoc] using this
    rw [hs, hr.fill_match hd ha hgap hb, hr.fill_spaced hd hb, ih fun u v _ => hbehind u v]
    congr 1
    refine fill_congr fun u e v _ _ => ?_
    rw [hd.behind a ha b hb gap hgap, groupIf, groupIf]
    simp only [hbehind, hbehind']
  | case3 c s hit ih =>
    have hnot : ¬ Meet heads ends w (c :: s) := by
      have := hw [] (c :: s) rfl
      rw [List.append_nil] at this
      rw [this]
      rintro ⟨⟨a, ha, hends⟩, -⟩
      exact not_endsIn_nil (hr.head a ha).1 hends
    have hrest : ∀ u v, s = u ++ v → (Meet heads ends (w ++ [c] ++ u) v ↔ Meet heads ends u v) := by
      rintro u v rfl
      have := hw (c :: u) v rfl
      rw [hr.meet_cons hit] at this
      simpa using this
    rw [fill, fill, ih hrest, groupIf, if_neg hnot, List.nil_append, hd.ahead]

end Completes

/-! ### The two rules -/

theorem exists_sign {x y : Char} {s : List Char} (h : s ∈ [[x], [y]]) :
    ∃ c, s = [c] ∧ (c = x ∨ c = y) := by
  simp only [List.mem_cons, List.not_mem_nil, or_false] at h
  rcases h with rfl | rfl
  · exact ⟨x, rfl, .inl rfl⟩
  · exact ⟨y, rfl, .inr rfl⟩

theorem completes_leftRule : Completes leftRule [['#'], ['{']] leftOperators where
  split h := by
    obtain ⟨c, gap, op, hc, hgap, hop, rfl, rfl⟩ := leftHit_split h
    exact ⟨[c], by simpa using hc, gap, op, hop, hgap, by simp, rfl⟩
  found {a gap b} ha hgap hb rest := by
    obtain ⟨c, rfl, hc⟩ := exists_sign ha
    exact leftHit_ne_none (s := [c] ++ (gap ++ (b ++ rest))) ⟨c, gap, b, hc, hgap, hb, rfl⟩
      ⟨rest, by simp⟩
  head := solid_tokens (by decide)
  last := solid_tokens (by decide)
  apart := apart_tokens (by decide)

theorem completes_rightRule : Completes rightRule rightOperators [['#'], ['}']] where
  split h := by
    obtain ⟨op, gap, c, hop, hgap, hc, rfl, rfl⟩ := rightHit_split h
    exact ⟨op, hop, gap, [c], by simpa using hc, hgap, by simp, rfl⟩
  found {a gap b} ha hgap hb rest := by
    obtain ⟨c, rfl, hc⟩ := exists_sign hb
    exact rightHit_ne_none ⟨a, gap, c, ha, hgap, hc, rfl⟩ ⟨rest, by simp⟩
  head := solid_tokens (by decide)
  last := solid_tokens (by decide)
  apart := apart_tokens (by decide)

/-- Only the character behind the place counts for an operator without its
right operand. -/
theorem lacksRight_cons {u v : List Char} {c : Char} :
    LacksRight u (c :: v) ↔ (∃ op ∈ rightOperators, EndsIn op u) ∧ (c = '#' ∨ c = '}') := by
  unfold LacksRight Meet
  simp [eq_comm]

/-- What stands before a wrap sign or a brace makes no difference to an
operator without its right operand, nor do blanks behind the sign. -/
theorem endsIn_rightOperator {op : List Char} (hop : op ∈ rightOperators) {c : Char}
    (hc : c = '#' ∨ c = '{' ∨ c = '}') (w : List Char) {gap : List Char}
    (hgap : ∀ c ∈ gap, isBlank c = true) (u : List Char) :
    EndsIn op (w ++ c :: (gap ++ u)) ↔ EndsIn op u := by
  have hword : ∀ op ∈ rightOperators, '#' ∉ op ∧ '{' ∉ op ∧ '}' ∉ op := by decide
  obtain ⟨hsign, hopen, hclose⟩ := hword op hop
  obtain ⟨hne, hblank⟩ := completes_rightRule.head op hop
  have hnot : c ∉ op ∧ isBlank c = false := by
    rcases hc with rfl | rfl | rfl
    · exact ⟨hsign, by decide⟩
    · exact ⟨hopen, by decide⟩
    · exact ⟨hclose, by decide⟩
  rw [endsIn_append_cons hnot.2 hnot.1 hne, endsIn_gap_append hblank hne hgap]

theorem indifferent_lacksRight :
    Indifferent [['#'], ['{']] leftOperators fun u v => groupIf (LacksRight u v) where
  ahead u c v v' := by simp only [groupIf, lacksRight_cons]
  opening u v := by
    rw [groupIf, if_neg]
    rw [lacksRight_cons]
    rintro ⟨-, h | h⟩
    · cases h
    · cases h
  closing u v := by
    rw [groupIf, if_neg]
    rw [lacksRight_cons]
    rintro ⟨⟨op, hop, hends⟩, -⟩
    have hne : ∀ op ∈ rightOperators, op ≠ [] := by decide
    have hnil : ∀ c ∈ ([] : List Char), isBlank c = true := List.forall_mem_nil _
    exact not_endsIn_nil (hne op hop)
      ((endsIn_rightOperator hop (.inr (.inl rfl)) u hnil []).mp hends)
  last b hb c hc u v := by
    have hsign : ∀ b ∈ leftOperators, '#' ∉ b ∧ '}' ∉ b := by decide
    rw [groupIf, if_neg]
    rw [lacksRight_cons]
    rintro ⟨-, rfl | rfl⟩
    · exact (hsign b hb).1 hc
    · exact (hsign b hb).2 hc
  behind a ha b _ gap hgap w u v := by
    obtain ⟨c, rfl, hc⟩ := exists_sign ha
    have hc' : c = '#' ∨ c = '{' ∨ c = '}' := hc.imp_right .inl
    have hput : w ++ spaced [c] b ++ u = (w ++ [c, ' ', '{']) ++ '}' :: ([' '] ++ (b ++ u)) := by
      simp [spaced]
    have hgone : w ++ ([c] ++ (gap ++ b)) ++ u = w ++ c :: (gap ++ (b ++ u)) := by simp
    have hends : ∀ op ∈ rightOperators,
        (EndsIn op (w ++ spaced [c] b ++ u) ↔ EndsIn op (w ++ ([c] ++ (gap ++ b)) ++ u)) := by
      intro op hop
      rw [hput, hgone, endsIn_rightOperator hop (.inr (.inr rfl)) _ isBlank_of_mem_space,
        endsIn_rightOperator hop hc' _ hgap]
    have hlacks : LacksRight (w ++ spaced [c] b ++ u) v ↔
        LacksRight (w ++ ([c] ++ (gap ++ b)) ++ u) v :=
      and_congr_left fun _ => exists_congr fun op => and_congr_right (hends op)
    simp only [groupIf, hlacks]

/-- **Completing is exact.** Blanks apart, the completed formula is the formula
with an empty group put in once at each place where an operator lacks its left
operand and once at each place where one lacks its right operand. In the
completed formula there is no such place. -/
theorem fixOperators_completes (s : List Char) :
    solid (fixOperators s) =
        fill (fun before after =>
          groupIf (LacksLeft before after) ++ groupIf (LacksRight before after)) [] s ∧
      ∀ before after, fixOperators s = before ++ after →
        ¬ LacksLeft before after ∧ ¬ LacksRight before after := by
  constructor
  · have hnone : Indifferent rightOperators [['#'], ['}']] fun _ _ => [] :=
      ⟨by simp, by simp, by simp, by simp, by simp⟩
    have hright : fill (fun _ _ => []) [] (fixOperators s) =
        fill (fun u v => groupIf (LacksRight u v)) [] (leftRule.apply s) := by
      have := completes_rightRule.fill_apply hnone (leftRule.apply s) (w := []) (by simp)
      simp only [List.append_nil] at this
      exact this
    have hsolid : fill (fun _ _ => []) [] (fixOperators s) = solid (fixOperators s) :=
      fill_eq_solid (by simp)
    rw [← hsolid, hright]
    exact completes_leftRule.fill_apply indifferent_lacksRight s (by simp)
  · intro before after hsplit
    have hleft : leftRule.Clear (fixOperators s) := avoids_left_rightRule (clear_leftRule_apply s)
    exact ⟨completes_leftRule.not_meet_of_clear hleft hsplit,
      completes_rightRule.not_meet_of_clear (clear_rightRule_apply _) hsplit⟩

/-- A wrap sign between two operators lacks an operand of each, and the second
operator lacks both its operands. -/
theorem completes_aroundWrap :
    solid (fixOperators "{plusminus # times }".toList) = "{plusminus{}#{}times{}}".toList ∧
      ∀ before after, "{plusminus {} # {} times {} }".toList = before ++ after →
        ¬ LacksLeft before after ∧ ¬ LacksRight before after := by
  obtain ⟨hsolid, hnone⟩ := fixOperators_completes "{plusminus # times }".toList
  have hfixed : fixOperators "{plusminus # times }".toList =
      "{plusminus {} # {} times {} }".toList := by decide +kernel
  rw [hfixed] at hnone
  exact ⟨hsolid.trans (by decide +kernel), hnone⟩

end Compositor.Formula
