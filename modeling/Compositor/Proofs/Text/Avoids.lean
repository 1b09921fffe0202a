/-
# Texts without a match

What a rule can match is a set of texts. A text avoids such a set when none
of its stretches is in it; then the rule leaves the text as it is. A rule
widens when it keeps the head of its match and its end, and puts a space and
some new text between the two. Whatever avoids a set before a widening rule
is applied avoids it afterwards, if the members of the set cannot run across
the new text.

Key definitions: `Avoids`, `Rule.Clear`, `Rule.Reads`, `Rule.Widens`,
`Unbroken`.
Key theorems: `Rule.apply_eq_self_of_clear`, `Rule.clear_of_apply_eq_self`,
`Rule.prefix_of_prefix_apply`, `Rule.avoids_apply`, `Rule.clear_apply_self`.
-/
import Compositor.Text.Blank
import Compositor.Text.Rule

namespace Compositor.Text

/-- No stretch of the text is in the set. -/
def Avoids (L : List Char → Prop) (s : List Char) : Prop := ∀ z, L z → ¬ z <:+: s

theorem Avoids.of_infix {L : List Char → Prop} {s t : List Char} (h : Avoids L s) (hts : t <:+: s) :
    Avoids L t := fun z hz hzt => h z hz (hzt.trans hts)

/-- A stretch that lies in neither part of a text starts in the first. -/
theorem suffix_append_cases {t a b : List Char} (h : t <:+ a ++ b) :
    t <:+ b ∨ ∃ w, w ≠ [] ∧ w <:+ a ∧ t = w ++ b := by
  obtain ⟨u, hu⟩ := h
  rcases List.append_eq_append_iff.mp hu with ⟨w, rfl, rfl⟩ | ⟨w, rfl, rfl⟩
  · by_cases hw : w = []
    · exact Or.inl (by simp [hw])
    · exact Or.inr ⟨w, hw, List.suffix_append _ _, rfl⟩
  · exact Or.inl (List.suffix_append _ _)

/-- A character of two texts put together is in one of them. -/
theorem append_cons_cases {u s t v : List Char} {c : Char} (h : u ++ c :: v = s ++ t) :
    (∃ y, s = u ++ c :: y ∧ v = y ++ t) ∨ ∃ y, u = s ++ y ∧ t = y ++ c :: v := by
  rcases List.append_eq_append_iff.mp h with ⟨y, rfl, hy⟩ | ⟨y, rfl, rfl⟩
  · rcases List.cons_eq_append_iff.mp hy with ⟨rfl, rfl⟩ | ⟨y', rfl, rfl⟩
    · exact .inr ⟨[], by simp⟩
    · exact .inl ⟨y', rfl, rfl⟩
  · exact .inr ⟨y, rfl, rfl⟩

/-- A stretch without a certain character is on one side of it. -/
theorem infix_append_cons {z s t : List Char} {c : Char} (hc : c ∉ z) (h : z <:+: s ++ c :: t) :
    z <:+: s ∨ z <:+: t := by
  obtain ⟨x, y, hxy⟩ := h
  rw [List.append_assoc] at hxy
  rcases append_cons_cases hxy.symm with ⟨w, rfl, rfl⟩ | ⟨w, rfl, hw⟩
  · exact .inr ⟨w, y, List.append_assoc _ _ _⟩
  · rcases append_cons_cases hw.symm with ⟨w', rfl, -⟩ | ⟨w', rfl, -⟩
    · exact absurd (by simp) hc
    · exact .inl ⟨x, w', List.append_assoc _ _ _⟩

/-- In a text without a break before `d` every space has something after it,
and not a `d`. -/
def Unbroken (d : Char) (z : List Char) : Prop :=
  ∀ u v, z = u ++ ' ' :: v → v ≠ [] ∧ v.head? ≠ some d

namespace Unbroken

theorem of_append {d : Char} {a b : List Char} (h : Unbroken d (a ++ b)) : Unbroken d b :=
  fun u v hb => h (a ++ u) v (by simp [hb])

theorem of_not_mem {d : Char} {z : List Char} (h : ' ' ∉ z) : Unbroken d z :=
  fun _ _ hz => absurd (by simp [hz]) h

/-- What is unbroken and starts a text that goes on with a space and `d`
after some characters lies within those. -/
theorem prefix_of_prefix_append {d : Char} {z a b : List Char} (h : Unbroken d z)
    (hz : z <+: a ++ ' ' :: d :: b) : z <+: a := by
  obtain ⟨v, hv⟩ := hz
  rcases List.append_eq_append_iff.mp hv with ⟨w, rfl, _⟩ | ⟨w, rfl, hw⟩
  · exact List.prefix_append _ _
  · match w, hw with
    | [], _ => simp
    | c :: w, hw =>
      obtain ⟨rfl, hw'⟩ := List.cons.inj hw
      obtain ⟨hne, hd⟩ := h _ _ rfl
      obtain ⟨e, w, rfl⟩ := List.exists_cons_of_ne_nil hne
      exact absurd (by simp [(List.cons.inj hw').1]) hd

theorem append {d : Char} {a b : List Char} (ha : Unbroken d a) (hb : Unbroken d b) :
    Unbroken d (a ++ b) := by
  intro u v h
  rcases List.append_eq_append_iff.mp h with ⟨w, rfl, hw⟩ | ⟨w, rfl, hw⟩
  · exact hb _ _ hw
  · rcases List.cons_eq_append_iff.mp hw with ⟨rfl, hb'⟩ | ⟨x, rfl, rfl⟩
    · exact hb [] v hb'
    · obtain ⟨hx, hxd⟩ := ha _ _ rfl
      obtain ⟨e, x, rfl⟩ := List.exists_cons_of_ne_nil hx
      exact ⟨by simp, by simpa using hxd⟩

/-- Blanks before a text break nothing before `d`, unless it starts with
`d`. -/
theorem gap_append {d : Char} (hd : isBlank d = false) {gap b : List Char}
    (hgap : ∀ c ∈ gap, isBlank c = true) (hb : Unbroken d b) (hne : b ≠ [])
    (hbd : b.head? ≠ some d) : Unbroken d (gap ++ b) := by
  induction gap with
  | nil => exact hb
  | cons e gap ih =>
    have hgap' : ∀ c ∈ gap, isBlank c = true := fun c hc => hgap c (List.mem_cons_of_mem e hc)
    intro u v h
    rcases List.cons_eq_append_iff.mp h with ⟨rfl, hv⟩ | ⟨u, rfl, hu⟩
    · obtain rfl := (List.cons.inj hv).2
      cases gap with
      | nil => exact ⟨hne, hbd⟩
      | cons f gap =>
        refine ⟨by simp, ?_⟩
        rintro ⟨rfl⟩
        simp [hd] at hgap'
    · exact ih hgap' _ _ hu

end Unbroken

namespace Rule

/-- The rule matches nowhere in the text. -/
def Clear (r : Rule) (s : List Char) : Prop := ∀ t, t <:+ s → r.hit t = none

theorem apply_eq_self_of_clear {r : Rule} {s : List Char} (h : r.Clear s) : r.apply s = s := by
  fun_induction r.apply s with
  | case1 => rfl
  | case2 c s put rest hit ih => simp [h _ (List.suffix_refl _)] at hit
  | case3 c s _ ih => rw [ih fun t ht => h t (ht.trans (List.suffix_cons c s))]

/-- If every match uses up a character of some kind, a text that the rule
leaves as it is holds no match. -/
theorem clear_of_apply_eq_self {r : Rule} (p : Char → Bool) (hnil : r.hit [] = none)
    (h : ∀ {s put rest}, r.hit s = some (put, rest) →
      put.countP p + rest.countP p < s.countP p) {s : List Char} (hs : r.apply s = s) :
    r.Clear s := by
  fun_induction r.apply s with
  | case1 =>
    intro t ht
    rw [List.suffix_nil.mp ht, hnil]
  | case2 c s put rest hit ih =>
    have hlt := h hit
    have hle := r.apply_eq_or_countP_lt p h rest
    have hcount := congrArg (List.countP p) hs
    rw [List.countP_append] at hcount
    rcases hle with hle | hle
    · rw [hle] at hcount; omega
    · omega
  | case3 c s hit ih =>
    intro t ht
    rcases List.suffix_cons_iff.mp ht with rfl | ht
    · exact hit
    · exact ih (List.cons.inj hs).2 t ht

/-- If every match of every rule uses up a character of some kind, a text that
the rules together leave as it is, each of them leaves as it is. -/
theorem apply_eq_self_of_applyAll_eq_self (p : Char → Bool) {rules : List Rule} {s : List Char}
    (h : ∀ r ∈ rules, ∀ s, r.apply s = s ∨ (r.apply s).countP p < s.countP p)
    (hs : applyAll rules s = s) : ∀ r ∈ rules, r.apply s = s := by
  induction rules with
  | nil => simp
  | cons r rules ih =>
    have hrules : ∀ q ∈ rules, ∀ s, q.apply s = s ∨ (q.apply s).countP p < s.countP p :=
      fun q hq => h q (List.mem_cons_of_mem r hq)
    have hr : r.apply s = s := by
      refine (h r (by simp) s).resolve_right fun hlt => ?_
      have hle := applyAll_eq_or_countP_lt p rules hrules (r.apply s)
      change applyAll rules (r.apply s) = s at hs
      rw [hs] at hle
      rcases hle with hle | hle
      · rw [← hle] at hlt; omega
      · omega
    change applyAll rules (r.apply s) = s at hs
    rw [hr] at hs
    intro q hq
    rcases List.mem_cons.mp hq with rfl | hq
    · exact hr
    · exact ih hrules hs q hq

/-- The set holds what the rule matches: a text holds a match if and only if
it holds a member of the set. -/
def Reads (r : Rule) (L : List Char → Prop) : Prop := ∀ s, r.Clear s ↔ Avoids L s

theorem reads_of_hit {r : Rule} {L : List Char → Prop}
    (sound : ∀ {s hit}, r.hit s = some hit → ∃ z, L z ∧ z <:+: s)
    (complete : ∀ {s z}, L z → z <+: s → r.hit s ≠ none) : r.Reads L := by
  intro s
  constructor
  · intro h z hz hzs
    obtain ⟨t, hzt, hts⟩ := List.infix_iff_prefix_suffix.mp hzs
    exact complete hz hzt (h t hts)
  · intro h t hts
    cases hit : r.hit t with
    | none => rfl
    | some _ =>
      obtain ⟨z, hz, hzt⟩ := sound hit
      exact absurd (hzt.trans hts.isInfix) (h z hz)

/-- The rule keeps the head of its match, one of `heads`, puts a space and
`d :: new` after it, and ends with the end of the match, one of `ends`. -/
def Widens (r : Rule) (heads : List (List Char)) (d : Char) (new : List Char)
    (ends : List (List Char)) : Prop :=
  ∀ {s put rest}, r.hit s = some (put, rest) → ∃ head ∈ heads, ∃ gone, ∃ last ∈ ends,
    s = head ++ gone ++ last ++ rest ∧ put = head ++ ' ' :: d :: new ++ last

section Widening

variable {r : Rule} {heads : List (List Char)} {d : Char} {new : List Char}
  {ends : List (List Char)} {L : List Char → Prop}

/-- What is unbroken and starts the text after a widening rule started it
before. -/
theorem prefix_of_prefix_apply (hr : r.Widens heads d new ends) {s z : List Char}
    (hz : Unbroken d z) (h : z <+: r.apply s) : z <+: s := by
  fun_induction r.apply s generalizing z with
  | case1 => exact h
  | case2 c s put rest hit ih =>
    obtain ⟨head, -, gone, last, -, hs, rfl⟩ := hr hit
    rw [hs]
    have hk : z <+: head := hz.prefix_of_prefix_append (by simpa using h)
    exact hk.trans (by simp)
  | case3 c s _ ih =>
    rcases List.prefix_cons_iff.mp h with rfl | ⟨z, rfl, hzs⟩
    · exact List.nil_prefix
    · exact (List.prefix_cons_inj c).mpr (ih (hz.of_append (a := [c])) hzs)

/-- The same for a text that starts with characters left as they are. -/
theorem prefix_of_prefix_append_apply (hr : r.Widens heads d new ends) {w s z : List Char}
    (hz : Unbroken d z) (h : z <+: w ++ r.apply s) : z <+: w ++ s := by
  obtain ⟨v, hv⟩ := h
  rcases List.append_eq_append_iff.mp hv with ⟨u, rfl, _⟩ | ⟨u, rfl, hu⟩
  · exact ⟨u ++ s, by simp⟩
  · have := prefix_of_prefix_apply hr hz.of_append ⟨v, hu.symm⟩
    exact (List.prefix_append_right_inj w).mpr this

/-- A member of the set in the text after a widening rule: where it could
start. The three ways it could are closed off one by one; `Q` is what is
known of the text before. -/
theorem avoids_apply_of (hr : r.Widens heads d new ends) (hL : ∀ z, L z → Unbroken d z)
    (hnil : ¬ L [])
    (hnew : ∀ n last x z, n ≠ [] → n <:+ d :: new → last ∈ ends → L z → ¬ z <+: n ++ last ++ x)
    {Q : List Char → Prop} (hQ : ∀ {s t}, Q s → t <:+ s → Q t)
    (hnone : ∀ {c s z}, Q (c :: s) → r.hit (c :: s) = none → L z → ¬ z <+: c :: s)
    (hhead : ∀ {head rest}, head ∈ heads → Q (head ++ rest) → Avoids L head)
    (hlast : ∀ {w last rest z}, w ≠ [] → w <:+ last → last ∈ ends → Q (last ++ rest) → L z →
      ¬ z <+: w ++ rest)
    {s : List Char} (hs : Q s) : Avoids L (r.apply s) := by
  fun_induction r.apply s with
  | case1 =>
    intro z hz hz'
    exact hnil (List.infix_nil.mp hz' ▸ hz)
  | case2 c s put rest hit ih =>
    obtain ⟨head, hhead', gone, last, hlast', hcs, rfl⟩ := hr hit
    have hQlast : Q (last ++ rest) := hQ hs ⟨head ++ gone, by simp [hcs]⟩
    intro z hz hz'
    obtain ⟨t, hzt, ht⟩ := List.infix_iff_prefix_suffix.mp hz'
    rcases suffix_append_cases ht with ht | ⟨w, hw, hwput, rfl⟩
    · exact ih (hQ hQlast (List.suffix_append _ _)) z hz (hzt.isInfix.trans ht.isInfix)
    rcases suffix_append_cases hwput with hwl | ⟨n, hn, hnput, rfl⟩
    · -- it starts in the end of the match
      exact hlast hw hwl hlast' hQlast hz (prefix_of_prefix_append_apply hr (hL z hz) hzt)
    rcases suffix_append_cases (a := head ++ [' ']) (b := d :: new) (by simpa using hnput) with
      hnn | ⟨k, hk, hkh, rfl⟩
    · -- it starts in the new text
      exact hnew n last _ z hn hnn hlast' hz hzt
    · -- it starts in the head or at the space, so it lies in the head
      obtain ⟨u, hu⟩ := hkh
      rcases List.eq_nil_or_concat k with rfl | ⟨k, e, rfl⟩
      · exact hk rfl
      rw [List.concat_eq_append, ← List.append_assoc] at hu
      obtain ⟨rfl, he⟩ := List.append_inj' hu rfl
      obtain rfl : e = ' ' := by simpa using he
      have hzk : z <+: k := (hL z hz).prefix_of_prefix_append (by simpa using hzt)
      have hav := hhead hhead' (hQ hs ⟨[], by simp [hcs]; rfl⟩)
      exact hav z hz (hzk.isInfix.trans (List.suffix_append u k).isInfix)
  | case3 c s hit ih =>
    intro z hz hz'
    rcases List.infix_cons_iff.mp hz' with hz' | hz'
    · exact hnone hs hit hz (prefix_of_prefix_append_apply hr (w := [c]) (hL z hz) hz')
    · exact ih (hQ hs (List.suffix_cons c s)) z hz hz'

/-- What avoids a set before a widening rule avoids it after. -/
theorem avoids_apply (hr : r.Widens heads d new ends) (hL : ∀ z, L z → Unbroken d z)
    (hnil : ¬ L [])
    (hnew : ∀ n last x z, n ≠ [] → n <:+ d :: new → last ∈ ends → L z → ¬ z <+: n ++ last ++ x)
    {s : List Char} (hs : Avoids L s) : Avoids L (r.apply s) := by
  refine avoids_apply_of hr hL hnil hnew (Q := Avoids L) (fun h ht => h.of_infix ht.isInfix)
    (fun h _ hz hz' => h _ hz hz'.isInfix) (fun _ h => h.of_infix List.infix_append_left) ?_ hs
  intro w last rest z _ hw _ h hz hz'
  obtain ⟨u, rfl⟩ := hw
  exact h z hz (hz'.isInfix.trans ⟨u, [], by simp⟩)

/-- After a widening rule no match of its own is left, if none lies in the
head of a match and none starts in what it puts after. -/
theorem clear_apply_self (hread : r.Reads L) (hr : r.Widens heads d new ends)
    (hL : ∀ z, L z → Unbroken d z) (hnil : ¬ L []) (hhead : ∀ head ∈ heads, Avoids L head)
    (hnew : ∀ n last x z, n ≠ [] → n <:+ d :: new → last ∈ ends → L z → ¬ z <+: n ++ last ++ x)
    (hlast : ∀ w last x z, w ≠ [] → w <:+ last → last ∈ ends → L z → ¬ z <+: w ++ x)
    (hfirst : ∀ {s z}, L z → z <+: s → r.hit s ≠ none) (s : List Char) :
    r.Clear (r.apply s) := by
  rw [hread]
  exact avoids_apply_of hr hL hnil hnew (Q := fun _ => True) (fun _ _ => trivial)
    (fun _ h hz hz' => hfirst hz hz' h) (fun h _ => hhead _ h)
    (fun hw hwl hl _ hz => hlast _ _ _ _ hw hwl hl hz) trivial

/-- The characters after a widening rule are those before and those it puts
in. -/
theorem mem_of_mem_apply (hr : r.Widens heads d new ends) {s : List Char} {c : Char}
    (h : c ∈ r.apply s) : c ∈ s ∨ c ∈ ' ' :: d :: new := by
  fun_induction r.apply s with
  | case1 => exact Or.inl h
  | case2 a s put rest hit ih =>
    obtain ⟨head, -, gone, last, -, hs, rfl⟩ := hr hit
    rw [hs]
    simp only [List.mem_append] at h ⊢
    rcases h with ((h | h) | h) | h
    · simp [h]
    · exact Or.inr h
    · simp [h]
    · rcases ih h with h | h
      · simp [h]
      · exact Or.inr h
  | case3 a s _ ih =>
    rcases List.mem_cons.mp h with rfl | h
    · simp
    · exact (ih h).imp_left (List.mem_cons_of_mem a)

end Widening

end Rule
end Compositor.Text
