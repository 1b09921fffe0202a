/-
# Rules, match by match

The text after a rule is put together from what stands in the place of each
match and the characters between. A relation that holds between a text and
itself, goes over to texts put together and holds between every match and what
is put in its place holds between a text and the text after the rule.

Key theorems: `Rule.exists_first_hit`, `Rule.apply_rel`, `applyAll_rel`.
-/
import Compositor.Text.Rule

namespace Compositor.Text

namespace Rule

variable {r : Rule}

theorem apply_of_hit {s put rest : List Char} (h : r.hit s = some (put, rest)) :
    r.apply s = put ++ r.apply rest := by
  cases s with
  | nil => exact absurd (r.length_lt_of_hit h) (Nat.not_lt_zero _)
  | cons c s =>
    rw [apply]
    split
    · rename_i put' rest' h'
      rw [h] at h'
      obtain ⟨rfl, rfl⟩ := Prod.mk.inj (Option.some.inj h')
      rfl
    · rename_i h'
      rw [h] at h'
      cases h'

theorem apply_of_none {c : Char} {s : List Char} (h : r.hit (c :: s) = none) :
    r.apply (c :: s) = c :: r.apply s := by
  rw [apply]
  split
  · rename_i h'
    rw [h] at h'
    cases h'
  · rfl

/-- The first match of a text with a match, and the text after the rule. -/
theorem exists_first_hit {v : List Char} (h : r.hit v ≠ none) (u : List Char) :
    ∃ u' v' put rest, u' <+: u ∧ u ++ v = u' ++ v' ∧ r.hit v' = some (put, rest) ∧
      r.apply (u ++ v) = u' ++ put ++ r.apply rest := by
  induction u with
  | nil =>
    obtain ⟨⟨put, rest⟩, hhit⟩ := Option.ne_none_iff_exists'.mp h
    exact ⟨[], v, put, rest, List.prefix_refl [], rfl, hhit, apply_of_hit hhit⟩
  | cons c u ih =>
    cases hhit : r.hit (c :: (u ++ v)) with
    | some out => exact ⟨[], _, out.1, out.2, List.nil_prefix, rfl, hhit, apply_of_hit hhit⟩
    | none =>
      obtain ⟨u', v', put, rest, hu', hsplit, hhit', happly⟩ := ih
      refine ⟨c :: u', v', put, rest, List.cons_prefix_cons.mpr ⟨rfl, hu'⟩, by simp [hsplit],
        hhit', ?_⟩
      rw [List.cons_append, apply_of_none hhit, happly]
      rfl

theorem apply_rel {R : List Char → List Char → Prop} (refl : ∀ s, R s s)
    (append : ∀ {s s' t t'}, R s s' → R t t' → R (s ++ t) (s' ++ t'))
    (hit : ∀ {s put rest}, r.hit s = some (put, rest) → ∃ z, s = z ++ rest ∧ R z put)
    (s : List Char) : R s (r.apply s) := by
  fun_induction r.apply s with
  | case1 => exact refl []
  | case2 c s put rest h ih =>
    obtain ⟨z, hz, hput⟩ := hit h
    rw [hz]
    exact append hput ih
  | case3 c s _ ih => exact append (refl [c]) ih

end Rule

theorem applyAll_cons (r : Rule) (rules : List Rule) (s : List Char) :
    applyAll (r :: rules) s = applyAll rules (r.apply s) := rfl

theorem applyAll_rel {R : List Char → List Char → Prop} (refl : ∀ s, R s s)
    (trans : ∀ {s t u}, R s t → R t u → R s u) {rules : List Rule}
    (h : ∀ r ∈ rules, ∀ s, R s (r.apply s)) (s : List Char) : R s (applyAll rules s) := by
  induction rules generalizing s with
  | nil => exact refl s
  | cons r rules ih =>
    have hrest := ih (fun q hq => h q (List.mem_cons_of_mem r hq)) (r.apply s)
    exact trans (h r List.mem_cons_self s) hrest

end Compositor.Text
