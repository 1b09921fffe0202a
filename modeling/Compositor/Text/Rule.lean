/-
# Replacement by rules

A rule may match at the head of a text, and then says what to put in place
of the match. Applied to a text it replaces the leftmost match, goes on
after it, and does not look at what it has put.

Key definitions: `Rule`, `Rule.apply`, `applyAll`.
Key theorems: `Rule.apply_eq_or_countP_lt`, `applyAll_eq_or_countP_lt`: rules
whose every match uses up a character of some kind leave a text as it is or
with fewer characters of that kind.
-/
namespace Compositor.Text

/-- A rule of replacement: for a match at the head of a text, what to put in
its place and the text after it. A match is not empty. -/
structure Rule where
  hit : List Char → Option (List Char × List Char)
  length_lt_of_hit : ∀ {s put rest}, hit s = some (put, rest) → rest.length < s.length

namespace Rule

/-- The text with every match replaced, from left to right. -/
def apply (r : Rule) : List Char → List Char
  | [] => []
  | c :: s =>
    match _h : r.hit (c :: s) with
    | some (put, rest) => put ++ r.apply rest
    | none => c :: r.apply s
termination_by s => s.length
decreasing_by
  · exact r.length_lt_of_hit _h
  · simp

theorem apply_eq_or_countP_lt (r : Rule) (p : Char → Bool)
    (h : ∀ {s put rest}, r.hit s = some (put, rest) →
      put.countP p + rest.countP p < s.countP p) (s : List Char) :
    r.apply s = s ∨ (r.apply s).countP p < s.countP p := by
  fun_induction r.apply s with
  | case1 => exact .inl rfl
  | case2 c s put rest hit ih =>
    have := h hit
    right
    rw [List.countP_append]
    rcases ih with ih | ih
    · rw [ih]; exact this
    · omega
  | case3 c s _ ih =>
    rcases ih with ih | ih
    · exact .inl (by rw [ih])
    · exact .inr (by simp only [List.countP_cons]; omega)

end Rule

/-- The text after each of the rules in turn. -/
def applyAll (rules : List Rule) (s : List Char) : List Char :=
  rules.foldl (fun t r => r.apply t) s

theorem applyAll_eq_or_countP_lt (p : Char → Bool) (rules : List Rule)
    (h : ∀ r ∈ rules, ∀ s, r.apply s = s ∨ (r.apply s).countP p < s.countP p) (s : List Char) :
    applyAll rules s = s ∨ (applyAll rules s).countP p < s.countP p := by
  induction rules generalizing s with
  | nil => exact .inl rfl
  | cons r rules ih =>
    have hr := h r (by simp) s
    have hrs := ih (fun q hq => h q (by simp [hq])) (r.apply s)
    change applyAll rules (r.apply s) = s ∨ (applyAll rules (r.apply s)).countP p < s.countP p
    rcases hr with hr | hr
    · rw [hr] at hrs ⊢; exact hrs
    · rcases hrs with hrs | hrs
      · exact .inr (by rw [hrs]; exact hr)
      · exact .inr (Nat.lt_trans hrs hr)

end Compositor.Text
