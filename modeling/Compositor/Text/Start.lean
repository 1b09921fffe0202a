/-
# What a text starts with

Key definition: `after?`.
Key theorems: `after?_eq_some_iff`, `length_lt_of_after?`.
-/
namespace Compositor.Text

/-- What follows `word` in a text that starts with it. -/
def after? : (word s : List Char) → Option (List Char)
  | [], s => some s
  | _ :: _, [] => none
  | w :: word, c :: s => if w = c then after? word s else none

theorem after?_eq_some_iff {word s rest : List Char} :
    after? word s = some rest ↔ s = word ++ rest := by
  induction word generalizing s with
  | nil => simp [after?]
  | cons w word ih =>
    cases s with
    | nil => simp [after?]
    | cons c s =>
      by_cases h : w = c
      · simp [after?, h, ih]
      · simp [after?, h, Ne.symm h]

theorem length_lt_of_after? {word s rest : List Char} (h : after? word s = some rest)
    (hw : word ≠ []) : rest.length < s.length := by
  rw [after?_eq_some_iff] at h
  cases word with
  | nil => exact absurd rfl hw
  | cons w word =>
    rw [h]
    simp only [List.cons_append, List.length_cons, List.length_append]
    omega

end Compositor.Text
