/-
# Operators without an operand

A formula cut where a line wrapped can leave a binary operator with nothing
on one side: right after a wrap sign `#` or an opening brace, or right
before a wrap sign or a closing brace. An empty group takes the place of the
missing operand.

Key definitions: `leftRule`, `rightRule`, `fixOperators`.
-/
import Compositor.Text.Blank
import Compositor.Text.Start
import Compositor.Text.Rule

namespace Compositor.Formula
open Text

/-- The operators that cannot open an expression. -/
def leftOperators : List (List Char) :=
  (["*", "/", "&", "|", "=", "<", ">", ",", "cdot", "times", "div"] : List String).map (·.toList)

/-- The operators that cannot close an expression. -/
def rightOperators : List (List Char) :=
  (["+", "-", "/", "&", "|", "=", "<", ">", "cdot", "times", "div", "plusminus", "minusplus"]
    : List String).map (·.toList)

/-- The operator of the list that a text starts with, and what follows it. -/
def operator? (operators : List (List Char)) (s : List Char) : Option (List Char × List Char) :=
  operators.findSome? fun op => (after? op s).map fun rest => (op, rest)

theorem length_lt_of_operator? {operators : List (List Char)} (hne : [] ∉ operators)
    {s op rest : List Char} (h : operator? operators s = some (op, rest)) :
    rest.length < s.length := by
  obtain ⟨o, ho, h⟩ := List.exists_of_findSome?_eq_some h
  obtain ⟨r, hr, he⟩ := Option.map_eq_some_iff.1 h
  cases he
  exact length_lt_of_after? hr fun hnil => hne (hnil ▸ ho)

/-- Two tokens with an empty group between them. -/
def spaced (left right : List Char) : List Char :=
  left ++ [' ', '{', '}', ' '] ++ right

/-- An operator after a wrap sign or an opening brace. -/
def leftHit : List Char → Option (List Char × List Char)
  | [] => none
  | c :: s =>
    if c = '#' ∨ c = '{' then
      (operator? leftOperators (skipBlanks s)).map fun (op, rest) => (spaced [c] op, rest)
    else none

/-- An operator before a wrap sign or a closing brace. -/
def rightHit (s : List Char) : Option (List Char × List Char) :=
  match operator? rightOperators s with
  | none => none
  | some (op, t) =>
    match skipBlanks t with
    | [] => none
    | c :: rest => if c = '#' ∨ c = '}' then some (spaced op [c], rest) else none

theorem length_lt_of_leftHit {s put rest : List Char} (h : leftHit s = some (put, rest)) :
    rest.length < s.length := by
  unfold leftHit at h
  split at h
  · cases h
  · rename_i c s
    split at h
    · obtain ⟨⟨op, r⟩, hr, he⟩ := Option.map_eq_some_iff.1 h
      cases he
      have h1 := length_lt_of_operator? (by decide) hr
      have h2 := length_skipBlanks_le s
      simp
      omega
    · cases h

theorem length_lt_of_rightHit {s put rest : List Char} (h : rightHit s = some (put, rest)) :
    rest.length < s.length := by
  unfold rightHit at h
  split at h
  · cases h
  · rename_i op t ht
    split at h
    · cases h
    · rename_i c r hr
      split at h
      · cases h
        have h1 := length_lt_of_operator? (by decide) ht
        have h2 := length_skipBlanks_le t
        rw [hr] at h2
        simp at h2
        omega
      · cases h

def leftRule : Rule := ⟨leftHit, length_lt_of_leftHit⟩

def rightRule : Rule := ⟨rightHit, length_lt_of_rightHit⟩

/-- The text with an empty group wherever an operator lacks an operand. -/
def fixOperators (s : List Char) : List Char := rightRule.apply (leftRule.apply s)

end Compositor.Formula
