/-
# Bracket keywords

The middle line stands for a bracket that has a side: `left mline` is
`left lline`, and `right mline` is `right rline`.

Key definitions: `keywordRules`, `fixKeywords`.
-/
import Compositor.Text.Blank
import Compositor.Text.Start
import Compositor.Text.Rule

namespace Compositor.Formula
open Text

/-- The match of `side` and `mline` with blanks between, and what to put. -/
def keywordHit (side put s : List Char) : Option (List Char × List Char) :=
  match after? side s with
  | some (c :: t) =>
    if isBlank c then
      (after? ['m', 'l', 'i', 'n', 'e'] (skipBlanks t)).map fun rest => (put, rest)
    else none
  | _ => none

theorem length_lt_of_keywordHit {side put s out rest : List Char}
    (h : keywordHit side put s = some (out, rest)) : rest.length < s.length := by
  unfold keywordHit at h
  split at h
  · rename_i c t hs
    split at h
    · obtain ⟨r, hr, he⟩ := Option.map_eq_some_iff.1 h
      cases he
      have h1 := length_lt_of_after? hr (by simp)
      have h2 := length_skipBlanks_le t
      rw [after?_eq_some_iff] at hs
      simp [hs]
      omega
    · cases h
  · cases h

/-- The rule that completes one side. -/
def keywordRule (side put : String) : Rule where
  hit := keywordHit side.toList put.toList
  length_lt_of_hit := length_lt_of_keywordHit

def keywordRules : List Rule :=
  [keywordRule "left" "left lline", keywordRule "right" "right rline"]

/-- The text with its bracket keywords corrected. -/
def fixKeywords : List Char → List Char := applyAll keywordRules

end Compositor.Formula
