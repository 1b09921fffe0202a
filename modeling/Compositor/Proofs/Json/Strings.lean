/-
# Strings read back

Each character of a text is written as itself or as an escape, and either is
read as one piece of the literal. The pieces make the text again, whatever its
characters are: a control character without a letter of its own is named by
its number, which is no half of a surrogate pair.

Key theorems: `exists_piece`, `pieces?_escaped`, `token?_escape`.
-/
import Compositor.Json.Parser
import Compositor.Json.Printer

namespace Compositor.Json
open Text

/-- The four digits that a control character is written with. -/
theorem fourDigits?_control :
    ∀ n < 0x20, fourDigits? '0' '0' (hexDigit (n / 16)) (hexDigit (n % 16)) = some n := by
  decide

/-- A unit that opens no surrogate pair stands for a character by itself,
whatever follows it. -/
theorem decodePieces_unit {n : Nat} {c : Char} (hn : isHighUnit n = false)
    (hc : charOf? n = some c) (ps : List Piece) :
    decodePieces (.unit n :: ps) = (decodePieces ps).map (c :: ·) := by
  cases ps with
  | nil => simp only [decodePieces, hc]
  | cons p ps =>
    cases p with
    | char _ => simp only [decodePieces, hc]
    | unit low =>
      rw [decodePieces, hn, if_neg Bool.false_ne_true, hc]

/-- The characters that are escaped by a letter. -/
def lettered : List Char := ['"', '\\', '\x08', '\x0c', '\n', '\r', '\t']

theorem escapeChar_of_not_lettered {c : Char} (h : c ∉ lettered) :
    escapeChar c =
      if c.toNat < 0x20 then
        ['\\', 'u', '0', '0', hexDigit (c.toNat / 16), hexDigit (c.toNat % 16)]
      else [c] := by
  simp only [lettered, List.mem_cons, List.not_mem_nil, or_false, not_or] at h
  obtain ⟨hquote, hslash, hback, hfeed, hline, hreturn, htab⟩ := h
  rw [escapeChar, if_neg hquote, if_neg hslash, if_neg hback, if_neg hfeed, if_neg hline,
    if_neg hreturn, if_neg htab]

/-- A character that needs no escape is a piece by itself. -/
theorem pieces?_cons {c : Char} (hletter : c ∉ lettered) (hcontrol : ¬ c.toNat < 0x20)
    (rest : List Char) :
    pieces? (c :: rest) = (pieces? rest).map fun (ps, rest) => (.char c :: ps, rest) := by
  simp only [lettered, List.mem_cons, List.not_mem_nil, or_false, not_or] at hletter
  obtain ⟨hquote, hslash, -⟩ := hletter
  rw [pieces?.eq_def]
  split
  · contradiction
  · rename_i heq
    exact absurd (List.cons.inj heq).1 hquote
  · rename_i heq
    exact absurd (List.cons.inj heq).1 hslash
  · rename_i heq
    exact absurd (List.cons.inj heq).1 hslash
  · rename_i heq
    obtain ⟨rfl, rfl⟩ := List.cons.inj heq
    rw [if_neg (not_or.mpr ⟨hslash, hcontrol⟩)]

/-- What is written for a character is read as one piece, and the piece stands
for the character. -/
theorem exists_piece (c : Char) :
    ∃ p : Piece,
      (∀ rest, pieces? (escapeChar c ++ rest) =
        (pieces? rest).map fun (ps, rest) => (p :: ps, rest)) ∧
      ∀ ps, decodePieces (p :: ps) = (decodePieces ps).map (c :: ·) := by
  by_cases hletter : c ∈ lettered
  · refine ⟨.char c, fun rest => ?_, fun _ => rfl⟩
    simp only [lettered, List.mem_cons, List.not_mem_nil, or_false] at hletter
    obtain rfl | rfl | rfl | rfl | rfl | rfl | rfl := hletter <;> rfl
  · rw [escapeChar_of_not_lettered hletter]
    by_cases hcontrol : c.toNat < 0x20
    · refine ⟨.unit c.toNat, fun rest => ?_, decodePieces_unit ?_ (charOf?_toNat c)⟩
      · rw [if_pos hcontrol]
        simp only [List.cons_append, List.nil_append, pieces?, fourDigits?_control _ hcontrol]
      · simp only [isHighUnit, Bool.and_eq_false_iff, decide_eq_false_iff_not]
        omega
    · refine ⟨.char c, fun rest => ?_, fun _ => rfl⟩
      rw [if_neg hcontrol, List.singleton_append]
      exact pieces?_cons hletter hcontrol rest

/-- The pieces of a text as it is written make the text again. -/
theorem pieces?_escaped (s rest : List Char) :
    ∃ ps, pieces? (s.flatMap escapeChar ++ '"' :: rest) = some (ps, rest) ∧
      decodePieces ps = some s := by
  induction s with
  | nil => exact ⟨[], rfl, rfl⟩
  | cons c s ih =>
    obtain ⟨p, hread, hdecode⟩ := exists_piece c
    obtain ⟨ps, hpieces, hs⟩ := ih
    refine ⟨p :: ps, ?_, ?_⟩
    · rw [List.flatMap_cons, List.append_assoc, hread, hpieces]
      rfl
    · rw [hdecode, hs]
      rfl

/-- A string literal is read as the text that it was written for. -/
theorem token?_escape (s : String) (rest : List Char) :
    token? (escape s.toList ++ rest) = some (.string (some s), rest) := by
  obtain ⟨ps, hpieces, hdecode⟩ := pieces?_escaped s.toList rest
  have hread : token? (escape s.toList ++ rest) =
      (pieces? (s.toList.flatMap escapeChar ++ '"' :: rest)).map fun (ps, rest) =>
        (.string ((decodePieces ps).map String.ofList), rest) := by
    rw [escape, List.append_assoc]
    rfl
  rw [hread, hpieces, Option.map_some]
  dsimp only
  rw [hdecode, Option.map_some, String.ofList_toList]

end Compositor.Json
