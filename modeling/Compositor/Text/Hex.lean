/-
# Hexadecimal numbers

Key definitions: `hexDigit?`, `hexValue?`, `charOf?`.
Key theorems: `charOf?_toNat`, `charOf?_surrogate`, `hexDigit?_of_hexAfter?`.
-/
namespace Compositor.Text

/-- The value of a hexadecimal digit, in either case. -/
def hexDigit? (c : Char) : Option Nat :=
  if '0' ≤ c ∧ c ≤ '9' then some (c.toNat - '0'.toNat)
  else if 'a' ≤ c ∧ c ≤ 'f' then some (c.toNat - 'a'.toNat + 10)
  else if 'A' ≤ c ∧ c ≤ 'F' then some (c.toNat - 'A'.toNat + 10)
  else none

/-- The value of digits that follow a number already read. -/
def hexAfter? : Nat → List Char → Option Nat
  | n, [] => some n
  | n, c :: s => (hexDigit? c).bind fun d => hexAfter? (16 * n + d) s

/-- The value of a text of hexadecimal digits, of which there is at least
one. -/
def hexValue? : List Char → Option Nat
  | [] => none
  | s => hexAfter? 0 s

/-- The character with a code point, if there is one: the surrogates and the
numbers beyond the last code point have none. -/
def charOf? (n : Nat) : Option Char :=
  if _h : n.isValidChar then some (Char.ofNat n) else none

theorem charOf?_toNat (c : Char) : charOf? c.toNat = some c :=
  (dif_pos c.valid).trans (congrArg some (Char.ofNat_toNat c))

/-- The halves of a surrogate pair are no characters. -/
theorem charOf?_surrogate {n : Nat} (hlow : 0xD800 ≤ n) (hhigh : n ≤ 0xDFFF) :
    charOf? n = none := by
  refine dif_neg fun h => ?_
  rcases h with h | ⟨h, -⟩
  · exact Nat.not_lt.mpr hlow h
  · exact Nat.not_lt.mpr hhigh h

/-- A text that is read as a number holds digits only. -/
theorem hexDigit?_of_hexAfter? {s : List Char} {n value : Nat} (h : hexAfter? n s = some value) :
    ∀ c ∈ s, hexDigit? c ≠ none := by
  induction s generalizing n with
  | nil => exact List.forall_mem_nil _
  | cons c s ih =>
    obtain ⟨d, hd, hrest⟩ := Option.bind_eq_some_iff.mp h
    refine List.forall_mem_cons.mpr ⟨?_, ih hrest⟩
    rw [hd]
    exact Option.some_ne_none d

end Compositor.Text
