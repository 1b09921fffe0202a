/-
# Values in Unicode escapes

A value can be written in UTF-16: an escape of four digits for each unit, so
one for a character up to U+FFFF and two for one beyond. Each escape is read by
itself. So a character up to U+FFFF comes back, whatever it is, and a value
comes back if and only if it has no others: of a character beyond, neither half
names a character, and each leaves the letter and the digits of its escape.

Key definitions: `IsHalf`, `units16`, `SpellsUnit`, `unitEscape`, `readAlone`, `readUnits`.
Key theorems: `unescape_flatMap_unitEscape`, `readUnits_eq_self_iff`,
`parseProperties_unitEscapes`.
-/
import Mathlib.Data.List.Forall2
import Compositor.Proofs.Macro.Properties

namespace Compositor.Macro
open Text

/-! ### Units -/

/-- The last character that is one unit in UTF-16. -/
def lastOfPlane : Nat := 0xFFFF

/-- Is the unit a half of a surrogate pair? -/
def IsHalf (n : Nat) : Prop := 0xD800 ≤ n ∧ n ≤ 0xDFFF

instance (n : Nat) : Decidable (IsHalf n) := inferInstanceAs (Decidable (_ ∧ _))

/-- The units of a character in UTF-16: its number, or the two halves of a
surrogate pair. -/
def units16 (c : Char) : List Nat :=
  if c.toNat ≤ lastOfPlane then [c.toNat]
  else [0xD800 + (c.toNat - 0x10000) / 0x400, 0xDC00 + (c.toNat - 0x10000) % 0x400]

/-- Are these four digits, in either case, the number? -/
structure SpellsUnit (n : Nat) (digits : List Char) : Prop where
  four : digits.length = 4
  value : hexValue? digits = some n

/-- The escape with the digits. -/
def unitEscape (digits : List Char) : List Char := '\\' :: 'u' :: digits

/-- What a unit is read as without the units around it: a half of a surrogate pair
as the letter and the digits of its escape. -/
def readAlone (n : Nat) (digits : List Char) : List Char :=
  if IsHalf n then 'u' :: digits else [Char.ofNat n]

theorem not_isHalf_toNat (c : Char) : ¬ IsHalf c.toNat := by
  rintro ⟨hlow, hhigh⟩
  have hchar := charOf?_toNat c
  rw [charOf?_surrogate hlow hhigh] at hchar
  cases hchar

theorem readAlone_toNat (c : Char) (digits : List Char) : readAlone c.toNat digits = [c] := by
  rw [readAlone, if_neg (not_isHalf_toNat c), Char.ofNat_toNat]

/-- A character beyond U+FFFF is a high half and a low half. -/
theorem units16_of_lt {c : Char} (h : lastOfPlane < c.toNat) :
    ∃ high low, units16 c = [high, low] ∧ IsHalf high ∧ IsHalf low := by
  have hvalid : c.toNat < 0x110000 := by
    rcases c.valid with h | ⟨-, h⟩
    · exact Nat.lt_trans h (by decide)
    · exact h
  rw [lastOfPlane] at h
  refine ⟨_, _, if_neg (Nat.not_le.mpr h), ⟨?_, ?_⟩, ?_, ?_⟩ <;> omega

/-! ### Escapes -/

theorem hexDigit?_of_spellsUnit {n : Nat} {digits : List Char} (h : SpellsUnit n digits) :
    ∀ c ∈ digits, hexDigit? c ≠ none := by
  cases digits with
  | nil => exact List.forall_mem_nil _
  | cons c digits => exact hexDigit?_of_hexAfter? h.value

theorem escapedChar?_of_spellsUnit {n : Nat} {digits : List Char} (h : SpellsUnit n digits) :
    escapedChar? digits = charOf? n := by
  have hplus : ∀ s, digits ≠ '+' :: s := by
    rintro s rfl
    exact hexDigit?_of_spellsUnit h '+' List.mem_cons_self (by decide)
  unfold escapedChar?
  split
  · exact absurd rfl (hplus _)
  · rw [h.value, Option.bind_some]

/-- The number of a unit is that of a character, or the unit is half of a pair. -/
theorem unescape_unitEscape {n : Nat} {digits : List Char} (h : SpellsUnit n digits)
    (hn : IsHalf n ∨ ∃ c : Char, c.toNat = n) (s : List Char) :
    unescape (unitEscape digits ++ s) = readAlone n digits ++ unescape s := by
  have htake : (digits ++ s).take 4 = digits := List.take_left' h.four
  have hdrop : (digits ++ s).drop 4 = s := List.drop_left' h.four
  have hstep : unitEscape digits ++ s = '\\' :: 'u' :: (digits ++ s) := rfl
  rw [hstep, unescape, htake, hdrop, escapedChar?_of_spellsUnit h]
  rcases hn with hn | ⟨c, rfl⟩
  · rw [charOf?_surrogate hn.1 hn.2, readAlone, if_pos hn]
  · rw [charOf?_toNat, readAlone_toNat]

/-- The escape of a unit is in one piece. -/
theorem piece_unitEscape {n : Nat} {digits : List Char} (h : SpellsUnit n digits) :
    Piece (unitEscape digits) := by
  have hdigits := hexDigit?_of_spellsUnit h
  have hnot : ∀ c, hexDigit? c = none → c ∉ digits := fun c hc hmem => hdigits c hmem hc
  have hne : digits ≠ [] := by
    rintro rfl
    cases h.four
  obtain ⟨front, last, hlast⟩ := (List.eq_nil_or_concat digits).resolve_left hne
  rw [List.concat_eq_append] at hlast
  have hmem : last ∈ digits := by
    rw [hlast]
    exact List.mem_append_right _ (List.mem_singleton_self last)
  have hescape : unitEscape digits = ('\\' :: 'u' :: front) ++ [last] := by
    rw [unitEscape, hlast]
    rfl
  refine ⟨⟨'\\', 'u' :: digits, rfl, by decide⟩, ?_, ?_, fun s _ => ?_⟩
  · rw [unitEscape, List.mem_cons, List.mem_cons, not_or, not_or]
    exact ⟨by decide, by decide, hnot '\n' (by decide)⟩
  · rw [hescape, List.getLast?_concat]
    rintro hreturn
    obtain rfl := Option.some.inj hreturn
    exact hnot '\r' (by decide) hmem
  · rw [hescape, ← List.append_assoc]
    refine continues_append_of_ne ?_ _
    rintro rfl
    exact hnot '\\' (by decide) hmem

theorem piece_of_mem_map_unitEscape {units : List Nat} {digits : List (List Char)}
    (h : List.Forall₂ SpellsUnit units digits) : ∀ p ∈ digits.map unitEscape, Piece p := by
  induction h with
  | nil => exact List.forall_mem_nil _
  | cons hfirst _ ih => exact List.forall_mem_cons.mpr ⟨piece_unitEscape hfirst, ih⟩

/-! ### Values -/

/-- What the escapes of units are read as, each by itself. -/
def readUnits (units : List Nat) (digits : List (List Char)) : List Char :=
  (List.zipWith readAlone units digits).flatten

theorem readUnits_cons (n : Nat) (units : List Nat) (first : List Char)
    (digits : List (List Char)) :
    readUnits (n :: units) (first :: digits) = readAlone n first ++ readUnits units digits := rfl

/-- A unit is half of a pair or the number of a character. -/
theorem isHalf_or_character (s : List Char) :
    ∀ n ∈ s.flatMap units16, IsHalf n ∨ ∃ c : Char, c.toNat = n := by
  intro n hn
  obtain ⟨c, -, hn⟩ := List.mem_flatMap.mp hn
  rcases Nat.lt_or_ge lastOfPlane c.toNat with hc | hc
  · obtain ⟨high, low, hunits, hhigh, hlow⟩ := units16_of_lt hc
    rw [hunits, List.mem_cons, List.mem_singleton] at hn
    rcases hn with rfl | rfl
    · exact .inl hhigh
    · exact .inl hlow
  · rw [units16, if_pos hc, List.mem_singleton] at hn
    exact .inr ⟨c, hn.symm⟩

theorem unescape_flatMap_unitEscape {units : List Nat} {digits : List (List Char)}
    (h : List.Forall₂ SpellsUnit units digits)
    (hunits : ∀ n ∈ units, IsHalf n ∨ ∃ c : Char, c.toNat = n) :
    unescape (digits.flatMap unitEscape) = readUnits units digits := by
  induction h with
  | nil =>
    rw [List.flatMap_nil, unescape]
    rfl
  | cons hfirst hrest ih =>
    obtain ⟨hn, hunits⟩ := List.forall_mem_cons.mp hunits
    rw [List.flatMap_cons, unescape_unitEscape hfirst hn, ih hunits, readUnits_cons]

/-- No unit is read as nothing. -/
theorem length_le_length_readUnits {units : List Nat} {digits : List (List Char)}
    (h : units.length = digits.length) : units.length ≤ (readUnits units digits).length := by
  induction units generalizing digits with
  | nil => exact Nat.zero_le _
  | cons n units ih =>
    cases digits with
    | nil => cases h
    | cons first digits =>
      have hfirst : 0 < (readAlone n first).length := by
        unfold readAlone
        split
        · exact Nat.succ_pos _
        · exact Nat.one_pos
      have hrest := ih (Nat.succ.inj h)
      rw [readUnits_cons, List.length_append, List.length_cons]
      omega

variable {s : List Char} {digits : List (List Char)}

theorem length_units16_pos (c : Char) : 0 < (units16 c).length := by
  unfold units16
  split
  · exact Nat.one_pos
  · exact Nat.two_pos

theorem length_le_length_units16 (s : List Char) : s.length ≤ (s.flatMap units16).length := by
  induction s with
  | nil => exact Nat.le_refl 0
  | cons c s ih =>
    have hfirst := length_units16_pos c
    rw [List.flatMap_cons, List.length_append, List.length_cons]
    omega

/-- A text with a character beyond U+FFFF has more units than characters. -/
theorem length_lt_length_units16 (h : ∃ c ∈ s, lastOfPlane < c.toNat) :
    s.length < (s.flatMap units16).length := by
  obtain ⟨c, hc, hlt⟩ := h
  obtain ⟨front, back, rfl⟩ := List.append_of_mem hc
  obtain ⟨high, low, hunits, -⟩ := units16_of_lt hlt
  have hfront := length_le_length_units16 front
  have hback := length_le_length_units16 back
  rw [List.flatMap_append, List.flatMap_cons, hunits]
  simp only [List.length_append, List.length_cons, List.length_nil]
  omega

theorem readUnits_eq_self (h : List.Forall₂ SpellsUnit (s.flatMap units16) digits)
    (hs : ∀ c ∈ s, c.toNat ≤ lastOfPlane) : readUnits (s.flatMap units16) digits = s := by
  induction s generalizing digits with
  | nil => rfl
  | cons c s ih =>
    obtain ⟨hc, hs⟩ := List.forall_mem_cons.mp hs
    have hunits : (c :: s).flatMap units16 = c.toNat :: s.flatMap units16 := by
      rw [List.flatMap_cons, units16, if_pos hc, List.singleton_append]
    rw [hunits] at h ⊢
    obtain ⟨first, rest, -, hrest, rfl⟩ := List.forall₂_cons_left_iff.mp h
    rw [readUnits_cons, readAlone_toNat, ih hrest hs, List.singleton_append]

/-- **A text comes back if and only if it has no character beyond U+FFFF.** -/
theorem readUnits_eq_self_iff (h : List.Forall₂ SpellsUnit (s.flatMap units16) digits) :
    readUnits (s.flatMap units16) digits = s ↔ ∀ c ∈ s, c.toNat ≤ lastOfPlane := by
  refine ⟨fun hself => ?_, readUnits_eq_self h⟩
  -- a character beyond makes more units than characters, and each unit is read as something
  by_contra hnot
  have hbeyond : ∃ c ∈ s, lastOfPlane < c.toNat := by
    simpa only [not_forall, Nat.not_le, exists_prop] using hnot
  have hunits := length_lt_length_units16 hbeyond
  have hread := length_le_length_readUnits h.length_eq
  rw [hself] at hread
  omega

/-! ### A property -/

theorem isBlank_of_isAlpha {c : Char} (h : c.isAlpha = true) : isBlank c = false := by
  have hletter : 65 ≤ c.toNat ∧ c.toNat ≤ 90 ∨ 97 ≤ c.toNat ∧ c.toNat ≤ 122 := by
    rcases Bool.or_eq_true_iff.mp h with hupper | hlower
    · exact .inl (of_decide_eq_true hupper)
    · change (decide (97 ≤ c.toNat) && decide (c.toNat ≤ 122)) = true at hlower
      exact .inr (by simpa using hlower)
  have hranges : ∀ r ∈ blankRanges, r.2 < 65 ∨ 122 < r.1 := by decide
  rw [isBlank, CodeRanges.holds, List.any_eq_false]
  intro r hr
  have hrange := hranges r hr
  rw [Bool.and_eq_true, decide_eq_true_eq, decide_eq_true_eq]
  omega

/-- A letter needs no escape. -/
theorem escape_of_isAlpha {c : Char} (h : c.isAlpha = true) : escape c = [c] := by
  have hne : ∀ d, d.isAlpha = false → c ≠ d := by
    rintro d hd rfl
    rw [hd] at h
    cases h
  have hmarkers : ∀ d ∈ markers, d.isAlpha = false := List.all_iff_forall_prop.mp (by decide)
  have hmarker : c ∉ markers := fun hc => hne c (hmarkers c hc) rfl
  rw [escape, if_neg (hne _ (by decide)), if_neg (hne _ (by decide)), if_neg (hne _ (by decide)),
    if_neg (hne _ (by decide)), isBlank_of_isAlpha h, if_neg]
  exact not_or.mpr ⟨hmarker, Bool.false_ne_true⟩

theorem flatMap_escape_of_isAlpha {key : List Char} (hkey : ∀ c ∈ key, c.isAlpha = true) :
    key.flatMap escape = key := by
  rw [List.flatMap_congr fun c hc => escape_of_isAlpha (hkey c hc), List.flatMap_singleton']

theorem skipBlanks_flatMap_unitEscape (digits : List (List Char)) :
    skipBlanks (digits.flatMap unitEscape) = digits.flatMap unitEscape := by
  cases digits with
  | nil => rfl
  | cons first digits => exact skipBlanks_eq_self fun c hc => Option.some.inj hc ▸ by decide

/-- What the line of a key of letters and a value in escapes is read as. -/
theorem parseProperties_flatMap_unitEscape {key : String}
    (hkey : ∀ c ∈ key.toList, c.isAlpha = true)
    (h : List.Forall₂ SpellsUnit (s.flatMap units16) digits) :
    parseProperties (String.ofList (key.toList ++ '=' :: digits.flatMap unitEscape)) =
      [(key, String.ofList (readUnits (s.flatMap units16) digits))] := by
  have hline : key.toList ++ '=' :: digits.flatMap unitEscape =
      (keyed key.toList (digits.map unitEscape)).flatten ++ [] := by
    rw [flatten_keyed, flatMap_escape_of_isAlpha hkey, ← List.flatMap_def, List.append_nil]
  rw [parseProperties, String.toList_ofList, hline,
    map_property_keyed (piece_of_mem_map_unitEscape h) (wrapped_flatten _) .last, logicalLines_nil,
    List.map_nil, ← List.flatMap_def, skipBlanks_flatMap_unitEscape,
    unescape_flatMap_unitEscape h (isHalf_or_character s), String.ofList_toList]

/-- **A value in Unicode escapes comes back if and only if it has no character
beyond U+FFFF.** The line is one pair with its key whatever the value is, and the
value in the pair is what the escapes are read as, each by itself. -/
theorem parseProperties_unitEscapes {key value : String}
    (hkey : ∀ c ∈ key.toList, c.isAlpha = true) {digits : List (List Char)}
    (h : List.Forall₂ SpellsUnit (value.toList.flatMap units16) digits) :
    let line := String.ofList (key.toList ++ '=' :: digits.flatMap unitEscape)
    parseProperties line =
        [(key, String.ofList (readUnits (value.toList.flatMap units16) digits))] ∧
      (parseProperties line = [(key, value)] ↔ ∀ c ∈ value.toList, c.toNat ≤ lastOfPlane) := by
  intro line
  have hline := parseProperties_flatMap_unitEscape hkey h
  have hread : ∀ x, String.ofList x = value ↔ x = value.toList := by
    intro x
    rw [← String.toList_inj, String.toList_ofList]
  refine ⟨hline, ?_⟩
  rw [hline, List.singleton_inj, Prod.mk.injEq, hread, readUnits_eq_self_iff h]
  exact and_iff_right rfl

/-- A separator, a backslash, a tab and the last character that is one unit come
back; of a space and a character beyond only the space does. -/
theorem reads_unitEscapes :
    parseProperties "Key=\\u003d\\u005C\\u0009\\uFFff" = [("Key", "=\\\t\uffff")] ∧
      parseProperties "Key=\\u0020\\uD83D\\uDE00" = [("Key", " uD83DuDE00")] := by
  have hkey : ∀ c ∈ "Key".toList, c.isAlpha = true := List.all_eq_true.mp (by decide)
  have hunits : "=\\\t\uffff".toList.flatMap units16 = [0x3D, 0x5C, 0x9, 0xFFFF] := by decide
  have hspelt : List.Forall₂ SpellsUnit ("=\\\t\uffff".toList.flatMap units16)
      ["003d".toList, "005C".toList, "0009".toList, "FFff".toList] := by
    rw [hunits]
    exact .cons ⟨rfl, rfl⟩ (.cons ⟨rfl, rfl⟩ (.cons ⟨rfl, rfl⟩ (.cons ⟨rfl, rfl⟩ .nil)))
  have hunits' : " 😀".toList.flatMap units16 = [0x20, 0xD83D, 0xDE00] := by decide
  have hspelt' : List.Forall₂ SpellsUnit (" 😀".toList.flatMap units16)
      ["0020".toList, "D83D".toList, "DE00".toList] := by
    rw [hunits']
    exact .cons ⟨rfl, rfl⟩ (.cons ⟨rfl, rfl⟩ (.cons ⟨rfl, rfl⟩ .nil))
  have hplane : ∀ c ∈ "=\\\t\uffff".toList, c.toNat ≤ lastOfPlane :=
    List.all_iff_forall_prop.mp (by decide)
  exact ⟨(parseProperties_unitEscapes hkey hspelt).2.mpr hplane,
    (parseProperties_unitEscapes hkey hspelt').1⟩

/-- The two halves of a character are read as the letters and digits of their
escapes. -/
theorem loses_surrogatePair :
    List.Forall₂ SpellsUnit ("😀".toList.flatMap units16) ["D83D".toList, "DE00".toList] ∧
      parseProperties "KEY=\\uD83D\\uDE00" = [("KEY", "uD83DuDE00")] ∧
      parseProperties "KEY=\\uD83D\\uDE00" ≠ [("KEY", "😀")] := by
  have hunits : "😀".toList.flatMap units16 = [0xD83D, 0xDE00] := by decide
  refine ⟨?_, by decide +kernel, by decide +kernel⟩
  rw [hunits]
  exact .cons ⟨rfl, rfl⟩ (.cons ⟨rfl, rfl⟩ .nil)

end Compositor.Macro
