/-
# Numbers read back

A number is read as the parts that it was written from, as long as these are
parts that a number of the format has and nothing follows that would go on
with it. Integers and decimal numbers are written from such parts; and the
parts make a decimal number again, since its digits do not end in a zero.

Key definitions: `Numeral.IsProper`, `EndsNumber`, `Decimal.IsStripped`.
Key theorems: `numeral?_chars`, `isProper_ofDecimal`, `decimal_ofDecimal`,
`integer?_ofInt`, `isStripped_of`, `isShort_of_half`.
-/
import Mathlib.Algebra.Group.Nat.Defs
import Compositor.Json.Parser
import Compositor.Json.Printer

namespace Compositor

/-! ### Decimal numbers in their one form -/

namespace Decimal

/-- No zero can be taken from the end of the digits. -/
def IsStripped (d : Decimal) : Prop := strip d.digits d.exponent = (d.digits, d.exponent)

theorem strip_zero (e : Int) : strip 0 e = (0, 0) := by
  rw [strip]
  exact dif_pos rfl

theorem strip_of_mod_ne_zero {n : Nat} (h : n % 10 ≠ 0) (e : Int) : strip n e = (n, e) := by
  have hn : n ≠ 0 := by
    rintro rfl
    exact h rfl
  rw [strip, dif_neg hn, if_neg h]

theorem strip_of_mod_eq_zero {n : Nat} (hn : n ≠ 0) (h : n % 10 = 0) (e : Int) :
    strip n e = strip (n / 10) (e + 1) := by
  rw [strip, dif_neg hn, if_pos h]

theorem strip_mul_pow (n k : Nat) (e : Int) : strip (n * 10 ^ k) e = strip n (e + k) := by
  by_cases hn : n = 0
  · rw [hn, Nat.zero_mul, strip_zero, strip_zero]
  · induction k generalizing e with
    | zero => rw [Nat.pow_zero, Nat.mul_one, Int.natCast_zero, Int.add_zero]
    | succ k ih =>
      have hpos : n * 10 ^ (k + 1) ≠ 0 :=
        Nat.mul_ne_zero hn (Nat.ne_of_gt (Nat.pow_pos (by decide)))
      have hsplit : n * 10 ^ (k + 1) = n * 10 ^ k * 10 := by rw [Nat.pow_succ, Nat.mul_assoc]
      rw [strip_of_mod_eq_zero hpos (by rw [hsplit, Nat.mul_mod_left]), hsplit,
        Nat.mul_div_cancel _ (by decide), ih]
      congr 1
      omega

/-- What is stripped off are zeros, and what is left does not end in one. -/
theorem exists_strip {n : Nat} (hn : n ≠ 0) (e : Int) :
    ∃ m k : Nat, m % 10 ≠ 0 ∧ n = m * 10 ^ k ∧ strip n e = (m, e + k) := by
  induction n using Nat.strongRecOn generalizing e with
  | _ n ih =>
    by_cases h : n % 10 = 0
    · obtain ⟨m, k, hm, heq, hstrip⟩ := ih (n / 10) (by omega) (by omega) (e + 1)
      refine ⟨m, k + 1, hm, ?_, ?_⟩
      · rw [Nat.pow_succ, ← Nat.mul_assoc, ← heq]
        omega
      · rw [strip_of_mod_eq_zero hn h, hstrip]
        congr 1
        omega
    · exact ⟨n, 0, h, by rw [Nat.pow_zero, Nat.mul_one], by
        rw [strip_of_mod_ne_zero h, Int.natCast_zero, Int.add_zero]⟩

theorem isStripped_of (negative : Bool) (n : Nat) (e : Int) : (of negative n e).IsStripped := by
  show strip (strip n e).1 (strip n e).2 = ((strip n e).1, (strip n e).2)
  by_cases hn : n = 0
  · rw [hn, strip_zero, strip_zero]
  · obtain ⟨m, k, hm, -, hstrip⟩ := exists_strip hn e
    rw [hstrip, strip_of_mod_ne_zero hm]

theorem of_mul_pow (negative : Bool) (n k : Nat) (e : Int) :
    of negative (n * 10 ^ k) e = of negative n (e + k) := by
  unfold of
  rw [strip_mul_pow]

theorem of_eq_self {d : Decimal} (h : d.IsStripped) : of d.negative d.digits d.exponent = d := by
  show (⟨d.negative, (strip d.digits d.exponent).1, (strip d.digits d.exponent).2⟩ : Decimal) = d
  rw [h]

theorem exponent_eq_zero {d : Decimal} (h : d.IsStripped) (hzero : d.digits = 0) :
    d.exponent = 0 := by
  have hstrip := h
  rw [IsStripped, hzero, strip_zero] at hstrip
  exact (Prod.mk.inj hstrip).2.symm

/-- A multiple of one half below 10000 has few digits. -/
theorem isShort_of_half (negative : Bool) {m : Nat} (hm : m < 20000) :
    (of negative (5 * m) (-1)).isShort = true := by
  have hbounds : (strip (5 * m) (-1)).1 < 10 ^ 6 ∧ -5 ≤ (strip (5 * m) (-1)).2 ∧
      (strip (5 * m) (-1)).2 ≤ 5 := by
    by_cases hzero : 5 * m = 0
    · rw [hzero, strip_zero]
      decide
    · obtain ⟨n, k, hn, heq, hstrip⟩ := exists_strip hzero (-1)
      have hpos : 1 ≤ n := by omega
      have hpow : 10 ^ k ≤ 5 * m := heq ▸ Nat.le_mul_of_pos_left _ hpos
      have hk : k < 5 := (Nat.pow_lt_pow_iff_right (by decide : 1 < 10)).mp (by omega)
      have hn' : n ≤ 5 * m := heq ▸ Nat.le_mul_of_pos_right _ (Nat.pow_pos (by decide))
      rw [hstrip]
      dsimp only
      omega
  simp only [isShort, Bool.and_eq_true, decide_eq_true_eq]
  exact ⟨⟨hbounds.1, hbounds.2.1⟩, hbounds.2.2⟩

end Decimal

namespace Json

/-! ### Digits -/

theorem isDigit_toDigits (n : Nat) : ∀ c ∈ Nat.toDigits 10 n, c.isDigit = true :=
  fun _ => Nat.isDigit_of_mem_toDigits (by decide) (by decide)

/-- A number but zero starts with another digit than zero. -/
theorem head?_toDigits {n : Nat} (hn : n ≠ 0) : (Nat.toDigits 10 n).head? ≠ some '0' := by
  induction n using Nat.strongRecOn with
  | _ n ih =>
    by_cases hlt : n < 10
    · rw [Nat.toDigits_of_lt_base hlt]
      exact fun hhead => hn (Nat.digitChar_eq_zero.mp (Option.some.inj hhead))
    · have hrest : n / 10 ≠ 0 := by omega
      rw [Nat.toDigits_of_base_le (by decide) (Nat.le_of_not_lt hlt), List.head?_append]
      cases hhead : (Nat.toDigits 10 (n / 10)).head? with
      | none => exact absurd (List.head?_eq_none_iff.mp hhead) Nat.toDigits_ne_nil
      | some c =>
        rw [Option.some_or, ← hhead]
        exact ih (n / 10) (by omega) hrest

/-- Digits are read up to what is no digit. -/
theorem digits?_append {ds rest : List Char} (hne : ds ≠ []) (hds : ∀ c ∈ ds, c.isDigit = true)
    (hrest : ∀ c, rest.head? = some c → c.isDigit = false) :
    digits? (ds ++ rest) = some (ds, rest) := by
  have htake : rest.takeWhile Char.isDigit = [] := by
    cases rest with
    | nil => rfl
    | cons c rest => exact List.takeWhile_cons_of_neg (Bool.eq_false_iff.mp (hrest c rfl))
  have hdrop : rest.dropWhile Char.isDigit = rest := by
    cases rest with
    | nil => rfl
    | cons c rest => exact List.dropWhile_cons_of_neg (Bool.eq_false_iff.mp (hrest c rfl))
  unfold digits?
  dsimp only
  rw [List.takeWhile_append_of_pos hds, htake, List.append_nil,
    List.dropWhile_append_of_pos hds, hdrop, if_neg (mt List.isEmpty_iff.mp hne)]

/-! ### Numbers of the format -/

/-- The digits are some, and a zero at their start stands alone. -/
structure Numeral.IsProper (n : Numeral) : Prop where
  whole_ne_nil : n.whole ≠ []
  whole_digits : ∀ c ∈ n.whole, c.isDigit = true
  no_zeros : n.whole = ['0'] ∨ n.whole.head? ≠ some '0'
  fraction_digits : ∀ c ∈ n.fraction, c.isDigit = true

/-- No number goes on with the text. -/
def EndsNumber (rest : List Char) : Prop :=
  ∀ c, rest.head? = some c → c.isDigit = false ∧ c ≠ '.' ∧ c ≠ 'e' ∧ c ≠ 'E'

/-- The digits of a number do not go on with the text, and no point follows. -/
def EndsDigits (rest : List Char) : Prop :=
  ∀ c, rest.head? = some c → c.isDigit = false ∧ c ≠ '.'

/-- An exponent as it is written. -/
def exponentChars : Option Int → List Char
  | none => []
  | some e => 'e' :: (if e < 0 then '-' else '+') :: Nat.toDigits 10 e.natAbs

theorem Numeral.chars_eq (n : Numeral) :
    n.chars = (if n.negative then ['-'] else []) ++
      (n.whole ++ ((if n.fraction.isEmpty then [] else '.' :: n.fraction) ++
        exponentChars n.exponent?)) := by
  unfold chars exponentChars
  cases n.exponent? <;> simp only [List.append_assoc]

section Reading

variable {n : Numeral} {rest : List Char}

theorem endsDigits_exponentChars (h : EndsNumber rest) (e? : Option Int) :
    EndsDigits (exponentChars e? ++ rest) := by
  cases e? with
  | none => exact fun c hc => ⟨(h c hc).1, (h c hc).2.1⟩
  | some e =>
    intro c hc
    rw [← Option.some.inj hc]
    decide

theorem exponent?_exponentChars (h : EndsNumber rest) (e? : Option Int) :
    exponent? (exponentChars e? ++ rest) = some (e?, rest) := by
  cases e? with
  | none =>
    cases rest with
    | nil => rfl
    | cons c rest =>
      obtain ⟨-, -, he, hE⟩ := h c rfl
      exact if_neg (not_or.mpr ⟨he, hE⟩)
  | some e =>
    have hdigits := digits?_append Nat.toDigits_ne_nil (isDigit_toDigits e.natAbs)
      fun c hc => (h c hc).1
    have hvalue : (Nat.ofDigitChars 10 (Nat.toDigits 10 e.natAbs) 0 : Int) = e.natAbs :=
      congrArg Nat.cast Nat.ofDigitChars_ten_toDigits
    rw [exponentChars, List.cons_append, exponent?, if_pos (.inl rfl), List.cons_append]
    by_cases he : e < 0
    · rw [if_pos he, exponentSign, hdigits, Option.map_some]
      dsimp only
      rw [if_pos rfl, hvalue]
      congr 3
      omega
    · rw [if_neg he, exponentSign, hdigits, Option.map_some]
      dsimp only
      rw [if_neg Bool.false_ne_true, hvalue]
      congr 3
      omega

theorem fraction?_append (hn : n.IsProper) (h : EndsDigits rest) :
    fraction? ((if n.fraction.isEmpty then [] else '.' :: n.fraction) ++ rest) =
      some (n.fraction, rest) := by
  by_cases hempty : n.fraction = []
  · rw [hempty, if_pos (by rfl), List.nil_append]
    cases rest with
    | nil => rfl
    | cons c rest =>
      unfold fraction?
      split
      · rename_i heq
        exact absurd (List.cons.inj heq).1 (h c rfl).2
      · rfl
  · rw [if_neg (mt List.isEmpty_iff.mp hempty)]
    exact digits?_append hempty hn.fraction_digits fun c hc => (h c hc).1

theorem whole?_append (hn : n.IsProper) (h : ∀ c, rest.head? = some c → c.isDigit = false) :
    whole? (n.whole ++ rest) = some (n.whole, rest) := by
  obtain hzero | hhead := hn.no_zeros
  · rw [hzero]
    rfl
  · unfold whole?
    split
    · rename_i s heq
      refine absurd ?_ hhead
      cases hwhole : n.whole with
      | nil => exact absurd hwhole hn.whole_ne_nil
      | cons c s' =>
        rw [hwhole] at heq
        exact congrArg some (List.cons.inj heq).1
    · exact digits?_append hn.whole_ne_nil hn.whole_digits h

theorem unsigned?_append (hn : n.IsProper) (h : EndsNumber rest) :
    unsigned? n.negative
      (n.whole ++ ((if n.fraction.isEmpty then [] else '.' :: n.fraction) ++
        (exponentChars n.exponent? ++ rest))) = some (n, rest) := by
  have hends := endsDigits_exponentChars h n.exponent?
  have hwhole : ∀ c,
      ((if n.fraction.isEmpty then [] else '.' :: n.fraction) ++
        (exponentChars n.exponent? ++ rest)).head? = some c → c.isDigit = false := by
    intro c hc
    split at hc
    · exact (hends c hc).1
    · rw [← Option.some.inj hc]
      rfl
  rw [unsigned?, whole?_append hn hwhole, Option.bind_some]
  dsimp only
  rw [fraction?_append hn hends, Option.bind_some]
  dsimp only
  rw [exponent?_exponentChars h, Option.map_some]

/-- A number is read as the parts that it was written from. -/
theorem numeral?_chars (hn : n.IsProper) (h : EndsNumber rest) :
    numeral? (n.chars ++ rest) = some (n, rest) := by
  have hread := unsigned?_append hn h
  rw [n.chars_eq, List.append_assoc, List.append_assoc, List.append_assoc]
  cases hnegative : n.negative with
  | true =>
    rw [hnegative] at hread
    exact hread
  | false =>
    rw [hnegative] at hread
    unfold numeral?
    split
    · rename_i s heq
      refine absurd ?_ (by decide : ¬ ('-' : Char).isDigit = true)
      cases hwhole : n.whole with
      | nil => exact absurd hwhole hn.whole_ne_nil
      | cons c s' =>
        rw [hwhole] at heq
        rw [← (List.cons.inj heq).1]
        exact hn.whole_digits c (hwhole ▸ List.mem_cons_self)
    · exact hread

end Reading

/-! ### Integers -/

theorem no_zeros_toDigits (n : Nat) :
    Nat.toDigits 10 n = ['0'] ∨ (Nat.toDigits 10 n).head? ≠ some '0' := by
  by_cases hn : n = 0
  · exact .inl (hn ▸ Nat.toDigits_zero 10)
  · exact .inr (head?_toDigits hn)

theorem isProper_ofInt (n : Int) : (Numeral.ofInt n).IsProper :=
  ⟨Nat.toDigits_ne_nil, isDigit_toDigits _, no_zeros_toDigits _, fun _ => nofun⟩

theorem digits_ofInt (n : Int) : (Numeral.ofInt n).digits = n.natAbs := by
  rw [Numeral.digits, Numeral.ofInt, List.append_nil, Nat.ofDigitChars_ten_toDigits]

theorem integer?_ofInt (n : Int) : (Numeral.ofInt n).integer? = some n := by
  have hsign : ¬ ((Numeral.ofInt n).negative = true ∧ (Numeral.ofInt n).digits = 0) := by
    rw [digits_ofInt]
    rintro ⟨hneg, hzero⟩
    have hlt : n < 0 := of_decide_eq_true hneg
    omega
  rw [Numeral.integer?, if_pos ⟨rfl, rfl, hsign⟩, digits_ofInt]
  by_cases hlt : n < 0
  · rw [if_pos (show (Numeral.ofInt n).negative = true from decide_eq_true hlt)]
    congr 1
    omega
  · rw [if_neg (show ¬ (Numeral.ofInt n).negative = true from mt of_decide_eq_true hlt)]
    congr 1
    omega

/-! ### Decimal numbers -/

section Decimals

variable {d : Decimal}

theorem length_toDigits_pos (n : Nat) : 0 < (Nat.toDigits 10 n).length :=
  List.length_pos_iff.mpr Nat.toDigits_ne_nil

theorem isDigit_zeros (k : Nat) : ∀ c ∈ List.replicate k '0', c.isDigit = true := by
  intro c hc
  rw [(List.mem_replicate.mp hc).2]
  rfl

/-- Zeros behind the digits of a number multiply it by a power of ten. -/
theorem ofDigitChars_append_zeros (n k : Nat) :
    Nat.ofDigitChars 10 (Nat.toDigits 10 n ++ List.replicate k '0') 0 = n * 10 ^ k := by
  rw [Nat.ofDigitChars_append, Nat.ofDigitChars_ten_toDigits, Nat.ofDigitChars_replicate_zero,
    Nat.mul_comm]

theorem isProper_ofDecimal (hd : d.IsStripped) : (Numeral.ofDecimal d).IsProper := by
  have hpos := length_toDigits_pos d.digits
  -- Zero has the exponent zero, so it is written as it is in the first case.
  have hzero : d.digits = 0 →
      0 ≤ d.exponent ∧ (Nat.toDigits 10 d.digits).length + d.exponent ≤ 13 := by
    intro hn
    rw [Decimal.exponent_eq_zero hd hn, hn]
    decide
  unfold Numeral.ofDecimal
  dsimp only
  split
  · refine ⟨List.append_ne_nil_of_left_ne_nil Nat.toDigits_ne_nil _,
      List.forall_mem_append.mpr ⟨isDigit_toDigits _, isDigit_zeros _⟩, ?_, isDigit_zeros 1⟩
    by_cases hn : d.digits = 0
    · left
      rw [hn, Decimal.exponent_eq_zero hd hn, Nat.toDigits_zero]
      rfl
    · right
      rw [List.head?_append, List.head?_eq_some_head Nat.toDigits_ne_nil, Option.some_or,
        ← List.head?_eq_some_head]
      exact head?_toDigits hn
  · rename_i hwhole
    have hn : d.digits ≠ 0 := fun hn => hwhole (hzero hn)
    have htake : ∀ k : Nat, k ≠ 0 → ((Nat.toDigits 10 d.digits).take k ≠ [] ∧
        ((Nat.toDigits 10 d.digits).take k).head? ≠ some '0') := by
      intro k hk
      refine ⟨mt List.take_eq_nil_iff.mp (not_or.mpr ⟨hk, Nat.toDigits_ne_nil⟩), ?_⟩
      rw [List.head?_take, if_neg hk]
      exact head?_toDigits hn
    split
    · obtain ⟨hne, hhead⟩ := htake ((Nat.toDigits 10 d.digits).length + d.exponent).toNat (by omega)
      exact ⟨hne, fun c hc => isDigit_toDigits _ c (List.mem_of_mem_take hc), .inr hhead,
        fun c hc => isDigit_toDigits _ c (List.mem_of_mem_drop hc)⟩
    · split
      · exact ⟨List.cons_ne_nil _ _, isDigit_zeros 1, .inl rfl,
          List.forall_mem_append.mpr ⟨isDigit_zeros _, isDigit_toDigits _⟩⟩
      · obtain ⟨hne, hhead⟩ := htake 1 (by decide)
        exact ⟨hne, fun c hc => isDigit_toDigits _ c (List.mem_of_mem_take hc), .inr hhead,
          fun c hc => isDigit_toDigits _ c (List.mem_of_mem_drop hc)⟩

/-- The parts that a number is written with make it again. -/
theorem decimal_ofDecimal (hd : d.IsStripped) : (Numeral.ofDecimal d).decimal = d := by
  have hpos := length_toDigits_pos d.digits
  have hvalue : Nat.ofDigitChars 10 (Nat.toDigits 10 d.digits) 0 = d.digits :=
    Nat.ofDigitChars_ten_toDigits
  refine Eq.trans ?_ (Decimal.of_eq_self hd)
  unfold Numeral.ofDecimal
  dsimp only
  split
  · rename_i hpoint
    rw [Numeral.decimal, Numeral.digits, List.append_assoc, ← List.replicate_succ',
      ofDigitChars_append_zeros, Decimal.of_mul_pow]
    congr 1
    simp only [Option.getD_none, List.length_singleton]
    omega
  · split
    · rename_i hpoint
      rw [Numeral.decimal, Numeral.digits, List.take_append_drop, hvalue]
      congr 1
      simp only [List.length_drop, Option.getD_none]
      omega
    · split
      · rename_i hpoint
        rw [Numeral.decimal, Numeral.digits, List.singleton_append, ← List.cons_append,
          ← List.replicate_succ, Nat.ofDigitChars_append, Nat.ofDigitChars_replicate_zero,
          Nat.mul_zero, hvalue]
        congr 1
        simp only [Option.getD_none, List.length_append, List.length_replicate]
        omega
      · rw [Numeral.decimal, Numeral.digits, List.take_append_drop, hvalue]
        congr 1
        simp only [List.length_drop, Option.getD_some]
        omega

end Decimals

end Json
end Compositor
