/-
# Bounds of rounded numbers

Rounding at most doubles the power of two that a quotient is below, in binary
formats, and it takes a number in decimal digits no further than one unit of
the power of ten tried. These bounds are far from sharp, but they are all that
is needed to know that a number of single precision is no longer as a decimal
number than it can be read.

Key definitions: `Binary.IsBelow`, `Decimal.magnitude`.
Key theorems: `BinaryFormat.isBelow_round`, `Decimal.magnitude_shortest_le`.
-/
import Mathlib.Tactic.GCongr
import Mathlib.Tactic.Ring
import Compositor.Decimal.Shortest
import Compositor.Proofs.Json.Numerals

namespace Compositor

/-! ### Scaled quotients -/

theorem scaled_of_nonneg (base : Nat) {power : Int} (h : 0 ≤ power) (q : Nat × Nat) :
    scaled base power q = (q.1 * base ^ power.toNat, q.2) := if_pos h

theorem scaled_of_nonpos (base : Nat) {power : Int} (h : power ≤ 0) (q : Nat × Nat) :
    scaled base power q = (q.1, q.2 * base ^ (-power).toNat) := by
  by_cases hzero : power = 0
  · subst hzero
    rw [scaled_of_nonneg base (Int.le_refl 0)]
    simp
  · exact if_neg (by omega)

/-! ### Binary numbers -/

/-- The number is at most a power of two. -/
def Binary.IsBelow (b : Binary) (k : Nat) : Prop := b.quotient.1 ≤ b.quotient.2 * 2 ^ k

theorem Binary.quotient_pos (b : Binary) : 0 < b.quotient.2 := by
  unfold quotient scaled
  split
  · exact Nat.one_pos
  · exact Nat.mul_pos Nat.one_pos (Nat.pow_pos (by decide))

theorem logQuotient_le {q : Nat × Nat} {k : Nat} (h : q.1 ≤ q.2 * 2 ^ k) :
    logQuotient q ≤ k := by
  have hlog : q.1.log2 ≤ q.2.log2 + k := by
    by_cases hzero : q.1 = 0
    · simp [hzero]
    · refine Nat.lt_succ_iff.mp ((Nat.log2_lt hzero).mpr ?_)
      calc q.1 ≤ q.2 * 2 ^ k := h
        _ < 2 ^ (q.2.log2 + 1) * 2 ^ k :=
          Nat.mul_lt_mul_of_pos_right Nat.lt_log2_self (Nat.pow_pos (by decide))
        _ = 2 ^ (q.2.log2 + k + 1) := by rw [← Nat.pow_add]; congr 1; omega
  unfold logQuotient
  dsimp only
  split <;> omega

namespace BinaryFormat

variable {f : BinaryFormat} {q : Nat × Nat} {k : Nat}

/-- A quotient is rounded to at most twice the power of two that it is below. -/
theorem isBelow_round (hq : 0 < q.2) (h : q.1 ≤ q.2 * 2 ^ k) (hleast : f.least ≤ k)
    (hdigits : 0 < f.digits) : (f.round q).IsBelow (k + 1) := by
  have hlog := logQuotient_le h
  have hexponent : max f.least (logQuotient q + 1 - f.digits) ≤ k := by omega
  unfold round
  dsimp only
  generalize max f.least (logQuotient q + 1 - f.digits) = e at hexponent
  unfold Binary.IsBelow Binary.quotient
  dsimp only
  by_cases he : 0 ≤ e
  · have hneg : -e ≤ 0 := by omega
    rw [scaled_of_nonneg 2 he, scaled_of_nonpos 2 hneg, Int.neg_neg]
    have hpos : 0 < q.2 * 2 ^ e.toNat := Nat.mul_pos hq (Nat.pow_pos (by decide))
    obtain ⟨-, hround⟩ := roundQuotient_within_half q.1 hpos
    have hpow : 2 ^ e.toNat ≤ 2 ^ k := Nat.pow_le_pow_right (by decide) (by omega)
    generalize roundQuotient q.1 (q.2 * 2 ^ e.toNat) = m at hround
    have hbound : q.2 * (2 * (m * 2 ^ e.toNat)) ≤ q.2 * (3 * 2 ^ k) := by
      calc q.2 * (2 * (m * 2 ^ e.toNat)) = 2 * (q.2 * 2 ^ e.toNat * m) := by ring
        _ ≤ 2 * q.1 + q.2 * 2 ^ e.toNat := hround
        _ ≤ 2 * (q.2 * 2 ^ k) + q.2 * 2 ^ k := by gcongr
        _ = q.2 * (3 * 2 ^ k) := by ring
    have := Nat.le_of_mul_le_mul_left hbound hq
    dsimp only
    rw [Nat.pow_succ]
    omega
  · have hneg : e ≤ 0 := by omega
    have hpos : 0 ≤ -e := by omega
    rw [scaled_of_nonpos 2 hneg, scaled_of_nonneg 2 hpos]
    obtain ⟨-, hround⟩ := roundQuotient_within_half (q.1 * 2 ^ (-e).toNat) hq
    have hpow : 1 ≤ 2 ^ (-e).toNat := Nat.one_le_two_pow
    generalize roundQuotient (q.1 * 2 ^ (-e).toNat) q.2 = m at hround
    have hbound : q.2 * (2 * m) ≤ q.2 * (2 * (2 ^ k * 2 ^ (-e).toNat) + 1) := by
      calc q.2 * (2 * m) = 2 * (q.2 * m) := by ring
        _ ≤ 2 * (q.1 * 2 ^ (-e).toNat) + q.2 := hround
        _ ≤ 2 * (q.2 * 2 ^ k * 2 ^ (-e).toNat) + q.2 := by gcongr
        _ = q.2 * (2 * (2 ^ k * 2 ^ (-e).toNat) + 1) := by ring
    have := Nat.le_of_mul_le_mul_left hbound hq
    have hone : 1 ≤ 2 ^ k * 2 ^ (-e).toNat := Nat.mul_pos (Nat.pow_pos (by decide)) hpow
    dsimp only
    rw [Nat.one_mul, Nat.pow_succ, Nat.mul_comm (2 ^ (-e).toNat), Nat.mul_right_comm]
    omega

theorem holds_of_isBelow {b : Binary} (h : b.IsBelow k) (hk : k < f.limit) :
    f.holds b = true := by
  have hpow : 2 ^ k < 2 ^ f.limit := Nat.pow_lt_pow_right (by decide) hk
  exact decide_eq_true (Nat.lt_of_le_of_lt h (Nat.mul_lt_mul_of_pos_left hpow b.quotient_pos))

end BinaryFormat

/-! ### Decimal numbers -/

namespace Decimal

/-- The number of digits before the point; below zero it counts the zeros
right behind the point. -/
def magnitude (d : Decimal) : Int := (Nat.toDigits 10 d.digits).length + d.exponent

theorem length_toDigits_mul_pow {m : Nat} (hm : m ≠ 0) (k : Nat) :
    (Nat.toDigits 10 (m * 10 ^ k)).length = (Nat.toDigits 10 m).length + k := by
  induction k with
  | zero => rw [Nat.pow_zero, Nat.mul_one, Nat.add_zero]
  | succ k ih =>
    have hpos : 0 < m * 10 ^ k := Nat.mul_pos (Nat.pos_of_ne_zero hm) (Nat.pow_pos (by decide))
    have hsplit : m * 10 ^ (k + 1) = m * 10 ^ k * 10 := by rw [Nat.pow_succ, Nat.mul_assoc]
    rw [hsplit, Nat.toDigits_of_base_le (by decide) (by omega), List.length_append,
      Nat.mul_div_cancel _ (by decide), ih]
    rfl

/-- Digits that are stripped off do not change the magnitude. -/
theorem magnitude_of (negative : Bool) {n : Nat} (hn : n ≠ 0) (e : Int) :
    (of negative n e).magnitude = (Nat.toDigits 10 n).length + e := by
  obtain ⟨m, k, hm, rfl, hstrip⟩ := exists_strip hn e
  have hm : m ≠ 0 := by omega
  rw [length_toDigits_mul_pow hm, magnitude, of, hstrip]
  dsimp only
  omega

theorem magnitude_zero (negative : Bool) : (zero negative).magnitude = 1 := by
  cases negative <;> decide +kernel

theorem length_toDigits_le {n k : Nat} (h : n < 10 ^ k) (hk : 0 < k) :
    (Nat.toDigits 10 n).length ≤ k :=
  (Nat.length_toDigits_le_iff (by decide) hk).mpr h

theorem powerAbove_le {q : Nat × Nat} {k : Nat} (h : q.1 < q.2 * 10 ^ k) (hk : 0 < k) :
    powerAbove q ≤ k := by
  unfold powerAbove
  split
  · have hdiv : q.1 / q.2 < 10 ^ k := Nat.div_lt_of_lt_mul h
    have := length_toDigits_le hdiv hk
    omega
  · have := Json.length_toDigits_pos (q.2 / q.1)
    omega

/-- The multiple is one of the two next to the number. -/
theorem le_of_multipleFor? {f : BinaryFormat} {b : Binary} {power : Int} {n : Nat}
    (h : multipleFor? f b power = some n) :
    n ≠ 0 ∧ n ≤ (scaled 10 (-power) b.quotient).1 / (scaled 10 (-power) b.quotient).2 + 1 := by
  unfold multipleFor? at h
  dsimp only at h
  generalize scaled 10 (-power) b.quotient = rest at h ⊢
  have hnear : roundQuotient rest.1 rest.2 ≤ rest.1 / rest.2 + 1 := by
    unfold roundQuotient
    dsimp only
    split <;> omega
  have htest := List.find?_some h
  refine ⟨by simpa using (Bool.and_eq_true_iff.mp htest).1, ?_⟩
  have hmem := List.mem_of_find?_eq_some h
  rw [List.mem_cons, List.mem_singleton] at hmem
  rcases hmem with rfl | rfl
  · exact hnear
  · split <;> omega

theorem scaled_lt {q : Nat × Nat} {k : Nat} {power : Int} (h : q.1 < q.2 * 10 ^ k)
    (hpower : power ≤ k) :
    (scaled 10 (-power) q).1 < (scaled 10 (-power) q).2 * 10 ^ (k - power).toNat := by
  by_cases hsign : 0 ≤ power
  · have hsum : k = power.toNat + (k - power).toNat := by omega
    rw [scaled_of_nonpos 10 (by omega), Int.neg_neg]
    dsimp only
    rwa [Nat.mul_assoc, ← Nat.pow_add, ← hsum]
  · have hsum : (k - power).toNat = k + (-power).toNat := by omega
    rw [scaled_of_nonneg 10 (by omega), hsum, Nat.pow_add, ← Nat.mul_assoc]
    exact Nat.mul_lt_mul_of_pos_right h (Nat.pow_pos (by decide))

theorem lt_pow_of_multipleFor? {f : BinaryFormat} {b : Binary} {power : Int} {n k : Nat}
    (h : multipleFor? f b power = some n) (hb : b.quotient.1 < b.quotient.2 * 10 ^ k)
    (hpower : power ≤ k) : n < 10 ^ ((k - power).toNat + 1) := by
  obtain ⟨-, hle⟩ := le_of_multipleFor? h
  have hbelow := Nat.div_lt_of_lt_mul (scaled_lt hb hpower)
  have hpos : 0 < 10 ^ (k - power).toNat := Nat.pow_pos (by decide)
  rw [Nat.pow_succ]
  omega

theorem magnitude_shortest_le (f : BinaryFormat) (negative : Bool) {b : Binary} {k : Nat}
    (h : b.quotient.1 < b.quotient.2 * 10 ^ k) (hk : 0 < k) :
    (shortest f negative b).magnitude ≤ k + 1 := by
  unfold shortest
  split
  · rw [magnitude_zero]
    omega
  · dsimp only
    cases hfound : (List.range 20).findSome? _ with
    | none =>
      rw [Option.getD_none, magnitude_zero]
      omega
    | some d =>
      obtain ⟨i, -, hi⟩ := List.exists_of_findSome?_eq_some hfound
      obtain ⟨n, hn, rfl⟩ := Option.map_eq_some_iff.mp hi
      have hpower : powerAbove b.quotient - (i : Int) ≤ k := by
        have := powerAbove_le h hk
        omega
      have hlt := lt_pow_of_multipleFor? hn h hpower
      have hlength := length_toDigits_le hlt (by omega)
      rw [Option.getD_some, magnitude_of negative (le_of_multipleFor? hn).1]
      omega

theorem isStripped_shortest (f : BinaryFormat) (negative : Bool) (b : Binary) :
    (shortest f negative b).IsStripped := by
  unfold shortest
  split
  · exact isStripped_of _ _ _
  · dsimp only
    cases hfound : (List.range 20).findSome? _ with
    | none => exact isStripped_of _ _ _
    | some d =>
      obtain ⟨i, -, hi⟩ := List.exists_of_findSome?_eq_some hfound
      obtain ⟨n, -, rfl⟩ := Option.map_eq_some_iff.mp hi
      exact isStripped_of _ _ _

end Decimal
end Compositor
