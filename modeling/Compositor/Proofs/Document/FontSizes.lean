/-
# Font sizes read back

A size that was read from a number is either infinite or a number of at most
40 digits before the point, and such a number can be read to a size again:
the power of ten that its digits are multiplied by stays far below the one
that is beyond all doubles. Powers below zero are divided by and never fail.

Key definition: `FontSize.IsModest`.
Key theorems: `Json.isSome_timesPower?`, `FontSize.isModest_of_ofNumeral?`,
`FontSize.IsModest.exists_ofNumeral?`.
-/
import Compositor.Document.Snapshot
import Compositor.Proofs.Decimal.Bounds

namespace Compositor
open Json

/-! ### Double precision -/

namespace Json

theorem isBelow_powerOfTen {e : Nat} (he : e ≤ 40) : (powerOfTen e).IsBelow 134 := by
  have hpow : 10 ^ e ≤ 1 * 2 ^ 133 :=
    calc 10 ^ e ≤ 10 ^ 40 := Nat.pow_le_pow_right (by decide) he
      _ ≤ 1 * 2 ^ 133 := by decide
  exact BinaryFormat.isBelow_round Nat.one_pos hpow (by decide) (by decide)

theorem times_le {f g : Binary} {k l : Nat} (hf : f.IsBelow k) (hg : g.IsBelow l) :
    (f.times g).1 ≤ (f.times g).2 * 2 ^ (k + l) := by
  calc (f.times g).1 = f.quotient.1 * g.quotient.1 := rfl
    _ ≤ f.quotient.2 * 2 ^ k * (g.quotient.2 * 2 ^ l) := Nat.mul_le_mul hf hg
    _ = (f.times g).2 * 2 ^ (k + l) := by rw [Binary.times, Nat.pow_add]; ring

/-- What is divided by powers of ten is never beyond all doubles. -/
theorem isSome_timesPower?_of_neg {f : Binary} {e : Int} (he : e < 0) :
    (timesPower? f e).isSome = true := by
  fun_induction timesPower? f e with
  | case1 => rfl
  | case2 f e hgreat => exact absurd (Int.lt_trans hgreat he) (by decide)
  | case3 f e _ hsign | case4 f e _ hsign => exact absurd he (Int.not_lt.mpr hsign)
  | case5 | case6 => rfl
  | case7 f e _ _ hstep _ ih => exact ih (by simp only [greatestPower] at *; omega)

/-- A power of ten up to `10 ^ 40` goes well with a number below `2 ^ 65`. -/
theorem isSome_timesPower? {f : Binary} {e : Int} (hf : f.IsBelow 65) (he : e ≤ 40) :
    (timesPower? f e).isSome = true := by
  by_cases hsign : 0 ≤ e
  · have hbelow : (BinaryFormat.double.round (f.times (powerOfTen e.toNat))).IsBelow 200 :=
      BinaryFormat.isBelow_round (Nat.mul_pos f.quotient_pos (powerOfTen _).quotient_pos)
        (times_le hf (isBelow_powerOfTen (by omega))) (by decide) (by decide)
    rw [timesPower?, if_neg (by simp only [greatestPower]; omega), if_pos hsign]
    dsimp only
    rw [if_pos (BinaryFormat.holds_of_isBelow hbelow (by decide))]
    rfl
  · exact isSome_timesPower?_of_neg (Int.not_le.mp hsign)

theorem takeDigits_le {n : Nat} {s : List Char} : (takeDigits n s).2 ≤ s.length := by
  fun_induction takeDigits n s with
  | case1 n => exact Nat.le_refl 0
  | case2 n c s next hnext ih => exact Nat.le_succ_of_le ih
  | case3 n c s next hnext => exact Nat.le_refl _

theorem isSome_double? {n : Numeral} (h : n.exponent?.getD 0 + n.whole.length ≤ 40) :
    n.double?.isSome = true := by
  have hskipped := takeDigits_le (n := 0) (s := n.whole)
  have hlt := takeDigits_lt (n := (takeDigits 0 n.whole).1) (s := n.fraction)
    (takeDigits_lt (by decide))
  refine isSome_timesPower? (BinaryFormat.isBelow_round Nat.one_pos (k := 64) ?_ (by decide)
    (by decide)) (by omega)
  exact (Nat.one_mul _).symm ▸ Nat.le_of_lt hlt

theorem isSome_double?_ofDecimal {d : Decimal} (h : d.magnitude ≤ 40) :
    (Numeral.ofDecimal d).double?.isSome = true := by
  refine isSome_double? ?_
  unfold Decimal.magnitude at h
  unfold Numeral.ofDecimal
  dsimp only
  split
  · simp only [Option.getD_none, List.length_append, List.length_replicate]
    omega
  · split
    · simp only [Option.getD_none, List.length_take]
      omega
    · split
      · have : (0 : Int) + (1 : Nat) ≤ 40 := by decide
        exact this
      · simp only [Option.getD_some, List.length_take]
        omega

end Json

/-! ### Sizes -/

namespace FontSize

/-- The size is no number, or one that is not far before the point. -/
def IsModest (size : FontSize) : Prop := ∀ d, size = .finite d → d.IsStripped ∧ d.magnitude ≤ 40

theorem isModest_ofQuotient (negative : Bool) (q : Nat × Nat) :
    (ofQuotient negative q).IsModest := by
  unfold ofQuotient
  dsimp only
  split
  · rename_i hholds
    rintro _ ⟨⟩
    have hlt : (BinaryFormat.single.round q).quotient.1 <
        (BinaryFormat.single.round q).quotient.2 * 10 ^ 39 :=
      Nat.lt_of_lt_of_le (of_decide_eq_true hholds) (Nat.mul_le_mul_left _ (by decide))
    exact ⟨Decimal.isStripped_shortest _ _ _,
      Decimal.magnitude_shortest_le .single negative hlt (by decide)⟩
  · exact nofun

theorem isModest_of_isShort {d : Decimal} (hd : d.IsStripped) (hshort : d.isShort = true) :
    (finite d).IsModest := by
  rintro _ ⟨⟩
  simp only [Decimal.isShort, Bool.and_eq_true, decide_eq_true_eq] at hshort
  have hlength := Decimal.length_toDigits_le hshort.1.1 (by decide)
  refine ⟨hd, ?_⟩
  unfold Decimal.magnitude
  omega

theorem isModest_of_ofNumeral? {n : Numeral} {size : FontSize} (h : ofNumeral? n = some size) :
    size.IsModest := by
  unfold ofNumeral? at h
  split at h
  · rename_i hshort
    cases h
    exact isModest_of_isShort (Decimal.isStripped_of _ _ _) hshort
  · split at h
    · cases h
      exact isModest_ofQuotient _ _
    · obtain ⟨b, -, rfl⟩ := Option.map_eq_some_iff.mp h
      exact isModest_ofQuotient _ _

theorem isModest_of_ofJson? {v : Json} {size : FontSize} (h : ofJson? v = some size) :
    size.IsModest := by
  obtain ⟨n, -, hn⟩ := Option.bind_eq_some_iff.mp h
  exact isModest_of_ofNumeral? hn

/-- The number that a modest size is written as can be read to a size. -/
theorem IsModest.exists_ofNumeral? {d : Decimal} (h : (finite d).IsModest) :
    ∃ size, ofNumeral? (.ofDecimal d) = some size := by
  obtain ⟨-, hmagnitude⟩ := h d rfl
  unfold ofNumeral?
  split
  · exact ⟨_, rfl⟩
  · split
    · exact ⟨_, rfl⟩
    · obtain ⟨b, hb⟩ := Option.isSome_iff_exists.mp (isSome_double?_ofDecimal hmagnitude)
      exact ⟨_, by rw [hb, Option.map_some]⟩

end FontSize
end Compositor
