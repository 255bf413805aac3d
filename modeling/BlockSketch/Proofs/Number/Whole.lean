import BlockSketch.Proofs.Number.RoundTrip

/-
Whole numbers in field texts. Up to the size of a word they are far below what rounds to infinity.
-/
namespace BlockSketch
namespace Binary64

theorem roundDiv_le (num den : Nat) : roundDiv num den ≤ num / den + 1 := by
  simp only [roundDiv]
  split
  · omega
  · split
    · omega
    · split <;> omega

theorem nearestWord_lt_infinity {n : Nat} (small : n < 2 ^ 64) :
    nearestWord n 1 < infinityWord := by
  rcases Nat.eq_zero_or_pos n with rfl | positive
  · decide
  · obtain ⟨e, scale, low, high⟩ := scaleOfRatio_spec positive Nat.one_pos
    have bound : (n : ℚ) / (1 : Nat) < 2 ^ 52 * 2 ^ (12 : Int) := by
      have cast : (n : ℚ) < 2 ^ 64 := by exact_mod_cast small
      norm_num
      linarith
    have exponent : e < 12 := exponent_lt low bound (by norm_num)
    set q := scaleOfRatio n 1 with scaled
    have significand : n * 2 ^ (-q).toNat / (1 * 2 ^ q.toNat) < 2 ^ 53 := by
      have unit := two_zpow_pos q
      have wider : (2 : ℚ) ^ e ≤ 2 ^ q := zpow_le_zpow_right₀ (by norm_num) (by omega)
      have ratio : ((n * 2 ^ (-q).toNat : Nat) : ℚ) / ((1 * 2 ^ q.toNat : Nat) : ℚ) < 2 ^ 53 := by
        rw [ratio_scaled, div_lt_iff₀ unit]
        exact high.trans_le (mul_le_mul_of_nonneg_left wider (by norm_num))
      have places : 0 < 1 * 2 ^ q.toNat := by positivity
      rw [Nat.div_lt_iff_lt_mul places]
      rw [div_lt_iff₀ (by exact_mod_cast places)] at ratio
      exact_mod_cast ratio
    have rounded := roundDiv_le (n * 2 ^ (-q).toNat) (1 * 2 ^ q.toNat)
    simp only [nearestWord, positive.ne', if_false, Nat.shiftLeft_eq, ← scaled]
    have field : (q + 1074).toNat ≤ 1085 := by omega
    have word : (q + 1074).toNat * 0x10000000000000 +
        roundDiv (n * 2 ^ (-q).toNat) (1 * 2 ^ q.toNat) <
        infinityWord := by
      simp only [infinityWord]
      omega
    exact (Nat.min_le_right _ _).trans_lt word

theorem ofText_whole {n : Nat} (small : n < 2 ^ 64) :
    ∃ x, ofText? (Text.trim (toString n)) = some x ∧ x.isFinite = true := by
  have digits := allDigits_repr n
  have numeral : Code.IsNumeral (toString n).toList := isNumeral_whole digits (Text.repr_ne_nil n)
  have reads : ofText? (Text.trim (toString n)) = some (ofDecimal false n 0) := by
    rw [Text.trim_of_visible (numeral_visible numeral), ofText_numeral numeral]
    exact (decimalText_whole false digits (Text.repr_ne_nil n)).trans (by rw [digits_of_repr])
  have word : ofDecimal false n 0 = ofMagnitude false (nearestWord n 1) := by
    rcases Nat.eq_zero_or_pos n with rfl | positive
    · decide
    · have kept : ¬ (n.log2 : Int) < -400 := by omega
      simp [ofDecimal, positive.ne', kept]
  have below := nearestWord_lt_infinity small
  refine ⟨_, reads, ?_⟩
  rw [word, isFinite, (magnitude_ofMagnitude false (below.trans (by decide))).1]
  exact decide_eq_true below

end Binary64
end BlockSketch
