import Mathlib.Algebra.Order.Field.Power
import Mathlib.Algebra.Order.Field.Rat
import Mathlib.Data.Nat.Cast.Field
import Mathlib.Tactic.FieldSimp
import Mathlib.Tactic.Linarith
import Mathlib.Tactic.Positivity
import Mathlib.Tactic.Ring
import BlockSketch.Number.Shortest

/-
Rounding to the nearest number. The rationals that round to a number form an interval around it,
closed if its significand is even, and what lies in the interval is given the word of the number.
-/
namespace BlockSketch.Binary64

/-! Rounding a ratio to an integer -/

structure Nearest (r : ℚ) (k : Nat) : Prop where
  low : (k : ℚ) - 1 / 2 < r ∨ (k : ℚ) - 1 / 2 = r ∧ k % 2 = 0
  high : r < (k : ℚ) + 1 / 2 ∨ r = (k : ℚ) + 1 / 2 ∧ k % 2 = 0

theorem Nearest.naturals {num den k : Nat} (positive : 0 < den)
    (nearest : Nearest ((num : ℚ) / den) k) :
    (2 * k * den < 2 * num + den ∨ 2 * k * den = 2 * num + den ∧ k % 2 = 0) ∧
    (2 * num < 2 * k * den + den ∨ 2 * num = 2 * k * den + den ∧ k % 2 = 0) := by
  have denPos : (0 : ℚ) < den := by exact_mod_cast positive
  constructor
  · rcases nearest.low with lt | ⟨eq, even⟩
    · left
      rw [lt_div_iff₀ denPos] at lt
      have : (2 * k * den : ℚ) < 2 * num + den := by linarith
      exact_mod_cast this
    · right
      rw [eq_div_iff denPos.ne'] at eq
      have : (2 * k * den : ℚ) = 2 * num + den := by linarith
      exact ⟨by exact_mod_cast this, even⟩
  · rcases nearest.high with lt | ⟨eq, even⟩
    · left
      rw [div_lt_iff₀ denPos] at lt
      have : (2 * num : ℚ) < 2 * k * den + den := by linarith
      exact_mod_cast this
    · right
      rw [div_eq_iff denPos.ne'] at eq
      have : (2 * num : ℚ) = 2 * k * den + den := by linarith
      exact ⟨by exact_mod_cast this, even⟩

theorem roundDiv_eq {num den k : Nat} (positive : 0 < den) (nearest : Nearest ((num : ℚ) / den) k) :
    roundDiv num den = k := by
  obtain ⟨low, high⟩ := nearest.naturals positive
  have split := Nat.div_add_mod num den
  have small := Nat.mod_lt num positive
  have kept : roundDiv num den = if 2 * (num % den) < den then num / den
      else if den < 2 * (num % den) then num / den + 1
      else if (num / den) % 2 = 0 then num / den else num / den + 1 := rfl
  generalize num / den = q at *
  generalize num % den = rest at *
  have notBelow : q ≤ k := by
    by_contra less
    have : 2 * k * den + 2 * den ≤ 2 * (den * q) := by nlinarith
    omega
  have notAbove : k ≤ q + 1 := by
    by_contra more
    have : 2 * (den * q) + 4 * den ≤ 2 * k * den := by nlinarith
    omega
  rw [kept]
  rcases Nat.lt_or_ge q k with above | le
  · obtain rfl : k = q + 1 := by omega
    have : 2 * (q + 1) * den = 2 * (den * q) + 2 * den := by ring
    split_ifs <;> omega
  · obtain rfl : k = q := by omega
    have : 2 * k * den = 2 * (den * k) := by ring
    split_ifs <;> omega

/-! Powers of two -/

theorem zpow_eq_div (base : ℚ) (j : Int) : base ^ j = base ^ j.toNat / base ^ (-j).toNat := by
  rcases Int.le_total 0 j with nonneg | nonpos
  · obtain ⟨n, rfl⟩ := Int.eq_ofNat_of_zero_le nonneg
    simp
  · obtain ⟨n, same⟩ := Int.eq_ofNat_of_zero_le (Int.neg_nonneg_of_nonpos nonpos)
    obtain rfl : j = -(n : Int) := by omega
    simp

theorem two_zpow_pos (j : Int) : (0 : ℚ) < 2 ^ j := by positivity

theorem ratio_scaled (num den : Nat) (q : Int) :
    ((num * 2 ^ (-q).toNat : Nat) : ℚ) / ((den * 2 ^ q.toNat : Nat) : ℚ) =
      (num : ℚ) / den / 2 ^ q := by
  rw [zpow_eq_div 2 q]
  push_cast
  field_simp

theorem two_zpow_succ (j : Int) : (2 : ℚ) ^ (j + 1) = 2 * 2 ^ j := by
  rw [zpow_add_one₀ (by norm_num)]
  ring

theorem two_zpow_pred (j : Int) : (2 : ℚ) ^ j = 2 * 2 ^ (j - 1) := by
  rw [← two_zpow_succ, Int.sub_add_cancel]

theorem log2_bounds {n : Nat} (positive : 0 < n) :
    (2 : ℚ) ^ (n.log2 : Int) ≤ n ∧ (n : ℚ) < 2 * 2 ^ (n.log2 : Int) := by
  have low : 2 ^ n.log2 ≤ n := Nat.log2_self_le positive.ne'
  have high : n < 2 ^ (n.log2 + 1) := Nat.lt_log2_self
  constructor
  · rw [zpow_natCast]
    exact_mod_cast low
  · rw [zpow_natCast]
    have : (n : ℚ) < 2 ^ (n.log2 + 1) := by exact_mod_cast high
    rwa [pow_succ, mul_comm] at this

/-- The scale puts the significand of a ratio between 2^52 and 2^53, unless it is cut off below. -/
theorem scaleOfRatio_spec {num den : Nat} (numPos : 0 < num) (denPos : 0 < den) :
    ∃ e : Int, scaleOfRatio num den = max e (-1074) ∧
      2 ^ 52 * 2 ^ e ≤ (num : ℚ) / den ∧ (num : ℚ) / den < 2 ^ 53 * 2 ^ e := by
  obtain ⟨numLow, numHigh⟩ := log2_bounds numPos
  obtain ⟨denLow, denHigh⟩ := log2_bounds denPos
  have positive : (0 : ℚ) < den := by exact_mod_cast denPos
  set guess : Int := (num.log2 : Int) - den.log2 - 52 with guessed
  -- The leading bits alone fix the significand up to a factor of two.
  have parts : (2 : ℚ) ^ (num.log2 : Int) = 2 ^ 52 * (2 ^ guess * 2 ^ (den.log2 : Int)) := by
    rw [← zpow_natCast (2 : ℚ) 52, ← zpow_add₀ (by norm_num), ← zpow_add₀ (by norm_num)]
    congr 1
    push_cast
    omega
  have unitPos := two_zpow_pos guess
  have below : (2 : ℚ) ^ 51 * 2 ^ guess ≤ (num : ℚ) / den := by
    rw [le_div_iff₀ positive]
    nlinarith
  have above : (num : ℚ) / den < 2 ^ 53 * 2 ^ guess := by
    rw [div_lt_iff₀ positive]
    nlinarith
  have test : num * 2 ^ (-guess).toNat < den * 2 ^ guess.toNat * 2 ^ 52 ↔
      (num : ℚ) / den < 2 ^ 52 * 2 ^ guess := by
    rw [← div_lt_iff₀ unitPos, ← ratio_scaled, div_lt_iff₀ (by positivity)]
    norm_cast
    rw [mul_comm (2 ^ 52)]
  have shape : scaleOfRatio num den =
      max (if num * 2 ^ (-guess).toNat < den * 2 ^ guess.toNat * 2 ^ 52
      then guess - 1 else guess) (-1074) := by
    simp only [scaleOfRatio, Nat.shiftLeft_eq]
    rfl
  have half := two_zpow_pred guess
  split_ifs at shape with small
  · refine ⟨guess - 1, shape, ?_, ?_⟩
    · rw [half] at below
      linarith
    · have less := test.mp small
      rw [half] at less
      linarith
  · exact ⟨guess, shape, not_lt.mp (mt test.mpr small), above⟩

/-! Rounding a ratio to a number -/

def isFinite (x : Binary64) : Bool := x.magnitude < infinityWord

def absValue (x : Binary64) : ℚ := x.significand * 2 ^ x.scale

structure RoundsTo (x : Binary64) (v : ℚ) : Prop where
  low : ((x.significand : ℚ) - if x.narrowBelow then 1 / 4 else 1 / 2) * 2 ^ x.scale < v ∨
    ((x.significand : ℚ) - if x.narrowBelow then 1 / 4 else 1 / 2) * 2 ^ x.scale = v ∧
      x.significand % 2 = 0
  high : v < ((x.significand : ℚ) + 1 / 2) * 2 ^ x.scale ∨
    v = ((x.significand : ℚ) + 1 / 2) * 2 ^ x.scale ∧ x.significand % 2 = 0

theorem roundsTo_absValue (x : Binary64) : x.RoundsTo x.absValue := by
  have unit := two_zpow_pos x.scale
  refine ⟨Or.inl ?_, Or.inl ?_⟩
  · unfold absValue
    split_ifs <;> nlinarith
  · unfold absValue
    nlinarith

structure Parts (x : Binary64) : Prop where
  least : -1074 ≤ x.scale
  greatest : x.scale ≤ 971
  bound : x.significand < 2 ^ 53
  normal : -1074 < x.scale → 2 ^ 52 ≤ x.significand
  word : x.magnitude = (x.scale + 1074).toNat * 2 ^ 52 + x.significand
  narrow : x.narrowBelow = true ↔ x.significand = 2 ^ 52 ∧ -1074 < x.scale

theorem parts {x : Binary64} (finite : x.isFinite = true) : x.Parts := by
  have word : x.magnitude = x.exponentField * 2 ^ 52 + x.fraction := by
    have := Nat.div_add_mod x.magnitude (2 ^ 52)
    simp only [exponentField, fraction]
    omega
  have fraction : x.fraction < 2 ^ 52 := Nat.mod_lt _ (by decide)
  have exponent : x.exponentField < 2047 := by
    have small : x.magnitude < 2047 * 2 ^ 52 := of_decide_eq_true finite
    exact Nat.div_lt_of_lt_mul (by omega)
  have narrow : x.narrowBelow = true ↔ x.fraction = 0 ∧ 1 < x.exponentField := by
    simp [narrowBelow]
  by_cases subnormal : x.exponentField = 0
  · have scale : x.scale = -1074 := by simp [Binary64.scale, subnormal]
    have significand : x.significand = x.fraction := by simp [Binary64.significand, subnormal]
    refine ⟨by omega, by omega, by omega, by omega, ?_, ?_⟩
    · rw [word, scale, significand, subnormal]
      rfl
    · rw [narrow]
      omega
  · have scale : x.scale = x.exponentField - 1075 := by simp [Binary64.scale, subnormal]
    have significand : x.significand = 2 ^ 52 + x.fraction := by
      simp [Binary64.significand, subnormal]
    refine ⟨by omega, by omega, by omega, by omega, ?_, ?_⟩
    · have field : (x.scale + 1074).toNat = x.exponentField - 1 := by omega
      rw [word, field, significand, Nat.sub_mul]
      omega
    · rw [narrow]
      omega

theorem RoundsTo.low_le {x : Binary64} {v : ℚ} (rounds : x.RoundsTo v) :
    ((x.significand : ℚ) - if x.narrowBelow then 1 / 4 else 1 / 2) * 2 ^ x.scale ≤ v := by
  rcases rounds.low with lt | ⟨eq, _⟩
  · exact lt.le
  · exact eq.le

theorem RoundsTo.le_high {x : Binary64} {v : ℚ} (rounds : x.RoundsTo v) :
    v ≤ ((x.significand : ℚ) + 1 / 2) * 2 ^ x.scale := by
  rcases rounds.high with lt | ⟨eq, _⟩
  · exact lt.le
  · exact eq.le

theorem exponent_lt {a b : Int} {c d : ℚ} (low : c * 2 ^ a ≤ d) (high : d < c * 2 ^ b)
    (positive : 0 < c) : a < b := by
  have powers : (2 : ℚ) ^ a < 2 ^ b := lt_of_mul_lt_mul_left (low.trans_lt high) positive.le
  exact (zpow_lt_zpow_iff_right₀ (by norm_num)).mp powers

theorem nearest_significand {x : Binary64} {v : ℚ} (rounds : x.RoundsTo v) :
    Nearest (v / 2 ^ x.scale) x.significand := by
  have unit := two_zpow_pos x.scale
  constructor
  · rw [lt_div_iff₀ unit, eq_div_iff unit.ne']
    by_cases narrow : x.narrowBelow = true
    · have low := rounds.low_le
      rw [if_pos narrow] at low
      left
      nlinarith
    · have low := rounds.low
      rwa [if_neg narrow] at low
  · rw [div_lt_iff₀ unit, div_eq_iff unit.ne']
    exact rounds.high

/-- Just below a power of two the scale is one less, and the significand rounds up to that power. -/
theorem nearest_below_power {x : Binary64} {v : ℚ} (rounds : x.RoundsTo v)
    (narrow : x.narrowBelow = true) (power : x.significand = 2 ^ 52)
    (below : v < 2 ^ 52 * 2 ^ x.scale) : Nearest (v / 2 ^ (x.scale - 1)) (2 ^ 53) := by
  have unit := two_zpow_pos (x.scale - 1)
  have half := two_zpow_pred x.scale
  have low := rounds.low_le
  rw [if_pos narrow, power, half] at low
  rw [half] at below
  push_cast at low
  constructor
  · rw [lt_div_iff₀ unit, eq_div_iff unit.ne']
    push_cast
    rcases low.lt_or_eq with lt | eq
    · left
      nlinarith
    · right
      exact ⟨by linarith, by decide⟩
  · left
    rw [div_lt_iff₀ unit]
    push_cast
    nlinarith

theorem RoundsTo.lt_next_power {x : Binary64} {v : ℚ} (parts : x.Parts) (rounds : x.RoundsTo v) :
    v < 2 ^ 53 * 2 ^ x.scale := by
  have bound : (x.significand : ℚ) + 1 ≤ 2 ^ 53 := by exact_mod_cast parts.bound
  have high := rounds.le_high
  have unit := two_zpow_pos x.scale
  nlinarith

/-- Only the interval of a power of two reaches below that power. -/
theorem RoundsTo.power_of_lt {x : Binary64} {v : ℚ} (parts : x.Parts) (rounds : x.RoundsTo v)
    (above : -1074 < x.scale) (under : v < 2 ^ 52 * 2 ^ x.scale) : x.significand = 2 ^ 52 := by
  by_contra other
  have normal := parts.normal above
  have more : (2 : ℚ) ^ 52 + 1 ≤ x.significand := by
    exact_mod_cast (by omega : 2 ^ 52 + 1 ≤ x.significand)
  have low := rounds.low_le
  have unit := two_zpow_pos x.scale
  split_ifs at low <;> nlinarith

theorem RoundsTo.half_power_le {x : Binary64} {v : ℚ} (rounds : x.RoundsTo v)
    (narrow : x.narrowBelow = true) (power : x.significand = 2 ^ 52) :
    2 ^ 52 * 2 ^ (x.scale - 1) ≤ v := by
  have low := rounds.low_le
  have unit := two_zpow_pos (x.scale - 1)
  rw [if_pos narrow, power, two_zpow_pred x.scale] at low
  push_cast at low
  nlinarith

theorem nearestWord_of_nearest {num den m : Nat} {q : Int} (numPos : 0 < num) (denPos : 0 < den)
    (scaled : scaleOfRatio num den = q) (nearest : Nearest ((num : ℚ) / den / 2 ^ q) m) :
    nearestWord num den = min infinityWord ((q + 1074).toNat * 2 ^ 52 + m) := by
  have positive : 0 < den * 2 ^ q.toNat := Nat.mul_pos denPos (Nat.two_pow_pos _)
  rw [← ratio_scaled] at nearest
  have rounded := roundDiv_eq positive nearest
  simp only [nearestWord, numPos.ne', if_false, scaled, Nat.shiftLeft_eq, rounded]
  rfl

theorem word_of_power {x : Binary64} (parts : x.Parts) (power : x.significand = 2 ^ 52)
    (above : -1074 < x.scale) : (x.scale - 1 + 1074).toNat * 2 ^ 52 + 2 ^ 53 = x.magnitude := by
  have field : (x.scale + 1074).toNat = (x.scale - 1 + 1074).toNat + 1 := by omega
  rw [parts.word, power, field, Nat.add_mul]
  omega

theorem nearestWord_eq {x : Binary64} {num den : Nat} (finite : x.isFinite = true)
    (numPos : 0 < num) (denPos : 0 < den) (rounds : x.RoundsTo ((num : ℚ) / den)) :
    nearestWord num den = x.magnitude := by
  have parts := parts finite
  have finiteWord : x.magnitude ≤ infinityWord := (of_decide_eq_true finite).le
  obtain ⟨e, scale, low, high⟩ := scaleOfRatio_spec numPos denPos
  have notAbove : e ≤ x.scale := by
    have capped := rounds.lt_next_power parts
    have doubled : (num : ℚ) / den < 2 ^ 52 * 2 ^ (x.scale + 1) := by
      rw [two_zpow_succ]
      linarith
    have := exponent_lt low doubled (by norm_num)
    omega
  by_cases same : max e (-1074) = x.scale
  · rw [nearestWord_of_nearest numPos denPos (scale.trans same) (nearest_significand rounds),
      ← parts.word]
    exact min_eq_right finiteWord
  · -- The ratio lies below the number, which is then a power of two, and is rounded up to it.
    have above : -1074 < x.scale := by
      have least := parts.least
      omega
    have under : (num : ℚ) / den < 2 ^ 52 * 2 ^ x.scale := by
      have step : (2 : ℚ) ^ e ≤ 2 ^ (x.scale - 1) := zpow_le_zpow_right₀ (by norm_num) (by omega)
      have half := two_zpow_pred x.scale
      nlinarith
    have power := rounds.power_of_lt parts above under
    have narrow : x.narrowBelow = true := parts.narrow.mpr ⟨power, above⟩
    have scaled : max e (-1074) = x.scale - 1 := by
      have doubled : (num : ℚ) / den < 2 ^ 52 * 2 ^ (e + 1) := by
        rw [two_zpow_succ]
        linarith
      have := exponent_lt (rounds.half_power_le narrow power) doubled (by norm_num)
      omega
    have nearest := nearest_below_power rounds narrow power under
    rw [nearestWord_of_nearest numPos denPos (scale.trans scaled) nearest,
      word_of_power parts power above]
    exact min_eq_right finiteWord

end BlockSketch.Binary64
