import BlockSketch.Proofs.Number.Rounding

/-
The total order of all words. Numbers are ordered by their values and the negative zero comes before
the positive one; the infinities are outside of the finite numbers, and what is not a number outside
of these, by its sign and then by its payload, the other way round below. In the words this is one
comparison of naturals.
-/
namespace BlockSketch.Binary64

/-! Magnitudes -/

theorem absValue_lt_of_magnitude_lt {x y : Binary64} (finiteX : x.isFinite = true)
    (finiteY : y.isFinite = true) (less : x.magnitude < y.magnitude) : x.absValue < y.absValue := by
  have px := parts finiteX
  have py := parts finiteY
  rw [px.word, py.word] at less
  unfold absValue
  rcases lt_trichotomy x.scale y.scale with lower | same | higher
  · have normal : 2 ^ 52 ≤ y.significand := py.normal (by have := px.least; omega)
    calc (x.significand : ℚ) * 2 ^ x.scale
        < 2 ^ 53 * 2 ^ x.scale := by
          have bound : (x.significand : ℚ) < 2 ^ 53 := by exact_mod_cast px.bound
          exact mul_lt_mul_of_pos_right bound (two_zpow_pos _)
      _ = 2 ^ 52 * 2 ^ (x.scale + 1) := by
          rw [two_zpow_succ]
          ring
      _ ≤ 2 ^ 52 * 2 ^ y.scale := by
          have powers : (2 : ℚ) ^ (x.scale + 1) ≤ 2 ^ y.scale :=
            zpow_le_zpow_right₀ (by norm_num) lower
          linarith
      _ ≤ y.significand * 2 ^ y.scale := by
          have bound : (2 ^ 52 : ℚ) ≤ y.significand := by exact_mod_cast normal
          exact mul_le_mul_of_nonneg_right bound (two_zpow_pos _).le
  · rw [same] at less ⊢
    have fewer : (x.significand : ℚ) < y.significand := by
      have : x.significand < y.significand := by omega
      exact_mod_cast this
    exact mul_lt_mul_of_pos_right fewer (two_zpow_pos _)
  · -- A larger scale means a larger word.
    have normal : 2 ^ 52 ≤ x.significand := px.normal (by have := py.least; omega)
    have steps : (y.scale + 1074).toNat + 1 ≤ (x.scale + 1074).toNat := by
      have := py.least
      omega
    have bound := py.bound
    have scaled := Nat.mul_le_mul_right (2 ^ 52) steps
    omega

theorem absValue_lt_iff {x y : Binary64} (finiteX : x.isFinite = true)
    (finiteY : y.isFinite = true) :
    x.absValue < y.absValue ↔ x.magnitude < y.magnitude := by
  refine ⟨fun less => ?_, absValue_lt_of_magnitude_lt finiteX finiteY⟩
  by_contra notLess
  rcases Nat.lt_or_eq_of_le (Nat.not_lt.mp notLess) with more | same
  · exact lt_asymm less (absValue_lt_of_magnitude_lt finiteY finiteX more)
  · have equal : x.absValue = y.absValue := by
      have field : x.exponentField = y.exponentField := congrArg (· / 0x10000000000000) same.symm
      have rest : x.fraction = y.fraction := congrArg (· % 0x10000000000000) same.symm
      unfold absValue significand scale
      rw [field, rest]
    exact less.ne equal

theorem absValue_nonneg (x : Binary64) : 0 ≤ x.absValue := by
  unfold absValue
  positivity

/-! The order -/

def value (x : Binary64) : ℚ := if x.negative then -x.absValue else x.absValue

/-- The five kinds of words from the lowest to the highest: negative ones that are not numbers, the
negative infinity, the finite numbers, the positive infinity, and positive ones that are not
numbers. -/
def rank (x : Binary64) : Nat :=
  if x.isNaN then if x.negative then 0 else 4
  else if x.isInfinite then if x.negative then 1 else 3
  else 2

inductive Below : Binary64 → Binary64 → Prop where
  | kinds {x y : Binary64} (lower : x.rank < y.rank) : Below x y
  | values {x y : Binary64} (finiteX : x.isFinite = true) (finiteY : y.isFinite = true)
      (less : x.value < y.value) :
      Below x y
  | zeros {x y : Binary64} (finiteX : x.isFinite = true) (finiteY : y.isFinite = true)
      (same : x.value = y.value) (minus : x.negative = true) (plus : y.negative = false) : Below x y
  | payloads {x y : Binary64} (nanX : x.isNaN = true) (nanY : y.isNaN = true)
      (plusX : x.negative = false) (plusY : y.negative = false) (less : x.fraction < y.fraction) :
      Below x y
  | negativePayloads {x y : Binary64} (nanX : x.isNaN = true) (nanY : y.isNaN = true)
      (minusX : x.negative = true) (minusY : y.negative = true) (more : y.fraction < x.fraction) :
      Below x y

theorem isNaN_iff {x : Binary64} : x.isNaN = true ↔ 0x7FF0000000000000 < x.magnitude :=
  decide_eq_true_iff

theorem isInfinite_iff {x : Binary64} : x.isInfinite = true ↔ x.magnitude = 0x7FF0000000000000 :=
  decide_eq_true_iff

theorem isFinite_iff {x : Binary64} : x.isFinite = true ↔ x.magnitude < 0x7FF0000000000000 :=
  decide_eq_true_iff

theorem magnitude_lt (x : Binary64) : x.magnitude < 0x8000000000000000 := Nat.mod_lt _ (by decide)

theorem orderKey_positive {x : Binary64} (plus : x.negative = false) :
    x.orderKey = 0x8000000000000000 + x.magnitude := by
  have small : ¬ 0x8000000000000000 ≤ x.bits.toNat := of_decide_eq_false plus
  rw [orderKey, plus, magnitude]
  simp only [Bool.false_eq_true, ↓reduceIte]
  omega

theorem orderKey_negative {x : Binary64} (minus : x.negative = true) :
    x.orderKey = 0x7FFFFFFFFFFFFFFF - x.magnitude := by
  have large : 0x8000000000000000 ≤ x.bits.toNat := of_decide_eq_true minus
  have bound := x.bits.toNat_lt
  rw [orderKey, minus, magnitude]
  simp only [↓reduceIte]
  omega

theorem fraction_lt_iff {x y : Binary64} (nanX : x.isNaN = true) (nanY : y.isNaN = true) :
    x.fraction < y.fraction ↔ x.magnitude < y.magnitude := by
  have smallX := x.magnitude_lt
  have smallY := y.magnitude_lt
  rw [isNaN_iff] at nanX nanY
  unfold fraction
  omega

theorem rank_cases (x : Binary64) :
    (x.rank = 0 ∧ x.isNaN = true ∧ x.negative = true ∧ x.orderKey < 0x000FFFFFFFFFFFFF) ∨
    (x.rank = 1 ∧ x.orderKey = 0x000FFFFFFFFFFFFF) ∨
    (x.rank = 2 ∧ x.isFinite = true ∧ 0x000FFFFFFFFFFFFF < x.orderKey ∧
      x.orderKey < 0xFFF0000000000000) ∨
    (x.rank = 3 ∧ x.orderKey = 0xFFF0000000000000) ∨
    (x.rank = 4 ∧ x.isNaN = true ∧ x.negative = false ∧ 0xFFF0000000000000 < x.orderKey) := by
  have bound := x.magnitude_lt
  have position : x.negative = true ∧ x.orderKey = 0x7FFFFFFFFFFFFFFF - x.magnitude ∨
      x.negative = false ∧ x.orderKey = 0x8000000000000000 + x.magnitude := by
    cases sign : x.negative with
    | true => exact Or.inl ⟨rfl, orderKey_negative sign⟩
    | false => exact Or.inr ⟨rfl, orderKey_positive sign⟩
  rcases lt_trichotomy x.magnitude 0x7FF0000000000000 with finite | infinite | nan
  · have number : ¬ x.isNaN = true := by rw [isNaN_iff]; omega
    have bounded : ¬ x.isInfinite = true := by rw [isInfinite_iff]; omega
    have rank : x.rank = 2 := by rw [Binary64.rank, if_neg number, if_neg bounded]
    refine Or.inr (Or.inr (Or.inl ⟨rank, isFinite_iff.mpr finite, ?_⟩))
    omega
  · have number : ¬ x.isNaN = true := by rw [isNaN_iff]; omega
    rcases position with ⟨sign, key⟩ | ⟨sign, key⟩
    · have rank : x.rank = 1 := by
        rw [Binary64.rank, if_neg number, if_pos (isInfinite_iff.mpr infinite), if_pos sign]
      exact Or.inr (Or.inl ⟨rank, by omega⟩)
    · have rank : x.rank = 3 := by
        rw [Binary64.rank, if_neg number, if_pos (isInfinite_iff.mpr infinite), sign]
        rfl
      exact Or.inr (Or.inr (Or.inr (Or.inl ⟨rank, by omega⟩)))
  · have other := isNaN_iff.mpr nan
    rcases position with ⟨sign, key⟩ | ⟨sign, key⟩
    · have rank : x.rank = 0 := by rw [Binary64.rank, if_pos other, if_pos sign]
      exact Or.inl ⟨rank, other, sign, by omega⟩
    · have rank : x.rank = 4 := by
        rw [Binary64.rank, if_pos other, sign]
        rfl
      exact Or.inr (Or.inr (Or.inr (Or.inr ⟨rank, other, sign, by omega⟩)))

theorem finite_orderKey_lt_iff {x y : Binary64} (finiteX : x.isFinite = true)
    (finiteY : y.isFinite = true) :
    x.orderKey < y.orderKey ↔
      x.value < y.value ∨ x.value = y.value ∧ x.negative = true ∧ y.negative = false := by
  have boundX := x.magnitude_lt
  have boundY := y.magnitude_lt
  have nonnegX := x.absValue_nonneg
  have nonnegY := y.absValue_nonneg
  unfold value
  cases signX : x.negative with
  | false =>
    rw [orderKey_positive signX]
    cases signY : y.negative with
    | false =>
      rw [orderKey_positive signY]
      simp only [Bool.false_eq_true, ↓reduceIte, false_and, and_false, or_false,
        Nat.add_lt_add_iff_left, absValue_lt_iff finiteX finiteY]
    | true =>
      rw [orderKey_negative signY]
      simp only [Bool.false_eq_true, ↓reduceIte, false_and, and_false, or_false]
      constructor
      · omega
      · intro less
        linarith
  | true =>
    rw [orderKey_negative signX]
    cases signY : y.negative with
    | false =>
      rw [orderKey_positive signY]
      simp only [Bool.false_eq_true, ↓reduceIte, and_true]
      constructor
      · intro _
        exact lt_or_eq_of_le (by linarith)
      · omega
    | true =>
      rw [orderKey_negative signY]
      simp only [Bool.true_eq_false, ↓reduceIte, and_false, or_false, neg_lt_neg_iff,
        absValue_lt_iff finiteY finiteX]
      omega

/-- The total order is the order of the keys. -/
theorem below_iff {x y : Binary64} : x.Below y ↔ x.orderKey < y.orderKey := by
  have boundX := x.magnitude_lt
  have boundY := y.magnitude_lt
  have kindX := x.rank_cases
  have kindY := y.rank_cases
  constructor
  · intro below
    cases below with
    | kinds lower => omega
    | values finiteX finiteY less =>
      exact (finite_orderKey_lt_iff finiteX finiteY).mpr (Or.inl less)
    | zeros finiteX finiteY same minus plus =>
      exact (finite_orderKey_lt_iff finiteX finiteY).mpr (Or.inr ⟨same, minus, plus⟩)
    | payloads nanX nanY plusX plusY less =>
      rw [fraction_lt_iff nanX nanY] at less
      rw [orderKey_positive plusX, orderKey_positive plusY]
      omega
    | negativePayloads nanX nanY minusX minusY more =>
      rw [fraction_lt_iff nanY nanX] at more
      rw [orderKey_negative minusX, orderKey_negative minusY]
      omega
  · intro less
    by_cases lower : x.rank < y.rank
    · exact .kinds lower
    · -- The keys put both in one kind, and not in that of an infinity.
      rcases kindX with ⟨rankX, nanX, minusX, _⟩ | ⟨rankX, _⟩ | ⟨rankX, finiteX, _⟩ |
        ⟨rankX, _⟩ | ⟨rankX, nanX, plusX, _⟩
      · rcases kindY with ⟨_, nanY, minusY, _⟩ | higher
        · rw [orderKey_negative minusX, orderKey_negative minusY] at less
          exact .negativePayloads nanX nanY minusX minusY
            ((fraction_lt_iff nanY nanX).mpr (by omega))
        · omega
      · omega
      · rcases kindY with lowest | negative | ⟨_, finiteY, _⟩ | higher
        · omega
        · omega
        · rcases (finite_orderKey_lt_iff finiteX finiteY).mp less with smaller | ⟨same, minus, plus⟩
          · exact .values finiteX finiteY smaller
          · exact .zeros finiteX finiteY same minus plus
        · omega
      · omega
      · rcases kindY with lowest | negative | finite | positive | ⟨_, nanY, plusY, _⟩
        · omega
        · omega
        · omega
        · omega
        · rw [orderKey_positive plusX, orderKey_positive plusY] at less
          exact .payloads nanX nanY plusX plusY ((fraction_lt_iff nanX nanY).mpr (by omega))

theorem below_asymm {x y : Binary64} (below : x.Below y) : ¬ y.Below x := by
  rw [below_iff] at below ⊢
  omega

theorem Below.trans {x y z : Binary64} (first : x.Below y) (second : y.Below z) : x.Below z := by
  rw [below_iff] at first second ⊢
  omega

theorem below_total (x y : Binary64) : x.Below y ∨ x = y ∨ y.Below x := by
  rw [below_iff, below_iff]
  rcases Nat.lt_trichotomy x.orderKey y.orderKey with less | same | more
  · exact Or.inl less
  · exact Or.inr (Or.inl (orderKey_injective same))
  · exact Or.inr (Or.inr more)

end BlockSketch.Binary64
