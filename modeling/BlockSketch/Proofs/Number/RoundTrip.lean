import BlockSketch.Proofs.Number.LiteralText
import BlockSketch.Proofs.Number.Rounding
import BlockSketch.Proofs.Text.Canonical

/-
Literals read back. Every decimal that the search for the shortest digits can settle on rounds to
the number that it is for, and its digits on paper stand for the same decimal, so the literal of a
finite number is read as that number.
-/
namespace BlockSketch
open Code

def Decimal.value (d : Decimal) : ℚ := d.digits * 10 ^ d.exp

namespace Binary64

theorem decimal_ratio (d : Decimal) :
    ((d.digits * 10 ^ d.exp.toNat : Nat) : ℚ) / ((10 ^ (-d.exp).toNat : Nat) : ℚ) = d.value := by
  rw [Decimal.value, zpow_eq_div]
  push_cast
  ring

/-! Comparing a decimal with a multiple of a power of two -/

section Compare

variable (d : Decimal) (n : Nat) (j : Int)

theorem scaled_lt :
    d.digits * 10 ^ d.exp.toNat * 2 ^ (-j).toNat < n * 2 ^ j.toNat * 10 ^ (-d.exp).toNat ↔
    d.value < n * 2 ^ j := by
  rw [Decimal.value, zpow_eq_div 10, zpow_eq_div 2, ← mul_div_assoc, ← mul_div_assoc,
    div_lt_div_iff₀ (by positivity) (by positivity)]
  norm_cast

theorem scaled_gt :
    n * 2 ^ j.toNat * 10 ^ (-d.exp).toNat < d.digits * 10 ^ d.exp.toNat * 2 ^ (-j).toNat ↔
    n * 2 ^ j < d.value := by
  rw [Decimal.value, zpow_eq_div 10, zpow_eq_div 2, ← mul_div_assoc, ← mul_div_assoc,
    div_lt_div_iff₀ (by positivity) (by positivity)]
  norm_cast

theorem compareDecimal_scaled :
    compareDecimal d n j =
    compare (d.digits * 10 ^ d.exp.toNat * 2 ^ (-j).toNat)
      (n * 2 ^ j.toNat * 10 ^ (-d.exp).toNat) := by
  rw [compareDecimal, Nat.shiftLeft_eq, Nat.shiftLeft_eq]
  rfl

theorem compareDecimal_lt : compareDecimal d n j = .lt ↔ d.value < n * 2 ^ j := by
  rw [← scaled_lt, compareDecimal_scaled, Nat.compare_eq_lt]

theorem compareDecimal_gt : compareDecimal d n j = .gt ↔ n * 2 ^ j < d.value := by
  rw [← scaled_gt, compareDecimal_scaled, Nat.compare_eq_gt]

theorem compareDecimal_eq : compareDecimal d n j = .eq ↔ d.value = n * 2 ^ j := by
  rw [compareDecimal_scaled, Nat.compare_eq_eq]
  constructor
  · intro same
    have notLt := mt (scaled_lt d n j).mpr same.not_lt
    have notGt := mt (scaled_gt d n j).mpr same.not_gt
    exact le_antisymm (not_lt.mp notGt) (not_lt.mp notLt)
  · intro same
    have notLt := mt (scaled_lt d n j).mp same.not_lt
    have notGt := mt (scaled_gt d n j).mp same.not_gt
    exact le_antisymm (not_lt.mp notGt) (not_lt.mp notLt)

end Compare

theorem roundsTo_of_readsBack {x : Binary64} {d : Decimal} (nonzero : x.significand ≠ 0)
    (reads : x.readsBack d = true) : x.RoundsTo d.value := by
  have quarter : (2 : ℚ) ^ x.scale = 4 * 2 ^ (x.scale - 2) := by
    have twice := two_zpow_succ (x.scale - 1)
    have again := two_zpow_succ (x.scale - 2)
    rw [show x.scale - 2 + 1 = x.scale - 1 by omega] at again
    rw [show x.scale - 1 + 1 = x.scale by omega] at twice
    linarith
  simp only [readsBack, Bool.and_eq_true, Bool.or_eq_true, decide_eq_true_eq, compareDecimal_lt,
    compareDecimal_gt, compareDecimal_eq] at reads
  obtain ⟨low, high⟩ := reads
  constructor
  · have lowEnd : ((4 * x.significand - if x.narrowBelow then 1 else 2 : Nat) : ℚ) *
        2 ^ (x.scale - 2) =
        ((x.significand : ℚ) - if x.narrowBelow then 1 / 4 else 1 / 2) * 2 ^ x.scale := by
      rw [quarter]
      split_ifs
      · rw [Nat.cast_sub (by omega)]
        push_cast
        ring
      · rw [Nat.cast_sub (by omega)]
        push_cast
        ring
    rw [lowEnd] at low
    rcases low with gt | ⟨even, eq⟩
    · exact Or.inl gt
    · exact Or.inr ⟨eq.symm, even⟩
  · have highEnd : ((4 * x.significand + 2 : Nat) : ℚ) * 2 ^ (x.scale - 2) =
        ((x.significand : ℚ) + 1 / 2) * 2 ^ x.scale := by
      rw [quarter]
      push_cast
      ring
    rw [highEnd] at high
    rcases high with lt | ⟨even, eq⟩
    · exact Or.inl lt
    · exact Or.inr ⟨eq, even⟩

/-! The shortest decimal -/

theorem onGrid_readsBack {x : Binary64} {tie : Tie} {point : Int} {count : Nat} {d : Decimal}
    (found : x.onGrid tie point count = some d) : x.readsBack d = true := by
  simp only [onGrid] at found
  split at found
  · rename_i lower _
    cases found
    exact lower
  · rename_i _ upper
    cases found
    exact upper
  · cases found
  · rename_i lower upper
    split at found
    · cases found
      exact lower
    · cases found
      exact upper
    · split at found
      · cases found
        exact upper
      · cases found
        split
        · exact lower
        · exact upper

theorem value_stripZeros (n : Nat) (d : Decimal) : (stripZeros n d).value = d.value := by
  induction n generalizing d with
  | zero => rfl
  | succ n ih =>
    simp only [stripZeros]
    split
    · rename_i zero
      rw [ih]
      have whole : d.digits = 10 * (d.digits / 10) := by omega
      have cast : (d.digits : ℚ) = 10 * ((d.digits / 10 : Nat) : ℚ) := by exact_mod_cast whole
      simp only [Decimal.value]
      rw [cast, zpow_add_one₀ (by norm_num)]
      ring
    · rfl

theorem value_exactDecimal (x : Binary64) : x.exactDecimal.value = x.absValue := by
  simp only [Decimal.value, exactDecimal, absValue, Nat.shiftLeft_eq, Nat.pow_eq]
  rcases Int.le_total 0 x.scale with nonneg | nonpos
  · obtain ⟨n, same⟩ := Int.eq_ofNat_of_zero_le nonneg
    rw [same]
    simp
  · obtain ⟨n, same⟩ := Int.eq_ofNat_of_zero_le (Int.neg_nonneg_of_nonpos nonpos)
    rw [show x.scale = -(n : Int) by omega]
    have tens : (10 : ℚ) ^ n = 2 ^ n * 5 ^ n := by rw [← mul_pow]; norm_num
    simp only [neg_neg, Int.toNat_natCast, Int.toNat_neg_natCast, pow_zero, mul_one, zpow_neg,
      zpow_natCast, show min (-(n : Int)) 0 = -(n : Int) by omega, tens]
    push_cast
    field_simp

theorem shortest_roundsTo {x : Binary64} (tie : Tie) (nonzero : x.significand ≠ 0) :
    x.RoundsTo (x.shortest tie).value := by
  unfold shortest
  generalize (List.range 17).map (· + 1) = counts
  cases found : counts.findSome? (x.onGrid tie x.decimalPoint) with
  | some d =>
    obtain ⟨count, _, onGrid⟩ := List.exists_of_findSome?_eq_some found
    simp only [found, value_stripZeros]
    exact roundsTo_of_readsBack nonzero (onGrid_readsBack onGrid)
  | none =>
    simp only [found, value_exactDecimal]
    exact roundsTo_absValue x

/-! Reading a decimal -/

theorem two_zpow_le_ten_zpow (n : Nat) : (2 : ℚ) ^ (3 * n : Int) ≤ 10 ^ (n : Int) := by
  rw [zpow_mul, zpow_natCast, zpow_natCast]
  exact pow_le_pow_left₀ (by norm_num) (by norm_num) n

theorem RoundsTo.bounds {x : Binary64} {v : ℚ} (finite : x.isFinite = true)
    (nonzero : x.significand ≠ 0) (rounds : x.RoundsTo v) :
    10 ^ (-400 : Int) < v ∧ v < 10 ^ (400 : Int) := by
  have parts := parts finite
  have positive : (1 : ℚ) ≤ x.significand := by exact_mod_cast Nat.one_le_iff_ne_zero.mpr nonzero
  have bound : (x.significand : ℚ) + 1 ≤ 2 ^ 53 := by exact_mod_cast parts.bound
  have powers := two_zpow_le_ten_zpow 400
  constructor
  · have shrunk :
        (2 : ℚ) ^ (-1 : Int) ≤ x.significand - if x.narrowBelow then 1 / 4 else 1 / 2 := by
      split_ifs <;> norm_num <;> linarith
    calc (10 : ℚ) ^ (-400 : Int) = (10 ^ (400 : Int))⁻¹ := zpow_neg 10 400
      _ ≤ (2 ^ (3 * 400 : Int))⁻¹ := inv_anti₀ (two_zpow_pos _) powers
      _ = 2 ^ (-(3 * 400) : Int) := (zpow_neg 2 (3 * 400)).symm
      _ < 2 ^ (-1 + x.scale) := zpow_lt_zpow_right₀ (by norm_num) (by have := parts.least; omega)
      _ = 2 ^ (-1 : Int) * 2 ^ x.scale := zpow_add₀ (by norm_num) _ _
      _ ≤ _ := mul_le_mul_of_nonneg_right shrunk (two_zpow_pos _).le
      _ ≤ v := rounds.low_le
  · calc v ≤ ((x.significand : ℚ) + 1 / 2) * 2 ^ x.scale := rounds.le_high
      _ < 2 ^ 53 * 2 ^ x.scale := mul_lt_mul_of_pos_right (by linarith) (two_zpow_pos _)
      _ = 2 ^ (53 + x.scale) := (zpow_add₀ (by norm_num) 53 x.scale).symm
      _ ≤ 2 ^ (3 * 400 : Int) :=
        zpow_le_zpow_right₀ (by norm_num) (by have := parts.greatest; omega)
      _ ≤ 10 ^ (400 : Int) := powers

/-- A decimal that rounds to a number is read as that number: the exponents that are cut off before
any power is taken lie far outside. -/
theorem ofDecimal_of_roundsTo {x : Binary64} {d : Decimal} (negative : Bool)
    (finite : x.isFinite = true) (nonzero : x.significand ≠ 0) (rounds : x.RoundsTo d.value) :
    ofDecimal negative d.digits d.exp = ofMagnitude negative x.magnitude := by
  obtain ⟨low, high⟩ := rounds.bounds finite nonzero
  have tenPos : ∀ e : Int, (0 : ℚ) < 10 ^ e := fun e => zpow_pos (by norm_num) e
  have someDigit : d.digits ≠ 0 := by
    intro none
    rw [Decimal.value, none, Nat.cast_zero, zero_mul] at low
    exact absurd low (tenPos _).not_gt
  have positive : (1 : ℚ) ≤ d.digits := by exact_mod_cast Nat.one_le_iff_ne_zero.mpr someDigit
  have notHuge : ¬ 400 < d.exp := by
    intro huge
    have power : (10 : ℚ) ^ (400 : Int) ≤ 10 ^ d.exp := zpow_le_zpow_right₀ (by norm_num) huge.le
    have less : d.value < 10 ^ d.exp := high.trans_le power
    exact absurd less (not_lt.mpr (le_mul_of_one_le_left (tenPos _).le positive))
  have notTiny : ¬ d.exp + d.digits.log2 < -400 := by
    intro tiny
    have bits : (d.digits : ℚ) < 10 ^ ((d.digits.log2 : Int) + 1) := by
      have two := (log2_bounds (Nat.pos_of_ne_zero someDigit)).2
      rw [← two_zpow_succ] at two
      refine two.trans_le ?_
      rw [← Nat.cast_succ, zpow_natCast, zpow_natCast]
      exact pow_le_pow_left₀ (by norm_num) (by norm_num) _
    have power : (10 : ℚ) ^ ((d.digits.log2 : Int) + 1) * 10 ^ d.exp ≤ 10 ^ (-400 : Int) := by
      rw [← zpow_add₀ (by norm_num)]
      exact zpow_le_zpow_right₀ (by norm_num) (by omega)
    have less : d.value < 10 ^ (-400 : Int) :=
      (mul_lt_mul_of_pos_right bits (tenPos _)).trans_le power
    exact absurd low less.not_gt
  have numPos : 0 < d.digits * 10 ^ d.exp.toNat := by positivity
  have denPos : 0 < 10 ^ (-d.exp).toNat := by positivity
  rw [← decimal_ratio] at rounds
  rw [ofDecimal, if_neg someDigit, if_neg notHuge, if_neg notTiny, Nat.pow_eq, Nat.pow_eq,
    nearestWord_eq finite numPos denPos rounds]

theorem value_integral {x : Binary64} {n : Nat} (integral : x.integral? = some n) :
    (n : ℚ) = x.absValue := by
  simp only [integral?, Nat.shiftLeft_eq, Nat.one_mul] at integral
  split at integral
  · rename_i divides
    rw [← Option.some.inj integral, absValue, zpow_eq_div, Nat.cast_div]
    · push_cast
      ring
    · exact (Nat.dvd_of_mod_eq_zero divides).mul_right _
    · positivity
  · cases integral

theorem decimalText_literalWord {x : Binary64} {word : List Char} (negative : Bool)
    (finite : x.isFinite = true) (literal : LiteralWord x word) :
    decimalText? negative word = some (ofMagnitude negative x.magnitude) := by
  cases literal with
  | zero none =>
    rw [none]
    cases negative <;> decide
  | @whole n nonzero integral =>
    have same : (⟨n, 0⟩ : Decimal).value = x.absValue := by
      rw [← value_integral integral]
      simp [Decimal.value]
    have rounds : x.RoundsTo (⟨n, 0⟩ : Decimal).value := same ▸ roundsTo_absValue x
    rw [decimalText_whole negative (allDigits_repr n) (Text.repr_ne_nil n), digits_of_repr]
    exact congrArg some (ofDecimal_of_roundsTo negative finite (mt significand_eq_zero.mp nonzero)
      rounds)
  | shortest nonzero =>
    have significant : x.significand ≠ 0 := mt significand_eq_zero.mp nonzero
    obtain ⟨k, reads⟩ := decimalText_positional negative (x.shortest .up)
    have same : (⟨(x.shortest .up).digits * 10 ^ k, (x.shortest .up).exp - k⟩ : Decimal).value =
        (x.shortest .up).value := by
      simp only [Decimal.value]
      rw [zpow_sub₀ (by norm_num), zpow_natCast]
      push_cast
      field_simp
    have rounds := shortest_roundsTo .up significant
    rw [← same] at rounds
    rw [reads]
    exact congrArg some (ofDecimal_of_roundsTo negative finite significant rounds)

/-! Reading a literal as the text of a field -/

theorem numeral_visible {word : List Char} (numeral : IsNumeral word) :
    ∀ c ∈ word, Text.isBlankChar c = false := by
  obtain ⟨s, rest, rfl, first, others⟩ := numeral.starts
  intro c member
  rcases List.mem_cons.mp member with rfl | later
  · exact Text.digit_visible first
  · rcases others c later with digit | rfl
    · exact Text.digit_visible digit
    · decide

theorem unsignedText_numeral {word : List Char} (negative : Bool) (numeral : IsNumeral word) :
    unsignedText? negative word = decimalText? negative word := by
  obtain ⟨s, rest, rfl, first, _⟩ := numeral.starts
  have kept : s.toLower = s := by
    simp only [Char.isDigit, Bool.and_eq_true, decide_eq_true_eq, ge_iff_le, UInt32.le_iff_toNat_le]
      at first
    have nine : '9'.val.toNat = 57 := rfl
    have upper : 'A'.val.toNat = 65 := rfl
    unfold Char.toLower
    rw [dif_neg]
    simp only [ge_iff_le, UInt32.le_iff_toNat_le]
    omega
  have other : ∀ (c : Char) (cs : List Char), c.isDigit = false →
      String.ofList ((s :: rest).map Char.toLower) ≠ String.ofList (c :: cs) := by
    intro c cs letter same
    have lists := String.ofList_injective same
    rw [List.map_cons, kept] at lists
    rw [(List.cons.inj lists).1] at first
    simp [letter] at first
  have noInf : String.ofList ((s :: rest).map Char.toLower) ≠ "inf" :=
    other 'i' ['n', 'f'] (by decide)
  have noInfinity : String.ofList ((s :: rest).map Char.toLower) ≠ "infinity" :=
    other 'i' "nfinity".toList (by decide)
  have noNaN : String.ofList ((s :: rest).map Char.toLower) ≠ "nan" :=
    other 'n' ['a', 'n'] (by decide)
  unfold unsignedText?
  exact (if_neg (not_or.mpr ⟨noInf, noInfinity⟩)).trans (if_neg noNaN)

theorem ofText_numeral {text : String} (numeral : IsNumeral text.toList) :
    ofText? text = decimalText? false text.toList := by
  rw [← unsignedText_numeral false numeral, ofText?]
  obtain ⟨s, rest, begins, first, _⟩ := numeral.starts
  rw [begins]
  split
  · rename_i same
    rw [(List.cons.inj same).1] at first
    exact absurd first (by decide)
  · rename_i same
    rw [(List.cons.inj same).1] at first
    exact absurd first (by decide)
  · rfl

/-- The literal of a finite number is read as the number, except that zero loses its sign. -/
theorem ofText_literal {x : Binary64} (finite : x.isFinite = true) :
    ofText? (Text.trim x.literal) = some (ofMagnitude x.isBelowZero x.magnitude) := by
  have below : x.magnitude < infinityWord := of_decide_eq_true finite
  have number : x.isNaN = false := by simpa [isNaN] using below.le
  have bounded : x.isInfinite = false := by simpa [isInfinite] using below.ne
  obtain ⟨word, text, literal⟩ := literal_finite number bounded
  have numeral := isNumeral_literalWord literal
  have reads := fun negative => decimalText_literalWord negative finite literal
  have visible : ∀ c ∈ x.literal.toList, Text.isBlankChar c = false := by
    intro c member
    rw [text] at member
    rcases List.mem_append.mp member with sign | later
    · split at sign
      · rw [List.mem_singleton.mp sign]
        decide
      · cases sign
    · exact numeral_visible numeral c later
  rw [Text.trim_of_visible visible]
  cases sign : x.isBelowZero with
  | true =>
    rw [← reads true, ← unsignedText_numeral true numeral, ofText?, text, sign]
    rfl
  | false =>
    have unsigned : x.literal.toList = word := by simpa [sign] using text
    rw [ofText_numeral (unsigned ▸ numeral), unsigned, reads false]

end Binary64

theorem magnitude_ofMagnitude (negative : Bool) {word : Nat} (small : word < 2 ^ 63) :
    (Binary64.ofMagnitude negative word).magnitude = word ∧
      (Binary64.ofMagnitude negative word).negative = negative := by
  have kept :
      (Binary64.ofMagnitude negative word).bits.toNat = word + if negative then 2 ^ 63 else 0 := by
    simp only [Binary64.ofMagnitude, Nat.toUInt64_eq, UInt64.toNat_ofNat']
    split <;> omega
  refine ⟨?_, ?_⟩
  · rw [Binary64.magnitude, kept]
    split <;> omega
  · rw [Binary64.negative, kept]
    cases negative with
    | true => simp
    | false => simpa using small

end BlockSketch
