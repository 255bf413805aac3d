import Mathlib.Algebra.Group.Nat.Defs
import BlockSketch.Proofs.Code.Spelling

/-
The texts of numbers in a sketch. A literal is a sign, if the number is below zero, and then digits
with at most one point among them, or one of the names of what is not finite. Such digits read as a
decimal.
-/
namespace BlockSketch
open Code

namespace Binary64

def AllDigits (text : List Char) : Prop := ∀ c ∈ text, c.isDigit = true

theorem allDigits_repr (n : Nat) : AllDigits n.repr.toList :=
  fun _ member => Text.isDigit_of_mem_repr member

theorem allDigits_append {front back : List Char} (first : AllDigits front)
    (second : AllDigits back) : AllDigits (front ++ back) := by
  intro c member
  rcases List.mem_append.mp member with h | h
  · exact first c h
  · exact second c h

theorem allDigits_zeros (n : Nat) : AllDigits (List.replicate n '0') := by
  intro c member
  rw [List.eq_of_mem_replicate member]
  decide

theorem takeWhile_digits {text : List Char} (digits : AllDigits text) :
    text.takeWhile Char.isDigit = text := by
  have all : (text ++ []).takeWhile Char.isDigit = text ++ [].takeWhile Char.isDigit :=
    List.takeWhile_append_of_pos digits
  simpa using all

theorem dropWhile_digits {text : List Char} (digits : AllDigits text) :
    text.dropWhile Char.isDigit = [] := by
  have all : (text ++ []).dropWhile Char.isDigit = [].dropWhile Char.isDigit :=
    List.dropWhile_append_of_pos digits
  simpa using all

theorem decimalText_whole (negative : Bool) {whole : List Char} (digits : AllDigits whole)
    (begun : whole ≠ []) :
    decimalText? negative whole = some (ofDecimal negative (Nat.ofDigitChars 10 whole 0) 0) := by
  simp [decimalText?, takeWhile_digits digits, dropWhile_digits digits, begun]

theorem decimalText_point (negative : Bool) {whole frac : List Char} (digits : AllDigits whole)
    (begun : whole ≠ []) (places : AllDigits frac) :
    decimalText? negative (whole ++ '.' :: frac) =
      some (ofDecimal negative (Nat.ofDigitChars 10 (whole ++ frac) 0) (-(frac.length : Int))) := by
  have taken : (whole ++ '.' :: frac).takeWhile Char.isDigit = whole := by
    rw [List.takeWhile_append_of_pos digits]
    simp [show ('.').isDigit = false by decide]
  have dropped : (whole ++ '.' :: frac).dropWhile Char.isDigit = '.' :: frac := by
    rw [List.dropWhile_append_of_pos digits]
    simp [show ('.').isDigit = false by decide]
  simp [decimalText?, taken, dropped, takeWhile_digits places, dropWhile_digits places, begun]

theorem isNumeral_whole {whole : List Char} (digits : AllDigits whole) (begun : whole ≠ []) :
    IsNumeral whole := by
  obtain ⟨s, rest, rfl⟩ := List.exists_cons_of_ne_nil begun
  refine ⟨⟨s, rest, rfl, digits s (by simp), fun c member => Or.inl (digits c (by simp [member]))⟩,
    ?_⟩
  rw [decimalText_whole false digits begun]
  rfl

theorem isNumeral_point {whole frac : List Char} (digits : AllDigits whole) (begun : whole ≠ [])
    (places : AllDigits frac) : IsNumeral (whole ++ '.' :: frac) := by
  have reads := decimalText_point false digits begun places
  obtain ⟨s, rest, rfl⟩ := List.exists_cons_of_ne_nil begun
  refine ⟨⟨s, rest ++ '.' :: frac, rfl, digits s (by simp), ?_⟩, by rw [reads]; rfl⟩
  intro c member
  simp only [List.mem_append, List.mem_cons] at member
  rcases member with h | rfl | h
  · exact Or.inl (digits c (by simp [h]))
  · exact Or.inr rfl
  · exact Or.inl (places c h)

theorem digits_of_repr (n : Nat) : Nat.ofDigitChars 10 n.repr.toList 0 = n := by
  rw [Nat.toList_repr, Nat.ofDigitChars_ten_toDigits]

theorem positional_text (d : Decimal) : ∃ (whole frac : List Char) (k : Nat), AllDigits whole ∧
    whole ≠ [] ∧ AllDigits frac ∧ Nat.ofDigitChars 10 (whole ++ frac) 0 = d.digits * 10 ^ k ∧
    d.exp = k - frac.length ∧
    (d.positional.toList = whole ++ '.' :: frac ∨ frac = [] ∧ d.positional.toList = whole) := by
  have digits := allDigits_repr d.digits
  have begun := Text.repr_ne_nil d.digits
  have same := digits_of_repr d.digits
  unfold Decimal.positional
  simp only [Nat.toString_eq_repr]
  generalize d.digits.repr.toList = text at digits begun same
  split
  · rename_i before
    have zero : AllDigits ['0'] := allDigits_zeros 1
    refine ⟨['0'], List.replicate (-(d.exp + text.length)).toNat '0' ++ text, 0, zero, by simp,
      allDigits_append (allDigits_zeros _) digits, ?_, ?_, Or.inl (by simp)⟩
    · rw [Nat.ofDigitChars_append, Nat.ofDigitChars_append,
        show ['0'] = List.replicate 1 '0' from rfl, Nat.ofDigitChars_replicate_zero,
        Nat.ofDigitChars_replicate_zero]
      simp [same]
    · rw [List.length_append, List.length_replicate]
      omega
  · split
    · rename_i after
      refine ⟨text ++ List.replicate (d.exp + text.length - text.length).toNat '0', [],
        d.exp.toNat, allDigits_append digits (allDigits_zeros _), by simp [begun], by
        simp [AllDigits],
        ?_, ?_, Or.inr ⟨rfl, by simp⟩⟩
      · rw [List.append_nil, Nat.ofDigitChars_append, same, Nat.ofDigitChars_replicate_zero,
          Nat.mul_comm, show d.exp + text.length - text.length = d.exp by omega]
      · rw [List.length_nil]
        omega
    · rename_i after inside
      refine ⟨text.take (d.exp + text.length).toNat, text.drop (d.exp + text.length).toNat, 0,
        fun c member => digits c (List.mem_of_mem_take member), ?_,
        fun c member => digits c (List.mem_of_mem_drop member), ?_, ?_, Or.inl (by simp)⟩
      · rw [Ne, List.take_eq_nil_iff]
        rintro (none | none)
        · omega
        · exact begun none
      · rw [List.take_append_drop, same, Nat.pow_zero, Nat.mul_one]
      · rw [List.length_drop]
        omega

theorem isNumeral_positional (d : Decimal) : IsNumeral d.positional.toList := by
  obtain ⟨whole, frac, k, digits, begun, places, _, _, text | ⟨_, text⟩⟩ := positional_text d
  · rw [text]
    exact isNumeral_point digits begun places
  · rw [text]
    exact isNumeral_whole digits begun

theorem decimalText_positional (negative : Bool) (d : Decimal) : ∃ k : Nat,
    decimalText? negative d.positional.toList =
      some (ofDecimal negative (d.digits * 10 ^ k) (d.exp - k)) := by
  obtain ⟨whole, frac, k, digits, begun, places, value, exp, text | ⟨rfl, text⟩⟩ :=
    positional_text d
  · refine ⟨k, ?_⟩
    rw [text, decimalText_point negative digits begun places, value, exp,
      show (k : Int) - frac.length - k = -frac.length by omega]
  · refine ⟨k, ?_⟩
    rw [List.append_nil] at value
    rw [text, decimalText_whole negative digits begun, value, exp, List.length_nil]
    simp

/-! Signs -/

theorem magnitude_parts (x : Binary64) : x.magnitude = x.exponentField * 2 ^ 52 + x.fraction := by
  have := Nat.div_add_mod x.magnitude (2 ^ 52)
  simp only [exponentField, fraction]
  omega

theorem significand_eq_zero {x : Binary64} : x.significand = 0 ↔ x.magnitude = 0 := by
  have parts := x.magnitude_parts
  unfold significand
  split
  · rename_i subnormal
    rw [parts, subnormal]
    omega
  · omega

theorem integral_eq_zero {x : Binary64} : x.integral? = some 0 ↔ x.magnitude = 0 := by
  rw [← significand_eq_zero]
  simp only [integral?, Nat.shiftLeft_eq, Nat.one_mul]
  constructor
  · intro whole
    split at whole
    · rename_i divides
      have quotient := Option.some.inj whole
      obtain ⟨k, same⟩ := Nat.dvd_of_mod_eq_zero divides
      have positive : 0 < 2 ^ (-x.scale).toNat := Nat.two_pow_pos _
      rw [same, Nat.mul_assoc, Nat.mul_div_cancel_left _ positive, Nat.mul_eq_zero] at quotient
      have noPower : 2 ^ x.scale.toNat ≠ 0 := Nat.ne_of_gt (Nat.two_pow_pos _)
      rw [same, quotient.resolve_right noPower, Nat.mul_zero]
    · cases whole
  · intro zero
    simp [zero]

theorem isBelowZero_of_ne_zero {x : Binary64} (number : x.isNaN = false)
    (nonzero : x.magnitude ≠ 0) :
    x.isBelowZero = x.negative := by
  simp [isBelowZero, number, nonzero]

theorem signed_text {x : Binary64} (number : x.isNaN = false) (nonzero : x.magnitude ≠ 0)
    (text : String) : ((if x.negative then "-" else "") ++ text).toList =
      (if x.isBelowZero then ['-'] else []) ++ text.toList := by
  rw [isBelowZero_of_ne_zero number nonzero]
  split <;> simp

inductive LiteralWord (x : Binary64) : List Char → Prop where
  | zero (none : x.magnitude = 0) : LiteralWord x ['0']
  | whole {n : Nat} (nonzero : x.magnitude ≠ 0) (integral : x.integral? = some n) :
      LiteralWord x n.repr.toList
  | shortest (nonzero : x.magnitude ≠ 0) : LiteralWord x (x.shortest .up).positional.toList

theorem literal_finite {x : Binary64} (number : x.isNaN = false) (bounded : x.isInfinite = false) :
    ∃ word, x.literal.toList = (if x.isBelowZero then ['-'] else []) ++ word ∧
      LiteralWord x word := by
  simp only [literal, number, bounded, Bool.false_eq_true, if_false]
  split
  · rename_i integral
    have zero := integral_eq_zero.mp integral
    have noSign : x.isBelowZero = false := by simp [isBelowZero, zero]
    exact ⟨['0'], by simp [noSign], .zero zero⟩
  · rename_i n notZero integral
    have nonzero : x.magnitude ≠ 0 := fun zero =>
      notZero (Option.some.inj (integral.symm.trans (integral_eq_zero.mpr zero)))
    split
    · exact ⟨_, signed_text number nonzero _, .whole nonzero integral⟩
    · exact ⟨_, signed_text number nonzero _, .shortest nonzero⟩
  · rename_i fractional
    have nonzero : x.magnitude ≠ 0 := by
      intro zero
      rw [integral_eq_zero.mpr zero] at fractional
      cases fractional
    exact ⟨_, signed_text number nonzero _, .shortest nonzero⟩

theorem isNumeral_literalWord {x : Binary64} {word : List Char} (literal : LiteralWord x word) :
    IsNumeral word := by
  cases literal with
  | zero => exact isNumeral_whole (allDigits_zeros 1) (by simp)
  | whole => exact isNumeral_whole (allDigits_repr _) (Text.repr_ne_nil _)
  | shortest => exact isNumeral_positional _

/-- A literal is a name or a numeral, with a minus sign exactly if the number is below zero. -/
theorem literal_shape (x : Binary64) :
    ∃ word, x.literal.toList = (if x.isBelowZero then ['-'] else []) ++ word ∧
      (IsName word ∨ IsNumeral word) := by
  cases nan : x.isNaN with
  | true =>
    refine ⟨"NAN".toList, ?_, Or.inl (by decide)⟩
    simp [literal, isBelowZero, nan]
  | false =>
    cases infinite : x.isInfinite with
    | true =>
      have nonzero : x.magnitude ≠ 0 := by
        have same : x.magnitude = infinityWord := of_decide_eq_true infinite
        rw [same]
        decide
      refine ⟨"INFINITY".toList, ?_, Or.inl (by decide)⟩
      rw [← signed_text nan nonzero]
      simp [literal, nan, infinite]
    | false =>
      obtain ⟨word, text, literal⟩ := literal_finite nan infinite
      exact ⟨word, text, Or.inr (isNumeral_literalWord literal)⟩

end Binary64
end BlockSketch
