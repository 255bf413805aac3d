/-
Numbers in the 64-bit binary interchange format, held as their words. A finite word stands for
significand * 2^scale with a sign. The sign is the highest bit, eleven bits of exponent come next,
and the other 52 are the fraction. Rounding a ratio of naturals to the nearest word is done in exact
arithmetic, and nothing here depends on floating-point operations.
-/
namespace BlockSketch

structure Binary64 where
  bits : UInt64
  deriving DecidableEq, Repr, Inhabited

namespace Binary64

def negative (x : Binary64) : Bool := 0x8000000000000000 ≤ x.bits.toNat

def magnitude (x : Binary64) : Nat := x.bits.toNat % 0x8000000000000000

def exponentField (x : Binary64) : Nat := x.magnitude / 0x10000000000000

def fraction (x : Binary64) : Nat := x.magnitude % 0x10000000000000

/-- The magnitude word of the infinities. Larger magnitudes are not numbers. -/
def infinityWord : Nat := 0x7FF0000000000000

def isNaN (x : Binary64) : Bool := infinityWord < x.magnitude

def isInfinite (x : Binary64) : Bool := x.magnitude = infinityWord

def significand (x : Binary64) : Nat :=
  if x.exponentField = 0 then x.fraction else 0x10000000000000 + x.fraction

def scale (x : Binary64) : Int :=
  if x.exponentField = 0 then -1074 else x.exponentField - 1075

/-- Below zero as a number: neither zero is, nor is anything that is not a number. -/
def isBelowZero (x : Binary64) : Bool :=
  x.negative && !x.isNaN && x.magnitude ≠ 0

def ofMagnitude (negative : Bool) (word : Nat) : Binary64 :=
  ⟨(word + if negative then 0x8000000000000000 else 0).toUInt64⟩

def zero : Binary64 := ofMagnitude false 0

def roundDiv (num den : Nat) : Nat :=
  let q := num / den
  let twice := 2 * (num % den)
  if twice < den then q
  else if den < twice then q + 1
  else if q % 2 = 0 then q else q + 1

/-- The power of two at which `num / den` has a significand of 53 bits, but no less than that of
the smallest numbers. -/
def scaleOfRatio (num den : Nat) : Int :=
  let guess : Int := (num.log2 : Int) - den.log2 - 52
  let small := num <<< (-guess).toNat < (den <<< guess.toNat) * 0x10000000000000
  let exact := if small then guess - 1 else guess
  max exact (-1074)

/-- The magnitude word nearest to `num / den`. A significand that rounds up to the next power of two
carries into the exponent field, and past the largest number it becomes the infinity. -/
def nearestWord (num den : Nat) : Nat :=
  if num = 0 then 0
  else
    let q := scaleOfRatio num den
    let m := roundDiv (num <<< (-q).toNat) (den <<< q.toNat)
    min infinityWord ((q + 1074).toNat * 0x10000000000000 + m)

/-- The number nearest to `digits * 10^exp`. Exponents far outside the format are cut off before any
power is taken. -/
def ofDecimal (negative : Bool) (digits : Nat) (exp : Int) : Binary64 :=
  ofMagnitude negative <|
    if digits = 0 then 0
    else if 400 < exp then infinityWord
    else if exp + digits.log2 < -400 then 0
    else nearestWord (digits * Nat.pow 10 exp.toNat) (Nat.pow 10 (-exp).toNat)

def ofInt (n : Int) : Binary64 := ofDecimal (n < 0) n.natAbs 0

/-- The place of a word in the total order of all words: negative ones first, larger magnitudes
outermost. -/
def orderKey (x : Binary64) : Nat :=
  if x.negative then 0xFFFFFFFFFFFFFFFF - x.bits.toNat else 0x8000000000000000 + x.bits.toNat

theorem orderKey_injective {x y : Binary64} (h : x.orderKey = y.orderKey) : x = y := by
  have hx := x.bits.toNat_lt
  have hy := y.bits.toNat_lt
  have same : x.bits.toNat = y.bits.toNat := by
    simp only [orderKey, negative, decide_eq_true_eq] at h
    split at h <;> split at h <;> omega
  exact congrArg Binary64.mk (UInt64.toNat_inj.mp same)

end Binary64
end BlockSketch
