import BlockSketch.Number.Binary64

/-
Decimals, and the quick way to read them. The digits are kept as far as a 64-bit word holds them,
and that word is rounded and then scaled by a rounded power of ten. So the result can be a last
place away from the nearest number.
-/
namespace BlockSketch

namespace Binary64

def numerator (x : Binary64) : Nat := x.significand <<< x.scale.toNat

def denominator (x : Binary64) : Nat := 1 <<< (-x.scale).toNat

def times (x y : Binary64) : Binary64 :=
  ofMagnitude false (nearestWord (x.numerator * y.numerator) (x.denominator * y.denominator))

def dividedBy (x y : Binary64) : Binary64 :=
  ofMagnitude false (nearestWord (x.numerator * y.denominator) (x.denominator * y.numerator))

def ofNat (n : Nat) : Binary64 := ofMagnitude false (nearestWord n 1)

end Binary64

structure Decimal where
  digits : Nat
  exp : Int
  deriving DecidableEq, Repr

namespace Decimal

def absorb : Nat → List Char → Nat × List Char
  | n, [] => (n, [])
  | n, c :: rest =>
    let more := 10 * n + (c.toNat - '0'.toNat)
    if more < 0x10000000000000000 then absorb more rest else (n, c :: rest)

/-- The decimal of digits before and after a point. Digits before the point that do not fit still
count as places; digits after it that do not fit are dropped. -/
def ofDigits (whole frac : List Char) (exp : Int) : Decimal :=
  let (digits, places) := absorb 0 whole
  let (digits, dropped) := absorb digits frac
  ⟨digits, exp + places.length - (frac.length - dropped.length : Nat)⟩

def maxPower : Nat := 308

def power (exp : Nat) : Binary64 := .ofNat (Nat.pow 10 exp)

/-- The number that a decimal is read as. Exponents below the least power take two divisions, and
with twice as many places nothing is left. -/
def toBinary64 (d : Decimal) : Binary64 :=
  let x := Binary64.ofNat d.digits
  let places := d.exp.natAbs
  if d.digits = 0 then .zero
  else if 0 ≤ d.exp then
    if places ≤ maxPower then x.times (power places) else .ofMagnitude false Binary64.infinityWord
  else if places ≤ maxPower then x.dividedBy (power places)
  else if places ≤ 2 * maxPower then
    (x.dividedBy (power maxPower)).dividedBy (power (places - maxPower))
  else .zero

end Decimal
end BlockSketch
