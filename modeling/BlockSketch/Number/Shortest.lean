import BlockSketch.Number.Decimal

/-
The fewest decimal digits that read back as a given number. The reals that round to a number form an
interval; for one digit, two digits and so on, the number's two neighbours on that decimal grid are
tested against it in exact arithmetic, and the first grid with a hit wins.
-/
namespace BlockSketch

inductive Tie where
  | toEven
  | up
  deriving DecidableEq, Repr

namespace Binary64

def compareDecimal (d : Decimal) (n : Nat) (j : Int) : Ordering :=
  compare ((d.digits * Nat.pow 10 d.exp.toNat) <<< (-j).toNat)
    ((n <<< j.toNat) * Nat.pow 10 (-d.exp).toNat)

def narrowBelow (x : Binary64) : Bool := x.fraction = 0 && 1 < x.exponentField

/-- The decimal is among the reals that round to the magnitude of `x`. The ends of the interval lie
halfway to the neighbours and belong to it when the significand is even. -/
def readsBack (x : Binary64) (d : Decimal) : Bool :=
  let low := compareDecimal d (4 * x.significand - if x.narrowBelow then 1 else 2) (x.scale - 2)
  let high := compareDecimal d (4 * x.significand + 2) (x.scale - 2)
  let closed := x.significand % 2 = 0
  (low = .gt || closed && low = .eq) && (high = .lt || closed && high = .eq)

/-- The number of decimal digits before the point of `x`, zero or less when it is below one: the
least power of ten above it. An estimate from below is raised until it fits. -/
def decimalPoint (x : Binary64) : Int :=
  let guess : Int := Int.fdiv (((x.significand.log2 : Int) + x.scale) * 30103) 100000 - 1
  let above (k : Int) : Bool := compareDecimal ⟨1, k⟩ x.significand x.scale = .gt
  (((List.range 5).map fun i : Nat => guess + i).find? above).getD (guess + 5)

/-- The decimal that `count` digits give: the nearer of the two neighbours that read back. -/
def onGrid (x : Binary64) (tie : Tie) (point : Int) (count : Nat) : Option Decimal :=
  let grid : Int := point - count
  let below := (x.significand <<< x.scale.toNat) * Nat.pow 10 (-grid).toNat /
    (Nat.pow 10 grid.toNat <<< (-x.scale).toNat)
  let lower : Decimal := ⟨below, grid⟩
  let upper : Decimal := ⟨below + 1, grid⟩
  match x.readsBack lower, x.readsBack upper with
  | true, false => some lower
  | false, true => some upper
  | false, false => none
  | true, true =>
    match compareDecimal ⟨2 * below + 1, grid⟩ (2 * x.significand) x.scale with
    | .gt => some lower
    | .lt => some upper
    | .eq => match tie with
      | .up => some upper
      | .toEven => some (if below % 2 = 0 then lower else upper)

/-- Moves factors of ten from the digits to the exponent. The first argument bounds their number. -/
def stripZeros : Nat → Decimal → Decimal
  | 0, d => d
  | n + 1, d => if d.digits % 10 = 0 then stripZeros n ⟨d.digits / 10, d.exp + 1⟩ else d

def exactDecimal (x : Binary64) : Decimal :=
  ⟨(x.significand <<< x.scale.toNat) * Nat.pow 5 (-x.scale).toNat, min x.scale 0⟩

def shortest (x : Binary64) (tie : Tie) : Decimal :=
  let point := x.decimalPoint
  match ((List.range 17).map (· + 1)).findSome? (x.onGrid tie point) with
  | some d => stripZeros 17 d
  | none => x.exactDecimal

end Binary64

namespace Decimal

def leadingExponent (d : Decimal) : Int := d.exp + (toString d.digits).length - 1

def positional (d : Decimal) : String :=
  let digits := (toString d.digits).toList
  let point : Int := d.exp + digits.length
  if point ≤ 0 then
    "0." ++ String.ofList (List.replicate (-point).toNat '0' ++ digits)
  else if digits.length ≤ point then
    String.ofList (digits ++ List.replicate (point - digits.length).toNat '0')
  else
    String.ofList (digits.take point.toNat) ++ "." ++ String.ofList (digits.drop point.toNat)

def scientific (d : Decimal) : String :=
  let digits := (toString d.digits).toList
  let e := d.leadingExponent
  let rest := digits.drop 1
  String.ofList (digits.take 1) ++ (if rest.isEmpty then "" else "." ++ String.ofList rest) ++
    (if e < 0 then "e-" else "e+") ++ toString e.natAbs

end Decimal
end BlockSketch
