import BlockSketch.Number.Shortest
import BlockSketch.Text.Integer

/-
Numbers in sketch text. Field texts are read as decimals with an optional exponent, or as a name of
an infinity or of the value that is no number; numbers are written as C literals.
-/
namespace BlockSketch.Binary64

private def lowerAscii (cs : List Char) : List Char := cs.map Char.toLower

def exponentText? : List Char → Option Int
  | '-' :: rest => (Text.digits? rest).map fun n => -(n : Int)
  | '+' :: rest => (Text.digits? rest).map Int.ofNat
  | cs => (Text.digits? cs).map Int.ofNat

/-- An unsigned decimal: digits with at most one point among them, at least one digit, and an
optional exponent. -/
def decimalText? (negative : Bool) (cs : List Char) : Option Binary64 :=
  let whole := cs.takeWhile Char.isDigit
  let afterWhole := cs.dropWhile Char.isDigit
  let (frac, rest) := match afterWhole with
    | '.' :: more => (more.takeWhile Char.isDigit, more.dropWhile Char.isDigit)
    | _ => ([], afterWhole)
  if whole.isEmpty && frac.isEmpty then none
  else
    let exponent : Option Int := match rest with
      | [] => some 0
      | c :: more => if c = 'e' ∨ c = 'E' then exponentText? more else none
    exponent.map fun e =>
      ofDecimal negative (Nat.ofDigitChars 10 (whole ++ frac) 0) (e - frac.length)

def quietNaN (negative : Bool) : Binary64 := ofMagnitude negative (infinityWord + 0x8000000000000)

def unsignedText? (negative : Bool) (cs : List Char) : Option Binary64 :=
  let name := String.ofList (lowerAscii cs)
  if name = "inf" ∨ name = "infinity" then some (ofMagnitude negative infinityWord)
  else if name = "nan" then some (quietNaN negative)
  else decimalText? negative cs

def ofText? (s : String) : Option Binary64 :=
  match s.toList with
  | '-' :: rest => unsignedText? true rest
  | '+' :: rest => unsignedText? false rest
  | cs => unsignedText? false cs

def integral? (x : Binary64) : Option Nat :=
  let den := 1 <<< (-x.scale).toNat
  if x.significand % den = 0 then some ((x.significand <<< x.scale.toNat) / den) else none

/-- A number as a C literal: integers below 10^15 without a point, everything else with the fewest
digits that read back and no exponent. Zero has no sign. -/
def literal (x : Binary64) : String :=
  let sign := if x.negative then "-" else ""
  if x.isNaN then "NAN"
  else if x.isInfinite then sign ++ "INFINITY"
  else match x.integral? with
    | some 0 => "0"
    | some n =>
      if n < 1000000000000000 then sign ++ toString n else sign ++ (x.shortest .up).positional
    | none => sign ++ (x.shortest .up).positional

end BlockSketch.Binary64
