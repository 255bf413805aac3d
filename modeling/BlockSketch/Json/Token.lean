import BlockSketch.Json.Basic
import BlockSketch.Number.Decimal

/-
The tokens of JSON text. A text can fail in two ways: it ends where more must come, or it holds a
character that cannot stand there.
-/
namespace BlockSketch.Json

inductive Fault where
  | ended
  | malformed
  deriving DecidableEq, Repr

inductive Token where
  | openArray
  | closeArray
  | openObject
  | closeObject
  | comma
  | colon
  | text (s : String)
  | scalar (value : Json)
  deriving Inhabited

def isSpace (c : Char) : Bool := c = ' ' || c = '\n' || c = '\t' || c = '\r'

namespace Token

def word (value : Json) : List Char → List Char → Except Fault (Token × List Char)
  | [], rest => .ok (.scalar value, rest)
  | _ :: _, [] => .error .ended
  | e :: expected, c :: rest => if c = e then word value expected rest else .error .malformed

def someDigits (cs : List Char) : Except Fault (List Char × List Char) :=
  match cs with
  | [] => .error .ended
  | c :: _ =>
    if c.isDigit then .ok (cs.takeWhile Char.isDigit, cs.dropWhile Char.isDigit)
    else .error .malformed

def integerPart (cs : List Char) : Except Fault (List Char × List Char) := do
  let (digits, rest) ← someDigits cs
  match digits with
  | '0' :: _ :: _ => .error .malformed
  | _ => .ok (digits, rest)

def fractionPart (cs : List Char) : Except Fault (Option (List Char) × List Char) :=
  match cs with
  | '.' :: rest => do
    let (digits, rest) ← someDigits rest
    .ok (some digits, rest)
  | _ => .ok (none, cs)

def exponentPart (cs : List Char) : Except Fault (Option Int × List Char) :=
  match cs with
  | c :: rest =>
    if c = 'e' ∨ c = 'E' then do
      let (minus, rest) := match rest with
        | '-' :: more => (true, more)
        | '+' :: more => (false, more)
        | _ => (false, rest)
      let (digits, rest) ← someDigits rest
      let size : Int := Nat.ofDigitChars 10 digits 0
      .ok (some (if minus then -size else size), rest)
    else .ok (none, cs)
  | [] => .ok (none, cs)

/-- The integers that are kept as such: those of a 64-bit word, unsigned or negative. A negative
zero is a float. -/
def keepsInteger (minus : Bool) (n : Nat) : Bool :=
  if minus then 0 < n && n ≤ 0x8000000000000000 else n < 0x10000000000000000

def numberValue (minus : Bool) (whole : List Char) (frac : Option (List Char)) (exp : Option Int) :
    Except Fault JsonNumber :=
  let digits := Nat.ofDigitChars 10 (whole ++ frac.getD []) 0
  if frac.isNone && exp.isNone && keepsInteger minus digits then
    .ok (.int (if minus then -(digits : Int) else digits))
  else
    let x := (Decimal.ofDigits whole (frac.getD []) (exp.getD 0)).toBinary64
    if x.isInfinite then .error .malformed else .ok (.float (.ofMagnitude minus x.magnitude))

def number (minus : Bool) (cs : List Char) : Except Fault (Token × List Char) := do
  let (whole, rest) ← integerPart cs
  let (frac, rest) ← fractionPart rest
  let (exp, rest) ← exponentPart rest
  let value ← numberValue minus whole frac exp
  .ok (.scalar (.number value), rest)

def hexValue? (c : Char) : Option Nat :=
  if '0' ≤ c ∧ c ≤ '9' then some (c.toNat - '0'.toNat)
  else if 'a' ≤ c ∧ c ≤ 'f' then some (c.toNat - 'a'.toNat + 10)
  else if 'A' ≤ c ∧ c ≤ 'F' then some (c.toNat - 'A'.toNat + 10)
  else none

/-- A code unit of four hexadecimal digits. With less than four bytes left the text has ended. -/
def codeUnit (cs : List Char) : Except Fault (Nat × List Char) :=
  if (String.ofList (cs.take 4)).utf8ByteSize < 4 then .error .ended
  else match (cs.take 4).mapM hexValue? with
    | some units => .ok (units.foldl (fun n d => 16 * n + d) 0, cs.drop 4)
    | none => .error .malformed

def isLeading (unit : Nat) : Bool := 0xD800 ≤ unit && unit ≤ 0xDBFF

def isTrailing (unit : Nat) : Bool := 0xDC00 ≤ unit && unit ≤ 0xDFFF

/-- The character of a unicode escape, after its `u`. A leading surrogate needs a trailing one right
behind it. -/
def unicodeEscape (cs : List Char) : Except Fault (Char × List Char) := do
  let (unit, rest) ← codeUnit cs
  if isTrailing unit then .error .malformed
  else if isLeading unit then
    match rest with
    | [] => .error .ended
    | ['\\'] => .error .ended
    | '\\' :: 'u' :: rest => do
      let (low, rest) ← codeUnit rest
      if isTrailing low then
        .ok (Char.ofNat (0x10000 + (unit - 0xD800) * 0x400 + (low - 0xDC00)), rest)
      else .error .malformed
    | _ => .error .malformed
  else .ok (Char.ofNat unit, rest)

def shortEscape? (c : Char) : Option Char :=
  match c with
  | '"' => some '"'
  | '\\' => some '\\'
  | '/' => some '/'
  | 'b' => some '\x08'
  | 'f' => some '\x0c'
  | 'n' => some '\n'
  | 'r' => some '\r'
  | 't' => some '\t'
  | _ => none

def stringChar (cs : List Char) : Except Fault (Option Char × List Char) :=
  match cs with
  | [] => .error .ended
  | '"' :: rest => .ok (none, rest)
  | ['\\'] => .error .ended
  | '\\' :: 'u' :: rest => do
    let (c, rest) ← unicodeEscape rest
    .ok (some c, rest)
  | '\\' :: c :: rest =>
    match shortEscape? c with
    | some e => .ok (some e, rest)
    | none => .error .malformed
  | c :: rest => if c.toNat < 0x20 then .error .malformed else .ok (some c, rest)

abbrev CharReader := List Char → Except Fault (Option Char × List Char)

/-- The rest of a string up to its closing quote; `acc` holds what was read, last character first.
Every step reads at least one character, so the length of the text bounds the steps, and with more
fuel than that the text ends first. -/
def stringFuel (readChar : CharReader) :
    Nat → List Char → List Char → Except Fault (String × List Char)
  | 0, _, _ => .error .ended
  | fuel + 1, acc, cs =>
    match readChar cs with
    | .ok (some c, rest) => stringFuel readChar fuel (c :: acc) rest
    | .ok (none, rest) => .ok (String.ofList acc.reverse, rest)
    | .error f => .error f

def string (fuel : Nat) (cs : List Char) : Except Fault (String × List Char) :=
  stringFuel stringChar fuel [] cs

def startingWith (fuel : Nat) (c : Char) (rest : List Char) : Except Fault (Token × List Char) :=
  match c with
  | '[' => .ok (.openArray, rest)
  | ']' => .ok (.closeArray, rest)
  | '\x7b' => .ok (.openObject, rest)
  | '\x7d' => .ok (.closeObject, rest)
  | ',' => .ok (.comma, rest)
  | ':' => .ok (.colon, rest)
  | '"' => do
    let (s, rest) ← string fuel rest
    .ok (.text s, rest)
  | 'n' => word .null ['u', 'l', 'l'] rest
  | 't' => word (.bool true) ['r', 'u', 'e'] rest
  | 'f' => word (.bool false) ['a', 'l', 's', 'e'] rest
  | '-' => number true rest
  | _ => if c.isDigit then number false (c :: rest) else .error .malformed

/-- One character of a string that is passed over: surrogates need not pair up. -/
def passedChar (cs : List Char) : Except Fault (Option Char × List Char) :=
  match cs with
  | '\\' :: 'u' :: rest => do
    let (_, rest) ← codeUnit rest
    .ok (some 'u', rest)
  | _ => stringChar cs

def passedNumber (cs : List Char) : Except Fault (Token × List Char) := do
  let (_, rest) ← integerPart cs
  let (_, rest) ← fractionPart rest
  let (_, rest) ← exponentPart rest
  .ok (.scalar .null, rest)

def passing (fuel : Nat) (c : Char) (rest : List Char) : Except Fault (Token × List Char) :=
  match c with
  | '"' => do
    let (_, rest) ← stringFuel passedChar fuel [] rest
    .ok (.text "", rest)
  | '-' => passedNumber rest
  | _ => if c.isDigit then passedNumber (c :: rest) else startingWith fuel c rest

end Token
end BlockSketch.Json
