import BlockSketch.Json.Token
import BlockSketch.Text.Integer

/-
Internet addresses as texts. A version 4 address is four decimal numbers without leading zeros; a
version 6 address is eight hexadecimal groups, of which one run of zeros may be written as a double
colon and the last two as a version 4 address.
-/
namespace BlockSketch

inductive IpAddress where
  | v4 (a b c d : Nat)
  | v6 (groups : List Nat)
  deriving DecidableEq, Repr

namespace IpAddress

def loopback : IpAddress := v4 127 0 0 1

def octet (cs : List Char) : Option (Nat × List Char) :=
  let digits := cs.takeWhile Char.isDigit
  let n := Nat.ofDigitChars 10 digits 0
  let zeros := digits.head? = some '0' && 1 < digits.length
  if digits.isEmpty || 3 < digits.length || 255 < n || zeros then none
  else some (n, cs.dropWhile Char.isDigit)

def isHexDigit (c : Char) : Bool := (Json.Token.hexValue? c).isSome

def group (cs : List Char) : Option (Nat × List Char) :=
  let digits := cs.takeWhile isHexDigit
  if digits.isEmpty || 4 < digits.length then none
  else
    let n := digits.foldl (fun n c => 16 * n + (Json.Token.hexValue? c).getD 0) 0
    some (n, cs.dropWhile isHexDigit)

def expect (c : Char) : List Char → Option (List Char)
  | [] => none
  | d :: rest => if d = c then some rest else none

def readV4 (cs : List Char) : Option ((Nat × Nat × Nat × Nat) × List Char) := do
  let (a, cs) ← octet cs
  let (b, cs) ← octet (← expect '.' cs)
  let (c, cs) ← octet (← expect '.' cs)
  let (d, cs) ← octet (← expect '.' cs)
  return ((a, b, c, d), cs)

/-- Up to `limit` groups with colons between them, and whether they end in a version 4 address,
which takes the place of two. -/
def readGroups : Nat → Bool → List Char → List Nat × Bool × List Char
  | 0, _, cs => ([], false, cs)
  | limit + 1, first, cs =>
    match if first then some cs else expect ':' cs with
    | none => ([], false, cs)
    | some body =>
      match if 0 < limit then readV4 body else none with
      | some ((a, b, c, d), rest) => ([256 * a + b, 256 * c + d], true, rest)
      | none =>
        match group body with
        | none => ([], false, cs)
        | some (g, rest) =>
          let (gs, embedded, rest) := readGroups limit false rest
          (g :: gs, embedded, rest)

def readV6 (cs : List Char) : Option (List Nat × List Char) :=
  let (head, embedded, rest) := readGroups 8 true cs
  if head.length = 8 then some (head, rest)
  else if embedded then none
  else match rest with
    | ':' :: ':' :: rest =>
      let (tail, _, rest) := readGroups (7 - head.length) true rest
      some (head ++ List.replicate (8 - head.length - tail.length) 0 ++ tail, rest)
    | _ => none

def parse? (text : String) : Option IpAddress :=
  match readV4 text.toList with
  | some ((a, b, c, d), rest) => if rest.isEmpty then some (v4 a b c d) else none
  | none =>
    match readV6 text.toList with
    | some (groups, rest) => if rest.isEmpty then some (v6 groups) else none
    | none => none

def dotted (a b c d : Nat) : String := ".".intercalate ([a, b, c, d].map toString)

def hexGroup (n : Nat) : String := String.ofList (Nat.toDigits 16 n)

def colons (groups : List Nat) : String := ":".intercalate (groups.map hexGroup)

def longestZeros (groups : List Nat) : Nat × Nat :=
  let run (i : Nat) : Nat := ((groups.drop i).takeWhile (· = 0)).length
  (List.range groups.length).foldl
    (fun best i => if best.2 < run i then (i, run i) else best) (0, 0)

/-- The text of an address. The first longest run of two or more zero groups is a double colon, and
an embedded version 4 address is written as such. -/
def display : IpAddress → String
  | v4 a b c d => dotted a b c d
  | v6 [0, 0, 0, 0, 0, 0xffff, g, h] => "::ffff:" ++ dotted (g / 256) (g % 256) (h / 256) (h % 256)
  | v6 groups =>
    let (start, length) := longestZeros groups
    if 1 < length then
      colons (groups.take start) ++ "::" ++ colons (groups.drop (start + length))
    else colons groups

end IpAddress

structure Endpoint where
  address : IpAddress
  tcpPort : Nat
  deriving DecidableEq, Repr

def Endpoint.display (e : Endpoint) : String :=
  match e.address with
  | .v4 .. => e.address.display ++ ":" ++ toString e.tcpPort
  | .v6 _ => "[" ++ e.address.display ++ "]:" ++ toString e.tcpPort

end BlockSketch
