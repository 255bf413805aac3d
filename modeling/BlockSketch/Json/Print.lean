import BlockSketch.Json.Basic
import BlockSketch.Number.Shortest

/-
JSON text, compact or spread over lines. Members are written in the order in which the value lists
them.
-/
namespace BlockSketch

/-- Floats are written with the fewest digits that read back, halves to even. Leading exponents from
-5 to 15 are written out with at least one decimal place, others get an exponent with its sign. -/
def JsonNumber.text : JsonNumber → String
  | .int n => toString n
  | .float x =>
    let sign := if x.negative then "-" else ""
    if x.isNaN || x.isInfinite then "null"
    else if x.magnitude = 0 then sign ++ "0.0"
    else
      let d := x.shortest .toEven
      let e := d.leadingExponent
      if -5 ≤ e ∧ e ≤ 15 then
        sign ++ d.positional ++ if 0 ≤ d.exp then ".0" else ""
      else sign ++ d.scientific

namespace Json

def escapeChar (c : Char) : List Char :=
  match c with
  | '"' => ['\\', '"']
  | '\\' => ['\\', '\\']
  | '\x08' => ['\\', 'b']
  | '\x0c' => ['\\', 'f']
  | '\n' => ['\\', 'n']
  | '\r' => ['\\', 'r']
  | '\t' => ['\\', 't']
  | _ =>
    if c.toNat < 0x20 then
      ['\\', 'u', '0', '0', Nat.digitChar (c.toNat / 16), Nat.digitChar (c.toNat % 16)]
    else [c]

def quoted (s : String) : String :=
  "\"" ++ String.ofList (s.toList.flatMap escapeChar) ++ "\""

mutual

def compact : Json → String
  | null => "null"
  | bool b => if b then "true" else "false"
  | number n => n.text
  | string s => quoted s
  | array items => "[" ++ compactItems items ++ "]"
  | object members => "\x7b" ++ compactMembers members ++ "\x7d"

def compactItems : List Json → String
  | [] => ""
  | [v] => compact v
  | v :: w :: rest => compact v ++ "," ++ compactItems (w :: rest)

def compactMembers : List (String × Json) → String
  | [] => ""
  | [(k, v)] => quoted k ++ ":" ++ compact v
  | (k, v) :: m :: rest => quoted k ++ ":" ++ compact v ++ "," ++ compactMembers (m :: rest)

end

def newLine (depth : Nat) : String := "\n" ++ String.ofList (List.replicate (2 * depth) ' ')

mutual

/-- The text over several lines, as it stands at `depth`. Empty containers stay on one line. -/
def prettyAt (depth : Nat) : Json → String
  | null => "null"
  | bool b => if b then "true" else "false"
  | number n => n.text
  | string s => quoted s
  | array [] => "[]"
  | array (v :: rest) =>
    "[" ++ newLine (depth + 1) ++ prettyAt (depth + 1) v ++ prettyItems (depth + 1) rest ++
      newLine depth ++ "]"
  | object [] => "\x7b\x7d"
  | object ((k, v) :: rest) =>
    "\x7b" ++ newLine (depth + 1) ++ quoted k ++ ": " ++ prettyAt (depth + 1) v ++
      prettyMembers (depth + 1) rest ++ newLine depth ++ "\x7d"

def prettyItems (depth : Nat) : List Json → String
  | [] => ""
  | v :: rest => "," ++ newLine depth ++ prettyAt depth v ++ prettyItems depth rest

def prettyMembers (depth : Nat) : List (String × Json) → String
  | [] => ""
  | (k, v) :: rest =>
    "," ++ newLine depth ++ quoted k ++ ": " ++ prettyAt depth v ++ prettyMembers depth rest

end

def pretty (value : Json) : String := prettyAt 0 value

end Json
end BlockSketch
