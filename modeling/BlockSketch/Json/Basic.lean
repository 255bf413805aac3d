import BlockSketch.Number.Binary64

/-
JSON values. Integers that fit a 64-bit word are kept apart from other numbers. An object is a list
of members; a value read from text has them sorted by name and without repetition.
-/
namespace BlockSketch

inductive JsonNumber where
  | int (n : Int)
  | float (x : Binary64)
  deriving DecidableEq, Repr

inductive Json where
  | null
  | bool (b : Bool)
  | number (n : JsonNumber)
  | string (s : String)
  | array (items : List Json)
  | object (members : List (String × Json))
  deriving Inhabited

namespace JsonNumber

def toBinary64 : JsonNumber → Binary64
  | int n => .ofInt n
  | float x => x

/-- The number as a natural; floats never are, whatever their value. -/
def natural? : JsonNumber → Option Nat
  | int n => if n < 0 then none else some n.toNat
  | float _ => none

end JsonNumber

namespace Json

def ofNat (n : Nat) : Json := .number (.int n)

def ofInt (n : Int) : Json := .number (.int n)

def find? (name : String) : List (String × Json) → Option Json
  | [] => none
  | (key, value) :: rest => if key = name then some value else find? name rest

def member? (name : String) : Json → Option Json
  | object members => find? name members
  | _ => none

def string? : Json → Option String
  | string s => some s
  | _ => none

def bool? : Json → Option Bool
  | bool b => some b
  | _ => none

def array? : Json → Option (List Json)
  | array items => some items
  | _ => none

def number? : Json → Option JsonNumber
  | number n => some n
  | _ => none

def isNull : Json → Bool
  | null => true
  | _ => false

def typeName : Json → String
  | null => "null"
  | bool _ => "a boolean"
  | number _ => "a number"
  | string _ => "a string"
  | array _ => "an array"
  | object _ => "an object"

def keepLast : List (String × Json) → List (String × Json)
  | [] => []
  | [m] => [m]
  | m :: n :: rest => if m.1 = n.1 then keepLast (n :: rest) else m :: keepLast (n :: rest)

/-- The members sorted by name; of members with one name the last one stays. -/
def sortMembers (members : List (String × Json)) : List (String × Json) :=
  keepLast (members.mergeSort fun a b => a.1 ≤ b.1)

end Json
end BlockSketch
