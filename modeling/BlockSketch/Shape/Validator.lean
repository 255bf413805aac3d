import BlockSketch.Json.Basic
import BlockSketch.Shape.Pattern
import BlockSketch.Text.Integer

/-
Validators of field edits. An accepted edit gives the text that the field then holds; a refused one
names its reason and leaves the field alone.
-/
namespace BlockSketch

inductive Validator where
  /-- An integer between two inclusive bounds, either of which may be open. -/
  | intRange (min max : Option Int)
  | pattern (source : String)
  | oneOf (options : List String)
  deriving DecidableEq, Repr

inductive Rejection where
  | notInteger (text : String)
  | below (n min : Int)
  | above (n max : Int)
  | mismatch (text pattern : String)
  | notOption (raw : String) (options : List String)
  deriving DecidableEq, Repr

namespace Rejection

def reason : Rejection → String
  | notInteger text => "'" ++ text ++ "' is not an integer"
  | below n min => toString n ++ " is below " ++ toString min
  | above n max => toString n ++ " is above " ++ toString max
  | mismatch text pattern => "'" ++ text ++ "' does not match " ++ pattern
  | notOption raw options => "'" ++ raw ++ "' is not one of " ++ ", ".intercalate options

def message (r : Rejection) : String := "rejected: " ++ r.reason

end Rejection

namespace Validator

def gpio : Validator := intRange (some 0) (some 40)

def nonNegative : Validator := intRange (some 0) none

def analogPinSource : String := "^(A\\d+|\\d+)$"

def analogPin : Validator := pattern analogPinSource

def ofPattern? [PatternReader] (source : String) : Option Validator :=
  if PatternReader.isPattern source then some (pattern source) else none

/-- Checks an integer against its bounds, the lower one first. -/
def validateRange (min max : Option Int) (n : Int) : Except Rejection String :=
  match min.filter (n < ·), max.filter (· < n) with
  | some low, _ => .error (.below n low)
  | none, some high => .error (.above n high)
  | none, none => .ok (toString n)

/-- The normalized text of an accepted edit. Options must match as typed; the other validators
ignore white space around the text. -/
def validate [PatternReader] (v : Validator) (raw : String) : Except Rejection String :=
  match v with
  | intRange min max =>
    let text := Text.trim raw
    match Text.integer? text.toList with
    | none => .error (.notInteger text)
    | some n => validateRange min max n
  | pattern source =>
    let text := Text.trim raw
    if PatternReader.occurs source text then .ok text else .error (.mismatch text source)
  | oneOf options => if options.contains raw then .ok raw else .error (.notOption raw options)

def toJson : Validator → Json
  | intRange min max =>
    .object [("kind", .string "int_range"), ("min", min.elim .null .ofInt),
      ("max", max.elim .null .ofInt)]
  | pattern source => .object [("kind", .string "pattern"), ("pattern", .string source)]
  | oneOf options =>
    .object [("kind", .string "one_of"), ("options", .array (options.map .string))]

end Validator

/-- The text that an edit leaves in a field; without a validator any text is taken as it is. -/
def applyEdit [PatternReader] (validator : Option Validator) (raw : String) :
    Except Rejection String :=
  match validator with
  | some v => v.validate raw
  | none => .ok raw

end BlockSketch
