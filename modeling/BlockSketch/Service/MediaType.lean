/-
Media types as in a content type header: a type, a subtype with an optional suffix after its last
plus sign, and parameters. Names compare without regard to case.
-/
namespace BlockSketch

structure MediaType where
  type : String
  subtype : String
  suffix : Option String
  deriving DecidableEq, Repr

namespace MediaType

def isTokenChar (c : Char) : Bool := c.isAlphanum || "!#$%&'*+-.^_`|~".toList.contains c

def isQuotedChar (c : Char) : Bool := 31 < c.toNat && c.toNat < 127

def afterQuoted (cs : List Char) : Option (List Char) :=
  match cs.dropWhile (· = ' ') with
  | [] => some []
  | ';' :: rest => some rest
  | _ => none

/-- The text after the value of a parameter, which is a token or quoted. A quoted value has at least
one character, so a quote right after the opening one does not close it. -/
def afterValue (cs : List Char) : Option (List Char) :=
  match cs with
  | '"' :: first :: rest =>
    match rest.takeWhile (· ≠ '"'), rest.dropWhile (· ≠ '"') with
    | value, '"' :: rest =>
      if (first :: value).all isQuotedChar then afterQuoted rest else none
    | _, _ => none
  | _ =>
    match cs.takeWhile isTokenChar, cs.dropWhile isTokenChar with
    | _, [] => some []
    | _ :: _, ';' :: rest => some rest
    | _, _ => none

def parametersFuel : Nat → List Char → Bool
  | 0, _ => false
  | _ + 1, [] => true
  | fuel + 1, ' ' :: rest => parametersFuel fuel rest
  | fuel + 1, cs =>
    match cs.takeWhile isTokenChar, cs.dropWhile isTokenChar with
    | _ :: _, '=' :: rest =>
      match afterValue rest with
      | some rest => parametersFuel fuel rest
      | none => false
    | _, _ => false

/-- Splits a subtype at its last plus sign, if something comes before that. -/
def splitSuffix (cs : List Char) : List Char × Option (List Char) :=
  match cs.reverse.dropWhile (· ≠ '+') with
  | _ :: before@(_ :: _) => (before.reverse, some (cs.reverse.takeWhile (· ≠ '+')).reverse)
  | _ => (cs, none)

def lower (cs : List Char) : String := String.ofList (cs.map Char.toLower)

def parse? (text : String) : Option MediaType :=
  let cs := text.toList
  match cs.takeWhile isTokenChar, cs.dropWhile isTokenChar with
  | type@(_ :: _), '/' :: rest =>
    let (subtype, suffix) := splitSuffix (rest.takeWhile isTokenChar)
    let parsed : MediaType := ⟨lower type, lower subtype, suffix.map lower⟩
    match rest.takeWhile isTokenChar, rest.dropWhile isTokenChar with
    | _, [] => some parsed
    | _ :: _, ';' :: parameters =>
      if parametersFuel (parameters.length + 1) parameters then some parsed else none
    | _, _ => none
  | _, _ => none

def isJson (m : MediaType) : Bool :=
  m.type = "application" && (m.subtype = "json" || m.suffix = some "json")

end MediaType
end BlockSketch
