import BlockSketch.Json.Parse

/-
The body of a request that brings code: an object with code and a device, or an array of the two.
It is read from left to right no further than needed, so an unsuitable value counts before any fault
behind it, and text after the body does not count at all.
-/
namespace BlockSketch

structure CodeRequest where
  code : String
  device : Option String
  deriving DecidableEq, Repr

namespace CodeRequest

inductive BodyFault where
  | unreadable
  | unsuitable
  deriving DecidableEq, Repr

def token (cs : List Char) : Except BodyFault (Json.Token × List Char) :=
  match cs.dropWhile Json.isSpace with
  | [] => .error .unreadable
  | c :: rest =>
    match Json.Token.startingWith (rest.length + 1) c rest with
    | .ok read => .ok read
    | .error _ => .error .unreadable

/-- What is wrong with a token where a text is due: it starts another value, or none. -/
def notText : Json.Token → BodyFault
  | .scalar _ | .text _ | .openArray | .openObject => .unsuitable
  | .closeArray | .closeObject | .comma | .colon => .unreadable

def text (cs : List Char) : Except BodyFault (String × List Char) := do
  let (t, rest) ← token cs
  match t with
  | .text s => return (s, rest)
  | t => .error (notText t)

def optionalText (cs : List Char) : Except BodyFault (Option String × List Char) := do
  let (t, rest) ← token cs
  match t with
  | .text s => return (some s, rest)
  | .scalar .null => return (none, rest)
  | t => .error (notText t)

def expect (c : Char) (cs : List Char) : Except BodyFault (List Char) :=
  match cs.dropWhile Json.isSpace with
  | [] => .error .unreadable
  | d :: rest => if d = c then .ok rest else .error .unreadable

structure Members where
  code : Option String
  device : Option (Option String)

def Members.request (m : Members) : CodeRequest := ⟨m.code.getD "", m.device.getD none⟩

/-- The value of a member. Code and device must not come twice; other members are passed over. -/
def member (m : Members) (name : String) (cs : List Char) :
    Except BodyFault (Members × List Char) :=
  match name with
  | "code" => do
    if m.code.isSome then .error .unsuitable
    else
      let (code, rest) ← text (← expect ':' cs)
      return ({ m with code := some code }, rest)
  | "port" => do
    if m.device.isSome then .error .unsuitable
    else
      let (device, rest) ← optionalText (← expect ':' cs)
      return ({ m with device := some device }, rest)
  | _ => do
    match Json.passFirst (← expect ':' cs) with
    | .ok rest => return (m, rest)
    | .error _ => .error .unreadable

def memberName (cs : List Char) : Except BodyFault (String × List Char) := do
  let rest ← expect '"' cs
  match Json.Token.string (rest.length + 1) rest with
  | .ok read => return read
  | .error _ => .error .unreadable

/-- The members of an object up to its end. Every round reads a character at least. -/
def membersFuel : Nat → Bool → Members → List Char → Except BodyFault CodeRequest
  | 0, _, _, _ => .error .unreadable
  | fuel + 1, first, m, cs =>
    match cs.dropWhile Json.isSpace with
    | '\x7d' :: _ => .ok m.request
    | cs => do
      let cs ← if first then .ok cs else expect ',' cs
      let (name, rest) ← memberName cs
      let (m, rest) ← member m name rest
      membersFuel fuel false m rest

/-- The items of an array up to its end: code, then a device. Missing ones are left out. -/
def items (cs : List Char) : Except BodyFault CodeRequest :=
  match cs.dropWhile Json.isSpace with
  | ']' :: _ => .ok ⟨"", none⟩
  | cs => do
    let (code, rest) ← text cs
    match rest.dropWhile Json.isSpace with
    | ']' :: _ => return ⟨code, none⟩
    | rest =>
      let (device, rest) ← optionalText (← expect ',' rest)
      let _ ← expect ']' rest
      return ⟨code, device⟩

def read (body : String) : Except BodyFault CodeRequest := do
  let cs := body.toList
  let (t, rest) ← token cs
  match t with
  | .openObject => membersFuel (cs.length + 1) true ⟨none, none⟩ rest
  | .openArray => items rest
  | t => .error (notText t)

end CodeRequest
end BlockSketch
