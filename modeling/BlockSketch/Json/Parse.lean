import BlockSketch.Json.Token

/-
Reading JSON text of any depth. The containers that are still open stand on a stack, so a token only
ever changes its top: a value completes either the whole text or the next place of the container
around it.
-/
namespace BlockSketch.Json

/-- A container that waits for a value. What it holds so far is listed last first. -/
inductive Frame where
  | items (done : List Json)
  | member (done : List (String × Json)) (name : String)

inductive Expect where
  | value
  /-- A value or the end of the array just opened. -/
  | firstItem
  | itemEnd (done : List Json)
  /-- A member's name; at the first one the object may also end. -/
  | name (done : List (String × Json)) (first : Bool)
  | colon (done : List (String × Json)) (name : String)
  | memberEnd (done : List (String × Json))

inductive Progress where
  | more (stack : List Frame) (expect : Expect)
  | done (value : Json)

def complete (value : Json) : List Frame → Progress
  | [] => .done value
  | .items done :: stack => .more stack (.itemEnd (value :: done))
  | .member done name :: stack => .more stack (.memberEnd ((name, value) :: done))

/-- How deep containers may nest: fewer than the given number, or without bound. -/
abbrev DepthLimit := Option Nat

def DepthLimit.admits (limit : DepthLimit) (stack : List Frame) : Bool :=
  match limit with
  | none => true
  | some n => stack.length + 1 < n

def startValue (limit : DepthLimit) (stack : List Frame) : Token → Except Fault Progress
  | .scalar value => .ok (complete value stack)
  | .text s => .ok (complete (.string s) stack)
  | .openArray =>
    if limit.admits stack then .ok (.more stack .firstItem) else .error .malformed
  | .openObject =>
    if limit.admits stack then .ok (.more stack (.name [] true)) else .error .malformed
  | _ => .error .malformed

def feed (limit : DepthLimit) (stack : List Frame) : Expect → Token → Except Fault Progress
  | .value, t => startValue limit stack t
  | .firstItem, .closeArray => .ok (complete (.array []) stack)
  | .firstItem, t => startValue limit (.items [] :: stack) t
  | .itemEnd done, .comma => .ok (.more (.items done :: stack) .value)
  | .itemEnd done, .closeArray => .ok (complete (.array done.reverse) stack)
  | .name done _, .text s => .ok (.more stack (.colon done s))
  | .name _ true, .closeObject => .ok (complete (.object []) stack)
  | .colon done name, .colon => .ok (.more (.member done name :: stack) .value)
  | .memberEnd done, .comma => .ok (.more stack (.name done false))
  | .memberEnd done, .closeObject => .ok (complete (.object (sortMembers done.reverse)) stack)
  | _, _ => .error .malformed

def Expect.admits : Expect → Char → Bool
  | .value, _ => true
  | .firstItem, _ => true
  | .itemEnd _, c => c = ',' || c = ']'
  | .name _ first, c => c = '"' || (first && c = '\x7d')
  | .colon .., c => c = ':'
  | .memberEnd _, c => c = ',' || c = '\x7d'

/-- How the token that starts with a character is read, for fuel above the length of the rest. -/
abbrev Lexer := Nat → Char → List Char → Except Fault (Token × List Char)

/-- Reads one value and gives back the text after it. Every round reads a token of at least one
character, so the length of the text bounds the rounds. -/
def readFuel (lex : Lexer) (limit : DepthLimit) : Nat → List Frame → Expect → List Char →
    Except Fault (Json × List Char)
  | 0, _, _, _ => .error .ended
  | fuel + 1, stack, expect, cs =>
    match cs.dropWhile isSpace with
    | [] => .error .ended
    | c :: rest =>
      if !expect.admits c then .error .malformed
      else match lex fuel c rest with
      | .error f => .error f
      | .ok (token, rest) =>
        match feed limit stack expect token with
        | .error f => .error f
        | .ok (.more stack expect) => readFuel lex limit fuel stack expect rest
        | .ok (.done value) => .ok (value, rest)

def parseFirst (limit : DepthLimit) (text : List Char) : Except Fault (Json × List Char) :=
  readFuel Token.startingWith limit (text.length + 1) [] .value text

/-- What follows the first value of a text, of which only the form counts. -/
def passFirst (text : List Char) : Except Fault (List Char) :=
  (readFuel Token.passing none (text.length + 1) [] .value text).map Prod.snd

def parseWithin (limit : DepthLimit) (text : String) : Except Fault Json := do
  let (value, rest) ← parseFirst limit text.toList
  if rest.all isSpace then .ok value else .error .malformed

def parse (text : String) : Except Fault Json := parseWithin none text

end BlockSketch.Json
