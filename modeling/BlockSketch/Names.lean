/-
Identifiers for names that users choose. A name is first reduced to the characters of a C
identifier; if the result is reserved or taken, the least number from two on that makes it free is
appended.
-/
namespace BlockSketch

/-- Words that an identifier must not be: entry points, keywords and literals, types, and the names
of the core library. -/
def reservedWords : List String :=
  ["setup", "loop",
    "if", "else", "for", "switch", "case", "while", "do", "break", "continue", "function",
    "return", "goto", "try", "throw", "catch", "finally", "true", "false", "null", "undefined",
    "default", "sizeof", "new", "delete", "this", "class", "struct", "union", "enum",
    "typedef", "namespace", "template", "operator",
    "void", "int", "float", "double", "char", "byte", "boolean", "bool", "word", "long",
    "short", "signed", "unsigned", "const", "static", "volatile", "extern", "register",
    "auto", "String", "Array",
    "pinMode", "digitalWrite", "digitalRead", "analogRead", "analogWrite", "delay",
    "delayMicroseconds", "millis", "micros", "Serial", "HIGH", "LOW", "INPUT", "OUTPUT",
    "INPUT_PULLUP", "INPUT_PULLDOWN", "LED_BUILTIN", "pow", "abs", "min", "max", "map",
    "constrain", "random"]

namespace Identifier

def separate : List Char → List Char
  | [] => []
  | c :: rest => if c = '_' then c :: rest else '_' :: c :: rest

/-- One more character of the requested name. Letters and digits stay, other ASCII characters
separate, and any other character is spelled by its code point between separators. -/
def absorb (out : List Char) (c : Char) : List Char :=
  if c.isAlphanum then c :: out
  else if c.toNat < 128 then separate out
  else '_' :: ((Nat.toDigits 16 c.toNat).reverse ++ 'u' :: separate out)

def sanitizeChars (requested : List Char) : List Char :=
  let out := ((requested.foldl absorb []).dropWhile (· = '_')).reverse
  match out with
  | [] => "unnamed".toList
  | c :: _ => if c.isDigit then 'm' :: 'y' :: '_' :: out else out

def sanitize (requested : String) : String := String.ofList (sanitizeChars requested.toList)

/-- The first of `base ++ n`, `base ++ (n + 1)`, ... that is not occupied, looking at `count` of
them before settling for the one after. -/
def firstFree (base : String) (occupied : List String) : Nat → Nat → String
  | 0, n => base ++ toString n
  | count + 1, n =>
    let candidate := base ++ toString n
    if occupied.contains candidate then firstFree base occupied count (n + 1) else candidate

/-- A free identifier for a requested name. As many candidates as there are occupied names cannot
all be occupied together with the one after them. -/
def safeName (requested : String) (reserved taken : List String) : String :=
  let base := sanitize requested
  let occupied := reserved ++ taken
  if occupied.contains base then firstFree base occupied occupied.length 2 else base

end Identifier

structure NameTable where
  reserved : List String
  taken : List String
  byUser : List (String × String)

namespace NameTable

def new (reserved : List String) : NameTable := ⟨reserved, [], []⟩

def default : NameTable := new reservedWords

def get (table : NameTable) (user : String) : String × NameTable :=
  match table.byUser.lookup user with
  | some name => (name, table)
  | none =>
    let name := Identifier.safeName user table.reserved table.taken
    (name, { table with taken := name :: table.taken, byUser := (user, name) :: table.byUser })

def distinct (table : NameTable) (base : String) : String × NameTable :=
  let name := Identifier.safeName base table.reserved table.taken
  (name, { table with taken := name :: table.taken })

def isReserved (table : NameTable) (name : String) : Bool := table.reserved.contains name

end NameTable
end BlockSketch
