/-
White space and lines. A text is blank when all of its characters have the White_Space property;
trimming drops such characters at both ends.
-/
namespace BlockSketch.Text

/-- The code points with the White_Space property, as closed ranges in increasing order. -/
def blankRanges : List (Nat × Nat) :=
  [(0x09, 0x0D), (0x20, 0x20), (0x85, 0x85), (0xA0, 0xA0), (0x1680, 0x1680), (0x2000, 0x200A),
    (0x2028, 0x2029), (0x202F, 0x202F), (0x205F, 0x205F), (0x3000, 0x3000)]

def isBlankChar (c : Char) : Bool :=
  blankRanges.any fun r => r.1 ≤ c.toNat && c.toNat ≤ r.2

def trimChars (cs : List Char) : List Char :=
  ((cs.dropWhile isBlankChar).reverse.dropWhile isBlankChar).reverse

def isBlank (s : String) : Bool := s.toList.all isBlankChar

def trim (s : String) : String := String.ofList (trimChars s.toList)

/-- The lines of a text, each with the newline that ends it; only the last may have none. -/
def linesOf (cs : List Char) : List (List Char) :=
  cs.foldr (fun c lines =>
    if c = '\n' then [c] :: lines
    else match lines with
      | [] => [[c]]
      | line :: rest => (c :: line) :: rest) []

end BlockSketch.Text
