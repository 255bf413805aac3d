import BlockSketch.Text.CharClass

/-
Text patterns. How pattern text is read is up to a reader. The one given here knows literals,
character classes, groups, alternatives, repetition, and the anchors for the two ends of the text; a
text with anything else in it, such as a flag or a class inside a class, is no pattern to it. It
matches by derivatives: after a character has been read, what is left to match is a pattern again.
-/
namespace BlockSketch

inductive CharSet where
  | one (c : Char)
  | dot
  | digit
  | word
  | space
  | negated (set : CharSet)
  | range (first last : Char)
  | union (a b : CharSet)
  | none

def CharSet.contains : CharSet → Char → Bool
  | one c, x => x = c
  | dot, x => x ≠ '\n'
  | digit, x => Text.isDecimalDigit x
  | word, x => Text.isWordChar x
  | space, x => Text.isBlankChar x
  | negated set, x => !set.contains x
  | range first last, x => first ≤ x && x ≤ last
  | union a b, x => a.contains x || b.contains x
  | none, _ => false

inductive Pattern where
  | never
  | empty
  | atStart
  | atEnd
  | char (set : CharSet)
  | seq (first second : Pattern)
  | alt (left right : Pattern)
  | star (body : Pattern)

namespace Pattern

def andThen : Pattern → Pattern → Pattern
  | never, _ => never
  | _, never => never
  | empty, q => q
  | p, q => seq p q

def orElse : Pattern → Pattern → Pattern
  | never, q => q
  | p, never => p
  | p, q => alt p q

/-- The pattern matches the empty text at a place that is the start or the end of the whole text. -/
def nullable (start stop : Bool) : Pattern → Bool
  | never => false
  | empty => true
  | atStart => start
  | atEnd => stop
  | char _ => false
  | seq p q => p.nullable start stop && q.nullable start stop
  | alt p q => p.nullable start stop || q.nullable start stop
  | star _ => true

def derive (start : Bool) (c : Char) : Pattern → Pattern
  | never => never
  | empty => never
  | atStart => never
  | atEnd => never
  | char set => if set.contains c then empty else never
  | seq p q =>
    let through := (p.derive start c).andThen q
    if p.nullable start false then through.orElse (q.derive start c) else through
  | alt p q => (p.derive start c).orElse (q.derive start c)
  | star p => (p.derive start c).andThen (star p)

def matchesFrom (start : Bool) (p : Pattern) : List Char → Bool
  | [] => p.nullable start true
  | c :: rest => p.nullable start false || matchesFrom false (p.derive start c) rest

def occursIn (p : Pattern) (text : String) : Bool :=
  matchesFrom true (seq (star (char (.negated .none))) p) text.toList

def times (p : Pattern) (least : Nat) (most : Option Nat) : Pattern :=
  let required := (List.replicate least p).foldr andThen empty
  let optional := match most with
    | none => star p
    | some n => (List.range (n - least)).foldl (fun q _ => (p.andThen q).orElse empty) empty
  required.andThen optional

def escape? (c : Char) : Option CharSet :=
  match c with
  | 'd' => some .digit
  | 'D' => some (.negated .digit)
  | 'w' => some .word
  | 'W' => some (.negated .word)
  | 's' => some .space
  | 'S' => some (.negated .space)
  | 'n' => some (.one '\n')
  | 't' => some (.one '\t')
  | 'r' => some (.one '\r')
  | _ => if c.isAlphanum || c = '<' || c = '>' || 128 ≤ c.toNat then none else some (.one c)

def classItems (set : CharSet) : List Char → Option (CharSet × List Char)
  | [] => none
  | ']' :: rest => some (set, rest)
  | ['\\'] => none
  | '\\' :: c :: rest =>
    match escape? c with
    | some e => classItems (.union set e) rest
    | none => none
  | '[' :: _ => none
  | '&' :: '&' :: _ => none
  | '-' :: '-' :: _ => none
  | '~' :: '~' :: _ => none
  | a :: '-' :: b :: rest =>
    if b = ']' then some (.union (.union set (.one a)) (.one '-'), rest)
    else if b = '-' || b = '[' || b = '\\' then none
    else if a ≤ b then classItems (.union set (.range a b)) rest
    else none
  | a :: rest => classItems (.union set (.one a)) rest

/-- A bracketed class after its opening bracket. A closing bracket that comes first is a member. -/
def charClass : List Char → Option (CharSet × List Char)
  | '^' :: ']' :: rest => (classItems (.one ']') rest).map fun r => (.negated r.1, r.2)
  | '^' :: rest => (classItems .none rest).map fun r => (.negated r.1, r.2)
  | ']' :: rest => classItems (.one ']') rest
  | cs => classItems .none cs

def repetition (cs : List Char) : Option (Nat × Option Nat × List Char) :=
  let low := cs.takeWhile Char.isDigit
  let least := Nat.ofDigitChars 10 low 0
  if low.isEmpty then none
  else match cs.dropWhile Char.isDigit with
    | '\x7d' :: rest => some (least, some least, rest)
    | ',' :: '\x7d' :: rest => some (least, none, rest)
    | ',' :: more =>
      let high := more.takeWhile Char.isDigit
      let most := Nat.ofDigitChars 10 high 0
      match more.dropWhile Char.isDigit with
      | '\x7d' :: rest =>
        if high.isEmpty || most < least then none else some (least, some most, rest)
      | _ => none
    | _ => none

structure Group where
  alternatives : List Pattern
  parts : List Pattern

def Group.close (g : Group) : Pattern :=
  let last := g.parts.foldl (fun q p => p.andThen q) empty
  g.alternatives.foldl (fun q p => alt p q) last

def Group.add (g : Group) (p : Pattern) : Group := { g with parts := p :: g.parts }

def Group.repeatLast (g : Group) (least : Nat) (most : Option Nat) : Option Group :=
  match g.parts with
  | [] => none
  | p :: rest => some { g with parts := p.times least most :: rest }

/-- What follows a repetition. Whether it prefers few rounds or many makes no difference to what
occurs. -/
def afterRepetition : List Char → List Char
  | '?' :: rest => rest
  | rest => rest

/-- Reads pattern text with the open groups on a stack. Each round reads at least one character. -/
def parseFuel : Nat → List Group → Group → List Char → Option Pattern
  | _, [], g, [] => some g.close
  | _, _ :: _, _, [] => none
  | 0, _, _, _ => none
  | fuel + 1, outer, g, c :: rest =>
    match c with
    | '(' =>
      let inside := match rest with
        | '?' :: ':' :: more => more
        | _ => rest
      parseFuel fuel (g :: outer) ⟨[], []⟩ inside
    | ')' =>
      match outer with
      | [] => none
      | around :: outer => parseFuel fuel outer (around.add g.close) rest
    | '|' =>
      let finished := g.parts.foldl (fun q p => p.andThen q) empty
      parseFuel fuel outer ⟨finished :: g.alternatives, []⟩ rest
    | '*' => (g.repeatLast 0 none).bind fun g => parseFuel fuel outer g (afterRepetition rest)
    | '+' => (g.repeatLast 1 none).bind fun g => parseFuel fuel outer g (afterRepetition rest)
    | '?' => (g.repeatLast 0 (some 1)).bind fun g => parseFuel fuel outer g (afterRepetition rest)
    | '\x7b' =>
      match repetition rest with
      | some (least, most, rest) =>
        (g.repeatLast least most).bind fun g => parseFuel fuel outer g (afterRepetition rest)
      | none => none
    | '[' =>
      match charClass rest with
      | some (set, rest) => parseFuel fuel outer (g.add (char set)) rest
      | none => none
    | '.' => parseFuel fuel outer (g.add (char .dot)) rest
    | '^' => parseFuel fuel outer (g.add atStart) rest
    | '$' => parseFuel fuel outer (g.add atEnd) rest
    | '\\' =>
      match rest with
      | [] => none
      | e :: rest => (escape? e).bind fun set => parseFuel fuel outer (g.add (char set)) rest
    | _ => parseFuel fuel outer (g.add (char (.one c))) rest

def parse? (source : String) : Option Pattern :=
  parseFuel source.toList.length [] ⟨[], []⟩ source.toList

end Pattern

/-- A way to read pattern text: which texts are patterns, and in which texts a pattern occurs. -/
class PatternReader where
  isPattern : String → Bool
  occurs : (source text : String) → Bool

instance Pattern.reader : PatternReader where
  isPattern source := (parse? source).isSome
  occurs source text := (parse? source).any (·.occursIn text)

end BlockSketch
