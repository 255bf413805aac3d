import BlockSketch.Number.Literal

/-
Reading an expression of the sketch language. Characters are cut into the longest tokens they form,
and the tokens are read with the precedence of C: `||` binds loosest, then `&&`, equality, order,
sums, products, and tightest the unary operators and calls; binary operators group from the left.
-/
namespace BlockSketch.Code

inductive BinaryOp where
  | or
  | and
  | equal
  | unequal
  | less
  | lessEqual
  | greater
  | greaterEqual
  | add
  | subtract
  | multiply
  | divide
  deriving DecidableEq, Repr

namespace BinaryOp

def level : BinaryOp → Nat
  | or => 0
  | and => 1
  | equal | unequal => 2
  | less | lessEqual | greater | greaterEqual => 3
  | add | subtract => 4
  | multiply | divide => 5

def symbol : BinaryOp → List Char
  | or => ['|', '|']
  | and => ['&', '&']
  | equal => ['=', '=']
  | unequal => ['!', '=']
  | less => ['<']
  | lessEqual => ['<', '=']
  | greater => ['>']
  | greaterEqual => ['>', '=']
  | add => ['+']
  | subtract => ['-']
  | multiply => ['*']
  | divide => ['/']

def all : List BinaryOp :=
  [or, and, equal, unequal, less, lessEqual, greater, greaterEqual, add, subtract, multiply, divide]

def ofSymbol? (text : List Char) : Option BinaryOp := all.find? fun op => op.symbol = text

end BinaryOp

inductive UnaryOp where
  | not
  | minus
  deriving DecidableEq, Repr

def UnaryOp.symbol : UnaryOp → List Char
  | not => ['!']
  | minus => ['-']

inductive Expr where
  | numeral (text : List Char)
  | name (text : List Char)
  | call (callee : Expr)
  | argument (call : Expr) (x : Expr)
  | unary (op : UnaryOp) (x : Expr)
  | binary (op : BinaryOp) (a b : Expr)
  deriving DecidableEq, Repr

inductive Token where
  | numeral (text : List Char)
  | name (text : List Char)
  | symbol (text : List Char)
  deriving DecidableEq, Repr

def startsName (c : Char) : Bool := c.isAlpha || c = '_'

def continuesName (c : Char) : Bool := c.isAlphanum || c = '_'

/-- The symbols of two characters. Those after the comparisons and connectives are tokens of the
language without being operators here; two characters that form one are never read apart. -/
def pairs : List (List Char) :=
  [['=', '='], ['!', '='], ['<', '='], ['>', '='], ['&', '&'], ['|', '|'], ['+', '+'], ['-', '-'],
    ['-', '>'], ['<', '<'], ['>', '>'], ['+', '='], ['-', '='], ['*', '='], ['/', '='], ['%', '='],
    ['&', '='], ['|', '='], ['^', '='], ['/', '/'], ['/', '*']]

def symbols : List (List Char) :=
  [['('], [')'], [','], ['!']] ++ BinaryOp.all.map BinaryOp.symbol

def joins : List Char → Char → Bool
  | [], _ => true
  | s :: rest, c =>
    if startsName s then continuesName c
    else if s.isDigit then continuesName c || c = '.'
    else rest.isEmpty && pairs.contains [s, c]

def tokenOf : List Char → Option (List Token)
  | [] => some []
  | s :: rest =>
    if startsName s then some [.name (s :: rest)]
    else if s.isDigit then
      if (Binary64.decimalText? false (s :: rest)).isSome then some [.numeral (s :: rest)] else none
    else if symbols.contains (s :: rest) then some [.symbol (s :: rest)]
    else none

def both (first second : Option (List Token)) : Option (List Token) :=
  first.bind fun a => second.map (a ++ ·)

def lexFrom (begun : List Char) : List Char → Option (List Token)
  | [] => tokenOf begun
  | c :: rest =>
    if c = ' ' then both (tokenOf begun) (lexFrom [] rest)
    else if joins begun c then lexFrom (begun ++ [c]) rest
    else both (tokenOf begun) (lexFrom [c] rest)

def lex (text : List Char) : Option (List Token) := lexFrom [] text

inductive Frame where
  | group
  | call (call : Expr)
  | unary (op : UnaryOp)
  | left (a : Expr) (op : BinaryOp)
  deriving DecidableEq, Repr

/-- Ends everything that binds at least as tightly as the level. -/
def collapse (level : Nat) : List Frame → Expr → List Frame × Expr
  | .unary op :: outer, e => collapse level outer (.unary op e)
  | .left a op :: outer, e =>
    if level ≤ op.level then collapse level outer (.binary op a e) else (.left a op :: outer, e)
  | frames, e => (frames, e)

mutual

def operand (frames : List Frame) : List Token → Option Expr
  | .numeral text :: rest => after frames (.numeral text) rest
  | .name text :: rest => after frames (.name text) rest
  | .symbol s :: rest =>
    if s = ['('] then operand (.group :: frames) rest
    else if s = ['!'] then operand (.unary .not :: frames) rest
    else if s = ['-'] then operand (.unary .minus :: frames) rest
    else if s = [')'] then
      match frames with
      | .call (.call callee) :: outer => after outer (.call callee) rest
      | _ => none
    else none
  | [] => none

def after (frames : List Frame) (e : Expr) : List Token → Option Expr
  | .symbol s :: rest =>
    if s = ['('] then operand (.call (.call e) :: frames) rest
    else if s = [')'] then
      match collapse 0 frames e with
      | (.group :: outer, e) => after outer e rest
      | (.call c :: outer, e) => after outer (.argument c e) rest
      | _ => none
    else if s = [','] then
      match collapse 0 frames e with
      | (.call c :: outer, e) => operand (.call (.argument c e) :: outer) rest
      | _ => none
    else
      match BinaryOp.ofSymbol? s with
      | some op =>
        operand (.left (collapse op.level frames e).2 op :: (collapse op.level frames e).1) rest
      | none => none
  | [] =>
    match collapse 0 frames e with
    | ([], e) => some e
    | _ => none
  | _ => none

end

def parse (tokens : List Token) : Option Expr := operand [] tokens

def read (text : String) : Option Expr := (lex text.toList).bind parse

end BlockSketch.Code
