/-
Emitted code and how tightly it binds. A block gives a statement or an expression; an expression
says how loosely it binds, and the place it goes to decides whether it needs parentheses.
-/
namespace BlockSketch

/-- How loosely an expression binds. Lower levels bind tighter. -/
structure Order where
  level : Nat
  deriving DecidableEq, Repr

namespace Order

def atomic : Order := ⟨0⟩
def member : Order := ⟨12⟩
def functionCall : Order := ⟨20⟩
def unaryMinus : Order := ⟨43⟩
def logicalNot : Order := ⟨44⟩
def multiplication : Order := ⟨51⟩
def division : Order := ⟨52⟩
def modulus : Order := ⟨53⟩
def subtraction : Order := ⟨61⟩
def addition : Order := ⟨62⟩
def relational : Order := ⟨80⟩
def equality : Order := ⟨90⟩
def logicalAnd : Order := ⟨130⟩
def logicalOr : Order := ⟨140⟩
def conditional : Order := ⟨150⟩
def assignment : Order := ⟨160⟩
def comma : Order := ⟨180⟩
def loosest : Order := ⟨990⟩

/-- Pairs of an outer and an inner order that need no parentheses although the inner one binds no
tighter: member access and calls in a row, repeated negation, and operators that associate. -/
def associative : List (Order × Order) :=
  [(functionCall, member), (functionCall, functionCall), (member, member), (member, functionCall),
    (logicalNot, logicalNot), (multiplication, multiplication), (addition, addition),
    (logicalAnd, logicalAnd), (logicalOr, logicalOr)]

def needsParens (outer inner : Order) : Bool :=
  if inner.level < outer.level then false
  else if inner = outer && (outer = atomic || outer = loosest) then false
  else !associative.contains (outer, inner)

end Order

inductive Emission where
  | statement (text : String)
  | expression (text : String) (order : Order)
  deriving DecidableEq, Repr

namespace Emission

def empty : Emission := statement ""

def text : Emission → String
  | statement text => text
  | expression text _ => text

/-- As a statement; an expression is followed by a semicolon. -/
def asStatement : Emission → String
  | statement text => text
  | expression text _ => if text = "" then "" else text ++ ";\n"

end Emission

structure Operand where
  code : String
  order : Order
  /-- It binds more loosely than was asked for. -/
  parenthesize : Bool
  /-- Nothing usable is in the socket, and the code is the fallback. -/
  fallback : Bool
  deriving DecidableEq, Repr

namespace Operand

def ofFallback (fallback : String) : Operand :=
  ⟨if fallback = "" then "0" else fallback, .atomic, false, true⟩

def ofExpression (min : Order) (code : String) (order : Order) : Operand :=
  ⟨code, order, min.needsParens order, false⟩

def wrapped (o : Operand) : String := if o.parenthesize then "(" ++ o.code ++ ")" else o.code

end Operand
end BlockSketch
