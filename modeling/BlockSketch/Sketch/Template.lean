import BlockSketch.Sketch.Layout
import BlockSketch.Sketch.Script

/-
Rules from templates: a template is a row of parts, and the code of a block is the texts of the
parts one after the other.
-/
namespace BlockSketch

inductive TemplatePart where
  | text (t : String)
  | field (name : String)
  /-- The operand in a value socket, in parentheses where it needs them. -/
  | value (socket : String) (min : Order) (fallback : String)
  | statements (socket : String)
  | body (socket : String)
  /-- Says whether a value socket is in use. -/
  | presence (socket : String)
  /-- Marks a pin as used and gives no text. -/
  | use (pin : String)
  | variableName (user : String)
  | distinct (base : String)
  deriving DecidableEq, Repr

def TemplatePart.script (site : Site) : TemplatePart → Script String
  | text t => return t
  | field name => return site.field name
  | value socket min fallback => Script.operandText socket min fallback
  | statements socket => do
    let code ← Script.statements socket
    return Layout.indent code
  | body socket => Script.statements socket
  | presence socket => return if site.hasValue socket then "yes" else "no"
  | use pin => do
    Script.use (.pin pin)
    return ""
  | variableName user => Script.variableName user
  | distinct base => Script.distinct base

structure Template where
  kind : String
  parts : List TemplatePart
  /-- The binding order of an expression; a template without one gives a statement. -/
  order : Option Order
  deriving DecidableEq, Repr

namespace Template

def expand (site : Site) (code : String) : List TemplatePart → Script String
  | [] => return code
  | part :: rest => do
    let text ← part.script site
    expand site (code ++ text) rest

def rule (t : Template) : Rule := fun site => do
  let code ← expand site "" t.parts
  match t.order with
  | some order => return .expression code order
  | none => return .statement code

def register (table : RuleTable) (t : Template) : Bool × RuleTable :=
  (table.contains t.kind, table.insert t.kind t.rule)

end Template
end BlockSketch
