import BlockSketch.Json.Print
import BlockSketch.Shape.Basic
import BlockSketch.SortedMap

/-
Catalogues of shapes by kind. A kind can be defined again, which replaces its shape; a faulty shape
is refused and changes nothing.
-/
namespace BlockSketch

structure Catalogue where
  shapes : SortedMap Shape

structure ShapeError where
  kind : String
  fault : Shape.Fault
  deriving DecidableEq, Repr

def ShapeError.message (e : ShapeError) : String :=
  "invalid shape for block kind '" ++ e.kind ++ "': " ++ e.fault.message

namespace Catalogue

def empty : Catalogue := ⟨∅⟩

def lookup (c : Catalogue) (kind : String) : Option Shape := c.shapes.get? kind

def define (c : Catalogue) (shape : Shape) : Except ShapeError (Option Shape × Catalogue) :=
  match shape.fault? with
  | some fault => .error ⟨shape.kind, fault⟩
  | none => .ok (c.lookup shape.kind, ⟨c.shapes.insert shape.kind shape⟩)

/-- Defines several kinds in order; the first refusal ends it. -/
def defineAll (c : Catalogue) : List Shape → Except ShapeError Catalogue
  | [] => .ok c
  | shape :: rest =>
    match c.define shape with
    | .ok (_, c) => c.defineAll rest
    | .error e => .error e

def kinds (c : Catalogue) : List String := c.shapes.keys

def size (c : Catalogue) : Nat := c.shapes.size

def toJson (c : Catalogue) : Json := .array (c.shapes.entries.map fun e => e.2.toJson)

def canonicalText (c : Catalogue) : String := c.toJson.compact

/-- A block of the child's kind may sit in a value socket of the parent's kind. What is unknown or
unconstrained fits. -/
def accepts (c : Catalogue) (parent socket child : String) : Bool :=
  match (c.lookup parent).bind (·.socketCheck? socket) with
  | none => true
  | some wanted =>
    match ((c.lookup child).bind (·.output)).bind (·.check) with
    | some given => given = wanted
    | none => true

end Catalogue
end BlockSketch
