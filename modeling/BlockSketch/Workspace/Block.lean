import BlockSketch.Diagnostic
import BlockSketch.Number.Literal
import BlockSketch.Shape.Catalogue

/-
Blocks. What a block is in itself, its content, is kept apart from how it hangs together with
others: the children in its slots, its successor, and the parent that holds it.
-/
namespace BlockSketch

inductive FieldValue where
  | text (s : String)
  | number (x : Binary64)
  | bool (b : Bool)
  deriving DecidableEq, Repr

def FieldValue.asText : FieldValue → String
  | text s => s
  | number x => x.literal
  | bool b => if b then "TRUE" else "FALSE"

/-- A place on the canvas. Only the height matters: it orders the roots. -/
structure Position where
  x : Binary64
  y : Binary64
  deriving DecidableEq, Repr

def Position.origin : Position := ⟨.zero, .zero⟩

/-- A slot of a block: where its successor goes, or one of its sockets. -/
inductive Link where
  | next
  | value (socket : String)
  | statement (socket : String)
  deriving DecidableEq, Repr

def Link.socketName : Link → String
  | next => "next"
  | value socket => socket
  | statement socket => socket

structure Parent where
  block : BlockId
  link : Link
  deriving DecidableEq, Repr

structure BlockContent where
  /-- The editor's own name of the block, if it came from one. -/
  sourceId : Option String
  kind : String
  fields : SortedMap FieldValue
  disabled : Bool
  position : Position
  /-- What a block that changes its shape remembers of it. -/
  extraState : Option Json

namespace BlockContent

def new (kind : String) : BlockContent := ⟨none, kind, ∅, false, .origin, none⟩

/-- The text of a field, empty if the block has no such field. -/
def fieldText (b : BlockContent) (name : String) : String :=
  match b.fields.get? name with
  | some v => v.asText
  | none => ""

def setField (b : BlockContent) (name : String) (v : FieldValue) : BlockContent :=
  { b with fields := b.fields.insert name v }

def editField [PatternReader] (b : BlockContent) (spec : FieldSpec) (raw : String) :
    Except Rejection BlockContent :=
  match applyEdit spec.validator raw with
  | .ok text => .ok (b.setField spec.name (.text text))
  | .error r => .error r

end BlockContent

structure Block extends BlockContent where
  id : BlockId
  values : SortedMap BlockId
  statements : SortedMap BlockId
  next : Option BlockId
  parent : Option Parent

namespace Block

def detached (id : BlockId) (content : BlockContent) : Block := ⟨content, id, ∅, ∅, none, none⟩

def child? (b : Block) : Link → Option BlockId
  | .next => b.next
  | .value socket => b.values.get? socket
  | .statement socket => b.statements.get? socket

def fill (b : Block) (link : Link) (child : BlockId) : Block :=
  match link with
  | .next => { b with next := some child }
  | .value socket => { b with values := b.values.insert socket child }
  | .statement socket => { b with statements := b.statements.insert socket child }

def vacate (b : Block) (link : Link) : Block :=
  match link with
  | .next => { b with next := none }
  | .value socket => { b with values := b.values.erase socket }
  | .statement socket => { b with statements := b.statements.erase socket }

def setParent (b : Block) (p : Option Parent) : Block := { b with parent := p }

def isChildless (b : Block) : Bool := b.next.isNone && b.values.isEmpty && b.statements.isEmpty

def isRoot (b : Block) : Bool := b.parent.isNone

end Block

/-- A block of a kind with all of its fields at their defaults. -/
def Catalogue.instantiate (c : Catalogue) (kind : String) : Option BlockContent :=
  (c.lookup kind).map fun shape =>
    shape.fields.foldl (fun b f => b.setField f.name (.text f.default)) (.new kind)

end BlockSketch
