import BlockSketch.SortedMap
import BlockSketch.Sketch.Emission
import BlockSketch.Sketch.Session
import BlockSketch.Workspace.Basic

/-
Scripts: how a rule produces the code of a block. A rule may ask for the code in the sockets of its
own block, and read and write the session; what it asks for next may depend on the answers.
-/
namespace BlockSketch

inductive Script (α : Type) where
  | done (result : α)
  /-- Asks for a value socket, at a binding order and with a fallback. -/
  | value (socket : String) (min : Order) (fallback : String) (next : Operand → Script α)
  | body (socket : String) (next : String → Script α)
  | read (next : Session → Script α)
  | write (session : Session) (next : Script α)

namespace Script
variable {α β : Type}

def bind (script : Script α) (next : α → Script β) : Script β :=
  match script with
  | done a => next a
  | value socket min fallback k => value socket min fallback fun o => (k o).bind next
  | body socket k => body socket fun text => (k text).bind next
  | read k => read fun s => (k s).bind next
  | write s k => write s (k.bind next)

instance : Monad Script where
  pure := done
  bind := bind

def operand (socket : String) (min : Order) (fallback : String) : Script Operand :=
  value socket min fallback done

def operandText (socket : String) (min : Order) (fallback : String) : Script String :=
  value socket min fallback fun o => done o.wrapped

def statements (socket : String) : Script String := body socket done

def update (f : Session → Session) : Script Unit := read fun s => write (f s) (done ())

def use (r : Resource) : Script Unit := update (·.markUsed r)

def configure (r : Resource) (line : String) : Script Unit := update (·.configure r line)

def variableName (user : String) : Script String :=
  read fun s => match s.variableName user with | (name, s) => write s (done name)

def distinct (base : String) : Script String :=
  read fun s => match s.distinct base with | (name, s) => write s (done name)

end Script

inductive ButtonPolicy where
  | raw
  /-- The button is wired to ground, so a low level means pressed. -/
  | activeLow
  deriving DecidableEq, Repr

structure Options where
  buttons : ButtonPolicy
  deriving DecidableEq, Repr

def Options.default : Options := ⟨.raw⟩

structure Site where
  workspace : Workspace
  options : Options
  block : Block

namespace Site

def field (site : Site) (name : String) : String := site.block.fieldText name

/-- The value socket holds a block that is not disabled. -/
def hasValue (site : Site) (socket : String) : Bool :=
  match (site.block.values.get? socket).bind site.workspace.get? with
  | some child => !child.disabled
  | none => false

end Site

abbrev Rule := Site → Script Emission

abbrev RuleTable := SortedMap Rule

end BlockSketch
