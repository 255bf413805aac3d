import BlockSketch.Sketch.Script

/-
Generating the code of blocks. A block that is not disabled is dispatched to the rule of its kind,
or to a placeholder if there is none; a statement is followed by the code of the block's successors.
-/
namespace BlockSketch

structure Generator where
  workspace : Workspace
  rules : RuleTable
  options : Options

structure Run where
  session : Session
  dispatched : Array BlockId

namespace Run

def new : Run := ⟨.new, #[]⟩

def warn (r : Run) (d : Diagnostic) : Run := { r with session := r.session.warn d }

def dispatch (r : Run) (id : BlockId) : Run := { r with dispatched := r.dispatched.push id }

end Run

abbrev Visit := BlockId → Run → Emission × Run

namespace Generator

def enabled? (g : Generator) (id : BlockId) : Option Block :=
  (g.workspace.get? id).filter fun b => !b.disabled

/-- The operand in a value socket. A statement cannot supply a value, which is reported. -/
def resolve (g : Generator) (visit : Visit) (b : Block) (socket : String) (min : Order)
    (fallback : String) (r : Run) : Operand × Run :=
  match b.values.get? socket with
  | none => (.ofFallback fallback, r)
  | some child =>
    match visit child r with
    | (.expression code order, r) =>
      if code = "" then (.ofFallback fallback, r) else (.ofExpression min code order, r)
    | (.statement code, r) =>
      if code = "" then (.ofFallback fallback, r)
      else
        let kind := (g.workspace.get? child).elim "" (·.kind)
        (.ofFallback fallback, r.warn (.warning Diagnostic.statementInValue (some child)
          ("statement block '" ++ kind ++ "' cannot supply value socket '" ++ socket ++ "'")
          none [b.id]))

def bodyOf (visit : Visit) (b : Block) (socket : String) (r : Run) : String × Run :=
  match b.statements.get? socket with
  | none => ("", r)
  | some child =>
    let (e, r) := visit child r
    (e.asStatement, r)

def perform {α : Type} (g : Generator) (visit : Visit) (b : Block) : Script α → Run → α × Run
  | .done a, r => (a, r)
  | .value socket min fallback next, r =>
    let (o, r) := g.resolve visit b socket min fallback r
    perform g visit b (next o) r
  | .body socket next, r =>
    let (text, r) := bodyOf visit b socket r
    perform g visit b (next text) r
  | .read next, r => perform g visit b (next r.session) r
  | .write s next, r => perform g visit b next { r with session := s }

/-- The code of a kind without a rule: a comment, or a zero with a comment where a value goes. -/
def placeholder (g : Generator) (b : Block) (r : Run) : Emission × Run :=
  let text := "block kind not implemented: " ++ b.kind
  let r := r.warn (.warning Diagnostic.missingRule (some b.id) text
    (some "register an emission rule for this kind") [])
  if g.workspace.inValuePosition b.id then (.expression ("/* " ++ text ++ " */ 0") .atomic, r)
  else (.statement ("// " ++ text ++ "\n"), r)

def own (g : Generator) (visit : Visit) (b : Block) (r : Run) : Emission × Run :=
  let r := r.dispatch b.id
  match g.rules.get? b.kind with
  | some rule => g.perform visit b (rule ⟨g.workspace, g.options, b⟩) r
  | none => g.placeholder b r

/-- Appends the code of the blocks of a chain. It ends at a disabled block and after a block that
gives an expression. -/
def follow (g : Generator) (visit : Visit) : List Block → String → Run → String × Run
  | [], code, r => (code, r)
  | b :: rest, code, r =>
    if b.disabled then (code, r)
    else
      match g.own visit b r with
      | (.statement text, r) => g.follow visit rest (code ++ text) r
      | (e, r) => (code ++ e.asStatement, r)

/-- The code of a block and its successors, looking no further than `depth` sockets deep. -/
def emitWithin (g : Generator) : Nat → Visit
  | 0, _, r => (.empty, r)
  | depth + 1, id, r =>
    match g.enabled? id with
    | none => (.empty, r)
    | some b =>
      match g.own (g.emitWithin depth) b r with
      | (.statement code, r) =>
        let (code, r) := g.follow (g.emitWithin depth) (g.workspace.chain b.next) code r
        (.statement code, r)
      | (e, r) => (e, r)

/-- The code of a block and its successors. Sockets nest no deeper than there are blocks. -/
def emit (g : Generator) : Visit := g.emitWithin g.workspace.size

def operandOf (g : Generator) (b : Block) (socket : String) (min : Order) (fallback : String)
    (r : Run) : Operand × Run :=
  g.resolve g.emit b socket min fallback r

def statementsOf (g : Generator) (b : Block) (socket : String) (r : Run) : String × Run :=
  bodyOf g.emit b socket r

def successors (g : Generator) (b : Block) (code : String) (r : Run) : String × Run :=
  g.follow g.emit (g.workspace.chain b.next) code r

def emitAll (g : Generator) : List BlockId → String → Run → String × Run
  | [], code, r => (code, r)
  | id :: rest, code, r =>
    let (e, r) := g.emit id r
    g.emitAll rest (code ++ e.asStatement) r

end Generator
end BlockSketch
