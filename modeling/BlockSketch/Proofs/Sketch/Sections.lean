import BlockSketch.Proofs.Sketch.Notes

/-
Where statements go. The two sections take over the statements in their sockets, wherever they
stand, and so the setup and the loop fill up in the middle of the recursion, in the order in which
the sections are finished. A record of the finished blocks follows a generation step by step; what
the setup and the loop hold is read off it.
-/
namespace BlockSketch

namespace Rules

open Script

end Rules

structure Finish where
  block : Block
  given : List (String × String)

namespace Finish

def statements (f : Finish) (socket : String) : String := (f.given.lookup socket).getD ""

/-- The statements that the sections of a kind took over, in the order in which they were
finished. -/
def gathered (kind : String) (fs : List Finish) : String :=
  String.join ((fs.filter (·.block.kind = kind)).map (·.statements "DO"))

end Finish

abbrev Watch := BlockId → Run → List Finish

namespace Generator

variable {g : Generator} {watch : Watch}

/-! The record -/

def finishedBy {α : Type} (g : Generator) (watch : Watch) (b : Block) :
    Script α → Run → List Finish
  | .done _, _ => []
  | .value socket min fallback next, r =>
    let (o, later) := g.operandOf b socket min fallback r
    (b.child? (.value socket)).elim [] (watch · r) ++ finishedBy g watch b (next o) later
  | .body socket next, r =>
    match b.child? (.statement socket) with
    | none => finishedBy g watch b (next "") r
    | some child =>
      let (e, later) := g.emit child r
      watch child r ++ finishedBy g watch b (next e.asStatement) later
  | .read next, r => finishedBy g watch b (next r.session) r
  | .write s next, r => finishedBy g watch b next { r with session := s }

/-- The statements that a script is given while it is performed. For each socket that it asks for,
these are the statements of the block in it. -/
def givenTo {α : Type} (g : Generator) (b : Block) : Script α → Run → List (String × String)
  | .done _, _ => []
  | .value socket min fallback next, r =>
    let (o, later) := g.operandOf b socket min fallback r
    givenTo g b (next o) later
  | .body socket next, r =>
    match b.child? (.statement socket) with
    | none => (socket, "") :: givenTo g b (next "") r
    | some child =>
      let (e, later) := g.emit child r
      (socket, e.asStatement) :: givenTo g b (next e.asStatement) later
  | .read next, r => givenTo g b (next r.session) r
  | .write s next, r => givenTo g b next { r with session := s }

def finishedOwn (g : Generator) (watch : Watch) (b : Block) (r : Run) : List Finish :=
  let r := r.dispatch b.id
  match g.rules.get? b.kind with
  | some rule =>
    let script := rule ⟨g.workspace, g.options, b⟩
    g.finishedBy watch b script r ++ [⟨b, g.givenTo b script r⟩]
  | none => [⟨b, []⟩]

/-- What is finished with a block, down to a depth. After a block that gives a statement its
successor comes up. -/
def finishedWithin (g : Generator) : Nat → Watch
  | 0, _, _ => []
  | depth + 1, id, r =>
    match g.enabled? id with
    | none => []
    | some b =>
      g.finishedOwn (g.finishedWithin depth) b r ++
        match g.own g.emit b r with
        | (.statement _, later) => b.next.elim [] (g.finishedWithin depth · later)
        | _ => []

def finishedAll (g : Generator) : List BlockId → Run → List Finish
  | [], _ => []
  | id :: rest, r => g.finishedWithin g.workspace.size id r ++ g.finishedAll rest (g.emit id r).2

def finished (g : Generator) : List Finish := g.finishedAll g.workspace.sortedRoots .new

/-- From one run to another these blocks are finished. They are those that were dispatched, and what
the setup and the loop have gained is what the sections among them were given. -/
structure Adds (g : Generator) (fs : List Finish) (before after : Run) : Prop where
  init : after.session.userInit = before.session.userInit ++ Finish.gathered "program_setup" fs
  loop : after.session.userLoop = before.session.userLoop ++ Finish.gathered "program_loop" fs
  dispatched : (g.blocksOf after.dispatched.toList).Perm
    (g.blocksOf before.dispatched.toList ++ fs.map Finish.block)

theorem gathered_append (kind : String) (fs gs : List Finish) :
    Finish.gathered kind (fs ++ gs) = Finish.gathered kind fs ++ Finish.gathered kind gs := by
  simp [Finish.gathered]

namespace Adds

variable {fs gs : List Finish} {r s t : Run}

theorem nothing {session : Session} (init : session.userInit = r.session.userInit)
    (loop : session.userLoop = r.session.userLoop) : g.Adds [] r { r with session := session } := by
  constructor
  · rw [init]
    exact String.append_empty.symm
  · rw [loop]
    exact String.append_empty.symm
  · simp

theorem refl (r : Run) : g.Adds [] r r := nothing rfl rfl

theorem trans (first : g.Adds fs r s) (second : g.Adds gs s t) : g.Adds (fs ++ gs) r t := by
  constructor
  · rw [second.init, first.init, gathered_append, String.append_assoc]
  · rw [second.loop, first.loop, gathered_append, String.append_assoc]
  · rw [List.map_append, ← List.append_assoc]
    exact second.dispatched.trans (first.dispatched.append_right _)

end Adds

section Steps

variable {b : Block} {r : Run}

/-- A block is dispatched at first, and finished when what is in its sockets is. What it takes over
comes last. -/
theorem Adds.finish {fs : List Finish} {given : List (String × String)} {between : Run}
    {session : Session}
    (found : g.workspace.get? b.id = some b) (added : g.Adds fs (r.dispatch b.id) between)
    (init : session.userInit = between.session.userInit ++
      Finish.gathered "program_setup" [⟨b, given⟩])
    (loop : session.userLoop = between.session.userLoop ++
      Finish.gathered "program_loop" [⟨b, given⟩]) :
    g.Adds (fs ++ [⟨b, given⟩]) r { between with session := session } := by
  constructor
  · rw [init, added.init, gathered_append, String.append_assoc]
    rfl
  · rw [loop, added.loop, gathered_append, String.append_assoc]
    rfl
  · have blocks := added.dispatched
    rw [Run.dispatch, blocksOf_push found, List.append_assoc] at blocks
    rw [List.map_append]
    exact blocks.trans (List.Perm.append_left _ List.perm_append_comm)

end Steps

/-! Whole runs -/

end Generator
end BlockSketch
