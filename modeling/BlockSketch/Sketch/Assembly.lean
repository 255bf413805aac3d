import BlockSketch.Document.Load
import BlockSketch.Sketch.Generator
import BlockSketch.Sketch.Layout

/-
Sketches: the code of all roots put into its sections. Statements outside the setup and loop blocks
make up the loop, unless a loop block does.
-/
namespace BlockSketch
namespace Session

def header : String := "// Generated by ESP32 Blockly IDE\n// Edit at your own risk!\n"

def warningLines (s : Session) : String :=
  let lines := s.unconfigured.map fun r =>
    "// WARNING: " ++ r.display ++ " is used but never configured; " ++ r.remedy ++ ".\n"
  if lines.isEmpty then "" else String.join lines ++ "\n"

def definitionLines (s : Session) : String :=
  if s.definitions.isEmpty then ""
  else String.join (s.definitions.lines.map (· ++ "\n")) ++ "\n"

def setupBody (s : Session) : String :=
  if s.setupLines.isEmpty && Text.isBlank s.userInit then "  // Initialize your hardware here\n"
  else
    String.join (s.setupLines.lines.map fun line => "  " ++ line ++ "\n") ++
      Layout.asLines (Layout.indent s.userInit)

/-- The statements of the loop: those of the loop blocks or, failing them, the top-level ones. -/
def loopCode (s : Session) (topLevel : String) : String :=
  if Text.isBlank s.userLoop then topLevel else s.userLoop

def loopBody (s : Session) (topLevel : String) : String :=
  let code := s.loopCode topLevel
  if Text.isBlank code then "  // Your main code goes here\n"
  else Layout.asLines (Layout.indent code)

def sketch (s : Session) (topLevel : String) : String :=
  header ++ "\n" ++ s.warningLines ++ s.definitionLines ++
    "void setup() \x7b\n" ++ s.setupBody ++ "\x7d\n\n" ++
    "void loop() \x7b\n" ++ s.loopBody topLevel ++ "\x7d\n"

def reportUnconfigured (s : Session) : Session :=
  s.unconfigured.foldl
    (fun s r => s.warn (.warning Diagnostic.unconfigured none
      (r.display ++ " is used but never configured") (some r.remedy) []))
    s

def finish (s : Session) (topLevel : String) : String × Session :=
  (s.sketch topLevel, s.reportUnconfigured)

def reportDropped (s : Session) (topLevel : String) : Session :=
  if !Text.isBlank s.userLoop && !Text.isBlank topLevel then
    s.warn (.warning Diagnostic.droppedStatements none
      "statements outside the setup and loop blocks were not generated"
      (some "move them into the loop block") [])
  else s

end Session

structure Generated where
  code : String
  diagnostics : Array Diagnostic
  roots : Nat

def Generated.toJson (g : Generated) : Json :=
  .object [("code", .string g.code),
    ("diagnostics", .array (g.diagnostics.toList.map Diagnostic.toJson)), ("roots", .ofNat g.roots)]

inductive Stage where
  | idle
  | collect
  | emit
  | assemble
  deriving DecidableEq, Repr

def Stage.name : Stage → String
  | idle => "idle"
  | collect => "collect"
  | emit => "emit"
  | assemble => "assemble"

def Stage.passed : List Stage := [collect, emit, assemble]

namespace Generator

def emitRoots (g : Generator) : String × Run := g.emitAll g.workspace.sortedRoots "" .new

def generate (g : Generator) : Generated :=
  let (topLevel, run) := g.emitRoots
  let (code, session) := (run.session.reportDropped topLevel).finish topLevel
  ⟨code, session.diagnostics, g.workspace.sortedRoots.length⟩

end Generator

def Loaded.generate (l : Loaded) (rules : RuleTable) (options : Options) : Generated :=
  let result := Generator.generate ⟨l.workspace, rules, options⟩
  { result with diagnostics := l.diagnostics ++ result.diagnostics }

def generateDocument (c : Catalogue) (rules : RuleTable) (options : Options) (document : Json) :
    Except LoadError Generated :=
  match Document.load c document with
  | .ok l => .ok (l.generate rules options)
  | .error e => .error e

def generateText (c : Catalogue) (rules : RuleTable) (options : Options) (source : String) :
    Except LoadError Generated :=
  match Document.loadText c source with
  | .ok l => .ok (l.generate rules options)
  | .error e => .error e

end BlockSketch
