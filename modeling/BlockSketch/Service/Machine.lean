import BlockSketch.Files.Tree
import BlockSketch.Service.Config

/-
The machine that the service works on: its files, and the programs that can be run on it. Sketches
are saved to the one configured file, and the toolchain compiles or uploads what that file holds.
-/
namespace BlockSketch

inductive RunResult where
  | notStarted (reason : String)
  | timedOut
  /-- The status is missing if a signal ended the program. -/
  | exited (status : Option Nat) (output errors : String)
  deriving DecidableEq, Repr

structure Machine where
  files : FileTree
  programs : String → List String → RunResult
  calls : Array (List String)

inductive ToolchainError where
  | write (path : String) (fault : FileFault)
  | start (program reason : String)
  | timeout (step : String) (seconds : Nat)
  | failed (step : String) (status : Option Nat) (errors : String)
  deriving DecidableEq, Repr

namespace ToolchainError

def statusText : Option Nat → String
  | some status => "Some(" ++ toString status ++ ")"
  | none => "None"

def message : ToolchainError → String
  | write path fault => "failed to write sketch " ++ path ++ ": " ++ fault.message
  | start program reason => "failed to start " ++ program ++ ": " ++ reason
  | timeout step seconds => step ++ " timed out after " ++ toString seconds ++ "s"
  | failed step status errors =>
    step ++ " exited with status " ++ statusText status ++ ": " ++ errors

end ToolchainError

namespace Machine

def saveSketch (m : Machine) (c : ServiceConfig) (code : String) :
    Except ToolchainError Machine :=
  match m.files.makeDirectories c.sketchDir with
  | .error f => .error (.write c.sketchFile f)
  | .ok made =>
    match made.write c.sketchFile code with
    | .error f => .error (.write c.sketchFile f)
    | .ok files => .ok { m with files }

def maxArgumentBytes : Nat := 131071

def result (m : Machine) (program : String) (args : List String) : RunResult :=
  if (program :: args).any fun arg => arg.toList.contains '\x00' then
    .notStarted "nul byte found in provided data"
  else
    match m.programs program args with
    | .notStarted reason => .notStarted reason
    | ran =>
      if args.any fun arg => maxArgumentBytes < arg.utf8ByteSize then
        .notStarted "Argument list too long (os error 7)"
      else ran

def start (m : Machine) (program : String) (args : List String) : RunResult × Machine :=
  match m.result program args with
  | .notStarted reason => (.notStarted reason, m)
  | result => (result, { m with calls := m.calls.push args })

def outputOf (program step : String) (timeoutMs : Nat) : RunResult → Except ToolchainError String
  | .notStarted reason => .error (.start program reason)
  | .timedOut => .error (.timeout step (timeoutMs / 1000))
  | .exited status output errors =>
    if status = some 0 then .ok output else .error (.failed step status errors)

def runStep (m : Machine) (c : ServiceConfig) (step : String) (args : List String)
    (timeoutMs : Nat) : Except ToolchainError String × Machine :=
  let (result, m) := m.start c.toolchain args
  (outputOf c.toolchain step timeoutMs result, m)

def compile (m : Machine) (c : ServiceConfig) : Except ToolchainError String × Machine :=
  m.runStep c "compile" ["compile", "--fqbn", c.board, c.sketchFile] c.compileTimeoutMs

def upload (m : Machine) (c : ServiceConfig) (device : String) :
    Except ToolchainError String × Machine :=
  m.runStep c "upload" ["upload", "-p", device, "--fqbn", c.board, c.sketchFile] c.uploadTimeoutMs

def listingTimeoutMs : Nat := 4000

def boardList (m : Machine) (c : ServiceConfig) : String × Machine :=
  match m.runStep c "query" ["board", "list", "--format", "json"] listingTimeoutMs with
  | (.ok output, m) => (output, m)
  | (.error _, m) => ("", m)

end Machine
end BlockSketch
