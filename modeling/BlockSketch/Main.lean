import BlockSketch.CommandLine.Run

/-
The command line program. It reads and writes files; it starts no other programs and does not
listen, so serial devices come as common names and the service is refused.
-/
namespace BlockSketch.Program

def reasonOf : IO.Error → String
  | .noFileOrDirectory .. => FileFault.notFound.message
  | .alreadyExists .. => FileFault.alreadyExists.message
  | .inappropriateType .. => FileFault.notDirectory.message
  | .resourceVanished .. => FileFault.notFound.message
  | e => e.toString

def attempt {α : Type} (action : IO α) : IO (Except String α) := do
  try
    return .ok (← action)
  catch e => return .error (reasonOf e)

partial def readAll (stream : IO.FS.Stream) (text : String) : IO String := do
  let line ← stream.getLine
  if line.isEmpty then return text else readAll stream (text ++ line)

def finish (o : Outcome) : IO UInt32 := do
  (← IO.getStdout).putStr o.output
  for message in o.messages do
    (← IO.getStderr).putStr (message ++ "\n")
  return o.status.toUInt32

def generate (g : GenerateCommand) : IO UInt32 := do
  let source ←
    if Path.isStandardInput g.source then attempt (do readAll (← IO.getStdin) "")
    else attempt (IO.FS.readFile g.source)
  let report := g.report source
  match report.result, g.output with
  | .error status, _ => finish ⟨status, "", report.messages⟩
  | .ok text, none => finish ⟨0, text, report.messages⟩
  | .ok text, some path =>
    let written ← attempt (IO.FS.writeFile path text)
    finish (GenerateCommand.written path report.messages written)

def run (args : List String) : IO UInt32 := do
  let toolchain ← IO.getEnv "ARDUINO_CLI"
  let address ← IO.getEnv "BLOCKC_BIND"
  let number ← IO.getEnv "PORT"
  let env := fun name =>
    match name with
    | "ARDUINO_CLI" => toolchain
    | "BLOCKC_BIND" => address
    | "PORT" => number
    | _ => none
  let surroundings : Surroundings :=
    ⟨env, "", [], .posix, fun _ => .refused "listening is not supported"⟩
  let machine : Machine := ⟨.empty [], fun _ _ => .notStarted FileFault.notFound.message, #[]⟩
  match Command.parse env args with
  | .ok (.generate g) => generate g
  | _ => finish (runCommandLine surroundings machine args).1

end BlockSketch.Program

def main (args : List String) : IO UInt32 := BlockSketch.Program.run args
