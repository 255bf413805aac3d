import BlockSketch.CommandLine.Help
import BlockSketch.Service.Config
import BlockSketch.Text.Integer

/-
The commands of the compiler and their options.
-/
namespace BlockSketch

inductive Product where
  | sketch
  | buildInfo
  | diagnostics
  deriving DecidableEq, Repr

namespace Product

def ofName? (name : String) : Option Product :=
  match name with
  | "sketch" => some sketch
  | "build-info" => some buildInfo
  | "diagnostics" => some diagnostics
  | _ => none

def label : Product → String
  | sketch => "Sketch"
  | buildInfo => "BuildInfo"
  | diagnostics => "Diagnostics"

end Product

structure GenerateCommand where
  source : String
  output : Option String
  product : Product
  options : Options
  verbose : Bool
  deriving DecidableEq, Repr

inductive Command where
  | generate (g : GenerateCommand)
  | kinds (json : Bool)
  /-- Lists serial devices, with the help of the toolchain. -/
  | devices (toolchain : String) (json : Bool)
  | serve (config : ServiceConfig)
  deriving DecidableEq, Repr

namespace Command

def program : String := "blockc"

def help : OptionSpec := (OptionSpec.switch "help" "Print help" 999).withShort 'h'

def versionOption : OptionSpec := (OptionSpec.switch "version" "Print version" 999).withShort 'V'

/-- The options that every command has. They only affect log records. -/
def common : List OptionSpec :=
  [(OptionSpec.value "log-level" "Log filter used when RUST_LOG is unset" OptionSpec.anyText
      0).withPreset "warn",
    .switch "log-json" "Emit logs as JSON" 1, help]

def activeLow (rank : Nat) : OptionSpec :=
  .switch "button-active-low" "Generate `!digitalRead(P)` for button blocks (active-low wiring)"
    rank

def toolchain (about : String) (rank : Nat) : OptionSpec :=
  ((OptionSpec.value "arduino-cli" about OptionSpec.path rank).orEnvironment
    "ARDUINO_CLI").withPreset ServiceConfig.default.toolchain

def output : OptionSpec :=
  (OptionSpec.value "output" "Output file path (stdout when omitted)" OptionSpec.path 0).withShort
    'o'

def emit : OptionSpec :=
  { (OptionSpec.value "emit" "Output stage" (fun v => (Product.ofName? v).isSome) 1).withPreset
      "sketch" with
    choices := [("sketch", "The generated Arduino sketch"),
      ("build-info", "Provenance JSON (source hash, registry fingerprint, version)"),
      ("diagnostics", "Diagnostics as JSON")] }

def generateSpec : CommandSpec where
  name := "generate"
  about := "Generate a sketch from a workspace JSON file"
  options :=
    common ++ [output, emit, activeLow 2, .switch "verbose" "Print generation stages and timing" 3]
  operands := .one "<SOURCE>" "Workspace JSON file (`-` for stdin)" OptionSpec.path

def kindsSpec : CommandSpec where
  name := "kinds"
  about := "List the registered block kinds"
  options := common ++ [.switch "json" "Print the full shape catalogue as JSON" 0]
  operands := .none

def devicesSpec : CommandSpec where
  name := "ports"
  about := "List serial ports a board may be attached to"
  options := common ++
    [toolchain "Toolchain executable used for board detection" 0, .switch "json" "" 1]
  operands := .none

def count? (v : String) : Option Nat := Text.natural? Text.wordCount v.toList

def tcpPort? (v : String) : Option Nat :=
  (Text.integer? v.toList).bind fun n => if 0 ≤ n && n < 65536 then some n.toNat else none

def isCount (v : String) : Bool := (count? v).isSome

def counter (name about : String) (preset rank : Nat) : OptionSpec :=
  (OptionSpec.value name about isCount rank).withPreset (toString preset)

def serveSpec : CommandSpec where
  name := "serve"
  about := "Run the companion HTTP service"
  options :=
    let d := ServiceConfig.default
    common ++
    [((OptionSpec.value "bind" "Address to bind" (fun v => (IpAddress.parse? v).isSome)
        0).orEnvironment "BLOCKC_BIND").withPreset d.bind.address.display,
      ((OptionSpec.value "port" "TCP port to listen on" (fun v => (tcpPort? v).isSome)
        1).orEnvironment "PORT").withPreset (toString d.bind.tcpPort),
      (OptionSpec.value "static-dir" "Directory served as static assets (the editor UI)"
        OptionSpec.path 2).withPreset d.staticDir,
      (OptionSpec.value "sketch-dir" "Directory the generated sketch is written to"
        OptionSpec.path 3).withPreset d.sketchDir,
      toolchain "Toolchain executable" 4,
      (OptionSpec.value "fqbn" "Fully qualified board name" OptionSpec.anyText 5).withPreset
        d.board,
      (OptionSpec.value "default-upload-port" "Serial port used when an upload request names none"
        OptionSpec.anyText 6).withPreset d.uploadDevice,
      counter "compile-timeout-secs" "" (d.compileTimeoutMs / 1000) 7,
      counter "upload-timeout-secs" "" (d.uploadTimeoutMs / 1000) 8,
      counter "port-cache-ms" "How long a detected port list is reused" d.deviceCacheMs 9,
      counter "max-body-bytes" "Largest accepted request body" d.maxBodyBytes 10,
      activeLow 11]
  operands := .none

def helpPurpose : String := "Print this message or the help of the given subcommand(s)"

def specs : List CommandSpec := [generateSpec, kindsSpec, devicesSpec, serveSpec]

def topSpec : CommandSpec where
  name := ""
  about := "Block compiler for ESP32 — turns block-editor workspaces into Arduino sketches"
  options := common ++ [versionOption]
  operands := .command (specs.map (fun c => (c.name, c.about)) ++ [("help", helpPurpose)])

/-- The page on the command of a name; other names stand for the program. -/
def page (name : String) : HelpPage :=
  if name = "help" then
    ⟨helpPurpose, program ++ " help [COMMAND]...", [],
      [("[COMMAND]...", "Print help for the subcommand(s)")], []⟩
  else ((specs.find? (·.name = name)).getD topSpec).page program

def optionsOf (a : Arguments) : Options :=
  ⟨if a.has "button-active-low" then .activeLow else .raw⟩

def configOf (a : Arguments) : ServiceConfig :=
  let d := ServiceConfig.default
  let count (name : String) : Option Nat := (a.get? name).bind count?
  { bind :=
      ⟨((a.get? "bind").bind IpAddress.parse?).getD d.bind.address,
        ((a.get? "port").bind tcpPort?).getD d.bind.tcpPort⟩,
    staticDir := (a.get? "static-dir").getD d.staticDir,
    sketchDir := (a.get? "sketch-dir").getD d.sketchDir,
    toolchain := (a.get? "arduino-cli").getD d.toolchain,
    board := (a.get? "fqbn").getD d.board,
    uploadDevice := (a.get? "default-upload-port").getD d.uploadDevice,
    compileTimeoutMs := ((count "compile-timeout-secs").map (· * 1000)).getD d.compileTimeoutMs,
    uploadTimeoutMs := ((count "upload-timeout-secs").map (· * 1000)).getD d.uploadTimeoutMs,
    deviceCacheMs := (count "port-cache-ms").getD d.deviceCacheMs,
    maxBodyBytes := (count "max-body-bytes").getD d.maxBodyBytes,
    options := optionsOf a }

def parseGenerate (env : Environment) (args : List String) :
    Except Stop GenerateCommand := do
  let a ← Arguments.parse env generateSpec args
  match a.operand with
  | none => .error .usage
  | some source =>
    return {
      source,
      output := a.get? "output",
      product := ((a.get? "emit").bind Product.ofName?).getD .sketch,
      options := optionsOf a,
      verbose := a.has "verbose" }

def parseServe (env : Environment) (args : List String) :
    Except Stop ServiceConfig := do
  let a ← Arguments.parse env serveSpec args
  return configOf a

def parseHelp : List String → Stop
  | [] => .help "" true
  | [name] => if name = "help" || specs.any (·.name = name) then .help name true else .usage
  | _ => .usage

def parse (env : Environment) (args : List String) : Except Stop Command := do
  let top ← Arguments.parse env topSpec args
  match top.command with
  | some ("generate", args) => return .generate (← parseGenerate env args)
  | some ("kinds", args) =>
    let a ← Arguments.parse env kindsSpec args
    return .kinds (a.has "json")
  | some ("ports", args) =>
    let a ← Arguments.parse env devicesSpec args
    return .devices ((a.get? "arduino-cli").getD ServiceConfig.default.toolchain) (a.has "json")
  | some ("serve", args) => return .serve (← parseServe env args)
  | some ("help", args) => .error (parseHelp args)
  | _ => .error .usage

end Command
end BlockSketch
