import BlockSketch.CommandLine.Command
import BlockSketch.Json.Print
import BlockSketch.Provenance.Basic
import BlockSketch.Service.Http

/-
Running commands. The outcome of a command is what it prints, what it reports, and its exit status;
reading and writing files is left to the caller.
-/
namespace BlockSketch

structure Outcome where
  status : Nat
  output : String
  /-- What is reported beside the output, one message an entry. -/
  messages : List String
  deriving DecidableEq, Repr

def Outcome.printed (output : String) : Outcome := ⟨0, output, []⟩

def errorMessage (text : String) : String := "blockc: error: " ++ text

structure Report where
  messages : List String
  result : Except Nat String

namespace GenerateCommand

def opening (g : GenerateCommand) : List String :=
  if g.verbose then
    ["blockc: source = " ++ g.source, "blockc: emit   = " ++ g.product.label]
  else []

def inventory (g : GenerateCommand) (c : Catalogue) (rules : RuleTable) : List String :=
  if g.verbose then
    ["blockc: " ++ toString c.size ++ " block kinds registered, " ++ toString rules.size ++
      " rules"]
  else []

def stages (g : GenerateCommand) (l : Loaded) : List String :=
  if g.verbose then
    ("blockc: loaded " ++ toString l.workspace.size ++ " blocks") ::
      Stage.passed.map fun s => "blockc: " ++ s.name ++ " complete"
  else []

/-- The product of a loaded document. Diagnostics are reported unless they are the product. -/
def deliver (g : GenerateCommand) (l : Loaded) (rules : RuleTable) : Report :=
  let generated := l.generate rules g.options
  let diagnostics := generated.diagnostics.toList
  match g.product with
  | .diagnostics =>
    ⟨g.stages l, .ok ((Json.array (diagnostics.map Diagnostic.toJson)).pretty ++ "\n")⟩
  | _ => ⟨g.stages l ++ diagnostics.map ("blockc: " ++ ·.display), .ok generated.code⟩

/-- Works on a source that was read. Build information does not need it to be a document. -/
def work (g : GenerateCommand) (c : Catalogue) (rules : RuleTable) (source : String) : Report :=
  match g.product with
  | .buildInfo => ⟨[], .ok (Provenance.of source c).text⟩
  | _ =>
    match Document.loadText c source with
    | .error e => ⟨[errorMessage (g.source ++ ": " ++ e.message)], .error 1⟩
    | .ok l => g.deliver l rules

def report (g : GenerateCommand) (source : Except String String) : Report :=
  match source with
  | .error reason => ⟨g.opening ++ [errorMessage (g.source ++ ": " ++ reason)], .error 2⟩
  | .ok source =>
    let report := g.work Esp32.catalogue Rules.esp32 source
    { report with
      messages := g.opening ++ g.inventory Esp32.catalogue Rules.esp32 ++ report.messages }

def written (path : String) (messages : List String) (result : Except String Unit) : Outcome :=
  match result with
  | .ok _ => ⟨0, "", messages⟩
  | .error reason => ⟨2, "", messages ++ [errorMessage (path ++ ": " ++ reason)]⟩

def run (g : GenerateCommand) (files : FileTree) (input : String) : Outcome × FileTree :=
  let source :=
    if Path.isStandardInput g.source then .ok input
    else (files.read g.source).mapError FileFault.message
  let report := g.report source
  match report.result, g.output with
  | .error status, _ => (⟨status, "", report.messages⟩, files)
  | .ok text, none => (⟨0, text, report.messages⟩, files)
  | .ok text, some path =>
    match files.write path text with
    | .ok files => (written path report.messages (.ok ()), files)
    | .error f => (written path report.messages (.error f.message), files)

end GenerateCommand

def kindLines (c : Catalogue) : String :=
  String.join <| c.shapes.entries.map fun (_, shape) =>
    if shape.tooltip = "" then shape.kind ++ "\n"
    else
      shape.kind ++ String.ofList (List.replicate (28 - shape.kind.length) ' ') ++ " " ++
        shape.tooltip ++ "\n"

def kindsOutcome (c : Catalogue) (json : Bool) : Outcome :=
  .printed (if json then c.canonicalText ++ "\n" else kindLines c)

def devicesOutcome (l : DeviceListing) (json : Bool) : Outcome :=
  if json then .printed (l.toJson.pretty ++ "\n")
  else
    ⟨0, String.join (l.devices.map fun d =>
        d.path ++ "\t" ++ d.manufacturer ++ "\t" ++ d.description ++ "\n"),
      if l.fallback then ["blockc: no serial ports detected; listing common names"] else []⟩

inductive Binding where
  | served
  /-- Something listens there already, which is taken to be the service itself. -/
  | inUse
  | refused (reason : String)
  deriving DecidableEq, Repr

def serveOutcome (c : ServiceConfig) (listen : Endpoint → Binding) : Outcome :=
  match c.fault? with
  | some e => ⟨2, "", [errorMessage e.message]⟩
  | none =>
    match listen c.bind with
    | .served | .inUse => ⟨0, "", []⟩
    | .refused reason => ⟨1, "", [errorMessage reason]⟩

def Stop.outcome (env : Environment) : Stop → Outcome
  | usage => ⟨2, "", []⟩
  | help command detailed => .printed ((Command.page command).print env detailed)
  | version => .printed (Command.program ++ " " ++ BlockSketch.version ++ "\n")

structure Surroundings where
  env : Environment
  input : String
  deviceFiles : List String
  platform : Platform
  listen : Endpoint → Binding

def runCommandLine (s : Surroundings) (m : Machine) (args : List String) : Outcome × Machine :=
  match Command.parse s.env args with
  | .error stop => (stop.outcome s.env, m)
  | .ok (.generate g) =>
    let (outcome, files) := g.run m.files s.input
    (outcome, { m with files })
  | .ok (.kinds json) => (kindsOutcome Esp32.catalogue json, m)
  | .ok (.devices toolchain json) =>
    let service := Service.new { ServiceConfig.default with toolchain } s.platform m
    let (listing, service) := service.listDevices 0 s.deviceFiles
    (devicesOutcome listing json, service.machine)
  | .ok (.serve config) => (serveOutcome config s.listen, m)

end BlockSketch
