import BlockSketch.Json.Basic
import BlockSketch.Service.Machine
import BlockSketch.Text.Blank

/-
Jobs: the requests that hand code to the toolchain. A job saves its code as the sketch and compiles
it; an upload then sends it to a device. The steps are taken one at a time, so that several jobs can
take turns on one machine.
-/
namespace BlockSketch

structure Response where
  status : Nat
  /-- Absent if the response is not JSON. -/
  body : Option Json

namespace Response

def bare (status : Nat) : Response := ⟨status, none⟩

def ok (body : Json) : Response := ⟨200, some body⟩

def failure (status : Nat) (error : String) (details : Option String) : Response :=
  ⟨status, some (.object (("error", .string error) ::
    (details.elim [] fun d => [("details", .string d)])))⟩

end Response

structure ToolchainReply where
  success : Bool
  stage : String
  message : String
  output : Option String
  error : Option String
  file : String
  deriving DecidableEq, Repr

def ToolchainReply.toJson (r : ToolchainReply) : Json :=
  .object <|
    [("success", .bool r.success), ("stage", .string r.stage), ("message", .string r.message)] ++
    (r.output.elim [] fun output => [("output", .string output)]) ++
    (r.error.elim [] fun error => [("error", .string error)]) ++
    [("file", .string r.file)]

structure Job where
  code : String
  /-- The device to upload to; without one the code is only compiled. -/
  device : Option String
  deriving DecidableEq, Repr

namespace Job

inductive Progress where
  | saving
  | compiling
  | uploading (device : String)
  | finished (response : Response)

def failed (c : ServiceConfig) (job : Job) (e : ToolchainError) : Response :=
  .ok <| ToolchainReply.toJson <|
    match job.device with
    | none =>
      ⟨false, "Compile Failed", "Compilation failed or arduino-cli not installed.", none,
        some e.message, c.sketchFile⟩
    | some _ =>
      ⟨false, "Code Generated",
        "Code saved to " ++ c.sketchFile ++ ". Upload manually via Arduino IDE.", none,
        some e.message, c.sketchFile⟩

/-- The next step of a job. Blank code is not saved. -/
def advance (c : ServiceConfig) (job : Job) : Progress → Machine → Progress × Machine
  | .saving, m =>
    if Text.isBlank job.code then (.finished (.failure 400 "No code provided" none), m)
    else
      match m.saveSketch c job.code with
      | .ok m => (.compiling, m)
      | .error e => (.finished (.failure 500 "Failed to save sketch" (some e.message)), m)
  | .compiling, m =>
    match m.compile c, job.device with
    | (.error e, m), _ => (.finished (failed c job e), m)
    | (.ok _, m), some device => (.uploading device, m)
    | (.ok output, m), none =>
      (.finished (.ok (ToolchainReply.toJson
        ⟨true, "Compile Complete", "Compilation successful", some output, none, c.sketchFile⟩)), m)
  | .uploading device, m =>
    match m.upload c device with
    | (.error e, m) => (.finished (failed c job e), m)
    | (.ok output, m) =>
      (.finished (.ok (ToolchainReply.toJson
        ⟨true, "Upload Complete", "Successfully uploaded to " ++ device, some output, none,
          c.sketchFile⟩)), m)
  | .finished response, m => (.finished response, m)

def advanceBy (c : ServiceConfig) (job : Job) : Nat → Progress → Machine → Progress × Machine
  | 0, p, m => (p, m)
  | count + 1, p, m =>
    let (p, m) := job.advance c p m
    job.advanceBy c count p m

def run (c : ServiceConfig) (job : Job) (m : Machine) : Response × Machine :=
  match job.advanceBy c 3 .saving m with
  | (.finished response, m) => (response, m)
  | (_, m) => (.bare 500, m)

end Job
end BlockSketch
