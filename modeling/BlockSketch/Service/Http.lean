import BlockSketch.Json.Parse
import BlockSketch.Serial.Cache
import BlockSketch.Serial.Discovery
import BlockSketch.Service.CodeRequest
import BlockSketch.Service.EditorFile
import BlockSketch.Service.Job
import BlockSketch.Service.MediaType
import BlockSketch.Shape.Esp32
import BlockSketch.Sketch.Assembly
import BlockSketch.Sketch.Rules

/-
The companion service: requests and the responses to them. Generating is pure; compiling and
uploading work on the machine, and the list of devices is remembered for a while. A toolchain that
fails is still a good response, so that the code is not lost.
-/
namespace BlockSketch

structure Request where
  method : String
  path : String
  contentType : Option String
  body : String
  deriving DecidableEq, Repr

structure Service where
  config : ServiceConfig
  cache : DeviceCache
  machine : Machine

inductive Route where
  | generate
  | compile
  | upload
  | devices
  | kinds
  deriving DecidableEq, Repr

namespace Route

def ofPath? (path : String) : Option Route :=
  match path with
  | "/generate" => some generate
  | "/compile" => some compile
  | "/upload" => some upload
  | "/ports" => some devices
  | "/kinds" => some kinds
  | _ => none

/-- Routes that only tell something are asked with GET or HEAD, the others with POST. -/
def allows (r : Route) (method : String) : Bool :=
  match r with
  | generate | compile | upload => method = "POST"
  | devices | kinds => method = "GET" || method = "HEAD"

end Route

namespace Request

def resource (r : Request) : String :=
  String.ofList (r.path.toList.takeWhile fun c => c ≠ '?' && c ≠ '#')

def isJson (r : Request) : Bool := (r.contentType.bind MediaType.parse?).any MediaType.isJson

def fits (r : Request) (c : ServiceConfig) : Bool := r.body.utf8ByteSize ≤ c.maxBodyBytes

end Request

namespace Service

def new (config : ServiceConfig) (platform : Platform) (machine : Machine) : Service :=
  ⟨config, .new platform config.deviceCacheMs, machine⟩

def generateBody (c : ServiceConfig) (body : String) : Except LoadError Generated :=
  match Json.parse body with
  | .error f => .error (.json f)
  | .ok envelope =>
    match envelope.member? "workspace" with
    | some (.string source) => generateText Esp32.catalogue Rules.esp32 c.options source
    | some document => generateDocument Esp32.catalogue Rules.esp32 c.options document
    | none => generateDocument Esp32.catalogue Rules.esp32 c.options .null

def generate (c : ServiceConfig) (r : Request) : Response :=
  match generateBody c r.body with
  | .ok g => .ok g.toJson
  | .error e => .failure 400 "Invalid workspace" (some e.message)

def codeRequest (r : Request) : Except Response CodeRequest :=
  if !r.isJson then .error (.bare 415)
  else
    match CodeRequest.read r.body with
    | .ok code => .ok code
    | .error .unreadable => .error (.bare 400)
    | .error .unsuitable => .error (.bare 422)

def targetDevice (c : ServiceConfig) (r : CodeRequest) : String :=
  (r.device.filter fun d => !Text.isBlank d).getD c.uploadDevice

def runJob (s : Service) (job : Job) : Response × Service :=
  let (response, machine) := job.run s.config s.machine
  (response, { s with machine })

/-- Looks for devices at `now`. Of the sources only the toolchain's board list is asked here; device
files are listed by the caller. -/
def searchDevices (c : ServiceConfig) (now : Instant) (deviceFiles : List String) :
    StateM Machine (List SerialDevice × Instant) := fun machine =>
  let (boards, machine) := machine.boardList c
  ((Discovery.found boards deviceFiles, now), machine)

def listDevices (s : Service) (now : Instant) (deviceFiles : List String) :
    DeviceListing × Service :=
  let ((listing, cache), machine) :=
    (s.cache.listWith now (searchDevices s.config now deviceFiles)).run s.machine
  (listing, { s with cache, machine })

def dispatch (s : Service) (now : Instant) (deviceFiles : List String) (r : Request) :
    Route → Response × Service
  | .generate => (generate s.config r, s)
  | .compile =>
    match codeRequest r with
    | .ok code => s.runJob ⟨code.code, none⟩
    | .error response => (response, s)
  | .upload =>
    match codeRequest r with
    | .ok code => s.runJob ⟨code.code, some (targetDevice s.config code)⟩
    | .error response => (response, s)
  | .devices =>
    let (listing, s) := s.listDevices now deviceFiles
    (.ok listing.toJson, s)
  | .kinds => (.ok Esp32.catalogue.toJson, s)

def editorFile (s : Service) (r : Request) : Response :=
  .bare (if r.method = "GET" || r.method = "HEAD" then
      EditorFile.status s.config s.machine.files r.resource
    else 405)

/-- Handles a request. Any page may ask what is allowed; a body that is too long is refused whatever
it is for; paths without a route belong to the editor's files. -/
def handle (s : Service) (now : Instant) (deviceFiles : List String) (r : Request) :
    Response × Service :=
  if r.method = "OPTIONS" then (.bare 200, s)
  else if !r.fits s.config then (.bare 413, s)
  else
    match Route.ofPath? r.resource with
    | none => (s.editorFile r, s)
    | some route =>
      if !route.allows r.method then (.bare 405, s)
      else
        let (response, s) := s.dispatch now deviceFiles r route
        (if r.method = "HEAD" then .bare response.status else response, s)

end Service
end BlockSketch
