import BlockSketch.Files.Path
import BlockSketch.Service.Address
import BlockSketch.Sketch.Script

/-
The configuration of the companion service.
-/
namespace BlockSketch

structure ServiceConfig where
  bind : Endpoint
  staticDir : String
  sketchDir : String
  toolchain : String
  /-- The full name of the board: vendor, architecture and board. -/
  board : String
  /-- The serial device for uploads that name none. -/
  uploadDevice : String
  compileTimeoutMs : Nat
  uploadTimeoutMs : Nat
  deviceCacheMs : Nat
  maxBodyBytes : Nat
  options : Options
  deriving DecidableEq, Repr

inductive ConfigError where
  | boardName (board : String)
  | zeroTimeout
  | zeroBody
  deriving DecidableEq, Repr

def ConfigError.message : ConfigError → String
  | boardName board => "fqbn '" ++ board ++ "' must look like vendor:arch:board"
  | zeroTimeout => "toolchain timeouts must be greater than 0"
  | zeroBody => "max_body_bytes must be greater than 0"

namespace ServiceConfig

def sketchName : String := "temp_sketch"

def default : ServiceConfig where
  bind := ⟨.loopback, 3000⟩
  staticDir := "."
  sketchDir := sketchName
  toolchain := "arduino-cli"
  board := "esp32:esp32:esp32"
  uploadDevice := "COM3"
  compileTimeoutMs := 45000
  uploadTimeoutMs := 30000
  deviceCacheMs := 2500
  maxBodyBytes := 10 * 1024 * 1024
  options := .default

def fault? (c : ServiceConfig) : Option ConfigError :=
  if c.board.toList.count ':' < 2 then some (.boardName c.board)
  else if c.compileTimeoutMs = 0 || c.uploadTimeoutMs = 0 then some .zeroTimeout
  else if c.maxBodyBytes = 0 then some .zeroBody
  else none

/-- The file of the sketch. The toolchain wants it to be named like its directory. -/
def sketchFile (c : ServiceConfig) : String :=
  Path.join c.sketchDir ((Path.fileName? c.sketchDir).getD sketchName ++ ".ino")

end ServiceConfig
end BlockSketch
