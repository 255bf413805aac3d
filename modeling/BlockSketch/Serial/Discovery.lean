import BlockSketch.Json.Parse
import BlockSketch.Serial.Device
import BlockSketch.Text.Blank

/-
Where serial devices are found: in the toolchain's list of boards, among the device files, and in
the device map of a Windows system.
-/
namespace BlockSketch.Discovery

/-- The entries of a board list, which is an array or an object that holds one. -/
def boardEntries (list : Json) : List Json :=
  match list with
  | .array entries => entries
  | _ => ((list.member? "detected_ports").bind Json.array?).getD []

def boardName (entry : Json) : Option String :=
  (((entry.member? "matching_boards").bind Json.array?).bind List.head?).bind fun board =>
    (board.member? "name").bind Json.string?

def boardDevice? (entry : Json) : Option SerialDevice := do
  let device ← entry.member? "port"
  let path ← (← device.member? "address").string?
  let label := (device.member? "protocol_label").or (device.member? "label")
  return ⟨path, (boardName entry).getD "arduino-cli", (label.bind Json.string?).getD "Serial Port"⟩

def boardListDepth : Nat := 128

def ofBoardList (text : String) : List SerialDevice :=
  match Json.parseWithin (some boardListDepth) text with
  | .ok list => (boardEntries list).filterMap boardDevice?
  | .error _ => []

def ofDeviceFiles (names : List String) : List SerialDevice :=
  ((names.map ("/dev/" ++ ·)).filter SerialDevice.isSerialPath).map fun path =>
    ⟨path, "System", "Serial Port"⟩

/-- The device name at the end of a line, if white space comes before it. -/
def registryName? (line : List Char) : Option String :=
  let word := (line.reverse.dropWhile Text.isBlankChar).takeWhile fun c => !Text.isBlankChar c
  let before := (line.reverse.dropWhile Text.isBlankChar).drop word.length
  if SerialDevice.isComName word.reverse && !before.isEmpty then some (String.ofList word.reverse)
  else none

def ofRegistry (text : String) : List SerialDevice :=
  ((Text.linesOf text.toList).filterMap registryName?).map fun path =>
    ⟨path, "Registry", "Serial Port"⟩

def found (boardList : String) (deviceFiles : List String) : List SerialDevice :=
  SerialDevice.normalize (ofBoardList boardList ++ ofDeviceFiles deviceFiles)

end BlockSketch.Discovery
