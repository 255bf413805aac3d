import BlockSketch.Json.Basic
import BlockSketch.Text.CharClass
import BlockSketch.Text.Integer

/-
Serial devices that a board may be attached to. They are told by their paths: `COM` and a number, or
a serial device file. A tidy list holds each path once, ordered by the name before the final number
and then by that number.
-/
namespace BlockSketch

structure SerialDevice where
  path : String
  manufacturer : String
  description : String
  deriving DecidableEq, Repr

namespace SerialDevice

def isNumber (cs : List Char) : Bool := !cs.isEmpty && cs.all Text.isDecimalDigit

def isComName : List Char → Bool
  | c :: o :: m :: number =>
    c.toUpper = 'C' && o.toUpper = 'O' && m.toUpper = 'M' && isNumber number
  | _ => false

def isCallOutName (cs : List Char) : Bool :=
  !cs.isEmpty && cs.all fun c => Text.isWordChar c || c = '.' || c = '-'

/-- The name of a serial device file: a USB or ACM device and its number, or a call-out device. -/
def isDeviceFile (cs : List Char) : Bool :=
  ("ttyUSB".toList.isPrefixOf? cs).any isNumber || ("ttyACM".toList.isPrefixOf? cs).any isNumber ||
    ("cu.".toList.isPrefixOf? cs).any isCallOutName

/-- The path names a device that a board is plausibly attached to. -/
def isSerialPath (path : String) : Bool :=
  isComName path.toList || ("/dev/".toList.isPrefixOf? path.toList).any isDeviceFile

def finalDigits (path : String) : List Char := (path.toList.reverse.takeWhile Char.isDigit).reverse

def stem (path : String) : String :=
  String.ofList ((path.toList.reverse.dropWhile Char.isDigit).reverse.map Char.toUpper)

/-- The final number of a path; zero if there is none or it exceeds 64 bits. -/
def number (path : String) : Nat := (Text.natural? Text.wordCount (finalDigits path)).getD 0

def precedes (a b : SerialDevice) : Bool :=
  stem a.path < stem b.path || (stem a.path = stem b.path && number a.path ≤ number b.path)

def firstOfEach (seen : List String) : List SerialDevice → List SerialDevice
  | [] => []
  | d :: rest =>
    if isSerialPath d.path && !seen.contains d.path then d :: firstOfEach (d.path :: seen) rest
    else firstOfEach seen rest

/-- Drops paths that are not serial and repeated paths, and sorts the rest. -/
def normalize (ds : List SerialDevice) : List SerialDevice := (firstOfEach [] ds).mergeSort precedes

def toJson (d : SerialDevice) : Json :=
  .object [("path", .string d.path), ("manufacturer", .string d.manufacturer),
    ("description", .string d.description)]

end SerialDevice

inductive Platform where
  | posix
  | windows
  deriving DecidableEq, Repr

def Platform.commonDevices (platform : Platform) : List SerialDevice :=
  let device := fun path => SerialDevice.mk path "Fallback" "Manual Select"
  match platform with
  | windows => (List.range 64).map fun i => device ("COM" ++ toString (i + 1))
  | posix =>
    SerialDevice.normalize <|
      ((List.range 16).map fun i => device ("/dev/ttyUSB" ++ toString i)) ++
        (List.range 16).map fun i => device ("/dev/ttyACM" ++ toString i)

end BlockSketch
