import BlockSketch.Files.Path
import BlockSketch.SortedMap

/-
A tree of files and directories with one of its directories to work in. Paths are walked name by
name, from the root or from the working directory, and every name but the last must lead to a
directory.
-/
namespace BlockSketch

inductive FileNode where
  | file (text : String)
  | directory
  /-- Keeps nothing of what is written to it, and so is always empty. -/
  | sink
  deriving DecidableEq, Repr

inductive FileFault where
  | notFound
  | alreadyExists
  | notDirectory
  | isDirectory
  | nameTooLong
  | nulByte
  deriving DecidableEq, Repr

def FileFault.message : FileFault → String
  | notFound => "No such file or directory (os error 2)"
  | alreadyExists => "File exists (os error 17)"
  | notDirectory => "Not a directory (os error 20)"
  | isDirectory => "Is a directory (os error 21)"
  | nameTooLong => "File name too long (os error 36)"
  | nulByte => "file name contained an unexpected NUL byte"

namespace FileTree

abbrev Place := List String

end FileTree

structure FileTree where
  /-- Nodes by their place, the names from the root on joined with slashes. -/
  nodes : SortedMap FileNode
  /-- Where paths start that do not start at the root. -/
  working : FileTree.Place

namespace FileTree

def key (place : Place) : String := "/".intercalate place

def node? (t : FileTree) (place : Place) : Option FileNode :=
  if place.isEmpty then some .directory else t.nodes.get? (key place)

def step (place : Place) (segment : String) : Place :=
  if segment = "" || segment = "." then place
  else if segment = ".." then place.dropLast
  else place ++ [segment]

def maxNameBytes : Nat := 255

def maxPathBytes : Nat := 4095

def isTooLong (name : String) : Bool := maxNameBytes < name.utf8ByteSize

def pathFault? (path : String) : Option FileFault :=
  if path.toList.contains '\x00' then some .nulByte
  else if maxPathBytes < path.utf8ByteSize then some .nameTooLong
  else if path = "" then some .notFound
  else none

def start (t : FileTree) (path : String) : Place := if Path.isAbsolute path then [] else t.working

def walk (t : FileTree) (place : Place) : List String → Except FileFault Place
  | [] => .ok place
  | segment :: rest =>
    match t.node? place with
    | none => .error .notFound
    | some (.file _) | some .sink => .error .notDirectory
    | some .directory =>
      if isTooLong segment then .error .nameTooLong else t.walk (step place segment) rest

def directoryAt (t : FileTree) (start : Place) (segments : List String) : Except FileFault Place :=
  match t.walk start segments with
  | .error f => .error f
  | .ok place =>
    match t.node? place with
    | none => .error .notFound
    | some (.file _) | some .sink => .error .notDirectory
    | some .directory => .ok place

def isDirectory (t : FileTree) (start : Place) (segments : List String) : Bool :=
  match t.directoryAt start segments with
  | .ok _ => true
  | .error _ => false

def dropTrailing (segments : List String) : List String :=
  (segments.reverse.dropWhile (· = "")).reverse

def isDots (segment : String) : Bool := segment = "." || segment = ".."

def read (t : FileTree) (path : String) : Except FileFault String :=
  match pathFault? path with
  | some f => .error f
  | none =>
    match t.walk (t.start path) (Path.segments path) with
    | .error f => .error f
    | .ok place =>
      match t.node? place with
      | none => .error .notFound
      | some .directory => .error .isDirectory
      | some .sink => .ok ""
      | some (.file text) => .ok text

def insert (t : FileTree) (place : Place) (node : FileNode) : FileTree :=
  { t with nodes := t.nodes.insert (key place) node }

def store (t : FileTree) (place : Place) (text : String) : Except FileFault FileTree :=
  match t.node? place with
  | some .directory => .error .isDirectory
  | some .sink => .ok t
  | _ => .ok (t.insert place (.file text))

def write (t : FileTree) (path text : String) : Except FileFault FileTree :=
  let segments := Path.segments path
  let named := dropTrailing segments
  match pathFault? path with
  | some f => .error f
  | none =>
    match t.directoryAt (t.start path) named.dropLast with
    | .error f => .error f
    | .ok directory =>
      match named.getLast? with
      | none => .error .isDirectory
      | some name =>
        if isDots name || named.length < segments.length then .error .isDirectory
        else if isTooLong name then .error .nameTooLong
        else t.store (directory ++ [name]) text

def makeDirectory (t : FileTree) (start : Place) (segments : List String) :
    Except FileFault FileTree :=
  let named := dropTrailing segments
  match t.directoryAt start named.dropLast with
  | .error f => .error f
  | .ok directory =>
    match named.getLast? with
    | none => .error .alreadyExists
    | some name =>
      let place := directory ++ [name]
      if isDots name then .error .alreadyExists
      else if isTooLong name then .error .nameTooLong
      else if (t.node? place).isSome then .error .alreadyExists
      else .ok (t.insert place .directory)

def settle (t : FileTree) (start : Place) (segments : List String)
    (made : Except FileFault FileTree) : Except FileFault FileTree :=
  match made with
  | .ok t => .ok t
  | .error f => if t.isDirectory start segments then .ok t else .error f

/-- Makes a directory and those above it that are missing; `above` holds the components of the
directory around it, the last first. -/
def makeWithParents (t : FileTree) (start : Place) (segments : List String) :
    List String → Except FileFault FileTree
  | [] => t.settle start segments (t.makeDirectory start segments)
  | name :: rest =>
    match t.makeDirectory start segments with
    | .error .notFound =>
      match t.makeWithParents start (rest.reverse ++ [name]) rest with
      | .error f => .error f
      | .ok t => t.settle start segments (t.makeDirectory start segments)
    | made => t.settle start segments made

def makeDirectories (t : FileTree) (path : String) : Except FileFault FileTree :=
  if path = "" then .ok t
  else
    match pathFault? path with
    | some f => .error f
    | none =>
      t.makeWithParents (t.start path) (Path.segments path) (Path.components path).reverse.tail

/-- A tree with nothing but an empty working directory, and the sink that any machine has. -/
def empty (working : Place) : FileTree :=
  let bare : FileTree := ⟨∅, working⟩
  let directories := ["dev"] :: (List.range working.length).map fun n => working.take (n + 1)
  (directories.foldl (fun t place => t.insert place .directory) bare).insert ["dev", "null"] .sink

def addFile (t : FileTree) (path text : String) : FileTree :=
  match t.makeDirectories ("/".intercalate (Path.segments path).dropLast) with
  | .error _ => t
  | .ok made =>
    match made.write path text with
    | .ok written => written
    | .error _ => t

end FileTree
end BlockSketch
