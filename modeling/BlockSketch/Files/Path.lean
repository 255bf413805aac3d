/-
File paths with slashes. Repeated slashes and dots inside a path do not count as components; a dot
at its start does.
-/
namespace BlockSketch.Path

def split (cs : List Char) : List (List Char) :=
  cs.foldr (fun c parts =>
    if c = '/' then [] :: parts
    else match parts with
      | [] => [[c]]
      | part :: rest => (c :: part) :: rest) [[]]

def segments (path : String) : List String := (split path.toList).map String.ofList

def isAbsolute (path : String) : Bool := path.toList.head? = some '/'

def components (path : String) : List String :=
  match segments path with
  | [] => []
  | "." :: rest => "." :: rest.filter fun s => s ≠ "" && s ≠ "."
  | parts => parts.filter fun s => s ≠ "" && s ≠ "."

/-- The name at the end of a path. Paths that end at the root, in a dot or in two dots have none. -/
def fileName? (path : String) : Option String :=
  (components path).getLast?.filter fun s => s ≠ "." && s ≠ ".."

def join (directory name : String) : String :=
  if directory = "" || directory.toList.getLast? = some '/' then directory ++ name
  else directory ++ "/" ++ name

def isStandardInput (path : String) : Bool := !isAbsolute path && components path = ["-"]

end BlockSketch.Path
