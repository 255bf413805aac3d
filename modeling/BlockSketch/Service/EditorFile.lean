import BlockSketch.Files.Tree
import BlockSketch.Json.Token
import BlockSketch.Service.Config

/-
The editor's own files, which the service hands out from one directory. Only their statuses are
modelled, not their contents.
-/
namespace BlockSketch.EditorFile

def hexByte? (a b : UInt8) : Option UInt8 :=
  match Json.Token.hexValue? (Char.ofNat a.toNat), Json.Token.hexValue? (Char.ofNat b.toNat) with
  | some x, some y => some (16 * x + y).toUInt8
  | _, _ => none

def percentDecode : List UInt8 → List UInt8
  | [] => []
  | 37 :: a :: b :: rest =>
    match hexByte? a b with
    | some byte => byte :: percentDecode rest
    | none => 37 :: percentDecode (a :: b :: rest)
  | byte :: rest => byte :: percentDecode rest

/-- The path of the file that a resource names. A resource must not leave the directory. -/
def path? (c : ServiceConfig) (resource : String) : Option String :=
  let name := String.ofList (resource.toList.dropWhile (· = '/'))
  match String.fromUTF8? (percentDecode name.toUTF8.toList).toByteArray with
  | none => none
  | some name =>
    let parts := Path.components name
    if Path.isAbsolute name || parts.contains ".." then none
    else some ((parts.filter (· ≠ ".")).foldl Path.join c.staticDir)

def faultStatus : FileFault → Nat
  | .notFound | .notDirectory => 404
  | _ => 500

/-- The status of reading a resource. A directory stands for its index file, but only with a slash
at the end. -/
def status (c : ServiceConfig) (files : FileTree) (resource : String) : Nat :=
  match path? c resource with
  | none => 404
  | some path =>
    match files.read path with
    | .ok _ => 200
    | .error .isDirectory =>
      if resource.toList.getLast? = some '/' then
        match files.read (Path.join path "index.html") with
        | .ok _ => 200
        | .error f => faultStatus f
      else 307
    | .error f => faultStatus f

end BlockSketch.EditorFile
