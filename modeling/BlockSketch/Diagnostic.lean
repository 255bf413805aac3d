import BlockSketch.Json.Basic

/-
Diagnostics: what was repaired or could not be honoured while loading or generating. They never stop
either; they are collected beside the result.
-/
namespace BlockSketch

/-- Blocks are named by their place in their workspace. -/
abbrev BlockId := Nat

inductive Severity where
  | error
  | warning
  deriving DecidableEq, Repr

def Severity.name : Severity → String
  | error => "error"
  | warning => "warning"

structure Diagnostic where
  code : Option String
  severity : Severity
  block : Option BlockId
  message : String
  hint : Option String
  related : List BlockId
  deriving DecidableEq, Repr

namespace Diagnostic

def missingRule : String := "W0100"

def unconfigured : String := "W0101"

def droppedStatements : String := "W0102"

def statementInValue : String := "W0103"

def severedLink : String := "W0104"

def misfit : String := "W0105"

def unknownVariable : String := "W0106"

def warning (code : String) (block : Option BlockId) (message : String)
    (hint : Option String) (related : List BlockId) : Diagnostic :=
  ⟨some code, .warning, block, message, hint, related⟩

def display (d : Diagnostic) : String :=
  let head := match d.code with
    | some code => d.severity.name ++ "[" ++ code ++ "]: " ++ d.message
    | none => d.severity.name ++ ": " ++ d.message
  match d.hint with
  | some hint => head ++ "\n  hint: " ++ hint
  | none => head

/-- As JSON: the hint and the related blocks are left out when there are none. -/
def toJson (d : Diagnostic) : Json :=
  .object <|
    [("code", d.code.elim .null .string), ("level", .string d.severity.name),
      ("block", d.block.elim .null .ofNat), ("message", .string d.message)] ++
    (d.hint.elim [] fun hint => [("hint", .string hint)]) ++
    (if d.related.isEmpty then [] else [("related_blocks", .array (d.related.map .ofNat))])

def hasErrors (ds : List Diagnostic) : Bool := ds.any fun d => d.severity = .error

end Diagnostic
end BlockSketch
