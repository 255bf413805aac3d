import BlockSketch.Diagnostic
import BlockSketch.Names
import BlockSketch.Sketch.KeyedLines

/-
Sessions: what accumulates while a sketch is generated. Setup lines are kept by the resource that
they configure, definitions by the variable that they declare.
-/
namespace BlockSketch

inductive Resource where
  | pin (name : String)
  | serial
  deriving DecidableEq, Repr

namespace Resource

def setupKey : Resource → String
  | pin name => "pin_" ++ name
  | serial => "serial"

def display : Resource → String
  | pin name => "pin " ++ name
  | serial => "Serial"

def remedy : Resource → String
  | pin _ => "add a pinMode block for it"
  | serial => "add a Serial begin block"

end Resource

structure Session where
  setupLines : KeyedLines
  definitions : KeyedLines
  used : Array Resource
  userInit : String
  userLoop : String
  names : NameTable
  diagnostics : Array Diagnostic

namespace Session

def new : Session := ⟨.empty, .empty, #[], "", "", .default, #[]⟩

def markUsed (s : Session) (r : Resource) : Session :=
  if s.used.contains r then s else { s with used := s.used.push r }

def configure (s : Session) (r : Resource) (line : String) : Session :=
  { s with setupLines := (s.setupLines.insert r.setupKey line).2 }

/-- The identifier of a user variable, which is declared when it first comes up. -/
def variableName (s : Session) (user : String) : String × Session :=
  let (name, names) := s.names.get user
  let key := "var_" ++ name
  let definitions :=
    if s.definitions.contains key then s.definitions
    else (s.definitions.insert key ("double " ++ name ++ " = 0;")).2
  (name, { s with names, definitions })

def distinct (s : Session) (base : String) : String × Session :=
  let (name, names) := s.names.distinct base
  (name, { s with names })

def appendInit (s : Session) (text : String) : Session := { s with userInit := s.userInit ++ text }

def appendLoop (s : Session) (text : String) : Session := { s with userLoop := s.userLoop ++ text }

def warn (s : Session) (d : Diagnostic) : Session := { s with diagnostics := s.diagnostics.push d }

/-- The resources used without a setup line, in order of first use. -/
def unconfigured (s : Session) : List Resource :=
  s.used.toList.filter fun r => !s.setupLines.contains r.setupKey

end Session
end BlockSketch
