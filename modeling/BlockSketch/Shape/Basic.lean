import BlockSketch.Shape.Validator

/-
Shapes: what the blocks of a kind look like. A shape lists fields with their defaults and
validators, value and statement sockets, sockets that repeat under a number, the output of a value
kind, and whether blocks of the kind have a predecessor and a successor.
-/
namespace BlockSketch

/-- What a value socket asks for, and what a value kind supplies. -/
inductive ValueCheck where
  | boolean
  | number
  | string
  deriving DecidableEq, Repr

def ValueCheck.name : ValueCheck → String
  | boolean => "Boolean"
  | number => "Number"
  | string => "String"

structure DropdownOption where
  label : String
  value : String
  deriving DecidableEq, Repr

structure FieldSpec where
  name : String
  default : String
  options : List DropdownOption
  validator : Option Validator
  deriving DecidableEq, Repr

structure ValueSocket where
  name : String
  check : Option ValueCheck
  deriving DecidableEq, Repr

inductive SocketKind where
  | value
  | statement
  deriving DecidableEq, Repr

def SocketKind.name : SocketKind → String
  | value => "value"
  | statement => "statement"

structure RepeatingSocket where
  stem : String
  kind : SocketKind
  check : Option ValueCheck
  deriving DecidableEq, Repr

/-- The output of a value kind; without a check it fits everywhere. -/
structure Output where
  check : Option ValueCheck
  deriving DecidableEq, Repr

structure Shape where
  kind : String
  tooltip : String
  fields : List FieldSpec
  valueSockets : List ValueSocket
  statementSockets : List String
  repeating : List RepeatingSocket
  output : Option Output
  previous : Bool
  next : Bool
  deriving DecidableEq, Repr

namespace FieldSpec

def text (name default : String) : FieldSpec := ⟨name, default, [], none⟩

def validated (name default : String) (validator : Validator) : FieldSpec :=
  ⟨name, default, [], some validator⟩

def labelled (name : String) (pairs : List (String × String)) : FieldSpec :=
  let options := pairs.map fun p => DropdownOption.mk p.1 p.2
  ⟨name, (options.head?.map DropdownOption.value).getD "", options,
    some (.oneOf (options.map DropdownOption.value))⟩

def dropdown (name : String) (values : List String) : FieldSpec :=
  labelled name (values.map fun v => (v, v))

def toJson (f : FieldSpec) : Json :=
  .object <|
    [("name", .string f.name), ("default", .string f.default)] ++
    (if f.options.isEmpty then []
      else [("options", .array (f.options.map fun o =>
        .object [("label", .string o.label), ("value", .string o.value)]))]) ++
    (f.validator.elim [] fun v => [("validator", v.toJson)])

end FieldSpec

namespace RepeatingSocket

/-- The socket name is the stem followed by one or more ASCII digits. -/
def covers (r : RepeatingSocket) (name : String) : Bool :=
  let stem := r.stem.toList
  let number := name.toList.drop stem.length
  stem.isPrefixOf name.toList && !number.isEmpty && number.all Char.isDigit

end RepeatingSocket

namespace Shape

def bare (kind : String) : Shape := ⟨kind, "", [], [], [], [], none, false, false⟩

def statement (kind : String) : Shape := { bare kind with previous := true, next := true }

def value (kind : String) (check : Option ValueCheck) : Shape :=
  { bare kind with output := some ⟨check⟩ }

def container (kind : String) : Shape := bare kind

def withTooltip (s : Shape) (tooltip : String) : Shape := { s with tooltip }

def withField (s : Shape) (field : FieldSpec) : Shape := { s with fields := s.fields ++ [field] }

def withValue (s : Shape) (name : String) (check : Option ValueCheck) : Shape :=
  { s with valueSockets := s.valueSockets ++ [⟨name, check⟩] }

def withStatement (s : Shape) (name : String) : Shape :=
  { s with statementSockets := s.statementSockets ++ [name] }

def withRepeating (s : Shape) (stem : String) (kind : SocketKind) (check : Option ValueCheck) :
    Shape :=
  { s with repeating := s.repeating ++ [⟨stem, kind, check⟩] }

def isValueKind (s : Shape) : Bool := s.output.isSome

def isContainer (s : Shape) : Bool := s.output.isNone && !s.previous && !s.next

def fieldSpec? (s : Shape) (name : String) : Option FieldSpec := s.fields.find? (·.name = name)

def repeatingFor? (s : Shape) (name : String) : Option RepeatingSocket :=
  s.repeating.find? (·.covers name)

/-- What kind of socket a name is, declared sockets before repeating ones. -/
def socketKind? (s : Shape) (name : String) : Option SocketKind :=
  if s.valueSockets.any (·.name = name) then some .value
  else if s.statementSockets.contains name then some .statement
  else (s.repeatingFor? name).map (·.kind)

def socketCheck? (s : Shape) (name : String) : Option ValueCheck :=
  match s.valueSockets.find? (·.name = name) with
  | some socket => socket.check
  | none => ((s.repeatingFor? name).filter (·.kind = .value)).bind (·.check)

def firstRepeated (seen : List String) : List String → Option String
  | [] => none
  | name :: rest => if seen.contains name then some name else firstRepeated (name :: seen) rest

inductive Fault where
  | emptyKind
  | chainedValue
  | repeatedSocket (name : String)
  | repeatedField (name : String)
  deriving DecidableEq, Repr

def Fault.message : Fault → String
  | emptyKind => "kind name is empty"
  | chainedValue => "a value kind cannot also chain as a statement"
  | repeatedSocket name => "socket '" ++ name ++ "' declared twice"
  | repeatedField name => "field '" ++ name ++ "' declared twice"

/-- The first fault of a shape: a blank kind, a value kind that chains, then sockets and fields that
are declared twice. -/
def fault? (s : Shape) : Option Fault :=
  if Text.isBlank s.kind then some .emptyKind
  else if s.output.isSome && (s.previous || s.next) then some .chainedValue
  else match firstRepeated [] (s.valueSockets.map (·.name) ++ s.statementSockets) with
    | some name => some (.repeatedSocket name)
    | none => (firstRepeated [] (s.fields.map (·.name))).map .repeatedField

def checkJson (check : ValueCheck) : Json := .string check.name

def checkMember (check : Option ValueCheck) : List (String × Json) :=
  check.elim [] fun c => [("check", checkJson c)]

/-- As JSON, with empty repetitions and absent outputs and checks left out. -/
def toJson (s : Shape) : Json :=
  .object <|
    [("kind", .string s.kind), ("tooltip", .string s.tooltip),
      ("fields", .array (s.fields.map FieldSpec.toJson)),
      ("value_inputs", .array (s.valueSockets.map fun v =>
        .object (("name", .string v.name) :: checkMember v.check))),
      ("statement_inputs", .array (s.statementSockets.map .string))] ++
    (if s.repeating.isEmpty then []
      else [("repeating", .array (s.repeating.map fun r =>
        .object ([("prefix", .string r.stem), ("kind", .string r.kind.name)] ++
          checkMember r.check)))]) ++
    (s.output.elim [] fun o =>
      [("output", .object [("check", o.check.elim .null checkJson)])]) ++
    [("previous", .bool s.previous), ("next", .bool s.next)]

end Shape
end BlockSketch
