/-
Command line arguments. They are read from left to right: options with or without a value, of which
each may be given once, and operands. A double dash ends the options. The first argument that cannot
be accepted, or that asks for help or the version, ends the reading.
-/
namespace BlockSketch

abbrev Environment := String → Option String

structure OptionSpec where
  name : String
  short : Option Char
  /-- The values that it accepts; an option without values is a switch. -/
  accepts : Option (String → Bool)
  /-- The environment variable that stands in for the option. -/
  environment : Option String
  about : String
  preset : Option String
  choices : List (String × String)
  /-- Where help lists the option; those of one rank are listed by letter or name. -/
  rank : Nat

inductive Stop where
  | usage
  | help (command : String) (detailed : Bool)
  | version
  deriving DecidableEq, Repr

inductive Operands where
  | none
  | one (label about : String) (accepts : String → Bool)
  /-- The name of a command, after which that command's own arguments follow. Each comes with what
  it does. -/
  | command (commands : List (String × String))

structure CommandSpec where
  name : String
  about : String
  options : List OptionSpec
  operands : Operands

structure Arguments where
  values : List (String × String)
  switches : List String
  operand : Option String
  command : Option (String × List String)

namespace OptionSpec

def switch (name about : String) (rank : Nat) : OptionSpec :=
  ⟨name, none, none, none, about, none, [], rank⟩

def value (name about : String) (accepts : String → Bool) (rank : Nat) : OptionSpec :=
  ⟨name, none, some accepts, none, about, none, [], rank⟩

def withShort (o : OptionSpec) (c : Char) : OptionSpec := { o with short := some c }

def orEnvironment (o : OptionSpec) (name : String) : OptionSpec :=
  { o with environment := some name }

def withPreset (o : OptionSpec) (v : String) : OptionSpec := { o with preset := some v }

def anyText : String → Bool := fun _ => true

def path : String → Bool := (· ≠ "")

end OptionSpec

namespace Arguments

def empty : Arguments := ⟨[], [], none, none⟩

def has (a : Arguments) (name : String) : Bool := a.switches.contains name

def get? (a : Arguments) (name : String) : Option String := a.values.lookup name

def addValue (a : Arguments) (o : OptionSpec) (accepts : String → Bool) (v : String) :
    Except Stop Arguments :=
  if (a.get? o.name).isSome || !accepts v then .error .usage
  else .ok { a with values := (o.name, v) :: a.values }

def addSwitch (a : Arguments) (o : OptionSpec) : Except Stop Arguments :=
  if a.has o.name then .error .usage else .ok { a with switches := o.name :: a.switches }

/-- An argument that starts like an option. A single dash does not. -/
def looksLikeOption (arg : String) : Bool :=
  match arg.toList with
  | '-' :: _ :: _ => true
  | _ => false

structure Written where
  option : OptionSpec
  attached : Option String
  long : Bool

def splitLong (cs : List Char) : String × Option String :=
  match cs.dropWhile (· ≠ '=') with
  | _ :: v => (String.ofList (cs.takeWhile (· ≠ '=')), some (String.ofList v))
  | [] => (String.ofList cs, none)

/-- The option that an argument writes. The value of a short option may follow it at once, with or
without an equals sign; short switches end the reading, so what follows them does not matter. -/
def written (options : List OptionSpec) (arg : String) : Except Stop Written :=
  match arg.toList with
  | '-' :: '-' :: long =>
    let (name, attached) := splitLong long
    match options.find? (·.name = name) with
    | some o => .ok ⟨o, attached, true⟩
    | none => .error .usage
  | '-' :: c :: rest =>
    match options.find? (·.short = some c) with
    | some o =>
      .ok ⟨o, match o.accepts, rest with
        | none, _ => none
        | some _, [] => none
        | some _, '=' :: v => some (String.ofList v)
        | some _, v => some (String.ofList v), false⟩
    | none => .error .usage
  | _ => .error .usage

/-- Reads the arguments after those in `a`; once `escaped`, only operands come. -/
def read (spec : CommandSpec) (a : Arguments) (escaped : Bool) : List String → Except Stop Arguments
  | [] => .ok a
  | arg :: rest =>
    if !escaped && arg = "--" then read spec a true rest
    else if !escaped && looksLikeOption arg then
      match written spec.options arg with
      | .error stop => .error stop
      | .ok ⟨o, attached, long⟩ =>
        match o.accepts, attached with
        | none, some _ => .error .usage
        | none, none =>
          if o.name = "help" then .error (.help spec.name long)
          else if o.name = "version" then .error .version
          else
            match a.addSwitch o with
            | .error stop => .error stop
            | .ok a => read spec a false rest
        | some accepts, some v =>
          match a.addValue o accepts v with
          | .error stop => .error stop
          | .ok a => read spec a false rest
        | some accepts, none =>
          match rest with
          | [] => .error .usage
          | v :: rest =>
            if looksLikeOption v then .error .usage
            else
              match a.addValue o accepts v with
              | .error stop => .error stop
              | .ok a => read spec a false rest
    else
      match spec.operands with
      | .none => .error .usage
      | .one _ _ accepts =>
        if a.operand.isSome || !accepts arg then .error .usage
        else read spec { a with operand := some arg } escaped rest
      | .command commands =>
        if !escaped && commands.any (·.1 = arg) then .ok { a with command := some (arg, rest) }
        else .error .usage

def withEnvironment (env : Environment) (a : Arguments) :
    List OptionSpec → Except Stop Arguments
  | [] => .ok a
  | o :: rest =>
    match o.accepts, o.environment.bind env with
    | some accepts, some v =>
      if (a.get? o.name).isSome then a.withEnvironment env rest
      else
        match a.addValue o accepts v with
        | .error stop => .error stop
        | .ok a => a.withEnvironment env rest
    | _, _ => a.withEnvironment env rest

def parse (env : Environment) (spec : CommandSpec) (args : List String) : Except Stop Arguments :=
  match read spec empty false args with
  | .error stop => .error stop
  | .ok a => a.withEnvironment env spec.options

end Arguments
end BlockSketch
