import BlockSketch.CommandLine.Arguments

/-
Pages of help: what a command is for, how it is called, and lists of the commands, arguments and
options that it takes. A list has two columns unless its labels are long and a text does not fit
beside them; then, and whenever details are shown, the texts stand below the labels. Lines are not
broken.
-/
namespace BlockSketch

structure HelpPage where
  about : String
  call : String
  commands : List (String × String)
  arguments : List (String × String)
  options : List OptionSpec

structure HelpEntry where
  label : String
  about : String
  notes : List String
  /-- Values with what they stand for, each for a line of its own. -/
  choices : List (String × String)

namespace OptionSpec

def valueName (o : OptionSpec) : String :=
  String.ofList (o.name.toList.map fun c => if c = '-' then '_' else c.toUpper)

def label (o : OptionSpec) : String :=
  (o.short.elim "    " fun c => "-" ++ String.singleton c ++ ", ") ++ "--" ++ o.name ++
    (if o.accepts.isSome then " <" ++ o.valueName ++ ">" else "")

/-- Orders the options of one rank: short names without regard to case, small letters first. -/
def sortKey (o : OptionSpec) : String :=
  o.short.elim o.name fun c => String.ofList [c.toLower, if c.isLower then '0' else '1']

def precedes (a b : OptionSpec) : Bool :=
  a.rank < b.rank || a.rank = b.rank && decide (a.sortKey ≤ b.sortKey)

def notes (env : Environment) (o : OptionSpec) : List String :=
  (o.environment.elim [] fun name => ["[env: " ++ name ++ "=" ++ (env name).getD "" ++ "]"]) ++
  (o.preset.elim [] fun v => ["[default: " ++ v ++ "]"])

def entry (env : Environment) (detailed : Bool) (o : OptionSpec) : HelpEntry :=
  if detailed then ⟨o.label, o.about, o.notes env, o.choices⟩
  else
    ⟨o.label, o.about,
      o.notes env ++
        (if o.choices.isEmpty then []
          else ["[possible values: " ++ ", ".intercalate (o.choices.map (·.1)) ++ "]"]), []⟩

end OptionSpec

namespace HelpPage

def width : Nat := 100

def blanks (count : Nat) : String := String.ofList (List.replicate count ' ')

def briefText (e : HelpEntry) : String :=
  " ".intercalate ((if e.about = "" then [] else [e.about]) ++ e.notes)

def textColumn (entries : List HelpEntry) : Nat :=
  (entries.map (·.label.length)).foldl max 0 + 4

/-- Texts stand below the labels if these take more than two fifths of the page and a text does not
fit beside them. -/
def stacked (entries : List HelpEntry) : Bool :=
  let column := textColumn entries
  5 * column > 2 * width && entries.any fun e =>
    e.about.length + (" ".intercalate e.notes).length > width - column

def stackedColumn : Nat := 10

def nextLine : String := "\n" ++ blanks stackedColumn

def choiceLines (choices : List (String × String)) : String :=
  let longest := (choices.map (·.1.length)).foldl max 0
  "Possible values:" ++ String.join (choices.map fun (v, about) =>
    nextLine ++ "- " ++ v ++ ": " ++ blanks (longest - v.length) ++ about)

/-- The text of a row in detail: what it is about, the choices, and the notes, with a line between
them. The line before the notes is indented. -/
def detailedText (e : HelpEntry) : String :=
  e.about ++ (if e.choices.isEmpty then "" else "\n" ++ nextLine ++ choiceLines e.choices) ++
    (if e.notes.isEmpty then "" else nextLine ++ nextLine ++ nextLine.intercalate e.notes)

def row (detailed : Bool) (entries : List HelpEntry) (e : HelpEntry) : String :=
  "  " ++ e.label ++
    (if detailed then nextLine ++ detailedText e
    else if stacked entries then nextLine ++ briefText e
    else blanks (textColumn entries - 2 - e.label.length) ++ briefText e)

def list (detailed : Bool) (title : String) (entries : List HelpEntry) : List String :=
  if entries.isEmpty then []
  else
    [title ++ ":\n" ++
      (if detailed then "\n\n" else "\n").intercalate (entries.map (row detailed entries))]

def plain : String × String → HelpEntry := fun (label, about) => ⟨label, about, [], []⟩

def hasDetails (p : HelpPage) : Bool := p.options.any (!·.choices.isEmpty)

def helpAbout (p : HelpPage) (detailed : Bool) : String :=
  if !p.hasDetails then "Print help"
  else if detailed then "Print help (see a summary with '-h')"
  else "Print help (see more with '--help')"

def optionEntries (p : HelpPage) (env : Environment) (detailed : Bool) : List HelpEntry :=
  (p.options.mergeSort OptionSpec.precedes).map fun o =>
    (if o.name = "help" then { o with about := p.helpAbout detailed } else o).entry env detailed

def print (p : HelpPage) (env : Environment) (detailed : Bool) : String :=
  let detailed := detailed && p.hasDetails
  "\n\n".intercalate
    ([p.about, "Usage: " ++ p.call] ++ list detailed "Commands" (p.commands.map plain) ++
      list detailed "Arguments" (p.arguments.map plain) ++
      list detailed "Options" (p.optionEntries env detailed)) ++ "\n"

end HelpPage

namespace CommandSpec

def page (program : String) (c : CommandSpec) : HelpPage :=
  let call := (if c.name = "" then program else program ++ " " ++ c.name) ++ " [OPTIONS]"
  match c.operands with
  | .none => ⟨c.about, call, [], [], c.options⟩
  | .one label about _ => ⟨c.about, call ++ " " ++ label, [], [(label, about)], c.options⟩
  | .command commands => ⟨c.about, call ++ " <COMMAND>", commands, [], c.options⟩

end CommandSpec
end BlockSketch
