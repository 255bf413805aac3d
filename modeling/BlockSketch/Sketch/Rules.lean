import BlockSketch.Number.Literal
import BlockSketch.Sketch.Layout
import BlockSketch.Sketch.Script

/-
The emission rules of the ESP32 catalogue. Statement rules give the text of their block alone; value
rules give an expression with its binding order.
-/
namespace BlockSketch.Rules
open Script

/-! Pins -/

def pinMode : Rule := fun site => do
  let pin := site.field "PIN"
  configure (.pin pin) ("pinMode(" ++ pin ++ ", " ++ site.field "MODE" ++ ");")
  return .empty

def writeLine (pin state : String) : String := "digitalWrite(" ++ pin ++ ", " ++ state ++ ");\n"

def digitalWrite : Rule := fun site => do
  let pin := site.field "PIN"
  use (.pin pin)
  return .statement (writeLine pin (site.field "STATE"))

def readCall (pin : String) : String := "digitalRead(" ++ pin ++ ")"

def digitalRead : Rule := fun site => do
  let pin := site.field "PIN"
  use (.pin pin)
  return .expression (readCall pin) .functionCall

/-- Analog inputs need no setup, so their pin does not count as used. -/
def analogRead : Rule := fun site =>
  return .expression ("analogRead(" ++ site.field "PIN" ++ ")") .functionCall

def buttonRead : Rule := fun site => do
  let pin := site.field "PIN"
  use (.pin pin)
  match site.options.buttons with
  | .raw => return .expression (readCall pin) .functionCall
  | .activeLow => return .expression ("!" ++ readCall pin) .logicalNot

def highLow : Rule := fun site =>
  return .expression (if site.field "STATE" = "LOW" then "LOW" else "HIGH") .atomic

def delayLine (millis : String) : String := "delay(" ++ millis ++ ");\n"

def followsHighWrite (site : Site) (pin : String) : Bool :=
  match (site.workspace.previous? site.block.id).bind site.workspace.get? with
  | some prev =>
    !prev.disabled && (prev.kind = "esp32_digital_write" || prev.kind = "esp32_relay_set") &&
      prev.fieldText "PIN" = pin && prev.fieldText "STATE" = "HIGH"
  | none => false

/-- A pulse. It does not raise a pin that the block before has left high. -/
def relayBlink : Rule := fun site => do
  let pin := site.field "PIN"
  use (.pin pin)
  let rise := if followsHighWrite site pin then "" else writeLine pin "HIGH"
  return .statement (rise ++ delayLine (site.field "DELAY_ON") ++ writeLine pin "LOW" ++
    delayLine (site.field "DELAY_OFF"))

/-! Time -/

def delayMillis : Rule := fun site => return .statement (delayLine (site.field "DELAY"))

def millis : Rule := fun _ => return .expression "millis()" .functionCall

/-! Serial -/

def serialBegin : Rule := fun site => do
  configure .serial ("Serial.begin(" ++ site.field "BAUD" ++ ");")
  return .empty

def serialOutput (method : String) : Rule := fun _ => do
  use .serial
  let text ← operandText "TEXT" .loosest "\"\""
  return .statement ("Serial." ++ method ++ "(" ++ text ++ ");\n")

def serialInput (method : String) : Rule := fun _ => do
  use .serial
  return .expression ("Serial." ++ method ++ "()") .functionCall

/-! Branches -/

structure Branch where
  condition : String
  body : String

def indented (socket : String) : Script String := do
  let text ← statements socket
  return Layout.indent text

/-- The condition in a socket; an empty one is never met. -/
def condition (socket : String) : Script String := operandText socket .loosest "false"

def branches (keyword code : String) : List Branch → Script String
  | [] => return code
  | b :: rest => do
    let guard ← condition b.condition
    let body ← indented b.body
    branches "\x7d else if" (code ++ keyword ++ " (" ++ guard ++ ") \x7b\n" ++ body) rest

def conditional (bs : List Branch) (elseSocket : Option String) : Script Emission := do
  let code ← branches "if" "" bs
  match elseSocket with
  | none => return .statement (code ++ "\x7d\n")
  | some socket =>
    let body ← indented socket
    return .statement (code ++ "\x7d else \x7b\n" ++ body ++ "\x7d\n")

def numbered (count : Nat) : List Branch :=
  (List.range count).map fun i => ⟨"IF" ++ toString i, "DO" ++ toString i⟩

def ifRule (condition body : String) (elseSocket : Option String) : Rule := fun _ =>
  conditional [⟨condition, body⟩] elseSocket

def ifChain (count : Nat) (elseSocket : Option String) : Rule := fun _ =>
  conditional (numbered count) elseSocket

/-- The most `else if` branches that a conditional can grow. -/
def maxElseIf : Nat := 256

def branchNumber? (socket : String) : Option Nat :=
  match socket.toList with
  | 'I' :: 'F' :: number => Text.natural? Text.wordCount number
  | 'D' :: 'O' :: number => Text.natural? Text.wordCount number
  | _ => none

def declaredElseIfs (b : Block) : Nat :=
  (((b.extraState.bind (·.member? "elseIfCount")).bind Json.number?).bind
    JsonNumber.natural?).getD 0

def highestBranch (b : Block) : Nat :=
  ((b.values.keys ++ b.statements.keys).filterMap branchNumber?).foldl max 0

def branchCount (b : Block) : Nat :=
  min (maxElseIf + 1) (max (declaredElseIfs b + 1) (highestBranch b + 1))

def hasElse (b : Block) : Bool :=
  (b.extraState.bind (·.member? "hasElse")).bind Json.bool? = some true ||
    b.statements.contains "ELSE"

/-- A conditional that grows branches: as many as its state declares and its filled sockets need. -/
def growingIf : Rule := fun site =>
  conditional (numbered (branchCount site.block))
    (if hasElse site.block then some "ELSE" else none)

/-! Loops -/

def whileLoop (head : String) (body : String) : Emission :=
  .statement (head ++ " \x7b\n" ++ body ++ "\x7d\n")

def whileRule : Rule := fun _ => do
  let guard ← condition "CONDITION"
  let body ← indented "DO"
  return whileLoop ("while (" ++ guard ++ ")") body

def whileUntil : Rule := fun site => do
  let guard ← condition "BOOL"
  let body ← indented "DO"
  return whileLoop
    (if site.field "MODE" = "UNTIL" then "while (!(" ++ guard ++ "))"
      else "while (" ++ guard ++ ")")
    body

def countedLoop (times : String) : Script Emission := do
  let c ← distinct "count"
  let body ← indented "DO"
  return .statement ("for (int " ++ c ++ " = 0; " ++ c ++ " < " ++ times ++ "; " ++ c ++
    "++) \x7b\n" ++
    body ++ "\x7d\n")

def repeatTimes : Rule := fun _ => do
  let times ← operandText "TIMES" .assignment "0"
  countedLoop times

def numberLiteral (raw : String) : String × Order :=
  match Binary64.ofText? (Text.trim raw) with
  | some x => (x.literal, if x.isBelowZero then .unaryMinus else .atomic)
  | none => ("0", .atomic)

def repeatFixed : Rule := fun site => countedLoop (numberLiteral (site.field "TIMES")).1

def flowStatement : Rule := fun site =>
  return .statement ((if site.field "FLOW" = "CONTINUE" then "continue" else "break") ++ ";\n")

/-! Expressions -/

def comparison (op : String) : String × Order :=
  match op with
  | "NEQ" => ("!=", .equality)
  | "LT" => ("<", .relational)
  | "LTE" => ("<=", .relational)
  | "GT" => (">", .relational)
  | "GTE" => (">=", .relational)
  | _ => ("==", .equality)

def compare : Rule := fun site => do
  let (op, order) := comparison (site.field "OP")
  let a ← operandText "A" order "0"
  let b ← operandText "B" order "0"
  return .expression (a ++ " " ++ op ++ " " ++ b) order

/-- A conjunction unless it says otherwise. Without any operand it is a constant. -/
def logicOperation : Rule := fun site => do
  let or := site.field "OP" = "OR"
  let order : Order := if or then .logicalOr else .logicalAnd
  let a ← operand "A" order "false"
  let b ← operand "B" order "false"
  if a.fallback && b.fallback then
    return .expression (if or then "true" else "false") .atomic
  else
    return .expression (a.wrapped ++ (if or then " || " else " && ") ++ b.wrapped) order

def logicBoolean : Rule := fun site =>
  return .expression (if site.field "BOOL" = "TRUE" then "true" else "false") .atomic

def negate : Rule := fun _ => do
  let x ← operandText "BOOL" .logicalNot "true"
  return .expression ("!" ++ x) .logicalNot

def mathNumber : Rule := fun site =>
  let (code, order) := numberLiteral (site.field "NUM")
  return .expression code order

/-- The operator of an arithmetic block and its order; powers are a function call. -/
def arithmeticOperator (op : String) : Option String × Order :=
  match op with
  | "MINUS" => (some " - ", .subtraction)
  | "MULTIPLY" => (some " * ", .multiplication)
  | "DIVIDE" => (some " / ", .division)
  | "POWER" => (none, .comma)
  | _ => (some " + ", .addition)

def arithmetic : Rule := fun site => do
  let (op, order) := arithmeticOperator (site.field "OP")
  let a ← operandText "A" order "0"
  let b ← operandText "B" order "0"
  match op with
  | some op => return .expression (a ++ op ++ b) order
  | none => return .expression ("pow(" ++ a ++ ", " ++ b ++ ")") .functionCall

/-! Variables and text -/

def getVariable : Rule := fun site => do
  let name ← variableName (site.field "VAR")
  return .expression name .atomic

def setVariable : Rule := fun site => do
  let value ← operandText "VALUE" .assignment "0"
  let name ← variableName (site.field "VAR")
  return .statement (name ++ " = " ++ value ++ ";\n")

def textLiteral : Rule := fun site => return .expression (Layout.quote (site.field "TEXT")) .atomic

def rawText : Rule := fun site =>
  return .expression (if site.field "RAW" = "" then "\"\"" else site.field "RAW") .atomic

/-! Sections -/

def setupSection : Rule := fun _ => do
  let text ← statements "DO"
  update (·.appendInit text)
  return .empty

def loopSection : Rule := fun _ => do
  let text ← statements "DO"
  update (·.appendLoop text)
  return .empty

def entries : List (String × Rule) :=
  [("esp32_pin_mode", pinMode), ("esp32_digital_write", digitalWrite),
    ("esp32_digital_read", digitalRead), ("esp32_analog_read", analogRead),
    ("esp32_button_read", buttonRead), ("esp32_high_low", highLow),
    ("esp32_relay_set", digitalWrite), ("esp32_relay_blink", relayBlink),
    ("esp32_delay_ms", delayMillis), ("esp32_millis", millis),
    ("esp32_serial_begin", serialBegin), ("esp32_serial_print", serialOutput "print"),
    ("esp32_serial_println", serialOutput "println"),
    ("esp32_serial_available", serialInput "available"), ("esp32_serial_read", serialInput "read"),
    ("esp32_if", ifRule "CONDITION" "DO" none),
    ("esp32_if_else", ifRule "CONDITION" "DO" (some "ELSE")),
    ("esp32_if_elseif", ifChain 2 none), ("esp32_if_elseif_else", ifChain 2 (some "ELSE")),
    ("esp32_if_multiple", ifChain 3 (some "ELSE")),
    ("esp32_clear_if_else", ifRule "CONDITION" "IF_STATEMENTS" (some "ELSE_STATEMENTS")),
    ("esp32_simple_if_else", ifRule "CONDITION" "IF_DO" (some "ELSE_DO")),
    ("controls_if", growingIf), ("esp32_while", whileRule), ("controls_whileUntil", whileUntil),
    ("controls_repeat_ext", repeatTimes), ("controls_repeat", repeatFixed),
    ("controls_flow_statements", flowStatement), ("logic_compare", compare),
    ("logic_operation", logicOperation), ("logic_boolean", logicBoolean), ("logic_negate", negate),
    ("math_number", mathNumber), ("math_arithmetic", arithmetic), ("variables_get", getVariable),
    ("variables_set", setVariable), ("text", textLiteral), ("esp32_text_raw", rawText),
    ("program_setup", setupSection), ("program_loop", loopSection)]

def esp32 : RuleTable := .ofList entries

end BlockSketch.Rules
