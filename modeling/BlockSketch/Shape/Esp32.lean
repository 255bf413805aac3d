import BlockSketch.Shape.Catalogue

/-
The catalogue of the editor for ESP32 boards.
-/
namespace BlockSketch.Esp32

def gpioPin (default : String) : FieldSpec := .validated "PIN" default .gpio

def millisField (name default : String) : FieldSpec := .validated name default .nonNegative

def highLow : FieldSpec := .dropdown "STATE" ["HIGH", "LOW"]

def boolean : Option ValueCheck := some .boolean

def number : Option ValueCheck := some .number

def pinShapes : List Shape :=
  [ (Shape.statement "esp32_pin_mode").withTooltip "Configure a GPIO pin direction/mode"
      |>.withField (gpioPin "2")
      |>.withField (.dropdown "MODE" ["OUTPUT", "INPUT", "INPUT_PULLUP", "INPUT_PULLDOWN"]),
    (Shape.statement "esp32_digital_write").withTooltip "Set a GPIO pin to HIGH or LOW"
      |>.withField (gpioPin "2") |>.withField highLow,
    (Shape.value "esp32_digital_read" boolean).withTooltip "Read the digital state of a GPIO pin"
      |>.withField (gpioPin "2"),
    (Shape.value "esp32_analog_read" number).withTooltip "Read the analog value from a pin (0-4095)"
      |>.withField (.validated "PIN" "A0" .analogPin),
    (Shape.value "esp32_button_read" boolean).withTooltip "Check if a button is pressed"
      |>.withField (gpioPin "0"),
    (Shape.value "esp32_high_low" boolean).withTooltip "HIGH or LOW constant value"
      |>.withField highLow,
    (Shape.statement "esp32_relay_set").withTooltip "ON / OFF relay (digitalWrite)"
      |>.withField (gpioPin "4")
      |>.withField (.labelled "STATE" [("ON", "HIGH"), ("OFF", "LOW")]),
    (Shape.statement "esp32_relay_blink").withTooltip
        "Blink relay: HIGH then LOW with ON/OFF timing"
      |>.withField (gpioPin "4") |>.withField (millisField "DELAY_ON" "1000")
      |>.withField (millisField "DELAY_OFF" "1000") ]

def timeShapes : List Shape :=
  [ (Shape.statement "esp32_delay_ms").withTooltip
        "Pause the program for the specified milliseconds"
      |>.withField (millisField "DELAY" "1000"),
    (Shape.value "esp32_millis" number).withTooltip
        "Returns milliseconds since the program started" ]

def serialShapes : List Shape :=
  [ (Shape.statement "esp32_serial_begin").withTooltip "Initialize Serial with selected baud rate"
      |>.withField
        (.dropdown "BAUD" ["115200", "9600", "57600", "38400", "19200", "4800", "2400"]),
    (Shape.statement "esp32_serial_print").withTooltip "Send data to Serial (no newline)"
      |>.withValue "TEXT" none,
    (Shape.statement "esp32_serial_println").withTooltip "Send data to Serial and append newline"
      |>.withValue "TEXT" none,
    (Shape.value "esp32_serial_available" number).withTooltip
        "Number of bytes available to read in buffer",
    (Shape.value "esp32_serial_read" number).withTooltip
        "Read one byte from Serial (return -1 if none)" ]

def branchShapes : List Shape :=
  [ (Shape.statement "esp32_if").withTooltip "Execute code if condition is true"
      |>.withValue "CONDITION" boolean |>.withStatement "DO",
    (Shape.statement "esp32_if_else").withTooltip
        "Execute code if condition is true, otherwise execute else code"
      |>.withValue "CONDITION" boolean |>.withStatement "DO" |>.withStatement "ELSE",
    (Shape.statement "esp32_if_elseif").withTooltip "If-else if statement"
      |>.withValue "IF0" boolean |>.withStatement "DO0"
      |>.withValue "IF1" boolean |>.withStatement "DO1",
    (Shape.statement "esp32_if_elseif_else").withTooltip "If-else if-else statement"
      |>.withValue "IF0" boolean |>.withStatement "DO0"
      |>.withValue "IF1" boolean |>.withStatement "DO1" |>.withStatement "ELSE",
    (Shape.statement "esp32_if_multiple").withTooltip
        "If with multiple else if conditions and final else"
      |>.withValue "IF0" boolean |>.withStatement "DO0"
      |>.withValue "IF1" boolean |>.withStatement "DO1"
      |>.withValue "IF2" boolean |>.withStatement "DO2" |>.withStatement "ELSE",
    (Shape.statement "esp32_clear_if_else").withTooltip
        "If the condition is true do the first part, otherwise the second"
      |>.withValue "CONDITION" boolean |>.withStatement "IF_STATEMENTS"
      |>.withStatement "ELSE_STATEMENTS",
    (Shape.statement "esp32_simple_if_else").withTooltip
        "Do something if the condition is true, otherwise something else"
      |>.withValue "CONDITION" boolean |>.withStatement "IF_DO" |>.withStatement "ELSE_DO",
    (Shape.statement "controls_if").withTooltip "If a value is true, then do some statements"
      |>.withRepeating "IF" .value boolean |>.withRepeating "DO" .statement none
      |>.withStatement "ELSE" ]

def loopShapes : List Shape :=
  [ (Shape.statement "esp32_while").withTooltip "Repeat code while condition is true"
      |>.withValue "CONDITION" boolean |>.withStatement "DO",
    (Shape.statement "controls_repeat_ext").withTooltip "Do some statements several times"
      |>.withValue "TIMES" number |>.withStatement "DO",
    (Shape.statement "controls_repeat").withTooltip "Do some statements several times"
      |>.withField (.validated "TIMES" "10" .nonNegative) |>.withStatement "DO",
    (Shape.statement "controls_whileUntil").withTooltip "Repeat while (or until) a value is true"
      |>.withField (.dropdown "MODE" ["WHILE", "UNTIL"])
      |>.withValue "BOOL" boolean |>.withStatement "DO",
    { (Shape.statement "controls_flow_statements").withTooltip
        "Break out of, or continue, the containing loop"
      |>.withField (.dropdown "FLOW" ["BREAK", "CONTINUE"]) with next := false } ]

def valueShapes : List Shape :=
  [ (Shape.value "logic_compare" boolean).withTooltip "Compare two values"
      |>.withField (.dropdown "OP" ["EQ", "NEQ", "LT", "LTE", "GT", "GTE"])
      |>.withValue "A" none |>.withValue "B" none,
    (Shape.value "logic_operation" boolean).withTooltip "Both (and) or either (or) of two values"
      |>.withField (.dropdown "OP" ["AND", "OR"])
      |>.withValue "A" boolean |>.withValue "B" boolean,
    (Shape.value "logic_boolean" boolean).withTooltip "Returns either true or false"
      |>.withField (.labelled "BOOL" [("true", "TRUE"), ("false", "FALSE")]),
    (Shape.value "logic_negate" boolean).withTooltip "Returns true if the input is false"
      |>.withValue "BOOL" boolean,
    (Shape.value "math_number" number).withTooltip "A number" |>.withField (.text "NUM" "0"),
    (Shape.value "math_arithmetic" number).withTooltip "Arithmetic on two numbers"
      |>.withField (.dropdown "OP" ["ADD", "MINUS", "MULTIPLY", "DIVIDE", "POWER"])
      |>.withValue "A" number |>.withValue "B" number ]

def dataShapes : List Shape :=
  [ (Shape.value "variables_get" none).withTooltip "Returns the value of this variable"
      |>.withField (.text "VAR" "item"),
    (Shape.statement "variables_set").withTooltip "Sets this variable to be equal to the input"
      |>.withField (.text "VAR" "item") |>.withValue "VALUE" none,
    (Shape.value "text" none).withTooltip "Standard string literal (wrapped in quotes)"
      |>.withField (.text "TEXT" ""),
    (Shape.value "esp32_text_raw" none).withTooltip
        "Raw string/code (kept exactly, no quotes added)"
      |>.withField (.text "RAW" "") ]

def programShapes : List Shape :=
  [ (Shape.container "program_setup").withTooltip "Statements run once at start-up"
      |>.withStatement "DO",
    (Shape.container "program_loop").withTooltip "Statements run repeatedly"
      |>.withStatement "DO" ]

def shapes : List Shape :=
  pinShapes ++ timeShapes ++ serialShapes ++ branchShapes ++ loopShapes ++ valueShapes ++
    dataShapes ++ programShapes

def catalogue : Catalogue :=
  ⟨.ofList (shapes.map fun s => (s.kind, s))⟩

theorem shapes_faultless : ∀ s ∈ shapes, s.fault? = none := by decide +kernel

end BlockSketch.Esp32
