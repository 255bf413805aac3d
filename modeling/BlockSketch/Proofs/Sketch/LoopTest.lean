import BlockSketch.Proofs.Code.Literals
import BlockSketch.Proofs.Sketch.Reading
import BlockSketch.Proofs.Workspace.Forest
import BlockSketch.Shape.Esp32

/-
The test of a counted loop. Its bound is asked for as the right side of an assignment, so that a
comparison or a connective comes without parentheses, and is then set to the right of `<`. What the
test compares the counter with is the whole bound exactly if the bound binds tighter than a
comparison. Of any other bound it captures only the leftmost operand.
-/
namespace BlockSketch
namespace Code

/-! What a comparison takes of the expression after it -/

/-- How an expression is read after `c <`: compared as a whole, or by its leftmost operand with
operators around it that bind no tighter. -/
inductive Captured (c : Expr) : Expr → Expr → Prop where
  | whole (e : Expr) : Captured c e (.binary .less c e)
  | operand {op : BinaryOp} {a test : Expr} (loose : op.level ≤ 3) (inner : Captured c a test)
      (b : Expr) :
      Captured c (.binary op a b) (.binary op test b)

section Capture

variable {name text : List Char} {n : Nat} {ts : List Token} {e : Expr}
  {tail : List (BinaryOp × Expr)}

theorem reads_less (name : List Char) (tight : 4 ≤ n) (reads : Reads (.level n) ts e) :
    Reads (.level 3) (.name name :: .symbol ['<'] :: ts) (.binary .less (.name name) e) :=
  Reads.binary .less (reads_of_le (by decide) (Reads.name name)) (reads_of_le tight reads)

theorem exists_captured (name : List Char) {form : Form} (reads : Reads form ts e) :
    ∀ n, form = .level n → ∃ test, Captured (.name name) e test ∧
      Reads (.level (min n 3)) (.name name :: .symbol ['<'] :: ts) test := by
  have whole : ∀ {m n : Nat} {ts : List Token} {e : Expr}, 4 ≤ m → Reads (.level m) ts e →
      Form.level m = .level n → ∃ test, Captured (.name name) e test ∧
        Reads (.level (min n 3)) (.name name :: .symbol ['<'] :: ts) test := by
    intro m n ts e tight reads same
    exact ⟨_, .whole e, reads_of_le (Nat.min_le_right n 3) (reads_less name tight reads)⟩
  induction reads with
  | numeral text => exact fun n same => whole (by decide) (.numeral text) same
  | name text => exact fun n same => whole (by decide) (.name text) same
  | group inner => exact fun n same => whole (by decide) (.group inner) same
  | call callee => exact fun n same => whole (by decide) (.call callee) same
  | first callee value => exact fun n same => by cases same
  | more call value => exact fun n same => by cases same
  | close call => exact fun n same => whole (by decide) (.close call) same
  | unary op inner => exact fun n same => whole (by decide) (.unary op inner) same
  | @binary op ls rs a b left right ihLeft _ =>
    intro n same
    by_cases tight : 4 ≤ op.level
    · exact whole tight (.binary op left right) same
    · have loose : op.level ≤ 3 := by omega
      obtain ⟨test, captured, reads⟩ := ihLeft op.level rfl
      rw [Nat.min_eq_left loose] at reads
      cases same
      rw [Nat.min_eq_left loose]
      exact ⟨_, .operand loose captured b, Reads.binary op reads right⟩
  | looser _ ih =>
    intro n same
    cases same
    obtain ⟨test, captured, reads⟩ := ih _ rfl
    exact ⟨test, captured, reads_of_le (by omega) reads⟩

theorem ne_binary_self (op : BinaryOp) (a x : Expr) : x ≠ .binary op a x := by
  intro same
  have size := congrArg sizeOf same
  simp only [Expr.binary.sizeOf_spec] at size
  omega

/-- The row of operands after `c <` is compared as a whole exactly if its operators bind tighter. -/
theorem captured_of_row (name : List Char) (row : Row n ts e tail) (operators : n ≤ 3 → tail ≠ []) :
    ∃ test, Captured (.name name) (grouped e tail) test ∧
      Reads (.level 0) (.name name :: .symbol ['<'] :: ts) test ∧
      (test = .binary .less (.name name) (grouped e tail) ↔ 4 ≤ n) := by
  by_cases tight : 4 ≤ n
  · have reads := reads_less name tight (reads_of_row row)
    exact ⟨_, .whole _, reads_of_le (by omega) reads, by simp [tight]⟩
  · have loose : n ≤ 3 := by omega
    cases row with
    | single _ _ _ => exact absurd rfl (operators loose)
    | @more ts rs _ x tail op row level reads =>
      obtain ⟨test, captured, readsFront⟩ := exists_captured name (reads_of_row row) n rfl
      rw [Nat.min_eq_left loose, ← level] at readsFront
      rw [← level] at reads
      have whole := reads_of_le (Nat.zero_le _) (Reads.binary op readsFront reads)
      rw [grouped_append, grouped_nil]
      refine ⟨_, .operand (level ▸ loose) captured x, whole, ?_⟩
      constructor
      · intro same
        injection same with _ _ right
        exact absurd right (ne_binary_self op _ x)
      · intro tight
        omega

theorem test_parsed (isName : IsName name) (written : Written n text e tail)
    (operators : n ≤ 3 → tail ≠ []) :
    ∃ test, Parsed (name ++ ' ' :: '<' :: ' ' :: text) test ∧
      Captured (.name name) (grouped e tail) test ∧
      (test = .binary .less (.name name) (grouped e tail) ↔ 4 ≤ n) := by
  obtain ⟨ts, scanned, row⟩ := written.tokens
  obtain ⟨test, captured, reads, whole⟩ := captured_of_row name row operators
  refine ⟨test, ⟨_, ?_, reads⟩, captured, whole⟩
  have symbol := scan_operator .less text
  rw [scanned] at symbol
  rw [scan_divided _ (by decide) (scan_of_lex (lex_name isName)), scan_space]
  exact congrArg (both (some [.name name])) symbol

end Capture
end Code

open Code

/-! Code of values -/

/-- Code that is a row of operands at the level of its order; loose orders are those of
operators. -/
structure IsValueCode (text : String) (order : Order) : Prop where
  written : ∃ e tail, Written order.rank text.toList e tail ∧ (order.rank ≤ 3 → tail ≠ [])
  bounded : order.level < Order.assignment.level

structure IsOperand (min : Order) (text : String) : Prop where
  written : ∃ e tail, Written min.rank text.toList e tail

theorem Order.tight_iff (order : Order) :
    4 ≤ order.rank ↔ order.level < Order.relational.level := by
  have cases := order.rank_cases
  have level : Order.relational.level = 80 := rfl
  omega

namespace IsValueCode

variable {text left right : String} {order : Order}

theorem tight {e : Expr} {tail : List (BinaryOp × Expr)} (tight : 4 ≤ order.rank)
    (written : Written order.rank text.toList e tail) : IsValueCode text order := by
  refine ⟨⟨e, tail, written, fun loose => by omega⟩, ?_⟩
  exact Nat.lt_trans (order.tight_iff.mp tight) (by decide)

theorem joined {op : BinaryOp} (symbol : String) (one : IsOperand order left)
    (two : IsOperand order right) (spelling : symbol.toList = ' ' :: (op.symbol ++ [' ']))
    (level : op.level = order.rank) (bounded : order.level < Order.assignment.level) :
    IsValueCode (left ++ symbol ++ right) order := by
  obtain ⟨a, front, writtenLeft⟩ := one.written
  obtain ⟨b, back, writtenRight⟩ := two.written
  have whole := writtenLeft.binary level writtenRight
  refine ⟨⟨a, front ++ (op, b) :: back, ?_, by simp⟩, bounded⟩
  simpa [spelling] using whole

theorem isOperand (code : IsValueCode text order) (min : Order) :
    IsOperand min (Operand.ofExpression min text order).wrapped := by
  obtain ⟨e, tail, written, _⟩ := code.written
  cases parens : min.needsParens order with
  | true =>
    have group := Written.group written.parsed min.rank_le
    have spelling : (Operand.ofExpression min text order).wrapped.toList =
        '(' :: (text.toList ++ [')']) := by
      simp [Operand.ofExpression, Operand.wrapped, parens]
    exact ⟨_, _, spelling ▸ group⟩
  | false =>
    have le := Order.rank_of_needsParens parens
    have bare : (Operand.ofExpression min text order).wrapped = text := by
      simp [Operand.ofExpression, Operand.wrapped, parens]
    rw [bare]
    by_cases same : min.rank = order.rank
    · exact ⟨e, tail, same ▸ written⟩
    · exact ⟨_, _, written.tighter (Nat.lt_of_le_of_ne le same)⟩

theorem ne_empty (code : IsValueCode text order) : text ≠ "" := by
  rintro rfl
  obtain ⟨e, tail, written, _⟩ := code.written
  obtain ⟨c, rest, same, _⟩ := written.starts
  cases same

/-- No value needs parentheses on the right of an assignment. -/
theorem unwrapped (code : IsValueCode text order) :
    (Operand.ofExpression .assignment text order).wrapped = text := by
  simp [Operand.ofExpression, Operand.wrapped, Order.needsParens, code.bounded]

end IsValueCode

/-! Scripts that give values -/

/-- The script asks for values only. Relying on each to be an operand of the order asked for, and on
the names of the session, it keeps the names allocated and gives a result with the property. -/
def Script.Supplies {α : Type} (P : α → Prop) : Script α → Prop
  | .done a => P a
  | .value _ min fallback next =>
    IsOperand min (Operand.ofFallback fallback).wrapped ∧ ∀ o, IsOperand min o.wrapped →
      (next o).Supplies P
  | .body _ _ => False
  | .read next => ∀ s, s.names.Allocated → (next s).Supplies P
  | .write s next => s.names.Allocated ∧ next.Supplies P

inductive IsValue : Emission → Prop where
  | code {text : String} {order : Order} (code : IsValueCode text order) :
      IsValue (.expression text order)

structure Rule.SuppliesValue (rule : Rule) (site : Site) : Prop where
  script : (rule site).Supplies IsValue

structure IsPin (pin : String) : Prop where
  expression : pin ≠ "" → ∃ e, Parsed pin.toList e

namespace Rules

variable {site : Site}

theorem markUsed_names (s : Session) (r : Resource) : (s.markUsed r).names = s.names := by
  unfold Session.markUsed
  split <;> rfl

theorem supplies_use {r : Resource} {text : String} {order : Order}
    (code : IsValueCode text order) :
    (Script.bind (Script.use r) fun _ => Script.done (Emission.expression text order)).Supplies
      IsValue := by
  intro s held
  rw [← markUsed_names s r] at held
  exact ⟨held, .code code⟩

theorem isValueCode_word {word : String} (isName : IsName word.toList) : IsValueCode word .atomic :=
  .tight (by decide) (.of_spelled (spelled_name isName (by decide)))

theorem isValueCode_pinCall (callee : String) {pin : String} (isName : IsName callee.toList)
    (isPin : IsPin pin) : IsValueCode (callee ++ "(" ++ pin ++ ")") .functionCall := by
  by_cases empty : pin = ""
  · subst empty
    have call : Spelled Order.functionCall.rank _ _ [] := spelled_call isName (by decide)
    exact .tight (by decide) (.of_spelled (by simpa using call))
  · obtain ⟨e, parsed⟩ := isPin.expression empty
    have call : Written Order.functionCall.rank _ _ [] := .call_one isName (by decide) parsed
    exact .tight (by decide) (by simpa using call)

theorem isValueCode_readCall {pin : String} (isPin : IsPin pin) :
    IsValueCode (readCall pin) .functionCall :=
  isValueCode_pinCall "digitalRead" (by decide) isPin

theorem isValueCode_negation {text : String} (operand : IsOperand .logicalNot text) :
    IsValueCode ("!" ++ text) .logicalNot := by
  obtain ⟨e, tail, written⟩ := operand.written
  exact .tight (by decide) (by simpa using written.negation)

theorem isOperand_spelled {min : Order} {text : String} {e : Expr}
    (spelled : ∀ {n : Nat}, n ≤ 7 → Spelled n text.toList e []) : IsOperand min text :=
  ⟨e, [], .of_spelled (spelled min.rank_le)⟩

theorem digitalRead_supplies (isPin : IsPin (site.field "PIN")) :
    Rule.SuppliesValue digitalRead site :=
  ⟨supplies_use (isValueCode_readCall isPin)⟩

theorem analogRead_supplies (isPin : IsPin (site.field "PIN")) :
    Rule.SuppliesValue analogRead site :=
  ⟨.code (isValueCode_pinCall "analogRead" (by decide) isPin)⟩

theorem buttonRead_supplies (isPin : IsPin (site.field "PIN")) :
    Rule.SuppliesValue buttonRead site := by
  have read := isValueCode_readCall isPin
  constructor
  unfold buttonRead
  cases site.options.buttons with
  | raw => exact supplies_use read
  | activeLow => exact supplies_use (isValueCode_negation (read.isOperand .logicalNot))

theorem highLow_supplies : Rule.SuppliesValue highLow site := by
  refine ⟨.code (isValueCode_word ?_)⟩
  split <;> decide

theorem millis_supplies : Rule.SuppliesValue millis site := by
  have isName : IsName "millis".toList := by decide
  exact ⟨.code (.tight (by decide) (.of_spelled (spelled_call isName (by decide))))⟩

theorem serialInput_supplies {method : String} (listed : method = "available" ∨ method = "read") :
    Rule.SuppliesValue (serialInput method) site := by
  have call := Reads.call (Reads.name ("Serial." ++ method).toList)
  refine ⟨supplies_use (.tight (by decide) (.primary (by decide) ?_ ?_ call))⟩
  · exact ⟨'S', ("erial." ++ method ++ "()").toList, by simp, by decide⟩
  · rcases listed with rfl | rfl <;> decide +kernel

theorem compare_supplies : Rule.SuppliesValue compare site := by
  obtain ⟨symbol, level⟩ := ValueTree.comparison_symbol (site.field "OP")
  have bounded : (comparison (site.field "OP")).2.level < Order.assignment.level := by
    unfold comparison
    split <;> decide
  refine ⟨isOperand_spelled zero_spelled, fun a left =>
    ⟨isOperand_spelled zero_spelled, fun b right => .code ?_⟩⟩
  have whole := IsValueCode.joined (" " ++ (comparison (site.field "OP")).1 ++ " ") left right
    (by simp [symbol]) level bounded
  simp only [String.append_assoc] at whole ⊢
  exact whole

theorem logicOperation_supplies : Rule.SuppliesValue logicOperation site := by
  obtain ⟨symbol, level⟩ := ValueTree.logic_symbol (site.field "OP")
  have bounded : (if site.field "OP" = "OR" then Order.logicalOr else Order.logicalAnd).level <
      Order.assignment.level := by
    split <;> decide
  refine ⟨isOperand_spelled false_spelled, fun a left =>
    ⟨isOperand_spelled false_spelled, fun b right => ?_⟩⟩
  change Script.Supplies IsValue (if a.fallback && b.fallback then _ else _)
  split
  · refine .code (isValueCode_word ?_)
    split <;> decide
  · exact .code (.joined _ left right symbol level bounded)

theorem logicBoolean_supplies : Rule.SuppliesValue logicBoolean site := by
  refine ⟨.code (isValueCode_word ?_)⟩
  split <;> decide

theorem negate_supplies : Rule.SuppliesValue negate site :=
  ⟨isOperand_spelled true_spelled, fun _ operand => .code (isValueCode_negation operand)⟩

theorem mathNumber_supplies : Rule.SuppliesValue mathNumber site := by
  have code :
      IsValueCode (numberLiteral (site.field "NUM")).1 (numberLiteral (site.field "NUM")).2 := by
    refine .tight ?_ (.of_spelled (numberLiteral_spelled (site.field "NUM")))
    unfold numberLiteral
    split
    · dsimp only
      split <;> decide
    · decide
  constructor
  unfold mathNumber
  generalize numberLiteral (site.field "NUM") = literal at code
  exact .code code

theorem arithmetic_supplies : Rule.SuppliesValue arithmetic site := by
  constructor
  unfold arithmetic
  cases given : arithmeticOp? (site.field "OP") with
  | some op =>
    obtain ⟨symbol, found, spelling, level⟩ := ValueTree.arithmetic_symbol given
    have tight : 4 ≤ op.level := by
      unfold arithmeticOp? at given
      split at given <;> cases given <;> decide
    generalize arithmeticOperator (site.field "OP") = operator at found level
    obtain ⟨_, order⟩ := operator
    cases found
    have bounded : order.level < Order.assignment.level :=
      Nat.lt_trans (order.tight_iff.mp (level ▸ tight)) (by decide)
    refine ⟨isOperand_spelled zero_spelled, fun a left =>
      ⟨isOperand_spelled zero_spelled, fun b right => ?_⟩⟩
    exact .code (.joined symbol left right spelling level bounded)
  | none =>
    have found := ValueTree.power_symbol given
    generalize arithmeticOperator (site.field "OP") = operator at found
    obtain ⟨_, order⟩ := operator
    cases found
    refine ⟨isOperand_spelled zero_spelled, fun a left =>
      ⟨isOperand_spelled zero_spelled, fun b right => ?_⟩⟩
    obtain ⟨x, front, writtenLeft⟩ := left.written
    obtain ⟨y, back, writtenRight⟩ := right.written
    have isName : IsName "pow".toList := by decide
    have call : Written Order.functionCall.rank _ _ [] :=
      .call_two isName (by decide) writtenLeft.parsed writtenRight.parsed
    exact .code (.tight (by decide) (by simpa using call))

theorem getVariable_supplies : Rule.SuppliesValue getVariable site := by
  constructor
  intro s held
  have allocated := NameTable.Allocated.get held (site.field "VAR")
  refine ⟨allocated, .code (isValueCode_word ?_)⟩
  exact (NameTable.sound_of_allocated allocated).names _
    (NameTable.mem_of_lookup (NameTable.lookup_get s.names (site.field "VAR")))

theorem textLiteral_supplies : Rule.SuppliesValue textLiteral site :=
  ⟨.code (.tight (by decide) (.quote _ (by decide)))⟩

def valueEntries : List (String × Rule) :=
  [("esp32_digital_read", digitalRead), ("esp32_analog_read", analogRead),
    ("esp32_button_read", buttonRead), ("esp32_high_low", highLow), ("esp32_millis", millis),
    ("esp32_serial_available", serialInput "available"), ("esp32_serial_read", serialInput "read"),
    ("logic_compare", compare), ("logic_operation", logicOperation),
    ("logic_boolean", logicBoolean), ("logic_negate", negate), ("math_number", mathNumber),
    ("math_arithmetic", arithmetic), ("variables_get", getVariable), ("text", textLiteral)]

def pinReaders : List String := ["esp32_digital_read", "esp32_analog_read", "esp32_button_read"]

theorem valueEntries_subset : valueEntries ⊆ entries := by
  simp only [valueEntries, entries, List.cons_subset, List.nil_subset, List.mem_cons, true_or,
    or_true, and_true]

theorem supplies_of_entry {kind : String} {rule : Rule} (entry : (kind, rule) ∈ valueEntries)
    (pin : kind ∈ pinReaders → IsPin (site.field "PIN")) : rule.SuppliesValue site := by
  simp only [valueEntries, List.mem_cons, Prod.mk.injEq, List.not_mem_nil, or_false] at entry
  rcases entry with
    ⟨rfl, rfl⟩ | ⟨rfl, rfl⟩ | ⟨rfl, rfl⟩ | ⟨_, rfl⟩ | ⟨_, rfl⟩ | ⟨_, rfl⟩ | ⟨_, rfl⟩ |
    ⟨_, rfl⟩ | ⟨_, rfl⟩ | ⟨_, rfl⟩ | ⟨_, rfl⟩ | ⟨_, rfl⟩ | ⟨_, rfl⟩ | ⟨_, rfl⟩ | ⟨_, rfl⟩
  · exact digitalRead_supplies (pin (by decide))
  · exact analogRead_supplies (pin (by decide))
  · exact buttonRead_supplies (pin (by decide))
  · exact highLow_supplies
  · exact millis_supplies
  · exact serialInput_supplies (Or.inl rfl)
  · exact serialInput_supplies (Or.inr rfl)
  · exact compare_supplies
  · exact logicOperation_supplies
  · exact logicBoolean_supplies
  · exact negate_supplies
  · exact mathNumber_supplies
  · exact arithmetic_supplies
  · exact getVariable_supplies
  · exact textLiteral_supplies

end Rules

/-! Trees of value blocks -/

def Esp32.suppliesValue (kind : String) : Bool :=
  Esp32.shapes.any fun s => s.kind = kind && s.output.isSome

theorem valueEntry_of_kind {kind : String} (value : Esp32.suppliesValue kind = true)
    (coded : kind ≠ "esp32_text_raw") : ∃ rule, (kind, rule) ∈ Rules.valueEntries := by
  have listed : ∀ s ∈ Esp32.shapes, s.output.isSome = true →
      s.kind = "esp32_text_raw" ∨ s.kind ∈ Rules.valueEntries.map Prod.fst := by decide +kernel
  obtain ⟨s, member, here⟩ := List.any_eq_true.mp value
  simp only [Bool.and_eq_true, decide_eq_true_eq] at here
  obtain ⟨rfl, output⟩ := here
  obtain ⟨⟨_, rule⟩, entry, rfl⟩ := List.mem_map.mp ((listed s member output).resolve_left coded)
  exact ⟨rule, entry⟩

/-- A slot holds a tree of value blocks, none of them raw text, with expressions for pins. Disabled
blocks count as nothing. -/
inductive Workspace.ValueOnly (w : Workspace) : Option BlockId → Prop where
  | vacant : ValueOnly w none
  | disabled {id : BlockId} (off : ∀ b, w.get? id = some b → b.disabled = true) :
      ValueOnly w (some id)
  | block {id : BlockId} {b : Block} (found : w.get? id = some b)
      (value : Esp32.suppliesValue b.kind = true) (coded : b.kind ≠ "esp32_text_raw")
      (pin : b.kind ∈ Rules.pinReaders → IsPin (b.fieldText "PIN"))
      (sockets : ∀ socket, ValueOnly w (b.values.get? socket)) : ValueOnly w (some id)

namespace Generator

variable {g : Generator} {b : Block} {slot : Option BlockId}

structure Given (g : Generator) (slot : Option BlockId) (r : Run) (found : Option (String × Order))
    (r' : Run) : Prop where
  emitted : g.emitAt slot r = (ValueTree.emission found, r')
  allocated : r'.session.names.Allocated
  codes : ∀ c, found = some c → IsValueCode c.1 c.2
  nothing : found = none ↔ slot.bind g.enabled? = none

def Valued (g : Generator) (slot : Option BlockId) : Prop :=
  ∀ r : Run, r.session.names.Allocated → ∃ found r', g.Given slot r found r'

theorem Given.resolve {socket : String} {r r' : Run} {found : Option (String × Order)}
    (given : g.Given (b.values.get? socket) r found r') (min : Order) (fallback : String) :
    g.resolve g.emit b socket min fallback r = (ValueTree.operand min fallback found, r') :=
  resolve_slot min fallback given.emitted fun c here => (given.codes c here).ne_empty

theorem perform_supplies (below : ∀ socket, g.Valued (b.values.get? socket)) {α : Type}
    {P : α → Prop} {script : Script α} (supplies : script.Supplies P) {r : Run}
    (held : r.session.names.Allocated) :
    P (g.perform g.emit b script r).1 ∧
      (g.perform g.emit b script r).2.session.names.Allocated := by
  induction script generalizing r with
  | done a => exact ⟨supplies, held⟩
  | value socket min fallback next ih =>
    obtain ⟨found, r', given⟩ := below socket r held
    have operand : IsOperand min (ValueTree.operand min fallback found).wrapped := by
      cases found with
      | none => exact supplies.1
      | some c => exact (given.codes c rfl).isOperand min
    simp only [perform, given.resolve min fallback]
    exact ih _ (supplies.2 _ operand) given.allocated
  | body socket next ih => exact supplies.elim
  | read next ih => exact ih r.session (supplies _ held) held
  | write s next ih => exact ih supplies.2 supplies.1

theorem valued_nothing (emitted : ∀ r, g.emitAt slot r = (.empty, r))
    (off : slot.bind g.enabled? = none) : g.Valued slot := by
  intro r held
  refine ⟨none, r, emitted r, held, ?_, by simp [off]⟩
  intro c here
  cases here

theorem valued_disabled {id : BlockId} (off : g.enabled? id = none) : g.Valued (some id) :=
  valued_nothing (fun r => emit_none off r) off

theorem valued_block (forest : g.workspace.Forest) (rules : g.rules = Rules.esp32) {id : BlockId}
    (found : g.workspace.get? id = some b) (value : Esp32.suppliesValue b.kind = true)
    (coded : b.kind ≠ "esp32_text_raw")
    (pin : b.kind ∈ Rules.pinReaders → IsPin (b.fieldText "PIN"))
    (below : ∀ socket, g.Valued (b.values.get? socket)) : g.Valued (some id) := by
  cases disabled : b.disabled with
  | true => exact valued_disabled (enabled_none (by simp [found, disabled]))
  | false =>
    intro r held
    have on : g.enabled? id = some b := enabled_iff.mpr ⟨found, disabled⟩
    obtain ⟨rule, entry⟩ := valueEntry_of_kind value coded
    have known : g.rules.get? b.kind = some rule := by
      rw [rules]
      exact Rules.esp32_get (Rules.valueEntries_subset entry)
    have supplies : rule.SuppliesValue ⟨g.workspace, g.options, b⟩ :=
      Rules.supplies_of_entry entry pin
    obtain ⟨given, after⟩ := perform_supplies below supplies.script (r := r.dispatch b.id) held
    have own : g.own g.emit b r =
        g.perform g.emit b (rule ⟨g.workspace, g.options, b⟩) (r.dispatch b.id) := by
      unfold Generator.own
      rw [known]
    generalize g.perform g.emit b (rule ⟨g.workspace, g.options, b⟩) (r.dispatch b.id) =
      result at given after own
    obtain ⟨e, r'⟩ := result
    cases given with
    | @code text order code =>
      refine ⟨some (text, order), r', emit_of_expression forest on own, after, ?_, by simp [on]⟩
      intro c same
      cases same
      exact code

theorem valued_of_valueOnly (forest : g.workspace.Forest) (rules : g.rules = Rules.esp32)
    (tree : g.workspace.ValueOnly slot) : g.Valued slot := by
  induction tree with
  | vacant => exact valued_nothing (fun r => rfl) rfl
  | disabled off => exact valued_disabled (enabled_none off)
  | block found value coded pin _ ih => exact valued_block forest rules found value coded pin ih

/-! The loop -/

def loopText (counter test body : String) : String :=
  "for (int " ++ counter ++ " = 0; " ++ test ++ "; " ++ counter ++ "++) \x7b\n" ++ body ++ "\x7d\n"

theorem loopText_less (counter bound body : String) :
    loopText counter (counter ++ " < " ++ bound) body =
      "for (int " ++ counter ++ " = 0; " ++ counter ++ " < " ++ bound ++ "; " ++ counter ++
        "++) \x7b\n" ++ body ++ "\x7d\n" := by
  delta loopText
  simp only [String.append_assoc]

theorem own_repeatTimes (rules : g.rules = Rules.esp32) (kind : b.kind = "controls_repeat_ext")
    {r r' : Run} {o : Operand}
    (bound : g.resolve g.emit b "TIMES" .assignment "0" (r.dispatch b.id) = (o, r')) :
    ∃ counter body r'', IsName counter.toList ∧
      g.own g.emit b r =
        (.statement (loopText counter (counter ++ " < " ++ o.wrapped) body), r'') := by
  have known : g.rules.get? b.kind = some Rules.repeatTimes := by
    rw [rules, kind]
    exact Rules.esp32_get (by simp [Rules.entries])
  have own : g.own g.emit b r = g.perform g.emit b (Rules.countedLoop o.wrapped) r' := by
    unfold Generator.own
    rw [known]
    change g.perform g.emit b (Rules.countedLoop
      (g.resolve g.emit b "TIMES" .assignment "0" _).1.wrapped)
      (g.resolve g.emit b "TIMES" .assignment "0" _).2 = _
    rw [bound]
  let counted : Run := { r' with session := (r'.session.distinct "count").2 }
  refine ⟨(r'.session.distinct "count").1, Layout.indent (bodyOf g.emit b "DO" counted).1,
    (bodyOf g.emit b "DO" counted).2, Identifier.safeName_isName "count" _ _, ?_⟩
  rw [own, loopText_less]
  rfl

/-- Whatever value blocks are plugged into the bound of a counted loop: the bound stands in the test
as it is, without parentheses. It is compared as a whole exactly if it binds tighter than a
comparison; otherwise the counter is compared with its leftmost operand only. -/
theorem loop_test_captures_loose_bounds (history : List Workspace.Operation) (options : Options)
    (b : Block)
    (r : Run) :
    let g : Generator := ⟨.afterAll history, Rules.esp32, options⟩
    b.kind = "controls_repeat_ext" → g.workspace.ValueOnly (b.values.get? "TIMES") →
    r.session.names.Allocated →
    ∃ found r' counter body r'' e test,
      g.emitAt (b.values.get? "TIMES") (r.dispatch b.id) = (ValueTree.emission found, r') ∧
      (found = none ↔ (b.values.get? "TIMES").bind g.enabled? = none) ∧
      let bound := found.getD ("0", .atomic)
      g.own g.emit b r = (.statement (loopText counter (counter ++ " < " ++ bound.1) body), r'') ∧
      Code.readExpression bound.1 = some e ∧
      Code.readExpression (counter ++ " < " ++ bound.1) = some test ∧
      Code.Captured (.name counter.toList) e test ∧
      (test = .binary .less (.name counter.toList) e ↔ bound.2.level < Order.relational.level) := by
  intro g kind tree allocated
  have forest : g.workspace.Forest := Workspace.forest_afterAll history
  have rules : g.rules = Rules.esp32 := rfl
  obtain ⟨found, r', given⟩ := valued_of_valueOnly forest rules tree (r.dispatch b.id) allocated
  obtain ⟨counter, body, r'', isName, own⟩ :=
    own_repeatTimes rules kind (given.resolve .assignment "0")
  obtain ⟨code, bare⟩ : IsValueCode (found.getD ("0", .atomic)).1 (found.getD ("0", .atomic)).2 ∧
      (ValueTree.operand .assignment "0" found).wrapped = (found.getD ("0", .atomic)).1 := by
    cases found with
    | none => exact ⟨.tight (by decide) (.of_spelled (zero_spelled (by decide))), rfl⟩
    | some c => exact ⟨given.codes c rfl, (given.codes c rfl).unwrapped⟩
  obtain ⟨e, tail, written, operators⟩ := code.written
  obtain ⟨test, parsed, captured, whole⟩ := Code.test_parsed isName written operators
  have text : (counter ++ " < " ++ (found.getD ("0", .atomic)).1).toList =
      counter.toList ++ ' ' :: '<' :: ' ' :: (found.getD ("0", .atomic)).1.toList := by simp
  rw [bare] at own
  refine ⟨found, r', counter, body, r'', _, test, given.emitted, given.nothing, own,
    Code.readExpression_parsed written.parsed, Code.readExpression_parsed (text ▸ parsed),
    captured, ?_⟩
  rw [whole, Order.tight_iff]

def comparedBound : List Workspace.Operation :=
  [.add (BlockContent.new "controls_repeat_ext"),
    .add ((BlockContent.new "logic_compare").setField "OP" (.text "LT")),
    .add ((BlockContent.new "math_number").setField "NUM" (.text "1")),
    .add ((BlockContent.new "math_number").setField "NUM" (.text "2")),
    .connect 0 (.value "TIMES") 1, .connect 1 (.value "A") 2, .connect 1 (.value "B") 3]

theorem comparedBound_number {id : BlockId} (number : id = 2 ∨ id = 3) :
    (Workspace.afterAll comparedBound).ValueOnly (some id) := by
  obtain ⟨b, found, kind, values⟩ : ∃ b, (Workspace.afterAll comparedBound).get? id = some b ∧
      b.kind = "math_number" ∧ b.values = ∅ := by
    rcases number with rfl | rfl <;> exact ⟨_, rfl, rfl, rfl⟩
  refine .block found (kind ▸ by decide +kernel) (kind ▸ by decide) ?_ ?_
  · rw [kind]
    exact fun listed => absurd listed (by decide)
  · intro socket
    rw [values]
    exact .vacant

theorem comparedBound_tree : (Workspace.afterAll comparedBound).ValueOnly (some 1) := by
  obtain ⟨b, found, kind, values⟩ : ∃ b, (Workspace.afterAll comparedBound).get? 1 = some b ∧
      b.kind = "logic_compare" ∧ b.values = .ofList [("A", 2), ("B", 3)] := ⟨_, rfl, rfl, rfl⟩
  refine .block found (kind ▸ by decide +kernel) (kind ▸ by decide) ?_ ?_
  · rw [kind]
    exact fun listed => absurd listed (by decide)
  · intro socket
    rw [values]
    cases held : (SortedMap.ofList [("A", 2), ("B", 3)]).get? socket with
    | none => exact .vacant
    | some child =>
      have listed := SortedMap.mem_of_get?_ofList held
      simp only [List.mem_cons, Prod.mk.injEq, List.not_mem_nil, or_false] at listed
      exact comparedBound_number (listed.imp And.right And.right)

theorem comparedBound_order (g : Generator) (workspace : g.workspace = .afterAll comparedBound)
    (rules : g.rules = Rules.esp32) (r : Run) :
    ∃ text r', g.emit 1 r = (.expression text .relational, r') := by
  have forest : g.workspace.Forest := workspace ▸ Workspace.forest_afterAll comparedBound
  obtain ⟨b, on, kind, op⟩ : ∃ b, g.enabled? 1 = some b ∧ b.kind = "logic_compare" ∧
      b.fieldText "OP" = "LT" :=
    ⟨_, enabled_iff.mpr ⟨by rw [workspace]; rfl, rfl⟩, rfl, rfl⟩
  have known : g.rules.get? b.kind = some Rules.compare := by
    rw [rules, kind]
    exact Rules.esp32_get (by simp [Rules.entries])
  have own : ∃ text r', g.own g.emit b r =
      (.expression text (Rules.comparison (b.fieldText "OP")).2, r') := by
    unfold Generator.own
    rw [known]
    exact ⟨_, _, rfl⟩
  obtain ⟨text, r', own⟩ := own
  rw [op] at own
  exact ⟨text, r', emit_of_expression forest on own⟩

/-- A loop over `1 < 2` counts while the outcome of comparing the counter with `1` is below `2`. -/
theorem comparison_as_bound_is_captured :
    let g : Generator := ⟨.afterAll comparedBound, Rules.esp32, .default⟩
    ∃ b, g.workspace.get? 0 = some b ∧ b.kind = "controls_repeat_ext" ∧
      g.workspace.ValueOnly (b.values.get? "TIMES") ∧ Run.new.session.names.Allocated ∧
      ∃ bound order r' counter body r'' e test,
        g.emitAt (b.values.get? "TIMES") (Run.new.dispatch b.id) = (.expression bound order, r') ∧
        g.own g.emit b .new =
          (.statement (loopText counter (counter ++ " < " ++ bound) body), r'') ∧
        Code.readExpression bound = some e ∧
          Code.readExpression (counter ++ " < " ++ bound) = some test ∧
        Code.Captured (.name counter.toList) e test ∧
          test ≠ .binary .less (.name counter.toList) e := by
  intro g
  obtain ⟨b, found, kind, socket⟩ : ∃ b, g.workspace.get? 0 = some b ∧
      b.kind = "controls_repeat_ext" ∧
      b.values.get? "TIMES" = some 1 := ⟨_, rfl, rfl, rfl⟩
  have tree : g.workspace.ValueOnly (b.values.get? "TIMES") := socket ▸ comparedBound_tree
  have allocated : Run.new.session.names.Allocated := .default
  refine ⟨b, found, kind, tree, allocated, ?_⟩
  obtain ⟨found, r', counter, body, r'', e, test, emitted, _, own, bound, read, captured, whole⟩ :=
    loop_test_captures_loose_bounds comparedBound .default b .new kind tree allocated
  obtain ⟨text, after, compared⟩ := comparedBound_order g rfl rfl (Run.new.dispatch b.id)
  have same : (ValueTree.emission found, r') = (.expression text .relational, after) := by
    rw [← emitted, socket]
    exact compared
  cases found with
  | none => cases same
  | some c =>
    obtain ⟨code, order⟩ := c
    cases same
    exact ⟨_, _, _, counter, body, r'', e, test, emitted, own, bound, read, captured,
      fun equal => absurd (whole.mp equal) (Nat.lt_irrefl _)⟩

example : Code.readExpression "count < 1 < 2" =
    some (.binary .less (.binary .less (.name "count".toList) (.numeral ['1']))
      (.numeral ['2'])) := by
  decide +kernel

end Generator
end BlockSketch
