import BlockSketch.Proofs.Sketch.Reading

/-
Logic blocks come back from their code. The expression that is read has the operators, operands and
leaves of the blocks, except that a row of equal connectives is read from the left however the
blocks group it.
-/
namespace BlockSketch
open Code

/-- Expressions that differ only in how rows of one connective are grouped. -/
inductive Regrouped : Expr → Expr → Prop where
  | refl (e : Expr) : Regrouped e e
  | symm {a b : Expr} (same : Regrouped a b) : Regrouped b a
  | trans {a b c : Expr} (first : Regrouped a b) (second : Regrouped b c) : Regrouped a c
  | unary (op : UnaryOp) {x y : Expr} (inner : Regrouped x y) :
      Regrouped (.unary op x) (.unary op y)
  | binary (op : BinaryOp) {a b x y : Expr} (left : Regrouped a x) (right : Regrouped b y) :
      Regrouped (.binary op a b) (.binary op x y)
  | rotate {op : BinaryOp} (connective : op = .and ∨ op = .or) (a b c : Expr) :
      Regrouped (.binary op (.binary op a b) c) (.binary op a (.binary op b c))

theorem regrouped_tail {a b : Expr} (same : Regrouped a b) (tail : List (BinaryOp × Expr)) :
    Regrouped (grouped a tail) (grouped b tail) := by
  induction tail generalizing a b with
  | nil => exact same
  | cons p rest ih => exact ih (.binary p.1 same (.refl p.2))

/-- An operand before a row of one connective can stand outside of it. -/
theorem regrouped_grouped {op : BinaryOp} (connective : op = .and ∨ op = .or) (x e : Expr)
    {tail : List (BinaryOp × Expr)} (same : ∀ p ∈ tail, p.1 = op) :
    Regrouped (grouped (.binary op x e) tail) (.binary op x (grouped e tail)) := by
  induction tail generalizing e with
  | nil => exact .refl _
  | cons p rest ih =>
    obtain ⟨other, y⟩ := p
    obtain rfl : other = op := same (other, y) (by simp)
    have inner := ih (.binary other e y) fun q member => same q (by simp [member])
    -- Rotate the first two operators, then move on along the row.
    have rotated : Regrouped (grouped (.binary other (.binary other x e) y) rest)
        (grouped (.binary other x (.binary other e y)) rest) :=
          regrouped_tail (.rotate connective x e y) rest
    exact rotated.trans inner

namespace ValueTree
open OperandRow

def IsLogic : ValueTree → Prop
  | digitalRead pin | buttonRead pin => ∀ c ∈ pin.toList, c.isDigit = true
  | negate x => x.IsLogic
  | compare _ a b | logic _ a b => a.IsLogic ∧ b.IsLogic
  | arithmetic _ _ _ => False
  | _ => True

theorem digitPins_of_isLogic {t : ValueTree} (isLogic : t.IsLogic) : t.DigitPins := by
  induction t with
  | negate x ih => exact ih isLogic
  | compare op a b ihLeft ihRight | logic op a b ihLeft ihRight =>
    exact ⟨ihLeft isLogic.1, ihRight isLogic.2⟩
  | arithmetic => exact isLogic.elim
  | digitalRead pin | buttonRead pin => exact isLogic
  | _ => trivial

/-- The expression that a socket with the tree stands for. An empty one stands for its fallback, and
a connective without operands for a constant. -/
def socketExpr (names : String → String) (options : Options) (fallback : Expr) : ValueTree → Expr
  | empty => fallback
  | number raw => literalExpr (Rules.numberLiteral raw).1.toList
  | boolean raw => if raw = "TRUE" then trueExpr else falseExpr
  | named user => .name (names user).toList
  | level state => .name (if state = "LOW" then "LOW" else "HIGH").toList
  | millis => .call (.name "millis".toList)
  | digitalRead pin => readExpr pin
  | buttonRead pin => match options.buttons with
    | .raw => readExpr pin
    | .activeLow => .unary .not (readExpr pin)
  | negate x => .unary .not (x.socketExpr names options trueExpr)
  | compare op a b =>
    .binary (comparisonOp op) (a.socketExpr names options zeroExpr)
      (b.socketExpr names options zeroExpr)
  | logic op a b =>
    if a = .empty ∧ b = .empty then (if op = "OR" then trueExpr else falseExpr)
    else .binary (logicOp op) (a.socketExpr names options falseExpr)
      (b.socketExpr names options falseExpr)
  | arithmetic op a b =>
    let left := a.socketExpr names options zeroExpr
    let right := b.socketExpr names options zeroExpr
    match arithmeticOp? op with
    | some binary => .binary binary left right
    | none => .argument (.argument (.call (.name "pow".toList)) left) right

theorem comparison_needsParens (op : String) {inner : Order}
    (same : (Rules.comparison op).2.rank = inner.rank) :
    (Rules.comparison op).2.needsParens inner = true := by
  have outer : (Rules.comparison op).2 = .equality ∨ (Rules.comparison op).2 = .relational := by
    unfold Rules.comparison
    split <;> simp
  refine Order.needsParens_of_le (Order.le_of_rank outer same) ?_ ?_
  · rcases outer with equality | relational
    · rw [equality]
      decide
    · rw [relational]
      decide
  · rcases outer with equality | relational
    · rw [equality]
      decide
    · rw [relational]
      decide

section Reading

variable {names : String → String} {options : Options}

theorem comparison_operand (op : String) (literal : Expr) (found : Option (String × Order))
    (row : OperandRow) :
    asOperand (Rules.comparison op).2 literal found row =
      ((asOperand (Rules.comparison op).2 literal found row).whole, []) := by
  cases found with
  | none => rfl
  | some c =>
    have single : ((Rules.comparison op).2.needsParens c.2 ||
        decide ((Rules.comparison op).2.rank ≠ c.2.rank)) = true := by
      by_cases same : (Rules.comparison op).2.rank = c.2.rank
      · simp [comparison_needsParens op same]
      · simp [same]
    simp only [asOperand, single, if_true]
    rfl

theorem connective_of_level {op other : BinaryOp} (connective : op = .and ∨ op = .or)
    (same : other.level = op.level) : other = op := by
  rcases connective with rfl | rfl <;> cases other <;> simp [BinaryOp.level] at same ⊢

theorem row_levels {n : Nat} {ts : List Token} {e : Expr} {tail : List (BinaryOp × Expr)}
    (row : Row n ts e tail) : ∀ p ∈ tail, p.1.level = n := by
  induction row with
  | single => simp
  | more _ level _ ih =>
    intro p member
    rcases List.mem_append.mp member with front | last
    · exact ih p front
    · rw [List.mem_singleton.mp last]
      exact level

theorem regrouped_join {op : BinaryOp} {text : List Char} {left right : OperandRow}
    (connective : op = .and ∨ op = .or) (spelled : Spelled op.level text right.1 right.2) :
    Regrouped (join op left right).whole (.binary op left.whole right.whole) := by
  obtain ⟨ts, _, row⟩ := spelled.tokens
  rw [whole_join]
  exact regrouped_grouped connective left.whole right.1 fun p member =>
    connective_of_level connective (row_levels row p member)

theorem regrouped_operand {t : ValueTree} (min : Order) (literal : Expr)
    (inner : t ≠ .empty →
      Regrouped (t.row names options).whole (t.socketExpr names options literal)) :
    Regrouped (asOperand min literal (t.code names options) (t.row names options)).whole
      (t.socketExpr names options literal) := by
  by_cases absent : t = .empty
  · subst absent
    exact .refl literal
  · rw [whole_asOperand min literal absent]
    exact inner absent

theorem regrouped_row (named : ∀ user, IsName (names user).toList) {t : ValueTree} (fallback : Expr)
    (isLogic : t.IsLogic) (present : t ≠ .empty) :
    Regrouped (t.row names options).whole (t.socketExpr names options fallback) := by
  induction t generalizing fallback with
  | empty => exact absurd rfl present
  | negate x ih =>
    exact .unary .not (regrouped_operand .logicalNot trueExpr fun inside =>
      ih trueExpr isLogic inside)
  | compare op a b ihLeft ihRight =>
    have left := regrouped_operand (Rules.comparison op).2 zeroExpr fun inside =>
      ihLeft zeroExpr isLogic.1 inside
    have right := regrouped_operand (Rules.comparison op).2 zeroExpr fun inside =>
      ihRight zeroExpr isLogic.2 inside
    simp only [row, whole_join]
    rw [comparison_operand op zeroExpr (b.code names options)]
    exact .binary (comparisonOp op) left right
  | logic op a b ihLeft ihRight =>
    by_cases neither : a = .empty ∧ b = .empty
    · simp only [row, socketExpr, if_pos neither]
      exact .refl _
    · have left := regrouped_operand (if op = "OR" then .logicalOr else .logicalAnd) falseExpr
        fun inside => ihLeft falseExpr isLogic.1 inside
      have right := regrouped_operand (if op = "OR" then .logicalOr else .logicalAnd) falseExpr
        fun inside => ihRight falseExpr isLogic.2 inside
      have connective : logicOp op = .and ∨ logicOp op = .or := by
        unfold logicOp
        split <;> simp
      have spelled := operand_spelled (if op = "OR" then .logicalOr else .logicalAnd) (by decide)
        (false_spelled (Order.rank_le _))
        (code_spelled options named (digitPins_of_isLogic isLogic.2))
      rw [← (logic_symbol op).2] at spelled
      rw [row_logic neither]
      simp only [socketExpr, if_neg neither]
      exact (regrouped_join connective spelled).trans (.binary (logicOp op) left right)
  | arithmetic => exact isLogic.elim
  | buttonRead pin =>
    simp only [row, socketExpr]
    cases options.buttons <;> exact .refl _
  | number raw | boolean raw | named user | level state | millis | digitalRead pin =>
    simp only [row, socketExpr, whole, grouped_nil]
    exact .refl _

end Reading

end ValueTree

open NameTable in
/-- The code of a tree of logic blocks is read back as that tree, up to the grouping of equal
connectives, and each identifier in it belongs to the variable that it stands for. -/
theorem logic_code_reads_back (g : Generator) (id : BlockId) (t : ValueTree) (r : Run)
    (rules : g.rules = Rules.esp32) (holds : g.workspace.Holds (some id) t) (present : t ≠ .empty)
    (isLogic : t.IsLogic) (allocated : r.session.names.Allocated) :
    ∃ text order r' e, g.emit id r = (.expression text order, r') ∧ Code.read text = some e ∧
      (∀ fallback, Regrouped e (t.socketExpr r'.session.names.naming g.options fallback)) ∧
      ∀ user ∈ t.users,
        r'.session.names.userOf? (r'.session.names.naming user).toList = some user := by
  obtain ⟨text, order, r', emitted, grown, read⟩ := g.emit_reads rules holds present
    (ValueTree.digitPins_of_isLogic isLogic) allocated
  have sound := sound_of_allocated grown.allocated
  refine ⟨text, order, r', _, emitted, read, fun fallback => ?_, fun user member => ?_⟩
  · exact ValueTree.regrouped_row (agrees_naming sound).isName fallback isLogic present
  · obtain ⟨name, found⟩ := grown.known user member
    rw [(agrees_naming sound).known user name found]
    exact userOf_lookup sound found

def alarmBlocks : Workspace where
  blocks := #[sampleBlock 0 "logic_operation" ("OP", "OR") [("A", 1), ("B", 3)],
    sampleBlock 1 "logic_negate" ("", "") [("BOOL", 2)],
    sampleBlock 2 "esp32_button_read" ("PIN", "4") [],
    sampleBlock 3 "logic_operation" ("OP", "AND") [("A", 4)],
    sampleBlock 4 "logic_compare" ("OP", "LT") [("A", 5), ("B", 6)],
    sampleBlock 5 "math_number" ("NUM", "-5") [],
    sampleBlock 6 "variables_get" ("VAR", "water level") []]

theorem alarmBlocks_hold : alarmBlocks.Holds (some 0)
    (.logic "OR" (.negate (.buttonRead "4"))
      (.logic "AND" (.compare "LT" (.number "-5") (.named "water level")) .empty)) := by
  have button : alarmBlocks.Holds (some 2) (.buttonRead "4") :=
    .buttonRead (live_sampleBlock ("PIN", "4") [] rfl)
  have number : alarmBlocks.Holds (some 5) (.number "-5") :=
    .number (live_sampleBlock ("NUM", "-5") [] rfl)
  have level : alarmBlocks.Holds (some 6) (.named "water level") :=
    .named (live_sampleBlock ("VAR", "water level") [] rfl)
  have negated : alarmBlocks.Holds (some 1) (.negate (.buttonRead "4")) :=
    .negate (live_sampleBlock ("", "") [("BOOL", 2)] rfl) button
  have compared : alarmBlocks.Holds (some 4)
      (.compare "LT" (.number "-5") (.named "water level")) :=
    .compare (live_sampleBlock ("OP", "LT") [("A", 5), ("B", 6)] rfl) number level
  have inner : alarmBlocks.Holds (some 3)
      (.logic "AND" (.compare "LT" (.number "-5") (.named "water level")) .empty) :=
    .logic (live_sampleBlock ("OP", "AND") [("A", 4)] rfl) compared .vacant
  exact .logic (live_sampleBlock ("OP", "OR") [("A", 1), ("B", 3)] rfl) negated inner

def alarm : Generator := ⟨alarmBlocks, Rules.esp32, ⟨.activeLow⟩⟩

theorem alarm_reads_back :
    ∃ text order r' e, alarm.emit 0 .new = (.expression text order, r') ∧ Code.read text = some e ∧
      (∀ fallback, Regrouped e (ValueTree.socketExpr r'.session.names.naming ⟨.activeLow⟩ fallback
        (.logic "OR" (.negate (.buttonRead "4"))
          (.logic "AND" (.compare "LT" (.number "-5") (.named "water level")) .empty)))) ∧
      ∀ user ∈ ["water level"],
        r'.session.names.userOf? (r'.session.names.naming user).toList = some user :=
  logic_code_reads_back alarm 0 _ .new rfl alarmBlocks_hold (by simp)
    ⟨List.all_eq_true.mp (by decide : "4".toList.all Char.isDigit = true), ⟨trivial, trivial⟩,
      trivial⟩ .default

end BlockSketch
