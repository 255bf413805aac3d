import BlockSketch.Proofs.Code.Spelling
import BlockSketch.Proofs.Sketch.ValueTree

/-
What the code of a value tree is read as. Code that binds at a level is a row of operands with the
operators of that level between them. Where a rule leaves parentheses out, the row of an operand
runs on into the row around it, and otherwise the operand is a single one.
-/
namespace BlockSketch
open Code

/-- The level of the grammar that code of an order is read at. -/
def Order.rank (o : Order) : Nat :=
  if o.level < 43 then 7
  else if o.level < 51 then 6
  else if o.level < 61 then 5
  else if o.level < 80 then 4
  else if o.level < 90 then 3
  else if o.level < 130 then 2
  else if o.level < 140 then 1
  else 0

theorem Order.rank_cases (o : Order) :
    (o.level < 43 ∧ o.rank = 7) ∨ (43 ≤ o.level ∧ o.level < 51 ∧ o.rank = 6) ∨
    (51 ≤ o.level ∧ o.level < 61 ∧ o.rank = 5) ∨ (61 ≤ o.level ∧ o.level < 80 ∧ o.rank = 4) ∨
    (80 ≤ o.level ∧ o.level < 90 ∧ o.rank = 3) ∨ (90 ≤ o.level ∧ o.level < 130 ∧ o.rank = 2) ∨
    (130 ≤ o.level ∧ o.level < 140 ∧ o.rank = 1) ∨ (140 ≤ o.level ∧ o.rank = 0) := by
  unfold Order.rank
  repeat' split
  all_goals omega

theorem Order.rank_le (o : Order) : o.rank ≤ 7 := by
  have cases := o.rank_cases
  omega

@[simp] theorem Order.rank_logicalNot : Order.logicalNot.rank = 6 := rfl

theorem Order.rank_mono {a b : Order} (le : a.level ≤ b.level) : b.rank ≤ a.rank := by
  have first := a.rank_cases
  have second := b.rank_cases
  omega

/-- Code that needs no parentheses is read at the level asked for. -/
theorem Order.rank_of_needsParens {outer inner : Order} (free : outer.needsParens inner = false) :
    outer.rank ≤ inner.rank := by
  unfold Order.needsParens at free
  split at free
  · rename_i tighter
    exact rank_mono (Nat.le_of_lt tighter)
  · split at free
    · rename_i same
      simp only [Bool.and_eq_true, decide_eq_true_eq] at same
      exact Nat.le_of_eq (congrArg rank same.1.symm)
    · have member : (outer, inner) ∈ Order.associative := by simpa using free
      have all : ∀ p ∈ Order.associative, p.1.rank ≤ p.2.rank := by decide
      exact all _ member

theorem Order.le_of_rank {outer inner : Order}
    (comparison : outer = .equality ∨ outer = .relational) (same : outer.rank = inner.rank) :
    outer.level ≤ inner.level := by
  have cases := inner.rank_cases
  rcases comparison with rfl | rfl
  · have rank : Order.equality.rank = 2 := rfl
    have level : Order.equality.level = 90 := rfl
    omega
  · have rank : Order.relational.rank = 3 := rfl
    have level : Order.relational.level = 80 := rfl
    omega

theorem Order.needsParens_of_le {outer inner : Order} (le : outer.level ≤ inner.level)
    (strict : ∀ p ∈ Order.associative, p.1 ≠ outer)
    (ordinary : outer ≠ .atomic ∧ outer ≠ .loosest) :
    outer.needsParens inner = true := by
  have notListed : (outer, inner) ∉ Order.associative := fun listed => strict _ listed rfl
  simp [Order.needsParens, Nat.not_lt.mpr le, ordinary, notListed]

abbrev OperandRow := Expr × List (BinaryOp × Expr)

namespace OperandRow

def whole (row : OperandRow) : Expr := grouped row.1 row.2

def join (op : BinaryOp) (left right : OperandRow) : OperandRow :=
  (left.1, left.2 ++ (op, right.1) :: right.2)

def asOperand (min : Order) (fallback : Expr) (code : Option (String × Order)) (row : OperandRow) :
    OperandRow :=
  match code with
  | none => (fallback, [])
  | some (_, order) =>
    if min.needsParens order || min.rank ≠ order.rank then (row.whole, []) else row

end OperandRow

/-! Leaves -/

def wordExpr : List Char → Expr
  | c :: rest => if c.isDigit then .numeral (c :: rest) else .name (c :: rest)
  | [] => .name []

def literalExpr : List Char → Expr
  | '-' :: word => .unary .minus (wordExpr word)
  | word => wordExpr word

/-- The call that reads a pin. A pin without a number is left out. -/
def readExpr (pin : String) : Expr :=
  if pin = "" then .call (.name "digitalRead".toList)
  else .argument (.call (.name "digitalRead".toList)) (.numeral pin.toList)

def comparisonOp (op : String) : BinaryOp :=
  match op with
  | "NEQ" => .unequal
  | "LT" => .less
  | "LTE" => .lessEqual
  | "GT" => .greater
  | "GTE" => .greaterEqual
  | _ => .equal

def logicOp (op : String) : BinaryOp := if op = "OR" then .or else .and

def arithmeticOp? (op : String) : Option BinaryOp :=
  match op with
  | "MINUS" => some .subtract
  | "MULTIPLY" => some .multiply
  | "DIVIDE" => some .divide
  | "POWER" => none
  | _ => some .add

def zeroExpr : Expr := .numeral ['0']

def trueExpr : Expr := .name "true".toList

def falseExpr : Expr := .name "false".toList

namespace ValueTree
open OperandRow

def row (names : String → String) (options : Options) : ValueTree → OperandRow
  | empty => (.name [], [])
  | number raw => (literalExpr (Rules.numberLiteral raw).1.toList, [])
  | boolean raw => (if raw = "TRUE" then trueExpr else falseExpr, [])
  | named user => (.name (names user).toList, [])
  | level state => (.name (if state = "LOW" then "LOW" else "HIGH").toList, [])
  | millis => (.call (.name "millis".toList), [])
  | digitalRead pin => (readExpr pin, [])
  | buttonRead pin => match options.buttons with
    | .raw => (readExpr pin, [])
    | .activeLow => (.unary .not (readExpr pin), [])
  | negate x =>
    (.unary .not (asOperand .logicalNot trueExpr (x.code names options)
      (x.row names options)).whole, [])
  | compare op a b =>
    let order := (Rules.comparison op).2
    join (comparisonOp op)
      (asOperand order zeroExpr (a.code names options) (a.row names options))
      (asOperand order zeroExpr (b.code names options) (b.row names options))
  | logic op a b =>
    if a = .empty ∧ b = .empty then (if op = "OR" then trueExpr else falseExpr, [])
    else
      let order : Order := if op = "OR" then .logicalOr else .logicalAnd
      join (logicOp op)
        (asOperand order falseExpr (a.code names options) (a.row names options))
        (asOperand order falseExpr (b.code names options) (b.row names options))
  | arithmetic op a b =>
    let order := (Rules.arithmeticOperator op).2
    let left := asOperand order zeroExpr (a.code names options) (a.row names options)
    let right := asOperand order zeroExpr (b.code names options) (b.row names options)
    match arithmeticOp? op with
    | some binary => join binary left right
    | none => (.argument (.argument (.call (.name "pow".toList)) left.whole) right.whole, [])

end ValueTree

/-! The texts of leaves -/

theorem wordExpr_spelled {n : Nat} {word : List Char} (shape : IsName word ∨ IsNumeral word)
    (le : n ≤ 7) : Spelled n word (wordExpr word) [] := by
  rcases shape with isName | isNumeral
  · obtain ⟨s, rest, same, first, _⟩ := isName.starts
    have noDigit : s.isDigit = false := by
      cases digit : s.isDigit with
      | false => rfl
      | true => simp [digit_starts_no_name digit] at first
    have asName : wordExpr word = .name word := by simp [same, wordExpr, noDigit]
    rw [asName]
    exact spelled_name isName le
  · obtain ⟨s, rest, same, first, _⟩ := isNumeral.starts
    have asNumeral : wordExpr word = .numeral word := by simp [same, wordExpr, first]
    rw [asNumeral]
    exact spelled_numeral isNumeral le

theorem word_first {word : List Char} (shape : IsName word ∨ IsNumeral word) :
    ∃ c rest, word = c :: rest ∧ (startsName c = true ∨ c.isDigit = true) := by
  rcases shape with isName | isNumeral
  · obtain ⟨s, rest, same, first, _⟩ := isName.starts
    exact ⟨s, rest, same, Or.inl first⟩
  · obtain ⟨s, rest, same, first, _⟩ := isNumeral.starts
    exact ⟨s, rest, same, Or.inr first⟩

theorem literalExpr_word {word : List Char} (shape : IsName word ∨ IsNumeral word) :
    literalExpr word = wordExpr word := by
  obtain ⟨c, rest, rfl, first⟩ := word_first shape
  have noSign : c ≠ '-' := by
    rintro rfl
    exact absurd first (by decide)
  unfold literalExpr
  split
  · rename_i same
    cases same
    exact absurd rfl noSign
  · rfl

theorem literal_spelled (x : Binary64) :
    Spelled (if x.isBelowZero then Order.unaryMinus else Order.atomic).rank x.literal.toList
      (literalExpr x.literal.toList) [] := by
  obtain ⟨word, same, shape⟩ := x.literal_shape
  rw [same]
  split
  · exact spelled_minus (wordExpr_spelled shape (Nat.le_refl 7)) (word_first shape)
  · rw [List.nil_append, literalExpr_word shape]
    exact wordExpr_spelled shape (Order.rank_le _)

theorem zero_isNumeral : IsNumeral ['0'] := by
  refine Binary64.isNumeral_whole ?_ (by simp)
  intro c member
  rw [List.mem_singleton.mp member]
  decide

theorem zero_spelled {n : Nat} (le : n ≤ 7) : Spelled n "0".toList zeroExpr [] :=
  spelled_numeral zero_isNumeral le

theorem numberLiteral_spelled (raw : String) :
    Spelled (Rules.numberLiteral raw).2.rank (Rules.numberLiteral raw).1.toList
      (literalExpr (Rules.numberLiteral raw).1.toList) [] := by
  unfold Rules.numberLiteral
  split
  · exact literal_spelled _
  · exact zero_spelled (by decide)

theorem true_spelled {n : Nat} (le : n ≤ 7) : Spelled n "true".toList trueExpr [] :=
  spelled_name (by decide) le

theorem false_spelled {n : Nat} (le : n ≤ 7) : Spelled n "false".toList falseExpr [] :=
  spelled_name (by decide) le

theorem readCall_spelled {n : Nat} {pin : String} (digits : ∀ c ∈ pin.toList, c.isDigit = true)
    (le : n ≤ 7) : Spelled n (Rules.readCall pin).toList (readExpr pin) [] := by
  have callee : IsName "digitalRead".toList := by decide
  unfold readExpr
  split
  · rename_i absent
    subst absent
    exact spelled_call callee le
  · rename_i present
    have begun : pin.toList ≠ [] := by simpa using present
    have argument := spelled_numeral (Binary64.isNumeral_whole digits begun) (Nat.le_refl 7)
    have text : (Rules.readCall pin).toList =
        "digitalRead".toList ++ '(' :: (pin.toList ++ [')']) := by
      simp [Rules.readCall]
    rw [text]
    exact spelled_call_one callee argument le

/-! The texts of trees -/

namespace ValueTree
open OperandRow

theorem operand_spelled (min : Order) {fallback : String} {literal : Expr}
    {found : Option (String × Order)} {row : OperandRow} (visible : fallback ≠ "")
    (literally : Spelled min.rank fallback.toList literal [])
    (spelled : ∀ c, found = some c → Spelled c.2.rank c.1.toList row.1 row.2) :
    Spelled min.rank (operand min fallback found).wrapped.toList
      (asOperand min literal found row).1 (asOperand min literal found row).2 := by
  cases found with
  | none => simpa [operand, Operand.ofFallback, Operand.wrapped, asOperand, visible] using literally
  | some c =>
    obtain ⟨text, order⟩ := c
    have inner := spelled (text, order) rfl
    cases wrapped : min.needsParens order with
    | true =>
      have group := spelled_group inner min.rank_le
      simpa [operand, Operand.ofExpression, Operand.wrapped, asOperand, wrapped, whole] using group
    | false =>
      have le := Order.rank_of_needsParens wrapped
      by_cases same : min.rank = order.rank
      · simpa [operand, Operand.ofExpression, Operand.wrapped, asOperand, wrapped, same] using inner
      · have single := spelled_tighter inner (Nat.lt_of_le_of_ne le same)
        simpa [operand, Operand.ofExpression, Operand.wrapped, asOperand, wrapped, same, whole]
          using single

def DigitPins : ValueTree → Prop
  | digitalRead pin | buttonRead pin => ∀ c ∈ pin.toList, c.isDigit = true
  | negate x => x.DigitPins
  | compare _ a b | logic _ a b | arithmetic _ a b => a.DigitPins ∧ b.DigitPins
  | _ => True

theorem code_eq_none (names : String → String) (options : Options) (t : ValueTree) :
    t.code names options = none ↔ t = .empty := by
  cases t with
  | buttonRead pin =>
    simp only [code]
    split <;> simp
  | logic op a b =>
    simp only [code]
    split <;> split <;> simp
  | arithmetic op a b =>
    simp only [code]
    split <;> simp
  | _ => simp [code]

theorem operand_fallback (names : String → String) (options : Options) (t : ValueTree) (min : Order)
    (fallback : String) :
    (operand min fallback (t.code names options)).fallback = true ↔ t = .empty := by
  rw [← code_eq_none names options t]
  cases t.code names options <;> simp [operand, Operand.ofFallback, Operand.ofExpression]

theorem whole_asOperand {names : String → String} {options : Options} {t : ValueTree} (min : Order)
    (literal : Expr) (present : t ≠ .empty) :
    (asOperand min literal (t.code names options) (t.row names options)).whole =
      (t.row names options).whole := by
  cases found : t.code names options with
  | none => exact absurd ((code_eq_none names options t).mp found) present
  | some c =>
    simp only [asOperand]
    split <;> rfl

theorem whole_join (op : BinaryOp) (left right : OperandRow) :
    (join op left right).whole = grouped (.binary op left.whole right.1) right.2 :=
  grouped_append left.1 left.2 op right.1 right.2

theorem comparison_symbol (op : String) :
    (Rules.comparison op).1.toList = (comparisonOp op).symbol ∧
      (comparisonOp op).level = (Rules.comparison op).2.rank := by
  unfold Rules.comparison comparisonOp
  split
  -- The last case is every other text, where both tables fall through to the same entry.
  iterate 5 exact ⟨by decide, by decide⟩
  simp_all
  decide

theorem arithmetic_symbol {op : String} {binary : BinaryOp}
    (given : arithmeticOp? op = some binary) :
    ∃ symbol, (Rules.arithmeticOperator op).1 = some symbol ∧
      symbol.toList = ' ' :: (binary.symbol ++ [' ']) ∧
      binary.level = (Rules.arithmeticOperator op).2.rank := by
  unfold arithmeticOp? at given
  split at given <;> cases given
  · exact ⟨_, rfl, by decide, by decide⟩
  · exact ⟨_, rfl, by decide, by decide⟩
  · exact ⟨_, rfl, by decide, by decide⟩
  · have other : Rules.arithmeticOperator op = (some " + ", .addition) := by
      unfold Rules.arithmeticOperator
      simp_all
    rw [other]
    exact ⟨_, rfl, by decide, by decide⟩

theorem power_symbol {op : String} (given : arithmeticOp? op = none) :
    (Rules.arithmeticOperator op).1 = none := by
  unfold arithmeticOp? at given
  split at given <;> cases given
  rfl

theorem logic_symbol (op : String) :
    (if op = "OR" then " || " else " && ").toList = ' ' :: ((logicOp op).symbol ++ [' ']) ∧
      (logicOp op).level = (if op = "OR" then Order.logicalOr else Order.logicalAnd).rank := by
  unfold logicOp
  split <;> decide

section Logic

variable {names : String → String} {options : Options} {op : String} {a b : ValueTree}

theorem code_logic_empty : (logic op .empty .empty).code names options =
    some (if op = "OR" then "true" else "false", .atomic) := rfl

theorem row_logic_empty : (logic op .empty .empty).row names options =
    (if op = "OR" then trueExpr else falseExpr, []) := rfl

theorem code_logic (operands : ¬ (a = .empty ∧ b = .empty)) :
    (logic op a b).code names options =
      let order : Order := if op = "OR" then .logicalOr else .logicalAnd
      some ((operand order "false" (a.code names options)).wrapped ++
        (if op = "OR" then " || " else " && ") ++
        (operand order "false" (b.code names options)).wrapped, order) := by
  have present : ¬ ((operand (if op = "OR" then .logicalOr else .logicalAnd) "false"
      (a.code names options)).fallback && (operand (if op = "OR" then .logicalOr else .logicalAnd)
      "false" (b.code names options)).fallback) = true := by
    rw [Bool.and_eq_true, operand_fallback, operand_fallback]
    exact operands
  simp only [code, if_neg present]

theorem row_logic (operands : ¬ (a = .empty ∧ b = .empty)) :
    (logic op a b).row names options =
      let order : Order := if op = "OR" then .logicalOr else .logicalAnd
      join (logicOp op)
        (asOperand order falseExpr (a.code names options) (a.row names options))
        (asOperand order falseExpr (b.code names options) (b.row names options)) := by
  simp only [row, if_neg operands]

end Logic

def CodeSpelled (names : String → String) (options : Options) (t : ValueTree) : Prop :=
  ∀ c, t.code names options = some c →
    Spelled c.2.rank c.1.toList (t.row names options).1 (t.row names options).2

section Spelling

variable {names : String → String} {options : Options} {x a b : ValueTree}

theorem buttonRead_spelled {pin : String} (pins : (buttonRead pin).DigitPins) :
    CodeSpelled names options (buttonRead pin) := by
  intro c found
  simp only [code] at found
  simp only [row]
  cases buttons : options.buttons with
  | raw =>
    rw [buttons] at found
    cases found
    exact readCall_spelled pins (Order.rank_le _)
  | activeLow =>
    rw [buttons] at found
    cases found
    have negated := spelled_negation (readCall_spelled pins (by decide : 6 ≤ 7))
    simpa using negated

theorem negate_spelled (inner : CodeSpelled names options x) :
    CodeSpelled names options (negate x) := by
  intro c found
  cases found
  have negated := spelled_negation
    (operand_spelled .logicalNot (by decide) (true_spelled (Order.rank_le _)) inner)
  simpa [row, whole] using negated

theorem compare_spelled (op : String) (left : CodeSpelled names options a)
    (right : CodeSpelled names options b) : CodeSpelled names options (compare op a b) := by
  intro c found
  simp only [code] at found
  rw [← Option.some.inj found]
  obtain ⟨symbol, level⟩ := comparison_symbol op
  have both := spelled_binary
    (operand_spelled (Rules.comparison op).2 (by decide) (zero_spelled (Order.rank_le _)) left)
      level
    (operand_spelled (Rules.comparison op).2 (by decide) (zero_spelled (Order.rank_le _)) right)
  simpa [row, join, symbol] using both

theorem logic_spelled (op : String) (left : CodeSpelled names options a)
    (right : CodeSpelled names options b) : CodeSpelled names options (logic op a b) := by
  intro c found
  by_cases neither : a = .empty ∧ b = .empty
  · obtain ⟨rfl, rfl⟩ := neither
    rw [code_logic_empty] at found
    rw [← Option.some.inj found, row_logic_empty]
    dsimp only
    split
    · exact true_spelled (Order.rank_le _)
    · exact false_spelled (Order.rank_le _)
  · rw [code_logic neither] at found
    rw [← Option.some.inj found, row_logic neither]
    obtain ⟨symbol, level⟩ := logic_symbol op
    have both := spelled_binary
      (operand_spelled _ (by decide) (false_spelled (Order.rank_le _)) left) level
      (operand_spelled _ (by decide) (false_spelled (Order.rank_le _)) right)
    simpa [join, symbol] using both

theorem arithmetic_spelled (op : String) (left : CodeSpelled names options a)
    (right : CodeSpelled names options b) : CodeSpelled names options (arithmetic op a b) := by
  intro c found
  have first := operand_spelled (Rules.arithmeticOperator op).2 (by decide)
    (zero_spelled (Order.rank_le _)) left
  have second := operand_spelled (Rules.arithmeticOperator op).2 (by decide)
    (zero_spelled (Order.rank_le _)) right
  cases given : arithmeticOp? op with
  | some binary =>
    obtain ⟨symbol, found', spaced, level⟩ := arithmetic_symbol given
    simp only [code, found'] at found
    rw [← Option.some.inj found]
    have both := spelled_binary first level second
    simpa [row, given, join, spaced] using both
  | none =>
    -- A power is a call, whose arguments stand in no row with anything.
    simp only [code, power_symbol given] at found
    rw [← Option.some.inj found]
    have callee : IsName "pow".toList := by decide
    have call := spelled_call_two callee first second (Order.functionCall.rank_le)
    simpa [row, given, whole] using call

end Spelling

theorem code_spelled {names : String → String} (options : Options) {t : ValueTree}
    (named : ∀ user, IsName (names user).toList) (pins : t.DigitPins) :
    CodeSpelled names options t := by
  induction t with
  | empty =>
    intro c found
    cases found
  | number raw =>
    intro c found
    rw [code] at found
    rw [← Option.some.inj found]
    simp only [row]
    exact numberLiteral_spelled raw
  | boolean raw =>
    intro c found
    cases found
    simp only [row]
    split
    · exact true_spelled (Order.rank_le _)
    · exact false_spelled (Order.rank_le _)
  | named user =>
    intro c found
    cases found
    exact spelled_name (named user) (Order.rank_le _)
  | level state =>
    intro c found
    cases found
    refine spelled_name ?_ (Order.rank_le _)
    split <;> decide
  | millis =>
    intro c found
    cases found
    have callee : IsName "millis".toList := by decide
    exact spelled_call callee (Order.rank_le _)
  | digitalRead pin =>
    intro c found
    cases found
    exact readCall_spelled pins (Order.rank_le _)
  | buttonRead pin => exact buttonRead_spelled pins
  | negate x ih => exact negate_spelled (ih pins)
  | compare op a b ihLeft ihRight => exact compare_spelled op (ihLeft pins.1) (ihRight pins.2)
  | logic op a b ihLeft ihRight => exact logic_spelled op (ihLeft pins.1) (ihRight pins.2)
  | arithmetic op a b ihLeft ihRight => exact arithmetic_spelled op (ihLeft pins.1) (ihRight pins.2)

end ValueTree

open NameTable in
/-- What a block with a tree of values gives is an expression, and it is read as the operands of the
tree with the identifiers that the session then has. -/
theorem Generator.emit_reads {g : Generator} {id : BlockId} {t : ValueTree} {r : Run}
    (rules : g.rules = Rules.esp32) (holds : g.workspace.Holds (some id) t) (present : t ≠ .empty)
    (pins : t.DigitPins) (allocated : r.session.names.Allocated) :
    ∃ text order r', g.emit id r = (.expression text order, r') ∧ Generator.Grown t.users r' r ∧
      Code.read text = some (t.row r'.session.names.naming g.options).whole := by
  obtain ⟨r', grown, emitted⟩ := emit_of_holds rules holds allocated
  have agrees := agrees_naming (sound_of_allocated grown.allocated)
  cases found : t.code r'.session.names.naming g.options with
  | none => exact absurd ((ValueTree.code_eq_none _ _ t).mp found) present
  | some c =>
    have given := emitted _ agrees
    rw [found] at given
    exact ⟨c.1, c.2, r', given, grown,
      read_spelled (ValueTree.code_spelled _ agrees.isName pins c found)⟩

/-! Blocks for samples -/

def sampleBlock (id : BlockId) (kind : String) (field : String × String)
    (children : List (String × BlockId)) : Block :=
  { Block.detached id ((BlockContent.new kind).setField field.1 (.text field.2)) with
    values := .ofList children }

theorem live_sampleBlock {w : Workspace} {id : BlockId} {kind : String} (field : String × String)
    (children : List (String × BlockId))
    (found : w.get? id = some (sampleBlock id kind field children)) :
    w.Live id kind (sampleBlock id kind field children) :=
  ⟨found, rfl, rfl⟩

end BlockSketch
