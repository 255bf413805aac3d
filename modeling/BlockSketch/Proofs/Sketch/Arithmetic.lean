import BlockSketch.Proofs.Number.RoundTrip
import BlockSketch.Proofs.Sketch.Reading

/-
What arithmetic blocks compute in the sketch. Sums, differences and products mean in the sketch what
they mean on the canvas, however they are nested, and so does a quotient by anything but a product.
A product in the place of a divisor gets no parentheses, so the sketch divides by its first factor
alone and multiplies by the others.
-/
namespace BlockSketch
open Code

def Binary64.rational? (x : Binary64) : Option ℚ :=
  if x.isFinite then some (if x.negative then -x.absValue else x.absValue) else none

/-- An arithmetic operator on values that may be missing. Nothing is divided by zero. -/
def Code.BinaryOp.apply (op : BinaryOp) (a b : Option ℚ) : Option ℚ :=
  match op, a, b with
  | .add, some x, some y => some (x + y)
  | .subtract, some x, some y => some (x - y)
  | .multiply, some x, some y => some (x * y)
  | .divide, some x, some y => if y = 0 then none else some (x / y)
  | _, _, _ => none

def Code.Expr.value (env : List Char → Option ℚ) : Expr → Option ℚ
  | .numeral text => (Binary64.decimalText? false text).bind Binary64.rational?
  | .name text => env text
  | .unary .minus x => (x.value env).map (- ·)
  | .binary op a b => op.apply (a.value env) (b.value env)
  | _ => none

namespace ValueTree

def numberValue (raw : String) : Option ℚ :=
  match Binary64.ofText? (Text.trim raw) with
  | some x => x.rational?
  | none => some 0

def value (vars : String → ℚ) : ValueTree → Option ℚ
  | empty => some 0
  | number raw => numberValue raw
  | named user => some (vars user)
  | arithmetic op a b =>
    (arithmeticOp? op).bind fun binary => binary.apply (a.value vars) (b.value vars)
  | _ => none

mutual

def sketchValue (vars : String → ℚ) : ValueTree → Option ℚ
  | empty => some 0
  | number raw => numberValue raw
  | named user => some (vars user)
  | arithmetic op a b =>
    match arithmeticOp? op with
    | some .divide => dividedBy vars (sketchValue vars a) b
    | some binary => binary.apply (sketchValue vars a) (sketchValue vars b)
    | none => none
  | _ => none
termination_by t => (sizeOf t, 0)

/-- A value divided by a tree as the sketch does it: a product only divides by its first factor. -/
def dividedBy (vars : String → ℚ) (v : Option ℚ) (t : ValueTree) : Option ℚ :=
  match t with
  | arithmetic op a b =>
    if arithmeticOp? op = some .multiply then
      BinaryOp.multiply.apply (dividedBy vars v a) (sketchValue vars b)
    else BinaryOp.divide.apply v (sketchValue vars (.arithmetic op a b))
  | t => BinaryOp.divide.apply v (sketchValue vars t)
termination_by (sizeOf t, 1)

end

def IsArithmetic : ValueTree → Prop
  | empty | named _ => True
  | number raw => (numberValue raw).isSome = true
  | arithmetic op a b => op ≠ "POWER" ∧ a.IsArithmetic ∧ b.IsArithmetic
  | _ => False

def IsProduct : ValueTree → Prop
  | arithmetic op _ _ => op = "MULTIPLY"
  | _ => False

def PlainDivisors : ValueTree → Prop
  | arithmetic op a b => (op = "DIVIDE" → ¬ b.IsProduct) ∧ a.PlainDivisors ∧ b.PlainDivisors
  | _ => True

end ValueTree

/-! Values along a row of operands -/

def valueAlong (env : List Char → Option ℚ) (v : Option ℚ) (tail : List (BinaryOp × Expr)) :
    Option ℚ :=
  tail.foldl (fun a next => next.1.apply a (next.2.value env)) v

section Rows

variable (env : List Char → Option ℚ)

theorem value_grouped (e : Expr) (tail : List (BinaryOp × Expr)) :
    (grouped e tail).value env = valueAlong env (e.value env) tail := by
  induction tail generalizing e with
  | nil => rfl
  | cons next rest ih => exact ih (.binary next.1 e next.2)

theorem apply_add_assoc {op : BinaryOp} (additive : op = .add ∨ op = .subtract) (v a b : Option ℚ) :
    op.apply (BinaryOp.add.apply v a) b = BinaryOp.add.apply v (op.apply a b) := by
  rcases additive with rfl | rfl
  · cases v <;> cases a <;> cases b <;> simp [BinaryOp.apply, add_assoc]
  · cases v <;> cases a <;> cases b <;> simp [BinaryOp.apply, add_sub_assoc]

theorem apply_multiply_assoc (v a b : Option ℚ) :
    BinaryOp.multiply.apply (BinaryOp.multiply.apply v a) b =
      BinaryOp.multiply.apply v (BinaryOp.multiply.apply a b) := by
  cases v <;> cases a <;> cases b <;> simp [BinaryOp.apply, mul_assoc]

theorem valueAlong_add {tail : List (BinaryOp × Expr)} (v a : Option ℚ)
    (additive : ∀ p ∈ tail, p.1 = .add ∨ p.1 = .subtract) :
    valueAlong env (BinaryOp.add.apply v a) tail =
      BinaryOp.add.apply v (valueAlong env a tail) := by
  induction tail generalizing a with
  | nil => rfl
  | cons next rest ih =>
    have first := apply_add_assoc (additive next (by simp)) v a (next.2.value env)
    have others :=
      ih (next.1.apply a (next.2.value env)) fun p member => additive p (by simp [member])
    exact (congrArg (valueAlong env · rest) first).trans others

theorem valueAlong_multiply {tail : List (BinaryOp × Expr)} (v a : Option ℚ)
    (products : ∀ p ∈ tail, p.1 = .multiply) :
    valueAlong env (BinaryOp.multiply.apply v a) tail =
      BinaryOp.multiply.apply v (valueAlong env a tail) := by
  induction tail generalizing a with
  | nil => rfl
  | cons next rest ih =>
    have product := products next (by simp)
    have first := apply_multiply_assoc v a (next.2.value env)
    have others :=
      ih (next.1.apply a (next.2.value env)) fun p member => products p (by simp [member])
    rw [product] at others
    simp only [valueAlong, List.foldl_cons, product] at others ⊢
    rw [first]
    exact others

theorem value_join (op : BinaryOp) (left right : OperandRow) :
    (left.join op right).whole.value env =
      valueAlong env (op.apply (left.whole.value env) (right.1.value env)) right.2 := by
  rw [ValueTree.whole_join, value_grouped]
  rfl

end Rows

/-! Which operands run on into the row around them -/

def arithmeticOrder : BinaryOp → Order
  | .add => .addition
  | .subtract => .subtraction
  | .multiply => .multiplication
  | .divide => .division
  | _ => .atomic

def RunsOn (outer inner : BinaryOp) : Prop :=
  outer = .add ∧ (inner = .add ∨ inner = .subtract) ∨
    (outer = .multiply ∨ outer = .divide) ∧ inner = .multiply

namespace ValueTree
open OperandRow

theorem arithmeticOp_of_ne_power {op : String} (ordinary : op ≠ "POWER") :
    ∃ binary, arithmeticOp? op = some binary := by
  unfold arithmeticOp?
  split
  · exact ⟨_, rfl⟩
  · exact ⟨_, rfl⟩
  · exact ⟨_, rfl⟩
  · exact absurd rfl ordinary
  · exact ⟨_, rfl⟩

theorem arithmeticOp_cases {op : String} {binary : BinaryOp}
    (given : arithmeticOp? op = some binary) :
    binary = .add ∨ binary = .subtract ∨ binary = .multiply ∨ binary = .divide := by
  unfold arithmeticOp? at given
  split at given <;> cases given <;> simp

theorem arithmetic_order {op : String} {binary : BinaryOp}
    (given : arithmeticOp? op = some binary) :
    (Rules.arithmeticOperator op).2 = arithmeticOrder binary := by
  unfold arithmeticOp? at given
  split at given <;> cases given
  · rfl
  · rfl
  · rfl
  · have other : Rules.arithmeticOperator op = (some " + ", .addition) := by
      unfold Rules.arithmeticOperator
      simp_all
    rw [other]
    rfl

theorem code_arithmetic (names : String → String) (options : Options) {op : String}
    (a b : ValueTree) {binary : BinaryOp} (given : arithmeticOp? op = some binary) :
    ∃ text, (arithmetic op a b).code names options = some (text, arithmeticOrder binary) := by
  obtain ⟨symbol, found, _⟩ := arithmetic_symbol given
  rw [← arithmetic_order given]
  exact ⟨_, by simp only [code, found]; rfl⟩

theorem runsOn_iff {outer inner : BinaryOp}
    (outside : outer = .add ∨ outer = .subtract ∨ outer = .multiply ∨ outer = .divide)
    (inside : inner = .add ∨ inner = .subtract ∨ inner = .multiply ∨ inner = .divide) :
    RunsOn outer inner ↔ (arithmeticOrder outer).needsParens (arithmeticOrder inner) = false ∧
      (arithmeticOrder outer).rank = (arithmeticOrder inner).rank := by
  unfold RunsOn
  rcases outside with rfl | rfl | rfl | rfl <;> rcases inside with rfl | rfl | rfl | rfl <;> decide

section Operand

variable (names : String → String) (options : Options)

def arithmeticOperand (outer : BinaryOp) (t : ValueTree) : OperandRow :=
  asOperand (arithmeticOrder outer) zeroExpr (t.code names options) (t.row names options)

theorem row_arithmetic {op : String} {binary : BinaryOp} (a b : ValueTree)
    (given : arithmeticOp? op = some binary) :
    (arithmetic op a b).row names options =
      join binary (a.arithmeticOperand names options binary)
        (b.arithmeticOperand names options binary) := by
  simp only [row, given, arithmetic_order given, arithmeticOperand]

/-- An operand of arithmetic is a row that runs on or a single one. -/
theorem operand_cases {outer : BinaryOp} {t : ValueTree}
    (outside : outer = .add ∨ outer = .subtract ∨ outer = .multiply ∨ outer = .divide)
    (isArithmetic : t.IsArithmetic) :
    (∃ op a b inner, t = arithmetic op a b ∧ arithmeticOp? op = some inner ∧ RunsOn outer inner ∧
      t.arithmeticOperand names options outer = t.row names options) ∨
    (∃ e, t.arithmeticOperand names options outer = (e, [])) ∧
      ∀ op a b inner, t = arithmetic op a b → arithmeticOp? op = some inner →
        ¬ RunsOn outer inner := by
  cases t with
  | empty => exact Or.inr ⟨⟨_, rfl⟩, by simp⟩
  | number raw =>
    refine Or.inr ⟨?_, by simp⟩
    simp only [arithmeticOperand, code, row, asOperand]
    split <;> exact ⟨_, rfl⟩
  | named user =>
    refine Or.inr ⟨?_, by simp⟩
    simp only [arithmeticOperand, code, row, asOperand]
    split <;> exact ⟨_, rfl⟩
  | arithmetic op a b =>
    obtain ⟨inner, given⟩ := arithmeticOp_of_ne_power isArithmetic.1
    obtain ⟨text, found⟩ := code_arithmetic names options a b given
    have free := runsOn_iff outside (arithmeticOp_cases given)
    by_cases runsOn : RunsOn outer inner
    · refine Or.inl ⟨op, a, b, inner, rfl, given, runsOn, ?_⟩
      simp [arithmeticOperand, found, asOperand, (free.mp runsOn).1, (free.mp runsOn).2]
    · refine Or.inr ⟨⟨((arithmetic op a b).row names options).whole, ?_⟩, ?_⟩
      · simp only [arithmeticOperand, found, asOperand]
        rw [if_pos]
        cases parens : (arithmeticOrder outer).needsParens (arithmeticOrder inner) with
        | true => rfl
        | false => simpa using fun same => runsOn (free.mpr ⟨parens, same⟩)
      · rintro _ _ _ other ⟨⟩ again
        rw [given] at again
        cases again
        exact runsOn
  | _ => exact isArithmetic.elim

def Kindred : BinaryOp → BinaryOp → Prop
  | .multiply, p => p = .multiply
  | .divide, _ => True
  | _, p => p = .add ∨ p = .subtract

theorem kindred_of_runsOn {outer inner p : BinaryOp} (runsOn : RunsOn outer inner)
    (kindred : Kindred inner p) : Kindred outer p := by
  rcases runsOn with ⟨rfl, rfl | rfl⟩ | ⟨rfl | rfl, rfl⟩
  · exact kindred
  · exact kindred
  · exact kindred
  · trivial

theorem kindred_self {op : String} {binary : BinaryOp} (given : arithmeticOp? op = some binary) :
    Kindred binary binary := by
  rcases arithmeticOp_cases given with rfl | rfl | rfl | rfl <;> simp [Kindred]

theorem operand_kindred {outer : BinaryOp} {t : ValueTree}
    (outside : outer = .add ∨ outer = .subtract ∨ outer = .multiply ∨ outer = .divide)
    (isArithmetic : t.IsArithmetic)
    (inner : ∀ op a b binary, t = arithmetic op a b → arithmeticOp? op = some binary →
      ∀ p ∈ (t.row names options).2, Kindred binary p.1) :
    ∀ p ∈ (t.arithmeticOperand names options outer).2, Kindred outer p.1 := by
  intro p member
  rcases operand_cases names options outside isArithmetic with
    ⟨op, a, b, binary, same, given, runsOn, spliced⟩ | ⟨⟨e, single⟩, _⟩
  · rw [spliced] at member
    exact kindred_of_runsOn runsOn (inner op a b binary same given p member)
  · simp [single] at member

theorem row_kindred {t : ValueTree} (isArithmetic : t.IsArithmetic) :
    ∀ op a b binary, t = arithmetic op a b → arithmeticOp? op = some binary →
      ∀ p ∈ (t.row names options).2, Kindred binary p.1 := by
  induction t with
  | arithmetic op a b ihLeft ihRight =>
    rintro _ _ _ binary ⟨⟩ given p member
    have outside := arithmeticOp_cases given
    rw [row_arithmetic names options a b given] at member
    simp only [join, List.mem_append, List.mem_cons] at member
    rcases member with left | rfl | right
    · exact operand_kindred names options outside isArithmetic.2.1 (ihLeft isArithmetic.2.1) p left
    · exact kindred_self given
    · exact operand_kindred names options outside isArithmetic.2.2 (ihRight isArithmetic.2.2) p
        right
  | _ => simp

end Operand

/-! The value of a row -/

section Meaning

variable {names : String → String} {options : Options} (env : List Char → Option ℚ)
  (vars : String → ℚ)

/-- The row of a tree has the value that the sketch computes, and dividing by the row of a product
is what the sketch does with it. -/
structure Means (names : String → String) (options : Options) (t : ValueTree) : Prop where
  whole : t ≠ .empty → (t.row names options).whole.value env = t.sketchValue vars
  divided : ∀ op a b, t = arithmetic op a b → arithmeticOp? op = some .multiply → ∀ v,
    valueAlong env (BinaryOp.divide.apply v ((t.row names options).1.value env))
      (t.row names options).2 = t.dividedBy vars v

theorem value_zeroExpr : zeroExpr.value env = some 0 := by
  have zero : Binary64.decimalText? false ['0'] = some Binary64.zero := by decide
  have rational : Binary64.zero.rational? = some 0 := by
    have finite : Binary64.zero.isFinite = true := by decide
    have positive : Binary64.zero.negative = false := by decide
    have significand : Binary64.zero.significand = 0 := by decide
    simp [Binary64.rational?, finite, positive, Binary64.absValue, significand]
  simp [zeroExpr, Expr.value, zero, rational]

variable {env vars}

theorem Means.operand {t : ValueTree} (means : Means env vars names options t) (outer : BinaryOp) :
    (t.arithmeticOperand names options outer).whole.value env = t.sketchValue vars := by
  by_cases absent : t = .empty
  · subst absent
    rw [sketchValue]
    exact value_zeroExpr env
  · rw [arithmeticOperand, whole_asOperand _ _ absent]
    exact means.whole absent

theorem dividedBy_single {t : ValueTree} (v : Option ℚ)
    (single : ∀ op a b, t = arithmetic op a b → arithmeticOp? op ≠ some .multiply) :
    t.dividedBy vars v = BinaryOp.divide.apply v (t.sketchValue vars) := by
  cases t with
  | arithmetic op a b => rw [dividedBy, if_neg (single op a b rfl)]
  | _ =>
    rw [dividedBy]
    simp

theorem Means.divided_operand {t : ValueTree} {outer : BinaryOp}
    (means : Means env vars names options t) (isArithmetic : t.IsArithmetic)
    (outside : outer = .multiply ∨ outer = .divide) (v : Option ℚ) :
    valueAlong env (BinaryOp.divide.apply v ((t.arithmeticOperand names options outer).1.value env))
      (t.arithmeticOperand names options outer).2 = t.dividedBy vars v := by
  rcases operand_cases names options (Or.inr (Or.inr outside)) isArithmetic with
    ⟨op, a, b, inner, same, given, runsOn, spliced⟩ | ⟨⟨e, single⟩, plain⟩
  · have product : inner = .multiply := by
      rcases runsOn with ⟨rfl, _⟩ | ⟨_, product⟩
      · simp at outside
      · exact product
    rw [spliced]
    exact means.divided op a b same (product ▸ given) v
  · have value := means.operand outer
    rw [single] at value ⊢
    rw [dividedBy_single v fun op a b same given =>
      plain op a b _ same given (Or.inr ⟨outside, rfl⟩),
      ← value]
    rfl

theorem Means.add_operand {t : ValueTree} (means : Means env vars names options t)
    (isArithmetic : t.IsArithmetic) (v : Option ℚ) :
    valueAlong env (BinaryOp.add.apply v ((t.arithmeticOperand names options .add).1.value env))
      (t.arithmeticOperand names options .add).2 = BinaryOp.add.apply v (t.sketchValue vars) := by
  rw [valueAlong_add env v _ (operand_kindred names options (Or.inl rfl) isArithmetic
    (row_kindred names options isArithmetic)), ← value_grouped, ← means.operand .add]
  rfl

theorem Means.multiply_operand {t : ValueTree} (means : Means env vars names options t)
    (isArithmetic : t.IsArithmetic) (v : Option ℚ) :
    valueAlong env (BinaryOp.multiply.apply v
      ((t.arithmeticOperand names options .multiply).1.value env))
      (t.arithmeticOperand names options .multiply).2 =
        BinaryOp.multiply.apply v (t.sketchValue vars) := by
  rw [valueAlong_multiply env v _ (operand_kindred names options (by simp) isArithmetic
    (row_kindred names options isArithmetic)), ← value_grouped, ← means.operand .multiply]
  rfl

theorem Means.subtract_operand {t : ValueTree} (means : Means env vars names options t)
    (isArithmetic : t.IsArithmetic) (v : Option ℚ) :
    valueAlong env (BinaryOp.subtract.apply v
      ((t.arithmeticOperand names options .subtract).1.value env))
      (t.arithmeticOperand names options .subtract).2 =
        BinaryOp.subtract.apply v (t.sketchValue vars) := by
  rcases operand_cases names options (Or.inr (Or.inl rfl)) isArithmetic with
    ⟨_, _, _, _, _, _, runsOn, _⟩ | ⟨⟨e, single⟩, _⟩
  · simp [RunsOn] at runsOn
  · have value := means.operand .subtract
    rw [single] at value ⊢
    rw [← value]
    rfl

theorem means_arithmetic {op : String} {a b : ValueTree} {binary : BinaryOp}
    (given : arithmeticOp? op = some binary) (left : Means env vars names options a)
    (right : Means env vars names options b) (isArithmetic : a.IsArithmetic ∧ b.IsArithmetic) :
    Means env vars names options (arithmetic op a b) := by
  constructor
  · intro _
    rw [row_arithmetic names options a b given, value_join, left.operand, sketchValue, given]
    rcases arithmeticOp_cases given with rfl | rfl | rfl | rfl
    · exact right.add_operand isArithmetic.2 _
    · exact right.subtract_operand isArithmetic.2 _
    · exact right.multiply_operand isArithmetic.2 _
    · exact right.divided_operand isArithmetic.2 (Or.inr rfl) _
  · rintro _ _ _ ⟨⟩ product v
    rw [given] at product
    cases product
    rw [row_arithmetic names options a b given, dividedBy, if_pos given]
    have first := left.divided_operand isArithmetic.1 (Or.inl rfl) v
    have second := right.multiply_operand isArithmetic.2 (a.dividedBy vars v)
    rw [← second, ← first]
    simp [join, valueAlong]

end Meaning

/-! Numbers -/

theorem absValue_of_magnitude {x y : Binary64} (same : x.magnitude = y.magnitude) :
    x.absValue = y.absValue := by
  have exponent : x.exponentField = y.exponentField := by rw [Binary64.exponentField, same]; rfl
  have fraction : x.fraction = y.fraction := by rw [Binary64.fraction, same]; rfl
  have significand : x.significand = y.significand := by
    rw [Binary64.significand, exponent, fraction]
    rfl
  have scale : x.scale = y.scale := by
    rw [Binary64.scale, exponent]
    rfl
  rw [Binary64.absValue, significand, scale]
  rfl

theorem rational_ofMagnitude (negative : Bool) {x : Binary64} (finite : x.isFinite = true) :
    (Binary64.ofMagnitude negative x.magnitude).rational? =
      some (if negative then -x.absValue else x.absValue) := by
  have below : x.magnitude < Binary64.infinityWord := of_decide_eq_true finite
  obtain ⟨same, sign⟩ := magnitude_ofMagnitude negative (below.trans (by decide))
  have finite' : (Binary64.ofMagnitude negative x.magnitude).isFinite = true := by
    simpa [Binary64.isFinite, same] using below
  rw [Binary64.rational?, if_pos finite', sign, absValue_of_magnitude same]

/-- The sign of a literal is the sign of its number, as zero is zero with either sign. -/
theorem rational_of_isFinite {x : Binary64} (finite : x.isFinite = true) :
    x.rational? = some (if x.isBelowZero then -x.absValue else x.absValue) := by
  have below : x.magnitude < Binary64.infinityWord := of_decide_eq_true finite
  have number : x.isNaN = false := by simpa [Binary64.isNaN] using below.le
  rw [Binary64.rational?, if_pos finite]
  by_cases zero : x.magnitude = 0
  · have none : x.absValue = 0 := by
      simp [Binary64.absValue, Binary64.significand_eq_zero.mpr zero]
    simp [none]
  · rw [Binary64.isBelowZero_of_ne_zero number zero]

theorem value_literalExpr (env : List Char → Option ℚ) {x : Binary64} (finite : x.isFinite = true) :
    (literalExpr x.literal.toList).value env = x.rational? := by
  have below : x.magnitude < Binary64.infinityWord := of_decide_eq_true finite
  have number : x.isNaN = false := by simpa [Binary64.isNaN] using below.le
  have bounded : x.isInfinite = false := by simpa [Binary64.isInfinite] using below.ne
  obtain ⟨word, text, literal⟩ := Binary64.literal_finite number bounded
  have shape := Binary64.isNumeral_literalWord literal
  have digits : (wordExpr word).value env = some x.absValue := by
    obtain ⟨s, rest, rfl, first, _⟩ := shape.starts
    have reads := Binary64.decimalText_literalWord false finite literal
    simp only [wordExpr, first, if_true, Expr.value, reads, Option.bind_some]
    exact rational_ofMagnitude false finite
  rw [text, rational_of_isFinite finite]
  cases sign : x.isBelowZero with
  | true => simp [literalExpr, Expr.value, digits]
  | false => simp [literalExpr_word (Or.inr shape), digits]

theorem value_numberLiteral (env : List Char → Option ℚ) {raw : String}
    (finite : (numberValue raw).isSome = true) :
    (literalExpr (Rules.numberLiteral raw).1.toList).value env = numberValue raw := by
  unfold numberValue at finite ⊢
  unfold Rules.numberLiteral
  cases found : Binary64.ofText? (Text.trim raw) with
  | none => exact value_zeroExpr env
  | some x =>
    rw [found] at finite
    have isFinite : x.isFinite = true := by
      cases finitely : x.isFinite with
      | true => rfl
      | false => simp [Binary64.rational?, finitely] at finite
    exact value_literalExpr env isFinite

theorem digitPins_of_isArithmetic {t : ValueTree} (isArithmetic : t.IsArithmetic) :
    t.DigitPins := by
  induction t with
  | arithmetic op a b ihLeft ihRight => exact ⟨ihLeft isArithmetic.2.1, ihRight isArithmetic.2.2⟩
  | empty | number raw | named user => trivial
  | _ => exact isArithmetic.elim

/-- Every tree of arithmetic blocks has the value in the sketch that it is said to have. -/
theorem means_of_isArithmetic {names : String → String} (options : Options)
    {env : List Char → Option ℚ} {vars : String → ℚ} {t : ValueTree} (isArithmetic : t.IsArithmetic)
    (bound : ∀ user ∈ t.users, env (names user).toList = some (vars user)) :
    Means env vars names options t := by
  induction t with
  | empty => exact ⟨fun present => absurd rfl present, by simp⟩
  | number raw =>
    refine ⟨fun _ => ?_, by simp⟩
    rw [sketchValue]
    simp only [row, whole, grouped_nil]
    exact value_numberLiteral env isArithmetic
  | named user =>
    refine ⟨fun _ => ?_, by simp⟩
    rw [sketchValue]
    exact bound user (by simp [users])
  | arithmetic op a b ihLeft ihRight =>
    obtain ⟨binary, given⟩ := arithmeticOp_of_ne_power isArithmetic.1
    have left := ihLeft isArithmetic.2.1 fun user member => bound user (by simp [users, member])
    have right := ihRight isArithmetic.2.2 fun user member => bound user (by simp [users, member])
    exact means_arithmetic given left right isArithmetic.2
  | _ => exact isArithmetic.elim

theorem multiply_of_given {op : String} (given : arithmeticOp? op = some .multiply) :
    op = "MULTIPLY" := by
  unfold arithmeticOp? at given
  split at given <;> cases given
  rfl

theorem divide_of_given {op : String} (given : arithmeticOp? op = some .divide) :
    op = "DIVIDE" := by
  unfold arithmeticOp? at given
  split at given <;> cases given
  rfl

/-- Without a product for a divisor the sketch computes the value of the tree. -/
theorem sketchValue_eq_value {vars : String → ℚ} {t : ValueTree} (plain : t.PlainDivisors) :
    t.sketchValue vars = t.value vars := by
  induction t with
  | arithmetic op a b ihLeft ihRight =>
    obtain ⟨divisor, left, right⟩ := plain
    rw [sketchValue, value, ihLeft left, ihRight right]
    cases given : arithmeticOp? op with
    | none => rfl
    | some binary =>
      rcases arithmeticOp_cases given with rfl | rfl | rfl | rfl
      · rfl
      · rfl
      · rfl
      · have single : ∀ inner x y, b = arithmetic inner x y →
            arithmeticOp? inner ≠ some .multiply := by
          rintro inner x y rfl product
          exact divisor (divide_of_given given) (multiply_of_given product)
        rw [dividedBy_single _ single, ihRight right]
        rfl
  | _ => rw [sketchValue, value] <;> simp

end ValueTree

def NameTable.environment (table : NameTable) (vars : String → ℚ) (name : List Char) : Option ℚ :=
  (table.userOf? name).map vars

open NameTable in
/-- The code of arithmetic blocks is an expression, and it has the value that the sketch is said to
compute. That is the value of the blocks if no divisor among them is a product. -/
theorem arithmetic_code_value (g : Generator) (id : BlockId) (t : ValueTree) (r : Run)
    (vars : String → ℚ) (rules : g.rules = Rules.esp32) (holds : g.workspace.Holds (some id) t)
    (present : t ≠ .empty) (isArithmetic : t.IsArithmetic) (allocated : r.session.names.Allocated) :
    ∃ text order r' e, g.emit id r = (.expression text order, r') ∧ Code.read text = some e ∧
      e.value (r'.session.names.environment vars) = t.sketchValue vars ∧
      (t.PlainDivisors → e.value (r'.session.names.environment vars) = t.value vars) := by
  obtain ⟨text, order, r', emitted, grown, read⟩ := g.emit_reads rules holds present
    (ValueTree.digitPins_of_isArithmetic isArithmetic) allocated
  have sound := sound_of_allocated grown.allocated
  have bound : ∀ user ∈ t.users, r'.session.names.environment vars
      (r'.session.names.naming user).toList = some (vars user) := by
    intro user member
    obtain ⟨name, found⟩ := grown.known user member
    rw [(agrees_naming sound).known user name found, environment, userOf_lookup sound found]
    rfl
  have value := (ValueTree.means_of_isArithmetic g.options isArithmetic bound).whole present
  refine ⟨text, order, r', _, emitted, read, value, fun plain => ?_⟩
  rw [value, ValueTree.sketchValue_eq_value plain]

def quotientBlocks : Workspace where
  blocks := #[sampleBlock 0 "math_arithmetic" ("OP", "DIVIDE") [("A", 1), ("B", 2)],
    sampleBlock 1 "math_number" ("NUM", "12") [],
    sampleBlock 2 "math_arithmetic" ("OP", "MULTIPLY") [("A", 3), ("B", 4)],
    sampleBlock 3 "math_number" ("NUM", "2") [],
    sampleBlock 4 "math_number" ("NUM", "3") []]

def quotientTree : ValueTree :=
  .arithmetic "DIVIDE" (.number "12") (.arithmetic "MULTIPLY" (.number "2") (.number "3"))

theorem quotientBlocks_hold : quotientBlocks.Holds (some 0) quotientTree := by
  have twelve : quotientBlocks.Holds (some 1) (.number "12") :=
    .number (live_sampleBlock ("NUM", "12") [] rfl)
  have two : quotientBlocks.Holds (some 3) (.number "2") :=
    .number (live_sampleBlock ("NUM", "2") [] rfl)
  have three : quotientBlocks.Holds (some 4) (.number "3") :=
    .number (live_sampleBlock ("NUM", "3") [] rfl)
  have product : quotientBlocks.Holds (some 2)
      (.arithmetic "MULTIPLY" (.number "2") (.number "3")) :=
    .arithmetic (live_sampleBlock ("OP", "MULTIPLY") [("A", 3), ("B", 4)] rfl) two three
  exact .arithmetic (live_sampleBlock ("OP", "DIVIDE") [("A", 1), ("B", 2)] rfl) twelve product

theorem numberValue_small (raw : String) (n : Nat) (small : n ≤ 12)
    (reads : Binary64.ofText? (Text.trim raw) = some (.ofInt n)) :
    ValueTree.numberValue raw = some (n : ℚ) := by
  have whole : ∀ k ≤ 12, (Binary64.ofInt (k : Nat)).isFinite = true ∧
      (Binary64.ofInt (k : Nat)).negative = false ∧
        (Binary64.ofInt (k : Nat)).integral? = some k := by
    decide
  obtain ⟨finite, positive, integral⟩ := whole n small
  rw [ValueTree.numberValue, reads]
  simp [Binary64.rational?, finite, positive, Binary64.value_integral integral]

theorem quotientTree_numbers :
    ValueTree.numberValue "12" = some 12 ∧ ValueTree.numberValue "2" = some 2 ∧
      ValueTree.numberValue "3" = some 3 :=
  ⟨numberValue_small "12" 12 (by decide) (by decide),
    numberValue_small "2" 2 (by decide) (by decide),
    numberValue_small "3" 3 (by decide) (by decide)⟩

theorem quotientTree_value (vars : String → ℚ) : quotientTree.value vars = some 2 := by
  simp [quotientTree, ValueTree.value, arithmeticOp?, quotientTree_numbers, BinaryOp.apply]
  norm_num

theorem quotientTree_sketchValue (vars : String → ℚ) : quotientTree.sketchValue vars = some 18 := by
  simp [quotientTree, ValueTree.sketchValue, ValueTree.dividedBy, arithmeticOp?,
    quotientTree_numbers, BinaryOp.apply]
  norm_num

def quotient : Generator := ⟨quotientBlocks, Rules.esp32, .default⟩

/-- The blocks give two and the sketch computes eighteen. -/
theorem quotient_by_product_differs :
    ∃ text order r' e, quotient.emit 0 .new = (.expression text order, r') ∧
      Code.read text = some e ∧
      e.value (r'.session.names.environment fun _ => 0) = some 18 ∧
      quotientTree.value (fun _ => 0) = some 2 := by
  have isArithmetic : quotientTree.IsArithmetic := by
    simp [quotientTree, ValueTree.IsArithmetic, quotientTree_numbers]
  obtain ⟨text, order, r', e, emitted, read, value, _⟩ :=
    arithmetic_code_value quotient 0 quotientTree
    .new (fun _ => 0) rfl quotientBlocks_hold (by simp [quotientTree]) isArithmetic .default
  exact ⟨text, order, r', e, emitted, read, value.trans (quotientTree_sketchValue _),
    quotientTree_value _⟩

example : (quotient.emit 0 .new).1 = .expression "12 / 2 * 3" .division := by decide +kernel

end BlockSketch
