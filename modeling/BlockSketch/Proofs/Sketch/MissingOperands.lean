import BlockSketch.Proofs.Sketch.Logic

/-
What a connective makes of a missing operand. Next to another operand a missing one reads as false,
which changes nothing in a disjunction and everything in a conjunction, and so does a missing one in
a conjunction without any operands. A disjunction without any operands is the exception: it reads as
true, until a single false operand is put into it.
-/
namespace BlockSketch
open Code

/-! Truth of expressions -/

/-- The truth value of an expression, where the names other than the two constants stand for the
given values. The connectives look at their right side only if the left one leaves the result
open. -/
def Code.Expr.truth (env : List Char → Option Bool) : Expr → Option Bool
  | .name text =>
    if text = "true".toList then some true
    else if text = "false".toList then some false
    else env text
  | .unary .not x => (x.truth env).map (! ·)
  | .binary .and a b => (a.truth env).bind fun first => if first then b.truth env else some false
  | .binary .or a b => (a.truth env).bind fun first => if first then some true else b.truth env
  | _ => none

section Truth

variable {env : List Char → Option Bool}

@[simp] theorem truth_trueExpr : trueExpr.truth env = some true := rfl

@[simp] theorem truth_falseExpr : falseExpr.truth env = some false := by
  have other : "false".toList ≠ "true".toList := by decide
  rw [falseExpr, Expr.truth, if_neg other, if_pos rfl]

theorem truth_rotate {op : BinaryOp} (connective : op = .and ∨ op = .or) (a b c : Expr) :
    (Expr.binary op (.binary op a b) c).truth env =
      (Expr.binary op a (.binary op b c)).truth env := by
  rcases connective with rfl | rfl
  · simp only [Expr.truth]
    rcases a.truth env with _ | _ | _ <;> rfl
  · simp only [Expr.truth]
    rcases a.truth env with _ | _ | _ <;> rfl

theorem Regrouped.truth {a b : Expr} (same : Regrouped a b) : a.truth env = b.truth env := by
  induction same with
  | refl e => rfl
  | symm _ ih => exact ih.symm
  | trans _ _ first second => exact first.trans second
  | unary op _ ih =>
    cases op with
    | not => simp only [Expr.truth, ih]
    | minus => rfl
  | binary op _ _ left right => cases op <;> simp only [Expr.truth, left, right]
  | rotate connective a b c => exact truth_rotate connective a b c

end Truth

/-! Truth of trees -/

namespace ValueTree

def IsBoolean : ValueTree → Prop
  | empty | boolean _ | named _ => True
  | negate x => x.IsBoolean
  | logic _ a b => a.IsBoolean ∧ b.IsBoolean
  | _ => False

def truth (vars : String → Bool) (fallback : Bool) : ValueTree → Bool
  | empty => fallback
  | boolean raw => raw = "TRUE"
  | named user => vars user
  | negate x => !(x.truth vars true)
  | logic op a b =>
    if a = .empty ∧ b = .empty then op = "OR"
    else if op = "OR" then a.truth vars false || b.truth vars false
    else a.truth vars false && b.truth vars false
  | _ => false

theorem isLogic_of_isBoolean {t : ValueTree} (isBoolean : t.IsBoolean) : t.IsLogic := by
  induction t with
  | empty | boolean | named => trivial
  | negate x ih => exact ih isBoolean
  | logic op a b ihLeft ihRight => exact ⟨ihLeft isBoolean.1, ihRight isBoolean.2⟩
  | _ => exact isBoolean.elim

def constant (value : Bool) : Expr := if value then trueExpr else falseExpr

theorem truth_constant {env : List Char → Option Bool} (value : Bool) :
    (constant value).truth env = some value := by
  cases value with
  | true => exact truth_trueExpr
  | false => exact truth_falseExpr

theorem truth_socketExpr {names : String → String} {options : Options}
    {env : List Char → Option Bool} {vars : String → Bool} {t : ValueTree} (fallback : Bool)
    (isBoolean : t.IsBoolean)
    (bound : ∀ user ∈ t.users, (Expr.name (names user).toList).truth env = some (vars user)) :
    (t.socketExpr names options (constant fallback)).truth env = some (t.truth vars fallback) := by
  induction t generalizing fallback with
  | empty => exact truth_constant fallback
  | boolean raw =>
    simp only [socketExpr, truth]
    by_cases on : raw = "TRUE"
    · simp [on]
    · simp [on]
  | named user => exact bound user (by simp [users])
  | negate x ih =>
    have inner : (x.socketExpr names options trueExpr).truth env = some (x.truth vars true) :=
      ih true isBoolean bound
    simp only [socketExpr, Expr.truth, inner, Option.map_some, truth]
  | logic op a b ihLeft ihRight =>
    have left : (a.socketExpr names options falseExpr).truth env = some (a.truth vars false) :=
      ihLeft false isBoolean.1 fun user member => bound user (List.mem_append_left _ member)
    have right : (b.socketExpr names options falseExpr).truth env = some (b.truth vars false) :=
      ihRight false isBoolean.2 fun user member => bound user (List.mem_append_right _ member)
    simp only [socketExpr, truth, logicOp]
    by_cases neither : a = .empty ∧ b = .empty
    · rw [if_pos neither, if_pos neither]
      by_cases either : op = "OR" <;> simp [either]
    · rw [if_neg neither, if_neg neither]
      by_cases either : op = "OR"
      · simp only [either, if_true, Expr.truth, left, right, Option.bind_some]
        cases a.truth vars false <;> rfl
      · simp only [either, if_false, Expr.truth, left, right, Option.bind_some]
        cases a.truth vars false <;> rfl
  | _ => exact isBoolean.elim

end ValueTree

/-! Places in a tree -/

inductive LogicSocket where
  | a
  | b
  deriving DecidableEq, Repr

def LogicSocket.connective (socket : LogicSocket) (op : String) (operand other : ValueTree) :
    ValueTree :=
  match socket with
  | a => .logic op operand other
  | b => .logic op other operand

inductive LogicContext where
  | hole
  | negate (inner : LogicContext)
  | left (op : String) (inner : LogicContext) (b : ValueTree)
  | right (op : String) (a : ValueTree) (inner : LogicContext)

namespace LogicContext

def plug : LogicContext → ValueTree → ValueTree
  | hole, t => t
  | negate inner, t => .negate (inner.plug t)
  | left op inner b, t => .logic op (inner.plug t) b
  | right op a inner, t => .logic op a (inner.plug t)

theorem plug_ne_empty (context : LogicContext) {t : ValueTree} (present : t ≠ .empty) :
    context.plug t ≠ .empty := by
  cases context with
  | hole => exact present
  | negate inner | left op inner b | right op a inner => exact nofun

theorem plug_isBoolean (context : LogicContext) {t s : ValueTree}
    (inner : t.IsBoolean → s.IsBoolean) (isBoolean : (context.plug t).IsBoolean) :
    (context.plug s).IsBoolean := by
  induction context with
  | hole => exact inner isBoolean
  | negate _ ih => exact ih isBoolean
  | left op _ b ih => exact ⟨ih isBoolean.1, isBoolean.2⟩
  | right op a _ ih => exact ⟨isBoolean.1, ih isBoolean.2⟩

/-- Blocks of the same truth value are as good as each other in any place. -/
theorem truth_plug (context : LogicContext) (vars : String → Bool) {t s : ValueTree}
    (tPresent : t ≠ .empty) (sPresent : s ≠ .empty)
    (same : ∀ fallback, t.truth vars fallback = s.truth vars fallback) (fallback : Bool) :
    (context.plug t).truth vars fallback = (context.plug s).truth vars fallback := by
  induction context generalizing fallback with
  | hole => exact same fallback
  | negate inner ih => simp only [plug, ValueTree.truth, ih]
  | left op inner b ih =>
    have one := inner.plug_ne_empty tPresent
    have two := inner.plug_ne_empty sPresent
    simp only [plug, ValueTree.truth, one, two, false_and, if_false, ih]
  | right op a inner ih =>
    have one := inner.plug_ne_empty tPresent
    have two := inner.plug_ne_empty sPresent
    simp only [plug, ValueTree.truth, one, two, and_false, if_false, ih]

end LogicContext

namespace LogicSocket

variable (socket : LogicSocket) (vars : String → Bool) {op : String} {other : ValueTree}

theorem connective_ne_empty (op : String) (operand other : ValueTree) :
    socket.connective op operand other ≠ .empty := by
  cases socket with
  | a | b => exact nofun

theorem connective_isBoolean {operand operand' : ValueTree} (present : operand'.IsBoolean)
    (isBoolean : (socket.connective op operand other).IsBoolean) :
    (socket.connective op operand' other).IsBoolean := by
  cases socket with
  | a => exact ⟨present, isBoolean.2⟩
  | b => exact ⟨isBoolean.1, present⟩

theorem truth_missing (ordinary : ¬ (op = "OR" ∧ other = .empty)) (fallback : Bool) :
    (socket.connective op .empty other).truth vars fallback =
      (socket.connective op (.boolean "FALSE") other).truth vars fallback := by
  by_cases alone : other = .empty
  · have conjunction : op ≠ "OR" := fun either => ordinary ⟨either, alone⟩
    cases socket with
    | a | b => simp [connective, ValueTree.truth, alone, conjunction]
  · cases socket with
    | a | b => simp [connective, ValueTree.truth, alone]

/-- A disjunction without operands is true, and one that is given a false operand is false. -/
theorem truth_alone (fallback : Bool) :
    (socket.connective "OR" .empty .empty).truth vars fallback =
      (ValueTree.boolean "TRUE").truth vars fallback ∧
      (socket.connective "OR" (.boolean "FALSE") .empty).truth vars fallback =
        (ValueTree.boolean "FALSE").truth vars fallback := by
  cases socket with
  | a | b => simp [connective, ValueTree.truth]

end LogicSocket

/-! Truth of emitted code -/

def NameTable.valuation (table : NameTable) (vars : String → Bool) (name : List Char) :
    Option Bool :=
  (table.userOf? name).map vars

def Generator.EmitsTruth (g : Generator) (id : BlockId) (r : Run) (vars : String → Bool)
    (value : Bool) : Prop :=
  ∃ text order r' e, g.emit id r = (.expression text order, r') ∧ Code.read text = some e ∧
    e.truth (r'.session.names.valuation vars) = some value

open NameTable in
theorem valuation_naming {table : NameTable} (allocated : table.Allocated) (vars : String → Bool)
    {user name : String} (found : table.byUser.lookup user = some name) :
    (Expr.name (table.naming user).toList).truth (table.valuation vars) = some (vars user) := by
  have sound := sound_of_allocated allocated
  have same : table.naming user = name := (agrees_naming sound).known user name found
  have free : name ∉ reservedWords :=
    (allocated.taken_free.2 name (sound.taken _ (mem_of_lookup found))).2
  have constants : "true" ∈ reservedWords ∧ "false" ∈ reservedWords := by decide
  have notTrue : name.toList ≠ "true".toList := by
    intro equal
    exact free (String.toList_injective equal ▸ constants.1)
  have notFalse : name.toList ≠ "false".toList := by
    intro equal
    exact free (String.toList_injective equal ▸ constants.2)
  rw [same, Expr.truth, if_neg notTrue, if_neg notFalse, valuation, userOf_lookup sound found,
    Option.map_some]

open NameTable in
theorem emitsTruth_of_holds {g : Generator} {id : BlockId} {t : ValueTree} {r : Run}
    (vars : String → Bool) (rules : g.rules = Rules.esp32) (holds : g.workspace.Holds (some id) t)
    (present : t ≠ .empty) (isBoolean : t.IsBoolean) (allocated : r.session.names.Allocated) :
    g.EmitsTruth id r vars (t.truth vars true) := by
  have isLogic := ValueTree.isLogic_of_isBoolean isBoolean
  obtain ⟨text, order, r', emitted, grown, read⟩ := g.emit_reads rules holds present
    (ValueTree.digitPins_of_isLogic isLogic) allocated
  have agrees := agrees_naming (sound_of_allocated grown.allocated)
  have bound : ∀ user ∈ t.users, (Expr.name (r'.session.names.naming user).toList).truth
      (r'.session.names.valuation vars) = some (vars user) := by
    intro user member
    obtain ⟨name, found⟩ := grown.known user member
    exact valuation_naming grown.allocated vars found
  have regrouped : Regrouped (t.row r'.session.names.naming g.options).whole
      (t.socketExpr r'.session.names.naming g.options (ValueTree.constant true)) :=
    ValueTree.regrouped_row agrees.isName _ isLogic present
  exact ⟨text, order, r', _, emitted, read,
    regrouped.truth.trans (ValueTree.truth_socketExpr true isBoolean bound)⟩

/-- With an operand socket empty or its block disabled, a tree of logic blocks is emitted as an
expression that has the truth value of the one with a false constant in the socket, for all values
of the variables, unless the connective is a disjunction that lacks its other operand too. Then it
counts as the constant true without the false operand and as the constant false with it. -/
theorem missing_operands_read_as_false (g g' : Generator) (id id' : BlockId) (r r' : Run)
    (context : LogicContext) (socket : LogicSocket) (op : String) (other : ValueTree)
    (vars : String → Bool)
    (rules : g.rules = Rules.esp32) (rules' : g'.rules = Rules.esp32)
    (without : g.workspace.Holds (some id) (context.plug (socket.connective op .empty other)))
    (withFalse : g'.workspace.Holds (some id')
      (context.plug (socket.connective op (.boolean "FALSE") other)))
    (isBoolean : (context.plug (socket.connective op .empty other)).IsBoolean)
    (allocated : r.session.names.Allocated) (allocated' : r'.session.names.Allocated) :
    ∃ value value', g.EmitsTruth id r vars value ∧ g'.EmitsTruth id' r' vars value' ∧
      (¬ (op = "OR" ∧ other = .empty) → value = value') ∧
      (op = "OR" ∧ other = .empty → value = (context.plug (.boolean "TRUE")).truth vars true ∧
        value' = (context.plug (.boolean "FALSE")).truth vars true) := by
  have present := socket.connective_ne_empty op .empty other
  have present' := socket.connective_ne_empty op (.boolean "FALSE") other
  have isBoolean' : (context.plug (socket.connective op (.boolean "FALSE") other)).IsBoolean :=
    context.plug_isBoolean (socket.connective_isBoolean trivial) isBoolean
  refine ⟨_, _,
    emitsTruth_of_holds vars rules without (context.plug_ne_empty present) isBoolean allocated,
    emitsTruth_of_holds vars rules' withFalse (context.plug_ne_empty present') isBoolean'
    allocated', ?_, ?_⟩
  · intro ordinary
    exact context.truth_plug vars present present' (socket.truth_missing vars ordinary) true
  · rintro ⟨rfl, rfl⟩
    have alone := socket.truth_alone vars
    have constant : ∀ raw, ValueTree.boolean raw ≠ .empty := by
      intro raw same
      cases same
    exact ⟨context.truth_plug vars present (constant _) (fun fallback => (alone fallback).1) true,
      context.truth_plug vars present' (constant _) (fun fallback => (alone fallback).2) true⟩

def guardBlocks : Workspace where
  blocks := #[sampleBlock 0 "logic_negate" ("", "") [("BOOL", 1)],
    sampleBlock 1 "logic_operation" ("OP", "AND") [("A", 2), ("B", 3)],
    { sampleBlock 2 "logic_boolean" ("BOOL", "TRUE") [] with disabled := true },
    sampleBlock 3 "variables_get" ("VAR", "ready") []]

def guardFalseBlocks : Workspace where
  blocks := #[sampleBlock 0 "logic_negate" ("", "") [("BOOL", 1)],
    sampleBlock 1 "logic_operation" ("OP", "AND") [("A", 2), ("B", 3)],
    sampleBlock 2 "logic_boolean" ("BOOL", "FALSE") [],
    sampleBlock 3 "variables_get" ("VAR", "ready") []]

theorem guardBlocks_hold : guardBlocks.Holds (some 0)
    (.negate (.logic "AND" .empty (.named "ready"))) := by
  have off : guardBlocks.Holds (some 2) .empty := by
    refine .disabled fun b found => ?_
    cases found
    rfl
  have ready : guardBlocks.Holds (some 3) (.named "ready") :=
    .named (live_sampleBlock ("VAR", "ready") [] rfl)
  exact .negate (live_sampleBlock ("", "") [("BOOL", 1)] rfl)
    (.logic (live_sampleBlock ("OP", "AND") [("A", 2), ("B", 3)] rfl) off ready)

theorem guardFalseBlocks_hold : guardFalseBlocks.Holds (some 0)
    (.negate (.logic "AND" (.boolean "FALSE") (.named "ready"))) := by
  have constant : guardFalseBlocks.Holds (some 2) (.boolean "FALSE") :=
    .boolean (live_sampleBlock ("BOOL", "FALSE") [] rfl)
  have ready : guardFalseBlocks.Holds (some 3) (.named "ready") :=
    .named (live_sampleBlock ("VAR", "ready") [] rfl)
  exact .negate (live_sampleBlock ("", "") [("BOOL", 1)] rfl)
    (.logic (live_sampleBlock ("OP", "AND") [("A", 2), ("B", 3)] rfl) constant ready)

theorem disabled_operand_reads_as_false :
    ∃ value,
      Generator.EmitsTruth ⟨guardBlocks, Rules.esp32, .default⟩ 0 .new (fun _ => true) value ∧
      Generator.EmitsTruth ⟨guardFalseBlocks, Rules.esp32, .default⟩ 0 .new
        (fun _ => true) value := by
  obtain ⟨value, value', emitted, emitted', same, _⟩ := missing_operands_read_as_false
    ⟨guardBlocks, Rules.esp32, .default⟩ ⟨guardFalseBlocks, Rules.esp32, .default⟩ 0 0 .new .new
      (.negate .hole) .a
    "AND" (.named "ready") (fun _ => true) rfl rfl guardBlocks_hold guardFalseBlocks_hold
      ⟨trivial, trivial⟩
    .default .default
  rw [← same (by decide)] at emitted'
  exact ⟨value, emitted, emitted'⟩

/-! A disjunction without operands -/

theorem Generator.EmitsTruth.unique {g : Generator} {id : BlockId} {r : Run} {vars : String → Bool}
    {value value' : Bool} (first : g.EmitsTruth id r vars value)
    (second : g.EmitsTruth id r vars value') : value = value' := by
  obtain ⟨text, order, r', e, emitted, read, truth⟩ := first
  obtain ⟨text', order', r'', e', emitted', read', truth'⟩ := second
  obtain ⟨given, rfl⟩ := Prod.mk.inj (emitted.symm.trans emitted')
  obtain ⟨rfl, rfl⟩ := Emission.expression.inj given
  obtain rfl : e = e' := Option.some.inj (read.symm.trans read')
  exact Option.some.inj (truth.symm.trans truth')

def bareDisjunction : Workspace where
  blocks := #[sampleBlock 0 "logic_operation" ("OP", "OR") []]

def falseDisjunction : Workspace where
  blocks := #[sampleBlock 0 "logic_operation" ("OP", "OR") [("A", 1)],
    sampleBlock 1 "logic_boolean" ("BOOL", "FALSE") []]

/-- A disjunction whose sockets are both empty has another value than one with a false constant in a
socket. -/
theorem bare_disjunction_is_true :
    bareDisjunction.Holds (some 0) (LogicSocket.a.connective "OR" .empty .empty) ∧
      falseDisjunction.Holds (some 0) (LogicSocket.a.connective "OR" (.boolean "FALSE") .empty) ∧
      Generator.EmitsTruth ⟨bareDisjunction, Rules.esp32, .default⟩ 0 .new (fun _ => true) true ∧
      Generator.EmitsTruth ⟨falseDisjunction, Rules.esp32, .default⟩ 0 .new (fun _ => true) false ∧
      ¬ ∃ value,
        Generator.EmitsTruth ⟨bareDisjunction, Rules.esp32, .default⟩ 0 .new (fun _ => true) value ∧
        Generator.EmitsTruth ⟨falseDisjunction, Rules.esp32, .default⟩ 0 .new
          (fun _ => true) value := by
  have bare : bareDisjunction.Holds (some 0) (.logic "OR" .empty .empty) :=
    .logic (live_sampleBlock ("OP", "OR") [] rfl) .vacant .vacant
  have constant : falseDisjunction.Holds (some 1) (.boolean "FALSE") :=
    .boolean (live_sampleBlock ("BOOL", "FALSE") [] rfl)
  have filled : falseDisjunction.Holds (some 0) (.logic "OR" (.boolean "FALSE") .empty) :=
    .logic (live_sampleBlock ("OP", "OR") [("A", 1)] rfl) constant .vacant
  have isTrue :
      Generator.EmitsTruth ⟨bareDisjunction, Rules.esp32, .default⟩ 0 .new (fun _ => true) true :=
    emitsTruth_of_holds (t := .logic "OR" .empty .empty) _ rfl bare nofun
      ⟨trivial, trivial⟩ .default
  have isFalse :
      Generator.EmitsTruth ⟨falseDisjunction, Rules.esp32, .default⟩ 0 .new (fun _ => true) false :=
    emitsTruth_of_holds (t := .logic "OR" (.boolean "FALSE") .empty) _ rfl filled nofun
      ⟨trivial, trivial⟩ .default
  refine ⟨bare, filled, isTrue, isFalse, ?_⟩
  rintro ⟨value, first, second⟩
  have one : true = value := isTrue.unique first
  have two : false = value := isFalse.unique second
  exact Bool.noConfusion (one.trans two.symm)

end BlockSketch
