import BlockSketch.Proofs.Names
import BlockSketch.Proofs.Number.LiteralText
import BlockSketch.Proofs.Sketch.Course
import BlockSketch.Proofs.Sketch.Recursion
import BlockSketch.Sketch.Rules

/-
Trees of value blocks. A tree holds what the rules read of its blocks: the texts of their fields and
the trees in their sockets. The code of a tree is put together from the code of its parts, and it is
what the generator gives for any block that holds the tree.
-/
namespace BlockSketch

inductive ValueTree where
  | empty
  | number (raw : String)
  | boolean (raw : String)
  | named (user : String)
  | level (state : String)
  | millis
  | digitalRead (pin : String)
  | buttonRead (pin : String)
  | negate (x : ValueTree)
  | compare (op : String) (a b : ValueTree)
  | logic (op : String) (a b : ValueTree)
  | arithmetic (op : String) (a b : ValueTree)
  deriving DecidableEq, Repr

namespace Workspace

structure Live (w : Workspace) (id : BlockId) (kind : String) (b : Block) : Prop where
  found : w.get? id = some b
  kind : b.kind = kind
  enabled : b.disabled = false

/-- A slot holds a tree. Disabled blocks count as nothing. -/
inductive Holds (w : Workspace) : Option BlockId → ValueTree → Prop where
  | vacant : Holds w none .empty
  | disabled {id : BlockId} (off : ∀ b, w.get? id = some b → b.disabled = true) :
      Holds w (some id) .empty
  | number {id : BlockId} {b : Block} (live : w.Live id "math_number" b) :
      Holds w (some id) (.number (b.fieldText "NUM"))
  | boolean {id : BlockId} {b : Block} (live : w.Live id "logic_boolean" b) :
      Holds w (some id) (.boolean (b.fieldText "BOOL"))
  | named {id : BlockId} {b : Block} (live : w.Live id "variables_get" b) :
      Holds w (some id) (.named (b.fieldText "VAR"))
  | level {id : BlockId} {b : Block} (live : w.Live id "esp32_high_low" b) :
      Holds w (some id) (.level (b.fieldText "STATE"))
  | millis {id : BlockId} {b : Block} (live : w.Live id "esp32_millis" b) :
      Holds w (some id) .millis
  | digitalRead {id : BlockId} {b : Block} (live : w.Live id "esp32_digital_read" b) :
      Holds w (some id) (.digitalRead (b.fieldText "PIN"))
  | buttonRead {id : BlockId} {b : Block} (live : w.Live id "esp32_button_read" b) :
      Holds w (some id) (.buttonRead (b.fieldText "PIN"))
  | negate {id : BlockId} {b : Block} {x : ValueTree} (live : w.Live id "logic_negate" b)
      (operand : Holds w (b.values.get? "BOOL") x) : Holds w (some id) (.negate x)
  | compare {id : BlockId} {b : Block} {x y : ValueTree} (live : w.Live id "logic_compare" b)
      (left : Holds w (b.values.get? "A") x) (right : Holds w (b.values.get? "B") y) :
      Holds w (some id) (.compare (b.fieldText "OP") x y)
  | logic {id : BlockId} {b : Block} {x y : ValueTree} (live : w.Live id "logic_operation" b)
      (left : Holds w (b.values.get? "A") x) (right : Holds w (b.values.get? "B") y) :
      Holds w (some id) (.logic (b.fieldText "OP") x y)
  | arithmetic {id : BlockId} {b : Block} {x y : ValueTree} (live : w.Live id "math_arithmetic" b)
      (left : Holds w (b.values.get? "A") x) (right : Holds w (b.values.get? "B") y) :
      Holds w (some id) (.arithmetic (b.fieldText "OP") x y)

end Workspace

namespace ValueTree

def kind : ValueTree → String
  | empty => ""
  | number _ => "math_number"
  | boolean _ => "logic_boolean"
  | named _ => "variables_get"
  | level _ => "esp32_high_low"
  | millis => "esp32_millis"
  | digitalRead _ => "esp32_digital_read"
  | buttonRead _ => "esp32_button_read"
  | negate _ => "logic_negate"
  | compare _ _ _ => "logic_compare"
  | logic _ _ _ => "logic_operation"
  | arithmetic _ _ _ => "math_arithmetic"

def users : ValueTree → List String
  | named user => [user]
  | negate x => x.users
  | compare _ a b | logic _ a b | arithmetic _ a b => a.users ++ b.users
  | _ => []

def height : ValueTree → Nat
  | empty => 0
  | negate x => x.height + 1
  | compare _ a b | logic _ a b | arithmetic _ a b => max a.height b.height + 1
  | _ => 1

end ValueTree

/-! Nested blocks are different blocks -/

namespace Workspace

theorem Live.unique {w : Workspace} {id : BlockId} {j k : String} {b c : Block}
    (first : w.Live id j b) (second : w.Live id k c) : b = c :=
  Option.some.inj (first.found.symm.trans second.found)

theorem Live.same_kind {w : Workspace} {id : BlockId} {j k : String} {b c : Block}
    (first : w.Live id j b) (second : w.Live id k c) : j = k := by
  rw [← first.kind, ← second.kind, first.unique second]

theorem Live.not_disabled {w : Workspace} {id : BlockId} {k : String} {b : Block}
    (live : w.Live id k b) (off : ∀ b, w.get? id = some b → b.disabled = true) : False := by
  have disabled := off b live.found
  simp [live.enabled] at disabled

theorem Holds.kind_eq {w : Workspace} {id : BlockId} {k : String} {b : Block} {t : ValueTree}
    (holds : w.Holds (some id) t) (live : w.Live id k b) : t.kind = k := by
  cases holds with
  | disabled off => exact (live.not_disabled off).elim
  | _ => exact Live.same_kind (by assumption) live

theorem Holds.unique {w : Workspace} {slot : Option BlockId} {t s : ValueTree}
    (first : w.Holds slot t) (second : w.Holds slot s) : t = s := by
  induction first generalizing s with
  | vacant => cases second; rfl
  | disabled off =>
    cases second with
    | disabled _ => rfl
    | _ => exact (Live.not_disabled (by assumption) off).elim
  | number live | boolean live | named live | level live | digitalRead live | buttonRead live =>
    have kind := second.kind_eq live
    cases second <;> simp [ValueTree.kind] at kind
    rename_i live'
    rw [live.unique live']
  | millis live =>
    have kind := second.kind_eq live
    cases second <;> simp [ValueTree.kind] at kind
    rfl
  | negate live _ ih =>
    have kind := second.kind_eq live
    cases second <;> simp [ValueTree.kind] at kind
    rename_i operand live'
    rw [← live.unique live'] at operand
    rw [ih operand]
  | compare live _ _ ihLeft ihRight | logic live _ _ ihLeft ihRight
  | arithmetic live _ _ ihLeft ihRight =>
    have kind := second.kind_eq live
    cases second <;> simp [ValueTree.kind] at kind
    rename_i left right live'
    rw [← live.unique live'] at left right ⊢
    rw [ihLeft left, ihRight right]

def Nested (w : Workspace) (h : Nat) : Prop :=
  ∃ ids : List BlockId, ids.length = h ∧ ids.Nodup ∧
    ∀ id ∈ ids, id < w.size ∧ ∃ s, w.Holds (some id) s ∧ s.height ≤ h

theorem nested_zero (w : Workspace) : w.Nested 0 := ⟨[], rfl, List.nodup_nil, by simp⟩

/-- A block above nested blocks is none of them, because its own tree is higher than theirs. -/
theorem nested_succ {w : Workspace} {id : BlockId} {k : String} {b : Block} {t : ValueTree}
    {h : Nat} (live : w.Live id k b) (holds : w.Holds (some id) t) (height : t.height = h + 1)
    (below : w.Nested h) : w.Nested (h + 1) := by
  obtain ⟨ids, length, nodup, each⟩ := below
  refine ⟨id :: ids, by rw [List.length_cons, length], List.nodup_cons.mpr ⟨?_, nodup⟩, ?_⟩
  · intro again
    obtain ⟨_, s, held, low⟩ := each id again
    rw [← holds.unique held, height] at low
    omega
  · intro other member
    rcases List.mem_cons.mp member with rfl | later
    · exact ⟨get_lt_size live.found, t, holds, Nat.le_of_eq height⟩
    · obtain ⟨bound, s, held, low⟩ := each other later
      exact ⟨bound, s, held, Nat.le_succ_of_le low⟩

theorem nested_max {w : Workspace} {m n : Nat} (left : w.Nested m) (right : w.Nested n) :
    w.Nested (max m n) := by
  rcases Nat.le_total m n with le | le
  · rwa [Nat.max_eq_right le]
  · rwa [Nat.max_eq_left le]

theorem Holds.nested {w : Workspace} {slot : Option BlockId} {t : ValueTree}
    (holds : w.Holds slot t) : w.Nested t.height := by
  induction holds with
  | vacant | disabled _ => exact nested_zero w
  | number live => exact nested_succ live (.number live) rfl (nested_zero w)
  | boolean live => exact nested_succ live (.boolean live) rfl (nested_zero w)
  | named live => exact nested_succ live (.named live) rfl (nested_zero w)
  | level live => exact nested_succ live (.level live) rfl (nested_zero w)
  | millis live => exact nested_succ live (.millis live) rfl (nested_zero w)
  | digitalRead live => exact nested_succ live (.digitalRead live) rfl (nested_zero w)
  | buttonRead live => exact nested_succ live (.buttonRead live) rfl (nested_zero w)
  | negate live operand ih => exact nested_succ live (.negate live operand) rfl ih
  | compare live left right ihLeft ihRight =>
    exact nested_succ live (.compare live left right) rfl (nested_max ihLeft ihRight)
  | logic live left right ihLeft ihRight =>
    exact nested_succ live (.logic live left right) rfl (nested_max ihLeft ihRight)
  | arithmetic live left right ihLeft ihRight =>
    exact nested_succ live (.arithmetic live left right) rfl (nested_max ihLeft ihRight)

theorem Holds.height_le_size {w : Workspace} {slot : Option BlockId} {t : ValueTree}
    (holds : w.Holds slot t) : t.height ≤ w.size := by
  obtain ⟨ids, length, nodup, each⟩ := holds.nested
  have inside : ids ⊆ List.range w.size := fun id member => List.mem_range.mpr (each id member).1
  have short := nodup.length_le_of_subset inside
  rwa [length, List.length_range] at short

end Workspace

/-! The code of a tree -/

namespace ValueTree

def operand (min : Order) (fallback : String) : Option (String × Order) → Operand
  | none => .ofFallback fallback
  | some (text, order) => .ofExpression min text order

def code (names : String → String) (options : Options) : ValueTree → Option (String × Order)
  | empty => none
  | number raw => some (Rules.numberLiteral raw)
  | boolean raw => some (if raw = "TRUE" then "true" else "false", .atomic)
  | named user => some (names user, .atomic)
  | level state => some (if state = "LOW" then "LOW" else "HIGH", .atomic)
  | millis => some ("millis()", .functionCall)
  | digitalRead pin => some (Rules.readCall pin, .functionCall)
  | buttonRead pin => match options.buttons with
    | .raw => some (Rules.readCall pin, .functionCall)
    | .activeLow => some ("!" ++ Rules.readCall pin, .logicalNot)
  | negate x =>
    some ("!" ++ (operand .logicalNot "true" (x.code names options)).wrapped, .logicalNot)
  | compare op a b =>
    let order := (Rules.comparison op).2
    some ((operand order "0" (a.code names options)).wrapped ++ " " ++ (Rules.comparison op).1 ++
      " " ++
      (operand order "0" (b.code names options)).wrapped, order)
  | logic op a b =>
    let order : Order := if op = "OR" then .logicalOr else .logicalAnd
    let left := operand order "false" (a.code names options)
    let right := operand order "false" (b.code names options)
    if left.fallback && right.fallback then some (if op = "OR" then "true" else "false", .atomic)
    else some (left.wrapped ++ (if op = "OR" then " || " else " && ") ++ right.wrapped, order)
  | arithmetic op a b =>
    let order := (Rules.arithmeticOperator op).2
    let left := (operand order "0" (a.code names options)).wrapped
    let right := (operand order "0" (b.code names options)).wrapped
    match (Rules.arithmeticOperator op).1 with
    | some symbol => some (left ++ symbol ++ right, order)
    | none => some ("pow(" ++ left ++ ", " ++ right ++ ")", .functionCall)

def emission : Option (String × Order) → Emission
  | none => .empty
  | some (text, order) => .expression text order

theorem literal_ne_empty (x : Binary64) : x.literal ≠ "" := by
  intro blank
  obtain ⟨word, same, shape⟩ := x.literal_shape
  rw [blank] at same
  have noWord : word = [] := (List.append_eq_nil_iff.mp same.symm).2
  rcases shape with isName | isNumeral
  · obtain ⟨s, rest, found, _⟩ := isName.starts
    simp [noWord] at found
  · obtain ⟨s, rest, found, _⟩ := isNumeral.starts
    simp [noWord] at found

theorem numberLiteral_ne_empty (raw : String) : (Rules.numberLiteral raw).1 ≠ "" := by
  unfold Rules.numberLiteral
  split
  · exact literal_ne_empty _
  · decide

theorem code_ne_empty {names : String → String} {options : Options} {t : ValueTree}
    {c : String × Order} (named : ∀ user, names user ≠ "")
    (found : t.code names options = some c) : c.1 ≠ "" := by
  cases t with
  | empty => cases found
  | number raw =>
    rw [code] at found
    rw [← Option.some.inj found]
    exact numberLiteral_ne_empty raw
  | named user =>
    cases found
    exact named user
  | boolean raw | level state =>
    cases found
    dsimp only
    split <;> decide
  | millis =>
    cases found
    decide
  | digitalRead pin | negate x | compare op a b =>
    cases found
    simp [Rules.readCall, String.append_eq_empty_iff]
  | buttonRead pin =>
    simp only [code] at found
    split at found <;> cases found <;> simp [Rules.readCall, String.append_eq_empty_iff]
  | logic op a b =>
    simp only [code] at found
    split at found <;> split at found <;> cases found <;> simp [String.append_eq_empty_iff]
  | arithmetic op a b =>
    simp only [code] at found
    split at found
    · rename_i symbol given
      cases found
      unfold Rules.arithmeticOperator at given
      split at given <;> cases given <;> simp [String.append_eq_empty_iff]
    · cases found
      simp [String.append_eq_empty_iff]

end ValueTree

/-! Trees as the generator emits them -/

namespace Generator

theorem emitWithin_disabled (g : Generator) {id : BlockId} (depth : Nat) (r : Run)
    (off : ∀ b, g.workspace.get? id = some b → b.disabled = true) :
    g.emitWithin depth id r = (.empty, r) :=
  emitWithin_none (enabled_none off) depth r

theorem emitWithin_expression {g : Generator} {id : BlockId} {kind : String} {b : Block}
    {rule : Rule}
    {depth : Nat} {r r' : Run} {text : String} {order : Order} (rules : g.rules = Rules.esp32)
    (live : g.workspace.Live id kind b) (entry : (kind, rule) ∈ Rules.entries)
    (performed : g.perform (g.emitWithin depth) b (rule ⟨g.workspace, g.options,
      b⟩) (r.dispatch b.id) =
      (.expression text order, r')) :
    g.emitWithin (depth + 1) id r = (.expression text order, r') := by
  have enabled : g.enabled? id = some b := by
    simp [enabled?, live.found, Option.filter, live.enabled]
  have dispatched : g.rules.get? b.kind = some rule := by
    rw [rules, live.kind]
    exact Rules.esp32_get entry
  simp only [emitWithin, enabled, own, dispatched, performed]

open ValueTree in
theorem resolve_slot {g : Generator} {b : Block} {socket : String} {depth : Nat} {r r' : Run}
    {found : Option (String × Order)} (min : Order) (fallback : String)
    (emitted : g.emitSlot depth (b.values.get? socket) r = (emission found, r'))
    (visible : ∀ c, found = some c → c.1 ≠ "") :
    g.resolve (g.emitWithin depth) b socket min fallback r = (operand min fallback found, r') := by
  unfold resolve
  cases slot : b.values.get? socket with
  | none =>
    rw [slot, emitSlot] at emitted
    cases found with
    | none =>
      cases emitted
      rfl
    | some c => cases emitted
  | some child =>
    rw [slot, emitSlot] at emitted
    cases found with
    | none => simp [emitted, emission, Emission.empty, operand]
    | some c => simp [emitted, emission, operand, visible c rfl]

open ValueTree NameTable

structure Grown (users : List String) (r' r : Run) : Prop where
  allocated : r'.session.names.Allocated
  names : Extends r'.session.names r.session.names
  known : ∀ user ∈ users, ∃ name, r'.session.names.byUser.lookup user = some name

/-- Emitting a slot gives the code of the tree, for every naming that goes along with the
outcome. -/
def Emits (g : Generator) (depth : Nat) (slot : Option BlockId) (t : ValueTree) : Prop :=
  ∀ r : Run, r.session.names.Allocated → ∃ r', Grown t.users r' r ∧
    ∀ names, r'.session.names.Agrees names →
      g.emitSlot depth slot r = (emission (t.code names g.options), r')

theorem Emits.resolve {g : Generator} {depth : Nat} {b : Block} {socket : String} {t : ValueTree}
    (emits : g.Emits depth (b.values.get? socket) t) (min : Order) (fallback : String) {r : Run}
    (allocated : r.session.names.Allocated) :
    ∃ r', Grown t.users r' r ∧ ∀ names, r'.session.names.Agrees names →
      g.resolve (g.emitWithin depth) b socket min fallback r =
        (operand min fallback (t.code names g.options), r') := by
  obtain ⟨r', grown, emitted⟩ := emits r allocated
  refine ⟨r', grown, fun names agrees => ?_⟩
  exact resolve_slot min fallback (emitted names agrees) fun c found =>
    code_ne_empty agrees.ne_empty found

theorem Emits.resolve_both {g : Generator} {depth : Nat} {b : Block} {first second : String}
    {x y : ValueTree} (left : g.Emits depth (b.values.get? first) x)
    (right : g.Emits depth (b.values.get? second) y) (min : Order) (fallback : String) {r : Run}
    (allocated : r.session.names.Allocated) :
    ∃ between r', Grown (x.users ++ y.users) r' r ∧ ∀ names, r'.session.names.Agrees names →
      g.resolve (g.emitWithin depth) b first min fallback r =
        (operand min fallback (x.code names g.options), between) ∧
      g.resolve (g.emitWithin depth) b second min fallback between =
        (operand min fallback (y.code names g.options), r') := by
  obtain ⟨between, grownFirst, resolvedFirst⟩ := left.resolve min fallback allocated
  obtain ⟨r', grownSecond, resolvedSecond⟩ := right.resolve min fallback grownFirst.allocated
  refine ⟨between, r', ⟨grownSecond.allocated, extends_trans grownSecond.names grownFirst.names,
    ?_⟩, ?_⟩
  · intro user member
    rcases List.mem_append.mp member with inFirst | inSecond
    · obtain ⟨name, found⟩ := grownFirst.known user inFirst
      exact ⟨name, grownSecond.names user name found⟩
    · exact grownSecond.known user inSecond
  intro names agrees
  exact ⟨resolvedFirst names (agrees_of_extends grownSecond.names agrees),
    resolvedSecond names agrees⟩

theorem emits_empty (g : Generator) (depth : Nat) {slot : Option BlockId}
    (nothing : ∀ r, g.emitSlot depth slot r = (.empty, r)) : g.Emits depth slot .empty := by
  intro r allocated
  exact ⟨r, ⟨allocated, extends_refl _, by simp [users]⟩, fun names _ => nothing r⟩

section Blocks

variable {g : Generator} {id : BlockId} {b : Block} {depth : Nat}

theorem emits_of_perform {kind : String} {t : ValueTree} (rule : Rule)
    (rules : g.rules = Rules.esp32)
    (live : g.workspace.Live id kind b) (entry : (kind, rule) ∈ Rules.entries)
    (performed : ∀ r : Run, r.session.names.Allocated → ∃ r', Grown t.users r' r ∧
      ∀ names, r'.session.names.Agrees names → ∃ c, t.code names g.options = some c ∧
        g.perform (g.emitWithin depth) b (rule ⟨g.workspace, g.options, b⟩) r =
          (.expression c.1 c.2, r')) :
    g.Emits (depth + 1) (some id) t := by
  intro r allocated
  obtain ⟨r', grown, result⟩ := performed (r.dispatch b.id) allocated
  refine ⟨r', ⟨grown.allocated, grown.names, grown.known⟩, fun names agrees => ?_⟩
  obtain ⟨c, found, given⟩ := result names agrees
  rw [found, emitSlot, emitWithin_expression rules live entry given]
  rfl

theorem grown_of_same_names {r' r : Run} (allocated : r.session.names.Allocated)
    (same : r'.session.names = r.session.names) : Grown [] r' r :=
  ⟨same ▸ allocated, same ▸ extends_refl _, by simp⟩

theorem grown_use {r : Run} (allocated : r.session.names.Allocated) (resource : Resource) :
    Grown [] { r with session := r.session.markUsed resource } r := by
  refine grown_of_same_names allocated ?_
  simp only [Session.markUsed]
  split <;> rfl

theorem emits_constant {kind : String} {t : ValueTree} {c : String × Order} (rule : Rule)
    (rules : g.rules = Rules.esp32) (live : g.workspace.Live id kind b)
    (entry : (kind, rule) ∈ Rules.entries) (free : t.users = [])
    (constant : ∀ names, t.code names g.options = some c)
    (same : rule ⟨g.workspace, g.options, b⟩ = .done (.expression c.1 c.2)) :
    g.Emits (depth + 1) (some id) t := by
  refine emits_of_perform rule rules live entry fun r allocated => ?_
  refine ⟨r, free ▸ grown_of_same_names allocated rfl, fun names _ => ⟨c, constant names, ?_⟩⟩
  rw [same, perform]

theorem emits_digitalRead (rules : g.rules = Rules.esp32)
    (live : g.workspace.Live id "esp32_digital_read" b) :
    g.Emits (depth + 1) (some id) (.digitalRead (b.fieldText "PIN")) := by
  refine emits_of_perform Rules.digitalRead rules live (by simp [Rules.entries])
    fun r allocated => ?_
  exact ⟨_, grown_use allocated (.pin (b.fieldText "PIN")), fun names _ => ⟨_, rfl, rfl⟩⟩

theorem emits_buttonRead (rules : g.rules = Rules.esp32)
    (live : g.workspace.Live id "esp32_button_read" b) :
    g.Emits (depth + 1) (some id) (.buttonRead (b.fieldText "PIN")) := by
  refine emits_of_perform Rules.buttonRead rules live (by simp [Rules.entries])
    fun r allocated => ?_
  refine ⟨_, grown_use allocated (.pin (b.fieldText "PIN")), fun names _ => ?_⟩
  cases buttons : g.options.buttons with
  | raw =>
    refine ⟨_, by rw [code, buttons], ?_⟩
    simp only [Rules.buttonRead, Script.use, Script.update, bind, Script.bind, buttons]
    rfl
  | activeLow =>
    refine ⟨_, by rw [code, buttons], ?_⟩
    simp only [Rules.buttonRead, Script.use, Script.update, bind, Script.bind, buttons]
    rfl

theorem emits_named (rules : g.rules = Rules.esp32) (live : g.workspace.Live id "variables_get" b) :
    g.Emits (depth + 1) (some id) (.named (b.fieldText "VAR")) := by
  refine emits_of_perform Rules.getVariable rules live (by simp [Rules.entries])
    fun r allocated => ?_
  refine ⟨{ r with session := (r.session.variableName (b.fieldText "VAR")).2 },
    ⟨.get allocated _, extends_get _ _, ?_⟩, fun names agrees => ⟨_, rfl, ?_⟩⟩
  · intro user member
    rw [List.mem_singleton.mp member]
    exact ⟨_, lookup_get r.session.names (b.fieldText "VAR")⟩
  · rw [agrees.known _ _ (lookup_get r.session.names (b.fieldText "VAR"))]
    rfl

theorem emits_negate {x : ValueTree} (rules : g.rules = Rules.esp32)
    (live : g.workspace.Live id "logic_negate" b)
    (operand : g.Emits depth (b.values.get? "BOOL") x) :
    g.Emits (depth + 1) (some id) (.negate x) := by
  refine emits_of_perform Rules.negate rules live (by simp [Rules.entries])
    fun r allocated => ?_
  obtain ⟨r', grown, resolved⟩ := operand.resolve .logicalNot "true" allocated
  refine ⟨r', grown, fun names agrees => ⟨_, rfl, ?_⟩⟩
  simp only [Rules.negate, Script.operandText, bind, Script.bind, pure, perform,
    resolved names agrees]

theorem emits_compare {x y : ValueTree} (rules : g.rules = Rules.esp32)
    (live : g.workspace.Live id "logic_compare" b) (left : g.Emits depth (b.values.get? "A") x)
    (right : g.Emits depth (b.values.get? "B") y) :
    g.Emits (depth + 1) (some id) (.compare (b.fieldText "OP") x y) := by
  refine emits_of_perform Rules.compare rules live (by simp [Rules.entries])
    fun r allocated => ?_
  obtain ⟨between, r', grown, resolved⟩ := left.resolve_both right
    (Rules.comparison (b.fieldText "OP")).2 "0" allocated
  refine ⟨r', grown, fun names agrees => ⟨_, rfl, ?_⟩⟩
  obtain ⟨first, second⟩ := resolved names agrees
  simp only [Rules.compare, Script.operandText, bind, Script.bind, pure, perform, Site.field, first,
    second]

theorem emits_logic {x y : ValueTree} (rules : g.rules = Rules.esp32)
    (live : g.workspace.Live id "logic_operation" b) (left : g.Emits depth (b.values.get? "A") x)
    (right : g.Emits depth (b.values.get? "B") y) :
    g.Emits (depth + 1) (some id) (.logic (b.fieldText "OP") x y) := by
  refine emits_of_perform Rules.logicOperation rules live (by simp [Rules.entries])
    fun r allocated => ?_
  obtain ⟨between, r', grown, resolved⟩ := left.resolve_both right
    (if Site.field ⟨g.workspace, g.options, b⟩ "OP" = "OR" then .logicalOr else .logicalAnd) "false"
    allocated
  refine ⟨r', grown, fun names agrees => ?_⟩
  obtain ⟨first, second⟩ := resolved names agrees
  simp only [Rules.logicOperation, Script.operand, bind, Script.bind, pure, perform, first, second]
  by_cases either : b.fieldText "OP" = "OR"
  · simp only [code, Site.field, either, ↓reduceIte]
    split <;> exact ⟨_, rfl, rfl⟩
  · simp only [code, Site.field, either, ↓reduceIte]
    split <;> exact ⟨_, rfl, rfl⟩

theorem emits_arithmetic {x y : ValueTree} (rules : g.rules = Rules.esp32)
    (live : g.workspace.Live id "math_arithmetic" b) (left : g.Emits depth (b.values.get? "A") x)
    (right : g.Emits depth (b.values.get? "B") y) :
    g.Emits (depth + 1) (some id) (.arithmetic (b.fieldText "OP") x y) := by
  refine emits_of_perform Rules.arithmetic rules live (by simp [Rules.entries])
    fun r allocated => ?_
  obtain ⟨between, r', grown, resolved⟩ := left.resolve_both right
    (Rules.arithmeticOperator (b.fieldText "OP")).2 "0" allocated
  refine ⟨r', grown, fun names agrees => ?_⟩
  obtain ⟨first, second⟩ := resolved names agrees
  simp only [Rules.arithmetic, Script.operandText, bind, Script.bind, pure, perform,
    Site.field, first, second, code]
  cases (Rules.arithmeticOperator (b.fieldText "OP")).1 with
  | some symbol => exact ⟨_, rfl, rfl⟩
  | none => exact ⟨_, rfl, rfl⟩

theorem depth_of_succ_le {h : Nat} (enough : h + 1 ≤ depth) :
    ∃ inner, depth = inner + 1 ∧ h ≤ inner :=
  ⟨depth - 1, by omega, by omega⟩

theorem emits_of_holds {slot : Option BlockId} {t : ValueTree} (rules : g.rules = Rules.esp32)
    (holds : g.workspace.Holds slot t) (enough : t.height ≤ depth) : g.Emits depth slot t := by
  -- The depth allows for the block itself and for everything in its sockets.
  induction holds generalizing depth with
  | vacant => exact emits_empty g depth fun r => rfl
  | disabled off => exact emits_empty g depth fun r => emitWithin_disabled g depth r off
  | number live =>
    obtain ⟨depth, rfl, _⟩ := depth_of_succ_le enough
    refine emits_constant Rules.mathNumber rules live (by simp [Rules.entries]) rfl
      (fun _ => rfl) ?_
    simp only [Rules.mathNumber, Site.field, pure]
  | boolean live =>
    obtain ⟨depth, rfl, _⟩ := depth_of_succ_le enough
    exact emits_constant Rules.logicBoolean rules live (by simp [Rules.entries]) rfl
      (fun _ => rfl) rfl
  | named live =>
    obtain ⟨depth, rfl, _⟩ := depth_of_succ_le enough
    exact emits_named rules live
  | level live =>
    obtain ⟨depth, rfl, _⟩ := depth_of_succ_le enough
    exact emits_constant Rules.highLow rules live (by simp [Rules.entries]) rfl (fun _ => rfl) rfl
  | millis live =>
    obtain ⟨depth, rfl, _⟩ := depth_of_succ_le enough
    exact emits_constant Rules.millis rules live (by simp [Rules.entries]) rfl (fun _ => rfl) rfl
  | digitalRead live =>
    obtain ⟨depth, rfl, _⟩ := depth_of_succ_le enough
    exact emits_digitalRead rules live
  | buttonRead live =>
    obtain ⟨depth, rfl, _⟩ := depth_of_succ_le enough
    exact emits_buttonRead rules live
  | negate live _ ih =>
    obtain ⟨depth, rfl, inner⟩ := depth_of_succ_le enough
    exact emits_negate rules live (ih inner)
  | compare live _ _ ihLeft ihRight =>
    obtain ⟨depth, rfl, inner⟩ := depth_of_succ_le enough
    exact emits_compare rules live (ihLeft (by omega)) (ihRight (by omega))
  | logic live _ _ ihLeft ihRight =>
    obtain ⟨depth, rfl, inner⟩ := depth_of_succ_le enough
    exact emits_logic rules live (ihLeft (by omega)) (ihRight (by omega))
  | arithmetic live _ _ ihLeft ihRight =>
    obtain ⟨depth, rfl, inner⟩ := depth_of_succ_le enough
    exact emits_arithmetic rules live (ihLeft (by omega)) (ihRight (by omega))

/-- A block gives the code of the tree that it holds, and every variable of the tree has the
identifier that the session then knows it by. -/
theorem emit_of_holds {t : ValueTree} {r : Run} (rules : g.rules = Rules.esp32)
    (holds : g.workspace.Holds (some id) t) (allocated : r.session.names.Allocated) :
    ∃ r', Grown t.users r' r ∧ ∀ names, r'.session.names.Agrees names →
      g.emit id r = (emission (t.code names g.options), r') :=
  emits_of_holds rules holds holds.height_le_size r allocated

end Blocks

end Generator
end BlockSketch
