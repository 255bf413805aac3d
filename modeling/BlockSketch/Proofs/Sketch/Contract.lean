import BlockSketch.Proofs.Sketch.Recursion
import BlockSketch.Sketch.Assembly

/-
Contracts of rules. A contract says what the code of a value and the code of statements look like,
and what holds of the session. A rule keeps it if it grants these things, relying on them for
whatever it is answered. If all rules do, then so does every block, and the run as a whole.
-/
namespace BlockSketch

structure Contract where
  expression : String → Prop
  statement : String → Prop
  session : Session → Prop

namespace Contract

/-- The contract survives what happens between rules: code is put into parentheses or ended as a
statement, a socket is empty, and something is reported. -/
structure Lawful (C : Contract) : Prop where
  wrapped : ∀ code, C.expression code → C.expression ("(" ++ code ++ ")")
  ended : ∀ code, C.expression code → C.statement (code ++ ";\n")
  nothing : C.statement ""
  warned : ∀ s d, C.session s → C.session (s.warn d)

def Grants (C : Contract) : Emission → Prop
  | .statement code => C.statement code
  | .expression code _ => C.expression code

def Keeps (C : Contract) (visit : Run → Emission × Run) : Prop :=
  ∀ r, C.session r.session → C.Grants (visit r).1 ∧ C.session (visit r).2.session

end Contract

namespace Script

variable {α β : Type} {C : Contract} {P : α → Prop} {Q : β → Prop}

/-- Relying on the contract for all it is answered, the script writes only sessions that the
contract allows and gives a result with the property. -/
def Meets (C : Contract) (P : α → Prop) : Script α → Prop
  | .done a => P a
  | .value _ _ fallback next =>
    C.expression (Operand.ofFallback fallback).code ∧ ∀ o, C.expression o.wrapped →
      (next o).Meets C P
  | .body _ next => ∀ text, C.statement text → (next text).Meets C P
  | .read next => ∀ s, C.session s → (next s).Meets C P
  | .write s next => C.session s ∧ next.Meets C P

theorem Meets.bind {script : Script α} {next : α → Script β} (first : script.Meets C P)
    (second : ∀ a, P a → (next a).Meets C Q) : (script.bind next).Meets C Q := by
  induction script with
  | done a => exact second a first
  | value socket min fallback k ih => exact ⟨first.1, fun o given => ih o (first.2 o given)⟩
  | body socket k ih => exact fun text given => ih text (first text given)
  | read k ih => exact fun s held => ih s (first s held)
  | write s k ih => exact ⟨first.1, ih first.2⟩

end Script

namespace Contract

variable {C : Contract} {g : Generator} {b : Block} {visit : Visit}

theorem Lawful.asStatement (lawful : C.Lawful) {e : Emission} (granted : C.Grants e) :
    C.statement e.asStatement := by
  cases e with
  | statement code => exact granted
  | expression code order =>
    change C.statement (if code = "" then "" else code ++ ";\n")
    split
    · exact lawful.nothing
    · exact lawful.ended code granted

theorem Lawful.operand (lawful : C.Lawful) {code : String} (granted : C.expression code)
    (min order : Order) : C.expression (Operand.ofExpression min code order).wrapped := by
  unfold Operand.wrapped
  split
  · exact lawful.wrapped code granted
  · exact granted

theorem Lawful.resolve (lawful : C.Lawful)
    (below : ∀ link child, b.child? link = some child → C.Keeps (visit child)) (socket : String)
    {fallback : String} (min : Order) (spare : C.expression (Operand.ofFallback fallback).code)
    {r : Run} (held : C.session r.session) :
    C.expression (g.resolve visit b socket min fallback r).1.wrapped ∧
      C.session (g.resolve visit b socket min fallback r).2.session := by
  have step := g.resolved visit b socket min fallback r
  generalize g.resolve visit b socket min fallback r = result at step ⊢
  cases step with
  | vacant empty => exact ⟨spare, held⟩
  | @supplied child code order filled given _ =>
    obtain ⟨granted, after⟩ := below (.value socket) child filled r held
    rw [given] at granted
    exact ⟨lawful.operand granted min order, after⟩
  | unusable filled _ => exact ⟨spare, (below (.value socket) _ filled r held).2⟩
  | misplaced filled _ _ =>
    exact ⟨spare, lawful.warned _ _ (below (.value socket) _ filled r held).2⟩

theorem Lawful.bodyOf (lawful : C.Lawful)
    (below : ∀ link child, b.child? link = some child → C.Keeps (visit child)) (socket : String)
    {r : Run} (held : C.session r.session) :
    C.statement (Generator.bodyOf visit b socket r).1 ∧
      C.session (Generator.bodyOf visit b socket r).2.session := by
  unfold Generator.bodyOf
  cases filled : b.statements.get? socket with
  | none => exact ⟨lawful.nothing, held⟩
  | some child =>
    obtain ⟨granted, after⟩ := below (.statement socket) child filled r held
    exact ⟨lawful.asStatement granted, after⟩

theorem Lawful.perform (lawful : C.Lawful)
    (below : ∀ link child, b.child? link = some child → C.Keeps (visit child)) {α : Type}
    {P : α → Prop} {script : Script α} (meets : script.Meets C P) {r : Run}
    (held : C.session r.session) :
    P (g.perform visit b script r).1 ∧ C.session (g.perform visit b script r).2.session := by
  induction script generalizing r with
  | done a => exact ⟨meets, held⟩
  | value socket min fallback next ih =>
    obtain ⟨given, after⟩ := lawful.resolve (g := g) below socket min meets.1 held
    exact ih _ (meets.2 _ given) after
  | body socket next ih =>
    obtain ⟨given, after⟩ := lawful.bodyOf below socket held
    exact ih _ (meets _ given) after
  | read next ih => exact ih r.session (meets _ held) held
  | write s next ih => exact ih meets.2 meets.1

structure Kept (C : Contract) (g : Generator) : Prop where
  lawful : C.Lawful
  append : ∀ first second, C.statement first → C.statement second → C.statement (first ++ second)
  start : C.session .new
  rule : ∀ b rule, g.workspace.get? b.id = some b → g.rules.get? b.kind = some rule →
    (rule ⟨g.workspace, g.options, b⟩).Meets C C.Grants
  placeholder : ∀ b r, g.workspace.get? b.id = some b → g.rules.get? b.kind = none →
    C.Grants (g.placeholder b r).1

theorem Kept.own (kept : C.Kept g) (found : g.workspace.get? b.id = some b)
    (below : ∀ link child, b.child? link = some child → C.Keeps (g.emit child)) :
    C.Keeps (g.own g.emit b) := by
  intro r held
  unfold Generator.own
  cases known : g.rules.get? b.kind with
  | none =>
    refine ⟨kept.placeholder b _ found known, ?_⟩
    dsimp only [Generator.placeholder]
    cases g.workspace.inValuePosition b.id with
    | true => exact kept.lawful.warned _ _ held
    | false => exact kept.lawful.warned _ _ held
  | some rule => exact kept.lawful.perform below (kept.rule b rule found known) held

theorem Kept.andThen (kept : C.Kept g) {first second : Run → Emission × Run} (one : C.Keeps first)
    (two : C.Keeps second) : C.Keeps (Generator.andThen first second) := by
  intro r held
  have before := one r held
  unfold Generator.andThen
  cases given : first r with
  | mk e r' =>
    rw [given] at before
    cases e with
    | expression code order => exact before
    | statement code =>
      obtain ⟨granted, after⟩ := two r' before.2
      exact ⟨kept.append _ _ before.1 (kept.lawful.asStatement granted), after⟩

theorem Kept.emit (kept : C.Kept g) (forest : g.workspace.Forest) (id : BlockId) :
    C.Keeps (g.emit id) :=
  Generator.emit_induction forest (motive := C.Keeps) (fun _ held => ⟨kept.lawful.nothing, held⟩)
    (fun _ found below => kept.own found below) (fun _ _ one two => kept.andThen one two) id

theorem Kept.emitAll (kept : C.Kept g) (forest : g.workspace.Forest) (ids : List BlockId)
    {code : String} {r : Run} (before : C.statement code) (held : C.session r.session) :
    C.statement (g.emitAll ids code r).1 ∧ C.session (g.emitAll ids code r).2.session := by
  induction ids generalizing code r with
  | nil => exact ⟨before, held⟩
  | cons id rest ih =>
    obtain ⟨granted, after⟩ := kept.emit forest id r held
    exact ih (kept.append _ _ before (kept.lawful.asStatement granted)) after

theorem Kept.emitRoots (kept : C.Kept g) (forest : g.workspace.Forest) :
    C.statement g.emitRoots.1 ∧ C.session g.emitRoots.2.session :=
  kept.emitAll forest _ kept.lawful.nothing kept.start

end Contract
end BlockSketch
