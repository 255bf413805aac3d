import BlockSketch.Proofs.Workspace.Descent
import BlockSketch.Sketch.Generator

/-
Emission as recursion. The generator looks only so many sockets deep and follows a chain only for so
many blocks; in a forest neither bound is ever met. What remains is the recursive law: the code of a
block is its own code, and if that is a statement, the code of its successor comes after it.
-/
namespace BlockSketch
namespace Workspace

variable {w : Workspace}

theorem Shallow.mono {m n : Nat} {id : BlockId} (levels : w.Shallow m id) (le : m ≤ n) :
    w.Shallow n id := by
  induction m generalizing n id with
  | zero => exact levels.elim
  | succ m ih =>
    obtain ⟨n, rfl⟩ : ∃ k, n = k + 1 := ⟨n - 1, by omega⟩
    intro link child held
    exact ih (levels link child held) (Nat.le_of_succ_le_succ le)

theorem slot_of_child {id child : BlockId} {b : Block} {link : Link} (found : w.get? id = some b)
    (held : b.child? link = some child) : w.slot? id link = some child :=
  slot_iff.mpr ⟨b, found, held⟩

end Workspace

namespace Generator

variable {g : Generator} {visit other : Visit}

theorem enabled_iff {id : BlockId} {b : Block} :
    g.enabled? id = some b ↔ g.workspace.get? id = some b ∧ b.disabled = false := by
  simp [enabled?, Option.filter_eq_some_iff]

theorem enabled_none {id : BlockId} (off : ∀ b, g.workspace.get? id = some b → b.disabled = true) :
    g.enabled? id = none := by
  rw [Option.eq_none_iff_forall_not_mem]
  intro b on
  obtain ⟨found, enabled⟩ := enabled_iff.mp on
  rw [off b found] at enabled
  cases enabled

/-! What sockets supply -/

/-- The operand of a value socket and the run after it. The fallback stands in where the socket is
empty and where the block in it gives no code or a statement. -/
inductive Resolved (visit : Visit) (b : Block) (socket : String) (min : Order) (fallback : String)
    (r : Run) : Operand × Run → Prop where
  | vacant (empty : b.values.get? socket = none) :
      Resolved visit b socket min fallback r (.ofFallback fallback, r)
  | supplied {child : BlockId} {code : String} {order : Order}
      (held : b.values.get? socket = some child)
      (given : (visit child r).1 = .expression code order) (written : code ≠ "") :
      Resolved visit b socket min fallback r (.ofExpression min code order, (visit child r).2)
  | unusable {child : BlockId} (held : b.values.get? socket = some child)
      (nothing : (visit child r).1.text = "") :
      Resolved visit b socket min fallback r (.ofFallback fallback, (visit child r).2)
  | misplaced {child : BlockId} {text : String} {d : Diagnostic}
      (held : b.values.get? socket = some child) (given : (visit child r).1 = .statement text)
      (code : d.code = some Diagnostic.statementInValue) :
      Resolved visit b socket min fallback r (.ofFallback fallback, (visit child r).2.warn d)

theorem resolved (g : Generator) (visit : Visit) (b : Block) (socket : String) (min : Order)
    (fallback : String) (r : Run) :
    Resolved visit b socket min fallback r (g.resolve visit b socket min fallback r) := by
  unfold resolve
  cases held : b.values.get? socket with
  | none => exact Resolved.vacant held
  | some child =>
    have unusable := @Resolved.unusable visit b socket min fallback r child held
    have supplied := @Resolved.supplied visit b socket min fallback r child
    have misplaced := @Resolved.misplaced visit b socket min fallback r child
    dsimp only
    cases given : visit child r with
    | mk e r' =>
      rw [given] at unusable
      simp only [given] at supplied misplaced
      cases e with
      | expression code order =>
        dsimp only
        split
        · rename_i blank
          exact unusable blank
        · rename_i written
          exact supplied held rfl written
      | statement code =>
        dsimp only
        split
        · rename_i blank
          exact unusable blank
        · exact misplaced held rfl rfl

/-- The statements in a socket, which are those of the block in it, and the run after them. -/
inductive Body (visit : Visit) (b : Block) (socket : String) (r : Run) : String → Run → Prop where
  | given {child : BlockId} {e : Emission} {r' : Run}
      (held : b.child? (.statement socket) = some child) (emitted : visit child r = (e, r')) :
      Body visit b socket r e.asStatement r'
  | vacant (empty : b.child? (.statement socket) = none) : Body visit b socket r "" r

theorem body_bodyOf (visit : Visit) (b : Block) (socket : String) (r : Run) :
    Body visit b socket r (bodyOf visit b socket r).1 (bodyOf visit b socket r).2 := by
  unfold bodyOf
  cases held : b.statements.get? socket with
  | none => exact Body.vacant held
  | some child => exact Body.given held rfl

/-! Visits that agree below a block -/

theorem perform_congr {α : Type} {b : Block}
    (same : ∀ link child, b.child? link = some child → visit child = other child)
    (script : Script α) (r : Run) : g.perform visit b script r = g.perform other b script r := by
  induction script generalizing r with
  | done a => rfl
  | value socket min fallback next ih =>
    have asked : g.resolve visit b socket min fallback r =
        g.resolve other b socket min fallback r := by
      unfold resolve
      cases held : b.values.get? socket with
      | none => rfl
      | some child => simp only [same (.value socket) child held]
    simp only [perform, asked, ih]
  | body socket next ih =>
    have asked : bodyOf visit b socket r = bodyOf other b socket r := by
      unfold bodyOf
      cases held : b.statements.get? socket with
      | none => rfl
      | some child => simp only [same (.statement socket) child held]
    simp only [perform, asked, ih]
  | read next ih => exact ih r.session r
  | write s next ih => exact ih { r with session := s }

theorem own_congr {b : Block}
    (same : ∀ link child, b.child? link = some child → visit child = other child) (r : Run) :
    g.own visit b r = g.own other b r := by
  unfold own
  cases g.rules.get? b.kind with
  | none => rfl
  | some rule => exact perform_congr same _ _

theorem follow_congr {n levels count : Nat} {id : BlockId}
    (same : ∀ child, g.workspace.Shallow n child → visit child = other child) (le : levels ≤ n)
    (shallow : g.workspace.Shallow levels id) (code : String) (r : Run) :
    g.follow visit (g.workspace.chainWithin count (some id)) code r =
      g.follow other (g.workspace.chainWithin count (some id)) code r := by
  induction levels generalizing id count code r with
  | zero => exact shallow.elim
  | succ levels ih =>
    cases count with
    | zero => rfl
    | succ count =>
      rw [Workspace.chainWithin]
      cases found : g.workspace.get? id with
      | none => rfl
      | some b =>
        have below : ∀ link child, b.child? link = some child → g.workspace.Shallow levels child :=
          fun link child held => shallow link child (Workspace.slot_of_child found held)
        have agree : g.own visit b = g.own other b := by
          funext r
          exact own_congr (fun link child held =>
            same child ((below link child held).mono (by omega))) r
        simp only [follow, agree]
        split
        · rfl
        · split
          · rename_i text r' _
            cases next : b.next with
            | none => rw [Workspace.chainWithin_none]; rfl
            | some successor => exact ih (by omega) (below .next successor next) (code ++ text) r'
          · rfl

/-! No bound is met -/

theorem emitWithin_none {id : BlockId} (off : g.enabled? id = none) (depth : Nat) (r : Run) :
    g.emitWithin depth id r = (.empty, r) := by
  cases depth with
  | zero => rfl
  | succ depth => rw [emitWithin, off]

theorem emitWithin_eq {n a b : Nat} {id : BlockId} (shallow : g.workspace.Shallow n id)
    (first : n ≤ a) (second : n ≤ b) : g.emitWithin a id = g.emitWithin b id := by
  induction n generalizing a b id with
  | zero => exact shallow.elim
  | succ n ih =>
    obtain ⟨a, rfl⟩ : ∃ k, a = k + 1 := ⟨a - 1, by omega⟩
    obtain ⟨b, rfl⟩ : ∃ k, b = k + 1 := ⟨b - 1, by omega⟩
    have same : ∀ child, g.workspace.Shallow n child →
        g.emitWithin a child = g.emitWithin b child :=
      fun child below => ih below (Nat.le_of_succ_le_succ first) (Nat.le_of_succ_le_succ second)
    funext r
    rw [emitWithin, emitWithin]
    cases on : g.enabled? id with
    | none => rfl
    | some block =>
      have found := (enabled_iff.mp on).1
      have agree : g.own (g.emitWithin a) block r = g.own (g.emitWithin b) block r := by
        refine own_congr (fun link child held => same child ?_) r
        exact shallow link child (Workspace.slot_of_child found held)
      simp only [agree]
      split
      · rename_i code r' _
        cases next : block.next with
        | none => simp only [Workspace.chain, Workspace.chainWithin_none, follow]
        | some successor =>
          have below := shallow .next successor (Workspace.slot_of_child found next)
          simp only [Workspace.chain, follow_congr same (Nat.le_refl n) below]
      · rfl

theorem emitWithin_eq_emit (forest : g.workspace.Forest) {depth : Nat}
    (enough : g.workspace.size ≤ depth) : g.emitWithin depth = g.emit := by
  funext id
  rcases Nat.lt_or_ge id g.workspace.size with bound | absent
  · exact emitWithin_eq (forest.shallow bound) enough (Nat.le_refl _)
  · have missing : g.workspace.get? id = none := Array.getElem?_eq_none absent
    have off : g.enabled? id = none := enabled_none (by simp [missing])
    funext r
    rw [emit, emitWithin_none off, emitWithin_none off]

/-! The recursive law -/

def emitSlot (g : Generator) (depth : Nat) : Option BlockId → Run → Emission × Run
  | none, r => (.empty, r)
  | some id, r => g.emitWithin depth id r

def emitAt (g : Generator) : Option BlockId → Run → Emission × Run := g.emitSlot g.workspace.size

theorem emit_none {id : BlockId} (off : g.enabled? id = none) (r : Run) :
    g.emit id r = (.empty, r) :=
  emitWithin_none off _ r

def unroll (g : Generator) (visit : Visit) : Visit := fun id r =>
  match g.enabled? id with
  | none => (.empty, r)
  | some b =>
    match g.own visit b r with
    | (.statement code, r) =>
      let (code, r) := g.follow visit (g.workspace.chain b.next) code r
      (.statement code, r)
    | (e, r) => (e, r)

theorem emitWithin_succ (depth : Nat) : g.emitWithin (depth + 1) = g.unroll (g.emitWithin depth) :=
  rfl

/-- The recursion needs no bound: every further round gives the same. -/
theorem unroll_emit (forest : g.workspace.Forest) : g.unroll g.emit = g.emit := by
  have deeper : g.emitWithin (g.workspace.size + 1) = g.emit :=
    emitWithin_eq_emit forest (Nat.le_succ _)
  rw [emitWithin_succ] at deeper
  exact deeper

theorem emit_unrolled (forest : g.workspace.Forest) {id : BlockId} {b : Block}
    (on : g.enabled? id = some b) (r : Run) :
    g.emit id r =
      match g.own g.emit b r with
      | (.statement code, r) =>
        let (code, r) := g.follow g.emit (g.workspace.chain b.next) code r
        (.statement code, r)
      | (e, r) => (e, r) := by
  have round := congrFun (congrFun (unroll_emit forest) id) r
  rw [unroll, on] at round
  exact round.symm

/-- The rest of a chain gives what its head gives. -/
theorem follow_chain (forest : g.workspace.Forest) (head : Option BlockId) (code : String)
    (r : Run) :
    g.follow g.emit (g.workspace.chain head) code r =
      (code ++ (g.emitAt head r).1.asStatement, (g.emitAt head r).2) := by
  have empty : ∀ code, code ++ Emission.empty.asStatement = code := fun code => String.append_empty
  cases head with
  | none =>
    rw [Workspace.chain, Workspace.chainWithin_none, emitAt, emitSlot, follow, empty]
  | some id =>
    induction id using forest.child_induction generalizing code r with
    | step id ih =>
      change _ = (code ++ (g.emit id r).1.asStatement, (g.emit id r).2)
      cases found : g.workspace.get? id with
      | none =>
        have off : g.enabled? id = none := enabled_none (by simp [found])
        rw [Workspace.chain, Workspace.chainWithin_missing found, emit_none off, follow, empty]
      | some b =>
        rw [forest.chain_some found, follow]
        cases disabled : b.disabled with
        | true =>
          have off : g.enabled? id = none := enabled_none (by simp [found, disabled])
          rw [emit_none off, empty]
          rfl
        | false =>
          have later : ∀ code r, g.follow g.emit (g.workspace.chain b.next) code r =
              (code ++ (g.emitAt b.next r).1.asStatement, (g.emitAt b.next r).2) := by
            intro code r
            cases next : b.next with
            | none =>
              rw [Workspace.chain, Workspace.chainWithin_none, emitAt, emitSlot, follow, empty]
            | some successor =>
              exact ih .next successor (Workspace.slot_of_child found next) code r
          rw [emit_unrolled forest (enabled_iff.mpr ⟨found, disabled⟩)]
          simp only [Bool.false_eq_true, if_false]
          cases g.own g.emit b r with
          | mk e r' =>
            cases e with
            | statement text => simp only [later, Emission.asStatement, String.append_assoc]
            | expression text order => rfl

/-- One visit, and if it gives a statement, another one after it. -/
def andThen (first second : Run → Emission × Run) (r : Run) : Emission × Run :=
  match first r with
  | (.statement text, r) => (.statement (text ++ (second r).1.asStatement), (second r).2)
  | (e, r) => (e, r)

theorem emit_some (forest : g.workspace.Forest) {id : BlockId} {b : Block}
    (on : g.enabled? id = some b) : g.emit id = andThen (g.own g.emit b) (g.emitAt b.next) := by
  funext r
  rw [emit_unrolled forest on, andThen]
  cases g.own g.emit b r with
  | mk e r' =>
    cases e with
    | expression text order => rfl
    | statement text => simp only [follow_chain forest]

theorem emit_of_expression (forest : g.workspace.Forest) {id : BlockId} {b : Block} {r r' : Run}
    {text : String} {order : Order} (on : g.enabled? id = some b)
    (own : g.own g.emit b r = (.expression text order, r')) :
    g.emit id r = (.expression text order, r') := by
  rw [emit_some forest on, andThen, own]

theorem emit_of_statement (forest : g.workspace.Forest) {id : BlockId} {b : Block} {r r' : Run}
    {text : String} (on : g.enabled? id = some b) (own : g.own g.emit b r = (.statement text, r')) :
    g.emit id r =
      (.statement (text ++ (g.emitAt b.next r').1.asStatement), (g.emitAt b.next r').2) := by
  rw [emit_some forest on, andThen, own]

/-- What holds of visits that do nothing, of the own code of a block if it holds of the blocks in
its slots, and of one visit after another, holds of all emission. -/
theorem emit_induction (forest : g.workspace.Forest) {motive : (Run → Emission × Run) → Prop}
    (nothing : motive fun r => (.empty, r))
    (own : ∀ b, g.workspace.get? b.id = some b →
      (∀ link child, b.child? link = some child → motive (g.emit child)) → motive (g.own g.emit b))
    (chain : ∀ first second, motive first → motive second → motive (andThen first second))
    (id : BlockId) : motive (g.emit id) := by
  induction id using forest.child_induction with
  | step id ih =>
    cases on : g.enabled? id with
    | none =>
      have same : g.emit id = fun r => (.empty, r) := funext fun r => emit_none on r
      rw [same]
      exact nothing
    | some b =>
      have found := (enabled_iff.mp on).1
      have below : ∀ link child, b.child? link = some child → motive (g.emit child) :=
        fun link child held => ih link child (Workspace.slot_of_child found held)
      have here : g.workspace.get? b.id = some b := by
        rw [forest.numbered id b found]
        exact found
      rw [emit_some forest on]
      refine chain _ _ (own b here below) ?_
      cases next : b.next with
      | none => exact nothing
      | some successor => exact below .next successor next

end Generator
end BlockSketch
