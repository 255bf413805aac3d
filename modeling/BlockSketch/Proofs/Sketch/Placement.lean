import BlockSketch.Proofs.Sketch.Dispatch

/-
Where blocks stand on the canvas. No rule looks at it, so blocks give the same code wherever they
are moved. All that a move can change is the order in which the roots come up.
-/
namespace BlockSketch

def Block.unplaced (b : Block) : Block := { b with position := .origin }

theorem Block.eq_of_unplaced {b c : Block} (same : b.unplaced = c.unplaced) :
    c = { b with position := c.position } := by
  obtain ⟨⟨_, _, _, _, _, _⟩, _, _, _, _, _⟩ := b
  obtain ⟨⟨_, _, _, _, _, _⟩, _, _, _, _, _⟩ := c
  simp only [Block.unplaced, Block.mk.injEq, BlockContent.mk.injEq] at same ⊢
  simp [same]

namespace Workspace

def SameBlocks (w v : Workspace) : Prop :=
  ∀ id, (w.get? id).map Block.unplaced = (v.get? id).map Block.unplaced

namespace SameBlocks

variable {w v : Workspace}

theorem refl (w : Workspace) : w.SameBlocks w := fun _ => rfl

theorem symm (same : w.SameBlocks v) : v.SameBlocks w := fun id => (same id).symm

theorem trans {u : Workspace} (first : w.SameBlocks v) (second : v.SameBlocks u) : w.SameBlocks u :=
  fun id => (first id).trans (second id)

theorem get (same : w.SameBlocks v) {id : BlockId} {b : Block} (found : w.get? id = some b) :
    ∃ p, v.get? id = some { b with position := p } := by
  have both := same id
  rw [found] at both
  cases there : v.get? id with
  | none =>
    rw [there] at both
    cases both
  | some c =>
    rw [there] at both
    exact ⟨c.position, congrArg some (Block.eq_of_unplaced (Option.some.inj both))⟩

theorem get_none (same : w.SameBlocks v) {id : BlockId} (missing : w.get? id = none) :
    v.get? id = none := by
  have both := same id
  rw [missing] at both
  exact Option.map_eq_none_iff.mp both.symm

theorem parent_eq (same : w.SameBlocks v) (id : BlockId) : v.parent? id = w.parent? id := by
  cases found : w.get? id with
  | none => rw [parent?, parent?, found, same.get_none found]
  | some b =>
    obtain ⟨p, there⟩ := same.get found
    rw [parent?, parent?, found, there]
    rfl

theorem size_eq (same : w.SameBlocks v) : v.size = w.size := by
  have missing : ∀ {a b : Workspace}, a.SameBlocks b → b.size ≤ a.size := by
    intro a b same
    have none : b.get? a.size = none := same.get_none (Array.getElem?_eq_none (Nat.le_refl _))
    exact Array.getElem?_eq_none_iff.mp none
  exact Nat.le_antisymm (missing same) (missing same.symm)

theorem inValuePosition_eq (same : w.SameBlocks v) (id : BlockId) :
    v.inValuePosition id = w.inValuePosition id :=
  inValuePosition_congr same.size_eq same.parent_eq id

theorem chain_eq (same : w.SameBlocks v) (head : Option BlockId) :
    (v.chain head).map Block.unplaced = (w.chain head).map Block.unplaced := by
  have within : ∀ count head,
      (v.chainWithin count head).map Block.unplaced =
        (w.chainWithin count head).map Block.unplaced := by
    intro count
    induction count with
    | zero => exact fun head => rfl
    | succ count ih =>
      intro head
      cases head with
      | none => rfl
      | some id =>
        rw [chainWithin, chainWithin]
        cases found : w.get? id with
        | none => rw [same.get_none found]
        | some b =>
          obtain ⟨p, there⟩ := same.get found
          rw [there]
          simp only [List.map_cons, ih]
          rfl
  rw [chain, chain, same.size_eq, within]

theorem previous_eq (same : w.SameBlocks v) (id : BlockId) : v.previous? id = w.previous? id := by
  rw [previous?, previous?, same.parent_eq]

theorem followsHighWrite_eq (same : w.SameBlocks v) (options : Options) (b : Block) (p : Position)
    (pin : String) :
    Rules.followsHighWrite ⟨v, options, { b with position := p }⟩ pin =
      Rules.followsHighWrite ⟨w, options, b⟩ pin := by
  unfold Rules.followsHighWrite
  dsimp only
  rw [same.previous_eq]
  cases w.previous? b.id with
  | none => rfl
  | some before =>
    simp only [Option.bind_some]
    cases found : w.get? before with
    | none => rw [same.get_none found]
    | some prev =>
      obtain ⟨q, there⟩ := same.get found
      rw [there]
      rfl

end SameBlocks

def move (m : BlockId × Position) : Operation :=
  .edit m.1 fun content => { content with position := m.2 }

theorem sameBlocks_move (w : Workspace) (m : BlockId × Position) :
    w.SameBlocks (w.apply (move m)) := by
  intro id
  rw [move, apply, edit, get_update]
  split
  · cases w.get? id <;> rfl
  · rfl

theorem sameBlocks_moves (history : List Operation) (moves : List (BlockId × Position)) :
    (afterAll history).SameBlocks (afterAll (history ++ moves.map move)) := by
  have run : ∀ (moves : List (BlockId × Position)) (w : Workspace),
      w.SameBlocks ((moves.map move).foldl apply w) := by
    intro moves
    induction moves with
    | nil => exact SameBlocks.refl
    | cons m rest ih => exact fun w => (sameBlocks_move w m).trans (ih _)
  rw [afterAll, afterAll, List.foldl_append]
  exact run moves _

end Workspace

namespace Rules

/-- No rule sees where its block stands. -/
theorem rule_moved {w v : Workspace} (same : w.SameBlocks v) (options : Options) (b : Block)
    (p : Position) :
    ∀ e ∈ entries, e.2 ⟨v, options, { b with position := p }⟩ = e.2 ⟨w, options, b⟩ := by
  have field : ∀ name,
      Site.field ⟨v, options, { b with position := p }⟩ name = Site.field ⟨w, options, b⟩ name :=
    fun _ => rfl
  have count : branchCount { b with position := p } = branchCount b := rfl
  have last : hasElse { b with position := p } = hasElse b := rfl
  have before := same.followsHighWrite_eq options b p
  simp only [entries, List.forall_mem_cons, List.not_mem_nil, false_imp_iff, implies_true, and_true,
    pinMode, digitalWrite, digitalRead, analogRead, buttonRead, highLow, relayBlink,
    delayMillis, millis, serialBegin, serialOutput, serialInput, ifRule, ifChain, growingIf,
    whileRule, whileUntil, repeatTimes, repeatFixed, flowStatement, compare, logicOperation,
    logicBoolean, negate, mathNumber, arithmetic, getVariable, setVariable, textLiteral, rawText,
    setupSection, loopSection, field, count, last, before]

end Rules

namespace Generator

structure Moved (g h : Generator) : Prop where
  blocks : g.workspace.SameBlocks h.workspace
  rules : g.rules = Rules.esp32
  sameRules : h.rules = g.rules
  options : h.options = g.options

namespace Moved

variable {g h : Generator}

theorem symm (moved : g.Moved h) : h.Moved g :=
  ⟨moved.blocks.symm, moved.sameRules.trans moved.rules, moved.sameRules.symm, moved.options.symm⟩

theorem resolve (moved : g.Moved h) (visit : Visit) (b : Block) (p : Position) (socket : String)
    (min : Order) (fallback : String) (r : Run) :
    h.resolve visit { b with position := p } socket min fallback r =
      g.resolve visit b socket min fallback r := by
  have kind : ∀ child,
      (h.workspace.get? child).elim "" (·.kind) = (g.workspace.get? child).elim "" (·.kind) := by
    intro child
    cases found : g.workspace.get? child with
    | none => rw [moved.blocks.get_none found]
    | some c =>
      obtain ⟨q, there⟩ := moved.blocks.get found
      rw [there]
      rfl
  unfold Generator.resolve
  cases b.values.get? socket with
  | none => rfl
  | some child =>
    dsimp only
    rw [kind child]

theorem perform {α : Type} (moved : g.Moved h) (visit : Visit) (b : Block) (p : Position)
    (script : Script α) (r : Run) :
    h.perform visit { b with position := p } script r = g.perform visit b script r := by
  induction script generalizing r with
  | done a => rfl
  | value socket min fallback next ih => simp only [Generator.perform, moved.resolve, ih]
  | body socket next ih => exact ih _ _
  | read next ih => exact ih _ _
  | write s next ih => exact ih _

theorem own (moved : g.Moved h) (visit : Visit) (b : Block) (p : Position) (r : Run) :
    h.own visit { b with position := p } r = g.own visit b r := by
  rw [Generator.own, Generator.own, moved.sameRules]
  cases known : g.rules.get? b.kind with
  | none => simp only [placeholder, moved.blocks.inValuePosition_eq]
  | some rule =>
    rw [moved.rules] at known
    have entry : (b.kind, rule) ∈ Rules.entries := SortedMap.mem_of_get?_ofList known
    have script := Rules.rule_moved moved.blocks g.options b p (b.kind, rule) entry
    dsimp only at script ⊢
    rw [moved.options, script]
    exact moved.perform visit b p _ _

theorem follow (moved : g.Moved h) (visit : Visit) {bs cs : List Block}
    (blocks : cs.map Block.unplaced = bs.map Block.unplaced) (code : String) (r : Run) :
    h.follow visit cs code r = g.follow visit bs code r := by
  induction bs generalizing cs code r with
  | nil =>
    rw [List.map_eq_nil_iff.mp blocks]
    rfl
  | cons b bs ih =>
    cases cs with
    | nil => cases blocks
    | cons c cs =>
      rw [List.map_cons, List.map_cons, List.cons.injEq] at blocks
      rw [Block.eq_of_unplaced blocks.1.symm, Generator.follow, Generator.follow, moved.own]
      simp only [ih blocks.2]

theorem enabled (moved : g.Moved h) (id : BlockId) :
    g.enabled? id = none ∧ h.enabled? id = none ∨
      ∃ b p, g.enabled? id = some b ∧ h.enabled? id = some { b with position := p } := by
  unfold enabled?
  cases found : g.workspace.get? id with
  | none => exact Or.inl ⟨rfl, by rw [moved.blocks.get_none found]; rfl⟩
  | some b =>
    obtain ⟨p, there⟩ := moved.blocks.get found
    rw [there]
    cases off : b.disabled with
    | true => exact Or.inl (by simp [off])
    | false => exact Or.inr ⟨b, p, by simp [off]⟩

theorem emitWithin (moved : g.Moved h) (depth : Nat) : h.emitWithin depth = g.emitWithin depth := by
  induction depth with
  | zero => rfl
  | succ depth ih =>
    funext id r
    rw [Generator.emitWithin, Generator.emitWithin, ih]
    rcases moved.enabled id with ⟨off, there⟩ | ⟨b, p, on, there⟩
    · rw [off, there]
    · rw [on, there]
      dsimp only
      rw [moved.own]
      cases g.own (g.emitWithin depth) b r with
      | mk e r' =>
        cases e with
        | expression text order => rfl
        | statement code =>
          have rest := moved.follow (g.emitWithin depth) (moved.blocks.chain_eq b.next) code r'
          dsimp only
          rw [rest]

theorem emit (moved : g.Moved h) : h.emit = g.emit := by
  rw [Generator.emit, Generator.emit, moved.emitWithin, moved.blocks.size_eq]

/-- The same blocks are dispatched, though perhaps in another order. -/
theorem order (moved : g.Moved h) (first : g.workspace.Forest) (second : h.workspace.Forest)
    (id : BlockId) : id ∈ h.order ↔ id ∈ g.order := by
  have trace : h.trace = g.trace := by
    funext top
    rw [Generator.trace, Generator.trace, moved.emit]
  simp only [Generator.order, List.mem_flatMap, trace, mem_sortedRoots first,
    mem_sortedRoots second, moved.blocks.size_eq, moved.blocks.parent_eq]

end Moved
end Generator
end BlockSketch
