import BlockSketch.Proofs.Sketch.Recursion

/-
Chains of successors. The generator walks along a chain in a loop. What it gives is what the
recursive law says: the own code of a block, and after a statement the code of the successor. The
law has no other solution, whatever the rules do. So the code of a chain is that of its blocks one
after another, up to the last one, up to the first disabled one, or up to and including the first
that gives a value.
-/
namespace BlockSketch

namespace Generator

variable {g : Generator} {visit : Visit}

def visitSlot (visit : Visit) : Option BlockId → Run → Emission × Run
  | none, r => (.empty, r)
  | some id, r => visit id r

/-- A visit that follows the law. The rules get the code in the sockets of their block by the same
visit. -/
structure Recursive (g : Generator) (visit : Visit) : Prop where
  nothing : ∀ id r, g.enabled? id = none → visit id r = (.empty, r)
  value : ∀ id b r text order r', g.enabled? id = some b →
    g.own visit b r = (.expression text order, r') → visit id r = (.expression text order, r')
  statement : ∀ id b r text r', g.enabled? id = some b → g.own visit b r = (.statement text, r') →
    visit id r = (.statement (text ++ (visitSlot visit b.next r').1.asStatement),
      (visitSlot visit b.next r').2)

/-- Two visits that follow the law agree, block by block from the ends of the trees upwards. -/
theorem Recursive.unique (forest : g.workspace.Forest) {other : Visit} (first : g.Recursive visit)
    (second : g.Recursive other) : visit = other := by
  funext id
  induction id using forest.child_induction with
  | step id ih =>
    funext r
    cases on : g.enabled? id with
    | none => rw [first.nothing id r on, second.nothing id r on]
    | some b =>
      have found := (enabled_iff.mp on).1
      have below : ∀ link child, b.child? link = some child → visit child = other child :=
        fun link child held => ih link child (Workspace.slot_of_child found held)
      have same : g.own visit b r = g.own other b r := own_congr below r
      cases own : g.own visit b r with
      | mk e r' =>
        have also : g.own other b r = (e, r') := by rw [← same, own]
        cases e with
        | expression text order =>
          rw [first.value id b r text order r' on own, second.value id b r text order r' on also]
        | statement text =>
          have later : visitSlot visit b.next r' = visitSlot other b.next r' := by
            cases next : b.next with
            | none => rfl
            | some successor => exact congrFun (below .next successor next) r'
          rw [first.statement id b r text r' on own, second.statement id b r text r' on also, later]

/-! How far a chain goes -/

def ownInTurn (g : Generator) : List Block → Run → List Emission × Run
  | [], r => ([], r)
  | b :: rest, r =>
    ((g.own g.emit b r).1 :: (g.ownInTurn rest (g.own g.emit b r).2).1,
      (g.ownInTurn rest (g.own g.emit b r).2).2)

/-- Why the code of a chain ends where it does: the rest of the chain, and what was given before it.
Only the last block can have given a value. -/
inductive Ending : List Block → List Emission → Prop where
  | last (texts : List String) : Ending [] (texts.map .statement)
  | disabled {b : Block} (rest : List Block) (texts : List String) (off : b.disabled = true) :
      Ending (b :: rest) (texts.map .statement)
  | value (rest : List Block) (texts : List String) (text : String) (order : Order) :
      Ending rest (texts.map .statement ++ [.expression text order])

theorem Ending.cons {rest : List Block} {es : List Emission} (ending : Ending rest es)
    (text : String) : Ending rest (.statement text :: es) := by
  cases ending with
  | last texts => exact Ending.last (text :: texts)
  | disabled rest texts off => exact Ending.disabled rest (text :: texts) off
  | value rest texts last order => exact Ending.value rest (text :: texts) last order

structure Extent (g : Generator) (head : Option BlockId) (r : Run) (bs rest : List Block)
    (es : List Emission) (r' : Run) : Prop where
  split : g.workspace.chain head = bs ++ rest
  enabled : ∀ b ∈ bs, b.disabled = false
  turns : g.ownInTurn bs r = (es, r')
  ending : Ending rest es

section Extent

variable {id : BlockId} {b : Block} {r r' : Run} {text : String}

theorem Extent.cons {bs rest : List Block} {es : List Emission} {r'' : Run}
    (forest : g.workspace.Forest) (on : g.enabled? id = some b)
    (own : g.own g.emit b r = (.statement text, r')) (later : g.Extent b.next r' bs rest es r'') :
    g.Extent (some id) r (b :: bs) rest (.statement text :: es) r'' where
  split := by rw [forest.chain_some (enabled_iff.mp on).1, later.split, List.cons_append]
  enabled := by
    intro c member
    rcases List.mem_cons.mp member with rfl | further
    · exact (enabled_iff.mp on).2
    · exact later.enabled c further
  turns := by simp only [ownInTurn, own, later.turns]
  ending := later.ending.cons text

end Extent

end Generator
end BlockSketch
