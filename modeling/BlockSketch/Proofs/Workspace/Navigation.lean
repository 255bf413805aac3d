import BlockSketch.Proofs.Workspace.Descent

/-
Walking along chains. Forwards a walk goes from a block to its successor, backwards to the block
that it follows. Both walks have steps without any bound in what follows; that they end, and that
they are each other's reverse, is what the forest gives.
-/
namespace BlockSketch
namespace Workspace

variable {w : Workspace}

/-! Forwards -/

/-- A walk from successor to successor up to where there is none, with the blocks on it. -/
inductive Succession (w : Workspace) : Option BlockId → List Block → Prop where
  | nothing : Succession w none []
  | missing {id : BlockId} (absent : w.get? id = none) : Succession w (some id) []
  | block {id : BlockId} {b : Block} {rest : List Block} (found : w.get? id = some b)
      (later : Succession w b.next rest) : Succession w (some id) (b :: rest)

theorem Succession.unique {head : Option BlockId} {bs cs : List Block}
    (first : w.Succession head bs) (second : w.Succession head cs) : bs = cs := by
  induction first generalizing cs with
  | nothing =>
    cases second with
    | nothing => rfl
  | missing absent =>
    cases second with
    | missing _ => rfl
    | block found _ => cases absent.symm.trans found
  | block found _ ih =>
    cases second with
    | missing absent => cases absent.symm.trans found
    | block again later =>
      cases found.symm.trans again
      rw [ih later]

/-- The walk from any block ends, and the chain is all of it. -/
theorem Forest.succession_chain (forest : w.Forest) (id : BlockId) :
    w.Succession (some id) (w.chain (some id)) := by
  induction id using forest.child_induction with
  | step id ih =>
    cases found : w.get? id with
    | none =>
      rw [chain, chainWithin_missing found]
      exact .missing found
    | some b =>
      rw [forest.chain_some found]
      refine .block found ?_
      cases next : b.next with
      | none =>
        rw [chain, chainWithin_none]
        exact .nothing
      | some child => exact ih .next child ((slot_next found).trans next)

theorem Succession.begun {head : Option BlockId} {bs : List Block} {b : Block}
    (walk : w.Succession head bs) (member : b ∈ bs) : ∃ id, head = some id := by
  cases walk with
  | nothing => exact absurd member List.not_mem_nil
  | missing _ => exact absurd member List.not_mem_nil
  | block _ _ => exact ⟨_, rfl⟩

/-! Backwards -/

theorem previous_iff {id before : BlockId} :
    w.previous? id = some before ↔ w.parent? id = some ⟨before, .next⟩ := by
  unfold previous?
  split
  · rename_i block up
    simp [up]
  · rename_i other
    constructor
    · intro none
      cases none
    · intro up
      exact absurd up (other before)

theorem Forest.previous_next (forest : w.Forest) {id child : BlockId} {b : Block}
    (found : w.get? id = some b) (next : b.next = some child) : w.previous? child = some id :=
  previous_iff.mpr ((forest.linked child ⟨id, .next⟩).mpr ((slot_next found).trans next))

inductive Back (w : Workspace) : BlockId → BlockId → Prop where
  | here (id : BlockId) : Back w id id
  | follows {id before first : BlockId} (previous : w.previous? id = some before)
      (rest : Back w before first) :
      Back w id first

theorem Back.trans {a b c : BlockId} (first : w.Back a b) (second : w.Back b c) : w.Back a c := by
  induction first with
  | here _ => exact second
  | follows previous _ ih => exact .follows previous (ih second)

theorem Forest.above_of_back (forest : w.Forest) {id first : BlockId} (back : w.Back id first) :
    w.Above first id := by
  induction back with
  | here id => exact above_refl w id
  | @follows id before first previous _ ih =>
    exact above_trans ih (above_child forest
      ((forest.linked id ⟨before, .next⟩).mp (previous_iff.mp previous)))

theorem Succession.back {head : Option BlockId} {bs : List Block} (forest : w.Forest)
    (walk : w.Succession head bs) : ∀ id, head = some id → ∀ b ∈ bs, w.Back b.id id := by
  induction walk with
  | nothing => exact fun id _ b member => absurd member List.not_mem_nil
  | missing _ => exact fun id _ b member => absurd member List.not_mem_nil
  | @block top b rest found later ih =>
    rintro id ⟨⟩ c member
    rcases List.mem_cons.mp member with rfl | further
    · rw [forest.numbered _ _ found]
      exact .here top
    · obtain ⟨child, next⟩ := later.begun further
      exact (ih child next c further).trans (.follows (forest.previous_next found next) (.here top))

theorem Succession.nodup {head : Option BlockId} {bs : List Block} (forest : w.Forest)
    (walk : w.Succession head bs) : (bs.map (·.id)).Nodup := by
  induction walk with
  | nothing => exact List.Pairwise.nil
  | missing _ => exact List.Pairwise.nil
  | @block id b rest found later ih =>
    rw [List.map_cons, List.nodup_cons]
    refine ⟨fun again => ?_, ih⟩
    obtain ⟨c, member, same⟩ := List.mem_map.mp again
    obtain ⟨child, next⟩ := later.begun member
    -- A block that came again would be below its own successor.
    have below := forest.above_of_back (later.back forest child next c member)
    rw [same, forest.numbered _ _ found] at below
    exact forest.not_below_child ((slot_next found).trans next) below

theorem Succession.neighbours {head : Option BlockId} {bs : List Block} (forest : w.Forest)
    (walk : w.Succession head bs) {a b : Block} (inside : [a, b] <:+: bs) :
    a.next = some b.id ∧ w.previous? b.id = some a.id := by
  induction walk with
  | nothing => cases List.infix_nil.mp inside
  | missing _ => cases List.infix_nil.mp inside
  | @block id c rest found later ih =>
    rcases List.infix_cons_iff.mp inside with first | further
    · obtain ⟨rfl, second⟩ := List.cons_prefix_cons.mp first
      obtain ⟨more, rfl⟩ := second
      obtain ⟨child, next⟩ := later.begun List.mem_cons_self
      rw [next] at later
      cases later with
      | block there _ =>
        rw [forest.numbered _ _ there, forest.numbered _ _ found]
        exact ⟨next, forest.previous_next found next⟩
    · exact ih further

structure ChainHead (w : Workspace) (id first : BlockId) : Prop where
  back : w.Back id first
  top : w.previous? first = none

theorem ChainHead.unique {id first other : BlockId} (one : w.ChainHead id first)
    (two : w.ChainHead id other) : first = other := by
  obtain ⟨back, top⟩ := one
  induction back with
  | here id =>
    cases two.back with
    | here => rfl
    | follows previous _ => cases top.symm.trans previous
  | follows previous _ ih =>
    cases two.back with
    | here => cases two.top.symm.trans previous
    | follows again rest =>
      cases previous.symm.trans again
      exact ih ⟨rest, two.top⟩ top

theorem Forest.chainHead_exists (forest : w.Forest) (id : BlockId) :
    ∃ first, w.ChainHead id first := by
  rcases Nat.lt_or_ge id w.size with bound | absent
  · obtain ⟨root, inside, top, steps, walk⟩ := forest.rooted id bound
    clear bound inside
    -- The way back is a part of the way up to the root: it stops where the first link is not from a
    -- successor.
    induction walk with
    | here id =>
      refine ⟨id, .here id, ?_⟩
      rw [previous?, top]
    | @up n id root p up rest ih =>
      cases previous : w.previous? id with
      | none => exact ⟨id, .here id, previous⟩
      | some before =>
        cases up.symm.trans (previous_iff.mp previous)
        obtain ⟨first, back, top⟩ := ih top
        exact ⟨first, .follows previous back, top⟩
  · have missing : w.get? id = none := Array.getElem?_eq_none absent
    refine ⟨id, .here id, ?_⟩
    rw [previous?, parent?, missing]
    rfl

/-! Value positions -/

theorem Forest.inValuePosition_previous (forest : w.Forest) {id before : BlockId}
    (previous : w.previous? id = some before) :
    w.inValuePosition id = w.inValuePosition before := by
  rw [← forest.inValueWithin_eq_inValuePosition (Nat.le_succ _) id, inValueWithin,
    previous_iff.mp previous]
  rfl

theorem Forest.inValuePosition_top (forest : w.Forest) {id : BlockId}
    (top : w.previous? id = none) :
    w.inValuePosition id = true ↔ ∃ parent socket, w.parent? id = some ⟨parent, .value socket⟩ := by
  rw [← forest.inValueWithin_eq_inValuePosition (Nat.le_succ _) id, inValueWithin]
  cases up : w.parent? id with
  | none => simp
  | some p =>
    obtain ⟨parent, link⟩ := p
    cases link with
    | next => cases top.symm.trans (previous_iff.mpr up)
    | value socket => simp
    | statement socket => simp

theorem Forest.inValuePosition_back (forest : w.Forest) {id first : BlockId}
    (back : w.Back id first) : w.inValuePosition id = w.inValuePosition first := by
  induction back with
  | here id => rfl
  | follows previous _ ih => rw [forest.inValuePosition_previous previous, ih]

/-- Whatever was done to the workspace: the walk along a chain ends and passes no block twice, and
of two neighbours on it each leads to the other. The walk back from any block ends too. All blocks
of a chain are in value position if the block where the walk back ends hangs from a value socket,
and otherwise none is. -/
theorem chain_walks_end (history : List Operation) :
    let w := afterAll history
    (∀ h bs, w.Succession (some h) bs ↔ bs = w.chain (some h)) ∧
    (∀ h, ((w.chain (some h)).map (·.id)).Nodup) ∧
    (∀ h a b, [a, b] <:+: w.chain (some h) → a.next = some b.id ∧ w.previous? b.id = some a.id) ∧
    (∀ h, ∀ a ∈ w.chain (some h), ∀ b ∈ w.chain (some h), w.inValuePosition a.id =
      w.inValuePosition b.id) ∧
    (∀ id, ∃ first, w.ChainHead id first ∧ (∀ other, w.ChainHead id other → other = first) ∧
      (w.inValuePosition id = true ↔
      ∃ parent socket, w.parent? first = some ⟨parent, .value socket⟩)) := by
  intro w
  have forest : w.Forest := forest_afterAll history
  refine ⟨?_, ?_, ?_, ?_, ?_⟩
  · intro h bs
    constructor
    · intro walk
      exact walk.unique (forest.succession_chain h)
    · rintro rfl
      exact forest.succession_chain h
  · intro h
    exact (forest.succession_chain h).nodup forest
  · intro h a b inside
    exact (forest.succession_chain h).neighbours forest inside
  · intro h a memberA b memberB
    have back := (forest.succession_chain h).back forest h rfl
    rw [forest.inValuePosition_back (back a memberA), forest.inValuePosition_back (back b memberB)]
  · intro id
    obtain ⟨first, head⟩ := forest.chainHead_exists id
    refine ⟨first, head, fun other also => also.unique head, ?_⟩
    rw [forest.inValuePosition_back head.back]
    exact forest.inValuePosition_top head.top

end Workspace
end BlockSketch
