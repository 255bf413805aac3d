import BlockSketch.Proofs.Workspace.Forest

/-
Going down the trees of a workspace. Nothing nests deeper than there are blocks, so what holds of a
block whenever it holds of all that hangs from it holds of every block, and walks that look at as
many blocks as there are see all there is to see.
-/
namespace BlockSketch
namespace Workspace

variable {w : Workspace}

/-- The block and all that hangs from it make fewer than `n + 1` levels. -/
def Shallow (w : Workspace) : Nat → BlockId → Prop
  | 0, _ => False
  | n + 1, id => ∀ link child, w.slot? id link = some child → w.Shallow n child

/-- A block that is some steps down leaves the fewer levels for what hangs from it. -/
theorem shallow_of_walk (forest : w.Forest) {n steps : Nat} {id top : BlockId} (bound : id < w.size)
    (walk : w.Walk steps id top) (enough : w.size ≤ n + steps) : w.Shallow n id := by
  induction n generalizing id steps with
  | zero =>
    have short := walk_lt_size forest bound walk
    omega
  | succ n ih =>
    intro link child held
    have up := (forest.linked child ⟨id, link⟩).mpr held
    exact ih (forest.child_exists held) (Walk.up up walk) (by omega)

theorem Forest.shallow (forest : w.Forest) {id : BlockId} (bound : id < w.size) :
    w.Shallow w.size id :=
  shallow_of_walk forest bound (Walk.here id) (Nat.le_refl _)

theorem slot_none_of_size_le {id : BlockId} (absent : w.size ≤ id) (link : Link) :
    w.slot? id link = none := by
  rw [Option.eq_none_iff_forall_not_mem]
  intro child held
  exact Nat.lt_irrefl _ (Nat.lt_of_lt_of_le (slot_lt_size held) absent)

/-- What holds of a block if it holds of everything that hangs from it holds of every block. -/
theorem Forest.child_induction (forest : w.Forest) {motive : BlockId → Prop}
    (step : ∀ id, (∀ link child, w.slot? id link = some child → motive child) → motive id)
    (id : BlockId) : motive id := by
  have within : ∀ n id, w.Shallow n id → motive id := by
    intro n
    induction n with
    | zero => exact fun id none => none.elim
    | succ n ih =>
      exact fun id levels => step id fun link child held => ih child (levels link child held)
  rcases Nat.lt_or_ge id w.size with bound | absent
  · exact within w.size id (forest.shallow bound)
  · refine step id fun link child held => ?_
    rw [slot_none_of_size_le absent] at held
    cases held

/-! Chains -/

theorem slot_next {id : BlockId} {b : Block} (found : w.get? id = some b) :
    w.slot? id .next = b.next := by
  rw [slot?, found]
  rfl

theorem chainWithin_none (count : Nat) : w.chainWithin count none = [] := by
  cases count <;> rfl

theorem chainWithin_missing {id : BlockId} (missing : w.get? id = none) (count : Nat) :
    w.chainWithin count (some id) = [] := by
  cases count with
  | zero => rfl
  | succ count => rw [chainWithin, missing]

theorem chainWithin_eq {n a b : Nat} {id : BlockId} (levels : w.Shallow n id) (first : n ≤ a)
    (second : n ≤ b) : w.chainWithin a (some id) = w.chainWithin b (some id) := by
  induction n generalizing a b id with
  | zero => exact levels.elim
  | succ n ih =>
    obtain ⟨a, rfl⟩ : ∃ k, a = k + 1 := ⟨a - 1, by omega⟩
    obtain ⟨b, rfl⟩ : ∃ k, b = k + 1 := ⟨b - 1, by omega⟩
    rw [chainWithin, chainWithin]
    cases found : w.get? id with
    | none => rfl
    | some block =>
      dsimp only
      cases next : block.next with
      | none => rw [chainWithin_none, chainWithin_none]
      | some child =>
        have held := (slot_next found).trans next
        rw [ih (levels .next child held) (Nat.le_of_succ_le_succ first)
          (Nat.le_of_succ_le_succ second)]

theorem Forest.chainWithin_eq_chain (forest : w.Forest) {count : Nat} (enough : w.size ≤ count)
    (head : Option BlockId) : w.chainWithin count head = w.chain head := by
  cases head with
  | none => rw [chain, chainWithin_none, chainWithin_none]
  | some id =>
    rcases Nat.lt_or_ge id w.size with bound | absent
    · exact chainWithin_eq (forest.shallow bound) enough (Nat.le_refl _)
    · have missing : w.get? id = none := Array.getElem?_eq_none absent
      rw [chain, chainWithin_missing missing, chainWithin_missing missing]

theorem Forest.chain_some (forest : w.Forest) {id : BlockId} {b : Block}
    (found : w.get? id = some b) : w.chain (some id) = b :: w.chain b.next := by
  rw [← forest.chainWithin_eq_chain (Nat.le_succ _) (some id), chainWithin, found]
  rfl

/-! Value positions -/

theorem inValueWithin_eq {steps a b : Nat} {id top : BlockId} (walk : w.Walk steps id top)
    (root : w.parent? top = none) (first : steps < a) (second : steps < b) :
    w.inValueWithin a id = w.inValueWithin b id := by
  induction walk generalizing a b with
  | here id =>
    obtain ⟨a, rfl⟩ : ∃ k, a = k + 1 := ⟨a - 1, by omega⟩
    obtain ⟨b, rfl⟩ : ∃ k, b = k + 1 := ⟨b - 1, by omega⟩
    simp only [inValueWithin, root]
  | @up n id top p up rest ih =>
    obtain ⟨a, rfl⟩ : ∃ k, a = k + 1 := ⟨a - 1, by omega⟩
    obtain ⟨b, rfl⟩ : ∃ k, b = k + 1 := ⟨b - 1, by omega⟩
    have above := ih root (show n < a by omega) (show n < b by omega)
    obtain ⟨block, link⟩ := p
    simp only [inValueWithin, up]
    cases link with
    | next => exact above
    | value socket => rfl
    | statement socket => rfl

theorem Forest.inValueWithin_eq_inValuePosition (forest : w.Forest) {count : Nat}
    (enough : w.size ≤ count) (id : BlockId) : w.inValueWithin count id = w.inValuePosition id := by
  rcases Nat.lt_or_ge id w.size with bound | absent
  · obtain ⟨top, _, root, steps, walk⟩ := forest.rooted id bound
    have short := walk_lt_size forest bound walk
    exact inValueWithin_eq walk root (by omega) short
  · have loose : w.parent? id = none := by
      rw [Option.eq_none_iff_forall_not_mem]
      intro p up
      exact Nat.lt_irrefl _ (Nat.lt_of_lt_of_le (parent_lt_size up) absent)
    have nowhere : ∀ k, w.inValueWithin k id = false := by
      intro k
      cases k with
      | zero => rfl
      | succ k => simp only [inValueWithin, loose]
    rw [inValuePosition, nowhere, nowhere]

theorem inValuePosition_congr {v : Workspace} (size : v.size = w.size)
    (parents : ∀ id, v.parent? id = w.parent? id) (id : BlockId) :
    v.inValuePosition id = w.inValuePosition id := by
  have within : ∀ count id, v.inValueWithin count id = w.inValueWithin count id := by
    intro count
    induction count with
    | zero => exact fun id => rfl
    | succ count ih =>
      intro id
      simp only [inValueWithin, parents, ih]
  rw [inValuePosition, inValuePosition, size, within]

/-! Trees that hang from different places -/

theorem above_trans {a b c : BlockId} (first : w.Above a b) (second : w.Above b c) :
    w.Above a c := by
  obtain ⟨m, down⟩ := second
  obtain ⟨n, more⟩ := first
  exact walk_append down more

theorem above_child {id child : BlockId} {link : Link} (forest : w.Forest)
    (held : w.slot? id link = some child) : w.Above id child :=
  ⟨1, Walk.up ((forest.linked child ⟨id, link⟩).mpr held) (Walk.here id)⟩

theorem above_total {a b id : BlockId} (first : w.Above a id) (second : w.Above b id) :
    w.Above a b ∨ w.Above b a := by
  obtain ⟨m, walk⟩ := first
  obtain ⟨n, other⟩ := second
  induction walk generalizing n with
  | here id => exact Or.inr ⟨n, other⟩
  | up parent rest ih =>
    cases other with
    | here => exact Or.inl ⟨_, Walk.up parent rest⟩
    | up again tail =>
      cases Option.some.inj (parent.symm.trans again)
      exact ih _ tail

theorem above_cases {a id : BlockId} (above : w.Above a id) :
    a = id ∨ ∃ p, w.parent? id = some p ∧ w.Above a p.block := by
  obtain ⟨n, walk⟩ := above
  cases walk with
  | here => exact Or.inl rfl
  | up parent rest => exact Or.inr ⟨_, parent, _, rest⟩

/-- No block is below two slots of one block. -/
theorem Forest.slots_apart (forest : w.Forest) {id a b x : BlockId} {l m : Link}
    (first : w.slot? id l = some a) (second : w.slot? id m = some b) (other : l ≠ m)
    (below : w.Above a x) : ¬ w.Above b x := by
  intro also
  have upA := (forest.linked a ⟨id, l⟩).mpr first
  have upB := (forest.linked b ⟨id, m⟩).mpr second
  have different : a ≠ b := by
    rintro rfl
    exact other (forest.slot_unique first second).2
  rcases above_total below also with nested | nested
  · rcases above_cases nested with same | ⟨p, up, higher⟩
    · exact different same
    · cases upB.symm.trans up
      exact forest.no_return upA higher
  · rcases above_cases nested with same | ⟨p, up, higher⟩
    · exact different same.symm
    · cases upA.symm.trans up
      exact forest.no_return upB higher

theorem Forest.not_below_child (forest : w.Forest) {id child : BlockId} {link : Link}
    (held : w.slot? id link = some child) : ¬ w.Above child id :=
  forest.no_return ((forest.linked child ⟨id, link⟩).mpr held)

end Workspace
end BlockSketch
