import BlockSketch.Proofs.Workspace.Forest

/-
When a connection is made. Five things can speak against it, and the first of them that does is
reported. If none does, the connection is made, and nothing changes but the two ends of the new
link. Only the links of the forest decide: that the search for a cycle is left out for blocks with
nothing below them, and that it looks at so many blocks only, makes no difference.
-/
namespace BlockSketch
namespace Workspace

inductive Objection where
  | parentMissing
  | childMissing
  | attached
  | cyclic
  | occupied
  deriving DecidableEq, Repr

namespace Objection

def rank : Objection → Nat
  | parentMissing => 0
  | childMissing => 1
  | attached => 2
  | cyclic => 3
  | occupied => 4

def Applies (w : Workspace) (parent : BlockId) (link : Link) (child : BlockId) : Objection → Prop
  | parentMissing => w.size ≤ parent
  | childMissing => w.size ≤ child
  | attached => ∃ p, w.parent? child = some p
  | cyclic => w.Above child parent
  | occupied => ∃ other, w.slot? parent link = some other

def First (w : Workspace) (parent : BlockId) (link : Link) (child : BlockId) (o : Objection) :
    Prop :=
  o.Applies w parent link child ∧ ∀ p : Objection, p.rank < o.rank → ¬ p.Applies w parent link child

def error (parent : BlockId) (link : Link) (child : BlockId) : Objection → ConnectError
  | parentMissing => .unknownBlock parent
  | childMissing => .unknownBlock child
  | attached => .alreadyAttached child
  | cyclic => .cycle parent child
  | occupied => .socketOccupied parent link.socketName

variable {w : Workspace} {parent child : BlockId} {link : Link}

theorem exists_first {o : Objection} (applies : o.Applies w parent link child) :
    ∃ p : Objection, p.First w parent link child := by
  induction lower : o.rank using Nat.strongRecOn generalizing o with
  | ind n ih =>
    by_cases earlier : ∃ p : Objection, p.rank < o.rank ∧ p.Applies w parent link child
    · obtain ⟨p, less, also⟩ := earlier
      exact ih p.rank (by omega) also rfl
    · refine ⟨o, applies, ?_⟩
      intro p less also
      exact earlier ⟨p, less, also⟩

end Objection

/-! The search for a cycle -/

theorem get_of_size_le {w : Workspace} {id : BlockId} (absent : w.size ≤ id) : w.get? id = none :=
  Array.getElem?_eq_none absent

theorem climb_eq {w : Workspace} {steps a b : Nat} {id top : BlockId} (walk : w.Walk steps id top)
    (root : w.parent? top = none) (first : steps < a) (second : steps < b) :
    w.climb a id = w.climb b id := by
  induction walk generalizing a b with
  | here id =>
    obtain ⟨a, rfl⟩ : ∃ k, a = k + 1 := ⟨a - 1, by omega⟩
    obtain ⟨b, rfl⟩ : ∃ k, b = k + 1 := ⟨b - 1, by omega⟩
    simp only [climb, root]
  | @up n id top p up rest ih =>
    obtain ⟨a, rfl⟩ : ∃ k, a = k + 1 := ⟨a - 1, by omega⟩
    obtain ⟨b, rfl⟩ : ∃ k, b = k + 1 := ⟨b - 1, by omega⟩
    simp only [climb, up]
    rw [ih root (show n < a by omega) (show n < b by omega)]

theorem Forest.climb_eq_lineage {w : Workspace} (forest : w.Forest) {id : BlockId} {count : Nat}
    (bound : id < w.size) (enough : w.size ≤ count) : w.climb count id = w.lineage id := by
  obtain ⟨top, _, root, steps, walk⟩ := forest.rooted id bound
  have short := walk_lt_size forest bound walk
  exact climb_eq walk root (by omega) short

/-- For two blocks of a forest, the first of which is nowhere attached, a fault is a cycle. -/
theorem Forest.attachFault_eq {w : Workspace} (forest : w.Forest) {parent child : BlockId}
    (parentBound : parent < w.size) (childBound : child < w.size) (root : w.parent? child = none) :
    (w.Above child parent → w.attachFault? parent child = some (.cycle parent child)) ∧
    (¬ w.Above child parent → w.attachFault? parent child = none) := by
  obtain ⟨p, foundParent⟩ := get_of_lt_size parentBound
  obtain ⟨c, foundChild⟩ := get_of_lt_size childBound
  have detached : c.parent = none := by
    rw [parent?, foundChild] at root
    exact root
  have search : child ∈ w.lineage parent ↔ w.Above child parent := mem_lineage forest parentBound
  constructor
  · intro above
    have met : child ∈ w.lineage parent := search.mpr above
    by_cases same : parent = child
    · simp [attachFault?, foundChild, detached, same]
    · have holding : ¬ c.isChildless = true := by
        intro childless
        exact not_above_of_childless forest foundChild childless same above
      simp [attachFault?, foundParent, foundChild, detached, same, holding, met]
  · intro apart
    have different : parent ≠ child := by
      rintro rfl
      exact apart (w.above_refl parent)
    have unmet : child ∉ w.lineage parent := fun met => apart (search.mp met)
    simp [attachFault?, foundParent, foundChild, detached, different, unmet]

/-! What decides -/

section Decision

variable {w : Workspace} {parent child : BlockId} {link : Link}

theorem Forest.connect_of_first (forest : w.Forest) {o : Objection}
    (first : o.First w parent link child) :
    w.connect parent link child = .error (o.error parent link child) := by
  obtain ⟨applies, before⟩ := first
  have parentBound : 0 < o.rank → parent < w.size :=
    fun later => Nat.not_le.mp (before .parentMissing later)
  have childBound : 1 < o.rank → child < w.size :=
    fun later => Nat.not_le.mp (before .childMissing later)
  have root : 2 < o.rank → w.parent? child = none := by
    intro later
    have free := before .attached later
    exact Option.eq_none_iff_forall_ne_some.mpr fun p up => free ⟨p, up⟩
  cases o with
  | parentMissing =>
    simp [Workspace.connect, attachFault?, get_of_size_le applies, Objection.error]
  | childMissing =>
    obtain ⟨p, foundParent⟩ := get_of_lt_size (parentBound (by decide))
    simp [Workspace.connect, attachFault?, foundParent, get_of_size_le applies, Objection.error]
  | attached =>
    obtain ⟨p, foundParent⟩ := get_of_lt_size (parentBound (by decide))
    obtain ⟨q, up⟩ := applies
    obtain ⟨c, foundChild, held⟩ := parent_iff.mp up
    simp [Workspace.connect, attachFault?, foundParent, foundChild, held, Objection.error]
  | cyclic =>
    have faults := forest.attachFault_eq (parentBound (by decide)) (childBound (by decide))
      (root (by decide))
    rw [Workspace.connect, faults.1 applies]
    rfl
  | occupied =>
    have faults := forest.attachFault_eq (parentBound (by decide)) (childBound (by decide))
      (root (by decide))
    have apart : ¬ w.Above child parent := before .cyclic (by decide)
    obtain ⟨other, full⟩ := applies
    simp [Workspace.connect, faults.2 apart, full, Objection.error]

theorem Forest.connect_of_unopposed (forest : w.Forest)
    (unopposed : ∀ o : Objection, ¬ o.Applies w parent link child) :
    w.connect parent link child = .ok (w.attach parent link child) := by
  have parentBound : parent < w.size := Nat.not_le.mp (unopposed .parentMissing)
  have childBound : child < w.size := Nat.not_le.mp (unopposed .childMissing)
  have root : w.parent? child = none :=
    Option.eq_none_iff_forall_ne_some.mpr fun p up => unopposed .attached ⟨p, up⟩
  have free : w.slot? parent link = none :=
    Option.eq_none_iff_forall_ne_some.mpr fun other full => unopposed .occupied ⟨other, full⟩
  have faultless := (forest.attachFault_eq parentBound childBound root).2 (unopposed .cyclic)
  simp [Workspace.connect, faultless, free]

/-- A connection is made or refused, and nothing but the objections tells which. -/
theorem Forest.connect_decided (forest : w.Forest) (parent : BlockId) (link : Link)
    (child : BlockId) :
    (∃ o : Objection, o.First w parent link child ∧
      w.connect parent link child = .error (o.error parent link child)) ∨
    ((∀ o : Objection, ¬ o.Applies w parent link child) ∧
      w.connect parent link child = .ok (w.attach parent link child)) := by
  by_cases opposed : ∃ o : Objection, o.Applies w parent link child
  · obtain ⟨o, applies⟩ := opposed
    obtain ⟨p, first⟩ := Objection.exists_first applies
    exact Or.inl ⟨p, first, forest.connect_of_first first⟩
  · have unopposed : ∀ o : Objection, ¬ o.Applies w parent link child :=
      fun o applies => opposed ⟨o, applies⟩
    exact Or.inr ⟨unopposed, forest.connect_of_unopposed unopposed⟩

theorem unopposed_iff :
    (∀ o : Objection, ¬ o.Applies w parent link child) ↔
      parent < w.size ∧ child < w.size ∧ w.parent? child = none ∧ ¬ w.Above child parent ∧
        w.slot? parent link = none := by
  constructor
  · intro unopposed
    refine ⟨Nat.not_le.mp (unopposed .parentMissing), Nat.not_le.mp (unopposed .childMissing), ?_,
      unopposed .cyclic, ?_⟩
    · exact Option.eq_none_iff_forall_ne_some.mpr fun p up => unopposed .attached ⟨p, up⟩
    · exact Option.eq_none_iff_forall_ne_some.mpr fun other full =>
        unopposed .occupied ⟨other, full⟩
  · rintro ⟨parentBound, childBound, root, apart, free⟩ o applies
    cases o with
    | parentMissing => exact Nat.not_le.mpr parentBound applies
    | childMissing => exact Nat.not_le.mpr childBound applies
    | attached =>
      obtain ⟨p, up⟩ := applies
      simp [root] at up
    | cyclic => exact apart applies
    | occupied =>
      obtain ⟨other, full⟩ := applies
      simp [free] at full

/-! What changes -/

/-- Both workspaces have the same blocks with the same contents and links, except that a slot of
`parent` holds `child` in the second one, and `child` names it as its place. -/
structure Linked (w v : Workspace) (parent : BlockId) (link : Link) (child : BlockId) : Prop where
  size : v.size = w.size
  content : ∀ id, (v.get? id).map (·.toBlockContent) = (w.get? id).map (·.toBlockContent)
  number : ∀ id, (v.get? id).map (·.id) = (w.get? id).map (·.id)
  parents : ∀ id, v.parent? id = if id = child then some ⟨parent, link⟩ else w.parent? id
  slots : ∀ id other, v.slot? id other =
    if id = parent ∧ other = link then some child else w.slot? id other

theorem linked_attach (parentBound : parent < w.size) (childBound : child < w.size) :
    w.Linked (w.attach parent link child) parent link child where
  size := size_attach w parent link child
  content id := by
    rw [get_attach]
    cases w.get? id with
    | none => rfl
    | some b =>
      simp only [Option.map_some, Block.setParent]
      cases link <;> split <;> split <;> rfl
  number id := by
    rw [get_attach]
    cases w.get? id with
    | none => rfl
    | some b =>
      simp only [Option.map_some]
      split <;> split <;> simp
  parents id := by
    rw [parent_attach childBound]
    simp only [eq_comm]
  slots id other := by
    rw [slot_attach parentBound]
    simp only [eq_comm]

end Decision

/-- After every history a connection is made exactly if both blocks exist, the child hangs from
nothing and is neither the parent nor above it, and the slot is free. Otherwise the first objection
is reported and nothing changes. A connection that is made changes its two ends and nothing else. -/
theorem connecting_follows_the_links (history : List Operation) (parent : BlockId) (link : Link)
    (child : BlockId) :
    let w := afterAll history
    ((∃ v, w.connect parent link child = .ok v) ↔
      parent < w.size ∧ child < w.size ∧ w.parent? child = none ∧ ¬ w.Above child parent ∧
        w.slot? parent link = none) ∧
    (∀ e, w.connect parent link child = .error e ↔
      ∃ o : Objection, o.First w parent link child ∧ e = o.error parent link child) ∧
    (∀ e, w.connect parent link child = .error e → w.apply (.connect parent link child) = w) ∧
    (∀ v, w.connect parent link child = .ok v →
      w.apply (.connect parent link child) = v ∧ w.Linked v parent link child) ∧
    (parent < w.size → ∀ count, w.size ≤ count → w.climb count parent = w.lineage parent) := by
  intro w
  have forest : w.Forest := forest_afterAll history
  rw [← unopposed_iff]
  refine ⟨?_, ?_, ?_, ?_, fun bound count enough => forest.climb_eq_lineage bound enough⟩
  · rcases forest.connect_decided parent link child with ⟨o, first, refused⟩ | ⟨unopposed, made⟩
    · simp only [refused, reduceCtorEq, exists_false, false_iff]
      exact fun unopposed => unopposed o first.1
    · exact ⟨fun _ => unopposed, fun _ => ⟨_, made⟩⟩
  · intro e
    constructor
    · intro refused
      rcases forest.connect_decided parent link child with ⟨o, first, given⟩ | ⟨_, made⟩
      · rw [given] at refused
        cases refused
        exact ⟨o, first, rfl⟩
      · rw [made] at refused
        cases refused
    · rintro ⟨o, first, rfl⟩
      exact forest.connect_of_first first
  · intro e refused
    simp only [apply, refused]
  · intro v made
    refine ⟨by simp only [apply, made], ?_⟩
    obtain ⟨c, found, _, bound, _, _, _, rfl⟩ := connect_cases made
    exact linked_attach bound (get_lt_size found)

end Workspace
end BlockSketch
