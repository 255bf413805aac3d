import BlockSketch.Proofs.Number.TotalOrder
import BlockSketch.Proofs.Sketch.Placement
import BlockSketch.Proofs.StableSort

/-
The roots from top to bottom. Heights are words of any kind, numbers or not; their total order tells
any two different ones apart, and where roots have the same height their numbers do. So there is one
order of the roots only, and moving blocks changes it only if roots change places.
-/
namespace BlockSketch
namespace Workspace

variable {w v : Workspace}

/-! Heights -/

def height? (w : Workspace) (id : BlockId) : Option Binary64 := (w.get? id).map (·.position.y)

def Higher (w : Workspace) (a b : BlockId) : Prop :=
  ∃ x y, w.height? a = some x ∧ w.height? b = some y ∧ x.Below y

/-- The first block is above the second one, or as high and has the smaller number. -/
def Precedes (w : Workspace) (a b : BlockId) : Prop :=
  w.Higher a b ∨ w.height? a = w.height? b ∧ a < b

theorem higher_ne {a b : BlockId} (higher : w.Higher a b) : w.height? a ≠ w.height? b := by
  obtain ⟨x, y, heightA, heightB, below⟩ := higher
  intro same
  rw [heightA, heightB] at same
  obtain rfl := Option.some.inj same
  exact Binary64.below_asymm below below

theorem higher_asymm {a b : BlockId} (higher : w.Higher a b) : ¬ w.Higher b a := by
  rintro ⟨y', x', heightB', heightA', above⟩
  obtain ⟨x, y, heightA, heightB, below⟩ := higher
  obtain rfl := Option.some.inj (heightA.symm.trans heightA')
  obtain rfl := Option.some.inj (heightB.symm.trans heightB')
  exact Binary64.below_asymm below above

theorem Higher.trans {a b c : BlockId} (first : w.Higher a b) (second : w.Higher b c) :
    w.Higher a c := by
  obtain ⟨x, y, heightA, heightB, below⟩ := first
  obtain ⟨y', z, heightB', heightC, below'⟩ := second
  obtain rfl := Option.some.inj (heightB.symm.trans heightB')
  exact ⟨x, z, heightA, heightC, below.trans below'⟩

theorem Higher.congr {a b c d : BlockId} (higher : w.Higher a b) (left : w.height? c = w.height? a)
    (right : w.height? d = w.height? b) : w.Higher c d := by
  rwa [Higher, left, right]

theorem higher_total {a b : BlockId} (boundA : a < w.size) (boundB : b < w.size) :
    w.Higher a b ∨ w.height? a = w.height? b ∨ w.Higher b a := by
  obtain ⟨c, foundA⟩ := get_of_lt_size boundA
  obtain ⟨d, foundB⟩ := get_of_lt_size boundB
  have heightA : w.height? a = some c.position.y := by rw [height?, foundA]; rfl
  have heightB : w.height? b = some d.position.y := by rw [height?, foundB]; rfl
  rcases Binary64.below_total c.position.y d.position.y with below | same | above
  · exact Or.inl ⟨_, _, heightA, heightB, below⟩
  · exact Or.inr (Or.inl (by rw [heightA, heightB, same]))
  · exact Or.inr (Or.inr ⟨_, _, heightB, heightA, above⟩)

theorem precedes_asymm (a b : BlockId) (first : w.Precedes a b) : ¬ w.Precedes b a := by
  rintro (higher | ⟨same, less⟩)
  · rcases first with lower | ⟨same, _⟩
    · exact higher_asymm lower higher
    · exact higher_ne higher same.symm
  · rcases first with lower | ⟨_, more⟩
    · exact higher_ne lower same.symm
    · exact Nat.lt_asymm less more

theorem Precedes.trans {a b c : BlockId} (first : w.Precedes a b) (second : w.Precedes b c) :
    w.Precedes a c := by
  rcases first with higher | ⟨level, less⟩
  · rcases second with higher' | ⟨level', _⟩
    · exact Or.inl (higher.trans higher')
    · exact Or.inl (higher.congr rfl level'.symm)
  · rcases second with higher' | ⟨level', less'⟩
    · exact Or.inl (higher'.congr level rfl)
    · exact Or.inr ⟨level.trans level', Nat.lt_trans less less'⟩

theorem precedes_total {a b : BlockId} (boundA : a < w.size) (boundB : b < w.size) :
    w.Precedes a b ∨ a = b ∨ w.Precedes b a := by
  rcases higher_total boundA boundB with higher | level | lower
  · exact Or.inl (Or.inl higher)
  · rcases Nat.lt_trichotomy a b with less | same | more
    · exact Or.inl (Or.inr ⟨level, less⟩)
    · exact Or.inr (Or.inl same)
    · exact Or.inr (Or.inr (Or.inr ⟨level.symm, more⟩))
  · exact Or.inr (Or.inr (Or.inl lower))

/-! The order of the roots -/

theorem roots_increasing (numbered : ∀ id b, w.get? id = some b → b.id = id) :
    w.roots.Pairwise (· < ·) := by
  rw [roots_eq numbered]
  exact List.pairwise_lt_range.filter _

theorem height_of_root (numbered : ∀ id b, w.get? id = some b → b.id = id) {id : BlockId}
    (root : id ∈ w.sortedRoots) : ∃ x, w.height? id = some x ∧ w.heightKey id = x.orderKey := by
  obtain ⟨b, found⟩ := get_of_lt_size ((mem_sortedRoots_iff numbered).mp root).1
  refine ⟨b.position.y, ?_, ?_⟩
  · rw [height?, found]
    rfl
  · rw [heightKey, found]

theorem sortedRoots_ordered (numbered : ∀ id b, w.get? id = some b → b.id = id) :
    w.sortedRoots.Pairwise w.Precedes := by
  have sorted : w.sortedRoots.Pairwise fun a b => decide (w.heightKey a ≤ w.heightKey b) = true ∧
      (decide (w.heightKey b ≤ w.heightKey a) = true → a < b) := by
    refine pairwise_mergeSort_tied ?_ ?_ (roots_increasing numbered)
    · intro a b c first second
      rw [decide_eq_true_eq] at first second ⊢
      exact Nat.le_trans first second
    · intro a b
      rw [Bool.or_eq_true, decide_eq_true_eq, decide_eq_true_eq]
      exact Nat.le_total _ _
  refine sorted.imp_of_mem fun {a b} memberA memberB ⟨order, tied⟩ => ?_
  obtain ⟨x, heightA, keyA⟩ := height_of_root numbered memberA
  obtain ⟨y, heightB, keyB⟩ := height_of_root numbered memberB
  rw [decide_eq_true_eq, keyA, keyB] at order
  rcases Nat.lt_or_eq_of_le order with less | same
  · exact Or.inl ⟨x, y, heightA, heightB, Binary64.below_iff.mpr less⟩
  · refine Or.inr ⟨?_, tied ?_⟩
    · rw [heightA, heightB, Binary64.orderKey_injective same]
    · rw [decide_eq_true_eq, keyA, keyB, same]

/-- No other list of the roots is in order. -/
theorem sortedRoots_unique (numbered : ∀ id b, w.get? id = some b → b.id = id) {ids : List BlockId}
    (members : ∀ id, id ∈ ids ↔ id < w.size ∧ w.parent? id = none)
    (ordered : ids.Pairwise w.Precedes) : ids = w.sortedRoots :=
  eq_of_strictly_ordered precedes_asymm ordered (sortedRoots_ordered numbered) fun id =>
    (members id).trans (mem_sortedRoots_iff numbered).symm

/-! Moving blocks -/

theorem SameBlocks.numbered (same : w.SameBlocks v)
    (numbered : ∀ id b, w.get? id = some b → b.id = id) (id : BlockId) (c : Block)
    (there : v.get? id = some c) : c.id = id := by
  obtain ⟨p, here⟩ := same.symm.get there
  have kept := numbered id _ here
  exact kept

/-- Blocks that are above each other as before come in the order from before. -/
theorem precedes_of_relative {a b : BlockId} (boundA : a < w.size) (boundB : b < w.size)
    (forwards : v.Higher a b ↔ w.Higher a b) (backwards : v.Higher b a ↔ w.Higher b a)
    (order : v.Precedes a b) : w.Precedes a b := by
  rcases order with higher | ⟨level, less⟩
  · exact Or.inl (forwards.mp higher)
  · rcases higher_total boundA boundB with higher | level' | lower
    · exact absurd level (higher_ne (forwards.mpr higher))
    · exact Or.inr ⟨level', less⟩
    · exact absurd level.symm (higher_ne (backwards.mpr lower))

theorem SameBlocks.sortedRoots_eq (same : w.SameBlocks v)
    (numbered : ∀ id b, w.get? id = some b → b.id = id)
    (relative : ∀ a ∈ w.roots, ∀ b ∈ w.roots, (v.Higher a b ↔ w.Higher a b)) :
    v.sortedRoots = w.sortedRoots := by
  have members : ∀ id, id ∈ v.sortedRoots ↔ id < w.size ∧ w.parent? id = none := by
    intro id
    rw [mem_sortedRoots_iff (same.numbered numbered), same.size_eq, same.parent_eq]
  -- The roots are the same, so it is enough that their list is in order in the other workspace too.
  refine sortedRoots_unique numbered members ?_
  refine (sortedRoots_ordered (same.numbered numbered)).imp_of_mem fun {a b} memberA
    memberB order => ?_
  have rootA := (members a).mp memberA
  have rootB := (members b).mp memberB
  have listedA := (mem_roots numbered).mpr rootA
  have listedB := (mem_roots numbered).mpr rootB
  exact precedes_of_relative rootA.1 rootB.1 (relative a listedA b listedB)
    (relative b listedB a listedA) order

/-- Whatever was done to the workspace and whatever words the heights are: height in the total order
of all words, and then number, puts the blocks in a strict order. The roots are listed once each,
and their list is the only one that increases in it. So it stays the same wherever blocks are moved,
as long as the roots are above each other as before, and in particular as long as each root keeps
its height. -/
theorem roots_are_listed_from_the_top (history : List Operation) :
    let w := afterAll history
    (∀ a b c, w.Precedes a b → w.Precedes b c → w.Precedes a c) ∧
    (∀ a b, w.Precedes a b → ¬ w.Precedes b a) ∧
    (∀ a b, a < w.size → b < w.size → w.Precedes a b ∨ a = b ∨ w.Precedes b a) ∧
    (∀ id, id ∈ w.sortedRoots ↔ id < w.size ∧ w.parent? id = none) ∧
    w.sortedRoots.Nodup ∧
    w.sortedRoots.Pairwise w.Precedes ∧
    (∀ ids : List BlockId, (∀ id, id ∈ ids ↔ id < w.size ∧ w.parent? id = none) →
      ids.Pairwise w.Precedes →
      ids = w.sortedRoots) ∧
    (∀ v, w.SameBlocks v → (∀ a ∈ w.roots, ∀ b ∈ w.roots, (v.Higher a b ↔ w.Higher a b)) →
      v.sortedRoots = w.sortedRoots) ∧
    (∀ v, w.SameBlocks v → (∀ id ∈ w.roots, v.height? id = w.height? id) →
      v.sortedRoots = w.sortedRoots) := by
  intro w
  have numbered := (forest_afterAll history).numbered
  have ordered : w.sortedRoots.Pairwise w.Precedes := sortedRoots_ordered numbered
  refine ⟨fun _ _ _ => Precedes.trans, precedes_asymm, fun _ _ => precedes_total,
    fun id => mem_sortedRoots_iff numbered, ?_, ordered, ?_, ?_, ?_⟩
  · refine ordered.imp ?_
    rintro a _ before rfl
    exact precedes_asymm a a before before
  · intro ids members strict
    exact sortedRoots_unique numbered members strict
  · intro v same relative
    exact same.sortedRoots_eq numbered relative
  · intro v same heights
    refine same.sortedRoots_eq numbered fun a rootA b rootB => ?_
    rw [Higher, Higher, heights a rootA, heights b rootB]

end Workspace
end BlockSketch
