import BlockSketch.Proofs.Workspace.Links

/-
Workspaces are forests. A block and the slot that holds it always agree, and every walk up the
parents ends at a root. Each operation keeps this, so it holds after every history of operations,
accepted or refused. The search for a cycle is cut short for blocks with nothing below them; that is
sound because the two ends of a link agree.
-/
namespace BlockSketch
namespace Workspace

inductive Walk (w : Workspace) : Nat → BlockId → BlockId → Prop where
  | here (id : BlockId) : Walk w 0 id id
  | up {n : Nat} {id a : BlockId} {p : Parent} (parent : w.parent? id = some p)
      (rest : Walk w n p.block a) : Walk w (n + 1) id a

def Above (w : Workspace) (a id : BlockId) : Prop := ∃ n, w.Walk n id a

theorem above_refl (w : Workspace) (id : BlockId) : w.Above id id := ⟨0, .here id⟩

theorem walk_append_up {w : Workspace} {n : Nat} {id a : BlockId} {p : Parent}
    (walk : w.Walk n id a) (parent : w.parent? a = some p) : w.Walk (n + 1) id p.block := by
  induction walk with
  | here id => exact Walk.up parent (Walk.here p.block)
  | up first rest ih => exact Walk.up first (ih parent)

theorem walk_append {w : Workspace} {m n : Nat} {id a top : BlockId}
    (walk : w.Walk m id a) (more : w.Walk n a top) : w.Above top id := by
  induction walk with
  | here id => exact ⟨n, more⟩
  | up first rest ih =>
    obtain ⟨k, joined⟩ := ih more
    exact ⟨k + 1, Walk.up first joined⟩

theorem walk_mono {w v : Workspace} (kept : ∀ id p, w.parent? id = some p → v.parent? id = some p)
    {n : Nat} {id a : BlockId} (walk : w.Walk n id a) : v.Walk n id a := by
  induction walk with
  | here id => exact Walk.here id
  | up first rest ih => exact Walk.up (kept _ _ first) ih

/-- Walks cannot fork, so a walk to a root passes whatever any other walk reaches. -/
theorem root_of_walks {w : Workspace} {m n : Nat} {id r s : BlockId} (walk : w.Walk m id r)
    (other : w.Walk n id s) (rootR : w.parent? r = none) (rootS : w.parent? s = none) : r = s := by
  induction walk generalizing n with
  | here id =>
    cases other with
    | here => rfl
    | up first rest => simp [rootR] at first
  | up first rest ih =>
    cases other with
    | here => simp [rootS] at first
    | up second tail =>
      cases Option.some.inj (first.symm.trans second)
      exact ih tail rootR

/-- The shape that every workspace has. -/
structure Forest (w : Workspace) : Prop where
  numbered : ∀ id b, w.get? id = some b → b.id = id
  /-- A block names as its parent exactly the slot that holds it. -/
  linked : ∀ id p, w.parent? id = some p ↔ w.slot? p.block p.link = some id
  rooted : ∀ id, id < w.size → ∃ r, r < w.size ∧ w.parent? r = none ∧ w.Above r id

namespace Forest

variable {w : Workspace}

theorem parent_exists (forest : w.Forest) {id : BlockId} {p : Parent}
    (up : w.parent? id = some p) : p.block < w.size :=
  slot_lt_size ((forest.linked id p).mp up)

theorem child_exists (forest : w.Forest) {id child : BlockId} {link : Link}
    (held : w.slot? id link = some child) : child < w.size :=
  parent_lt_size ((forest.linked child ⟨id, link⟩).mpr held)

theorem slot_unique (forest : w.Forest) {a b child : BlockId} {l m : Link}
    (first : w.slot? a l = some child) (second : w.slot? b m = some child) : a = b ∧ l = m := by
  have one := (forest.linked child ⟨a, l⟩).mpr first
  have two := (forest.linked child ⟨b, m⟩).mpr second
  cases one.symm.trans two
  exact ⟨rfl, rfl⟩

theorem no_return (forest : w.Forest) {id : BlockId} {p : Parent} (up : w.parent? id = some p) :
    ¬ w.Above id p.block := by
  obtain ⟨r, bound, root, n, walk⟩ := forest.rooted id (parent_lt_size up)
  clear bound
  -- The walk to the root gets shorter step by step, and carries the supposed return along.
  induction walk generalizing p with
  | here id => simp [root] at up
  | up first rest ih =>
    cases Option.some.inj (first.symm.trans up)
    rintro ⟨m, back⟩
    cases back with
    | here => exact ih up root ⟨0, Walk.here _⟩
    | up second tail => exact ih second root ⟨_, walk_append_up tail up⟩

theorem above_lt_size (forest : w.Forest) {a id : BlockId} (bound : id < w.size)
    (above : w.Above a id) : a < w.size := by
  obtain ⟨n, walk⟩ := above
  induction walk with
  | here id => exact bound
  | up first rest ih => exact ih (forest.parent_exists first)

end Forest

/-! The search for ancestors -/

theorem mem_climb_of_walk {w : Workspace} {n count : Nat} {id a : BlockId} (walk : w.Walk n id a)
    (enough : n < count) : a ∈ w.climb count id := by
  induction walk generalizing count with
  | here id =>
    obtain ⟨k, rfl⟩ : ∃ k, count = k + 1 := ⟨count - 1, by omega⟩
    simp [climb]
  | up first rest ih =>
    obtain ⟨k, rfl⟩ : ∃ k, count = k + 1 := ⟨count - 1, by omega⟩
    simp only [climb, first, List.mem_cons]
    exact Or.inr (ih (by omega))

theorem above_of_mem_climb {w : Workspace} {count : Nat} {id a : BlockId}
    (member : a ∈ w.climb count id) : w.Above a id := by
  induction count generalizing id with
  | zero => simp [climb] at member
  | succ count ih =>
    simp only [climb, List.mem_cons] at member
    rcases member with rfl | later
    · exact w.above_refl a
    · cases up : w.parent? id with
      | none => simp [up] at later
      | some p =>
        rw [up] at later
        obtain ⟨n, walk⟩ := ih later
        exact ⟨n + 1, Walk.up up walk⟩

theorem climb_nodup {w : Workspace} (forest : w.Forest) (count : Nat) (id : BlockId) :
    (w.climb count id).Nodup := by
  induction count generalizing id with
  | zero => simp [climb]
  | succ count ih =>
    simp only [climb]
    cases up : w.parent? id with
    | none => simp
    | some p =>
      refine List.nodup_cons.mpr ⟨?_, ih p.block⟩
      intro again
      exact forest.no_return up (above_of_mem_climb again)

theorem climb_length {w : Workspace} {n : Nat} {id a : BlockId} (walk : w.Walk n id a) :
    (w.climb (n + 1) id).length = n + 1 := by
  induction walk with
  | here id => simp only [climb]; split <;> simp
  | up first rest ih =>
    rw [climb, first]
    simp [ih]

/-- The blocks on a walk are different, so a walk has fewer steps than there are blocks. -/
theorem walk_lt_size {w : Workspace} (forest : w.Forest) {n : Nat} {id a : BlockId}
    (bound : id < w.size) (walk : w.Walk n id a) : n < w.size := by
  have inside : w.climb (n + 1) id ⊆ List.range w.size := by
    intro x member
    exact List.mem_range.mpr (forest.above_lt_size bound (above_of_mem_climb member))
  have short := (climb_nodup forest (n + 1) id).length_le_of_subset inside
  rw [climb_length walk, List.length_range] at short
  exact short

/-- The lineage of a block is complete although its walk is cut off. -/
theorem mem_lineage {w : Workspace} (forest : w.Forest) {id a : BlockId} (bound : id < w.size) :
    a ∈ w.lineage id ↔ w.Above a id := by
  constructor
  · exact above_of_mem_climb
  · rintro ⟨n, walk⟩
    exact mem_climb_of_walk walk (walk_lt_size forest bound walk)

theorem not_above_of_childless {w : Workspace} (forest : w.Forest) {a id : BlockId} {b : Block}
    (found : w.get? a = some b) (childless : b.isChildless = true) (different : id ≠ a) :
    ¬ w.Above a id := by
  rintro ⟨n, walk⟩
  induction walk with
  | here id => exact different rfl
  | @up n id a p first rest ih =>
    by_cases last : p.block = a
    · have held := (forest.linked _ _).mp first
      rw [last] at held
      simp [slot?, found, Block.child_of_childless childless] at held
    · exact ih found last

/-! What each operation keeps -/

theorem forest_empty : empty.Forest where
  numbered id b found := by simp [get_empty] at found
  linked id p := by simp [parent?, slot?, get_empty]
  rooted id bound := absurd bound (Nat.not_lt_zero id)

theorem Forest.add {w : Workspace} (forest : w.Forest) (content : BlockContent) :
    (w.add content).2.Forest where
  numbered id b found := by
    rw [get_add] at found
    split at found
    · rename_i fresh
      cases found
      exact fresh.symm
    · exact forest.numbered id b found
  linked id p := by
    rw [parent_add, slot_add]
    exact forest.linked id p
  rooted id bound := by
    rw [size_add] at bound ⊢
    by_cases old : id < w.size
    · obtain ⟨r, inside, root, n, walk⟩ := forest.rooted id old
      refine ⟨r, by omega, by rw [parent_add]; exact root, n, ?_⟩
      exact walk_mono (fun i p up => by rw [parent_add]; exact up) walk
    · have absent : w.parent? id = none := by
        simp only [parent?, get?, Array.getElem?_eq_none (Nat.not_lt.mp old), Option.bind_none]
      exact ⟨id, bound, by rw [parent_add]; exact absent, above_refl _ id⟩

theorem Forest.edit {w : Workspace} (forest : w.Forest) (id : BlockId)
    (f : BlockContent → BlockContent) : (w.edit id f).Forest where
  numbered other b found := by
    rw [Workspace.edit, get_update] at found
    split at found
    · obtain ⟨old, before, rfl⟩ := Option.map_eq_some_iff.mp found
      exact forest.numbered other old before
    · exact forest.numbered other b found
  linked other p := by
    rw [parent_edit, slot_edit]
    exact forest.linked other p
  rooted other bound := by
    rw [Workspace.edit, size_update] at bound
    obtain ⟨r, inside, root, n, walk⟩ := forest.rooted other bound
    refine ⟨r, by rw [Workspace.edit, size_update]; exact inside, by rw [parent_edit]; exact root,
      n, ?_⟩
    exact walk_mono (fun i p up => by rw [parent_edit]; exact up) walk

theorem Forest.attach {w : Workspace} (forest : w.Forest) {parent child : BlockId} {link : Link}
    (parentBound : parent < w.size) (childBound : child < w.size)
    (root : w.parent? child = none) (free : w.slot? parent link = none)
    (apart : ¬ w.Above child parent) : (w.attach parent link child).Forest where
  numbered id b found := by
    rw [get_attach] at found
    obtain ⟨old, before, rfl⟩ := Option.map_eq_some_iff.mp found
    have same := forest.numbered id old before
    dsimp only
    split <;> split <;> simp [same]
  linked id p := by
    rw [parent_attach childBound, slot_attach parentBound]
    have before := forest.linked id p
    by_cases isChild : child = id
    · subst isChild
      rw [root] at before
      by_cases isSlot : parent = p.block ∧ link = p.link
      · simp [isSlot]
      · have other : (⟨parent, link⟩ : Parent) ≠ p := fun same => isSlot (by simp [← same])
        simp only [↓reduceIte, Option.some.injEq, other, isSlot, false_iff]
        simpa using before
    · by_cases isSlot : parent = p.block ∧ link = p.link
      · rw [← isSlot.1, ← isSlot.2, free] at before
        simp only [isChild, isSlot, and_self, ↓reduceIte, Option.some.injEq, iff_false]
        simpa using before
      · simpa [isChild, isSlot] using before
  rooted id bound := by
    have kept : ∀ i p, w.parent? i = some p → (w.attach parent link child).parent? i = some p := by
      intro i p up
      have notChild : child ≠ i := by
        rintro rfl
        simp [root] at up
      rw [parent_attach childBound, if_neg notChild]
      exact up
    have stays : ∀ r, w.parent? r = none → r ≠ child →
        (w.attach parent link child).parent? r = none := by
      intro r top different
      rw [parent_attach childBound, if_neg (Ne.symm different)]
      exact top
    rw [size_attach] at bound ⊢
    obtain ⟨r, inside, top, n, walk⟩ := forest.rooted id bound
    by_cases moved : r = child
    · -- The tree of the child now hangs below the root of its new parent.
      subst moved
      obtain ⟨s, insideS, topS, m, more⟩ := forest.rooted parent parentBound
      have notChild : s ≠ r := by
        rintro rfl
        exact apart ⟨m, more⟩
      have up : (w.attach parent link r).parent? r = some ⟨parent, link⟩ := by
        rw [parent_attach childBound, if_pos rfl]
      exact ⟨s, insideS, stays s topS notChild,
        walk_append (walk_mono kept walk) (Walk.up up (walk_mono kept more))⟩
    · exact ⟨r, inside, stays r top moved, n, walk_mono kept walk⟩

theorem Forest.detach {w : Workspace} (forest : w.Forest) {child : BlockId} {p : Parent}
    (hangs : w.parent? child = some p) : (w.detach p child).Forest where
  numbered id b found := by
    rw [get_detach] at found
    obtain ⟨old, before, rfl⟩ := Option.map_eq_some_iff.mp found
    have same := forest.numbered id old before
    dsimp only
    split <;> split <;> simp [same]
  linked id q := by
    rw [parent_detach, slot_detach]
    have held := (forest.linked child p).mp hangs
    have before := forest.linked id q
    by_cases isChild : child = id
    · subst isChild
      rw [hangs] at before
      by_cases isSlot : p.block = q.block ∧ p.link = q.link
      · simp [isSlot]
      · have other : p ≠ q := fun same => isSlot (by simp [same])
        simpa [isSlot, other] using before
    · by_cases isSlot : p.block = q.block ∧ p.link = q.link
      · rw [isSlot.1, isSlot.2] at held
        rw [held] at before
        simpa [isChild, isSlot] using before
      · simpa [isChild, isSlot] using before
  rooted id bound := by
    rw [size_detach] at bound ⊢
    obtain ⟨r, inside, top, n, walk⟩ := forest.rooted id bound
    have topAfter : (w.detach p child).parent? r = none := by
      rw [parent_detach]
      split <;> simp [top]
    -- A walk that passes the child ends there from now on.
    induction walk with
    | here id => exact ⟨id, bound, topAfter, above_refl _ id⟩
    | @up n id r q first rest ih =>
      by_cases isChild : child = id
      · subst isChild
        exact ⟨child, bound, by simp [parent_detach], above_refl _ child⟩
      · obtain ⟨s, insideS, topS, m, more⟩ := ih (forest.parent_exists first) inside top topAfter
        have up : (w.detach p child).parent? id = some q := by
          rw [parent_detach, if_neg isChild]
          exact first
        exact ⟨s, insideS, topS, m + 1, Walk.up up more⟩

theorem connect_cases {w v : Workspace} {parent child : BlockId} {link : Link}
    (accepted : w.connect parent link child = .ok v) :
    ∃ c, w.get? child = some c ∧ c.parent = none ∧ parent < w.size ∧ parent ≠ child ∧
      (c.isChildless = true ∨ child ∉ w.lineage parent) ∧ w.slot? parent link = none ∧
      v = w.attach parent link child := by
  unfold connect at accepted
  split at accepted
  · cases accepted
  · rename_i faultless
    split at accepted
    · cases accepted
    · rename_i free
      cases accepted
      unfold attachFault? at faultless
      split at faultless
      · cases faultless
      · cases faultless
      · rename_i b c foundParent foundChild
        split at faultless
        · cases faultless
        · rename_i detached
          split at faultless
          · cases faultless
          · rename_i different
            refine ⟨c, foundChild, by simpa using detached, get_lt_size foundParent, different, ?_,
              by simpa using free, rfl⟩
            split at faultless
            · rename_i childless
              exact Or.inl childless
            · split at faultless
              · cases faultless
              · rename_i unseen
                exact Or.inr (by simpa using unseen)

theorem Forest.connect {w v : Workspace} (forest : w.Forest) {parent child : BlockId} {link : Link}
    (accepted : w.connect parent link child = .ok v) : v.Forest := by
  obtain ⟨c, found, root, bound, different, checked, free, rfl⟩ := connect_cases accepted
  have apart : ¬ w.Above child parent := by
    rcases checked with childless | unseen
    · exact not_above_of_childless forest found childless different
    · exact fun above => unseen ((mem_lineage forest bound).mpr above)
  exact forest.attach bound (get_lt_size found) (by simp [parent?, found, root]) free apart

theorem Forest.disconnect {w : Workspace} (forest : w.Forest) (child : BlockId) :
    (w.disconnect child).2.Forest := by
  unfold Workspace.disconnect
  split
  · exact forest
  · rename_i p hangs
    exact forest.detach hangs

/-! Histories -/

/-- One call on a workspace. Content is changed by any function, links only by connecting and
disconnecting. -/
inductive Operation where
  | add (content : BlockContent)
  | connect (parent : BlockId) (link : Link) (child : BlockId)
  | disconnect (child : BlockId)
  | edit (id : BlockId) (change : BlockContent → BlockContent)

/-- A refused connection leaves the workspace as it is. -/
def apply (w : Workspace) : Operation → Workspace
  | .add content => (w.add content).2
  | .connect parent link child =>
    match w.connect parent link child with
    | .ok v => v
    | .error _ => w
  | .disconnect child => (w.disconnect child).2
  | .edit id change => w.edit id change

def afterAll (history : List Operation) : Workspace := history.foldl apply empty

theorem Forest.apply {w : Workspace} (forest : w.Forest) (op : Operation) :
    (w.apply op).Forest := by
  cases op with
  | add content => exact forest.add content
  | connect parent link child =>
    simp only [Workspace.apply]
    split
    · rename_i v accepted
      exact forest.connect accepted
    · exact forest
  | disconnect child => exact forest.disconnect child
  | edit id change => exact forest.edit id change

theorem forest_afterAll (history : List Operation) : (afterAll history).Forest := by
  have run : ∀ (ops : List Operation) (w : Workspace), w.Forest → (ops.foldl apply w).Forest := by
    intro ops
    induction ops with
    | nil => exact fun _ forest => forest
    | cons op rest ih => exact fun w forest => ih (w.apply op) (forest.apply op)
  exact run history empty forest_empty

/-- The tree that a block lies in is found by walking up, and there is only one. -/
theorem Forest.unique_root {w : Workspace} (forest : w.Forest) {id : BlockId}
    (bound : id < w.size) :
    ∃ r ∈ w.roots, w.Above r id ∧ ∀ s ∈ w.roots, w.Above s id → s = r := by
  obtain ⟨r, inside, top, n, walk⟩ := forest.rooted id bound
  refine ⟨r, (mem_roots forest.numbered).mpr ⟨inside, top⟩, ⟨n, walk⟩, ?_⟩
  rintro s member ⟨m, other⟩
  exact root_of_walks other walk ((mem_roots forest.numbered).mp member).2 top

/-- Whatever calls were made and however many were refused: numbers are places, the two ends of
every link agree, nothing stands above itself, and each block is in the tree of exactly one root. -/
theorem every_history_gives_a_forest (history : List Operation) :
    let w := afterAll history
    (∀ i b, w.get? i = some b → b.id = i) ∧
    (∀ c p, w.parent? c = some p ↔ w.slot? p.block p.link = some c) ∧
    (∀ p link c, w.slot? p link = some c →
      c < w.size ∧ ∀ q other, w.slot? q other = some c → q = p ∧ other = link) ∧
    (∀ i p, w.parent? i = some p → ¬ w.Above i p.block) ∧
    (∀ i, i < w.size → ∃ r ∈ w.roots, w.Above r i ∧ ∀ s ∈ w.roots, w.Above s i → s = r) := by
  intro w
  have forest : w.Forest := forest_afterAll history
  refine ⟨forest.numbered, forest.linked, ?_, ?_, ?_⟩
  · intro p link c held
    exact ⟨forest.child_exists held, fun q other again => forest.slot_unique again held⟩
  · intro i p up
    exact forest.no_return up
  · intro i bound
    exact forest.unique_root bound

end Workspace
end BlockSketch
