import BlockSketch.Workspace.Basic

/-
What each operation of a workspace does to its look-ups. A block is looked up by number, its parent
and the content of its slots through it; every operation is described by these three and nothing
else.
-/
namespace BlockSketch
namespace Block

theorem child_fill (b : Block) (link other : Link) (child : BlockId) :
    (b.fill link child).child? other = if link = other then some child else b.child? other := by
  cases link <;> cases other <;> simp [fill, child?]

theorem child_vacate (b : Block) (link other : Link) :
    (b.vacate link).child? other = if link = other then none else b.child? other := by
  cases link <;> cases other <;> simp [vacate, child?]

@[simp] theorem fill_parent (b : Block) (link : Link) (child : BlockId) :
    (b.fill link child).parent = b.parent := by cases link <;> rfl

@[simp] theorem fill_id (b : Block) (link : Link) (child : BlockId) :
    (b.fill link child).id = b.id := by cases link <;> rfl

@[simp] theorem vacate_parent (b : Block) (link : Link) : (b.vacate link).parent = b.parent := by
  cases link <;> rfl

@[simp] theorem vacate_id (b : Block) (link : Link) : (b.vacate link).id = b.id := by
  cases link <;> rfl

@[simp] theorem setParent_parent (b : Block) (p : Option Parent) : (b.setParent p).parent = p := rfl

@[simp] theorem setParent_id (b : Block) (p : Option Parent) : (b.setParent p).id = b.id := rfl

@[simp] theorem child_setParent (b : Block) (p : Option Parent) (link : Link) :
    (b.setParent p).child? link = b.child? link := by
  cases link <;> rfl

theorem child_detached (id : BlockId) (content : BlockContent) (link : Link) :
    (detached id content).child? link = none := by
  cases link <;> rfl

theorem child_of_childless {b : Block} (childless : b.isChildless = true) (link : Link) :
    b.child? link = none := by
  simp only [isChildless, Bool.and_eq_true, Option.isNone_iff_eq_none, SortedMap.isEmpty,
    List.isEmpty_iff] at childless
  obtain ⟨⟨noNext, noValues⟩, noStatements⟩ := childless
  cases link with
  | next => exact noNext
  | value socket => simp [child?, SortedMap.get?, noValues, SortedMap.lookup]
  | statement socket => simp [child?, SortedMap.get?, noStatements, SortedMap.lookup]

end Block

namespace Workspace

theorem get_empty (id : BlockId) : empty.get? id = none := rfl

theorem get_lt_size {w : Workspace} {id : BlockId} {b : Block} (found : w.get? id = some b) :
    id < w.size := by
  obtain ⟨bound, _⟩ := Array.getElem?_eq_some_iff.mp found
  exact bound

theorem get_of_lt_size {w : Workspace} {id : BlockId} (bound : id < w.size) :
    ∃ b, w.get? id = some b :=
  ⟨w.blocks[id], Array.getElem?_eq_getElem bound⟩

@[simp] theorem size_update (w : Workspace) (id : BlockId) (f : Block → Block) :
    (w.update id f).size = w.size := by
  simp [update, size]

theorem get_update (w : Workspace) (id other : BlockId) (f : Block → Block) :
    (w.update id f).get? other = if id = other then (w.get? other).map f else w.get? other := by
  exact Array.getElem?_modify

theorem get_add (w : Workspace) (content : BlockContent) (id : BlockId) :
    (w.add content).2.get? id =
      if id = w.size then some (.detached w.size content) else w.get? id := by
  exact Array.getElem?_push

@[simp] theorem size_add (w : Workspace) (content : BlockContent) :
    (w.add content).2.size = w.size + 1 := by
  simp [add, size]

theorem parent_iff {w : Workspace} {id : BlockId} {p : Parent} :
    w.parent? id = some p ↔ ∃ b, w.get? id = some b ∧ b.parent = some p := by
  simp [parent?, Option.bind_eq_some_iff]

theorem slot_iff {w : Workspace} {id child : BlockId} {link : Link} :
    w.slot? id link = some child ↔ ∃ b, w.get? id = some b ∧ b.child? link = some child := by
  simp [slot?, Option.bind_eq_some_iff]

theorem parent_lt_size {w : Workspace} {id : BlockId} {p : Parent} (up : w.parent? id = some p) :
    id < w.size := by
  obtain ⟨b, found, _⟩ := parent_iff.mp up
  exact get_lt_size found

theorem slot_lt_size {w : Workspace} {id child : BlockId} {link : Link}
    (held : w.slot? id link = some child) : id < w.size := by
  obtain ⟨b, found, _⟩ := slot_iff.mp held
  exact get_lt_size found

theorem roots_from {bs : List Block} {start : Nat}
    (numbered : ∀ i b, bs[i]? = some b → b.id = start + i) :
    (bs.filter Block.isRoot).map (·.id) =
      (List.range' start bs.length).filter fun i => (bs[i - start]?.bind (·.parent)).isNone := by
  induction bs generalizing start with
  | nil => rfl
  | cons b rest ih =>
    have first : b.id = start := numbered 0 b rfl
    have later : ∀ i c, rest[i]? = some c → c.id = start + 1 + i := by
      intro i c found
      rw [numbered (i + 1) c found]
      omega
    have shifted : (List.range' (start + 1) rest.length).filter
        (fun i => (rest[i - (start + 1)]?.bind (·.parent)).isNone) =
          (List.range' (start + 1) rest.length).filter
            fun i => ((b :: rest)[i - start]?.bind (·.parent)).isNone := by
      apply List.filter_congr
      intro i member
      have above := (List.mem_range'_1.mp member).1
      rw [show i - start = i - (start + 1) + 1 by omega, List.getElem?_cons_succ]
    rw [List.length_cons, List.range'_succ, List.filter_cons, List.filter_cons,
      ← shifted, ← ih later]
    cases top : b.parent <;> simp [Block.isRoot, top, first]

theorem roots_eq {w : Workspace} (numbered : ∀ id b, w.get? id = some b → b.id = id) :
    w.roots = (List.range w.size).filter fun id => (w.parent? id).isNone := by
  have listed : ∀ i b, w.blocks.toList[i]? = some b → b.id = 0 + i := by
    intro i b found
    rw [Nat.zero_add]
    exact numbered i b (by rw [get?, ← Array.getElem?_toList, found])
  rw [roots, roots_from listed, List.range_eq_range', Array.length_toList]
  apply List.filter_congr
  intro i _
  rw [Nat.sub_zero, Array.getElem?_toList]
  rfl

theorem mem_roots {w : Workspace} (numbered : ∀ id b, w.get? id = some b → b.id = id)
    {id : BlockId} :
    id ∈ w.roots ↔ id < w.size ∧ w.parent? id = none := by
  rw [roots_eq numbered, List.mem_filter, List.mem_range, Option.isNone_iff_eq_none]

theorem mem_sortedRoots_iff {w : Workspace} (numbered : ∀ id b, w.get? id = some b → b.id = id)
    {id : BlockId} : id ∈ w.sortedRoots ↔ id < w.size ∧ w.parent? id = none := by
  rw [sortedRoots, List.mem_mergeSort, mem_roots numbered]

/-! The links after adding a block and after changing its content -/

theorem parent_add (w : Workspace) (content : BlockContent) (id : BlockId) :
    (w.add content).2.parent? id = w.parent? id := by
  simp only [parent?, get_add]
  split
  · rename_i fresh
    have absent : w.get? id = none := Array.getElem?_eq_none (Nat.le_of_eq fresh.symm)
    simp [absent, Block.detached]
  · rfl

theorem slot_add (w : Workspace) (content : BlockContent) (id : BlockId) (link : Link) :
    (w.add content).2.slot? id link = w.slot? id link := by
  simp only [slot?, get_add]
  split
  · rename_i fresh
    have absent : w.get? id = none := Array.getElem?_eq_none (Nat.le_of_eq fresh.symm)
    simp [absent, Block.child_detached]
  · rfl

theorem parent_edit (w : Workspace) (id other : BlockId) (f : BlockContent → BlockContent) :
    (w.edit id f).parent? other = w.parent? other := by
  simp only [parent?, edit, get_update]
  split
  · cases w.get? other <;> rfl
  · rfl

theorem slot_edit (w : Workspace) (id other : BlockId) (f : BlockContent → BlockContent)
    (link : Link) : (w.edit id f).slot? other link = w.slot? other link := by
  simp only [slot?, edit, get_update]
  split
  · cases w.get? other <;> cases link <;> rfl
  · rfl

/-! The links after one of them is made or removed -/

theorem get_attach (w : Workspace) (parent : BlockId) (link : Link) (child id : BlockId) :
    (w.attach parent link child).get? id =
      (w.get? id).map fun b =>
        let b := if parent = id then b.fill link child else b
        if child = id then b.setParent (some ⟨parent, link⟩) else b := by
  simp only [attach, get_update]
  cases w.get? id <;> by_cases h : child = id <;> by_cases k : parent = id <;> simp [h, k]

theorem parent_attach {w : Workspace} {child : BlockId} (bound : child < w.size) (parent : BlockId)
    (link : Link) (id : BlockId) :
    (w.attach parent link child).parent? id =
      if child = id then some ⟨parent, link⟩ else w.parent? id := by
  simp only [parent?, get_attach]
  by_cases same : child = id
  · subst same
    obtain ⟨b, found⟩ := get_of_lt_size bound
    simp [found]
  · simp only [same, ↓reduceIte]
    cases w.get? id with
    | none => rfl
    | some b => simp only [Option.map_some, Option.bind_some]; split <;> simp

theorem slot_attach {w : Workspace} {parent : BlockId} (bound : parent < w.size) (link : Link)
    (child id : BlockId) (other : Link) :
    (w.attach parent link child).slot? id other =
      if parent = id ∧ link = other then some child else w.slot? id other := by
  simp only [slot?, get_attach]
  by_cases same : parent = id
  · subst same
    obtain ⟨b, found⟩ := get_of_lt_size bound
    simp only [found, Option.map_some, Option.bind_some, ↓reduceIte, true_and]
    split <;> simp [Block.child_fill]
  · simp only [same, ↓reduceIte, false_and]
    cases w.get? id with
    | none => rfl
    | some b => simp only [Option.map_some, Option.bind_some]; split <;> simp

@[simp] theorem size_attach (w : Workspace) (parent : BlockId) (link : Link) (child : BlockId) :
    (w.attach parent link child).size = w.size := by
  simp [attach]

theorem get_detach (w : Workspace) (p : Parent) (child id : BlockId) :
    (w.detach p child).get? id =
      (w.get? id).map fun b =>
        let b := if child = id then b.setParent none else b
        if p.block = id then b.vacate p.link else b := by
  simp only [detach, get_update]
  cases w.get? id <;> by_cases h : child = id <;> by_cases k : p.block = id <;> simp [h, k]

theorem parent_detach (w : Workspace) (p : Parent) (child id : BlockId) :
    (w.detach p child).parent? id = if child = id then none else w.parent? id := by
  simp only [parent?, get_detach]
  cases w.get? id with
  | none => simp
  | some b =>
    simp only [Option.map_some, Option.bind_some]
    by_cases same : child = id <;> by_cases above : p.block = id <;> simp [same, above]

theorem slot_detach (w : Workspace) (p : Parent) (child id : BlockId) (link : Link) :
    (w.detach p child).slot? id link =
      if p.block = id ∧ p.link = link then none else w.slot? id link := by
  simp only [slot?, get_detach]
  cases w.get? id with
  | none => simp
  | some b =>
    simp only [Option.map_some, Option.bind_some]
    by_cases same : child = id <;> by_cases above : p.block = id <;>
      simp [same, above, Block.child_vacate]

@[simp] theorem size_detach (w : Workspace) (p : Parent) (child : BlockId) :
    (w.detach p child).size = w.size := by
  simp [detach]

end Workspace
end BlockSketch
