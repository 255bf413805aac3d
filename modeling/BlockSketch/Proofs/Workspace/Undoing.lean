import BlockSketch.Proofs.Workspace.Connecting

/-
Taking back. Disconnecting a block right after it was connected gives the workspace from before, and
so does connecting a block again to where it was disconnected from. That the second is never refused
needs the whole forest: the slot is free because nothing else was in it, and the block is not above
its former parent because it was below it. Whole workspaces are equal, not only their links.
-/
namespace BlockSketch
namespace SortedMap

variable {α : Type}

theorem erase_insert {m : SortedMap α} {key : String} (absent : m.get? key = none) (value : α) :
    (m.insert key value).erase key = m := by
  refine ext_get? fun other => ?_
  rw [get?_erase, get?_insert]
  split
  · rename_i same
    rw [← same, absent]
  · rfl

theorem insert_erase {m : SortedMap α} {key : String} {value : α}
    (present : m.get? key = some value) : (m.erase key).insert key value = m := by
  refine ext_get? fun other => ?_
  rw [get?_insert, get?_erase]
  split
  · rename_i same
    rw [← same, present]
  · rfl

end SortedMap

namespace Block

theorem vacate_fill {b : Block} {link : Link} (free : b.child? link = none) (child : BlockId) :
    (b.fill link child).vacate link = b := by
  cases link with
  | next =>
    change { b with next := none } = b
    rw [← show b.next = none from free]
  | value socket =>
    change { b with values := (b.values.insert socket child).erase socket } = b
    rw [SortedMap.erase_insert free]
  | statement socket =>
    change { b with statements := (b.statements.insert socket child).erase socket } = b
    rw [SortedMap.erase_insert free]

theorem fill_vacate {b : Block} {link : Link} {child : BlockId}
    (held : b.child? link = some child) :
    (b.vacate link).fill link child = b := by
  cases link with
  | next =>
    change { b with next := some child } = b
    rw [← show b.next = some child from held]
  | value socket =>
    change { b with values := (b.values.erase socket).insert socket child } = b
    rw [SortedMap.insert_erase held]
  | statement socket =>
    change { b with statements := (b.statements.erase socket).insert socket child } = b
    rw [SortedMap.insert_erase held]

theorem setParent_back {b : Block} {p : Option Parent} (same : b.parent = p) (q : Option Parent) :
    (b.setParent q).setParent p = b := by
  rw [← same]
  rfl

end Block

namespace Workspace

theorem ext_get? {w v : Workspace} (same : ∀ id, w.get? id = v.get? id) : w = v :=
  congrArg Workspace.mk (Array.ext_getElem? same)

theorem update_update (w : Workspace) (id : BlockId) (f g : Block → Block) :
    (w.update id f).update id g = w.update id fun b => g (f b) := by
  refine ext_get? fun other => ?_
  simp only [get_update]
  split
  · rw [Option.map_map]
    rfl
  · rfl

theorem update_same {w : Workspace} {id : BlockId} {f : Block → Block}
    (same : ∀ b, w.get? id = some b → f b = b) : w.update id f = w := by
  refine ext_get? fun other => ?_
  rw [get_update]
  split
  · rename_i here
    rw [← here]
    cases found : w.get? id with
    | none => rfl
    | some b => rw [Option.map_some, same b found]
  · rfl

theorem look_update {α : Type} {f : Block → Block} {look : Block → Option α}
    (kept : ∀ b, look (f b) = look b) (w : Workspace) (id other : BlockId) :
    ((w.update id f).get? other).bind look = (w.get? other).bind look := by
  rw [get_update]
  split
  · cases w.get? other with
    | none => rfl
    | some b => exact kept b
  · rfl

/-- The child is a root again, and after that the slot is empty again. -/
theorem detach_attach {w : Workspace} {parent child : BlockId} {link : Link}
    (root : w.parent? child = none) (free : w.slot? parent link = none) :
    (w.attach parent link child).detach ⟨parent, link⟩ child = w := by
  have top : ∀ b, (w.update parent (·.fill link child)).get? child = some b → b.parent = none := by
    intro b found
    have filled : (w.update parent (·.fill link child)).parent? child = w.parent? child :=
      look_update (fun b => b.fill_parent link child) w parent child
    rw [root, parent?, found] at filled
    exact filled
  have vacant : ∀ b, w.get? parent = some b → b.child? link = none := by
    intro b found
    rw [slot?, found] at free
    exact free
  rw [attach, detach, update_update, update_same fun b found =>
    Block.setParent_back (top b found) _,
    update_update, update_same fun b found => Block.vacate_fill (vacant b found) child]

theorem attach_detach {w : Workspace} {child : BlockId} {p : Parent}
    (hangs : w.parent? child = some p) (held : w.slot? p.block p.link = some child) :
    (w.detach p child).attach p.block p.link child = w := by
  have full : ∀ b, (w.update child (·.setParent none)).get? p.block = some b →
      b.child? p.link = some child := by
    intro b found
    have kept : (w.update child (·.setParent none)).slot? p.block p.link = w.slot? p.block p.link :=
      look_update (fun b => b.child_setParent none p.link) w child p.block
    rw [held, slot?, found] at kept
    exact kept
  have below : ∀ b, w.get? child = some b → b.parent = some p := by
    intro b found
    rw [parent?, found] at hangs
    exact hangs
  rw [detach, attach, update_update, update_same fun b found => Block.fill_vacate (full b found),
    update_update, update_same fun b found => Block.setParent_back (below b found) none]

/-! Nothing speaks against connecting again -/

theorem Forest.reconnect {w : Workspace} (forest : w.Forest) {child : BlockId} {p : Parent}
    (hangs : w.parent? child = some p) :
    (w.detach p child).connect p.block p.link child = .ok w := by
  have held : w.slot? p.block p.link = some child := (forest.linked child p).mp hangs
  have fewer : ∀ id q, (w.detach p child).parent? id = some q → w.parent? id = some q := by
    intro id q up
    rw [parent_detach] at up
    split at up
    · cases up
    · exact up
  have apart : ¬ (w.detach p child).Above child p.block := by
    rintro ⟨n, walk⟩
    exact forest.no_return hangs ⟨n, walk_mono fewer walk⟩
  have root : (w.detach p child).parent? child = none := by rw [parent_detach, if_pos rfl]
  have free : (w.detach p child).slot? p.block p.link = none := by
    rw [slot_detach, if_pos ⟨rfl, rfl⟩]
  have unopposed := unopposed_iff.mpr ⟨by rw [size_detach]; exact forest.parent_exists hangs,
    by rw [size_detach]; exact parent_lt_size hangs, root, apart, free⟩
  rw [(forest.detach hangs).connect_of_unopposed unopposed, attach_detach hangs held]

theorem disconnect_connected {w v : Workspace} {parent child : BlockId} {link : Link}
    (made : w.connect parent link child = .ok v) :
    v.disconnect child = (some ⟨parent, link⟩, w) := by
  obtain ⟨c, found, detached, _, _, _, free, rfl⟩ := connect_cases made
  have root : w.parent? child = none := by rw [parent?, found]; exact detached
  have hangs : (w.attach parent link child).parent? child = some ⟨parent, link⟩ := by
    rw [parent_attach (get_lt_size found), if_pos rfl]
  rw [disconnect, hangs]
  exact congrArg _ (detach_attach root free)

theorem disconnect_root {w : Workspace} {child : BlockId} (root : w.parent? child = none) :
    w.disconnect child = (none, w) := by
  rw [disconnect, root]

/-- After every history: a block that was just connected is disconnected to where it was connected,
which gives the workspace from before. A block that is no root can be connected again to where it
was disconnected from, which gives the workspace from before. For a root, and for a number without a
block, nothing is done. -/
theorem connecting_and_disconnecting_undo_each_other (history : List Operation) :
    let w := afterAll history
    (∀ parent link child v, w.connect parent link child = .ok v →
      v.disconnect child = (some ⟨parent, link⟩, w)) ∧
    (∀ child, child < w.size → child ∉ w.roots →
      ∃ p, (w.disconnect child).1 = some p ∧ w.slot? p.block p.link = some child ∧
        (w.disconnect child).2.connect p.block p.link child = .ok w) ∧
    (∀ child, child ∈ w.roots ∨ w.size ≤ child → w.disconnect child = (none, w)) := by
  intro w
  have forest : w.Forest := forest_afterAll history
  refine ⟨fun parent link child v => disconnect_connected, ?_, ?_⟩
  · intro child bound attached
    rw [mem_roots forest.numbered] at attached
    obtain ⟨p, hangs⟩ : ∃ p, w.parent? child = some p :=
      Option.ne_none_iff_exists'.mp fun root => attached ⟨bound, root⟩
    refine ⟨p, ?_, (forest.linked child p).mp hangs, ?_⟩
    · rw [disconnect, hangs]
    · rw [disconnect, hangs]
      exact forest.reconnect hangs
  · intro child loose
    refine disconnect_root ?_
    rcases loose with root | absent
    · exact ((mem_roots forest.numbered).mp root).2
    · rw [parent?, get_of_size_le absent]
      rfl

end Workspace
end BlockSketch
