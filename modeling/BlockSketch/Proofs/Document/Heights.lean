import BlockSketch.Proofs.Document.Severing

/-
Where the blocks stand that were cut off. A block that cannot follow another is left at the height
that the other one passes on. That is the height the other block was saved with, if it was saved
with one, although the block may since have been cut off and moved itself; otherwise it is the
height that the block has.
-/
namespace BlockSketch

def Workspace.heightOf (w : Workspace) (id : BlockId) : Option Binary64 :=
  (w.contentOf id).map (·.position.y)

namespace Document

variable {c : Catalogue} {vars : Variables} {l l' : Loaded} {p : Pending}

theorem content_y (b : SavedBlock) (y : Binary64) : (content c vars b y).1.position.y = y :=
  (congrArg (·.position.y) (content_height c vars b y y)).symm

/-! One round -/

theorem heightOf_of_visit {i : BlockId} (visited : visit c vars l p = .ok l')
    (old : i < l.workspace.size) : l'.workspace.heightOf i = l.workspace.heightOf i := by
  rw [Workspace.heightOf, (content_of_visit visited).2 i old]
  rfl

theorem new_height_of_visit (visited : visit c vars l p = .ok l') {b : SavedBlock}
    (read : SavedBlock.read p.value = .ok b) :
    (l'.workspace.heightOf l.workspace.size = some (b.y.getD p.height) ∧ cuts l' = cuts l) ∨
    ∃ prev d, p.target = .next prev ∧ l'.workspace.heightOf l.workspace.size = some p.height ∧
      l'.workspace.parent? l.workspace.size = none ∧ cuts l' = cuts l ++ [d] ∧
      d.block = some l.workspace.size ∧ d.related = [prev] := by
  obtain ⟨other, again, settled⟩ := visit_cases visited
  cases read.symm.trans again
  have added : (l.workspace.add (content c vars b (b.y.getD p.height)).1).2.heightOf
      l.workspace.size =
      some (b.y.getD p.height) := by
    rw [Workspace.heightOf, Workspace.contentOf_add, if_pos rfl, Option.map_some, content_y]
  generalize after : l'.workspace = w at settled
  cases settled with
  | root top => exact Or.inl ⟨added, (visit_root visited top).2⟩
  | @attached parent link slot accepted =>
    left
    refine ⟨by rw [Workspace.heightOf, Workspace.contentOf_attach]; exact added, ?_⟩
    cases link with
    | value socket => exact (visit_input visited slot).2
    | statement socket => exact (visit_input visited slot).2
    | next =>
      rcases visit_next visited slot with ⟨_, _, same⟩ | ⟨_, loose, _⟩
      · exact same
      · rw [after, parent_of_connect accepted] at loose
        cases loose
  | @severed prev behind =>
    right
    rcases visit_next visited behind with ⟨_, up, _⟩ | ⟨_, loose, d, more, named, related⟩
    · rw [after, Workspace.parent_edit, Workspace.parent_add] at up
      exact absurd (Workspace.parent_lt_size up) (Nat.lt_irrefl _)
    · rw [after] at loose
      refine ⟨prev, d, behind, ?_, loose, more, named, related⟩
      rw [Workspace.heightOf, Workspace.contentOf_edit, if_pos rfl, Workspace.contentOf_add,
        if_pos rfl]
      rfl

/-! What waits and what was cut off -/

/-- The height that a loaded block passes on to its successor. A block that was not cut off passes
on the height that it has. -/
structure PassesOn (all : List Json) (l : Loaded) (i : BlockId) (height : Binary64) : Prop where
  bound : i < l.workspace.size
  saved : ∃ v b y, all[i]? = some v ∧ SavedBlock.read v = .ok b ∧ l.workspace.heightOf i = some y ∧
    height = b.y.getD y ∧ ((∀ d ∈ cuts l, d.block ≠ some i) → height = y)

structure Lowered (all : List Json) (l : Loaded) (d : Diagnostic) (n prev : BlockId)
    (height : Binary64) :
    Prop where
  named : d.block = some n
  related : d.related = [prev]
  bound : n < l.workspace.size
  root : l.workspace.parent? n = none
  stands : l.workspace.heightOf n = some height
  passed : PassesOn all l prev height

variable {all : List Json}

theorem PassesOn.visit {i : BlockId} {height : Binary64} (passes : PassesOn all l i height)
    (visited : visit c vars l p = .ok l') : PassesOn all l' i height := by
  obtain ⟨bound, v, b, y, place, read, has, height, uncut⟩ := passes
  have size := size_of_visit visited
  refine ⟨size ▸ Nat.lt_succ_of_lt bound, v, b, y, place, read, ?_, height, ?_⟩
  · rw [heightOf_of_visit visited bound]
    exact has
  · intro unnamed
    apply uncut
    intro d reported
    apply unnamed d
    rcases cuts_of_visit visited with same | ⟨new, more, _⟩
    · rw [same]
      exact reported
    · rw [more]
      exact List.mem_append_left _ reported

theorem Lowered.visit {d : Diagnostic} {n prev : BlockId} {height : Binary64}
    (lowered : Lowered all l d n prev height) (visited : visit c vars l p = .ok l') :
    Lowered all l' d n prev height where
  named := lowered.named
  related := lowered.related
  bound := by
    rw [size_of_visit visited]
    exact Nat.lt_succ_of_lt lowered.bound
  root := by
    rw [parent_of_visit visited lowered.bound]
    exact lowered.root
  stands := by
    rw [heightOf_of_visit visited lowered.bound]
    exact lowered.stands
  passed := lowered.passed.visit visited

/-- A load under way: what is to come makes up the document together with what has been loaded,
whatever waits to follow a block waits with the height that the block passes on, and so it was with
all that was cut off. -/
structure Underway (all : List Json) (pending : List Pending) (l : Loaded) : Prop where
  order : ∃ done, done.length = l.workspace.size ∧ all = done ++ coming pending
  waiting : ∀ q ∈ pending, ∀ prev, q.target = .next prev → PassesOn all l prev q.height
  lowered : ∀ d ∈ cuts l, ∃ n prev height, Lowered all l d n prev height

theorem new_passesOn {b : SavedBlock} (visited : visit c vars l p = .ok l')
    (read : SavedBlock.read p.value = .ok b) (place : all[l.workspace.size]? = some p.value) :
    PassesOn all l' l.workspace.size (b.y.getD p.height) := by
  have size := size_of_visit visited
  refine ⟨size ▸ Nat.lt_succ_self _, ?_⟩
  rcases new_height_of_visit visited read with ⟨stands, _⟩ | ⟨prev, d, _, stands, _, more, named, _⟩
  · refine ⟨p.value, b, b.y.getD p.height, place, read, stands, ?_, fun _ => rfl⟩
    cases b.y with
    | none => rfl
    | some own => rfl
  · refine ⟨p.value, b, p.height, place, read, stands, rfl, ?_⟩
    intro unnamed
    exact absurd named (unnamed d (by rw [more]; simp))

theorem Underway.round {rest : List Pending} (underway : Underway all (p :: rest) l)
    (visited : visit c vars l p = .ok l') :
    Underway all (successors p l.workspace.size ++ rest) l' := by
  obtain ⟨done, length, whole⟩ := underway.order
  obtain ⟨b, read, _⟩ := visit_cases visited
  have size := size_of_visit visited
  rw [coming_cons p rest l.workspace.size] at whole
  have place : all[l.workspace.size]? = some p.value := by
    rw [whole, ← length]
    simp
  constructor
  · refine ⟨done ++ [p.value], ?_, ?_⟩
    · rw [List.length_append, List.length_singleton, length, size]
    · rw [whole, List.append_assoc, List.singleton_append]
  · intro q waits prev behind
    rcases List.mem_append.mp waits with new | old
    · have passes := new_passesOn visited read place
      simp only [successors, read, followers] at new
      rcases List.mem_append.mp new with socket | next
      · obtain ⟨i, _, rfl⟩ := List.mem_map.mp socket
        cases behind
      · obtain ⟨v, _, rfl⟩ := List.mem_map.mp next
        cases behind
        exact passes
    · exact (underway.waiting q (List.mem_cons_of_mem p old) prev behind).visit visited
  · intro d reported
    have earlier : d ∈ cuts l → ∃ n prev height, Lowered all l' d n prev height := by
      intro before
      obtain ⟨n, prev, height, lowered⟩ := underway.lowered d before
      exact ⟨n, prev, height, lowered.visit visited⟩
    rcases new_height_of_visit visited read with
      ⟨_, same⟩ | ⟨prev, new, behind, stands, root, more, named, related⟩
    · rw [same] at reported
      exact earlier reported
    · rw [more] at reported
      rcases List.mem_append.mp reported with before | last
      · exact earlier before
      · rw [List.mem_singleton.mp last]
        have passed := underway.waiting p List.mem_cons_self prev behind
        exact ⟨_, prev, p.height, named, related, size ▸ Nat.lt_succ_self _, root, stands,
          passed.visit visited⟩

theorem Underway.walk {pending : List Pending} (underway : Underway all pending l)
    (walked : walk c vars pending l = .ok l') : Underway all [] l' := by
  induction pending, l using walk_induction c vars with
  | done l =>
    rw [walk_nil] at walked
    cases walked
    exact underway
  | round p rest l ih =>
    obtain ⟨placed, visited, later⟩ := walk_cons_ok walked
    exact ih placed visited (underway.round visited) later

theorem underway_start (blocks : List Json) :
    Underway (blocks.flatMap preorder) (blocks.map fun v => ⟨v, .root, .zero⟩) ⟨.empty, #[]⟩ where
  order := ⟨[], rfl, by rw [coming_roots, List.nil_append]⟩
  waiting := by
    intro q waits prev behind
    obtain ⟨v, _, rfl⟩ := List.mem_map.mp waits
    cases behind
  lowered := by
    intro d reported
    cases reported

/-- Every report of a cut names a root and the block that it was to follow. The root stands at the
height that this block was saved with, or where the block stands if it was saved without one. So the
two stand at one height, unless the block was itself cut off and had been saved with a height of its
own. -/
theorem severed_blocks_take_the_height_passed_on (c : Catalogue) (document : Json) (l : Loaded)
    (blocks : List Json) (vars : Variables) (parts : split document = .ok (blocks, vars))
    (loaded : load c document = .ok l) :
    ∀ d ∈ cuts l, ∃ n prev, d.block = some n ∧ d.related = [prev] ∧ n ∈ l.workspace.roots ∧
      ∃ v b x y, (blocks.flatMap preorder)[prev]? = some v ∧ SavedBlock.read v = .ok b ∧
        l.workspace.heightOf n = some x ∧ l.workspace.heightOf prev = some y ∧ x = b.y.getD y ∧
        (b.y = none ∨ (∀ e ∈ cuts l, e.block ≠ some prev) → x = y) := by
  obtain ⟨forest, _⟩ := forest_of_load loaded
  rw [load_of_split parts] at loaded
  intro d reported
  obtain ⟨n, prev, x, lowered⟩ := ((underway_start blocks).walk loaded).lowered d reported
  obtain ⟨_, v, b, y, place, read, stands, height, uncut⟩ := lowered.passed
  refine ⟨n, prev, lowered.named, lowered.related, ?_, v, b, x, y, place, read,
    lowered.stands, stands, height, ?_⟩
  · exact (Workspace.mem_roots forest.numbered).mpr ⟨lowered.bound, lowered.root⟩
  · rintro (none | unnamed)
    · rw [height, none]
      rfl
    · exact uncut unnamed

def stackedContainers : Json :=
  .object [
    ("next", .object [("block", .object [
      ("next", .object [("block", .object [("type", .string "program_loop")])]),
      ("type", .string "program_setup"), ("y", .ofNat 50)])]),
    ("type", .string "program_setup"), ("y", .ofNat 10)]

theorem stackedContainers_sorted : stackedContainers.Sorted := by
  have follows : ∀ {v : Json} (height : Nat), v.Sorted →
      (Json.object [("next", .object [("block", v)]),
      ("type", .string "program_setup"), ("y", .ofNat height)]).Sorted := by
    intro v height sorted
    refine Json.Sorted.object ?_ ?_
    · refine List.Pairwise.cons ?_ (List.pairwise_pair.mpr (by decide : "type" < "y"))
      simp only [List.forall_mem_cons]
      exact ⟨(by decide : "next" < "type"), (by decide : "next" < "y"), List.forall_mem_nil _⟩
    · simpa using ⟨sorted.single "block", Json.Sorted.string _, Json.Sorted.number _⟩
  exact follows 10 (follows 50 ((Json.Sorted.string _).single _))

theorem severed_of_outcome {i j : BlockId} (outcome : LinkOutcome c l i j)
    (forbidden : ¬ MayFollow c (kindOf l.workspace i) (kindOf l.workspace j)) :
    ∃ d ∈ cuts l, d.block = some j ∧ d.related = [i] := by
  cases outcome with
  | linked allowed _ _ => exact absurd allowed forbidden
  | severed _ _ reported =>
    obtain ⟨d, single, related⟩ := reported
    have listed : d ∈ (cuts l).filter fun d => d.block = some j := by
      rw [single]
      exact List.mem_singleton_self d
    obtain ⟨member, named⟩ := List.mem_filter.mp listed
    exact ⟨d, member, by simpa using named, related⟩

theorem setup_unfollowed (next : String) : ¬ MayFollow Esp32.catalogue "program_setup" next := by
  have closed : (Esp32.catalogue.lookup "program_setup").elim true (·.next) = false := by
    decide +kernel
  rw [← chains_iff, chains, closed]
  simp

/-- The second container is moved to the height of the first one, and the third to where the second
one was. -/
theorem third_container_misses_the_second :
    ∃ l, load Esp32.catalogue (.array [stackedContainers]) = .ok l ∧
      (∃ d ∈ cuts l, d.block = some 2 ∧ d.related = [1]) ∧
      l.workspace.heightOf 1 = some (.ofInt 10) ∧ l.workspace.heightOf 2 = some (.ofInt 50) ∧
      Binary64.ofInt 10 ≠ .ofInt 50 := by
  have sorted : (Json.array [stackedContainers]).Sorted :=
    Json.Sorted.array (by simpa using stackedContainers_sorted)
  cases loaded : load Esp32.catalogue (.array [stackedContainers]) with
  | error e =>
    obtain ⟨f, _, fault⟩ := (load_error_iff sorted rfl _ e).mp loaded
    exact absurd (Option.isSome_of_eq_some fault) (by decide +kernel)
  | ok l =>
    have heights := severed_blocks_take_the_height_passed_on _ _ l [stackedContainers] [] rfl loaded
    have parts : split (.array [stackedContainers]) = .ok ([stackedContainers], []) := rfl
    have walked := (load_of_split parts Esp32.catalogue).symm.trans loaded
    have unreported : Dated ⟨.empty, #[]⟩ := by
      intro d reported
      cases reported
    have first : ([stackedContainers].flatMap preorder)[0]? = some stackedContainers := by
      rw [List.flatMap_cons, preorder_of_read rfl]
      rfl
    have whole := coming_roots [stackedContainers] .zero
    rw [← whole] at first
    obtain ⟨second, between⟩ := next_of_walk unreported walked first rfl rfl
    obtain ⟨third, behind⟩ := next_of_walk unreported walked second rfl rfl
    have kind0 : kindOf l.workspace 0 = "program_setup" := kind_of_walk walked first rfl
    have kind1 : kindOf l.workspace 1 = "program_setup" := kind_of_walk walked second rfl
    obtain ⟨d, cut1, named, related⟩ := severed_of_outcome (i := 0) (j := 1) between
      (kind0 ▸ setup_unfollowed _)
    obtain ⟨e, cut2, named', related'⟩ := severed_of_outcome (i := 1) (j := 2) behind
      (kind1 ▸ setup_unfollowed _)
    rw [whole] at first second
    have height1 : l.workspace.heightOf 1 = some (.ofInt 10) := by
      obtain ⟨n, prev, block, behind, _, v, b, x, y, place, read, stands, _, passed, _⟩ :=
        heights d cut1
      cases block.symm.trans named
      cases behind.symm.trans related
      cases place.symm.trans first
      cases read
      rw [stands, passed]
      rfl
    have height2 : l.workspace.heightOf 2 = some (.ofInt 50) := by
      obtain ⟨n, prev, block, behind, _, v, b, x, y, place, read, stands, _, passed, _⟩ :=
        heights e cut2
      cases block.symm.trans named'
      cases behind.symm.trans related'
      cases place.symm.trans second
      cases read
      rw [stands, passed]
      rfl
    exact ⟨l, rfl, ⟨e, cut2, named', related'⟩, height1, height2, by decide +kernel⟩

end Document
end BlockSketch
