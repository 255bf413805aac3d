import BlockSketch.Proofs.Document.Nesting

/-
Which links to successors survive a load. The catalogue says which kinds follow and which are
followed; a link that it does not allow is cut. The successor then stays a root, and one report
names the two blocks. All other links stay, and nothing else becomes a root but the top-level
blocks.
-/
namespace BlockSketch
namespace Document

/-- The catalogue lets a block of the second kind follow a block of the first. It does so for kinds
that it does not know. -/
def MayFollow (c : Catalogue) (prev next : String) : Prop :=
  (∀ shape, c.lookup prev = some shape → shape.next = true) ∧
    ∀ shape, c.lookup next = some shape → shape.previous = true

def cuts (l : Loaded) : List Diagnostic :=
  l.diagnostics.toList.filter fun d => d.code = some Diagnostic.severedLink

variable {c : Catalogue} {vars : Variables}

theorem chains_iff (prev next : String) : chains c prev next = true ↔ MayFollow c prev next := by
  unfold chains MayFollow
  cases c.lookup prev <;> cases c.lookup next <;> simp

theorem MayFollow.not_container {prev next : String} (allowed : MayFollow c prev next)
    {shape : Shape} (known : c.lookup prev = some shape ∨ c.lookup next = some shape) :
    shape.isContainer = false := by
  rcases known with first | second
  · simp [Shape.isContainer, allowed.1 shape first]
  · simp [Shape.isContainer, allowed.2 shape second]

/-! Contents and kinds -/

theorem content_kind (b : SavedBlock) (y : Binary64) : (content c vars b y).1.kind = b.kind := by
  have fills : ∀ (specs : List FieldSpec) (base : BlockContent),
      (specs.foldl (fun content f =>
        if content.fields.contains f.name then content
        else content.setField f.name (.text f.default))
        base).kind = base.kind := by
    intro specs
    induction specs with
    | nil => exact fun _ => rfl
    | cons f rest ih =>
      intro base
      rw [List.foldl_cons, ih]
      split <;> rfl
  exact fills _ _

theorem content_warnings (b : SavedBlock) (y : Binary64) :
    ∀ d ∈ (content c vars b y).2, d.code = some Diagnostic.unknownVariable := by
  intro d warned
  obtain ⟨value, listed, given⟩ := List.mem_filterMap.mp warned
  obtain ⟨field, _, rfl⟩ := List.mem_map.mp listed
  unfold fieldValue at given
  dsimp only at given
  repeat' split at given
  all_goals cases given
  rfl

theorem kindOf_eq (w : Workspace) (id : BlockId) :
    kindOf w id = ((w.contentOf id).map (·.kind)).getD "" := by
  unfold kindOf Workspace.contentOf
  cases w.get? id <;> rfl

theorem kindOf_of_size_le {w : Workspace} {id : BlockId} (absent : w.size ≤ id) :
    kindOf w id = "" := by
  have missing : w.get? id = none := Array.getElem?_eq_none absent
  rw [kindOf, missing]

/-! One round -/

section Round

variable {l l' : Loaded} {p : Pending}

theorem kindOf_of_visit {i : BlockId} (visited : visit c vars l p = .ok l')
    (old : i < l.workspace.size) : kindOf l'.workspace i = kindOf l.workspace i := by
  rw [kindOf_eq, kindOf_eq, (content_of_visit visited).2 i old]

theorem parent_of_visit {i : BlockId} (visited : visit c vars l p = .ok l')
    (old : i < l.workspace.size) : l'.workspace.parent? i = l.workspace.parent? i := by
  obtain ⟨b, read, settled⟩ := visit_cases visited
  rw [settled.parent_eq (Nat.ne_of_lt old), Workspace.parent_add]

theorem new_kind_of_visit (visited : visit c vars l p = .ok l') {b : SavedBlock}
    (read : SavedBlock.read p.value = .ok b) : kindOf l'.workspace l.workspace.size = b.kind := by
  obtain ⟨⟨other, y, again, here⟩, _⟩ := content_of_visit visited
  cases read.symm.trans again
  rw [kindOf_eq, here]
  exact content_kind b y

end Round

/-! How a new block is joined to the others -/

def entered (c : Catalogue) (vars : Variables) (l : Loaded) (b : SavedBlock) (y : Binary64) :
    Loaded :=
  ⟨(l.workspace.add (content c vars b y).1).2, l.diagnostics ++ (content c vars b y).2⟩

theorem cuts_entered (l : Loaded) (b : SavedBlock) (y : Binary64) :
    cuts (entered c vars l b y) = cuts l := by
  have none : (content c vars b y).2.filter (fun d => d.code = some Diagnostic.severedLink) =
      [] := by
    rw [List.filter_eq_nil_iff]
    intro d warned
    rw [content_warnings b y d warned]
    decide
  simp [cuts, entered, none]

theorem parent_of_connect {w v : Workspace} {parent child : BlockId} {link : Link}
    (accepted : w.connect parent link child = .ok v) : v.parent? child = some ⟨parent, link⟩ := by
  obtain ⟨b, found, _, _, _, _, _, rfl⟩ := Workspace.connect_cases accepted
  rw [Workspace.parent_attach (Workspace.get_lt_size found), if_pos rfl]

variable {l l' : Loaded}

theorem attachInput_joins {parent id : BlockId} {socket kind : String} {hasNext : Bool}
    (attached : attachInput c l parent socket id kind hasNext = .ok l') :
    (∃ link, link ≠ .next ∧ l'.workspace.parent? id = some ⟨parent, link⟩) ∧ cuts l' = cuts l := by
  simp only [attachInput] at attached
  split at attached
  · split at attached
    · cases attached
    · rename_i w accepted
      have up : ∃ link, link ≠ .next ∧ w.parent? id = some ⟨parent, link⟩ :=
        ⟨_, Link.noConfusion, parent_of_connect accepted⟩
      split at attached
      · cases attached
        exact ⟨up, rfl⟩
      · cases attached
        refine ⟨up, ?_⟩
        simp [cuts, Diagnostic.warning, Diagnostic.misfit, Diagnostic.severedLink]
  · split at attached
    · cases attached
    · rename_i w accepted
      cases attached
      exact ⟨⟨_, Link.noConfusion, parent_of_connect accepted⟩, rfl⟩

theorem attachNext_joins {prev id : BlockId} {kind : String} {height : Binary64}
    (attached : attachNext c l prev id kind height = .ok l') :
    (MayFollow c (kindOf l.workspace prev) kind ∧ l'.workspace.parent? id = some ⟨prev, .next⟩ ∧
      cuts l' = cuts l) ∨
    (¬ MayFollow c (kindOf l.workspace prev) kind ∧
      l'.workspace.parent? id = l.workspace.parent? id ∧
      ∃ d, cuts l' = cuts l ++ [d] ∧ d.block = some id ∧ d.related = [prev]) := by
  simp only [attachNext] at attached
  split at attached
  · rename_i allowed
    rw [chains_iff] at allowed
    split at attached
    · cases attached
    · rename_i w accepted
      cases attached
      exact Or.inl ⟨allowed, parent_of_connect accepted, rfl⟩
  · rename_i forbidden
    rw [chains_iff] at forbidden
    cases attached
    refine Or.inr ⟨forbidden, Workspace.parent_edit .., ?_⟩
    simp [cuts, Diagnostic.warning]

theorem entered_root (l : Loaded) (b : SavedBlock) (y : Binary64) :
    (entered c vars l b y).workspace.parent? l.workspace.size = none := by
  rw [entered, Workspace.parent_add]
  simp [Workspace.parent?, Workspace.get?, Workspace.size]

theorem kindOf_entered {p : Pending} {b : SavedBlock} (visited : visit c vars l p = .ok l')
    (read : SavedBlock.read p.value = .ok b) (y : Binary64) (i : BlockId) :
    kindOf (entered c vars l b y).workspace i = kindOf l'.workspace i := by
  have size := size_of_visit visited
  have wide : (entered c vars l b y).workspace.size = l.workspace.size + 1 := Workspace.size_add ..
  rcases Nat.lt_trichotomy i l.workspace.size with old | new | beyond
  · rw [kindOf_of_visit visited old, kindOf_eq, kindOf_eq, entered, Workspace.contentOf_add,
      if_neg (Nat.ne_of_lt old)]
  · rw [new, new_kind_of_visit visited read, kindOf_eq, entered, Workspace.contentOf_add,
      if_pos rfl]
    exact content_kind b y
  · rw [kindOf_of_size_le (wide ▸ beyond), kindOf_of_size_le (size ▸ beyond)]

/-- What became of a link to a successor: it is there and unreported, or it is gone, the successor
is a root, and a single report names both. -/
inductive LinkOutcome (c : Catalogue) (l : Loaded) (i j : BlockId) : Prop where
  | linked (allowed : MayFollow c (kindOf l.workspace i) (kindOf l.workspace j))
      (up : l.workspace.parent? j = some ⟨i, .next⟩) (silent : ∀ d ∈ cuts l, d.block ≠ some j)
  | severed (forbidden : ¬ MayFollow c (kindOf l.workspace i) (kindOf l.workspace j))
      (root : l.workspace.parent? j = none)
      (reported : ∃ d, (cuts l).filter (fun d => d.block = some j) = [d] ∧ d.related = [i])

def Dated (l : Loaded) : Prop := ∀ d ∈ cuts l, ∃ i, d.block = some i ∧ i < l.workspace.size

variable {p : Pending}

theorem visit_root (visited : visit c vars l p = .ok l') (top : p.target = .root) :
    l'.workspace.parent? l.workspace.size = none ∧ cuts l' = cuts l := by
  obtain ⟨b, read, added⟩ := place_of_visit visited
  rw [top] at added
  have same : entered c vars l b (b.y.getD p.height) = l' := Except.ok.inj added
  rw [← same]
  exact ⟨entered_root l b _, cuts_entered l b _⟩

theorem visit_input {parent : BlockId} {socket : String} (visited : visit c vars l p = .ok l')
    (slot : p.target = .input parent socket) :
    (∃ link, link ≠ .next ∧ l'.workspace.parent? l.workspace.size = some ⟨parent, link⟩) ∧
      cuts l' = cuts l := by
  obtain ⟨b, read, added⟩ := place_of_visit visited
  rw [slot] at added
  have joined := attachInput_joins (l := entered c vars l b (b.y.getD p.height)) added
  rw [cuts_entered] at joined
  exact joined

theorem visit_next {prev : BlockId} (visited : visit c vars l p = .ok l')
    (behind : p.target = .next prev) :
    (MayFollow c (kindOf l'.workspace prev) (kindOf l'.workspace l.workspace.size) ∧
      l'.workspace.parent? l.workspace.size = some ⟨prev, .next⟩ ∧ cuts l' = cuts l) ∨
    (¬ MayFollow c (kindOf l'.workspace prev) (kindOf l'.workspace l.workspace.size) ∧
      l'.workspace.parent? l.workspace.size = none ∧
      ∃ d, cuts l' = cuts l ++ [d] ∧ d.block = some l.workspace.size ∧ d.related = [prev]) := by
  obtain ⟨b, read, added⟩ := place_of_visit visited
  rw [behind] at added
  have joined := attachNext_joins (l := entered c vars l b (b.y.getD p.height)) added
  rw [cuts_entered, entered_root, kindOf_entered visited read] at joined
  rw [new_kind_of_visit visited read]
  exact joined

/-- A round reports at most one cut, of the block that it adds. -/
theorem cuts_of_visit (visited : visit c vars l p = .ok l') :
    cuts l' = cuts l ∨ ∃ d, cuts l' = cuts l ++ [d] ∧ d.block = some l.workspace.size := by
  cases target : p.target with
  | root => exact Or.inl (visit_root visited target).2
  | input parent socket => exact Or.inl (visit_input visited target).2
  | next prev =>
    rcases visit_next visited target with ⟨_, _, same⟩ | ⟨_, _, d, more, named, _⟩
    · exact Or.inl same
    · exact Or.inr ⟨d, more, named⟩

theorem Dated.visit (dated : Dated l) (visited : visit c vars l p = .ok l') : Dated l' := by
  have size := size_of_visit visited
  intro d reported
  rcases cuts_of_visit visited with same | ⟨new, more, named⟩
  · rw [same] at reported
    obtain ⟨i, block, old⟩ := dated d reported
    exact ⟨i, block, size ▸ Nat.lt_succ_of_lt old⟩
  · rw [more] at reported
    rcases List.mem_append.mp reported with before | last
    · obtain ⟨i, block, old⟩ := dated d before
      exact ⟨i, block, size ▸ Nat.lt_succ_of_lt old⟩
    · rw [List.mem_singleton.mp last]
      exact ⟨_, named, size ▸ Nat.lt_succ_self _⟩

theorem outcome_of_visit {prev : BlockId} (dated : Dated l) (visited : visit c vars l p = .ok l')
    (behind : p.target = .next prev) : LinkOutcome c l' prev l.workspace.size := by
  have unnamed : ∀ d ∈ cuts l, d.block ≠ some l.workspace.size := by
    intro d reported named
    obtain ⟨i, block, old⟩ := dated d reported
    cases block.symm.trans named
    exact Nat.lt_irrefl _ old
  rcases visit_next visited behind with
    ⟨allowed, up, same⟩ | ⟨forbidden, root, d, more, named, related⟩
  · exact LinkOutcome.linked allowed up (same ▸ unnamed)
  · refine LinkOutcome.severed forbidden root ⟨d, ?_, related⟩
    have earlier : (cuts l).filter (fun d => d.block = some l.workspace.size) = [] := by
      rw [List.filter_eq_nil_iff]
      intro e reported
      simpa using unnamed e reported
    rw [more, List.filter_append, earlier]
    simp [named]

theorem LinkOutcome.visit {i j : BlockId} (outcome : LinkOutcome c l i j)
    (first : i < l.workspace.size) (second : j < l.workspace.size)
    (visited : visit c vars l p = .ok l') : LinkOutcome c l' i j := by
  have other : l.workspace.size ≠ j := Nat.ne_of_gt second
  have sameI := kindOf_of_visit visited first
  have sameJ := kindOf_of_visit visited second
  have sameUp := parent_of_visit visited second
  cases outcome with
  | linked allowed up silent =>
    refine LinkOutcome.linked (sameI ▸ sameJ ▸ allowed) (sameUp.trans up) ?_
    intro d reported
    rcases cuts_of_visit visited with same | ⟨new, more, named⟩
    · exact silent d (same ▸ reported)
    · rw [more] at reported
      rcases List.mem_append.mp reported with before | last
      · exact silent d before
      · rw [List.mem_singleton.mp last, named]
        exact fun clash => other (Option.some.inj clash)
  | severed forbidden root reported =>
    refine LinkOutcome.severed (sameI ▸ sameJ ▸ forbidden) (sameUp.trans root) ?_
    rcases cuts_of_visit visited with same | ⟨new, more, named⟩
    · rw [same]
      exact reported
    · obtain ⟨d, single, related⟩ := reported
      refine ⟨d, ?_, related⟩
      rw [more, List.filter_append, single]
      simp [named, other]

/-! Whole loads -/

theorem Dated.walk {pending : List Pending} (dated : Dated l)
    (walked : walk c vars pending l = .ok l') : Dated l' :=
  walk_keeps (fun _ _ _ before visited => before.visit visited) dated walked

theorem LinkOutcome.walk {i j : BlockId} {pending : List Pending} (outcome : LinkOutcome c l i j)
    (first : i < l.workspace.size) (second : j < l.workspace.size)
    (walked : walk c vars pending l = .ok l') : LinkOutcome c l' i j := by
  refine (walk_keeps (P := fun l => i < l.workspace.size ∧ j < l.workspace.size ∧
    LinkOutcome c l i j) ?_
    ⟨first, second, outcome⟩ walked).2.2
  intro l p l' ⟨first, second, outcome⟩ visited
  rw [size_of_visit visited]
  exact ⟨Nat.lt_succ_of_lt first, Nat.lt_succ_of_lt second, outcome.visit first second visited⟩

def inputCount (b : SavedBlock) : Nat := (b.inputs.flatMap fun i => preorder i.2).length

theorem coming_append (xs ys : List Pending) : coming (xs ++ ys) = coming xs ++ coming ys :=
  List.flatMap_append

theorem coming_inputs (b : SavedBlock) (id : BlockId) (y : Binary64) :
    (coming (b.inputs.map fun (socket, v) => ⟨v, .input id socket, y⟩)).length = inputCount b := by
  simp [coming, inputCount, List.flatMap_map]

theorem successors_next {b : SavedBlock} {n : Json} (read : SavedBlock.read p.value = .ok b)
    (next : b.next = some n) (id : BlockId) (rest : List Pending) :
    successors p id ++ rest =
      (b.inputs.map fun (socket, v) => ⟨v, .input id socket, b.y.getD p.height⟩) ++
        ⟨n, .next id, b.y.getD p.height⟩ :: rest := by
  simp [successors, read, followers, next]

/-- The successor of a block comes after all that is in the sockets of the block, and then its link
is settled. -/
theorem next_of_walk {pending : List Pending} (dated : Dated l)
    (walked : walk c vars pending l = .ok l') {k : Nat} {v n : Json} {b : SavedBlock}
    (here : (coming pending)[k]? = some v) (read : SavedBlock.read v = .ok b)
    (next : b.next = some n) :
    (coming pending)[k + 1 + inputCount b]? = some n ∧
      LinkOutcome c l' (l.workspace.size + k) (l.workspace.size + k + 1 + inputCount b) := by
  induction pending, l using walk_induction c vars generalizing k with
  | done l => simp [coming] at here
  | round p rest l ih =>
    obtain ⟨placed, visited, later⟩ := walk_cons_ok walked
    have size := size_of_visit visited
    rw [coming_cons p rest l.workspace.size] at here ⊢
    cases k with
    | zero =>
      cases here
      rw [successors_next read next] at later ⊢
      have count := coming_inputs b l.workspace.size (b.y.getD p.height)
      refine ⟨?_, ?_⟩
      · rw [Nat.zero_add, Nat.add_comm 1, List.getElem?_cons_succ, coming_append,
          List.getElem?_append_right (Nat.le_of_eq count), count, Nat.sub_self,
          coming_cons _ rest 0]
        rfl
      · -- All in the sockets is loaded first, then the successor in its turn, then the rest.
        rw [walk_append] at later
        cases filled : walk c vars
            (b.inputs.map fun (socket, v) => ⟨v, .input l.workspace.size socket, b.y.getD p.height⟩)
            placed with
        | error e =>
          rw [filled] at later
          cases later
        | ok between =>
          rw [filled] at later
          obtain ⟨joined, settled, remaining⟩ := walk_cons_ok later
          have grown := (content_of_walk filled).1
          rw [count, size] at grown
          have older : l.workspace.size < between.workspace.size := by
            rw [grown]; exact Nat.lt_of_lt_of_le (Nat.lt_succ_self _) (Nat.le_add_right _ _)
          have outcome := outcome_of_visit ((dated.visit visited).walk filled) settled rfl
          have one := size_of_visit settled
          rw [grown] at outcome
          refine outcome.walk ?_ ?_ remaining
          · rw [one]; exact Nat.lt_succ_of_lt older
          · rw [one, grown]; exact Nat.lt_succ_self _
    | succ k =>
      rw [List.getElem?_cons_succ] at here
      obtain ⟨place, outcome⟩ := ih placed visited (dated.visit visited) later here
      rw [size] at outcome
      refine ⟨?_, ?_⟩
      · rw [show k + 1 + 1 + inputCount b = k + 1 + inputCount b + 1 by omega,
          List.getElem?_cons_succ]
        exact place
      · rw [show l.workspace.size + (k + 1) = l.workspace.size + 1 + k by omega]
        exact outcome

def FlagsHold (c : Catalogue) (l : Loaded) : Prop :=
  ∀ i j, l.workspace.parent? j = some ⟨i, .next⟩ →
    i < l.workspace.size ∧ MayFollow c (kindOf l.workspace i) (kindOf l.workspace j)

theorem FlagsHold.visit (holds : FlagsHold c l) (visited : visit c vars l p = .ok l') :
    FlagsHold c l' := by
  obtain ⟨b, read, settled⟩ := visit_cases visited
  have size := size_of_visit visited
  intro i j up
  by_cases new : j = l.workspace.size
  · rw [new] at up ⊢
    rcases settled.parent_cases up with old | ⟨_, behind, bound, other⟩
    · have inside := Workspace.parent_lt_size ((Workspace.parent_add ..).symm.trans old)
      exact absurd inside (Nat.lt_irrefl _)
    · rw [Workspace.size_add] at bound
      have older : i < l.workspace.size := Nat.lt_of_le_of_ne (Nat.le_of_lt_succ bound) other
      rcases visit_next visited behind with ⟨allowed, _⟩ | ⟨_, root, _⟩
      · exact ⟨size ▸ Nat.lt_succ_of_lt older, allowed⟩
      · rw [root] at up
        cases up
  · have old : j < l.workspace.size := by
      have bound := Workspace.parent_lt_size up
      rw [size] at bound
      exact Nat.lt_of_le_of_ne (Nat.le_of_lt_succ bound) new
    rw [parent_of_visit visited old] at up
    obtain ⟨older, allowed⟩ := holds i j up
    refine ⟨size ▸ Nat.lt_succ_of_lt older, ?_⟩
    rw [kindOf_of_visit visited older, kindOf_of_visit visited old]
    exact allowed

/-! Counting roots -/

theorem roots_of_visit (forest : l.workspace.Forest) (visited : visit c vars l p = .ok l') :
    l'.workspace.roots = l.workspace.roots ++
      if l'.workspace.parent? l.workspace.size = none then [l.workspace.size] else [] := by
  obtain ⟨b, read, settled⟩ := visit_cases visited
  have after : l'.workspace.Forest := settled.forest (forest.add _)
  rw [Workspace.roots_eq after.numbered, Workspace.roots_eq forest.numbered, size_of_visit visited,
    List.range_succ, List.filter_append]
  congr 1
  · apply List.filter_congr
    intro i old
    rw [parent_of_visit visited (List.mem_range.mp old)]
  · cases top : l'.workspace.parent? l.workspace.size <;> simp [top]

theorem successors_not_root (p : Pending) (id : BlockId) :
    (successors p id).countP (fun q => q.target = .root) = 0 := by
  rw [List.countP_eq_zero]
  intro q waits
  obtain ⟨⟨link, slot⟩, _⟩ := mem_successors waits
  rw [slot]
  simpa using Target.of_ne_root id link

theorem top_count (blocks : List Json) (height : Binary64) :
    (blocks.map fun v => (⟨v, .root, height⟩ : Pending)).countP (fun p => p.target = .root) =
      blocks.length := by
  rw [List.countP_map, List.countP_eq_length]
  intro v _
  simp

/-- Nothing becomes a root but what waits as one and what is cut off. -/
theorem roots_of_walk {pending : List Pending} (forest : l.workspace.Forest)
    (walked : walk c vars pending l = .ok l') :
    l'.workspace.roots.length + (cuts l).length =
      l.workspace.roots.length + (cuts l').length + pending.countP fun p => p.target = .root := by
  induction pending, l using walk_induction c vars with
  | done l =>
    rw [walk_nil] at walked
    cases walked
    rfl
  | round p rest l ih =>
    obtain ⟨placed, visited, later⟩ := walk_cons_ok walked
    obtain ⟨b, read, settled⟩ := visit_cases visited
    have count := ih placed visited (settled.forest (forest.add _)) later
    rw [roots_of_visit forest visited, List.countP_append, successors_not_root] at count
    rw [List.countP_cons]
    cases target : p.target with
    | root =>
      obtain ⟨top, same⟩ := visit_root visited target
      rw [top, same] at count
      simp at count ⊢
      omega
    | input parent socket =>
      obtain ⟨⟨link, _, up⟩, same⟩ := visit_input visited target
      rw [up, same] at count
      simp at count ⊢
      omega
    | next prev =>
      rcases visit_next visited target with ⟨_, up, same⟩ | ⟨_, top, d, more, _⟩
      · rw [up, same] at count
        simp at count ⊢
        omega
      · rw [top, more] at count
        simp at count ⊢
        omega

theorem kind_of_walk {pending : List Pending} (walked : walk c vars pending l = .ok l') {k : Nat}
    {v : Json} {b : SavedBlock} (here : (coming pending)[k]? = some v)
    (read : SavedBlock.read v = .ok b) : kindOf l'.workspace (l.workspace.size + k) = b.kind := by
  obtain ⟨other, y, again, content⟩ := (content_of_walk walked).2.2 k v here
  cases read.symm.trans again
  rw [kindOf_eq, content]
  exact content_kind b y

theorem flags_of_load {document : Json} (loaded : load c document = .ok l) : FlagsHold c l := by
  unfold load at loaded
  split at loaded
  · cases loaded
  · refine walk_keeps (fun _ _ _ before visited => before.visit visited) ?_ loaded
    intro i j up
    simp [Workspace.parent?, Workspace.get_empty] at up

/-- After a load only those blocks follow others that may, so a container has no neighbour in a
chain. Every successor that the document names has come right after what is in the sockets of its
predecessor. It is linked, or its link is not allowed: then it is a root, and one report names it
and its predecessor. As many links are reported as there are roots besides the top-level blocks. -/
theorem illegal_links_are_cut (c : Catalogue) (document : Json) (l : Loaded)
    (loaded : load c document = .ok l) :
    (∀ i j, l.workspace.slot? i .next = some j →
      MayFollow c (kindOf l.workspace i) (kindOf l.workspace j)) ∧
    (∀ i shape, c.lookup (kindOf l.workspace i) = some shape → shape.isContainer = true →
      l.workspace.slot? i .next = none ∧ l.workspace.previous? i = none) ∧
    ∀ blocks vars, split document = .ok (blocks, vars) →
      l.workspace.roots.length = blocks.length + (cuts l).length ∧
      ∀ i v b n, (blocks.flatMap preorder)[i]? = some v → SavedBlock.read v = .ok b →
        b.next = some n →
        let j := i + 1 + inputCount b
        (blocks.flatMap preorder)[j]? = some n ∧
        ∃ follower, SavedBlock.read n = .ok follower ∧
          ((MayFollow c b.kind follower.kind ∧ l.workspace.slot? i .next = some j ∧
              ∀ d ∈ cuts l, d.block ≠ some j) ∨
            (¬ MayFollow c b.kind follower.kind ∧ j ∈ l.workspace.roots ∧
              ∃ d, (cuts l).filter (fun d => d.block = some j) = [d] ∧ d.related = [i])) := by
  obtain ⟨forest, _⟩ := forest_of_load loaded
  have flags : ∀ i j, l.workspace.slot? i .next = some j →
      MayFollow c (kindOf l.workspace i) (kindOf l.workspace j) :=
    fun i j held => (flags_of_load loaded i j ((forest.linked ..).mpr held)).2
  refine ⟨flags, ?_, ?_⟩
  · intro i shape known container
    refine ⟨?_, ?_⟩
    · rw [Option.eq_none_iff_forall_not_mem]
      intro j held
      have other := (flags i j held).not_container (Or.inl known)
      rw [container] at other
      cases other
    · unfold Workspace.previous?
      split
      · rename_i h up
        have other := (flags h i ((forest.linked ..).mp up)).not_container (Or.inr known)
        rw [container] at other
        cases other
      · rfl
  · intro blocks vars parts
    rw [load_of_split parts] at loaded
    refine ⟨?_, ?_⟩
    · have count := roots_of_walk Workspace.forest_empty loaded
      rw [top_count] at count
      simpa [cuts, Workspace.roots, Workspace.empty, Nat.add_comm] using count
    · intro i v b n here read next j
      have unreported : Dated ⟨.empty, #[]⟩ := by
        intro d reported
        cases reported
      rw [← coming_roots blocks .zero] at here ⊢
      obtain ⟨place, outcome⟩ := next_of_walk unreported loaded here read next
      obtain ⟨size, _, added⟩ := content_of_walk loaded
      obtain ⟨follower, _, found, _⟩ := added j n place
      have first := kind_of_walk loaded here read
      have second := kind_of_walk loaded place found
      have start : (Workspace.empty).size = 0 := rfl
      simp only [start, Nat.zero_add] at outcome first second size
      refine ⟨place, follower, found, ?_⟩
      rw [← first, ← second]
      cases outcome with
      | linked allowed up silent => exact Or.inl ⟨allowed, (forest.linked ..).mp up, silent⟩
      | severed forbidden root reported =>
        have bound : j < l.workspace.size := by
          rw [size]
          exact (List.getElem?_eq_some_iff.mp place).1
        exact Or.inr ⟨forbidden, (Workspace.mem_roots forest.numbered).mpr ⟨bound, root⟩, reported⟩

def chainedContainer : Json :=
  .object [
    ("next", .object [("block", .object [
      ("next", .object [("block", .object [("type", .string "esp32_delay_ms")])]),
      ("type", .string "esp32_delay_ms")])]),
    ("type", .string "program_setup")]

theorem chainedContainer_sorted : chainedContainer.Sorted := by
  have follows : ∀ {v : Json} (kind : String), v.Sorted →
      (Json.object [("next", .object [("block", v)]), ("type", .string kind)]).Sorted := by
    intro v kind sorted
    exact (sorted.single "block").pair (Json.Sorted.string kind) (by decide)
  exact follows _ (follows _ ((Json.Sorted.string _).single _))

/-- The link to the first of the two blocks is cut, and the link between them stays. -/
theorem successor_of_container_is_cut :
    ∃ l, load Esp32.catalogue (.array [chainedContainer]) = .ok l ∧ 1 ∈ l.workspace.roots ∧
      (∃ d, (cuts l).filter (fun d => d.block = some 1) = [d] ∧ d.related = [0]) ∧
      l.workspace.slot? 1 .next = some 2 := by
  have sorted : (Json.array [chainedContainer]).Sorted :=
    Json.Sorted.array (by simpa using chainedContainer_sorted)
  cases loaded : load Esp32.catalogue (.array [chainedContainer]) with
  | error e =>
    obtain ⟨f, _, fault⟩ := (load_error_iff sorted rfl _ e).mp loaded
    exact absurd (Option.isSome_of_eq_some fault) (by decide +kernel)
  | ok l =>
    obtain ⟨_, _, each⟩ :=
      illegal_links_are_cut Esp32.catalogue (.array [chainedContainer]) l loaded
    obtain ⟨_, links⟩ := each _ [] rfl
    have first : ([chainedContainer].flatMap preorder)[0]? = some chainedContainer := by
      rw [List.flatMap_cons, preorder_of_read rfl]
      rfl
    obtain ⟨second, _, read, outcome⟩ := links 0 _ _ _ first rfl rfl
    cases read
    rcases outcome with ⟨allowed, _⟩ | ⟨_, root, reported⟩
    · exact absurd ((chains_iff ..).mpr allowed) (by decide +kernel)
    · obtain ⟨_, _, read, outcome⟩ := links 1 _ _ _ second rfl rfl
      cases read
      rcases outcome with ⟨_, linked, _⟩ | ⟨forbidden, _⟩
      · exact ⟨l, rfl, root, reported, linked⟩
      · exact absurd ((chains_iff ..).mp (by decide +kernel)) forbidden

end Document
end BlockSketch
