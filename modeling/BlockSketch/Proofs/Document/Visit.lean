import BlockSketch.Document.Load
import BlockSketch.Proofs.Json.Sorted
import BlockSketch.Proofs.Workspace.Forest

/-
One round of loading a document. The first of the waiting blocks is read, added and settled, and
what it links to waits in its place. A round changes the workspace in one of three ways, and
whatever holds of a whole load is shown round by round.
-/
namespace BlockSketch
namespace Document

variable {c : Catalogue} {vars : Variables}

def visit (c : Catalogue) (vars : Variables) (l : Loaded) (p : Pending) : Except LoadError Loaded :=
  match SavedBlock.read p.value with
  | .error f => .error (.format f)
  | .ok b =>
    match place c vars l b p.target p.height (b.y.getD p.height) with
    | .error e => .error (.connection e)
    | .ok placed => .ok placed

def successors (p : Pending) (id : BlockId) : List Pending :=
  match SavedBlock.read p.value with
  | .error _ => []
  | .ok b => followers b id (b.y.getD p.height)

theorem walk_nil (c : Catalogue) (vars : Variables) (l : Loaded) : walk c vars [] l = .ok l := by
  rw [walk]

theorem walk_cons (c : Catalogue) (vars : Variables) (p : Pending) (rest : List Pending)
    (l : Loaded) :
    walk c vars (p :: rest) l =
      (visit c vars l p).bind fun placed =>
        walk c vars (successors p l.workspace.size ++ rest) placed := by
  rw [walk, visit, successors]
  split
  · rename_i f unread
    rw [unread]
    rfl
  · rename_i b read
    simp only [read]
    cases place c vars l b p.target p.height (b.y.getD p.height) <;> rfl

theorem walk_cons_ok {p : Pending} {rest : List Pending} {l l' : Loaded}
    (walked : walk c vars (p :: rest) l = .ok l') :
    ∃ placed, visit c vars l p = .ok placed ∧
      walk c vars (successors p l.workspace.size ++ rest) placed = .ok l' := by
  rw [walk_cons] at walked
  cases visited : visit c vars l p with
  | error e =>
    rw [visited] at walked
    cases walked
  | ok placed =>
    rw [visited] at walked
    exact ⟨placed, rfl, walked⟩

theorem pendingSize_successors_lt (p : Pending) (id : BlockId) :
    pendingSize (successors p id) < p.value.size := by
  unfold successors
  split
  · exact p.value.size_pos
  · rename_i b read
    rw [pendingSize_followers]
    exact SavedBlock.linkedSize_lt read

/-- What holds when nothing waits, and holds before a round if it holds after it, holds of every
load. -/
theorem walk_induction (c : Catalogue) (vars : Variables) {motive : List Pending → Loaded → Prop}
    (done : ∀ l, motive [] l)
    (round : ∀ p rest l,
      (∀ placed, visit c vars l p = .ok placed →
        motive (successors p l.workspace.size ++ rest) placed) →
      motive (p :: rest) l)
    (pending : List Pending) (l : Loaded) : motive pending l := by
  -- A round takes a block off the stack and puts less than the block back on it.
  induction size : pendingSize pending using Nat.strongRecOn generalizing pending l with
  | ind n ih =>
    cases pending with
    | nil => exact done l
    | cons p rest =>
      refine round p rest l fun placed _ => ih _ ?_ _ placed rfl
      have smaller := pendingSize_successors_lt p l.workspace.size
      have whole : pendingSize (p :: rest) = p.value.size + pendingSize rest := rfl
      rw [pendingSize_append]
      omega

theorem walk_keeps {P : Loaded → Prop}
    (round : ∀ l p l', P l → visit c vars l p = .ok l' → P l') {pending : List Pending}
    {l l' : Loaded}
    (start : P l) (walked : walk c vars pending l = .ok l') : P l' := by
  induction pending, l using walk_induction c vars with
  | done l =>
    rw [walk_nil] at walked
    cases walked
    exact start
  | round p rest l ih =>
    obtain ⟨placed, visited, later⟩ := walk_cons_ok walked
    exact ih placed visited (round l p placed start visited) later

end Document

/-! What blocks are in themselves -/

namespace Workspace

def contentOf (w : Workspace) (id : BlockId) : Option BlockContent :=
  (w.get? id).map (·.toBlockContent)

theorem contentOf_add (w : Workspace) (content : BlockContent) (id : BlockId) :
    (w.add content).2.contentOf id = if id = w.size then some content else w.contentOf id := by
  rw [contentOf, get_add]
  split <;> rfl

theorem contentOf_attach (w : Workspace) (parent : BlockId) (link : Link) (child id : BlockId) :
    (w.attach parent link child).contentOf id = w.contentOf id := by
  rw [contentOf, get_attach, contentOf]
  cases w.get? id with
  | none => rfl
  | some b =>
    cases link <;> by_cases h : parent = id <;> by_cases k : child = id <;> simp [h, k] <;> rfl

theorem contentOf_edit (w : Workspace) (id other : BlockId) (f : BlockContent → BlockContent) :
    (w.edit id f).contentOf other = if id = other then (w.contentOf other).map f
      else w.contentOf other := by
  rw [contentOf, edit, get_update]
  split
  · cases found : w.get? other <;> simp [contentOf, found]
  · rfl

end Workspace

/-! What a round does to the workspace -/

namespace Document

variable {c : Catalogue} {vars : Variables}

/-- The target of a block that is to go into a slot. Sockets of both kinds share their names. -/
def Target.of (parent : BlockId) : Link → Target
  | .next => .next parent
  | .value socket => .input parent socket
  | .statement socket => .input parent socket

inductive Settled (w : Workspace) (id : BlockId) (target : Target) (height : Binary64) :
    Workspace → Prop where
  | root (top : target = .root) : Settled w id target height w
  | attached {parent : BlockId} {link : Link} (slot : target = .of parent link)
      (accepted : w.connect parent link id = .ok (w.attach parent link id)) :
      Settled w id target height (w.attach parent link id)
  | severed {prev : BlockId} (behind : target = .next prev) :
      Settled w id target height
        (w.edit id fun b => { b with position := { b.position with y := height } })

theorem settled_of_connect {w v : Workspace} {id parent : BlockId} {link : Link} (height : Binary64)
    (accepted : w.connect parent link id = .ok v) : Settled w id (.of parent link) height v := by
  obtain ⟨_, _, _, _, _, _, _, rfl⟩ := Workspace.connect_cases accepted
  exact Settled.attached rfl accepted

theorem attachInput_settles {l l' : Loaded} {parent id : BlockId} {socket kind : String}
    {hasNext : Bool} {height : Binary64}
    (attached : attachInput c l parent socket id kind hasNext = .ok l') :
    Settled l.workspace id (.input parent socket) height l'.workspace := by
  simp only [attachInput] at attached
  split at attached
  · split at attached
    · cases attached
    · rename_i v accepted
      have settled := settled_of_connect height accepted
      split at attached <;> cases attached <;> exact settled
  · split at attached
    · cases attached
    · rename_i v accepted
      cases attached
      exact settled_of_connect _ accepted

theorem attachNext_settles {l l' : Loaded} {prev id : BlockId} {kind : String} {height : Binary64}
    (attached : attachNext c l prev id kind height = .ok l') :
    Settled l.workspace id (.next prev) height l'.workspace := by
  simp only [attachNext] at attached
  split at attached
  · split at attached
    · cases attached
    · rename_i v accepted
      cases attached
      exact settled_of_connect _ accepted
  · cases attached
    exact Settled.severed rfl

theorem place_of_visit {l l' : Loaded} {p : Pending} (visited : visit c vars l p = .ok l') :
    ∃ b, SavedBlock.read p.value = .ok b ∧
      place c vars l b p.target p.height (b.y.getD p.height) = .ok l' := by
  unfold visit at visited
  split at visited
  · cases visited
  · rename_i b read
    split at visited
    · cases visited
    · rename_i placed added
      cases visited
      exact ⟨b, read, added⟩

/-- Everything that a round which succeeds does to the workspace. -/
theorem visit_cases {l l' : Loaded} {p : Pending} (visited : visit c vars l p = .ok l') :
    ∃ b, SavedBlock.read p.value = .ok b ∧
      Settled (l.workspace.add (content c vars b (b.y.getD p.height)).1).2 l.workspace.size p.target
        p.height l'.workspace := by
  obtain ⟨b, read, added⟩ := place_of_visit visited
  refine ⟨b, read, ?_⟩
  unfold place at added
  dsimp only at added
  split at added
  · rename_i top
    cases added
    exact Settled.root top
  · rename_i parent socket slot
    rw [slot]
    exact attachInput_settles added
  · rename_i prev behind
    rw [behind]
    exact attachNext_settles added

namespace Settled

variable {w v : Workspace} {id : BlockId} {target : Target} {height : Binary64}

theorem size_eq (settled : Settled w id target height v) : v.size = w.size := by
  cases settled with
  | root top => rfl
  | attached slot accepted => exact Workspace.size_attach ..
  | severed behind => exact Workspace.size_update ..

theorem forest (settled : Settled w id target height v) (before : w.Forest) : v.Forest := by
  cases settled with
  | root top => exact before
  | attached slot accepted => exact before.connect accepted
  | severed behind => exact before.edit id _

theorem content_eq (settled : Settled w id target height v) (i : BlockId) :
    v.contentOf i = w.contentOf i ∨
      i = id ∧ v.contentOf i = (w.contentOf i).map fun b =>
        { b with position := { b.position with y := height } } := by
  cases settled with
  | root top => exact Or.inl rfl
  | attached slot accepted => exact Or.inl (Workspace.contentOf_attach ..)
  | severed behind =>
    rw [Workspace.contentOf_edit]
    by_cases new : id = i
    · rw [if_pos new]
      exact Or.inr ⟨new.symm, rfl⟩
    · rw [if_neg new]
      exact Or.inl rfl

theorem parent_cases (settled : Settled w id target height v) {i : BlockId} {p : Parent}
    (up : v.parent? i = some p) :
    w.parent? i = some p ∨ i = id ∧ target = .of p.block p.link ∧ p.block < w.size ∧
      p.block ≠ id := by
  cases settled with
  | root top => exact Or.inl up
  | attached slot accepted =>
    obtain ⟨b, found, _, earlier, other, _⟩ := Workspace.connect_cases accepted
    rw [Workspace.parent_attach (Workspace.get_lt_size found)] at up
    split at up
    · rename_i new
      cases up
      exact Or.inr ⟨new.symm, slot, earlier, other⟩
    · exact Or.inl up
  | severed behind =>
    rw [Workspace.parent_edit] at up
    exact Or.inl up

theorem parent_eq (settled : Settled w id target height v) {i : BlockId} (other : i ≠ id) :
    v.parent? i = w.parent? i := by
  cases settled with
  | root top => rfl
  | attached slot accepted =>
    obtain ⟨b, found, _⟩ := Workspace.connect_cases accepted
    rw [Workspace.parent_attach (Workspace.get_lt_size found), if_neg (Ne.symm other)]
  | severed behind => exact Workspace.parent_edit ..

theorem slot_cases (settled : Settled w id target height v) {i child : BlockId} {link : Link}
    (held : v.slot? i link = some child) : w.slot? i link = some child ∨ target = .of i link := by
  cases settled with
  | root top => exact Or.inl held
  | attached slot accepted =>
    obtain ⟨b, found, _, earlier, _⟩ := Workspace.connect_cases accepted
    rw [Workspace.slot_attach earlier] at held
    split at held
    · rename_i same
      rw [← same.1, ← same.2]
      exact Or.inr slot
    · exact Or.inl held
  | severed behind =>
    rw [Workspace.slot_edit] at held
    exact Or.inl held

end Settled

end Document

/-! The links of a block -/

namespace SavedBlock

theorem linkTarget_inherits {P : Json → Prop} (inherited : Json.Inherited P) {link v : Json}
    (holds : P link) (leads : linkTarget link = some v) : P v := by
  simp only [linkTarget, present, Option.or_eq_some_iff, Option.filter_eq_some_iff] at leads
  rcases leads with ⟨block, _⟩ | ⟨_, shadow, _⟩
  · exact inherited.found holds block
  · exact inherited.found holds shadow

theorem mem_membersOf {found : Option Json} {m : String × Json} (member : m ∈ membersOf found) :
    ∃ members, found = some (.object members) ∧ m ∈ members := by
  unfold membersOf at member
  split at member
  · exact ⟨_, rfl, member⟩
  · cases member

theorem read_inherits {P : Json → Prop} (inherited : Json.Inherited P) {v : Json} {b : SavedBlock}
    (holds : P v) (done : read v = .ok b) :
    (∀ i ∈ b.inputs, P i.2) ∧ ∀ n, b.next = some n → P n := by
  unfold read at done
  split at done
  · rename_i members
    have member : ∀ name w, Json.find? name members = some w → P w :=
      fun name w found => inherited.found holds found
    split at done
    · cases done
      refine ⟨?_, ?_⟩
      · intro i linked
        obtain ⟨m, inside, target⟩ := List.mem_filterMap.mp linked
        obtain ⟨w, leads, rfl⟩ := Option.map_eq_some_iff.mp target
        obtain ⟨sockets, found, listed⟩ := mem_membersOf inside
        exact linkTarget_inherits inherited (inherited.member (member "inputs" _ found) m listed)
          leads
      · intro n follows
        obtain ⟨link, found, leads⟩ := Option.bind_eq_some_iff.mp follows
        exact linkTarget_inherits inherited (member "next" link found) leads
    · cases done
  · cases done

/-- The sockets of a block stand to each other as the members of the document's objects do. -/
theorem inputs_pairwise {R : String → String → Prop} {v : Json} {b : SavedBlock}
    (ordered : ∀ name members, v.member? name = some (.object members) →
      members.Pairwise fun x y => R x.1 y.1)
    (done : read v = .ok b) : b.inputs.Pairwise fun x y => R x.1 y.1 := by
  unfold read at done
  split at done
  · split at done
    · cases done
      refine List.Pairwise.filterMap _ (R := fun x y => R x.1 y.1) ?_ ?_
      · intro x x' before y first y' second
        obtain ⟨_, _, rfl⟩ := Option.map_eq_some_iff.mp first
        obtain ⟨_, _, rfl⟩ := Option.map_eq_some_iff.mp second
        exact before
      · unfold membersOf
        split
        · rename_i found
          exact ordered "inputs" _ found
        · exact List.Pairwise.nil
    · cases done
  · cases done

theorem sorted_read {v : Json} {b : SavedBlock} (sorted : v.Sorted) (done : read v = .ok b) :
    b.inputs.Pairwise (fun x y => x.1 < y.1) ∧ (∀ i ∈ b.inputs, i.2.Sorted) ∧
      ∀ n, b.next = some n → n.Sorted := by
  refine ⟨inputs_pairwise ?_ done, read_inherits Json.sorted_inherited sorted done⟩
  intro name members found
  cases Json.sorted_inherited.found sorted found with
  | object ordered each => exact ordered

theorem inputs_apart {v : Json} {b : SavedBlock} (apart : v.KeysApart) (done : read v = .ok b) :
    b.inputs.Pairwise fun x y => x.1 ≠ y.1 := by
  refine inputs_pairwise ?_ done
  intro name members found
  cases Json.keysApart_inherited.found apart found with
  | object apart each => exact apart

end SavedBlock

/-! No connection is refused -/

theorem Workspace.connect_added {w : Workspace} {content : BlockContent} {parent : BlockId}
    {link : Link} (older : parent < w.size) (free : w.slot? parent link = none) :
    (w.add content).2.connect parent link w.size =
      .ok ((w.add content).2.attach parent link w.size) := by
  obtain ⟨b, found⟩ := get_of_lt_size older
  have above : (w.add content).2.get? parent = some b := by
    rw [get_add, if_neg (Nat.ne_of_lt older)]
    exact found
  have new : (w.add content).2.get? w.size = some (.detached w.size content) := by
    rw [get_add, if_pos rfl]
  have faultless : (w.add content).2.attachFault? parent w.size = none := by
    have root : (Block.detached w.size content).parent = none := rfl
    have childless : (Block.detached w.size content).isChildless = true := rfl
    have other : parent ≠ w.size := Nat.ne_of_lt older
    simp [attachFault?, above, new, root, childless, other]
  rw [connect, faultless]
  simp [slot_add, free]

namespace Document

theorem Target.of_ne_root (parent : BlockId) (link : Link) : Target.of parent link ≠ .root := by
  cases link <;> simp [Target.of]

theorem Target.of_parent {a b : BlockId} {l m : Link} (same : Target.of a l = .of b m) : a = b := by
  cases l <;> cases m <;> simp_all [Target.of]

def request? (c : Catalogue) (w : Workspace) (b : SavedBlock) : Target → Option Parent
  | .root => none
  | .input parent socket =>
    match classify c (kindOf w parent) socket b.kind b.next.isSome with
    | .value => some ⟨parent, .value socket⟩
    | .statement => some ⟨parent, .statement socket⟩
  | .next prev => if chains c (kindOf w prev) b.kind then some ⟨prev, .next⟩ else none

theorem request_target {w : Workspace} {b : SavedBlock} {target : Target} {slot : Parent}
    (asked : request? c w b target = some slot) : target = .of slot.block slot.link := by
  unfold request? at asked
  split at asked
  · cases asked
  · split at asked <;> cases asked <;> rfl
  · split at asked <;> cases asked
    rfl

/-- A block that asks for a slot is placed exactly if the workspace grants the slot, and a refusal
is passed on. -/
theorem place_error_iff (l : Loaded) (b : SavedBlock) (target : Target) (height y : Binary64)
    (e : ConnectError) :
    place c vars l b target height y = .error e ↔
      ∃ slot, request? c (l.workspace.add (content c vars b y).1).2 b target = some slot ∧
        (l.workspace.add (content c vars b y).1).2.connect slot.block slot.link l.workspace.size =
          .error e := by
  have id : (l.workspace.add (content c vars b y).1).1 = l.workspace.size := rfl
  cases target with
  | root => simp [place, request?]
  | input parent socket =>
    simp only [place, attachInput, request?, id]
    generalize (l.workspace.add (content c vars b y).1).2 = w
    cases classify c (kindOf w parent) socket b.kind b.next.isSome with
    | value =>
      cases asked : w.connect parent (.value socket) l.workspace.size with
      | error refused => simp [asked]
      | ok v => by_cases fits : c.accepts (kindOf w parent) socket b.kind <;> simp [asked, fits]
    | statement =>
      cases asked : w.connect parent (.statement socket) l.workspace.size <;> simp [asked]
  | next prev =>
    simp only [place, attachNext, request?, id]
    generalize (l.workspace.add (content c vars b y).1).2 = w
    by_cases chained : chains c (kindOf w prev) b.kind
    · cases asked : w.connect prev .next l.workspace.size <;> simp [asked, chained]
    · simp [chained]

theorem place_ok {l : Loaded} {target : Target} (b : SavedBlock) (height y : Binary64)
    (free : ∀ parent link, target = .of parent link →
      parent < l.workspace.size ∧ l.workspace.slot? parent link = none) :
    ∃ placed, place c vars l b target height y = .ok placed := by
  cases result : place c vars l b target height y with
  | ok placed => exact ⟨placed, rfl⟩
  | error e =>
    obtain ⟨slot, asked, refused⟩ := (place_error_iff l b target height y e).mp result
    obtain ⟨older, vacant⟩ := free slot.block slot.link (request_target asked)
    rw [Workspace.connect_added older vacant] at refused
    cases refused

/-- No waiting block names a socket twice, and each waits for a slot of its own that is free. -/
structure Ready (w : Workspace) (pending : List Pending) : Prop where
  keysApart : ∀ p ∈ pending, p.value.KeysApart
  free : ∀ p ∈ pending, ∀ parent link, p.target = .of parent link →
    parent < w.size ∧ w.slot? parent link = none
  apart : pending.Pairwise fun p q => p.target = q.target → p.target = .root

theorem ready_roots {blocks : List Json} (apart : ∀ v ∈ blocks, v.KeysApart) (w : Workspace)
    (height : Binary64) : Ready w (blocks.map fun v => ⟨v, .root, height⟩) where
  keysApart p waits := by
    obtain ⟨v, member, rfl⟩ := List.mem_map.mp waits
    exact apart v member
  free p waits parent link slot := by
    obtain ⟨v, member, rfl⟩ := List.mem_map.mp waits
    exact absurd slot.symm (Target.of_ne_root parent link)
  apart := by
    refine List.pairwise_map.mpr (List.pairwise_of_forall_mem_list ?_)
    exact fun _ _ _ _ _ => rfl

theorem mem_successors {p q : Pending} {id : BlockId} (waits : q ∈ successors p id) :
    (∃ link, q.target = .of id link) ∧ (p.value.KeysApart → q.value.KeysApart) := by
  unfold successors at waits
  split at waits
  · cases waits
  · rename_i b read
    have inherits := fun apart => SavedBlock.read_inherits Json.keysApart_inherited apart read
    rcases List.mem_append.mp waits with socket | next
    · obtain ⟨i, member, rfl⟩ := List.mem_map.mp socket
      exact ⟨⟨.value i.1, rfl⟩, fun apart => (inherits apart).1 i member⟩
    · obtain ⟨v, member, rfl⟩ := List.mem_map.mp next
      refine ⟨⟨.next, rfl⟩, fun apart => (inherits apart).2 v ?_⟩
      simpa using member

theorem successors_apart {p : Pending} (apart : p.value.KeysApart) (id : BlockId) :
    (successors p id).Pairwise fun q r => q.target ≠ r.target := by
  unfold successors
  split
  · exact List.Pairwise.nil
  · rename_i b read
    refine List.pairwise_append.mpr ⟨?_, ?_, ?_⟩
    · refine List.pairwise_map.mpr ((SavedBlock.inputs_apart apart read).imp ?_)
      intro i j differ same
      injection same with _ name
      exact differ name
    · cases b.next <;> simp
    · intro q socket r next
      obtain ⟨i, _, rfl⟩ := List.mem_map.mp socket
      obtain ⟨v, _, rfl⟩ := List.mem_map.mp next
      exact Target.noConfusion

theorem Ready.round {l l' : Loaded} {p : Pending} {rest : List Pending}
    (ready : Ready l.workspace (p :: rest)) (visited : visit c vars l p = .ok l') :
    Ready l'.workspace (successors p l.workspace.size ++ rest) := by
  obtain ⟨b, read, settled⟩ := visit_cases visited
  have size : l'.workspace.size = l.workspace.size + 1 := by
    rw [settled.size_eq, Workspace.size_add]
  have filled : ∀ i link child, l'.workspace.slot? i link = some child →
      l.workspace.slot? i link = some child ∨ p.target = .of i link := by
    intro i link child held
    have before := settled.slot_cases held
    rw [Workspace.slot_add] at before
    exact before
  have head := ready.free p List.mem_cons_self
  refine ⟨?_, ?_, ?_⟩
  · intro q waits
    rcases List.mem_append.mp waits with new | old
    · exact (mem_successors new).2 (ready.keysApart p List.mem_cons_self)
    · exact ready.keysApart q (List.mem_cons_of_mem _ old)
  · intro q waits parent link slot
    rcases List.mem_append.mp waits with new | old
    · -- It waits for a slot of the block that was just added.
      obtain ⟨own, target⟩ := (mem_successors new).1
      cases Target.of_parent (target.symm.trans slot)
      refine ⟨size ▸ Nat.lt_succ_self _, Option.eq_none_iff_forall_ne_some.mpr ?_⟩
      intro child held
      rcases filled _ link child held with before | taken
      · exact absurd (Workspace.slot_lt_size before) (Nat.lt_irrefl _)
      · exact absurd (head _ link taken).1 (Nat.lt_irrefl _)
    · -- Its slot was free before, and no two blocks wait for one slot.
      obtain ⟨older, vacant⟩ := ready.free q (List.mem_cons_of_mem _ old) parent link slot
      refine ⟨size ▸ Nat.lt_succ_of_lt older, Option.eq_none_iff_forall_ne_some.mpr ?_⟩
      intro child held
      rcases filled parent link child held with before | taken
      · rw [vacant] at before
        cases before
      · have top := List.rel_of_pairwise_cons ready.apart old (taken.trans slot.symm)
        exact Target.of_ne_root parent link (taken.symm.trans top)
  · refine List.pairwise_append.mpr ⟨?_, ready.apart.of_cons, ?_⟩
    · exact (successors_apart (ready.keysApart p List.mem_cons_self) _).imp fun differ same =>
        absurd same differ
    · intro q new r old same
      obtain ⟨own, target⟩ := (mem_successors new).1
      have older := (ready.free r (List.mem_cons_of_mem _ old) _ _ (same.symm.trans target)).1
      exact absurd older (Nat.lt_irrefl _)

theorem visit_of_ready {l : Loaded} {p : Pending} {rest : List Pending}
    (ready : Ready l.workspace (p :: rest)) :
    (∃ placed, visit c vars l p = .ok placed) ∨ ∃ f, visit c vars l p = .error (.format f) := by
  unfold visit
  cases SavedBlock.read p.value with
  | error f => exact Or.inr ⟨f, rfl⟩
  | ok b =>
    obtain ⟨placed, accepted⟩ :=
      place_ok b p.height (b.y.getD p.height) (ready.free p List.mem_cons_self)
    dsimp only
    rw [accepted]
    exact Or.inl ⟨placed, rfl⟩

/-- Nothing but a malformed block stops a load. -/
theorem walk_of_ready (c : Catalogue) (vars : Variables) (pending : List Pending) (l : Loaded)
    (ready : Ready l.workspace pending) :
    (∃ l', walk c vars pending l = .ok l') ∨ ∃ f, walk c vars pending l = .error (.format f) := by
  induction pending, l using walk_induction c vars with
  | done l => exact Or.inl ⟨l, walk_nil c vars l⟩
  | round p rest l ih =>
    rw [walk_cons]
    rcases visit_of_ready ready with ⟨placed, visited⟩ | ⟨f, malformed⟩
    · rw [visited]
      exact ih placed visited (ready.round visited)
    · rw [malformed]
      exact Or.inr ⟨f, rfl⟩

end Document
end BlockSketch
