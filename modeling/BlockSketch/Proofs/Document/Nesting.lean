import BlockSketch.Proofs.Document.Visit
import BlockSketch.Shape.Esp32

/-
Loading follows the nesting of a document. Blocks that wait on a stack are loaded as a plain
recursion would load them: a block, then everything in its sockets, then everything behind it. So
the number of a block is its place in that order, a block comes after the one it hangs from, and of
several malformed blocks the first is reported.
-/
namespace BlockSketch

namespace SavedBlock

def linked (b : SavedBlock) : List Json := b.inputs.map (·.2) ++ b.next.toList

theorem size_le_sizeMembers {members : List (String × Json)} {m : String × Json}
    (member : m ∈ members) : m.2.size ≤ Json.sizeMembers members := by
  induction members with
  | nil => cases member
  | cons first rest ih =>
    obtain ⟨name, v⟩ := first
    simp only [Json.sizeMembers]
    rcases List.mem_cons.mp member with rfl | later
    · exact Nat.le_add_right _ _
    · exact Nat.le_trans (ih later) (Nat.le_add_left _ _)

theorem size_linked_le {b : SavedBlock} {v : Json} (member : v ∈ b.linked) :
    v.size ≤ b.linkedSize := by
  unfold linkedSize
  rcases List.mem_append.mp member with socket | next
  · obtain ⟨i, inside, rfl⟩ := List.mem_map.mp socket
    exact Nat.le_trans (size_le_sizeMembers inside) (Nat.le_add_right _ _)
  · rw [Option.mem_toList.mp next]
    exact Nat.le_add_left _ _

theorem sorted_linked {v w : Json} {b : SavedBlock} (sorted : v.Sorted) (done : read v = .ok b)
    (member : w ∈ b.linked) : w.Sorted := by
  obtain ⟨_, inputs, next⟩ := sorted_read sorted done
  rcases List.mem_append.mp member with socket | follows
  · obtain ⟨i, inside, rfl⟩ := List.mem_map.mp socket
    exact inputs i inside
  · exact next w (Option.mem_toList.mp follows)

def fault? (v : Json) : Option FormatFault :=
  match read v with
  | .error f => some f
  | .ok _ => none

end SavedBlock

namespace Document

def preorder (v : Json) : List Json :=
  match _read : SavedBlock.read v with
  | .error _ => [v]
  | .ok b => v :: b.linked.attach.flatMap fun ⟨w, _member⟩ => preorder w
  termination_by v.size
  decreasing_by
    exact Nat.lt_of_le_of_lt (SavedBlock.size_linked_le _member) (SavedBlock.linkedSize_lt _read)

mutual

def loadBlock (c : Catalogue) (vars : Variables) (v : Json) (target : Target) (height : Binary64)
    (l : Loaded) : Except LoadError Loaded :=
  match _read : SavedBlock.read v with
  | .error f => .error (.format f)
  | .ok b => do
    let id := l.workspace.size
    let y := b.y.getD height
    let placed ← (place c vars l b target height y).mapError .connection
    let filled ← loadInputs c vars b.inputs id y placed
    match _next : b.next with
    | none => return filled
    | some n => loadBlock c vars n (.next id) y filled
  termination_by 2 * v.size
  decreasing_by
    all_goals
      have smaller := SavedBlock.linkedSize_lt _read
      simp only [SavedBlock.linkedSize] at smaller
    · omega
    · rw [_next] at smaller
      simp only [Option.map_some, Option.getD_some] at smaller
      omega

def loadInputs (c : Catalogue) (vars : Variables) (inputs : List (String × Json)) (id : BlockId)
    (y : Binary64) (l : Loaded) : Except LoadError Loaded :=
  match inputs with
  | [] => return l
  | (socket, v) :: rest => do
    let loaded ← loadBlock c vars v (.input id socket) y l
    loadInputs c vars rest id y loaded
  termination_by 2 * Json.sizeMembers inputs + 1
  decreasing_by
    all_goals
      have positive := v.size_pos
      simp only [Json.sizeMembers]
      omega

end

def loadNested (c : Catalogue) (document : Json) : Except LoadError Loaded :=
  match split document with
  | .error f => .error (.format f)
  | .ok (blocks, vars) => blocks.foldlM (fun l v => loadBlock c vars v .root .zero l) ⟨.empty, #[]⟩

/-! The stack and the recursion -/

theorem walk_append (c : Catalogue) (vars : Variables) (xs ys : List Pending) (l : Loaded) :
    walk c vars (xs ++ ys) l = (walk c vars xs l).bind (walk c vars ys) := by
  induction xs, l using walk_induction c vars with
  | done l => rw [walk_nil]; rfl
  | round p rest l ih =>
    rw [List.cons_append, walk_cons, walk_cons]
    cases visited : visit c vars l p with
    | error e => rfl
    | ok placed =>
      simp only [Except.bind]
      rw [← List.append_assoc, ih placed visited]
      rfl

theorem loadInputs_eq_walk {c : Catalogue} {vars : Variables} {inputs : List (String × Json)}
    {id : BlockId} {y : Binary64}
    (each : ∀ i ∈ inputs, ∀ target l, loadBlock c vars i.2 target y l =
      walk c vars [⟨i.2, target, y⟩] l)
    (l : Loaded) :
    loadInputs c vars inputs id y l =
      walk c vars (inputs.map fun (socket, v) => ⟨v, .input id socket, y⟩) l := by
  induction inputs generalizing l with
  | nil =>
    rw [loadInputs]
    exact (walk_nil c vars l).symm
  | cons i rest ih =>
    obtain ⟨socket, v⟩ := i
    rw [loadInputs, List.map_cons, ← List.singleton_append, walk_append,
      each (socket, v) List.mem_cons_self]
    cases walk c vars [⟨v, .input id socket, y⟩] l with
    | error e => rfl
    | ok loaded => exact ih (fun j later => each j (List.mem_cons_of_mem _ later)) loaded

theorem loadBlock_eq_walk (c : Catalogue) (vars : Variables) (v : Json) (target : Target)
    (height : Binary64) (l : Loaded) :
    loadBlock c vars v target height l = walk c vars [⟨v, target, height⟩] l := by
  -- What a block links to is smaller than the block, in its sockets as behind it.
  induction size : v.size using Nat.strongRecOn generalizing v target height l with
  | ind n ih =>
    rw [loadBlock, walk_cons, visit, successors]
    split
    · rename_i f unread
      rw [unread]
      rfl
    · rename_i b read
      have smaller : ∀ w ∈ b.linked, w.size < n := fun w member =>
        size ▸ Nat.lt_of_le_of_lt (SavedBlock.size_linked_le member) (SavedBlock.linkedSize_lt read)
      simp only [read]
      cases place c vars l b target height (b.y.getD height) with
      | error e => rfl
      | ok placed =>
        have mapped : Except.mapError LoadError.connection (.ok placed) = .ok placed := rfl
        simp only [mapped, bind, Except.bind, List.append_nil, followers, walk_append]
        rw [← loadInputs_eq_walk]
        · cases loadInputs c vars b.inputs l.workspace.size (b.y.getD height) placed with
          | error e => rfl
          | ok filled =>
            dsimp only
            split
            · rename_i last
              rw [last]
              exact (walk_nil c vars filled).symm
            · rename_i w next
              rw [next]
              exact ih w.size (smaller w (by simp [SavedBlock.linked, next])) w _ _ filled rfl
        · intro i member target l
          have inside : i.2 ∈ b.linked := List.mem_append_left _ (List.mem_map.mpr ⟨i, member, rfl⟩)
          exact ih i.2.size (smaller i.2 inside) i.2 target _ l rfl

theorem walk_roots (c : Catalogue) (vars : Variables) (blocks : List Json) (l : Loaded) :
    walk c vars (blocks.map fun v => ⟨v, .root, .zero⟩) l =
      blocks.foldlM (fun l v => loadBlock c vars v .root .zero l) l := by
  induction blocks generalizing l with
  | nil => exact walk_nil c vars l
  | cons v rest ih =>
    rw [List.map_cons, ← List.singleton_append, walk_append, List.foldlM_cons, loadBlock_eq_walk]
    cases walk c vars [⟨v, .root, .zero⟩] l with
    | error e => rfl
    | ok loaded => exact ih loaded

theorem load_eq_loadNested (c : Catalogue) (document : Json) :
    load c document = loadNested c document := by
  unfold load loadNested
  cases split document with
  | error f => rfl
  | ok parts => exact walk_roots c parts.2 parts.1 _

/-! The order of the blocks -/

theorem preorder_of_read {v : Json} {b : SavedBlock} (read : SavedBlock.read v = .ok b) :
    preorder v = v :: b.linked.flatMap preorder := by
  rw [preorder]
  split
  · rename_i f unread
    rw [read] at unread
    cases unread
  · rename_i other again
    cases read.symm.trans again
    simp

theorem preorder_of_fault {v : Json} {f : FormatFault} (unread : SavedBlock.read v = .error f) :
    preorder v = [v] := by
  rw [preorder]
  split
  · rfl
  · rename_i b read
    rw [unread] at read
    cases read

theorem preorder_eq (p : Pending) (id : BlockId) :
    preorder p.value = p.value :: (successors p id).flatMap fun q => preorder q.value := by
  unfold successors
  split
  · rename_i f unread
    rw [preorder_of_fault unread]
    rfl
  · rename_i b read
    rw [preorder_of_read read]
    simp [followers, SavedBlock.linked, List.flatMap_map]

def coming (pending : List Pending) : List Json := pending.flatMap fun p => preorder p.value

theorem coming_cons (p : Pending) (rest : List Pending) (id : BlockId) :
    coming (p :: rest) = p.value :: coming (successors p id ++ rest) := by
  rw [coming, List.flatMap_cons, preorder_eq p id, coming, List.flatMap_append]
  rfl

theorem coming_roots (blocks : List Json) (height : Binary64) :
    coming (blocks.map fun v => ⟨v, .root, height⟩) = blocks.flatMap preorder := by
  simp [coming, List.flatMap_map]

/-! Contents and parents along a load -/

theorem content_height (c : Catalogue) (vars : Variables) (b : SavedBlock) (y height : Binary64) :
    { (content c vars b y).1 with
        position := { (content c vars b y).1.position with y := height } } =
      (content c vars b height).1 := by
  -- Defaults are filled in without a look at the position.
  have fills : ∀ (specs : List FieldSpec) (base : BlockContent),
      (specs.foldl (fun content f =>
          if content.fields.contains f.name then content
          else content.setField f.name (.text f.default))
        { base with position := { base.position with y := height } }) =
      let full := specs.foldl (fun content f =>
          if content.fields.contains f.name then content
          else content.setField f.name (.text f.default))
        base
      { full with position := { full.position with y := height } } := by
    intro specs
    induction specs with
    | nil => exact fun _ => rfl
    | cons f rest ih =>
      intro base
      simp only [List.foldl_cons]
      split
      · exact ih base
      · exact ih (base.setField f.name (.text f.default))
  exact (fills _ _).symm

def ParentsFirst (w : Workspace) : Prop := ∀ i p, w.parent? i = some p → p.block < i

variable {c : Catalogue} {vars : Variables}

theorem size_of_visit {l l' : Loaded} {p : Pending} (visited : visit c vars l p = .ok l') :
    l'.workspace.size = l.workspace.size + 1 := by
  obtain ⟨b, read, settled⟩ := visit_cases visited
  rw [settled.size_eq, Workspace.size_add]

theorem content_of_visit {l l' : Loaded} {p : Pending} (visited : visit c vars l p = .ok l') :
    (∃ b y, SavedBlock.read p.value = .ok b ∧
      l'.workspace.contentOf l.workspace.size = some (content c vars b y).1) ∧
    ∀ i, i < l.workspace.size → l'.workspace.contentOf i = l.workspace.contentOf i := by
  obtain ⟨b, read, settled⟩ := visit_cases visited
  refine ⟨?_, ?_⟩
  · rcases settled.content_eq l.workspace.size with same | ⟨_, lowered⟩
    · refine ⟨b, b.y.getD p.height, read, ?_⟩
      rw [same, Workspace.contentOf_add, if_pos rfl]
    · refine ⟨b, p.height, read, ?_⟩
      rw [lowered, Workspace.contentOf_add, if_pos rfl]
      exact congrArg some (content_height c vars b (b.y.getD p.height) p.height)
  · intro i old
    rcases settled.content_eq i with same | ⟨new, _⟩
    · rw [same, Workspace.contentOf_add, if_neg (Nat.ne_of_lt old)]
    · exact absurd new (Nat.ne_of_lt old)

theorem parentsFirst_of_visit {l l' : Loaded} {p : Pending} (before : ParentsFirst l.workspace)
    (visited : visit c vars l p = .ok l') : ParentsFirst l'.workspace := by
  obtain ⟨b, read, settled⟩ := visit_cases visited
  intro i q up
  rcases settled.parent_cases up with old | ⟨new, _, older, other⟩
  · rw [Workspace.parent_add] at old
    exact before i q old
  · rw [Workspace.size_add] at older
    rw [new]
    exact Nat.lt_of_le_of_ne (Nat.le_of_lt_succ older) other

/-- A whole load adds what is to come, in its order, under the next numbers. -/
theorem content_of_walk {pending : List Pending} {l l' : Loaded}
    (walked : walk c vars pending l = .ok l') :
    l'.workspace.size = l.workspace.size + (coming pending).length ∧
    (∀ i, i < l.workspace.size → l'.workspace.contentOf i = l.workspace.contentOf i) ∧
    ∀ k v, (coming pending)[k]? = some v → ∃ b y, SavedBlock.read v = .ok b ∧
      l'.workspace.contentOf (l.workspace.size + k) = some (content c vars b y).1 := by
  induction pending, l using walk_induction c vars with
  | done l =>
    rw [walk_nil] at walked
    cases walked
    exact ⟨rfl, fun _ _ => rfl, fun k v none => by simp [coming] at none⟩
  | round p rest l ih =>
    obtain ⟨placed, visited, later⟩ := walk_cons_ok walked
    obtain ⟨size, kept, added⟩ := ih placed visited later
    obtain ⟨⟨b, y, read, here⟩, before⟩ := content_of_visit visited
    have one := size_of_visit visited
    rw [coming_cons p rest l.workspace.size]
    refine ⟨by rw [size, one, List.length_cons]; omega, ?_, ?_⟩
    · intro i old
      rw [kept i (one ▸ Nat.lt_succ_of_lt old), before i old]
    · intro k v at_k
      cases k with
      | zero =>
        -- The block of this round keeps its content through the later ones.
        cases at_k
        exact ⟨b, y, read, (kept _ (one ▸ Nat.lt_succ_self _)).trans here⟩
      | succ k =>
        obtain ⟨b, y, read, content⟩ := added k v at_k
        rw [one, Nat.succ_add_eq_add_succ] at content
        exact ⟨b, y, read, content⟩

/-! Malformed blocks -/

theorem faultless_of_walk {pending : List Pending} {l l' : Loaded}
    (walked : walk c vars pending l = .ok l') :
    (coming pending).findSome? SavedBlock.fault? = none := by
  rw [List.findSome?_eq_none_iff]
  intro v member
  obtain ⟨k, found⟩ := List.getElem?_of_mem member
  obtain ⟨b, y, read, _⟩ := (content_of_walk walked).2.2 k v found
  simp [SavedBlock.fault?, read]

theorem first_fault_of_walk {pending : List Pending} {l : Loaded} {f : FormatFault}
    (stopped : walk c vars pending l = .error (.format f)) :
    (coming pending).findSome? SavedBlock.fault? = some f := by
  induction pending, l using walk_induction c vars with
  | done l =>
    rw [walk_nil] at stopped
    cases stopped
  | round p rest l ih =>
    rw [walk_cons] at stopped
    rw [coming_cons p rest l.workspace.size, List.findSome?_cons]
    cases visited : visit c vars l p with
    | error e =>
      rw [visited] at stopped
      cases stopped
      unfold visit at visited
      split at visited
      · rename_i g unread
        cases visited
        simp [SavedBlock.fault?, unread]
      · split at visited <;> cases visited
    | ok placed =>
      rw [visited] at stopped
      obtain ⟨b, read, _⟩ := visit_cases visited
      have fine : SavedBlock.fault? p.value = none := by simp [SavedBlock.fault?, read]
      rw [fine]
      exact ih placed visited stopped

/-! What documents pass on to their blocks -/

theorem topBlocks_inherits {P : Json → Prop} (inherited : Json.Inherited P)
    {members : List (String × Json)} {blocks : List Json} (holds : P (.object members))
    (listed : topBlocks members = .ok blocks) : ∀ v ∈ blocks, P v := by
  have member : ∀ {name w}, Json.find? name members = some w → P w :=
    fun here => inherited.found holds here
  unfold topBlocks at listed
  split at listed
  · cases listed
    exact List.forall_mem_nil _
  · cases listed
    exact List.forall_mem_nil _
  · rename_i here
    cases listed
    exact inherited.item (member here)
  · rename_i inner here
    split at listed
    · cases listed
      exact List.forall_mem_nil _
    · cases listed
      exact List.forall_mem_nil _
    · rename_i deeper
      cases listed
      exact inherited.item (inherited.found (member here) deeper)
    · cases listed
  · cases listed

theorem split_inherits {P : Json → Prop} (inherited : Json.Inherited P) {document : Json}
    {blocks : List Json} {vars : Variables} (holds : P document)
    (parts : split document = .ok (blocks, vars)) : ∀ v ∈ blocks, P v := by
  unfold split at parts
  split at parts
  · cases parts
    exact inherited.item holds
  · split at parts
    · rename_i found listed
      cases parts
      exact topBlocks_inherits inherited holds listed
    · cases parts
  · cases parts

theorem sorted_split {document : Json} {blocks : List Json} {vars : Variables}
    (sorted : document.Sorted) (parts : split document = .ok (blocks, vars)) :
    ∀ v ∈ blocks, v.Sorted :=
  split_inherits Json.sorted_inherited sorted parts

theorem sorted_preorder {v w : Json} (sorted : v.Sorted) (member : w ∈ preorder v) : w.Sorted := by
  induction size : v.size using Nat.strongRecOn generalizing v with
  | ind n ih =>
    cases read : SavedBlock.read v with
    | error f =>
      rw [preorder_of_fault read] at member
      rw [List.mem_singleton.mp member]
      exact sorted
    | ok b =>
      rw [preorder_of_read read] at member
      rcases List.mem_cons.mp member with rfl | below
      · exact sorted
      · obtain ⟨u, linked, inside⟩ := List.mem_flatMap.mp below
        have smaller : u.size < n :=
          size ▸ Nat.lt_of_le_of_lt (SavedBlock.size_linked_le linked)
            (SavedBlock.linkedSize_lt read)
        exact ih u.size smaller (SavedBlock.sorted_linked sorted read linked) inside rfl

theorem load_of_split {document : Json} {blocks : List Json} {vars : Variables}
    (parts : split document = .ok (blocks, vars)) (c : Catalogue) :
    load c document = walk c vars (blocks.map fun v => ⟨v, .root, .zero⟩) ⟨.empty, #[]⟩ := by
  rw [load, parts]

/-- A load stops exactly at the first malformed block. -/
theorem load_error_iff {document : Json} {blocks : List Json} {vars : Variables}
    (sorted : document.Sorted) (parts : split document = .ok (blocks, vars)) (c : Catalogue)
    (e : LoadError) :
    load c document = .error e ↔
      ∃ f, e = .format f ∧ (blocks.flatMap preorder).findSome? SavedBlock.fault? = some f := by
  rw [load_of_split parts, ← coming_roots blocks .zero]
  have ready :=
    ready_roots (fun v member => (sorted_split sorted parts v member).keysApart) .empty .zero
  rcases walk_of_ready c vars _ ⟨.empty, #[]⟩ ready with ⟨l, walked⟩ | ⟨f, stopped⟩
  · rw [walked, faultless_of_walk walked]
    simp
  · rw [stopped, first_fault_of_walk stopped]
    constructor
    · intro same
      cases same
      exact ⟨f, rfl, rfl⟩
    · rintro ⟨g, rfl, same⟩
      cases same
      rfl

theorem loadText_not_refused {c : Catalogue} {source : String} {e : LoadError}
    (failed : loadText c source = .error e) (refused : ConnectError) : e ≠ .connection refused := by
  unfold loadText at failed
  split at failed
  · cases failed
    exact LoadError.noConfusion
  · rename_i document parsed
    cases parts : split document with
    | error f =>
      rw [load, parts] at failed
      cases failed
      exact LoadError.noConfusion
    | ok found =>
      obtain ⟨f, rfl, _⟩ := (load_error_iff (Json.sorted_of_parse parsed) parts c e).mp failed
      exact LoadError.noConfusion

theorem forest_of_load {c : Catalogue} {document : Json} {l : Loaded}
    (loaded : load c document = .ok l) : l.workspace.Forest ∧ ParentsFirst l.workspace := by
  unfold load at loaded
  split at loaded
  · cases loaded
  · refine walk_keeps (P := fun l => l.workspace.Forest ∧ ParentsFirst l.workspace) ?_ ?_ loaded
    · rintro l p l' ⟨forest, first⟩ visited
      obtain ⟨b, read, settled⟩ := visit_cases visited
      exact ⟨settled.forest (forest.add _), parentsFirst_of_visit first visited⟩
    · refine ⟨Workspace.forest_empty, ?_⟩
      intro i p up
      simp [Workspace.parent?, Workspace.get_empty] at up

/-- A document is loaded by its nesting, from the stack as by recursion. The number of a block is
its place in the order of the nesting, whatever hangs from a block has a larger number, sockets come
in the order of their names, and a load fails exactly if some block is malformed, with the fault of
the first such block. -/
theorem loading_follows_nesting (c : Catalogue) (document : Json) :
    load c document = loadNested c document ∧
    ∀ blocks vars, split document = .ok (blocks, vars) →
      (∀ l, load c document = .ok l →
        l.workspace.size = (blocks.flatMap preorder).length ∧
        (∀ i b, l.workspace.get? i = some b → b.id = i ∧
          ∃ v s y, (blocks.flatMap preorder)[i]? = some v ∧ SavedBlock.read v = .ok s ∧
            b.toBlockContent = (content c vars s y).1) ∧
        ∀ i p, l.workspace.parent? i = some p → p.block < i) ∧
      (document.Sorted →
        (∀ v ∈ blocks.flatMap preorder, ∀ s, SavedBlock.read v = .ok s →
          s.inputs.Pairwise fun a b => a.1 < b.1) ∧
        ∀ e, load c document = .error e ↔
          ∃ f, e = .format f ∧ (blocks.flatMap preorder).findSome? SavedBlock.fault? = some f) := by
  refine ⟨load_eq_loadNested c document, fun blocks vars parts => ⟨?_, ?_⟩⟩
  · intro l loaded
    obtain ⟨forest, first⟩ := forest_of_load loaded
    rw [load_of_split parts] at loaded
    obtain ⟨size, _, added⟩ := content_of_walk loaded
    rw [coming_roots] at size added
    have start : (Workspace.empty).size = 0 := rfl
    simp only [start, Nat.zero_add] at size added
    refine ⟨size, ?_, first⟩
    intro i b found
    obtain ⟨v, here⟩ : ∃ v, (blocks.flatMap preorder)[i]? = some v := by
      have bound := Workspace.get_lt_size found
      rw [size] at bound
      exact ⟨_, List.getElem?_eq_getElem bound⟩
    obtain ⟨s, y, read, same⟩ := added i v here
    rw [Workspace.contentOf, found] at same
    exact ⟨forest.numbered i b found, v, s, y, here, read, Option.some.inj same⟩
  · intro sorted
    refine ⟨?_, load_error_iff sorted parts c⟩
    intro v member s read
    obtain ⟨top, listed, below⟩ := List.mem_flatMap.mp member
    have inside := sorted_preorder (sorted_split sorted parts top listed) below
    exact (SavedBlock.sorted_read inside read).1

def sampleDocument (count successor : Json) : Json :=
  .array [
    .object [
      ("inputs", .object [
        ("DO", .object [("block", .object [("type", .string "esp32_digital_write")])]),
        ("TIMES", .object [("shadow", count)])]),
      ("next", .object [("block", successor)]),
      ("type", .string "controls_repeat_ext")],
    .object [("type", .string "program_loop")]]

theorem sampleDocument_sorted {count successor : Json} (one : count.Sorted)
    (two : successor.Sorted) :
    (sampleDocument count successor).Sorted := by
  have typed : ∀ kind, (Json.object [("type", .string kind)]).Sorted := fun kind =>
    (Json.Sorted.string kind).single "type"
  have inputs := (typed "esp32_digital_write").single "block" |>.pair (one.single "shadow")
    (by decide : "DO" < "TIMES")
  refine Json.Sorted.array ?_
  simp only [List.forall_mem_cons]
  refine ⟨Json.Sorted.object ?_ ?_, typed _, List.forall_mem_nil _⟩
  · refine List.Pairwise.cons ?_ (List.pairwise_pair.mpr (by decide : "next" < "type"))
    simp only [List.forall_mem_cons]
    exact ⟨(by decide : "inputs" < "next"), (by decide : "inputs" < "type"), List.forall_mem_nil _⟩
  · simpa using ⟨inputs, two.single "block", Json.Sorted.string _⟩

def soundDocument : Json :=
  sampleDocument (.object [("type", .string "math_number")])
    (.object [("type", .string "esp32_delay_ms")])

theorem soundDocument_sorted : soundDocument.Sorted := by
  exact sampleDocument_sorted ((Json.Sorted.string _).single _) ((Json.Sorted.string _).single _)

/-- Of two malformed blocks the one in the socket is reported. Without them all five are loaded. -/
theorem sample_is_loaded_in_order :
    load Esp32.catalogue (sampleDocument (.ofNat 5) (.string "late")) =
      .error (.format (.block "a number")) ∧
    ∃ l, load Esp32.catalogue soundDocument = .ok l ∧ l.workspace.size = 5 := by
  refine ⟨?_, ?_⟩
  · have sorted := sampleDocument_sorted (Json.Sorted.number (.int 5)) (Json.Sorted.string "late")
    have fails := (((loading_follows_nesting Esp32.catalogue _).2 _ [] rfl).2 sorted).2
    exact (fails _).mpr ⟨_, rfl, by decide +kernel⟩
  · obtain ⟨loads, fails⟩ := (loading_follows_nesting Esp32.catalogue soundDocument).2 _ [] rfl
    cases loaded : load Esp32.catalogue soundDocument with
    | ok l => exact ⟨l, rfl, (loads l loaded).1.trans (by decide +kernel)⟩
    | error e =>
      obtain ⟨f, _, fault⟩ := ((fails soundDocument_sorted).2 e).mp loaded
      exact absurd (Option.isSome_of_eq_some fault) (by decide +kernel)

end Document
end BlockSketch
