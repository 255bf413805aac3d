import BlockSketch.Proofs.Document.Nesting

/-
Every connection that a load asks for is granted. Each waiting block has a free slot of an older
block to itself, and the block that comes to be attached is new and holds nothing, so no attempt is
refused and no block is looked up that does not exist. All that can stop a load is the form of the
document.
-/
namespace BlockSketch
namespace Document

variable {c : Catalogue} {vars : Variables} {blocks : List Json}

def lookups (id : BlockId) : Target → List BlockId
  | .root => []
  | .input parent _ => [parent]
  | .next prev => [prev, id]

theorem visit_of_place {l placed : Loaded} {p : Pending} {b : SavedBlock}
    (read : SavedBlock.read p.value = .ok b)
    (added : place c vars l b p.target p.height (b.y.getD p.height) = .ok placed) :
    visit c vars l p = .ok placed := by
  unfold visit
  rw [read]
  dsimp only
  rw [added]

inductive Reached (c : Catalogue) (vars : Variables) (blocks : List Json) :
    List Pending → Loaded → Prop where
  | start : Reached c vars blocks (blocks.map fun v => ⟨v, .root, .zero⟩) ⟨.empty, #[]⟩
  | round {p : Pending} {rest : List Pending} {l l' : Loaded}
      (before : Reached c vars blocks (p :: rest) l) (visited : visit c vars l p = .ok l') :
      Reached c vars blocks (successors p l.workspace.size ++ rest) l'

theorem Reached.ready {pending : List Pending} {l : Loaded}
    (reached : Reached c vars blocks pending l) (apart : ∀ v ∈ blocks, v.KeysApart) :
    Ready l.workspace pending := by
  induction reached with
  | start => exact ready_roots apart .empty .zero
  | round before visited ih => exact ih.round visited

/-- A load goes on from every state that it reaches. -/
theorem Reached.walk_eq {pending : List Pending} {l : Loaded}
    (reached : Reached c vars blocks pending l) :
    walk c vars (blocks.map fun v => ⟨v, .root, .zero⟩) ⟨.empty, #[]⟩ = walk c vars pending l := by
  induction reached with
  | start => rfl
  | round before visited ih =>
    rw [ih, walk_cons, visited]
    rfl

/-- What is looked up for a block that waits in its turn is there, and what it asks for is
granted. -/
theorem Ready.granted {l : Loaded} {p : Pending} {rest : List Pending}
    (ready : Ready l.workspace (p :: rest)) (b : SavedBlock) (content : BlockContent) :
    let w := (l.workspace.add content).2
    (∀ i ∈ lookups l.workspace.size p.target, ∃ found, w.get? i = some found) ∧
      ∀ slot, request? c w b p.target = some slot →
        w.connect slot.block slot.link l.workspace.size =
          .ok (w.attach slot.block slot.link l.workspace.size) := by
  intro w
  have free := ready.free p List.mem_cons_self
  have older : ∀ parent link, p.target = .of parent link → ∃ found, w.get? parent = some found := by
    intro parent link target
    apply Workspace.get_of_lt_size
    simp only [w, Workspace.size_add]
    exact Nat.lt_succ_of_lt (free parent link target).1
  refine ⟨?_, ?_⟩
  · intro i looked
    cases target : p.target with
    | root =>
      rw [target] at looked
      cases looked
    | input parent socket =>
      rw [target] at looked
      cases List.mem_singleton.mp looked
      exact older i (.value socket) target
    | next prev =>
      rw [target] at looked
      rcases List.mem_cons.mp looked with rfl | new
      · exact older i .next target
      · cases List.mem_singleton.mp new
        exact ⟨_, by rw [Workspace.get_add, if_pos rfl]⟩
  · intro slot asked
    obtain ⟨bound, vacant⟩ := free slot.block slot.link (request_target asked)
    exact Workspace.connect_added bound vacant

/-- A document in which no object has two members of one name is loaded, or refused for its form. On
the way every block that is looked up exists, and every connection that is asked for is made. -/
theorem no_connection_is_refused (c : Catalogue) (document : Json) (apart : document.KeysApart) :
    ((∃ l, load c document = .ok l) ∨ ∃ f, load c document = .error (.format f)) ∧
    ∀ blocks vars, split document = .ok (blocks, vars) →
      ∀ p rest l, Reached c vars blocks (p :: rest) l →
        load c document = walk c vars (p :: rest) l ∧
        ∀ b, SavedBlock.read p.value = .ok b →
          let y := b.y.getD p.height
          let w := (l.workspace.add (content c vars b y).1).2
          (∀ i ∈ lookups l.workspace.size p.target, ∃ found, w.get? i = some found) ∧
          (∀ slot, request? c w b p.target = some slot →
            ∃ v, w.connect slot.block slot.link l.workspace.size = .ok v) ∧
          ∃ placed, place c vars l b p.target p.height y = .ok placed := by
  refine ⟨?_, ?_⟩
  · cases parts : split document with
    | error f =>
      right
      exact ⟨f, by rw [load, parts]⟩
    | ok found =>
      obtain ⟨blocks, vars⟩ := found
      rw [load_of_split parts]
      exact walk_of_ready c vars _ _
        (ready_roots (split_inherits Json.keysApart_inherited apart parts) .empty .zero)
  · intro blocks vars parts p rest l reached
    have ready := reached.ready (split_inherits Json.keysApart_inherited apart parts)
    refine ⟨(load_of_split parts c).trans reached.walk_eq, ?_⟩
    intro b read y w
    obtain ⟨found, granted⟩ := ready.granted (c := c) b (content c vars b y).1
    refine ⟨found, fun slot asked => ⟨_, granted slot asked⟩, ?_⟩
    exact place_ok b p.height y (ready.free p List.mem_cons_self)

/-- Once the loop of the sample is there, its body waits for a socket of it, and gets the socket. -/
theorem body_of_sample_is_attached :
    soundDocument.KeysApart ∧
    ∃ blocks p rest l b placed, split soundDocument = .ok (blocks, []) ∧
      Reached Esp32.catalogue [] blocks (p :: rest) l ∧ p.target = .input 0 "DO" ∧
      SavedBlock.read p.value = .ok b ∧
      place Esp32.catalogue [] l b p.target p.height (b.y.getD p.height) = .ok placed := by
  have apart := soundDocument_sorted.keysApart
  obtain ⟨_, each⟩ := no_connection_is_refused Esp32.catalogue soundDocument apart
  have begun := @Reached.start Esp32.catalogue [] (soundDocument.array?.getD [])
  obtain ⟨_, _, loop, added⟩ := (each _ [] rfl _ _ _ begun).2 _ rfl
  have body := Reached.round begun (visit_of_place rfl added)
  obtain ⟨_, _, placed, attached⟩ := (each _ [] rfl _ _ _ body).2 _ rfl
  exact ⟨apart, _, _, _, _, _, placed, rfl, body, rfl, rfl, attached⟩

end Document
end BlockSketch
