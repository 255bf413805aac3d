import BlockSketch.Proofs.Sketch.Course
import BlockSketch.Proofs.Sketch.Recursion
import BlockSketch.Sketch.Assembly

/-
The order in which blocks are dispatched. Since rules ask for the same sockets whatever they are
answered, it depends on the blocks alone and not on the session: first the block, then what is in
the sockets that its rule reads, then its successor if the block gives a statement. No block comes
up twice, and those that come up are the live ones.
-/
namespace BlockSketch
namespace Generator

variable {g : Generator}

def Reads (g : Generator) (b : Block) (link : Link) : Prop :=
  ∃ rule, g.rules.get? b.kind = some rule ∧ (rule ⟨g.workspace, g.options, b⟩).Reads link

def GivesStatement (g : Generator) (b : Block) : Prop := ∀ r, (g.own g.emit b r).1.IsStatement

/-- Enabled, and a root or in a slot that a live block goes into: a socket that its rule reads, or
the place of its successor if it gives a statement. -/
inductive Live (g : Generator) : BlockId → Prop where
  | root {id : BlockId} {b : Block} (top : id ∈ g.workspace.roots) (on : g.enabled? id = some b) :
      Live g id
  | socket {id child : BlockId} {b c : Block} {link : Link} (above : Live g id)
      (found : g.workspace.get? id = some b) (reads : g.Reads b link)
      (held : b.child? link = some child) (on : g.enabled? child = some c) : Live g child
  | next {id child : BlockId} {b c : Block} (above : Live g id)
      (found : g.workspace.get? id = some b) (statement : g.GivesStatement b)
      (held : b.next = some child) (on : g.enabled? child = some c) :
      Live g child

/-! What one rule dispatches -/

theorem perform_result {α : Type} {R : Session → Session → Prop} {P : α → Prop} {script : Script α}
    {links : List Link} (course : script.Course R P links) (visit : Visit) (b : Block) (r : Run) :
    P (g.perform visit b script r).1 := by
  induction course generalizing r with
  | done result => exact result
  | value later ih => exact ih _ _
  | body later ih => exact ih _ _
  | update allowed later ih => exact ih _ _

def trace (g : Generator) (id : BlockId) : List BlockId := (g.emit id .new).2.dispatched.toList

def slotTrace (g : Generator) : Option BlockId → List BlockId
  | none => []
  | some id => g.trace id

def below (g : Generator) (b : Block) (links : List Link) : List BlockId :=
  links.flatMap fun link => g.slotTrace (b.child? link)

def Traced (g : Generator) (id : BlockId) : Prop :=
  ∀ r, (g.emit id r).2.dispatched.toList = r.dispatched.toList ++ g.trace id

theorem traced_of {id : BlockId} {ids : List BlockId}
    (same : ∀ r, (g.emit id r).2.dispatched.toList = r.dispatched.toList ++ ids) :
    g.Traced id ∧ g.trace id = ids := by
  have fresh : g.trace id = ids := same .new
  exact ⟨fun r => fresh ▸ same r, fresh⟩

theorem resolve_dispatched {b : Block}
    (traced : ∀ link child, b.child? link = some child → g.Traced child) (socket : String)
    (min : Order) (fallback : String) (r : Run) :
    (g.resolve g.emit b socket min fallback r).2.dispatched.toList =
      r.dispatched.toList ++ g.slotTrace (b.child? (.value socket)) := by
  have step := g.resolved g.emit b socket min fallback r
  generalize g.resolve g.emit b socket min fallback r = result at step ⊢
  rw [Block.child?]
  cases step with
  | vacant empty => simp [empty, slotTrace]
  | supplied held _ _ | unusable held _ | misplaced held _ _ =>
    rw [held]
    exact traced (.value socket) _ held r

theorem bodyOf_dispatched {b : Block}
    (traced : ∀ link child, b.child? link = some child → g.Traced child)
    (socket : String) (r : Run) :
    (bodyOf g.emit b socket r).2.dispatched.toList =
      r.dispatched.toList ++ g.slotTrace (b.child? (.statement socket)) := by
  unfold bodyOf
  rw [Block.child?]
  cases held : b.statements.get? socket with
  | none => simp [slotTrace]
  | some child => exact traced (.statement socket) child held r

theorem perform_dispatched {α : Type} {R : Session → Session → Prop} {P : α → Prop}
    {script : Script α} {links : List Link} (course : script.Course R P links) {b : Block}
    (traced : ∀ link child, b.child? link = some child → g.Traced child) (r : Run) :
    (g.perform g.emit b script r).2.dispatched.toList =
      r.dispatched.toList ++ g.below b links := by
  induction course generalizing r with
  | done result => simp [perform, below]
  | value later ih =>
    rw [below, List.flatMap_cons, ← below, ← List.append_assoc, ← resolve_dispatched traced, ← ih]
    rfl
  | body later ih =>
    rw [below, List.flatMap_cons, ← below, ← List.append_assoc, ← bodyOf_dispatched traced, ← ih]
    rfl
  | update allowed later ih => exact ih _ _

/-- What a block does by itself: it is dispatched, and then the sockets that its rule reads come up,
each once, in an order that is always the same. It gives a statement at any time or an expression at
any time. -/
structure Profile (g : Generator) (b : Block) (links : List Link) : Prop where
  nodup : links.Nodup
  socket : Link.next ∉ links
  reads : ∀ link, g.Reads b link ↔ link ∈ links
  sort : (∀ visit r, (g.own visit b r).1.IsStatement) ∨ ∀ visit r, (g.own visit b r).1.IsExpression
  dispatched : (∀ link child, b.child? link = some child → g.Traced child) → ∀ r,
    (g.own g.emit b r).2.dispatched.toList =
      r.dispatched.toList ++ b.id :: g.below b links

theorem profile_of_uniform {b : Block} {rule : Rule} {links : List Link}
    (found : g.rules.get? b.kind = some rule) (nodup : links.Nodup)
    (uniform : Rules.Uniform (fun _ _ => True) (rule ⟨g.workspace, g.options, b⟩) links) :
    g.Profile b links := by
  have own : ∀ visit r, g.own visit b r =
      g.perform visit b (rule ⟨g.workspace, g.options, b⟩) (r.dispatch b.id) := by
    intro visit r
    rw [Generator.own, found]
  have reads : ∀ link, (rule ⟨g.workspace, g.options, b⟩).Reads link ↔ link ∈ links :=
    fun link => uniform.elim (·.reads_iff link) (·.reads_iff link)
  refine ⟨nodup, uniform.elim (·.next_not_mem) (·.next_not_mem), ?_, ?_, ?_⟩
  · intro link
    simp [Reads, found, reads]
  · exact uniform.imp (fun course visit r => own visit r ▸ perform_result course visit b _)
      (fun course visit r => own visit r ▸ perform_result course visit b _)
  · intro traced r
    rw [own, uniform.elim (perform_dispatched · traced _) (perform_dispatched · traced _)]
    simp [Run.dispatch]

theorem profile_of_rule (rules : g.rules = Rules.esp32) (b : Block) :
    ∃ links, g.Profile b links := by
  cases found : g.rules.get? b.kind with
  | none =>
    have own : ∀ visit r, g.own visit b r = g.placeholder b (r.dispatch b.id) := by
      intro visit r
      rw [Generator.own, found]
    refine ⟨[], List.nodup_nil, List.not_mem_nil, ?_, ?_, ?_⟩
    · intro link
      simp [Reads, found]
    · cases position : g.workspace.inValuePosition b.id with
      | true =>
        refine Or.inr fun visit r => ?_
        simp [own, placeholder, position, Emission.IsExpression]
      | false =>
        refine Or.inl fun visit r => ?_
        simp [own, placeholder, position, Emission.IsStatement]
    · intro _ r
      rw [own, placeholder]
      split <;> simp [Run.warn, Run.dispatch, below]
  | some rule =>
    have known : Rules.esp32.get? b.kind = some rule := rules ▸ found
    obtain ⟨links, nodup, uniform⟩ := @Rules.uniform_of_get rule ⟨g.workspace, g.options, b⟩ known
    exact ⟨links, profile_of_uniform found nodup uniform⟩

def Enters (g : Generator) (b : Block) (link : Link) : Prop :=
  g.Reads b link ∨ link = .next ∧ g.GivesStatement b

theorem traced_none {id : BlockId} (off : g.enabled? id = none) :
    g.Traced id ∧ g.trace id = [] := by
  refine traced_of fun r => ?_
  rw [emit_none off, List.append_nil]

theorem emitAt_dispatched {slot : Option BlockId} (traced : ∀ id, slot = some id → g.Traced id)
    (r : Run) :
    (g.emitAt slot r).2.dispatched.toList = r.dispatched.toList ++ g.slotTrace slot := by
  cases slot with
  | none => simp [emitAt, emitSlot, slotTrace]
  | some id => exact traced id rfl r

section Block

variable {id : BlockId} {b : Block} {links : List Link}

theorem emit_dispatched_statement (forest : g.workspace.Forest) (on : g.enabled? id = some b)
    (profile : g.Profile b links) (statement : ∀ visit r, (g.own visit b r).1.IsStatement)
    (traced : ∀ link child, b.child? link = some child → g.Traced child) (r : Run) :
    (g.emit id r).2.dispatched.toList =
      r.dispatched.toList ++ b.id :: g.below b (links ++ [.next]) := by
  have before := profile.dispatched traced r
  have sort := statement g.emit r
  cases given : g.own g.emit b r with
  | mk e r' =>
    rw [given] at sort before
    cases e with
    | expression text order => exact sort.elim
    | statement text =>
      have after := emitAt_dispatched (traced .next) r'
      rw [before] at after
      rw [emit_of_statement forest on given]
      simpa [below, Block.child?] using after

theorem emit_dispatched_expression (forest : g.workspace.Forest) (on : g.enabled? id = some b)
    (profile : g.Profile b links) (expression : ∀ visit r, (g.own visit b r).1.IsExpression)
    (traced : ∀ link child, b.child? link = some child → g.Traced child) (r : Run) :
    (g.emit id r).2.dispatched.toList = r.dispatched.toList ++ b.id :: g.below b links := by
  have before := profile.dispatched traced r
  have sort := expression g.emit r
  cases given : g.own g.emit b r with
  | mk e r' =>
    rw [given] at sort before
    cases e with
    | statement text => exact sort.elim
    | expression text order =>
      rw [emit_of_expression forest on given]
      exact before

/-- The block is dispatched, and then what is in the slots that its code goes into. -/
theorem traced_some (forest : g.workspace.Forest) (rules : g.rules = Rules.esp32)
    (on : g.enabled? id = some b)
    (traced : ∀ link child, b.child? link = some child → g.Traced child) :
    g.Traced id ∧ ∃ links : List Link, links.Nodup ∧ (∀ link, link ∈ links ↔ g.Enters b link) ∧
      g.trace id = b.id :: g.below b links := by
  obtain ⟨links, profile⟩ := profile_of_rule rules b
  rcases profile.sort with statement | expression
  · obtain ⟨always, now⟩ := traced_of (emit_dispatched_statement forest on profile statement traced)
    refine ⟨always, links ++ [.next], ?_, ?_, now⟩
    · rw [List.nodup_append]
      refine ⟨profile.nodup, List.pairwise_singleton _ _, ?_⟩
      intro link member other last clash
      rw [clash, List.mem_singleton.mp last] at member
      exact profile.socket member
    · intro link
      have gives : g.GivesStatement b := statement g.emit
      simp [Enters, profile.reads, gives]
  · obtain ⟨always, now⟩ :=
      traced_of (emit_dispatched_expression forest on profile expression traced)
    refine ⟨always, links, profile.nodup, ?_, now⟩
    intro link
    have gives : ¬ g.GivesStatement b :=
      fun gives => Emission.not_both (gives .new) (expression g.emit .new)
    simp [Enters, profile.reads, gives]

end Block

/-! Whole runs -/

theorem traced (forest : g.workspace.Forest) (rules : g.rules = Rules.esp32) (id : BlockId) :
    g.Traced id := by
  induction id using forest.child_induction with
  | step id ih =>
    cases on : g.enabled? id with
    | none => exact (traced_none on).1
    | some b =>
      have found := (enabled_iff.mp on).1
      refine (traced_some forest rules on ?_).1
      intro link child held
      exact ih link child (Workspace.slot_of_child found held)

theorem trace_law (forest : g.workspace.Forest) (rules : g.rules = Rules.esp32) {id : BlockId}
    {b : Block} (on : g.enabled? id = some b) :
    ∃ links : List Link, links.Nodup ∧ (∀ link, link ∈ links ↔ g.Enters b link) ∧
      g.trace id = id :: g.below b links := by
  obtain ⟨_, links, nodup, enters, law⟩ :=
    traced_some forest rules on fun _ child _ => traced forest rules child
  rw [forest.numbered id b (enabled_iff.mp on).1] at law
  exact ⟨links, nodup, enters, law⟩

theorem mem_below {b : Block} {links : List Link} {x : BlockId} (member : x ∈ g.below b links) :
    ∃ link ∈ links, ∃ child, b.child? link = some child ∧ x ∈ g.trace child := by
  obtain ⟨link, listed, inside⟩ := List.mem_flatMap.mp member
  cases held : b.child? link with
  | none =>
    rw [held] at inside
    cases inside
  | some child =>
    rw [held] at inside
    exact ⟨link, listed, child, held, inside⟩

theorem below_of_mem {b : Block} {links : List Link} {link : Link} {child x : BlockId}
    (listed : link ∈ links) (held : b.child? link = some child) (inside : x ∈ g.trace child) :
    x ∈ g.below b links := by
  refine List.mem_flatMap.mpr ⟨link, listed, ?_⟩
  rw [held]
  exact inside

theorem above_of_mem_trace (forest : g.workspace.Forest) (rules : g.rules = Rules.esp32)
    {id x : BlockId} (member : x ∈ g.trace id) : g.workspace.Above id x := by
  induction id using forest.child_induction with
  | step id ih =>
    cases on : g.enabled? id with
    | none =>
      rw [(traced_none on).2] at member
      cases member
    | some b =>
      obtain ⟨links, _, _, law⟩ := trace_law forest rules on
      rw [law] at member
      rcases List.mem_cons.mp member with rfl | inside
      · exact g.workspace.above_refl x
      · obtain ⟨link, _, child, held, deeper⟩ := mem_below inside
        have slot := Workspace.slot_of_child (enabled_iff.mp on).1 held
        exact Workspace.above_trans (Workspace.above_child forest slot) (ih link child slot deeper)

theorem trace_nodup (forest : g.workspace.Forest) (rules : g.rules = Rules.esp32) (id : BlockId) :
    (g.trace id).Nodup := by
  induction id using forest.child_induction with
  | step id ih =>
    cases on : g.enabled? id with
    | none =>
      rw [(traced_none on).2]
      exact List.nodup_nil
    | some b =>
      obtain ⟨links, nodup, _, law⟩ := trace_law forest rules on
      have slot : ∀ {link child}, b.child? link = some child →
          g.workspace.slot? id link = some child :=
        fun held => Workspace.slot_of_child (enabled_iff.mp on).1 held
      rw [law, List.nodup_cons]
      constructor
      · intro again
        obtain ⟨link, _, child, held, inside⟩ := mem_below again
        exact forest.not_below_child (slot held) (above_of_mem_trace forest rules inside)
      · rw [below, List.Nodup, List.pairwise_flatMap]
        constructor
        · intro link _
          cases held : b.child? link with
          | none => exact List.nodup_nil
          | some child => exact ih link child (slot held)
        · refine nodup.imp fun {l m} other x first y second same => ?_
          cases heldL : b.child? l with
          | none => rw [heldL] at first; cases first
          | some a =>
            cases heldM : b.child? m with
            | none => rw [heldM] at second; cases second
            | some c =>
              rw [heldL] at first
              rw [heldM, ← same] at second
              exact forest.slots_apart (slot heldL) (slot heldM) other
                (above_of_mem_trace forest rules first) (above_of_mem_trace forest rules second)

/-- What is dispatched for a block stands together wherever the block comes up. -/
theorem trace_sublist (forest : g.workspace.Forest) (rules : g.rules = Rules.esp32)
    {top id : BlockId} (member : id ∈ g.trace top) : (g.trace id).Sublist (g.trace top) := by
  induction top using forest.child_induction with
  | step top ih =>
    cases on : g.enabled? top with
    | none =>
      rw [(traced_none on).2] at member
      cases member
    | some b =>
      obtain ⟨links, _, _, law⟩ := trace_law forest rules on
      rw [law] at member
      rcases List.mem_cons.mp member with rfl | inside
      · exact List.Sublist.refl _
      · obtain ⟨link, listed, child, held, deeper⟩ := mem_below inside
        have slot := Workspace.slot_of_child (enabled_iff.mp on).1 held
        have part : (g.slotTrace (b.child? link)).Sublist (g.below b links) := by
          rw [below, List.flatMap_def]
          exact List.sublist_flatten_of_mem (List.mem_map_of_mem listed)
        rw [held] at part
        rw [law]
        exact ((ih link child slot deeper).trans part).cons top

def order (g : Generator) : List BlockId := g.workspace.sortedRoots.flatMap g.trace

theorem trace_sublist_order (forest : g.workspace.Forest) (rules : g.rules = Rules.esp32)
    {id : BlockId} (member : id ∈ g.order) : (g.trace id).Sublist g.order := by
  obtain ⟨top, listed, inside⟩ := List.mem_flatMap.mp member
  refine (trace_sublist forest rules inside).trans ?_
  rw [order, List.flatMap_def]
  exact List.sublist_flatten_of_mem (List.mem_map_of_mem listed)

theorem emitAll_dispatched (forest : g.workspace.Forest) (rules : g.rules = Rules.esp32)
    (ids : List BlockId) (code : String) (r : Run) :
    (g.emitAll ids code r).2.dispatched.toList = r.dispatched.toList ++ ids.flatMap g.trace := by
  induction ids generalizing code r with
  | nil => simp [emitAll]
  | cons id rest ih =>
    rw [List.flatMap_cons, ← List.append_assoc, ← traced forest rules id r]
    exact ih _ _

theorem emitRoots_dispatched (forest : g.workspace.Forest) (rules : g.rules = Rules.esp32) :
    g.emitRoots.2.dispatched.toList = g.order := by
  rw [emitRoots, emitAll_dispatched forest rules, Run.new]
  exact List.nil_append _

theorem mem_sortedRoots (forest : g.workspace.Forest) {id : BlockId} :
    id ∈ g.workspace.sortedRoots ↔ id < g.workspace.size ∧ g.workspace.parent? id = none :=
  Workspace.mem_sortedRoots_iff forest.numbered

theorem sortedRoots_nodup (forest : g.workspace.Forest) : g.workspace.sortedRoots.Nodup := by
  have plain : g.workspace.roots.Nodup := by
    rw [Workspace.roots_eq forest.numbered]
    exact List.nodup_range.filter _
  exact (List.mergeSort_perm g.workspace.roots _).nodup_iff.mpr plain

theorem order_nodup (forest : g.workspace.Forest) (rules : g.rules = Rules.esp32) :
    g.order.Nodup := by
  rw [order, List.Nodup, List.pairwise_flatMap]
  refine ⟨fun id _ => trace_nodup forest rules id, ?_⟩
  refine List.Pairwise.imp_of_mem ?_ (sortedRoots_nodup forest)
  intro a b memberA memberB other x first y second same
  obtain ⟨_, first⟩ := above_of_mem_trace forest rules first
  obtain ⟨_, second⟩ := above_of_mem_trace forest rules second
  rw [← same] at second
  exact other (Workspace.root_of_walks first second ((mem_sortedRoots forest).mp memberA).2
    ((mem_sortedRoots forest).mp memberB).2)

theorem self_mem_trace (forest : g.workspace.Forest) (rules : g.rules = Rules.esp32) {id : BlockId}
    {b : Block} (on : g.enabled? id = some b) : id ∈ g.trace id := by
  obtain ⟨links, _, _, law⟩ := trace_law forest rules on
  rw [law]
  exact List.mem_cons_self

theorem trace_closed (forest : g.workspace.Forest) (rules : g.rules = Rules.esp32)
    {top id child : BlockId} {b c : Block} {link : Link} (member : id ∈ g.trace top)
    (found : g.workspace.get? id = some b) (enters : g.Enters b link)
    (held : b.child? link = some child) (on : g.enabled? child = some c) : child ∈ g.trace top := by
  induction top using forest.child_induction with
  | step top ih =>
    cases active : g.enabled? top with
    | none =>
      rw [(traced_none active).2] at member
      cases member
    | some a =>
      obtain ⟨links, _, entered, law⟩ := trace_law forest rules active
      rw [law] at member ⊢
      refine List.mem_cons_of_mem _ ?_
      rcases List.mem_cons.mp member with rfl | inside
      · cases (enabled_iff.mp active).1.symm.trans found
        exact below_of_mem ((entered link).mpr enters) held (self_mem_trace forest rules on)
      · obtain ⟨first, listed, down, there, deeper⟩ := mem_below inside
        have slot := Workspace.slot_of_child (enabled_iff.mp active).1 there
        exact below_of_mem listed there (ih first down slot deeper)

theorem live_of_mem_trace (forest : g.workspace.Forest) (rules : g.rules = Rules.esp32)
    {id x : BlockId} (live : ∀ b, g.enabled? id = some b → g.Live id) (member : x ∈ g.trace id) :
    g.Live x := by
  induction id using forest.child_induction with
  | step id ih =>
    cases on : g.enabled? id with
    | none =>
      rw [(traced_none on).2] at member
      cases member
    | some b =>
      obtain ⟨links, _, entered, law⟩ := trace_law forest rules on
      rw [law] at member
      rcases List.mem_cons.mp member with rfl | inside
      · exact live b on
      · obtain ⟨link, listed, child, held, deeper⟩ := mem_below inside
        have found := (enabled_iff.mp on).1
        refine ih link child (Workspace.slot_of_child found held) (fun c active => ?_) deeper
        rcases (entered link).mp listed with reads | ⟨rfl, statement⟩
        · exact Live.socket (live b on) found reads held active
        · exact Live.next (live b on) found statement held active

/-- The live blocks are those that are dispatched. -/
theorem mem_order_iff (forest : g.workspace.Forest) (rules : g.rules = Rules.esp32) (id : BlockId) :
    id ∈ g.order ↔ g.Live id := by
  constructor
  · intro member
    obtain ⟨top, listed, inside⟩ := List.mem_flatMap.mp member
    refine live_of_mem_trace forest rules (fun b on => Live.root ?_ on) inside
    exact (Workspace.mem_roots forest.numbered).mpr ((mem_sortedRoots forest).mp listed)
  · intro live
    induction live with
    | root top on =>
      refine List.mem_flatMap.mpr ⟨_, ?_, self_mem_trace forest rules on⟩
      exact (mem_sortedRoots forest).mpr ((Workspace.mem_roots forest.numbered).mp top)
    | socket above found reads held on ih =>
      obtain ⟨top, listed, inside⟩ := List.mem_flatMap.mp ih
      exact List.mem_flatMap.mpr
        ⟨top, listed, trace_closed forest rules inside found (Or.inl reads) held on⟩
    | next above found statement held on ih =>
      obtain ⟨top, listed, inside⟩ := List.mem_flatMap.mp ih
      exact List.mem_flatMap.mpr
        ⟨top, listed, trace_closed forest rules inside found (Or.inr ⟨rfl, statement⟩) held on⟩

end Generator
end BlockSketch
