import BlockSketch.Proofs.Sketch.Dispatch

/-
Disabled code. A disabled block hides all that hangs from it: whatever it and the blocks below it
are made into, the sketch and its reports stay the same. A generation that never enters them could
still see them from outside, for rules look at the block before their own and reports name the kinds
of others; but whoever looks at a block below the disabled one is below it as well.
-/
namespace BlockSketch
namespace Workspace

/-- The second workspace has the same blocks at the same places with the same links. Only `top` and
the blocks below it may be of another kind and have other fields and another state; those below may
also be disabled or not, as they like. -/
structure ChangedBelow (w v : Workspace) (top : BlockId) : Prop where
  size : v.size = w.size
  outside : ∀ id, ¬ w.Above top id → v.get? id = w.get? id
  inside : ∀ id b, w.Above top id → w.get? id = some b → ∃ content : BlockContent,
    content.position = b.position ∧ (id = top → content.disabled = b.disabled) ∧
      v.get? id = some { b with toBlockContent := content }

namespace ChangedBelow

variable {w v : Workspace} {top : BlockId}

theorem get_none (changed : w.ChangedBelow v top) {id : BlockId} (missing : w.get? id = none) :
    v.get? id = none := by
  have beyond : w.size ≤ id := Array.getElem?_eq_none_iff.mp missing
  rw [← changed.size] at beyond
  exact Array.getElem?_eq_none beyond

theorem get (changed : w.ChangedBelow v top) {id : BlockId} {b : Block}
    (found : w.get? id = some b) :
    ∃ content : BlockContent, content.position = b.position ∧
      v.get? id = some { b with toBlockContent := content } := by
  by_cases below : w.Above top id
  · obtain ⟨content, position, _, there⟩ := changed.inside id b below found
    exact ⟨content, position, there⟩
  · refine ⟨b.toBlockContent, rfl, ?_⟩
    rw [changed.outside id below]
    exact found

theorem parent_eq (changed : w.ChangedBelow v top) (id : BlockId) :
    v.parent? id = w.parent? id := by
  rw [parent?, parent?]
  cases found : w.get? id with
  | none => rw [changed.get_none found]
  | some b =>
    obtain ⟨content, _, there⟩ := changed.get found
    rw [there]
    rfl

theorem slot_eq (changed : w.ChangedBelow v top) (id : BlockId) (link : Link) :
    v.slot? id link = w.slot? id link := by
  rw [slot?, slot?]
  cases found : w.get? id with
  | none => rw [changed.get_none found]
  | some b =>
    obtain ⟨content, _, there⟩ := changed.get found
    rw [there]
    cases link <;> rfl

theorem heightKey_eq (changed : w.ChangedBelow v top) (id : BlockId) :
    v.heightKey id = w.heightKey id := by
  rw [heightKey, heightKey]
  cases found : w.get? id with
  | none => rw [changed.get_none found]
  | some b =>
    obtain ⟨content, position, there⟩ := changed.get found
    rw [there]
    exact congrArg (fun p : Position => p.y.orderKey) position

theorem numbered (changed : w.ChangedBelow v top) (forest : w.Forest) {id : BlockId} {c : Block}
    (there : v.get? id = some c) : c.id = id := by
  cases found : w.get? id with
  | none =>
    rw [changed.get_none found] at there
    cases there
  | some b =>
    obtain ⟨content, _, same⟩ := changed.get found
    cases there.symm.trans same
    exact forest.numbered id b found

theorem forest (changed : w.ChangedBelow v top) (forest : w.Forest) : v.Forest where
  numbered id c there := changed.numbered forest there
  linked id p := by
    rw [changed.parent_eq, changed.slot_eq]
    exact forest.linked id p
  rooted id bound := by
    rw [changed.size] at bound
    obtain ⟨r, inside, root, n, walk⟩ := forest.rooted id bound
    refine ⟨r, changed.size ▸ inside, (changed.parent_eq r).trans root, n, ?_⟩
    exact walk_mono (fun id p up => (changed.parent_eq id).trans up) walk

theorem sortedRoots_eq (changed : w.ChangedBelow v top) (forest : w.Forest) :
    v.sortedRoots = w.sortedRoots := by
  have roots : v.roots = w.roots := by
    rw [roots_eq (changed.forest forest).numbered, roots_eq forest.numbered, changed.size]
    simp only [changed.parent_eq]
  rw [sortedRoots, sortedRoots, roots]
  simp only [changed.heightKey_eq]

theorem inValuePosition_eq (changed : w.ChangedBelow v top) (id : BlockId) :
    v.inValuePosition id = w.inValuePosition id :=
  inValuePosition_congr changed.size changed.parent_eq id

/-- The block before one that is not hidden is not hidden either. -/
theorem followsHighWrite_eq (changed : w.ChangedBelow v top) (options : Options) {b : Block}
    (outside : ¬ w.Above top b.id) (pin : String) :
    Rules.followsHighWrite ⟨v, options, b⟩ pin = Rules.followsHighWrite ⟨w, options, b⟩ pin := by
  unfold Rules.followsHighWrite
  dsimp only
  rw [previous?, previous?, changed.parent_eq]
  cases up : w.parent? b.id with
  | none => rfl
  | some p =>
    have before : v.get? p.block = w.get? p.block := by
      refine changed.outside p.block fun above => outside ?_
      exact above_trans above ⟨1, Walk.up up (Walk.here p.block)⟩
    obtain ⟨block, link⟩ := p
    cases link with
    | next => simp only [Option.bind_some, before]
    | value socket => rfl
    | statement socket => rfl

end ChangedBelow

theorem changedBelow_edit {w : Workspace} {top id : BlockId} (below : w.Above top id)
    {change : BlockContent → BlockContent} (position : ∀ c, (change c).position = c.position)
    (disabled : id = top → ∀ c, (change c).disabled = c.disabled) :
    w.ChangedBelow (w.edit id change) top where
  size := size_update w id _
  outside other outside := by
    rw [edit, get_update, if_neg]
    rintro rfl
    exact outside below
  inside other b _ found := by
    rw [edit, get_update, found]
    by_cases same : id = other
    · subst same
      exact ⟨change b.toBlockContent, position _, fun here => disabled here _, if_pos rfl⟩
    · exact ⟨b.toBlockContent, rfl, fun _ => rfl, if_neg same⟩

end Workspace

namespace Rules

/-- All that a rule sees of a workspace beyond its own block is whether the block before has just
driven a pin high. -/
theorem rule_congr {w v : Workspace} {options : Options} {b : Block}
    (before : ∀ pin, followsHighWrite ⟨v, options, b⟩ pin = followsHighWrite ⟨w, options, b⟩ pin) :
    ∀ e ∈ entries, e.2 ⟨v, options, b⟩ = e.2 ⟨w, options, b⟩ := by
  have field : ∀ name, Site.field ⟨v, options, b⟩ name = Site.field ⟨w, options, b⟩ name :=
    fun _ => rfl
  simp only [entries, List.forall_mem_cons, List.not_mem_nil, false_imp_iff, implies_true, and_true,
    pinMode, digitalWrite, digitalRead, analogRead, buttonRead, highLow, relayBlink,
    delayMillis, millis, serialBegin, serialOutput, serialInput, ifRule, ifChain, growingIf,
    whileRule, whileUntil, repeatTimes, repeatFixed, flowStatement, compare, logicOperation,
    logicBoolean, negate, mathNumber, arithmetic, getVariable, setVariable, textLiteral, rawText,
    setupSection, loopSection, field, before]

end Rules

namespace Generator

structure Veiled (g h : Generator) (top : BlockId) : Prop where
  forest : g.workspace.Forest
  changed : g.workspace.ChangedBelow h.workspace top
  off : ∀ b, g.workspace.get? top = some b → b.disabled = true
  rules : g.rules = Rules.esp32
  sameRules : h.rules = g.rules
  options : h.options = g.options

/-- A generation can come to the block: it is the disabled one, or not below it. -/
def Open (g : Generator) (top id : BlockId) : Prop := id = top ∨ ¬ g.workspace.Above top id

namespace Veiled

variable {g h : Generator} {top : BlockId}

theorem enabled_top (veiled : g.Veiled h top) : g.enabled? top = none ∧ h.enabled? top = none := by
  refine ⟨enabled_none veiled.off, enabled_none fun c there => ?_⟩
  cases found : g.workspace.get? top with
  | none =>
    rw [veiled.changed.get_none found] at there
    cases there
  | some b =>
    obtain ⟨content, _, same, here⟩ :=
      veiled.changed.inside top b (g.workspace.above_refl top) found
    cases there.symm.trans here
    exact (same rfl).trans (veiled.off b found)

theorem open_child (veiled : g.Veiled h top) {id child : BlockId} {link : Link}
    (outside : ¬ g.workspace.Above top id) (held : g.workspace.slot? id link = some child) :
    g.Open top child := by
  by_cases below : g.workspace.Above top child
  · have up := (veiled.forest.linked child ⟨id, link⟩).mpr held
    rcases Workspace.above_cases below with same | ⟨p, parent, above⟩
    · exact Or.inl same.symm
    · cases up.symm.trans parent
      exact absurd above outside
  · exact Or.inr below

theorem resolve (veiled : g.Veiled h top) {b : Block}
    (opened : ∀ link child, b.child? link = some child →
      g.Open top child ∧ h.emit child = g.emit child)
    (socket : String) (min : Order) (fallback : String) (r : Run) :
    h.resolve h.emit b socket min fallback r = g.resolve g.emit b socket min fallback r := by
  unfold Generator.resolve
  cases held : b.values.get? socket with
  | none => rfl
  | some child =>
    obtain ⟨reached, same⟩ := opened (.value socket) child held
    dsimp only
    rw [same]
    rcases reached with rfl | outside
    · rw [emit_none veiled.enabled_top.1]
      simp only [Emission.empty, if_true]
    · rw [veiled.changed.outside child outside]

theorem perform {α : Type} (veiled : g.Veiled h top) {b : Block}
    (opened : ∀ link child, b.child? link = some child → g.Open top child ∧
      h.emit child = g.emit child)
    (script : Script α) (r : Run) : h.perform h.emit b script r = g.perform g.emit b script r := by
  induction script generalizing r with
  | done a => rfl
  | value socket min fallback next ih =>
    simp only [Generator.perform, veiled.resolve opened, ih]
  | body socket next ih =>
    have asked : bodyOf h.emit b socket r = bodyOf g.emit b socket r := by
      unfold bodyOf
      cases held : b.statements.get? socket with
      | none => rfl
      | some child => simp only [(opened (.statement socket) child held).2]
    simp only [Generator.perform, asked, ih]
  | read next ih => exact ih r.session r
  | write s next ih => exact ih { r with session := s }

theorem own (veiled : g.Veiled h top) {b : Block} (outside : ¬ g.workspace.Above top b.id)
    (opened : ∀ link child, b.child? link = some child → g.Open top child ∧
      h.emit child = g.emit child) :
    h.own h.emit b = g.own g.emit b := by
  funext r
  rw [Generator.own, Generator.own, veiled.sameRules, veiled.options]
  cases known : g.rules.get? b.kind with
  | none => simp only [placeholder, veiled.changed.inValuePosition_eq]
  | some rule =>
    rw [veiled.rules] at known
    have entry : (b.kind, rule) ∈ Rules.entries := SortedMap.mem_of_get?_ofList known
    have script := Rules.rule_congr (veiled.changed.followsHighWrite_eq g.options outside) _ entry
    dsimp only at script ⊢
    rw [script]
    exact veiled.perform opened _ _

theorem emit (veiled : g.Veiled h top) {id : BlockId} (reached : g.Open top id) :
    h.emit id = g.emit id := by
  induction id using veiled.forest.child_induction with
  | step id ih =>
    rcases reached with rfl | outside
    · funext r
      rw [emit_none veiled.enabled_top.1, emit_none veiled.enabled_top.2]
    · have same : h.enabled? id = g.enabled? id := by
        rw [enabled?, enabled?, veiled.changed.outside id outside]
      cases on : g.enabled? id with
      | none =>
        funext r
        rw [emit_none on, emit_none (same.trans on)]
      | some b =>
        have found := (enabled_iff.mp on).1
        have numbered := veiled.forest.numbered id b found
        have opened : ∀ link child, b.child? link = some child →
            g.Open top child ∧ h.emit child = g.emit child := by
          intro link child held
          have slot := Workspace.slot_of_child found held
          have reached := veiled.open_child outside slot
          exact ⟨reached, ih link child slot reached⟩
        have next : h.emitAt b.next = g.emitAt b.next := by
          cases follows : b.next with
          | none => rfl
          | some child => exact (opened .next child follows).2
        rw [emit_some veiled.forest on, emit_some (veiled.changed.forest veiled.forest)
          (same.trans on), next,
          veiled.own (numbered ▸ outside) opened]

theorem emitAll (veiled : g.Veiled h top) {ids : List BlockId} (reached : ∀ id ∈ ids, g.Open top id)
    (code : String) (r : Run) : h.emitAll ids code r = g.emitAll ids code r := by
  induction ids generalizing code r with
  | nil => rfl
  | cons id rest ih =>
    obtain ⟨first, later⟩ := List.forall_mem_cons.mp reached
    simp only [Generator.emitAll, veiled.emit first, ih later]

theorem emitRoots (veiled : g.Veiled h top) : h.emitRoots = g.emitRoots := by
  rw [Generator.emitRoots, Generator.emitRoots, veiled.changed.sortedRoots_eq veiled.forest]
  apply veiled.emitAll
  intro id member
  have root := ((mem_sortedRoots veiled.forest).mp member).2
  by_cases below : g.workspace.Above top id
  · rcases Workspace.above_cases below with same | ⟨p, up, _⟩
    · exact Or.inl same.symm
    · rw [root] at up
      cases up
  · exact Or.inr below

theorem generate (veiled : g.Veiled h top) : h.generate = g.generate := by
  rw [Generator.generate, Generator.generate, veiled.emitRoots,
    veiled.changed.sortedRoots_eq veiled.forest]

end Veiled

/-- Changing a disabled block and what hangs from it changes neither the code, nor the reports, nor
the number of roots. -/
theorem disabled_code_is_inert (history : List Workspace.Operation) (options : Options)
    (top : BlockId) (b : Block) (v : Workspace)
    (found : (Workspace.afterAll history).get? top = some b) (off : b.disabled = true)
    (changed : (Workspace.afterAll history).ChangedBelow v top) :
    (⟨v, Rules.esp32, options⟩ : Generator).generate =
      (⟨.afterAll history, Rules.esp32, options⟩ : Generator).generate := by
  have veiled : Veiled ⟨.afterAll history, Rules.esp32, options⟩ ⟨v, Rules.esp32, options⟩ top := by
    refine ⟨Workspace.forest_afterAll history, changed, fun c there => ?_, rfl, rfl, rfl⟩
    cases found.symm.trans there
    exact off
  exact veiled.generate

def pulseAfterDisabled : List Workspace.Operation :=
  [.add (.new "esp32_digital_write"),
    .add { BlockContent.new "esp32_relay_set" with disabled := true },
    .add (.new "esp32_relay_blink"), .connect 0 .next 1, .connect 1 .next 2]

theorem pulse_after_disabled_is_inert :
    let w := Workspace.afterAll pulseAfterDisabled
    let v := w.edit 2 fun c => { c with kind := "program_loop", disabled := !c.disabled }
    (∃ b, w.get? 1 = some b ∧ b.disabled = true) ∧ w.ChangedBelow v 1 ∧
      (⟨v, Rules.esp32, .default⟩ : Generator).generate =
        (⟨w, Rules.esp32, .default⟩ : Generator).generate := by
  intro w v
  have changed : w.ChangedBelow v 1 := by
    refine Workspace.changedBelow_edit ⟨1, Workspace.Walk.up rfl (Workspace.Walk.here 1)⟩
      (fun _ => rfl) ?_
    intro same
    cases same
  exact ⟨⟨_, rfl, rfl⟩, changed, disabled_code_is_inert pulseAfterDisabled .default 1 _ v
    rfl rfl changed⟩

end Generator
end BlockSketch
