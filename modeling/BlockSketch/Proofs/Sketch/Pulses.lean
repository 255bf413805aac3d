import BlockSketch.Proofs.Sketch.Course
import BlockSketch.Proofs.Sketch.Lines
import BlockSketch.Proofs.Sketch.Recursion

/-
Pulses that do not raise their pin. A pulse leaves out its first write if the block before it has
just written the same. The rule looks at the links of the workspace, not at the code; along a chain
the two always agree: the write is left out exactly where the line before it is that write. Such a
line changes nothing, so what the pins do is what they would do if every pulse wrote first.
-/
namespace BlockSketch

/-! What the lines do -/

inductive PinAction where
  | write (pin state : String)
  | wait (time : String)
  deriving DecidableEq, Repr

namespace PinAction

def line : PinAction → String
  | write pin state => Rules.writeLine pin state
  | wait time => Rules.delayLine time

def code (actions : List PinAction) : String := String.join (actions.map line)

abbrev Levels := String → String

/-- Executes actions one after another. Each wait is recorded with the levels at that time. -/
def execute : List PinAction → Levels → List (String × Levels) × Levels
  | [], levels => ([], levels)
  | write pin state :: rest, levels => execute rest fun p => if p = pin then state else levels p
  | wait time :: rest, levels =>
    ((time, levels) :: (execute rest levels).1, (execute rest levels).2)

theorem execute_append (first second : List PinAction) (levels : Levels) :
    execute (first ++ second) levels =
      ((execute first levels).1 ++ (execute second (execute first levels).2).1,
        (execute second (execute first levels).2).2) := by
  induction first generalizing levels with
  | nil => rfl
  | cons a rest ih =>
    cases a with
    | write pin state => exact ih _
    | wait time => simp only [List.cons_append, execute, ih]

theorem level_of_last {actions : List PinAction} {pin state : String}
    (last : actions.getLast? = some (.write pin state)) (levels : Levels) :
    (execute actions levels).2 pin = state := by
  obtain ⟨front, rfl⟩ := List.getLast?_eq_some_iff.mp last
  rw [execute_append]
  exact if_pos rfl

theorem execute_write_again {levels : Levels} {pin state : String} (same : levels pin = state)
    (rest : List PinAction) : execute (.write pin state :: rest) levels = execute rest levels := by
  have unchanged : (fun p => if p = pin then state else levels p) = levels := by
    funext p
    split
    · rename_i here
      rw [here, same]
    · rfl
  rw [execute, unchanged]

/-! Reading lines -/

def writeOf? (line : List Char) : Option PinAction := do
  let rest ← "digitalWrite(".toList.isPrefixOf? line
  let after ← ", ".toList.isPrefixOf? (rest.dropWhile (· ≠ ','))
  if after.dropWhile (· ≠ ')') = ");\n".toList then
    return .write (String.ofList (rest.takeWhile (· ≠ ',')))
      (String.ofList (after.takeWhile (· ≠ ')')))
  else none

def waitOf? (line : List Char) : Option PinAction := do
  let rest ← "delay(".toList.isPrefixOf? line
  if rest.dropWhile (· ≠ ')') = ");\n".toList then
    return .wait (String.ofList (rest.takeWhile (· ≠ ')')))
  else none

def ofLine? (line : List Char) : Option PinAction := (writeOf? line).or (waitOf? line)

def ofCode? (text : String) : Option (List PinAction) := (Text.linesOf text.toList).mapM ofLine?

structure Unmarked (text : String) : Prop where
  free : ∀ c ∈ text.toList, c ≠ '\n' ∧ c ≠ ',' ∧ c ≠ '(' ∧ c ≠ ')'

def Legible : PinAction → Prop
  | write pin state => Unmarked pin ∧ Unmarked state
  | wait time => Unmarked time

theorem stop_at {stop : Char} {text : String} (free : ∀ c ∈ text.toList, c ≠ stop)
    (rest : List Char) :
    (text.toList ++ stop :: rest).takeWhile (· ≠ stop) = text.toList ∧
      (text.toList ++ stop :: rest).dropWhile (· ≠ stop) = stop :: rest := by
  have passed : ∀ c ∈ text.toList, decide (c ≠ stop) = true :=
    fun c member => decide_eq_true (free c member)
  rw [List.takeWhile_append_of_pos passed, List.dropWhile_append_of_pos passed]
  simp

theorem toList_write (pin state : String) :
    (line (.write pin state)).toList =
    "digitalWrite(".toList ++ (pin.toList ++ ',' :: ' ' ::
      (state.toList ++ ')' :: ";\n".toList)) := by
  have parts : line (.write pin state) = "digitalWrite(" ++ pin ++ ", " ++ state ++ ");\n" := rfl
  simp only [parts, String.toList_append, List.append_assoc]
  rfl

theorem toList_wait (time : String) :
    (line (.wait time)).toList = "delay(".toList ++ (time.toList ++ ')' :: ";\n".toList) := by
  have parts : line (.wait time) = "delay(" ++ time ++ ");\n" := rfl
  simp only [parts, String.toList_append, List.append_assoc]
  rfl

theorem closing : ')' :: ";\n".toList = ");\n".toList := rfl

theorem ofLine_write {pin state : String} (first : Unmarked pin) (second : Unmarked state) :
    ofLine? (line (.write pin state)).toList = some (.write pin state) := by
  have comma :=
    stop_at (fun c member => (first.free c member).2.1)
      (' ' :: (state.toList ++ ')' :: ";\n".toList))
  have bracket := stop_at (fun c member => (second.free c member).2.2.2) ";\n".toList
  rw [toList_write, ofLine?, writeOf?]
  generalize pin.toList ++ ',' :: ' ' :: (state.toList ++ ')' :: ";\n".toList) = rest at comma
  have opened : "digitalWrite(".toList.isPrefixOf? ("digitalWrite(".toList ++ rest) = some rest :=
    rfl
  rw [opened, Option.bind_eq_bind, Option.bind_some, comma.1, comma.2]
  generalize state.toList ++ ')' :: ";\n".toList = after at bracket
  have separated : ", ".toList.isPrefixOf? (',' :: ' ' :: after) = some after := rfl
  rw [separated, Option.bind_some, bracket.1, bracket.2, if_pos closing, String.ofList_toList,
    String.ofList_toList]
  rfl

theorem ofLine_wait {time : String} (plain : Unmarked time) :
    ofLine? (line (.wait time)).toList = some (.wait time) := by
  have bracket := stop_at (fun c member => (plain.free c member).2.2.2) ";\n".toList
  rw [toList_wait, ofLine?, writeOf?, waitOf?]
  generalize time.toList ++ ')' :: ";\n".toList = rest at bracket
  have other : "digitalWrite(".toList.isPrefixOf? ("delay(".toList ++ rest) = none := rfl
  have opened : "delay(".toList.isPrefixOf? ("delay(".toList ++ rest) = some rest := rfl
  rw [other, opened, Option.bind_eq_bind, Option.bind_none, Option.bind_some, bracket.1, bracket.2,
    if_pos closing, String.ofList_toList]
  rfl

theorem ofLine_line {a : PinAction} (legible : a.Legible) : ofLine? a.line.toList = some a := by
  cases a with
  | write pin state => exact ofLine_write legible.1 legible.2
  | wait time => exact ofLine_wait legible

theorem Unmarked.one {text : String} (plain : Unmarked text) : '\n' ∉ text.toList :=
  fun member => (plain.free _ member).1 rfl

theorem line_ended {a : PinAction} (legible : a.Legible) :
    ∃ p, '\n' ∉ p ∧ a.line.toList = p ++ ['\n'] := by
  cases a with
  | write pin state =>
    refine ⟨"digitalWrite(".toList ++ pin.toList ++ ", ".toList ++ state.toList ++ ");".toList, ?_,
      ?_⟩
    · simp [legible.1.one, legible.2.one]
    · simp [toList_write]
  | wait time =>
    refine ⟨"delay(".toList ++ time.toList ++ ");".toList, ?_, ?_⟩
    · simp [Unmarked.one legible]
    · simp [toList_wait]

@[simp] theorem code_nil : code [] = "" := rfl

@[simp] theorem code_cons (a : PinAction) (rest : List PinAction) :
    code (a :: rest) = a.line ++ code rest := by
  rw [code, List.map_cons, String.join_cons, code]

theorem code_append (first second : List PinAction) :
    code (first ++ second) = code first ++ code second := by
  rw [code, List.map_append, String.join_append, code, code]

theorem ofCode_code {actions : List PinAction} (legible : ∀ a ∈ actions, a.Legible) :
    ofCode? (code actions) = some actions := by
  induction actions with
  | nil => rfl
  | cons a rest ih =>
    obtain ⟨here, later⟩ := List.forall_mem_cons.mp legible
    obtain ⟨p, one, ended⟩ := line_ended here
    have first := ofLine_line here
    have others := ih later
    rw [ofCode?] at others ⊢
    rw [ended] at first
    rw [code_cons, String.toList_append, ended, List.append_assoc, List.singleton_append,
      Text.linesOf_line one, List.mapM_cons, first, others]
    rfl

end PinAction

/-! What blocks do -/

namespace Block

def pinKinds : List String :=
  ["esp32_digital_write", "esp32_relay_set", "esp32_relay_blink", "esp32_delay_ms"]

structure PinStep (b : Block) : Prop where
  kind : b.kind ∈ pinKinds
  plain : ∀ name, PinAction.Unmarked (b.fieldText name)

def steps (b : Block) : List PinAction :=
  let pin := b.fieldText "PIN"
  if b.kind = "esp32_relay_blink" then
    [.write pin "HIGH", .wait (b.fieldText "DELAY_ON"), .write pin "LOW",
      .wait (b.fieldText "DELAY_OFF")]
  else if b.kind = "esp32_delay_ms" then [.wait (b.fieldText "DELAY")]
  else [.write pin (b.fieldText "STATE")]

/-- What a block does that leaves out a pulse's first write if asked to. -/
def stepsAfter (b : Block) (raised : Bool) : List PinAction :=
  if b.kind = "esp32_relay_blink" ∧ raised = true then b.steps.tail else b.steps

/-- Whatever it leaves out, a block ends with a high pin exactly if it is a write that sets it
so. -/
theorem last_stepsAfter {b : Block} (step : b.PinStep) (raised : Bool) (before : List PinAction)
    (pin : String) :
    (before ++ b.stepsAfter raised).getLast? = some (.write pin "HIGH") ↔
      (b.kind = "esp32_digital_write" ∨ b.kind = "esp32_relay_set") ∧ b.fieldText "PIN" = pin ∧
        b.fieldText "STATE" = "HIGH" := by
  have kind := step.kind
  simp only [pinKinds, List.mem_cons, List.not_mem_nil, or_false] at kind
  rw [List.getLast?_append]
  rcases kind with kind | kind | kind | kind
  · simp [stepsAfter, steps, kind]
  · simp [stepsAfter, steps, kind]
  · cases raised <;> simp [stepsAfter, steps, kind]
  · simp [stepsAfter, steps, kind]

theorem legible_steps {b : Block} (step : b.PinStep) : ∀ a ∈ b.steps, a.Legible := by
  have high : PinAction.Unmarked "HIGH" := ⟨by simp⟩
  have low : PinAction.Unmarked "LOW" := ⟨by simp⟩
  have plain := step.plain
  unfold steps
  dsimp only
  split
  · simp [PinAction.Legible, high, low, plain]
  · split <;> simp [PinAction.Legible, plain]

end Block

namespace Generator

variable {g : Generator}

def raised (g : Generator) (b : Block) : Bool :=
  Rules.followsHighWrite ⟨g.workspace, g.options, b⟩ (b.fieldText "PIN")

theorem own_entry (rules : g.rules = Rules.esp32) {visit : Visit} {b : Block} {rule : Rule}
    (entry : (b.kind, rule) ∈ Rules.entries) (r : Run) :
    g.own visit b r = g.perform visit b (rule ⟨g.workspace, g.options, b⟩) (r.dispatch b.id) := by
  rw [own, rules, Rules.esp32_get entry]

theorem own_pinStep (rules : g.rules = Rules.esp32) (visit : Visit) {b : Block} (step : b.PinStep)
    (r : Run) :
    ∃ r', g.own visit b r = (.statement (PinAction.code (b.stepsAfter (g.raised b))), r') ∧
      r'.dispatched = r.dispatched.push b.id := by
  have kind := step.kind
  simp only [Block.pinKinds, List.mem_cons, List.not_mem_nil, or_false, ← or_assoc] at kind
  rcases kind with (write | pulse) | wait
  · have entry : (b.kind, Rules.digitalWrite) ∈ Rules.entries := by
      rcases write with kind | kind <;> simp [kind, Rules.entries]
    have text : PinAction.code (b.stepsAfter (g.raised b)) =
        Rules.writeLine (b.fieldText "PIN") (b.fieldText "STATE") := by
      rcases write with kind | kind <;> simp [Block.stepsAfter, Block.steps, kind, PinAction.line]
    rw [own_entry rules entry, text]
    exact ⟨_, rfl, rfl⟩
  · have entry : (b.kind, Rules.relayBlink) ∈ Rules.entries := by simp [pulse, Rules.entries]
    have text : PinAction.code (b.stepsAfter (g.raised b)) =
        (if g.raised b then "" else Rules.writeLine (b.fieldText "PIN") "HIGH") ++
          Rules.delayLine (b.fieldText "DELAY_ON") ++ Rules.writeLine (b.fieldText "PIN") "LOW" ++
          Rules.delayLine (b.fieldText "DELAY_OFF") := by
      cases g.raised b <;> simp [Block.stepsAfter, Block.steps, pulse, PinAction.line,
        String.append_assoc]
    rw [own_entry rules entry, text]
    exact ⟨_, rfl, rfl⟩
  · have entry : (b.kind, Rules.delayMillis) ∈ Rules.entries := by simp [wait, Rules.entries]
    have text : PinAction.code (b.stepsAfter (g.raised b)) =
        Rules.delayLine (b.fieldText "DELAY") := by
      simp [Block.stepsAfter, Block.steps, wait, PinAction.line]
    rw [own_entry rules entry, text]
    exact ⟨_, rfl, rfl⟩

/-! Along a chain -/

/-- What the rule sees of the block before this one agrees with the action before it. -/
def Informed (g : Generator) (before : List PinAction) (b : Block) : Prop :=
  g.raised b = true ↔ before.getLast? = some (.write (b.fieldText "PIN") "HIGH")

theorem informed_head (forest : g.workspace.Forest) {id : BlockId} {b : Block}
    (found : g.workspace.get? id = some b) (first : g.workspace.previous? id = none) :
    g.Informed [] b := by
  simp [Informed, raised, Rules.followsHighWrite, forest.numbered id b found, first]

theorem informed_next (forest : g.workspace.Forest) {id successor : BlockId} {b c : Block}
    (on : g.enabled? id = some b) (step : b.PinStep) (next : b.next = some successor)
    (found : g.workspace.get? successor = some c) (raised : Bool) (before : List PinAction) :
    g.Informed (before ++ b.stepsAfter raised) c := by
  obtain ⟨here, enabled⟩ := enabled_iff.mp on
  have up : g.workspace.parent? successor = some ⟨id, .next⟩ :=
    (forest.linked successor ⟨id, .next⟩).mpr (Workspace.slot_of_child here next)
  have previous : g.workspace.previous? c.id = some id := by
    rw [forest.numbered successor c found, Workspace.previous?, up]
  rw [Informed, Block.last_stepsAfter step]
  simp [Generator.raised, Rules.followsHighWrite, previous, here, enabled, and_assoc]

/-- What blocks do one after another, after what was done before them. A pulse leaves out its first
write exactly if that is what was done last. -/
inductive Pulsed : List PinAction → List Block → List PinAction → Prop where
  | nil (before : List PinAction) : Pulsed before [] []
  | whole {before actions : List PinAction} {b : Block} {rest : List Block}
      (needed : b.kind = "esp32_relay_blink" →
        before.getLast? ≠ some (.write (b.fieldText "PIN") "HIGH"))
      (later : Pulsed (before ++ b.steps) rest actions) :
      Pulsed before (b :: rest) (b.steps ++ actions)
  | shortened {before actions : List PinAction} {b : Block} {rest : List Block}
      (pulse : b.kind = "esp32_relay_blink")
      (high : before.getLast? = some (.write (b.fieldText "PIN") "HIGH"))
      (later : Pulsed (before ++ b.steps.tail) rest actions) :
      Pulsed before (b :: rest) (b.steps.tail ++ actions)

theorem Pulsed.unique {before actions others : List PinAction} {bs : List Block}
    (first : Pulsed before bs actions) (second : Pulsed before bs others) : actions = others := by
  induction first generalizing others with
  | nil before =>
    cases second
    rfl
  | whole needed later ih =>
    cases second with
    | whole _ after => rw [ih after]
    | shortened pulse high after => exact absurd high (needed pulse)
  | shortened pulse high later ih =>
    cases second with
    | whole needed after => exact absurd high (needed pulse)
    | shortened _ _ after => rw [ih after]

theorem Pulsed.cons {before actions : List PinAction} {b : Block} {rest : List Block}
    (informed : g.Informed before b)
    (later : Pulsed (before ++ b.stepsAfter (g.raised b)) rest actions) :
    Pulsed before (b :: rest) (b.stepsAfter (g.raised b) ++ actions) := by
  unfold Block.stepsAfter at later ⊢
  split at later
  · rename_i left
    rw [if_pos left]
    exact Pulsed.shortened left.1 (informed.mp left.2) later
  · rename_i left
    rw [if_neg left]
    exact Pulsed.whole (fun pulse high => left ⟨pulse, informed.mpr high⟩) later

/-- Actions that leave a pin high leave a pulse on it nothing to raise. -/
theorem execute_tail {before : List PinAction} {b : Block} (pulse : b.kind = "esp32_relay_blink")
    (high : before.getLast? = some (.write (b.fieldText "PIN") "HIGH")) (start : PinAction.Levels) :
    PinAction.execute b.steps.tail (PinAction.execute before start).2 =
      PinAction.execute b.steps (PinAction.execute before start).2 := by
  have first : b.steps = .write (b.fieldText "PIN") "HIGH" :: b.steps.tail := by
    simp [Block.steps, pulse]
  rw [first]
  exact (PinAction.execute_write_again (PinAction.level_of_last high start) _).symm

theorem Pulsed.execute_eq {before actions : List PinAction} {bs : List Block}
    (pulsed : Pulsed before bs actions) (start : PinAction.Levels) :
    PinAction.execute actions (PinAction.execute before start).2 =
      PinAction.execute (bs.flatMap Block.steps) (PinAction.execute before start).2 := by
  induction pulsed with
  | nil before => rfl
  | whole needed later ih =>
    simp only [PinAction.execute_append] at ih
    rw [List.flatMap_cons, PinAction.execute_append, PinAction.execute_append, ih]
  | shortened pulse high later ih =>
    simp only [PinAction.execute_append, execute_tail pulse high] at ih
    rw [List.flatMap_cons, PinAction.execute_append, PinAction.execute_append,
      execute_tail pulse high, ih]

theorem Pulsed.subset {before actions : List PinAction} {bs : List Block}
    (pulsed : Pulsed before bs actions) : actions ⊆ bs.flatMap Block.steps := by
  induction pulsed with
  | nil before => exact List.Subset.refl _
  | whole needed later ih =>
    rw [List.flatMap_cons]
    exact List.append_subset.mpr
      ⟨List.subset_append_left _ _, fun a member => List.mem_append_right _ (ih member)⟩
  | shortened pulse high later ih =>
    rw [List.flatMap_cons]
    exact List.append_subset.mpr
      ⟨fun a member => List.mem_append_left _ (List.mem_of_mem_tail member),
        fun a member => List.mem_append_right _ (ih member)⟩

def running (g : Generator) (head : Option BlockId) : List Block :=
  (g.workspace.chain head).takeWhile (!·.disabled)

theorem running_none (g : Generator) : g.running none = [] := by
  rw [running, Workspace.chain, Workspace.chainWithin_none]
  rfl

theorem running_off (forest : g.workspace.Forest) {id : BlockId} (off : g.enabled? id = none) :
    g.running (some id) = [] := by
  unfold running
  cases found : g.workspace.get? id with
  | none =>
    rw [Workspace.chain, Workspace.chainWithin_missing found]
    rfl
  | some b =>
    cases disabled : b.disabled with
    | true => rw [forest.chain_some found, List.takeWhile_cons_of_neg (by simp [disabled])]
    | false =>
      have on : g.enabled? id = some b := enabled_iff.mpr ⟨found, disabled⟩
      rw [off] at on
      cases on

theorem running_on (forest : g.workspace.Forest) {id : BlockId} {b : Block}
    (on : g.enabled? id = some b) : g.running (some id) = b :: g.running b.next := by
  obtain ⟨found, enabled⟩ := enabled_iff.mp on
  rw [running, forest.chain_some found, List.takeWhile_cons_of_pos (by simp [enabled]), running]

structure Pulses (g : Generator) (head : Option BlockId) (before : List PinAction) (r : Run)
    (actions : List PinAction) (r' : Run) : Prop where
  emission : g.emitAt head r = (.statement (PinAction.code actions), r')
  dispatched : r'.dispatched.toList = r.dispatched.toList ++ (g.running head).map (·.id)
  pulsed : Pulsed before (g.running head) actions

theorem pulses_nothing {head : Option BlockId} {r : Run} (nothing : g.running head = [])
    (emission : g.emitAt head r = (.empty, r)) (before : List PinAction) :
    g.Pulses head before r [] r := by
  refine ⟨emission, ?_, ?_⟩
  · rw [nothing]
    exact (List.append_nil _).symm
  · rw [nothing]
    exact Pulsed.nil before

theorem exists_pulses (forest : g.workspace.Forest) (rules : g.rules = Rules.esp32) (id : BlockId)
    (steps : ∀ b ∈ g.workspace.chain (some id), b.PinStep) (before : List PinAction)
    (informed : ∀ b, g.workspace.get? id = some b → g.Informed before b) (r : Run) :
    ∃ actions r', g.Pulses (some id) before r actions r' := by
  -- The successor is informed of what this block does; the actions before it grow along the chain.
  induction id using forest.child_induction generalizing before r with
  | step id ih =>
    cases on : g.enabled? id with
    | none => exact ⟨[], r, pulses_nothing (running_off forest on) (emit_none on r) before⟩
    | some b =>
      have found := (enabled_iff.mp on).1
      rw [forest.chain_some found, List.forall_mem_cons] at steps
      obtain ⟨r₁, own, pushed⟩ := own_pinStep rules g.emit steps.1 r
      have later :
          ∃ actions r', g.Pulses b.next (before ++ b.stepsAfter (g.raised b)) r₁ actions r' := by
        cases next : b.next with
        | none => exact ⟨[], r₁, pulses_nothing g.running_none rfl _⟩
        | some successor =>
          have further := steps.2
          rw [next] at further
          exact ih .next successor (Workspace.slot_of_child found next) further _
            (fun c there => informed_next forest on steps.1 next there _ before) r₁
      obtain ⟨actions, r', rest⟩ := later
      refine ⟨b.stepsAfter (g.raised b) ++ actions, r', ?_, ?_, ?_⟩
      · rw [PinAction.code_append]
        have whole := emit_of_statement forest on own
        rw [rest.emission] at whole
        exact whole
      · rw [rest.dispatched, pushed, running_on forest on]
        simp
      · rw [running_on forest on]
        exact Pulsed.cons (informed b found) rest.pulsed

theorem legible_running {head : Option BlockId} (steps : ∀ b ∈ g.workspace.chain head, b.PinStep) :
    ∀ a ∈ (g.running head).flatMap Block.steps, a.Legible := by
  intro a member
  obtain ⟨b, listed, step⟩ := List.mem_flatMap.mp member
  exact Block.legible_steps (steps b (List.takeWhile_subset _ listed)) a step

/-- A chain of writes, pulses and waits, emitted from its first block. Its code can be read back
line by line; it does what its blocks do up to the first disabled one, where a pulse leaves out its
first write exactly if the line before it is that write. At every wait and at the end all pins have
the levels that they would have if every pulse wrote first. -/
theorem pulses_keep_all_levels (history : List Workspace.Operation) (options : Options)
    (head : BlockId)
    (r : Run) :
    let g : Generator := ⟨.afterAll history, Rules.esp32, options⟩
    g.workspace.previous? head = none → (∀ b ∈ g.workspace.chain (some head), b.PinStep) →
      let run := (g.workspace.chain (some head)).takeWhile (!·.disabled)
      let full := PinAction.code (run.flatMap Block.steps)
      ∃ text actions, (g.emit head r).1 = .statement text ∧
        (g.emit head r).2.dispatched.toList = r.dispatched.toList ++ run.map (·.id) ∧
        PinAction.ofCode? text = some actions ∧ text = PinAction.code actions ∧
          Pulsed [] run actions ∧
        PinAction.ofCode? full = some (run.flatMap Block.steps) ∧
        ∀ levels, PinAction.execute actions levels =
          PinAction.execute (run.flatMap Block.steps) levels := by
  intro g first steps run full
  have forest : g.workspace.Forest := Workspace.forest_afterAll history
  have rules : g.rules = Rules.esp32 := rfl
  obtain ⟨actions, r', emission, dispatched, pulsed⟩ :=
    exists_pulses forest rules head steps [] (fun b found => informed_head forest found first) r
  have legible : ∀ a ∈ run.flatMap Block.steps, a.Legible := legible_running steps
  have whole : g.emit head r = (.statement (PinAction.code actions), r') := emission
  refine ⟨PinAction.code actions, actions, ?_, ?_, ?_, rfl, pulsed, ?_, ?_⟩
  · rw [whole]
  · rw [whole]
    exact dispatched
  · exact PinAction.ofCode_code fun a member => legible a (pulsed.subset member)
  · exact PinAction.ofCode_code legible
  · exact pulsed.execute_eq

def pulseBlocks : List Workspace.Operation :=
  let pulse :=
    ((BlockContent.new "esp32_relay_blink").setField "PIN" (.text "5")).setField "DELAY_ON"
      (.text "100")
  [.add (((BlockContent.new "esp32_digital_write").setField "PIN" (.text "5")).setField "STATE"
    (.text "HIGH")),
    .add (pulse.setField "DELAY_OFF" (.text "200")),
    .add (pulse.setField "DELAY_OFF" (.text "300")),
    .add { BlockContent.new "esp32_delay_ms" with disabled := true },
    .add (pulse.setField "DELAY_OFF" (.text "400")), .connect 0 .next 1, .connect 1 .next 2,
    .connect 2 .next 3, .connect 3 .next 4]

theorem pulseBlocks_pinStep {b : Block}
    (member : b ∈ (Workspace.afterAll pulseBlocks).chain (some 0)) : b.PinStep := by
  have all : ∀ b ∈ (Workspace.afterAll pulseBlocks).chain (some 0), b.kind ∈ Block.pinKinds ∧
      ∀ e ∈ b.fields.entries, e.2.asText.toList.all fun c =>
        c ≠ '\n' ∧ c ≠ ',' ∧ c ≠ '(' ∧ c ≠ ')' := by
    decide +kernel
  obtain ⟨kind, fields⟩ := all b member
  refine ⟨kind, fun name => ⟨?_⟩⟩
  unfold BlockContent.fieldText
  split
  · rename_i v held
    simpa only [List.all_eq_true, decide_eq_true_eq] using fields _ (SortedMap.mem_of_get? held)
  · simp

theorem only_the_first_pulse_is_shortened :
    let g : Generator := ⟨.afterAll pulseBlocks, Rules.esp32, .default⟩
    g.workspace.previous? 0 = none ∧ (∀ b ∈ g.workspace.chain (some 0), b.PinStep) ∧
      (g.emit 0 .new).1 = .statement ("digitalWrite(5, HIGH);\n" ++
        "delay(100);\ndigitalWrite(5, LOW);\ndelay(200);\n" ++
        "digitalWrite(5, HIGH);\ndelay(100);\ndigitalWrite(5, LOW);\ndelay(300);\n") ∧
      (g.emit 0 .new).2.dispatched.toList = [0, 1, 2] := by
  intro g
  have first : g.workspace.previous? 0 = none := rfl
  have steps : ∀ b ∈ g.workspace.chain (some 0), b.PinStep :=
    fun b member => pulseBlocks_pinStep member
  obtain ⟨text, actions, emission, dispatched, _, code, pulsed, _⟩ :=
    pulses_keep_all_levels pulseBlocks .default 0 .new first steps
  obtain ⟨a, b, c, run, write, raise, pulse, pin, shortened, whole⟩ : ∃ a b c : Block,
      (g.workspace.chain (some 0)).takeWhile (!·.disabled) = [a, b, c] ∧
        a.kind = "esp32_digital_write" ∧ a.steps = [.write "5" "HIGH"] ∧
        b.kind = "esp32_relay_blink" ∧ b.fieldText "PIN" = "5" ∧
        b.steps.tail = [.wait "100", .write "5" "LOW", .wait "200"] ∧
        c.steps = [.write "5" "HIGH", .wait "100", .write "5" "LOW", .wait "300"] :=
    ⟨_, _, _, rfl, rfl, rfl, rfl, rfl, rfl, rfl⟩
  have shape : Pulsed [] [a, b, c] (a.steps ++ (b.steps.tail ++ (c.steps ++ []))) := by
    refine .whole (by simp [write]) (.shortened pulse ?_ (.whole (fun _ => ?_) (.nil _)))
    · simp [raise, pin]
    · simp [shortened]
  rw [run] at pulsed
  refine ⟨first, steps, ?_, ?_⟩
  · rw [emission, code, pulsed.unique shape, raise, shortened, whole]
    rfl
  · rw [dispatched]
    rfl

end Generator
end BlockSketch
