import BlockSketch.Proofs.Sketch.Exposure
import BlockSketch.Proofs.Sketch.Resources

/-
Identifiers that are captured: a sketch hands one out to a variable or a counter, and in the same
sketch a rule writes it as a name of its own. That happens exactly where the fields of a block
expose a name that is also handed out.
-/
namespace BlockSketch
open Code

namespace Generator

variable {g : Generator} {b : Block} {name : String}

def handedOut (g : Generator) : List String := g.emitRoots.2.session.names.taken

/-- The rule of the block writes the name itself: the name stands in the code or in a setup line
although it does not stand in the sockets, and whatever identifiers the session hands out. -/
def Writes (g : Generator) (b : Block) (name : String) : Prop :=
  ∃ (rule : Rule) (fill : BlockId → Emission), g.rules.get? b.kind = some rule ∧
    (∀ id, Lacks name.toList (fill id).text) ∧
    ∀ r : Run, r.session.names.Sound → r.session.setupLines = .empty →
      let result := g.perform (fun id r => (fill id, r)) b (rule ⟨g.workspace, g.options, b⟩) r
      name.toList ∈ namesIn result.1.text.toList ∨
        ∃ line ∈ result.2.session.setupLines.lines, name.toList ∈ namesIn line.toList

def reserving (name : String) : Run := ⟨{ Session.new with names := .new [name] }, #[]⟩

theorem avoids_reserving (name : String) : (reserving name).session.Avoids name where
  sound := ⟨nofun, nofun, List.nodup_nil, List.nodup_nil⟩
  reserved := List.mem_singleton_self name
  users := nofun
  setup := nofun

theorem rule_of_entry (rule : Rule) (rules : g.rules = Rules.esp32) {kind : String}
    (same : b.kind = kind) (entry : (kind, rule) ∈ Rules.entries) :
    g.rules.get? b.kind = some rule := by
  rw [rules, same]
  exact Rules.esp32_get entry

theorem lacks_of_grants {e : Emission} (granted : (lacking name).Grants e) :
    Lacks name.toList e.text := by
  cases e with
  | statement code => exact granted
  | expression code order => exact granted

theorem exposed_of_raw (rules : g.rules = Rules.esp32) (raw : b.kind = "esp32_text_raw")
    (writes : g.Writes b name) : name ∈ b.exposed := by
  obtain ⟨rule, fill, known, _, written⟩ := writes
  obtain rfl : Rules.rawText = rule := by
    rw [rule_of_entry Rules.rawText rules raw (by simp [Rules.entries])] at known
    exact Option.some.inj known
  rcases written (reserving name) (avoids_reserving name).sound rfl with here | ⟨line, listed, _⟩
  · change name.toList ∈ namesIn (if b.fieldText "RAW" = "" then "\"\""
      else b.fieldText "RAW").toList at here
    split at here
    · cases here
    · rw [Block.exposed, if_neg (by rw [raw]; decide), if_neg (by rw [raw]; decide), if_pos raw]
      exact List.mem_map.mpr ⟨_, here, String.ofList_toList⟩
  · cases listed

theorem exposed_of_writes [PatternReader] [LawfulPatternReader] (rules : g.rules = Rules.esp32)
    (accepted : b.Accepted) (free : name ∉ reservedWords)
    (writes : g.Writes b name) : name ∈ b.exposed := by
  by_cases raw : b.kind = "esp32_text_raw"
  · exact exposed_of_raw rules raw writes
  · obtain ⟨rule, fill, known, filled, written⟩ := writes
    rw [rules] at known
    by_contra other
    have meets := Rules.rules_clear free _ (SortedMap.mem_of_get?_ofList known) raw
      ⟨g.workspace, g.options, b⟩ rfl accepted other
    have below : ∀ link child, b.child? link = some child →
        (lacking name).Keeps fun r => (fill child, r) := by
      intro link child _ r held
      have lacks := filled child
      refine ⟨?_, held⟩
      cases given : fill child with
      | statement code => rwa [given] at lacks
      | expression code order => rwa [given] at lacks
    obtain ⟨granted, after⟩ :=
      (lawful_lacking free).perform (g := g) below meets (avoids_reserving name)
    rcases written (reserving name) (avoids_reserving name).sound rfl with
      here | ⟨line, listed, here⟩
    · exact (lacks_of_grants granted).absent here
    · obtain ⟨e, entry, rfl⟩ := List.mem_map.mp listed
      exact (after.setup e (Array.mem_toList_iff.mp entry)).absent here

/-! Exposed names are written -/

theorem writes_pin (rules : g.rules = Rules.esp32) (kind : b.kind = "esp32_analog_read")
    (isName : IsName (b.fieldText "PIN").toList) : g.Writes b (b.fieldText "PIN") := by
  refine ⟨Rules.analogRead, fun _ => .empty, rule_of_entry _ rules kind (by simp [Rules.entries]),
    fun _ => lacks_empty, fun r _ _ => Or.inl ?_⟩
  change (b.fieldText "PIN").toList ∈ namesIn ("analogRead(" ++ b.fieldText "PIN" ++ ")").toList
  obtain ⟨one, clear⟩ := namesIn_name isName
  have opened : Apart "analogRead(".toList (b.fieldText "PIN").toList := Apart.left (by rfl)
  have closed : Apart ("analogRead(".toList ++ (b.fieldText "PIN").toList) ")".toList :=
    Apart.right (by rw [after_apart opened]; exact clear) rfl (by rfl)
  rw [String.toList_append, String.toList_append, namesIn_append closed, namesIn_append opened, one]
  simp

theorem writes_constant (rules : g.rules = Rules.esp32) (kind : b.kind = "math_number")
    (constant : name ∈ Rules.constants (b.fieldText "NUM")) : g.Writes b name := by
  refine ⟨Rules.mathNumber, fun _ => .empty, rule_of_entry _ rules kind (by simp [Rules.entries]),
    fun _ => lacks_empty, fun r _ _ => Or.inl ?_⟩
  have code :
      ((g.perform (fun _ r => (.empty, r)) b
        (Rules.mathNumber ⟨g.workspace, g.options, b⟩) r).1).text =
        (Rules.numberLiteral (b.fieldText "NUM")).1 := by
    unfold Rules.mathNumber Site.field
    generalize Rules.numberLiteral (b.fieldText "NUM") = literal
    rfl
  obtain ⟨word, text⟩ := List.mem_filter.mp constant
  rw [Bool.or_eq_true, decide_eq_true_eq, decide_eq_true_eq] at text
  simp only [code]
  simp only [List.mem_cons, List.not_mem_nil, or_false] at word
  rcases word with rfl | rfl <;> rcases text with plain | signed <;> simp only [*] <;> decide

theorem writes_raw (rules : g.rules = Rules.esp32) (kind : b.kind = "esp32_text_raw")
    (here : name.toList ∈ namesIn (b.fieldText "RAW").toList) : g.Writes b name := by
  refine ⟨Rules.rawText, fun _ => .empty, rule_of_entry _ rules kind (by simp [Rules.entries]),
    fun _ => lacks_empty, fun r _ _ => Or.inl ?_⟩
  change name.toList ∈ namesIn (if b.fieldText "RAW" = "" then "\"\"" else b.fieldText "RAW").toList
  split
  · rename_i blank
    rw [blank] at here
    cases here
  · exact here

theorem writes_of_exposed (rules : g.rules = Rules.esp32) (isName : IsName name.toList)
    (exposed : name ∈ b.exposed) : g.Writes b name := by
  unfold Block.exposed at exposed
  split at exposed
  · rename_i kind
    rw [List.mem_singleton.mp exposed] at isName ⊢
    exact writes_pin rules kind isName
  · split at exposed
    · rename_i _ kind
      exact writes_constant rules kind exposed
    · split at exposed
      · rename_i _ _ kind
        obtain ⟨word, here, rfl⟩ := List.mem_map.mp exposed
        exact writes_raw rules kind (by rwa [String.toList_ofList])
      · cases exposed

/-- If the fields of all blocks are accepted, the identifiers that are captured are exactly those
that the fields of dispatched blocks expose: names of analog pins, of numbers that are not finite,
and those in raw text. No other name that a rule writes is ever handed out. -/
theorem captured_identifiers_are_exposed [PatternReader] [LawfulPatternReader]
    (history : List Workspace.Operation) (options : Options) :
    let g : Generator := ⟨.afterAll history, Rules.esp32, options⟩
    (∀ id b, g.workspace.get? id = some b → b.Accepted) → ∀ name,
      (name ∈ g.handedOut ∧ ∃ b ∈ g.dispatchedBlocks, g.Writes b name) ↔
        (name ∈ g.handedOut ∧ ∃ b ∈ g.dispatchedBlocks, name ∈ b.exposed) := by
  intro g accepted name
  have forest : g.workspace.Forest := Workspace.forest_afterAll history
  have rules : g.rules = Rules.esp32 := rfl
  have allocated := (noted_emitRoots forest rules).tidy.names
  have given : name ∈ g.handedOut → IsName name.toList ∧ name ∉ reservedWords :=
    allocated.taken_free.2 name
  constructor
  · rintro ⟨handed, b, dispatched, writes⟩
    obtain ⟨id, _, found⟩ := mem_dispatchedBlocks.mp dispatched
    exact ⟨handed, b, dispatched, exposed_of_writes rules (accepted id b found)
      (given handed).2 writes⟩
  · rintro ⟨handed, b, dispatched, exposed⟩
    exact ⟨handed, b, dispatched, writes_of_exposed rules (given handed).1 exposed⟩

def pinVariable : List Workspace.Operation :=
  [.add ((BlockContent.new "variables_set").setField "VAR" (.text "A0")),
    .add ((BlockContent.new "esp32_analog_read").setField "PIN" (.text "A0")),
    .connect 0 (.value "VALUE") 1]

theorem pinVariable_accepted {id : BlockId} {b : Block}
    (found : (Workspace.afterAll pinVariable).get? id = some b) : b.Accepted := by
  have all : (Workspace.afterAll pinVariable).blocks.toList.all Block.checkFields = true := by
    decide +kernel
  have member : b ∈ (Workspace.afterAll pinVariable).blocks.toList :=
    Array.mem_toList_iff.mpr (Array.mem_of_getElem? found)
  exact Block.accepted_of_checkFields (List.all_eq_true.mp all b member)

theorem pinVariable_handedOut :
    "A0" ∈ (⟨.afterAll pinVariable, Rules.esp32, .default⟩ : Generator).handedOut := by
  have forest := Workspace.forest_afterAll pinVariable
  generalize given : (⟨.afterAll pinVariable, Rules.esp32, .default⟩ : Generator) = g
  have workspace : g.workspace = .afterAll pinVariable := by rw [← given]
  have rules : g.rules = Rules.esp32 := by rw [← given]
  clear given
  rw [← workspace] at forest
  obtain ⟨set, here, kind, user, socket, next⟩ : ∃ b, g.enabled? 0 = some b ∧
      b.kind = "variables_set" ∧
      b.fieldText "VAR" = "A0" ∧ b.values.get? "VALUE" = some 1 ∧ b.next = none := by
    refine ⟨_, enabled_iff.mpr ⟨by rw [workspace]; rfl, rfl⟩, rfl, rfl, rfl, rfl⟩
  obtain ⟨read, there, readKind⟩ : ∃ b, g.enabled? 1 = some b ∧ b.kind = "esp32_analog_read" := by
    exact ⟨_, enabled_iff.mpr ⟨by rw [workspace]; rfl, rfl⟩, rfl⟩
  have value : ∀ r, g.emit 1 r =
      (.expression ("analogRead(" ++ read.fieldText "PIN" ++ ")") .functionCall,
        r.dispatch read.id) := by
    intro r
    refine emit_of_expression forest there ?_
    unfold own
    rw [rule_of_entry Rules.analogRead rules readKind (by simp [Rules.entries])]
    rfl
  have asked : ∀ r, (g.resolve g.emit set "VALUE" .assignment "0" r).2.session.names =
      r.session.names := by
    intro r
    unfold resolve
    simp only [socket, value]
    split <;> rfl
  have own : (g.own g.emit set .new).2.session.names = (NameTable.default.get "A0").2 := by
    unfold own
    rw [rule_of_entry Rules.setVariable rules kind (by simp [Rules.entries])]
    change ((g.resolve g.emit set "VALUE" .assignment "0" _).2.session.names.get
      (set.fieldText "VAR")).2 = _
    have begun : (Run.new.dispatch set.id).session.names = .default := rfl
    rw [asked, begun, user]
  have roots : g.workspace.sortedRoots = [0] := by
    have all : (Workspace.afterAll pinVariable).roots = [0] := by rfl
    rw [workspace, Workspace.sortedRoots, all, List.mergeSort_singleton]
  have run : g.emitRoots.2.session.names = (NameTable.default.get "A0").2 := by
    rw [emitRoots, roots, ← own]
    change (g.emit 0 .new).2.session.names = _
    rw [emit_some forest here, next, andThen]
    cases g.own g.emit set .new with
    | mk e r => cases e <;> rfl
  rw [handedOut, run]
  decide +kernel

/-- The sketch declares `A0` and sets it to `analogRead(A0)`. -/
theorem pin_name_is_captured :
    let g : Generator := ⟨.afterAll pinVariable, Rules.esp32, .default⟩
    (∀ id b, g.workspace.get? id = some b → b.Accepted) ∧
      "A0" ∈ g.handedOut ∧ ∃ b ∈ g.dispatchedBlocks, g.Writes b "A0" := by
  intro g
  have accepted : ∀ id b, g.workspace.get? id = some b → b.Accepted :=
    fun _ _ found => pinVariable_accepted found
  have forest : g.workspace.Forest := Workspace.forest_afterAll pinVariable
  have rule : Rules.esp32.get? "variables_set" = some Rules.setVariable :=
    Rules.esp32_get (by simp [Rules.entries])
  have top : g.Live 0 := Live.root (by decide) rfl
  have live : g.Live 1 := Live.socket top rfl ⟨_, rule, Script.Reads.value rfl⟩ rfl rfl
  have dispatched : 1 ∈ g.emitRoots.2.dispatched.toList := by
    rw [emitRoots_dispatched forest rfl]
    exact (mem_order_iff forest rfl 1).mpr live
  refine ⟨accepted, (captured_identifiers_are_exposed pinVariable .default accepted "A0").mpr ?_⟩
  exact ⟨pinVariable_handedOut, _, mem_dispatchedBlocks.mpr ⟨1, dispatched, rfl⟩, by decide⟩

end Generator
end BlockSketch
