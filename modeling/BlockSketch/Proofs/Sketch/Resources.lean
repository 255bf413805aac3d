import BlockSketch.Proofs.Sketch.Lines
import BlockSketch.Proofs.Sketch.Notes
import BlockSketch.Proofs.Sketch.Placement

/-
Resources. The setup lines are those of the resources that some dispatched block configures, and the
warnings name those that some dispatched block uses and none configures. In what order the blocks
come up decides how the lines and the warnings are ordered, but not which resources are warned
about.
-/
namespace BlockSketch

/-! Keys of setup lines -/

theorem Resource.setupKey_injective {r s : Resource} (same : r.setupKey = s.setupKey) : r = s := by
  have apart : ∀ name : String, "pin_" ++ name ≠ "serial" := by
    intro name clash
    have first := congrArg (List.head? ∘ String.toList) clash
    simp at first
  cases r with
  | pin name =>
    cases s with
    | pin other => exact congrArg Resource.pin (String.append_right_inj "pin_" |>.mp same)
    | serial => exact absurd same (apart name)
  | serial =>
    cases s with
    | pin other => exact absurd same.symm (apart other)
    | serial => rfl

section Renaming

variable {α β : Type} [BEq α] [LawfulBEq α] [BEq β] [LawfulBEq β] {key : α → β}

theorem eraseDups_map_of_injective (injective : ∀ a b, key a = key b → a = b) (xs : List α) :
    (xs.map key).eraseDups = xs.eraseDups.map key := by
  induction size : xs.length using Nat.strongRecOn generalizing xs with
  | ind n ih =>
    cases xs with
    | nil => rfl
    | cons x xs =>
      have others : (xs.map key).filter (fun b => !b == key x) =
          (xs.filter fun a => !a == x).map key := by
        rw [List.filter_map]
        congr 2
        funext a
        by_cases same : a = x
        · simp [same]
        · have differ : key a ≠ key x := fun clash => same (injective a x clash)
          rw [Function.comp, beq_eq_false_iff_ne.mpr differ, beq_eq_false_iff_ne.mpr same]
      rw [List.map_cons, List.eraseDups_cons, List.eraseDups_cons, others, List.map_cons,
        ih _ (size ▸ Nat.lt_succ_of_le (List.length_filter_le _ _)) _ rfl]

theorem lookup_map_of_injective {γ : Type} (injective : ∀ a b, key a = key b → a = b)
    (calls : List (α × γ)) (a : α) :
    (calls.map fun c => (key c.1, c.2)).lookup (key a) = calls.lookup a := by
  induction calls with
  | nil => rfl
  | cons c calls ih =>
    rw [List.map_cons, List.lookup_cons, List.lookup_cons]
    by_cases same : a = c.1
    · simp [same]
    · have differ : key a ≠ key c.1 := fun clash => same (injective a c.1 clash)
      simp only [beq_eq_false_iff_ne.mpr same, beq_eq_false_iff_ne.mpr differ, ih]

end Renaming

/-! Warnings in the sketch -/

theorem Code.IsName.one_line {name : List Char} (isName : IsName name) : '\n' ∉ name := by
  obtain ⟨s, rest, rfl, first, others⟩ := isName.starts
  intro member
  rcases List.mem_cons.mp member with rfl | later
  · exact absurd first (by decide)
  · exact absurd (others '\n' later) (by decide)

def Resource.warning (r : Resource) : String :=
  "// WARNING: " ++ r.display ++ " is used but never configured; " ++ r.remedy ++ "."

theorem Resource.toList_warning (r : Resource) :
    r.warning.toList = "// WARNING:".toList ++
      (" " ++ r.display ++ " is used but never configured; " ++ r.remedy ++ ".").toList := by
  delta Resource.warning
  simp

theorem Resource.warning_one_line (r : Resource) (named : '\n' ∉ r.display.toList) :
    '\n' ∉ r.warning.toList := by
  rw [toList_warning]
  cases r <;> simpa [Resource.remedy] using named

def Text.isWarning (line : List Char) : Bool := "// WARNING:".toList.isPrefixOf line

theorem Text.isWarning_warning (r : Resource) (rest : List Char) :
    isWarning (r.warning.toList ++ rest) = true := by
  rw [isWarning, r.toList_warning, List.append_assoc]
  exact List.isPrefixOf_iff_prefix.mpr (List.prefix_append _ _)

theorem Text.isWarning_of_head {line : List Char} (other : line.head? ≠ some '/') :
    isWarning line = false := by
  cases line with
  | nil => rfl
  | cons c line =>
    have differ : ('/' == c) = false := beq_eq_false_iff_ne.mpr fun same => other (same ▸ rfl)
    simp [isWarning, List.isPrefixOf, differ]

def Text.warningsIn (text : String) : List (List Char) := (linesOf text.toList).filter isWarning

theorem Text.warningsIn_ended (text rest : String) :
    warningsIn (text ++ "\n" ++ rest) = warningsIn (text ++ "\n") ++ warningsIn rest := by
  have cut := linesOf_ended text.toList rest.toList
  rw [warningsIn, warningsIn, warningsIn, ← List.filter_append, String.toList_append,
    String.toList_append, List.append_assoc]
  exact congrArg (List.filter isWarning) cut

theorem Text.warningsIn_lines (lines : List String) (rest : String) :
    warningsIn (String.join (lines.map (· ++ "\n")) ++ rest) =
      (lines.flatMap fun line => warningsIn (line ++ "\n")) ++ warningsIn rest := by
  induction lines with
  | nil => simp [String.join]
  | cons line lines ih =>
    rw [List.map_cons, String.join_cons, String.append_assoc, warningsIn_ended, ih,
      List.flatMap_cons, List.append_assoc]

theorem Text.warningsIn_line {line : String} (one : '\n' ∉ line.toList) :
    warningsIn (line ++ "\n") = [line.toList ++ ['\n']].filter isWarning := by
  have cut : linesOf (line.toList ++ ['\n']) = [line.toList ++ ['\n']] := linesOf_line one []
  rw [warningsIn, String.toList_append]
  exact congrArg (List.filter isWarning) cut

theorem Text.Plain.no_warnings {text : String} (plain : Plain text) : warningsIn text = [] := by
  rw [warningsIn, List.filter_eq_nil_iff]
  intro line member
  rw [isWarning_of_head ((head_of_unslashed plain.unslashed).2 rfl line member)]
  exact Bool.false_ne_true

def warningSection (rs : List Resource) : String :=
  if rs.isEmpty then "" else String.join (rs.map (·.warning ++ "\n")) ++ "\n"

namespace Session

theorem warningLines_eq (s : Session) : s.warningLines = warningSection s.unconfigured := by
  have line : ∀ r : Resource,
      "// WARNING: " ++ r.display ++ " is used but never configured; " ++ r.remedy ++ ".\n" =
        r.warning ++ "\n" := by
    intro r
    delta Resource.warning
    simp only [String.append_assoc]
    rfl
  simp only [warningLines, warningSection, List.isEmpty_map, line]

theorem plain_definitionLines {s : Session} (tidy : s.Tidy) : Text.Plain s.definitionLines := by
  have lines : Text.Plain (String.join (s.definitions.lines.map (· ++ "\n"))) := by
    refine Text.plain_join fun text member => ?_
    obtain ⟨line, listed, rfl⟩ := List.mem_map.mp member
    obtain ⟨e, entry, rfl⟩ := List.mem_map.mp listed
    obtain ⟨name, isName, same⟩ := tidy.definitions e (Array.mem_toList_iff.mp entry)
    rw [same]
    refine Text.Plain.append (Text.plain_line (by simp) ?_) Text.plain_newline
    simpa using isName.one_line
  rw [definitionLines]
  cases s.definitions.isEmpty with
  | true =>
    rw [if_pos rfl]
    exact Text.plain_empty
  | false =>
    rw [if_neg Bool.false_ne_true]
    exact lines.append Text.plain_newline

theorem setupBody_split (s : Session) :
    ∃ rest, Text.Plain rest ∧
      s.setupBody = String.join ((s.setupLines.lines.map ("  " ++ ·)).map (· ++ "\n")) ++ rest := by
  have comment : Text.Plain "  // Initialize your hardware here\n" := by decide +kernel
  rw [setupBody, List.map_map]
  cases nothing : s.setupLines.isEmpty && Text.isBlank s.userInit with
  | true =>
    have empty : s.setupLines.lines = [] := by
      rw [Bool.and_eq_true] at nothing
      simpa [KeyedLines.lines, KeyedLines.isEmpty] using nothing.1
    exact ⟨_, comment, by simp [empty]⟩
  | false => exact ⟨_, Layout.plain_asLines_indent s.userInit, rfl⟩

theorem plain_loopBody (s : Session) (topLevel : String) : Text.Plain (s.loopBody topLevel) := by
  have comment : Text.Plain "  // Your main code goes here\n" := by decide +kernel
  rw [loopBody]
  cases Text.isBlank (s.loopCode topLevel) with
  | true =>
    rw [if_pos rfl]
    exact comment
  | false =>
    rw [if_neg Bool.false_ne_true]
    exact Layout.plain_asLines_indent (s.loopCode topLevel)

theorem sketch_setup (s : Session) (topLevel : String) :
    ∃ rest, Text.Plain rest ∧ s.sketch topLevel =
      header ++ "\n" ++ warningSection s.unconfigured ++ s.definitionLines ++
        "void setup() \x7b\n" ++
        String.join ((s.setupLines.lines.map ("  " ++ ·)).map (· ++ "\n")) ++ rest := by
  obtain ⟨rest, plain, split⟩ := s.setupBody_split
  have middle : Text.Plain "\x7d\n\n" := by decide +kernel
  have second : Text.Plain "void loop() \x7b\n" := by decide +kernel
  have closing : Text.Plain "\x7d\n" := by decide +kernel
  refine ⟨rest ++ "\x7d\n\n" ++ "void loop() \x7b\n" ++ s.loopBody topLevel ++ "\x7d\n", ?_, ?_⟩
  · exact (((plain.append middle).append second).append (plain_loopBody s topLevel)).append closing
  · simp only [sketch, warningLines_eq, split, String.append_assoc]

def heading : List String := ["// Generated by ESP32 Blockly IDE", "// Edit at your own risk!", ""]

theorem warningSection_split (rs : List Resource) :
    ∃ gap, Text.Plain gap ∧
      warningSection rs = String.join ((rs.map Resource.warning).map (· ++ "\n")) ++ gap := by
  rw [warningSection, List.map_map]
  cases rs with
  | nil => exact ⟨"", Text.plain_empty, rfl⟩
  | cons r rs => exact ⟨"\n", Text.plain_newline, rfl⟩

/-- A line of the sketch that says that it is a warning belongs to one, or to a setup line whose own
text breaks the line. -/
theorem warnings_of_sketch {s : Session} (tidy : s.Tidy) (topLevel : String) :
    Text.warningsIn (s.sketch topLevel) =
      (s.unconfigured.map Resource.warning ++ s.setupLines.lines.map ("  " ++ ·)).flatMap
        fun line => Text.warningsIn (line ++ "\n") := by
  obtain ⟨rest, restPlain, split⟩ := s.sketch_setup topLevel
  obtain ⟨gap, gapPlain, warnings⟩ := warningSection_split s.unconfigured
  have opening : Text.Plain "void setup() \x7b" := by decide +kernel
  have between : Text.Plain (gap ++ s.definitionLines ++ "void setup() \x7b" ++ "\n") :=
    ((gapPlain.append (plain_definitionLines tidy)).append opening).append Text.plain_newline
  have top : header ++ "\n" = String.join (heading.map (· ++ "\n")) := by decide +kernel
  have silent : (heading.flatMap fun line => Text.warningsIn (line ++ "\n")) = [] := by
    decide +kernel
  have parts : s.sketch topLevel = String.join (heading.map (· ++ "\n")) ++
      (String.join ((s.unconfigured.map Resource.warning).map (· ++ "\n")) ++
        (gap ++ s.definitionLines ++ "void setup() \x7b" ++ "\n" ++
          (String.join ((s.setupLines.lines.map ("  " ++ ·)).map (· ++ "\n")) ++ rest))) := by
    have ended : "void setup() \x7b\n" = "void setup() \x7b" ++ "\n" := by decide +kernel
    rw [split, warnings, top, ended]
    simp only [String.append_assoc]
  rw [parts, Text.warningsIn_lines, Text.warningsIn_lines, Text.warningsIn_ended,
    Text.warningsIn_lines, silent, between.no_warnings, restPlain.no_warnings, List.flatMap_append,
    List.nil_append, List.nil_append, List.append_nil]

theorem warnings_of_lines {rs : List Resource} {setup : List String}
    (named : ∀ r ∈ rs, '\n' ∉ r.display.toList) (one : ∀ line ∈ setup, '\n' ∉ line.toList) :
    ((rs.map Resource.warning ++ setup.map ("  " ++ ·)).flatMap fun line =>
      Text.warningsIn (line ++ "\n")) =
      rs.map fun r => r.warning.toList ++ ['\n'] := by
  have own : ∀ r ∈ rs, Text.warningsIn (r.warning ++ "\n") = [r.warning.toList ++ ['\n']] := by
    intro r member
    rw [Text.warningsIn_line (r.warning_one_line (named r member)), List.filter_cons,
      if_pos (Text.isWarning_warning r _), List.filter_nil]
  have none : ∀ line ∈ setup, Text.warningsIn ("  " ++ line ++ "\n") = [] := by
    intro line member
    refine (Text.Plain.append (Text.plain_line (by simp) ?_) Text.plain_newline).no_warnings
    simpa using one line member
  rw [List.flatMap_append, List.flatMap_map, List.flatMap_map, List.flatMap_eq_nil_iff.mpr none,
    List.append_nil, List.flatMap_def, List.map_congr_left own, ← List.flatMap_def,
    List.map_eq_flatMap]

end Session

/-- The texts that go into setup lines and warnings have no line breaks. -/
structure Block.OneLine (b : Block) : Prop where
  pin : '\n' ∉ (b.fieldText "PIN").toList
  mode : '\n' ∉ (b.fieldText "MODE").toList
  baud : '\n' ∉ (b.fieldText "BAUD").toList

namespace Generator

variable {g : Generator}

def dispatchedBlocks (g : Generator) : List Block := g.blocksOf g.emitRoots.2.dispatched.toList

def configurations (g : Generator) : List (Resource × String) :=
  g.dispatchedBlocks.filterMap Block.configures?

def unmet (g : Generator) : List Resource :=
  (g.dispatchedBlocks.filterMap Block.uses?).eraseDups.filter fun r =>
    !(g.configurations.map Prod.fst).contains r

theorem setupCalls_keys (g : Generator) :
    (setupCalls g.dispatchedBlocks).map Prod.fst =
      (g.configurations.map Prod.fst).map Resource.setupKey := by
  simp [setupCalls, configurations]

theorem setupLines_eq (noted : g.Noted g.emitRoots.2) :
    g.emitRoots.2.session.setupLines.lines.map some =
      (g.configurations.map Prod.fst).eraseDups.map fun r => g.configurations.reverse.lookup r := by
  have last : ∀ r : Resource, KeyedLines.lastLine (setupCalls g.dispatchedBlocks) r.setupKey =
      g.configurations.reverse.lookup r := by
    intro r
    rw [KeyedLines.lastLine, setupCalls, ← List.map_reverse]
    exact lookup_map_of_injective (fun _ _ => Resource.setupKey_injective) _ r
  rw [noted.setupLines, KeyedLines.lines_afterAll, KeyedLines.keysOf, ← dispatchedBlocks,
    setupCalls_keys, eraseDups_map_of_injective fun _ _ => Resource.setupKey_injective,
    List.map_map]
  exact List.map_congr_left fun r _ => last r

theorem unconfigured_eq (noted : g.Noted g.emitRoots.2) :
    g.emitRoots.2.session.unconfigured = g.unmet := by
  have known : ∀ r : Resource, g.emitRoots.2.session.setupLines.contains r.setupKey =
      (g.configurations.map Prod.fst).contains r := by
    intro r
    rw [Bool.eq_iff_iff, noted.setupLines, KeyedLines.contains_afterAll, List.contains_iff_mem,
      ← dispatchedBlocks, setupCalls_keys]
    constructor
    · intro listed
      obtain ⟨s, member, same⟩ := List.mem_map.mp listed
      exact Resource.setupKey_injective same ▸ member
    · exact List.mem_map_of_mem
  rw [Session.unconfigured, noted.used, ← dispatchedBlocks, unmet]
  simp only [known]

theorem mem_unmet {r : Resource} :
    r ∈ g.unmet ↔ (∃ b ∈ g.dispatchedBlocks, b.uses? = some r) ∧
      ∀ b ∈ g.dispatchedBlocks, ∀ line, b.configures? ≠ some (r, line) := by
  rw [unmet, List.mem_filter, List.mem_eraseDups, List.mem_filterMap, Bool.not_eq_true']
  refine and_congr_right fun _ => ?_
  rw [← Bool.not_eq_true, List.contains_iff_mem, configurations]
  constructor
  · intro none b member line configures
    exact none (List.mem_map_of_mem (List.mem_filterMap.mpr ⟨b, member, configures⟩))
  · intro none listed
    obtain ⟨⟨s, line⟩, found, rfl⟩ := List.mem_map.mp listed
    obtain ⟨b, member, configures⟩ := List.mem_filterMap.mp found
    exact none b member line configures

theorem unconfigured_reports (noted : g.Noted g.emitRoots.2) :
    g.generate.diagnostics.toList.filter (fun d => d.code = some Diagnostic.unconfigured) =
      g.emitRoots.2.session.unconfigured.map unconfiguredReport := by
  rw [generate_coded, noted.filter_other (by decide) (by decide),
    filter_other (fun _ => code_of_dropped) (by decide),
    filter_same (fun _ => code_of_unconfigured)]
  exact List.nil_append _

theorem mem_dispatchedBlocks {b : Block} :
    b ∈ g.dispatchedBlocks ↔ ∃ id ∈ g.emitRoots.2.dispatched.toList, g.workspace.get? id = some b :=
  List.mem_filterMap

theorem one_line_of_configures {b : Block} {r : Resource} {line : String} (one : b.OneLine)
    (configures : b.configures? = some (r, line)) : '\n' ∉ line.toList := by
  obtain ⟨pin, mode, baud⟩ := one
  unfold Block.configures? at configures
  split at configures
  · cases configures
    simp [pin, mode]
  · split at configures
    · cases configures
      simp [baud]
    · cases configures

theorem one_line_of_uses {b : Block} {r : Resource} (one : b.OneLine) (uses : b.uses? = some r) :
    '\n' ∉ r.display.toList := by
  unfold Block.uses? at uses
  split at uses
  · cases uses
    simp [Resource.display, one.pin]
  · split at uses
    · cases uses
      decide
    · cases uses

theorem mem_setupLines (noted : g.Noted g.emitRoots.2) {line : String}
    (member : line ∈ g.emitRoots.2.session.setupLines.lines) :
    ∃ b ∈ g.dispatchedBlocks, ∃ r, b.configures? = some (r, line) := by
  have given : some line ∈ g.emitRoots.2.session.setupLines.lines.map some :=
    List.mem_map_of_mem member
  rw [setupLines_eq noted] at given
  obtain ⟨r, _, last⟩ := List.mem_map.mp given
  obtain ⟨before, after, split, _⟩ := List.lookup_eq_some_iff.mp last
  have listed : (r, line) ∈ g.configurations := by
    rw [← List.mem_reverse, split]
    simp
  obtain ⟨b, member, configures⟩ := List.mem_filterMap.mp listed
  exact ⟨b, member, r, configures⟩

theorem Moved.mem_dispatchedBlocks {h : Generator} (moved : g.Moved h) (first : g.workspace.Forest)
    (second : h.workspace.Forest) {b : Block} (member : b ∈ g.dispatchedBlocks) :
    ∃ p, { b with position := p } ∈ h.dispatchedBlocks := by
  obtain ⟨id, listed, found⟩ := Generator.mem_dispatchedBlocks.mp member
  obtain ⟨p, there⟩ := moved.blocks.get found
  refine ⟨p, Generator.mem_dispatchedBlocks.mpr ⟨id, ?_, there⟩⟩
  rw [emitRoots_dispatched first moved.rules] at listed
  rw [emitRoots_dispatched second moved.symm.rules]
  exact (moved.order first second id).mpr listed

theorem Moved.unmet_of_mem {h : Generator} (moved : g.Moved h) (first : g.workspace.Forest)
    (second : h.workspace.Forest) {r : Resource} (member : r ∈ g.unmet) : r ∈ h.unmet := by
  obtain ⟨⟨b, listed, uses⟩, none⟩ := mem_unmet.mp member
  refine mem_unmet.mpr ⟨?_, ?_⟩
  · obtain ⟨p, there⟩ := moved.mem_dispatchedBlocks first second listed
    exact ⟨_, there, uses⟩
  · intro c there line configures
    obtain ⟨p, here⟩ := moved.symm.mem_dispatchedBlocks second first there
    exact none _ here line configures

/-- The setup section and the warnings name exactly what the dispatched blocks configure and use.
Cut at its line breaks, the sketch has no other line that reads as a warning, except where a field
of a setup line brings a line break with it. -/
theorem configurations_and_warnings_are_exact (history : List Workspace.Operation)
    (options : Options) :
    let g : Generator := ⟨.afterAll history, Rules.esp32, options⟩
    let session := g.emitRoots.2.session
    session.setupLines.lines.map some =
      (g.configurations.map Prod.fst).eraseDups.map (fun r => g.configurations.reverse.lookup r) ∧
    (∃ rest, Text.Plain rest ∧ g.generate.code =
      Session.header ++ "\n" ++ warningSection g.unmet ++ session.definitionLines ++
      "void setup() \x7b\n" ++
        String.join ((session.setupLines.lines.map ("  " ++ ·)).map (· ++ "\n")) ++ rest) ∧
    Text.warningsIn g.generate.code =
      ((g.unmet.map Resource.warning ++ session.setupLines.lines.map ("  " ++ ·)).flatMap
        fun line => Text.warningsIn (line ++ "\n")) ∧
    ((∀ b ∈ g.dispatchedBlocks, b.OneLine) →
      Text.warningsIn g.generate.code = g.unmet.map fun r => r.warning.toList ++ ['\n']) ∧
    g.generate.diagnostics.toList.filter (fun d => d.code = some Diagnostic.unconfigured) =
      g.unmet.map unconfiguredReport ∧
    (∀ r, r ∈ g.unmet ↔ (∃ b ∈ g.dispatchedBlocks, b.uses? = some r) ∧
      ∀ b ∈ g.dispatchedBlocks, ∀ line, b.configures? ≠ some (r, line)) ∧
    ∀ (moves : List (BlockId × Position)) (r : Resource),
      r ∈ (⟨.afterAll (history ++ moves.map Workspace.move), Rules.esp32,
        options⟩ : Generator).unmet ↔
        r ∈ g.unmet := by
  intro g session
  have forest : g.workspace.Forest := Workspace.forest_afterAll history
  have noted : g.Noted g.emitRoots.2 := noted_emitRoots forest rfl
  have unmet : session.unconfigured = g.unmet := unconfigured_eq noted
  have warnings := Session.warnings_of_sketch noted.tidy g.emitRoots.1
  rw [← generate_code] at warnings
  change Text.warningsIn g.generate.code = (session.unconfigured.map _ ++ _).flatMap _ at warnings
  rw [unmet] at warnings
  refine ⟨setupLines_eq noted, ?_, warnings, ?_, ?_, fun r => mem_unmet, ?_⟩
  · rw [generate_code, ← unmet]
    exact session.sketch_setup _
  · intro one
    rw [warnings]
    refine Session.warnings_of_lines ?_ ?_
    · intro r member
      obtain ⟨⟨b, listed, uses⟩, _⟩ := mem_unmet.mp member
      exact one_line_of_uses (one b listed) uses
    · intro line member
      obtain ⟨b, listed, r, configures⟩ := mem_setupLines noted member
      exact one_line_of_configures (one b listed) configures
  · rw [← unmet]
    exact unconfigured_reports noted
  · intro moves r
    have moved : g.Moved ⟨.afterAll (history ++ moves.map Workspace.move), Rules.esp32, options⟩ :=
      ⟨Workspace.sameBlocks_moves history moves, rfl, rfl, rfl⟩
    have after := Workspace.forest_afterAll (history ++ moves.map Workspace.move)
    exact ⟨moved.symm.unmet_of_mem after forest, moved.unmet_of_mem forest after⟩

def lateSetup : List Workspace.Operation :=
  [.add ((BlockContent.new "esp32_digital_write").setField "PIN" (.text "5")),
    .add (.new "esp32_serial_print"), .add (.new "program_setup"),
    .add ((BlockContent.new "esp32_pin_mode").setField "PIN" (.text "5")),
    .connect 0 .next 1, .connect 2 (.statement "DO") 3]

theorem lateSetup_one_line {b : Block} (member : b ∈ (Workspace.afterAll lateSetup).blocks.toList) :
    b.OneLine := by
  have all : ((Workspace.afterAll lateSetup).blocks.toList.all fun b =>
      ["PIN", "MODE", "BAUD"].all fun name => !(b.fieldText name).toList.contains '\n') = true := by
    decide
  have fields := List.all_eq_true.mp all b member
  simp only [List.all_cons, List.all_nil, Bool.and_true, Bool.and_eq_true, Bool.not_eq_true',
    List.contains_eq_mem, decide_eq_false_iff_not] at fields
  exact ⟨fields.1, fields.2.1, fields.2.2⟩

theorem lateSetup_live : (⟨.afterAll lateSetup, Rules.esp32, .default⟩ : Generator).Live 3 := by
  have rule : Rules.esp32.get? "program_setup" = some Rules.setupSection :=
    Rules.esp32_get (by simp [Rules.entries])
  have top : (⟨.afterAll lateSetup, Rules.esp32, .default⟩ : Generator).Live 2 :=
    Live.root (by decide) rfl
  exact Live.socket top rfl ⟨_, rule, Script.Reads.body rfl⟩ rfl rfl

/-- The pin is configured after it is used, in another root and inside a container. -/
theorem late_configuration_counts :
    let g : Generator := ⟨.afterAll lateSetup, Rules.esp32, .default⟩
    (∀ b ∈ g.dispatchedBlocks, b.OneLine) ∧ Resource.pin "5" ∉ g.unmet ∧
      Text.warningsIn g.generate.code = g.unmet.map fun r => r.warning.toList ++ ['\n'] := by
  intro g
  have forest : g.workspace.Forest := Workspace.forest_afterAll lateSetup
  have one : ∀ b ∈ g.dispatchedBlocks, b.OneLine := by
    intro b member
    obtain ⟨id, _, found⟩ := mem_dispatchedBlocks.mp member
    exact lateSetup_one_line (Array.mem_toList_iff.mpr (Array.mem_of_getElem? found))
  obtain ⟨_, _, _, lines, _, exact, _⟩ := configurations_and_warnings_are_exact lateSetup .default
  refine ⟨one, ?_, lines one⟩
  intro unmet
  have dispatched : 3 ∈ g.emitRoots.2.dispatched.toList := by
    rw [emitRoots_dispatched forest rfl]
    exact (mem_order_iff forest rfl 3).mpr lateSetup_live
  exact ((exact _).mp unmet).2 _ (mem_dispatchedBlocks.mpr ⟨3, dispatched, rfl⟩) _ rfl

end Generator
end BlockSketch
