import BlockSketch.Proofs.Sketch.Dispatch
import BlockSketch.Proofs.Sketch.KeyedLines

/-
What a generation notes in its session. All that is noted of setup lines, used resources and missing
rules comes from dispatching blocks, one note for each block at the moment it is dispatched. So the
notes can be read off the list of the dispatched blocks.
-/
namespace BlockSketch

/-! What one block notes -/

namespace Session

@[simp] theorem markUsed_setupLines (s : Session) (r : Resource) :
    (s.markUsed r).setupLines = s.setupLines := by
  unfold markUsed
  split <;> rfl

@[simp] theorem markUsed_diagnostics (s : Session) (r : Resource) :
    (s.markUsed r).diagnostics = s.diagnostics := by
  unfold markUsed
  split <;> rfl

theorem tidy_new : Session.new.Tidy := by
  refine ⟨.default, fun e member => ?_⟩
  simp [Session.new, KeyedLines.empty] at member

theorem markUsed_tidy {s : Session} (tidy : s.Tidy) (r : Resource) : (s.markUsed r).Tidy := by
  unfold markUsed
  split
  · exact tidy
  · exact ⟨tidy.names, tidy.definitions⟩

@[simp] theorem configure_diagnostics (s : Session) (r : Resource) (line : String) :
    (s.configure r line).diagnostics = s.diagnostics := rfl

theorem markUsed_used {s : Session} {uses : List Resource} (used : s.used.toList = uses.eraseDups)
    (r : Resource) : (s.markUsed r).used.toList = (uses ++ [r]).eraseDups := by
  have known : s.used.contains r = true ↔ r ∈ uses := by
    rw [Array.contains_iff_mem, ← Array.mem_toList_iff, used, List.mem_eraseDups]
  rw [eraseDups_append_singleton, markUsed]
  by_cases old : r ∈ uses
  · rw [if_pos old, if_pos (known.mpr old)]
    exact used
  · rw [if_neg old, if_neg (mt known.mp old)]
    simp [used]

end Session

namespace Block

theorem note_setupLines (b : Block) (s : Session) :
    (b.note s).setupLines =
      match b.configures? with
      | some (r, line) => (s.setupLines.insert r.setupKey line).2
      | none => s.setupLines := by
  unfold note
  cases b.configures? <;> cases b.uses? <;> simp [Session.configure]

@[simp] theorem note_diagnostics (b : Block) (s : Session) :
    (b.note s).diagnostics = s.diagnostics := by
  unfold note
  cases b.configures? <;> cases b.uses? <;> simp

theorem note_sections (b : Block) (s : Session) :
    (b.note s).userInit = s.userInit ∧ (b.note s).userLoop = s.userLoop := by
  have marked : ∀ (s : Session) (r : Resource),
      (s.markUsed r).userInit = s.userInit ∧ (s.markUsed r).userLoop = s.userLoop := by
    intro s r
    unfold Session.markUsed
    split <;> exact ⟨rfl, rfl⟩
  unfold note
  cases b.configures? <;> cases b.uses? <;> simp [marked, Session.configure]

theorem note_tidy (b : Block) {s : Session} (tidy : s.Tidy) : (b.note s).Tidy := by
  unfold note
  have configured : ∀ c : Option (Resource × String), (match c with
      | some (r, line) => s.configure r line
      | none => s).Tidy := by
    intro c
    cases c with
    | none => exact tidy
    | some c => exact ⟨tidy.names, tidy.definitions⟩
  cases b.uses? with
  | none => exact configured b.configures?
  | some r => exact Session.markUsed_tidy (configured b.configures?) r

theorem note_used {s : Session} {uses : List Resource} (used : s.used.toList = uses.eraseDups)
    (b : Block) : (b.note s).used.toList = (uses ++ b.uses?.toList).eraseDups := by
  unfold note
  have configured : ∀ c : Option (Resource × String), (match c with
      | some (r, line) => s.configure r line
      | none => s).used.toList = uses.eraseDups := by
    intro c
    cases c <;> exact used
  cases b.uses? with
  | none =>
    rw [Option.toList_none, List.append_nil]
    exact configured b.configures?
  | some r => exact Session.markUsed_used (configured b.configures?) r

end Block

namespace Generator

variable {g : Generator}

def missingReport (b : Block) : Diagnostic :=
  .warning Diagnostic.missingRule (some b.id) ("block kind not implemented: " ++ b.kind)
    (some "register an emission rule for this kind") []

/-- A property of runs that lasts: it outlives the dispatch of a block with what the block notes,
and everything that leaves the notes alone. -/
structure Lasting (g : Generator) (I : Run → Prop) : Prop where
  ruled : ∀ b rule r, g.workspace.get? b.id = some b → g.rules.get? b.kind = some rule → I r →
    I ⟨b.note r.session, r.dispatched.push b.id⟩
  unruled : ∀ b r, g.workspace.get? b.id = some b → g.rules.get? b.kind = none → I r →
    I ((r.dispatch b.id).warn (missingReport b))
  changed : ∀ r s, r.session.SameMarks s → I r → I { r with session := s }
  misplaced : ∀ r d, d.code = some Diagnostic.statementInValue → I r → I (r.warn d)

section Steps

variable {I : Run → Prop} {visit : Visit} {b : Block}

theorem Lasting.resolve (lasting : g.Lasting I)
    (visits : ∀ link child, b.child? link = some child → ∀ r, I r → I (visit child r).2)
    (socket : String) (min : Order) (fallback : String) {r : Run} (before : I r) :
    I (g.resolve visit b socket min fallback r).2 := by
  have step := g.resolved visit b socket min fallback r
  generalize g.resolve visit b socket min fallback r = result at step ⊢
  cases step with
  | vacant empty => exact before
  | supplied held _ _ | unusable held _ => exact visits (.value socket) _ held r before
  | misplaced held _ code =>
    exact lasting.misplaced _ _ code (visits (.value socket) _ held r before)

theorem bodyOf_keeps
    (visits : ∀ link child, b.child? link = some child → ∀ r, I r → I (visit child r).2)
    (socket : String) {r : Run} (before : I r) : I (bodyOf visit b socket r).2 := by
  unfold bodyOf
  cases held : b.statements.get? socket with
  | none => exact before
  | some child => exact visits (.statement socket) child held r before

theorem Lasting.perform {α : Type} {P : α → Prop} {script : Script α} {links : List Link}
    (lasting : g.Lasting I) (course : script.Course Session.SameMarks P links)
    (visits : ∀ link child, b.child? link = some child → ∀ r, I r → I (visit child r).2) {r : Run}
    (before : I r) : I (g.perform visit b script r).2 := by
  induction course generalizing r with
  | done result => exact before
  | value later ih => exact ih _ (lasting.resolve visits _ _ _ before)
  | body later ih => exact ih _ (bodyOf_keeps visits _ before)
  | update allowed later ih => exact ih _ (lasting.changed _ _ (allowed r.session) before)

theorem Lasting.own (lasting : g.Lasting I) (rules : g.rules = Rules.esp32)
    (found : g.workspace.get? b.id = some b)
    (visits : ∀ link child, b.child? link = some child → ∀ r, I r → I (visit child r).2) {r : Run}
    (before : I r) : I (g.own visit b r).2 := by
  unfold Generator.own
  cases known : g.rules.get? b.kind with
  | none =>
    have reported := lasting.unruled b r found known before
    dsimp only [placeholder]
    split <;> exact reported
  | some rule =>
    have noted := lasting.ruled b rule r found known before
    rw [rules] at known
    obtain ⟨rest, links, noting, _, uniform⟩ :=
      @Rules.marks_of_get rule ⟨g.workspace, g.options, b⟩ known
    have later : ∀ {r}, I r → I (g.perform visit b rest r).2 := fun start =>
      uniform.elim (lasting.perform · visits start) (lasting.perform · visits start)
    dsimp only
    generalize rule ⟨g.workspace, g.options, b⟩ = script at noting ⊢
    cases noting with
    | nothing idle =>
      rw [idle r.session] at noted
      exact later noted
    | first => exact later noted

end Steps

theorem Lasting.emit {I : Run → Prop} (lasting : g.Lasting I) (forest : g.workspace.Forest)
    (rules : g.rules = Rules.esp32) (id : BlockId) {r : Run} (before : I r) :
    I (g.emit id r).2 := by
  have all : ∀ r, I r → I (g.emit id r).2 := by
    refine @emit_induction g forest (fun visit => ∀ r, I r → I (visit r).2)
      (fun r start => start) ?_ ?_ id
    · intro b found below r start
      exact lasting.own rules found below start
    · intro first second kept later r start
      have after := kept r start
      unfold andThen
      cases given : first r with
      | mk e r' =>
        rw [given] at after
        cases e with
        | expression text order => exact after
        | statement text => exact later r' after
  exact all r before

theorem Lasting.emitRoots {I : Run → Prop} (lasting : g.Lasting I) (forest : g.workspace.Forest)
    (rules : g.rules = Rules.esp32) (start : I .new) : I g.emitRoots.2 := by
  have all : ∀ (ids : List BlockId) (code : String) (r : Run), I r →
      I (g.emitAll ids code r).2 := by
    intro ids
    induction ids with
    | nil => exact fun code r before => before
    | cons id rest ih => exact fun code r before => ih _ _ (lasting.emit forest rules id before)
  exact all _ _ _ start

/-! The notes of a list of blocks -/

def blocksOf (g : Generator) (ids : List BlockId) : List Block := ids.filterMap g.workspace.get?

theorem blocksOf_push {r : Run} {b : Block} (found : g.workspace.get? b.id = some b) :
    g.blocksOf (r.dispatched.push b.id).toList = g.blocksOf r.dispatched.toList ++ [b] := by
  simp [blocksOf, found]

def lacksRule (g : Generator) (b : Block) : Bool := (g.rules.get? b.kind).isNone

def missingReports (ds : List Diagnostic) : List Diagnostic :=
  ds.filter fun d => d.code = some Diagnostic.missingRule

def setupCalls (bs : List Block) : List (String × String) :=
  (bs.filterMap Block.configures?).map fun c => (c.1.setupKey, c.2)

/-- The session has noted what the dispatched blocks note, in their order. -/
structure Noted (g : Generator) (r : Run) : Prop where
  setupLines : r.session.setupLines = .afterAll (setupCalls (g.blocksOf r.dispatched.toList))
  used : r.session.used.toList = ((g.blocksOf r.dispatched.toList).filterMap Block.uses?).eraseDups
  missing : missingReports r.session.diagnostics.toList =
    ((g.blocksOf r.dispatched.toList).filter g.lacksRule).map missingReport
  codes : ∀ d ∈ r.session.diagnostics,
    d.code = some Diagnostic.missingRule ∨ d.code = some Diagnostic.statementInValue
  tidy : r.session.Tidy

theorem setupCalls_append (bs : List Block) (b : Block) :
    setupCalls (bs ++ [b]) =
      setupCalls bs ++ (b.configures?.map fun c => (c.1.setupKey, c.2)).toList := by
  unfold setupCalls
  cases found : b.configures? <;> simp [found]

theorem noted_new : g.Noted .new where
  setupLines := rfl
  used := rfl
  missing := rfl
  codes d reported := by simp [Run.new, Session.new] at reported
  tidy := Session.tidy_new

theorem noted_lasting (rules : g.rules = Rules.esp32) : g.Lasting g.Noted where
  ruled b rule r found known noted := by
    have last := blocksOf_push (r := r) found
    refine ⟨?_, ?_, ?_, ?_, b.note_tidy noted.tidy⟩
    · rw [last, setupCalls_append, Block.note_setupLines, noted.setupLines]
      cases b.configures? with
      | none => simp
      | some c => simp [KeyedLines.afterAll_append]
    · rw [last, List.filterMap_append, Block.note_used noted.used]
      cases uses : b.uses? <;> simp [uses]
    · rw [last, List.filter_append, Block.note_diagnostics, noted.missing]
      simp [lacksRule, known]
    · rw [Block.note_diagnostics]
      exact noted.codes
  unruled b r found missing noted := by
    have last := blocksOf_push (r := r) found
    obtain ⟨configures, uses⟩ := Rules.notes_nothing (Rules.not_noter_of_none (rules ▸ missing))
    refine ⟨?_, ?_, ?_, ?_, ⟨noted.tidy.names, noted.tidy.definitions⟩⟩
    · rw [Run.warn, Run.dispatch, last, setupCalls_append, configures]
      simpa [Session.warn] using noted.setupLines
    · rw [Run.warn, Run.dispatch, last, List.filterMap_append]
      simpa [Session.warn, uses] using noted.used
    · rw [Run.warn, Run.dispatch, last, List.filter_append, List.map_append, ← noted.missing]
      simp [Session.warn, lacksRule, missing, missingReport, missingReports, Diagnostic.warning]
    · intro d reported
      rcases Array.mem_push.mp reported with before | rfl
      · exact noted.codes d before
      · exact Or.inl rfl
  changed r s same noted := by
    refine ⟨?_, ?_, ?_, ?_, same.tidy noted.tidy⟩
    · rw [← noted.setupLines]
      exact same.setupLines
    · rw [← noted.used]
      exact congrArg Array.toList same.used
    · rw [← noted.missing]
      exact congrArg (fun ds : Array Diagnostic => missingReports ds.toList) same.diagnostics
    · intro d reported
      exact noted.codes d (same.diagnostics ▸ reported)
  misplaced r d code noted := by
    refine ⟨noted.setupLines, noted.used, ?_, ?_, ⟨noted.tidy.names, noted.tidy.definitions⟩⟩
    · rw [Run.warn, ← noted.missing]
      simp [Session.warn, missingReports, code, Diagnostic.statementInValue, Diagnostic.missingRule]
    · intro e reported
      rcases Array.mem_push.mp reported with before | rfl
      · exact noted.codes e before
      · exact Or.inr code

theorem noted_emitRoots (forest : g.workspace.Forest) (rules : g.rules = Rules.esp32) :
    g.Noted g.emitRoots.2 :=
  (noted_lasting rules).emitRoots forest rules noted_new

/-! What is reported in the end -/

def unconfiguredReport (r : Resource) : Diagnostic :=
  .warning Diagnostic.unconfigured none (r.display ++ " is used but never configured")
    (some r.remedy) []

def droppedReport : Diagnostic :=
  .warning Diagnostic.droppedStatements none
    "statements outside the setup and loop blocks were not generated"
    (some "move them into the loop block") []

theorem reportUnconfigured_diagnostics (s : Session) :
    s.reportUnconfigured.diagnostics.toList =
      s.diagnostics.toList ++ s.unconfigured.map unconfiguredReport := by
  have all : ∀ (rs : List Resource) (s : Session),
      (rs.foldl (fun s r => s.warn (unconfiguredReport r)) s).diagnostics.toList =
        s.diagnostics.toList ++ rs.map unconfiguredReport := by
    intro rs
    induction rs with
    | nil => simp
    | cons r rest ih =>
      intro s
      rw [List.foldl_cons, ih]
      simp [Session.warn]
  exact all s.unconfigured s

def droppedReports (s : Session) (topLevel : String) : List Diagnostic :=
  if !Text.isBlank s.userLoop && !Text.isBlank topLevel then [droppedReport] else []

theorem code_of_dropped {s : Session} {topLevel : String} {d : Diagnostic}
    (member : d ∈ droppedReports s topLevel) : d.code = some Diagnostic.droppedStatements := by
  unfold droppedReports at member
  split at member
  · rw [List.mem_singleton.mp member]
    rfl
  · cases member

theorem reportDropped_eq (s : Session) (topLevel : String) :
    s.reportDropped topLevel =
      { s with diagnostics := s.diagnostics ++ droppedReports s topLevel } := by
  unfold Session.reportDropped droppedReports
  split
  · simp [droppedReport, Session.warn]
  · simp

/-- The reports of a generation are those of its run, then those of statements left out, then those
of resources that are not configured. -/
theorem generate_reports (g : Generator) :
    g.generate.diagnostics.toList =
      g.emitRoots.2.session.diagnostics.toList ++
        droppedReports g.emitRoots.2.session g.emitRoots.1 ++
        g.emitRoots.2.session.unconfigured.map unconfiguredReport := by
  change
    (g.emitRoots.2.session.reportDropped g.emitRoots.1).reportUnconfigured.diagnostics.toList = _
  rw [reportUnconfigured_diagnostics, reportDropped_eq]
  simp [Session.unconfigured]

theorem code_of_unconfigured {rs : List Resource} {d : Diagnostic}
    (member : d ∈ rs.map unconfiguredReport) : d.code = some Diagnostic.unconfigured := by
  obtain ⟨r, _, rfl⟩ := List.mem_map.mp member
  rfl

theorem generate_coded (g : Generator) (code : String) :
    g.generate.diagnostics.toList.filter (fun d => d.code = some code) =
      g.emitRoots.2.session.diagnostics.toList.filter (fun d => d.code = some code) ++
        (droppedReports g.emitRoots.2.session g.emitRoots.1).filter
          (fun d => d.code = some code) ++
        (g.emitRoots.2.session.unconfigured.map unconfiguredReport).filter
          (fun d => d.code = some code) := by
  rw [generate_reports, List.filter_append, List.filter_append]

section Coded

variable {code : String} {ds : List Diagnostic}

theorem filter_same (all : ∀ d ∈ ds, d.code = some code) :
    ds.filter (fun d => d.code = some code) = ds := by
  apply List.filter_eq_self.mpr
  intro d member
  rw [all d member]
  exact decide_eq_true rfl

theorem filter_other {other : String} (all : ∀ d ∈ ds, d.code = some other)
    (differ : other ≠ code) :
    ds.filter (fun d => d.code = some code) = [] := by
  apply List.filter_eq_nil_iff.mpr
  intro d member
  rw [all d member]
  simpa using differ

/-- During a run only missing rules and misplaced statements are reported. -/
theorem Noted.filter_other {r : Run} (noted : g.Noted r) (missing : Diagnostic.missingRule ≠ code)
    (misplaced : Diagnostic.statementInValue ≠ code) :
    r.session.diagnostics.toList.filter (fun d => d.code = some code) = [] := by
  apply List.filter_eq_nil_iff.mpr
  intro d member
  rcases noted.codes d (Array.mem_toList_iff.mp member) with same | same
  · rw [same]
    simpa using missing
  · rw [same]
    simpa using misplaced

end Coded

theorem generate_code (g : Generator) :
    g.generate.code = g.emitRoots.2.session.sketch g.emitRoots.1 := by
  change (g.emitRoots.2.session.reportDropped g.emitRoots.1).sketch g.emitRoots.1 = _
  rw [reportDropped_eq]
  rfl

end Generator
end BlockSketch
