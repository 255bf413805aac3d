import BlockSketch.Proofs.Sketch.Notes

/-
The pieces of a sketch. Its statements are put together from the code of blocks, each block's own
code around the statements in its sockets. A ledger says which blocks the statements gathered so far
are made of. Every block on it has been dispatched as often as it stands there, and no block is
dispatched twice. So no block's code stands twice in a sketch.
-/
namespace BlockSketch
namespace Generator

variable {g : Generator}

/-- The operand is what the value socket supplies in some run: the expression of the block in it, or
the fallback that is asked for if there is none. -/
def Supplies (g : Generator) (b : Block) (socket : String) (min : Order) (fallback : String)
    (o : Operand) : Prop :=
  ∃ r after, Resolved g.emit b socket min fallback r (o, after)

inductive Frames (g : Generator) (b : Block) : Frame → Prop where
  | rule {rule : Rule} {operands : List Operand} {sessions : List Session} {frame : Frame}
      (known : g.rules.get? b.kind = some rule) (named : ∀ s ∈ sessions, s.Tidy)
      (around : ∀ bodies, bodies.length = frame.tails.length →
        ∃ e : Emission, e.asStatement = frame.fill bodies ∧
          (rule ⟨g.workspace, g.options, b⟩).Answers (g.Supplies b) operands sessions bodies e) :
      Frames g b frame
  | placeholder (unknown : g.rules.get? b.kind = none) :
      Frames g b ⟨(g.placeholder b .new).1.asStatement, []⟩

/-- The text is made of the code of these blocks, each of them standing there once. -/
inductive Laid (g : Generator) : List BlockId → String → Prop where
  | nothing : Laid g [] ""
  | append {xs ys : List BlockId} {first second : String} (before : Laid g xs first)
      (after : Laid g ys second) : Laid g (xs ++ ys) (first ++ second)
  | block {b : Block} {frame : Frame} {bodies : List (List BlockId × String)}
      (found : g.workspace.get? b.id = some b) (frames : g.Frames b frame)
      (count : bodies.length = frame.tails.length) (inside : ∀ p ∈ bodies, Laid g p.1 p.2) :
      Laid g (b.id :: bodies.flatMap Prod.fst) (frame.fill (bodies.map Prod.snd))

/-- The blocks that the statements for the setup and the loop are made of, and those whose code is
held back, have been dispatched as often as they are counted here. -/
structure Ledger (g : Generator) (held : List BlockId) (r : Run) : Prop where
  tidy : r.session.Tidy
  laid : ∃ inits loops, g.Laid inits r.session.userInit ∧ g.Laid loops r.session.userLoop ∧
    ∀ id, (held ++ inits ++ loops).count id ≤ r.dispatched.toList.count id

namespace Ledger

variable {held xs : List BlockId} {r : Run}

theorem start : g.Ledger [] .new :=
  ⟨Session.tidy_new, [], [], Laid.nothing, Laid.nothing, fun _ => Nat.le_refl _⟩

theorem append_nil (ledger : g.Ledger held r) : g.Ledger (held ++ []) r := by
  rw [List.append_nil]
  exact ledger

theorem drop (ledger : g.Ledger (held ++ xs) r) : g.Ledger held r := by
  obtain ⟨tidy, inits, loops, init, loop, count⟩ := ledger
  refine ⟨tidy, inits, loops, init, loop, fun id => ?_⟩
  have le := count id
  simp only [List.count_append] at le ⊢
  omega

theorem congr {s : Session} (ledger : g.Ledger held r) (tidy : s.Tidy)
    (init : s.userInit = r.session.userInit) (loop : s.userLoop = r.session.userLoop) :
    g.Ledger held { r with session := s } := by
  obtain ⟨inits, loops, laidInit, laidLoop, count⟩ := ledger.laid
  exact ⟨tidy, inits, loops, init ▸ laidInit, loop ▸ laidLoop, count⟩

theorem warn (ledger : g.Ledger held r) (d : Diagnostic) : g.Ledger held (r.warn d) :=
  ledger.congr ⟨ledger.tidy.names, ledger.tidy.definitions⟩ rfl rfl

theorem dispatch (ledger : g.Ledger held r) (id : BlockId) :
    g.Ledger (held ++ [id]) (r.dispatch id) := by
  obtain ⟨tidy, inits, loops, init, loop, count⟩ := ledger
  refine ⟨tidy, inits, loops, init, loop, fun other => ?_⟩
  have le := count other
  simp only [Run.dispatch, Array.toList_push, List.count_append] at le ⊢
  omega

theorem appendInit {text : String} (ledger : g.Ledger (held ++ xs) r) (laid : g.Laid xs text) :
    g.Ledger held { r with session := r.session.appendInit text } := by
  obtain ⟨tidy, inits, loops, init, loop, count⟩ := ledger
  have kept := (Session.sameMarks_appendInit text r.session).tidy tidy
  refine ⟨kept, inits ++ xs, loops, init.append laid, loop, fun id => ?_⟩
  have le := count id
  simp only [List.count_append] at le ⊢
  omega

theorem appendLoop {text : String} (ledger : g.Ledger (held ++ xs) r) (laid : g.Laid xs text) :
    g.Ledger held { r with session := r.session.appendLoop text } := by
  obtain ⟨tidy, inits, loops, init, loop, count⟩ := ledger
  have kept := (Session.sameMarks_appendLoop text r.session).tidy tidy
  refine ⟨kept, inits, loops ++ xs, init, loop.append laid, fun id => ?_⟩
  have le := count id
  simp only [List.count_append] at le ⊢
  omega

end Ledger

def Settles (g : Generator) (visit : Run → Emission × Run) : Prop :=
  ∀ held r, g.Ledger held r →
    ∃ xs, g.Laid xs (visit r).1.asStatement ∧ g.Ledger (held ++ xs) (visit r).2

section Steps

variable {b : Block} {held : List BlockId} {r : Run}

theorem resolve_settles
    (settled : ∀ link child, b.child? link = some child → g.Settles (g.emit child))
    (socket : String) (min : Order) (fallback : String) (ledger : g.Ledger held r) :
    g.Ledger held (g.resolve g.emit b socket min fallback r).2 := by
  have step := g.resolved g.emit b socket min fallback r
  generalize g.resolve g.emit b socket min fallback r = result at step ⊢
  cases step with
  | vacant _ => exact ledger
  | supplied filled _ _ | unusable filled _ =>
    obtain ⟨xs, _, after⟩ := settled (.value socket) _ filled held r ledger
    exact after.drop
  | misplaced filled _ _ =>
    obtain ⟨xs, _, after⟩ := settled (.value socket) _ filled held r ledger
    exact after.drop.warn _

theorem bodyOf_settles
    (settled : ∀ link child, b.child? link = some child → g.Settles (g.emit child))
    (socket : String) (ledger : g.Ledger held r) :
    ∃ xs, g.Laid xs (bodyOf g.emit b socket r).1 ∧
      g.Ledger (held ++ xs) (bodyOf g.emit b socket r).2 := by
  unfold bodyOf
  cases filled : b.statements.get? socket with
  | none => exact ⟨[], Laid.nothing, ledger.append_nil⟩
  | some child => exact settled (.statement socket) child filled held r ledger

/-- A script that is performed has been given some answers, and the statements among them are laid
out. -/
theorem perform_answers {P : Emission → Prop} {script : Script Emission} {links : List Link}
    (course : script.Course Session.SameNotes P links)
    (settled : ∀ link child, b.child? link = some child → g.Settles (g.emit child))
    (ledger : g.Ledger held r) :
    ∃ operands sessions, ∃ bodies : List (List BlockId × String),
      script.Answers (g.Supplies b) operands sessions (bodies.map Prod.snd)
        (g.perform g.emit b script r).1 ∧
      (∀ s ∈ sessions, s.Tidy) ∧ (∀ p ∈ bodies, g.Laid p.1 p.2) ∧
      g.Ledger (held ++ bodies.flatMap Prod.fst) (g.perform g.emit b script r).2 := by
  induction course generalizing held r with
  | done result => exact ⟨[], [], [], .done _, nofun, nofun, ledger.append_nil⟩
  | @value socket min fallback next links later ih =>
    have after := resolve_settles settled socket min fallback ledger
    have supplies : g.Supplies b socket min fallback _ := ⟨r, _, g.resolved _ _ _ _ _ _⟩
    obtain ⟨operands, sessions, bodies, given, named, laid, final⟩ := ih _ after
    exact ⟨_ :: operands, sessions, bodies, .value supplies given, named, laid, final⟩
  | @body socket next links later ih =>
    obtain ⟨xs, first, after⟩ := bodyOf_settles settled socket ledger
    obtain ⟨operands, sessions, bodies, given, named, laid, final⟩ := ih _ after
    rw [List.append_assoc] at final
    refine ⟨operands, sessions, (xs, _) :: bodies, .body given, named, ?_, final⟩
    exact List.forall_mem_cons.mpr ⟨first, laid⟩
  | @update f next links allowed later ih =>
    have same := allowed r.session
    obtain ⟨operands, sessions, bodies, given, named, laid, final⟩ :=
      ih r.session (ledger.congr (same.tidy ledger.tidy) same.userInit same.userLoop)
    exact ⟨operands, r.session :: sessions, bodies, .read (.write given),
      List.forall_mem_cons.mpr ⟨ledger.tidy, named⟩, laid, final⟩

theorem bodies_of_bare {α : Type} {supplies : String → Order → String → Operand → Prop}
    {R : Session → Session → Prop} {P : α → Prop} {script : Script α} {links : List Link}
    (course : script.Course R P links) (bare : Rules.Bare links) {operands : List Operand}
    {sessions : List Session} {bodies : List String} {a : α}
    (given : script.Answers supplies operands sessions bodies a) : bodies = [] := by
  induction course generalizing operands sessions with
  | done result =>
    cases given
    rfl
  | value later ih =>
    cases given with
    | value supplied after =>
      exact ih _ (fun socket member => bare socket (List.mem_cons_of_mem _ member)) after
  | body later ih => exact absurd List.mem_cons_self (bare _)
  | update allowed later ih =>
    cases given with
    | read written =>
      cases written with
      | write after => exact ih _ bare after

/-- Given the operands and the sessions, a rule puts one frame around any statements. -/
theorem frame_of_answer {supplies : String → Order → String → Operand → Prop}
    {R : Session → Session → Prop} {P : Emission → Prop} {script : Script Emission}
    {links : List Link} (course : script.Course R P links)
    (framed : Rules.Bare links ∨ script.Woven) {operands : List Operand} {sessions : List Session}
    {bodies : List String} {e : Emission}
    (given : script.Answers supplies operands sessions bodies e) :
    ∃ frame : Frame, frame.tails.length = bodies.length ∧ frame.fill bodies = e.asStatement ∧
      ∀ others, others.length = frame.tails.length → ∃ e' : Emission,
        e'.asStatement = frame.fill others ∧
          script.Answers supplies operands sessions others e' := by
  rcases framed with bare | ⟨F, adding, rfl⟩
  · obtain rfl := bodies_of_bare course bare given
    refine ⟨⟨e.asStatement, []⟩, rfl, Frame.fill_nil _, fun others none => ?_⟩
    rw [List.length_eq_zero_iff.mp none, Frame.fill_nil]
    exact ⟨e, rfl, given⟩
  · obtain ⟨frame, count, same⟩ := adding.frame given
    have plain := same ""
    simp only [String.empty_append] at plain
    refine ⟨frame, count, ?_, fun others as => ⟨_, rfl, plain others (as.trans count)⟩⟩
    rw [given.unique (plain bodies rfl)]
    rfl

/-- The code of a rule is the block's frame around the statements that it was given. What the rule
does before, taking a note, belongs to the frame. -/
theorem framed_settles {rule : Rule} {rest : Script Emission} {links : List Link}
    {before : List Session} (known : g.rules.get? b.kind = some rule)
    (found : g.workspace.get? b.id = some b)
    (uniform : Rules.Uniform Session.SameNotes rest links)
    (framed : Rules.Bare links ∨ rest.Woven) (named : ∀ s ∈ before, s.Tidy)
    (whole : ∀ operands sessions bodies e, rest.Answers (g.Supplies b) operands sessions bodies e →
      (rule ⟨g.workspace, g.options, b⟩).Answers (g.Supplies b) operands (before ++ sessions)
        bodies e)
    (settled : ∀ link child, b.child? link = some child → g.Settles (g.emit child))
    (ledger : g.Ledger (held ++ [b.id]) r) :
    ∃ xs, g.Laid xs (g.perform g.emit b rest r).1.asStatement ∧
      g.Ledger (held ++ xs) (g.perform g.emit b rest r).2 := by
  have answers : ∃ operands sessions, ∃ bodies : List (List BlockId × String), _ :=
    uniform.elim (perform_answers · settled ledger) (perform_answers · settled ledger)
  obtain ⟨operands, sessions, bodies, given, later, laid, final⟩ := answers
  obtain ⟨frame, count, text, around⟩ :=
    uniform.elim (frame_of_answer · framed given) (frame_of_answer · framed given)
  rw [List.length_map] at count
  have frames : g.Frames b frame := by
    refine @Frames.rule g b rule operands (before ++ sessions) frame known ?_ fun others as => ?_
    · exact List.forall_mem_append.mpr ⟨named, later⟩
    · obtain ⟨e, filled, answers⟩ := around others as
      exact ⟨e, filled, whole _ _ _ _ answers⟩
  refine ⟨b.id :: bodies.flatMap Prod.fst, ?_, ?_⟩
  · rw [← text]
    exact Laid.block found frames count.symm laid
  · rw [List.append_assoc] at final
    exact final

theorem orderly_settles {rule : Rule} (known : g.rules.get? b.kind = some rule)
    (found : g.workspace.get? b.id = some b)
    (orderly : Rules.Orderly b (rule ⟨g.workspace, g.options, b⟩))
    (settled : ∀ link child, b.child? link = some child → g.Settles (g.emit child))
    (ledger : g.Ledger held r) :
    let result := g.perform g.emit b (rule ⟨g.workspace, g.options, b⟩) (r.dispatch b.id)
    ∃ xs, g.Laid xs result.1.asStatement ∧ g.Ledger (held ++ xs) result.2 := by
  obtain ⟨rest, links, noting, _, uniform, framed⟩ := orderly
  have ready := ledger.dispatch b.id
  generalize same : rule ⟨g.workspace, g.options, b⟩ = script at noting ⊢
  cases noting with
  | nothing idle =>
    refine @framed_settles g b held _ rule rest links [] known found uniform framed nofun
      (fun _ _ _ _ answers => ?_) settled ready
    rw [same]
    exact answers
  | first =>
    obtain ⟨init, loop⟩ := b.note_sections r.session
    have noted : g.Ledger (held ++ [b.id]) { r.dispatch b.id with session := b.note r.session } :=
      ready.congr (b.note_tidy ledger.tidy) init loop
    refine @framed_settles g b held _ rule rest links [r.session] known found uniform framed ?_
      (fun _ _ _ _ answers => ?_) settled noted
    · simpa using ledger.tidy
    · rw [same]
      exact .read (.write answers)

theorem gathering_settles {script : Script Emission} (gathering : Rules.Gathering b.kind script)
    (settled : ∀ link child, b.child? link = some child → g.Settles (g.emit child))
    (ledger : g.Ledger held r) :
    ∃ xs, g.Laid xs (g.perform g.emit b script (r.dispatch b.id)).1.asStatement ∧
      g.Ledger (held ++ xs) (g.perform g.emit b script (r.dispatch b.id)).2 := by
  obtain ⟨xs, laid, after⟩ := bodyOf_settles settled "DO" (ledger.dispatch b.id).drop
  rcases gathering with ⟨_, rfl⟩ | ⟨_, rfl⟩
  · exact ⟨[], Laid.nothing, (after.appendInit laid).append_nil⟩
  · exact ⟨[], Laid.nothing, (after.appendLoop laid).append_nil⟩

theorem own_settles (rules : g.rules = Rules.esp32) (found : g.workspace.get? b.id = some b)
    (settled : ∀ link child, b.child? link = some child → g.Settles (g.emit child)) :
    g.Settles (g.own g.emit b) := by
  intro held r ledger
  unfold own
  cases known : g.rules.get? b.kind with
  | none =>
    have text : ∀ r, (g.placeholder b r).1 = (g.placeholder b .new).1 := by
      intro r
      unfold placeholder
      dsimp only
      split <;> rfl
    have final : g.Ledger (held ++ [b.id]) (g.placeholder b (r.dispatch b.id)).2 := by
      unfold placeholder
      dsimp only
      split <;> exact (ledger.dispatch b.id).warn _
    refine ⟨[b.id], ?_, final⟩
    have laid := @Laid.block g b _ [] found (Frames.placeholder known) rfl nofun
    rw [List.map_nil, Frame.fill_nil, ← text (r.dispatch b.id)] at laid
    exact laid
  | some rule =>
    have behaved := Rules.behaved_of_get (rules ▸ known) ⟨g.workspace, g.options, b⟩ rfl
    rcases behaved with orderly | ⟨_, gathering⟩
    · exact orderly_settles known found orderly settled ledger
    · exact gathering_settles gathering settled ledger

end Steps

/-! Whole runs -/

theorem Settles.andThen {first second : Run → Emission × Run} (before : g.Settles first)
    (after : g.Settles second) : g.Settles (andThen first second) := by
  intro held r ledger
  obtain ⟨xs, laid, between⟩ := before held r ledger
  unfold Generator.andThen
  cases given : first r with
  | mk e r' =>
    rw [given] at laid between
    cases e with
    | expression text order => exact ⟨xs, laid, between⟩
    | statement text =>
      obtain ⟨ys, later, final⟩ := after (held ++ xs) r' between
      rw [List.append_assoc] at final
      exact ⟨xs ++ ys, laid.append later, final⟩

theorem emit_settles (forest : g.workspace.Forest) (rules : g.rules = Rules.esp32) (id : BlockId) :
    g.Settles (g.emit id) := by
  refine @emit_induction g forest g.Settles ?_ ?_ (fun first second => Settles.andThen) id
  · intro held r ledger
    exact ⟨[], Laid.nothing, ledger.append_nil⟩
  · intro b found below
    exact own_settles rules found below

theorem emitAll_settles (forest : g.workspace.Forest) (rules : g.rules = Rules.esp32)
    (ids : List BlockId) {xs : List BlockId} {code : String} {r : Run} (laid : g.Laid xs code)
    (ledger : g.Ledger xs r) :
    ∃ ys, g.Laid ys (g.emitAll ids code r).1 ∧ g.Ledger ys (g.emitAll ids code r).2 := by
  induction ids generalizing xs code r with
  | nil => exact ⟨xs, laid, ledger⟩
  | cons id rest ih =>
    obtain ⟨ys, later, after⟩ := emit_settles forest rules id xs r ledger
    exact ih (laid.append later) after

/-- The code at the top level, for the setup and for the loop is made of different blocks. -/
theorem emitRoots_laid (forest : g.workspace.Forest) (rules : g.rules = Rules.esp32) :
    ∃ tops inits loops, g.Laid tops g.emitRoots.1 ∧ g.Laid inits g.emitRoots.2.session.userInit ∧
      g.Laid loops g.emitRoots.2.session.userLoop ∧ (tops ++ inits ++ loops).Nodup ∧
      tops ++ inits ++ loops ⊆ g.emitRoots.2.dispatched.toList := by
  obtain ⟨tops, top, _, inits, loops, init, loop, count⟩ :=
    emitAll_settles forest rules g.workspace.sortedRoots Laid.nothing Ledger.start
  refine ⟨tops, inits, loops, top, init, loop, ?_, ?_⟩
  · rw [List.nodup_iff_count]
    intro id
    have once : g.emitRoots.2.dispatched.toList.Nodup := by
      rw [emitRoots_dispatched forest rules]
      exact order_nodup forest rules
    exact Nat.le_trans (count id) (List.nodup_iff_count.mp once id)
  · intro id member
    have positive := List.count_pos_iff.mpr member
    exact List.count_pos_iff.mp (Nat.lt_of_lt_of_le positive (count id))

theorem sections_laid (forest : g.workspace.Forest) (rules : g.rules = Rules.esp32) :
    ∃ inits loops, g.Laid inits g.emitRoots.2.session.userInit ∧
      g.Laid loops (g.emitRoots.2.session.loopCode g.emitRoots.1) ∧ (inits ++ loops).Nodup ∧
      inits ++ loops ⊆ g.emitRoots.2.dispatched.toList := by
  obtain ⟨tops, inits, loops, top, init, loop, nodup, dispatched⟩ := emitRoots_laid forest rules
  rw [Session.loopCode]
  cases Text.isBlank g.emitRoots.2.session.userLoop with
  | true =>
    rw [if_pos rfl]
    refine ⟨inits, tops, init, top, ?_, fun id member => dispatched ?_⟩
    · exact List.perm_append_comm.nodup_iff.mp (List.nodup_append.mp nodup).1
    · rcases List.mem_append.mp member with first | second
      · exact List.mem_append_left _ (List.mem_append_right _ first)
      · exact List.mem_append_left _ (List.mem_append_left _ second)
  | false =>
    rw [if_neg Bool.false_ne_true]
    rw [List.append_assoc] at nodup dispatched
    refine ⟨inits, loops, init, loop, (List.nodup_append.mp nodup).2.1,
      fun id member => dispatched ?_⟩
    exact List.mem_append_right _ member

/-! Reports of missing rules -/

theorem generate_missingReports (noted : g.Noted g.emitRoots.2) :
    missingReports g.generate.diagnostics.toList =
      ((g.blocksOf g.emitRoots.2.dispatched.toList).filter g.lacksRule).map missingReport := by
  rw [missingReports, generate_coded, filter_other (fun _ => code_of_dropped) (by decide),
    filter_other (fun _ => code_of_unconfigured) (by decide), List.append_nil, List.append_nil]
  exact noted.missing

theorem blocksOf_sublist (forest : g.workspace.Forest) (ids : List BlockId) :
    ((g.blocksOf ids).map Block.id).Sublist ids := by
  induction ids with
  | nil => exact List.Sublist.refl []
  | cons id rest ih =>
    rw [blocksOf, List.filterMap_cons]
    cases found : g.workspace.get? id with
    | none => exact ih.cons id
    | some b =>
      rw [List.map_cons, forest.numbered id b found]
      exact ih.cons_cons id

def reported (g : Generator) : List (Option BlockId) :=
  (missingReports g.generate.diagnostics.toList).map Diagnostic.block

theorem reported_eq (noted : g.Noted g.emitRoots.2) :
    g.reported = (((g.blocksOf g.emitRoots.2.dispatched.toList).filter g.lacksRule).map
      Block.id).map some := by
  rw [reported, generate_missingReports noted, List.map_map, List.map_map]
  rfl

theorem reported_nodup (forest : g.workspace.Forest) (noted : g.Noted g.emitRoots.2)
    (once : g.emitRoots.2.dispatched.toList.Nodup) : g.reported.Nodup := by
  have kept :=
    ((g.blocksOf g.emitRoots.2.dispatched.toList).filter_sublist (p := g.lacksRule)).map Block.id
  have ids := (kept.trans (blocksOf_sublist forest _)).nodup once
  rw [reported_eq noted]
  exact List.Pairwise.map some (fun a b differ same => differ (Option.some.inj same)) ids

theorem mem_reported (forest : g.workspace.Forest) (noted : g.Noted g.emitRoots.2) {id : BlockId} :
    some id ∈ g.reported ↔ id ∈ g.emitRoots.2.dispatched.toList ∧
      ∃ b, g.workspace.get? id = some b ∧ g.rules.get? b.kind = none := by
  rw [reported_eq noted]
  constructor
  · intro member
    obtain ⟨other, listed, same⟩ := List.mem_map.mp member
    cases same
    obtain ⟨b, kept, rfl⟩ := List.mem_map.mp listed
    obtain ⟨there, lacks⟩ := List.mem_filter.mp kept
    obtain ⟨place, dispatched, found⟩ := List.mem_filterMap.mp there
    rw [forest.numbered place b found]
    exact ⟨dispatched, b, found, Option.isNone_iff_eq_none.mp lacks⟩
  · rintro ⟨dispatched, b, found, unknown⟩
    refine List.mem_map_of_mem (List.mem_map.mpr ⟨b, ?_, forest.numbered id b found⟩)
    refine List.mem_filter.mpr ⟨List.mem_filterMap.mpr ⟨id, dispatched, found⟩, ?_⟩
    exact Option.isNone_iff_eq_none.mpr unknown

/-- Generation comes to an end, dispatches exactly the live blocks, each once, and so neither
reports a block twice nor puts its code twice into the sketch. -/
theorem live_blocks_run_once (history : List Workspace.Operation) (options : Options) :
    let g : Generator := ⟨.afterAll history, Rules.esp32, options⟩
    let run := g.emitRoots.2
    g.unroll g.emit = g.emit ∧
    (∀ extra, g.emitWithin (g.workspace.size + extra) = g.emit ∧
      g.workspace.chainWithin (g.workspace.size + extra) = g.workspace.chain ∧
      g.workspace.inValueWithin (g.workspace.size + extra) = g.workspace.inValuePosition) ∧
    run.dispatched.toList.Nodup ∧
    (∀ id, id ∈ run.dispatched.toList ↔ g.Live id) ∧
    g.reported.Nodup ∧
    (∀ id, some id ∈ g.reported ↔
      id ∈ run.dispatched.toList ∧ ∃ b, g.workspace.get? id = some b ∧ g.rules.get? b.kind = none) ∧
    g.generate.code = run.session.sketch g.emitRoots.1 ∧
    ∃ inits loops, g.Laid inits run.session.userInit ∧
      g.Laid loops (run.session.loopCode g.emitRoots.1) ∧
      (inits ++ loops).Nodup ∧ inits ++ loops ⊆ run.dispatched.toList := by
  intro g run
  have forest : g.workspace.Forest := Workspace.forest_afterAll history
  have rules : g.rules = Rules.esp32 := rfl
  clear_value g
  have noted : g.Noted run := noted_emitRoots forest rules
  have order : run.dispatched.toList = g.order := emitRoots_dispatched forest rules
  have once : run.dispatched.toList.Nodup := order ▸ order_nodup forest rules
  have live : ∀ id, id ∈ run.dispatched.toList ↔ g.Live id := order ▸ mem_order_iff forest rules
  refine ⟨unroll_emit forest, fun extra => ?_, once, live, reported_nodup forest noted once,
    fun id => mem_reported forest noted, g.generate_code, sections_laid forest rules⟩
  have enough : g.workspace.size ≤ g.workspace.size + extra := Nat.le_add_right _ _
  exact ⟨emitWithin_eq_emit forest enough, funext fun head =>
    forest.chainWithin_eq_chain enough head,
    funext fun id => forest.inValueWithin_eq_inValuePosition enough id⟩

end Generator
end BlockSketch
