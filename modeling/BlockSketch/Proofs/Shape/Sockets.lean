import BlockSketch.Document.Load
import BlockSketch.Proofs.Shape.CanonicalText
import BlockSketch.Proofs.Shape.Editing

/-
Kinds and checks of sockets. What kind of socket a name is, its shape's declared value sockets
decide first, then its declared statement sockets, and then the sockets that repeat. What a socket
asks for, only the first and the last of these decide. So a socket asks for something only if it is
a value socket, or else if it is a declared statement socket whose name a repeating value socket has
as well. A block that is refused for a statement socket is refused for this reason alone.
-/
namespace BlockSketch

namespace RepeatingSocket

def Covers (r : RepeatingSocket) (name : String) : Prop :=
  ∃ number : String, number ≠ "" ∧ (∀ c ∈ number.toList, c.isDigit = true) ∧ name = r.stem ++ number

theorem covers_iff (r : RepeatingSocket) (name : String) :
    r.covers name = true ↔ r.Covers name := by
  simp only [covers, Bool.and_eq_true, Bool.not_eq_true', List.isPrefixOf_iff_prefix,
    List.all_eq_true]
  constructor
  · rintro ⟨⟨⟨number, same⟩, nonempty⟩, digits⟩
    rw [← same, List.drop_left] at nonempty digits
    refine ⟨String.ofList number, ?_, ?_, ?_⟩
    · intro empty
      rw [String.ofList_eq_empty_iff.mp empty] at nonempty
      cases nonempty
    · rwa [String.toList_ofList]
    · apply String.toList_injective
      rw [String.toList_append, String.toList_ofList, same]
  · rintro ⟨number, nonempty, digits, rfl⟩
    rw [String.toList_append, List.drop_left]
    refine ⟨⟨List.prefix_append _ _, ?_⟩, digits⟩
    rw [List.isEmpty_eq_false_iff]
    exact fun empty => nonempty (String.toList_eq_nil_iff.mp empty)

end RepeatingSocket

namespace Shape

variable {s : Shape} {name : String} {r : RepeatingSocket} {wanted : ValueCheck}

structure Repeats (s : Shape) (name : String) (r : RepeatingSocket) : Prop where
  covers : r.Covers name
  first : ∃ before after, s.repeating = before ++ r :: after ∧ ∀ q ∈ before, ¬ q.Covers name

/-- A declared statement socket whose name stands for a repeating value socket with a check as
well. -/
structure Overlapped (s : Shape) (name : String) (wanted : ValueCheck) : Prop where
  declared : name ∈ s.statementSockets
  covered : ∃ r, s.Repeats name r ∧ r.kind = .value ∧ r.check = some wanted

theorem repeatingFor?_iff : s.repeatingFor? name = some r ↔ s.Repeats name r := by
  rw [repeatingFor?, List.find?_eq_some_iff_append, RepeatingSocket.covers_iff]
  simp only [Bool.not_eq_true', ← Bool.not_eq_true, RepeatingSocket.covers_iff]
  exact ⟨fun found => ⟨found.1, found.2⟩, fun repeats => ⟨repeats.covers, repeats.first⟩⟩

theorem sockets_apart (faultless : s.fault? = none) :
    (s.valueSockets.map (·.name) ++ s.statementSockets).Nodup :=
  (firstRepeated_none (names_unrepeated faultless).1).1

/-! What decides for a name -/

theorem socketKind?_declared_value (listed : name ∈ s.valueSockets.map (·.name)) :
    s.socketKind? name = some .value := by
  obtain ⟨socket, member, same⟩ := List.mem_map.mp listed
  rw [socketKind?, if_pos]
  exact List.any_eq_true.mpr ⟨socket, member, decide_eq_true same⟩

theorem socketKind?_undeclared_value (unlisted : name ∉ s.valueSockets.map (·.name)) :
    s.socketKind? name =
      if name ∈ s.statementSockets then some .statement
        else (s.repeatingFor? name).map (·.kind) := by
  have other : ¬ (s.valueSockets.any fun socket => socket.name = name) = true := by
    intro listed
    obtain ⟨socket, member, same⟩ := List.any_eq_true.mp listed
    exact unlisted (List.mem_map.mpr ⟨socket, member, of_decide_eq_true same⟩)
  rw [socketKind?, if_neg other]
  simp only [List.contains_iff_mem]

theorem socketCheck?_undeclared_value (unlisted : name ∉ s.valueSockets.map (·.name)) :
    s.socketCheck? name = some wanted ↔
      ∃ r, s.Repeats name r ∧ r.kind = .value ∧ r.check = some wanted := by
  have missing : s.valueSockets.find? (fun socket => socket.name = name) = none := by
    rw [List.find?_eq_none]
    intro socket member same
    exact unlisted (List.mem_map.mpr ⟨socket, member, of_decide_eq_true same⟩)
  rw [socketCheck?, missing]
  simp only [Option.bind_eq_some_iff, Option.filter_eq_some_iff, repeatingFor?_iff,
    decide_eq_true_eq, and_assoc]

theorem kind_of_check (asked : s.socketCheck? name = some wanted) :
    s.socketKind? name = some .value ∨ s.socketKind? name = some .statement ∧
      s.Overlapped name wanted := by
  by_cases listed : name ∈ s.valueSockets.map (·.name)
  · exact .inl (socketKind?_declared_value listed)
  · obtain ⟨r, repeats, kind, check⟩ := (socketCheck?_undeclared_value listed).mp asked
    rw [socketKind?_undeclared_value listed]
    by_cases declared : name ∈ s.statementSockets
    · rw [if_pos declared]
      exact .inr ⟨rfl, declared, r, repeats, kind, check⟩
    · rw [if_neg declared, repeatingFor?_iff.mpr repeats, Option.map_some, kind]
      exact .inl rfl

theorem Overlapped.kind_and_check (overlapped : s.Overlapped name wanted)
    (faultless : s.fault? = none) :
    s.socketKind? name = some .statement ∧ s.socketCheck? name = some wanted := by
  -- The shape declares no socket twice, so this one is not among its value sockets.
  have unlisted : name ∉ s.valueSockets.map (·.name) := fun listed =>
    (List.nodup_append.mp (sockets_apart faultless)).2.2 name listed name overlapped.declared rfl
  rw [socketKind?_undeclared_value unlisted, if_pos overlapped.declared,
    socketCheck?_undeclared_value unlisted]
  exact ⟨rfl, overlapped.covered⟩

theorem checked_but_no_value_iff (faultless : s.fault? = none) :
    s.socketCheck? name = some wanted ∧ s.socketKind? name ≠ some .value ↔
      s.Overlapped name wanted := by
  constructor
  · rintro ⟨asked, other⟩
    rcases kind_of_check asked with value | ⟨_, overlapped⟩
    · exact absurd value other
    · exact overlapped
  · intro overlapped
    obtain ⟨kind, asked⟩ := overlapped.kind_and_check faultless
    refine ⟨asked, ?_⟩
    rw [kind]
    nofun

end Shape

namespace Catalogue

variable {c : Catalogue} {parent socket child : String}

def Supplies (c : Catalogue) (kind : String) (given : ValueCheck) : Prop :=
  ∃ s, c.lookup kind = some s ∧ s.output = some ⟨some given⟩

theorem supplies_iff (c : Catalogue) (kind : String) (given : ValueCheck) :
    ((c.lookup kind).bind (·.output)).bind (·.check) = some given ↔ c.Supplies kind given := by
  simp only [Option.bind_eq_some_iff, Supplies]
  constructor
  · rintro ⟨⟨check⟩, ⟨s, known, output⟩, rfl⟩
    exact ⟨s, known, output⟩
  · rintro ⟨s, known, output⟩
    exact ⟨⟨some given⟩, ⟨s, known, output⟩, rfl⟩

theorem refused_iff :
    c.accepts parent socket child = false ↔
      ∃ s wanted given, c.lookup parent = some s ∧ s.socketCheck? socket = some wanted ∧
        c.Supplies child given ∧ given ≠ wanted := by
  have asked : ∀ wanted, (c.lookup parent).bind (·.socketCheck? socket) = some wanted ↔
      ∃ s, c.lookup parent = some s ∧ s.socketCheck? socket = some wanted := by
    intro wanted
    rw [Option.bind_eq_some_iff]
  simp only [← supplies_iff]
  unfold accepts
  cases wants : (c.lookup parent).bind (·.socketCheck? socket) with
  | none =>
    refine ⟨nofun, ?_⟩
    rintro ⟨s, wanted, given, known, check, _⟩
    rw [(asked wanted).mpr ⟨s, known, check⟩] at wants
    cases wants
  | some wanted =>
    obtain ⟨s, known, check⟩ := (asked wanted).mp wants
    cases gives : ((c.lookup child).bind (·.output)).bind (·.check) with
    | none => exact ⟨nofun, fun ⟨_, _, _, _, _, supplied, _⟩ => nomatch supplied⟩
    | some given =>
      dsimp only
      rw [decide_eq_false_iff_not]
      constructor
      · exact fun other => ⟨s, wanted, given, known, check, rfl, other⟩
      · rintro ⟨t, wanted', given', known', check', supplied, other⟩
        obtain rfl := Option.some.inj (known.symm.trans known')
        obtain rfl := Option.some.inj (check.symm.trans check')
        obtain rfl := Option.some.inj supplied
        exact other

theorem classify_of_kind {s : Shape} {kind : SocketKind} (known : c.lookup parent = some s)
    (kinded : s.socketKind? socket = some kind) (child : String) (hasNext : Bool) :
    Document.classify c parent socket child hasNext = kind := by
  rw [Document.classify, known, Option.bind_some, kinded]

theorem refused_statement_iff (faultless : ∀ kind s, c.lookup kind = some s → s.fault? = none)
    (hasNext : Bool) :
    Document.classify c parent socket child hasNext = .statement ∧
      c.accepts parent socket child = false ↔
      ∃ s wanted given, c.lookup parent = some s ∧ s.Overlapped socket wanted ∧
        c.Supplies child given ∧
        given ≠ wanted := by
  rw [refused_iff]
  constructor
  · rintro ⟨statement, s, wanted, given, known, asked, supplied, other⟩
    rcases Shape.kind_of_check asked with value | ⟨_, overlapped⟩
    · rw [classify_of_kind known value] at statement
      cases statement
    · exact ⟨s, wanted, given, known, overlapped, supplied, other⟩
  · rintro ⟨s, wanted, given, known, overlapped, supplied, other⟩
    obtain ⟨kind, asked⟩ := overlapped.kind_and_check (faultless parent s known)
    exact ⟨classify_of_kind known kind child hasNext, s, wanted, given, known, asked,
      supplied, other⟩

theorem faultless_afterAll {shapes : List Shape} {kind : String} {s : Shape}
    (known : (afterAll shapes).lookup kind = some s) : s.fault? = none := by
  rw [lookup_afterAll] at known
  have accepted := List.find?_some known
  rw [Bool.and_eq_true, Option.isNone_iff_eq_none] at accepted
  exact accepted.1

end Catalogue

theorem Esp32.not_overlapped {kind : String} {s : Shape}
    (known : Esp32.catalogue.lookup kind = some s) (name : String) (wanted : ValueCheck) :
    ¬ s.Overlapped name wanted := by
  obtain ⟨other, listed, same⟩ := List.mem_map.mp (SortedMap.mem_of_get?_ofList known)
  obtain ⟨_, rfl⟩ := Prod.mk.inj same
  have apart : ∀ s ∈ shapes, ∀ name ∈ s.statementSockets, ∀ r ∈ s.repeating,
      r.covers name = true → r.kind = .statement := by
    decide +kernel
  rintro ⟨declared, r, ⟨covers, before, after, split, _⟩, kind, _⟩
  have member : r ∈ other.repeating := split ▸ List.mem_append_cons_self
  have statement := apart other listed name declared r member ((r.covers_iff name).mpr covers)
  rw [kind] at statement
  cases statement

/-- A socket of an accepted shape that asks for something is a value socket, unless it is a declared
statement socket whose name stands for a repeating value socket as well. That is also the only case
in which, after any history of definitions, a child is refused for a socket that a loaded document
has as a statement socket. It does not come up in the catalogue for ESP32 boards. -/
theorem statement_sockets_are_checked_iff_overlapped (history : List Shape) (socket : String) :
    (∀ (c c' : Catalogue) (shape : Shape) (old : Option Shape), c.define shape = .ok (old, c') →
      ∀ wanted, shape.socketCheck? socket = some wanted ∧ shape.socketKind? socket ≠ some .value ↔
        shape.Overlapped socket wanted) ∧
    (∀ (parent child : String) (hasNext : Bool),
      Document.classify (.afterAll history) parent socket child hasNext = .statement ∧
          (Catalogue.afterAll history).accepts parent socket child = false ↔
        ∃ s wanted given, (Catalogue.afterAll history).lookup parent = some s ∧
          s.Overlapped socket wanted ∧
          (Catalogue.afterAll history).Supplies child given ∧ given ≠ wanted) ∧
    ∀ kind s, Esp32.catalogue.lookup kind = some s → ∀ wanted, ¬ s.Overlapped socket wanted := by
  refine ⟨?_, ?_, fun kind s known => Esp32.not_overlapped known socket⟩
  · intro c c' shape old defined wanted
    exact Shape.checked_but_no_value_iff (Catalogue.lookup_define defined).1
  · intro parent child hasNext
    exact Catalogue.refused_statement_iff (fun kind s => Catalogue.faultless_afterAll) hasNext

def menuShape : Shape :=
  (Shape.statement "menu").withStatement "DO1" |>.withRepeating "DO" .value (some .boolean)

def countShape : Shape := .value "count" (some .number)

theorem menu_overlapped : menuShape.Overlapped "DO1" .boolean where
  declared := by decide
  covered :=
    ⟨⟨"DO", .value, some .boolean⟩,
      ⟨⟨"1", by decide, List.all_eq_true.mp (by decide), by decide⟩, [], [], rfl, nofun⟩, rfl, rfl⟩

/-- The first part of a menu is a statement socket, but it asks for a condition and refuses a
count. -/
theorem menu_refuses_count :
    ∃ c', Catalogue.empty.define menuShape = .ok (none, c') ∧
      (menuShape.socketCheck? "DO1" = some .boolean ∧ menuShape.socketKind? "DO1" ≠ some .value) ∧
      Document.classify (.afterAll [menuShape, countShape]) "menu" "DO1" "count" false =
        .statement ∧
      (Catalogue.afterAll [menuShape, countShape]).accepts "menu" "DO1" "count" = false := by
  have faultless : menuShape.fault? = none := by decide
  have defined : Catalogue.empty.define menuShape =
      .ok (none, ⟨Catalogue.empty.shapes.insert menuShape.kind menuShape⟩) := by
    rw [Catalogue.define, faultless]
    rfl
  have menu : (Catalogue.afterAll [menuShape, countShape]).lookup "menu" = some menuShape := by
    rw [Catalogue.lookup_afterAll]
    decide
  have count : (Catalogue.afterAll [menuShape, countShape]).lookup "count" = some countShape := by
    rw [Catalogue.lookup_afterAll]
    decide
  obtain ⟨checked, refused, _⟩ :=
    statement_sockets_are_checked_iff_overlapped [menuShape, countShape] "DO1"
  refine ⟨_, defined, (checked _ _ _ _ defined .boolean).mpr menu_overlapped, ?_⟩
  exact (refused "menu" "count" false).mpr
    ⟨menuShape, .boolean, .number, menu, menu_overlapped, ⟨countShape, count, rfl⟩, by decide⟩

end BlockSketch
