import BlockSketch.Proofs.Shape.Acceptance
import Mathlib.Data.List.Nodup

/-
Edits of a block's fields. What a validator gives back for an accepted text it would accept again
and leave as it is. A shape without faults describes each of its fields once, so an edit of one
field touches no other, and a block whose fields are valid to begin with has valid fields after any
edits.
-/
namespace BlockSketch

/-! Validators -/

namespace Validator

theorem validateRange_ok {min max : Option Int} {n : Int} {text : String}
    (accepted : validateRange min max n = .ok text) : text = toString n := by
  unfold validateRange at accepted
  split at accepted
  · cases accepted
  · cases accepted
  · exact (Except.ok.inj accepted).symm

/-- The text that an accepted edit leaves would be accepted again, and nothing of it would
change. -/
theorem validate_validated [PatternReader] {v : Validator} {raw text : String}
    (accepted : v.validate raw = .ok text) : v.validate text = .ok text := by
  cases v with
  | intRange min max =>
    simp only [validate] at accepted ⊢
    cases read : Text.integer? (Text.trim raw).toList with
    | none => simp [read] at accepted
    | some n =>
      rw [read] at accepted
      have canonical : text = toString n := validateRange_ok accepted
      have bounds := Text.integer?_bounds read
      rw [canonical, Text.trim_toString, Text.integer?_toString bounds.1 bounds.2]
      exact canonical ▸ accepted
  | pattern source =>
    simp only [validate] at accepted ⊢
    split at accepted
    · rename_i found
      have trimmed : Text.trim raw = text := Except.ok.inj accepted
      rw [← trimmed, Text.trim_trim, if_pos found]
    · cases accepted
  | oneOf options =>
    simp only [validate] at accepted ⊢
    split at accepted
    · rename_i listed
      rw [← Except.ok.inj accepted, if_pos listed]
    · cases accepted

end Validator

/-! Shapes -/

namespace Shape

theorem firstRepeated_none {seen names : List String} (none : firstRepeated seen names = none) :
    names.Nodup ∧ ∀ name ∈ names, name ∉ seen := by
  induction names generalizing seen with
  | nil => exact ⟨List.nodup_nil, by simp⟩
  | cons name rest ih =>
    rw [firstRepeated] at none
    split at none
    · cases none
    · rename_i fresh
      obtain ⟨apart, unseen⟩ := ih none
      have before : name ∉ rest := fun again => unseen name again List.mem_cons_self
      refine ⟨List.nodup_cons.mpr ⟨before, apart⟩, ?_⟩
      intro other member
      rcases List.mem_cons.mp member with rfl | later
      · exact fun listed => fresh (List.contains_iff_mem.mpr listed)
      · exact fun listed => unseen other later (List.mem_cons_of_mem name listed)

theorem names_unrepeated {s : Shape} (faultless : s.fault? = none) :
    firstRepeated [] (s.valueSockets.map (·.name) ++ s.statementSockets) = none ∧
      firstRepeated [] (s.fields.map (·.name)) = none := by
  unfold fault? at faultless
  split at faultless
  · cases faultless
  · split at faultless
    · cases faultless
    · split at faultless
      · cases faultless
      · rename_i sockets
        exact ⟨sockets, Option.map_eq_none_iff.mp faultless⟩

theorem fields_apart {s : Shape} (faultless : s.fault? = none) : (s.fields.map (·.name)).Nodup :=
  (firstRepeated_none (names_unrepeated faultless).2).1

def DefaultsValid [PatternReader] (s : Shape) : Prop :=
  ∀ spec ∈ s.fields, ∀ v, spec.validator = some v → v.validate spec.default = .ok spec.default

end Shape

/-! Blocks -/

namespace BlockContent

theorem fields_setField (b : BlockContent) (name other : String) (v : FieldValue) :
    (b.setField name v).fields.get? other = if name = other then some v else b.fields.get? other :=
  SortedMap.get?_insert b.fields name other v

section Edits

variable [PatternReader]

def FieldsValid (b : BlockContent) (s : Shape) : Prop :=
  ∀ spec ∈ s.fields, ∀ v, spec.validator = some v →
    ∃ text, b.fields.get? spec.name = some (.text text) ∧ v.validate text = .ok text

def edited (b : BlockContent) (spec : FieldSpec) (raw : String) : BlockContent :=
  match b.editField spec raw with
  | .ok changed => changed
  | .error _ => b

def afterEdits (b : BlockContent) (edits : List (FieldSpec × String)) : BlockContent :=
  edits.foldl (fun b e => b.edited e.1 e.2) b

theorem editField_cases (b : BlockContent) (spec : FieldSpec) (raw : String) :
    (∃ text, applyEdit spec.validator raw = .ok text ∧
      b.editField spec raw = .ok (b.setField spec.name (.text text)) ∧
      b.edited spec raw = b.setField spec.name (.text text)) ∨
    ∃ reason, applyEdit spec.validator raw = .error reason ∧ b.editField spec raw = .error reason ∧
      b.edited spec raw = b := by
  unfold edited editField
  cases outcome : applyEdit spec.validator raw with
  | ok text => exact .inl ⟨text, rfl, rfl, rfl⟩
  | error reason => exact .inr ⟨reason, rfl, rfl, rfl⟩

/-- An accepted edit changes only the field that it is for, to the text that the validator makes of
the raw one. -/
structure EditAccepted (b b' : BlockContent) (spec : FieldSpec) (raw text : String) : Prop where
  given : b.editField spec raw = .ok b'
  normalized : ∀ v, spec.validator = some v → v.validate raw = .ok text
  verbatim : spec.validator = none → text = raw
  held : b'.fields.get? spec.name = some (.text text)
  others : ∀ name, name ≠ spec.name → b'.fields.get? name = b.fields.get? name
  rest : b' = { b with fields := b'.fields }

structure EditRefused (b b' : BlockContent) (spec : FieldSpec) (raw : String)
    (reason : Rejection) : Prop where
  given : b.editField spec raw = .error reason
  cause : ∃ v, spec.validator = some v ∧ v.validate raw = .error reason
  unchanged : b' = b

theorem edit_outcome (b : BlockContent) (spec : FieldSpec) (raw : String) :
    (∃ text, b.EditAccepted (b.edited spec raw) spec raw text) ∨
      ∃ reason, b.EditRefused (b.edited spec raw) spec raw reason := by
  rcases b.editField_cases spec raw with
    ⟨text, allowed, given, changed⟩ | ⟨reason, refused, given, kept⟩
  · left
    refine ⟨text, given.trans (by rw [changed]), ?_, ?_, ?_, ?_, ?_⟩
    · intro v validated
      rwa [validated] at allowed
    · intro free
      rw [free] at allowed
      exact (Except.ok.inj allowed).symm
    · rw [changed, fields_setField, if_pos rfl]
    · intro name other
      rw [changed, fields_setField, if_neg (Ne.symm other)]
    · rw [changed]
      rfl
  · right
    refine ⟨reason, given, ?_, kept⟩
    cases validated : spec.validator with
    | none =>
      rw [validated] at refused
      cases refused
    | some v =>
      rw [validated] at refused
      exact ⟨v, rfl, refused⟩

theorem FieldsValid.edited {b : BlockContent} {s : Shape} (valid : b.FieldsValid s)
    (apart : (s.fields.map (·.name)).Nodup) {spec : FieldSpec} (described : spec ∈ s.fields)
    (raw : String) : (b.edited spec raw).FieldsValid s := by
  intro other listed v validated
  rcases b.edit_outcome spec raw with ⟨text, accepted⟩ | ⟨reason, refused⟩
  · by_cases same : other.name = spec.name
    · -- The names differ from field to field, so the field is the one that was edited.
      obtain rfl : other = spec := List.inj_on_of_nodup_map apart listed described same
      exact ⟨text, accepted.held, Validator.validate_validated (accepted.normalized v validated)⟩
    · rw [accepted.others other.name same]
      exact valid other listed v validated
  · rw [refused.unchanged]
    exact valid other listed v validated

theorem FieldsValid.afterEdits {b : BlockContent} {s : Shape} (valid : b.FieldsValid s)
    (apart : (s.fields.map (·.name)).Nodup) {edits : List (FieldSpec × String)}
    (described : ∀ e ∈ edits, e.1 ∈ s.fields) : (b.afterEdits edits).FieldsValid s := by
  induction edits generalizing b with
  | nil => exact valid
  | cons e rest ih =>
    have next := valid.edited apart (described e List.mem_cons_self) e.2
    exact ih next fun other member => described other (List.mem_cons_of_mem e member)

end Edits

end BlockContent

/-! New blocks -/

namespace Catalogue

theorem lookup_define {c c' : Catalogue} {shape : Shape} {old : Option Shape}
    (defined : c.define shape = .ok (old, c')) :
    shape.fault? = none ∧ c'.lookup shape.kind = some shape := by
  unfold define at defined
  cases fault : shape.fault? with
  | some f => simp [fault] at defined
  | none =>
    rw [fault] at defined
    obtain ⟨_, rfl⟩ := Prod.mk.inj (Except.ok.inj defined)
    refine ⟨rfl, ?_⟩
    rw [lookup, SortedMap.get?_insert, if_pos rfl]

theorem fields_foldl_setField (fields : List FieldSpec) (b : BlockContent) :
    (fields.foldl (fun b f => b.setField f.name (.text f.default)) b).fields =
      (fields.map fun f => (f.name, FieldValue.text f.default)).foldl
        (fun m e => m.insert e.1 e.2) b.fields := by
  induction fields generalizing b with
  | nil => rfl
  | cons f rest ih => exact ih (b.setField f.name (.text f.default))

theorem instantiate_fieldsValid [PatternReader] {c : Catalogue} {shape : Shape}
    (known : c.lookup shape.kind = some shape) (apart : (shape.fields.map (·.name)).Nodup)
    (defaults : shape.DefaultsValid) :
    ∃ fresh, c.instantiate shape.kind = some fresh ∧ fresh.FieldsValid shape := by
  refine ⟨_, by rw [instantiate, known, Option.map_some], ?_⟩
  intro spec listed v validated
  refine ⟨spec.default, ?_, defaults spec listed v validated⟩
  rw [fields_foldl_setField]
  refine SortedMap.get?_ofList ?_ (List.mem_map_of_mem listed)
  rw [List.map_map]
  exact apart

end Catalogue

/-! The catalogue -/

@[reducible] def PatternReader.blind : PatternReader := ⟨fun _ => false, fun _ _ => false⟩

namespace Validator

/-- What is accepted without finding a pattern is accepted however patterns are read. -/
theorem validate_of_blind [PatternReader] {v : Validator} {raw text : String}
    (accepted : @validate .blind v raw = .ok text) : v.validate raw = .ok text := by
  cases v with
  | intRange min max => exact accepted
  | pattern source => cases accepted
  | oneOf options => exact accepted

theorem validate_analogPin [PatternReader] [LawfulPatternReader] :
    analogPin.validate "A0" = .ok "A0" := by
  have trimmed : Text.trim "A0" = "A0" := by decide +kernel
  have named : AnalogPinName "A0" := ⟨['0'], by simp, List.all_eq_true.mp (by decide), .inl rfl⟩
  simp only [analogPin, validate, trimmed, (LawfulPatternReader.analogPin "A0").mpr named, if_true]

end Validator

theorem Esp32.defaultsValid [PatternReader] [LawfulPatternReader] {kind : String} {shape : Shape}
    (known : Esp32.catalogue.lookup kind = some shape) : shape.DefaultsValid := by
  obtain ⟨other, listed, same⟩ := List.mem_map.mp (SortedMap.mem_of_get?_ofList known)
  obtain ⟨_, rfl⟩ := Prod.mk.inj same
  -- Analog pins are the only fields of the catalogue with a pattern.
  have checked : ∀ s ∈ shapes, ∀ spec ∈ s.fields,
      spec = .validated "PIN" "A0" .analogPin ∨ (spec.validator.all fun v =>
        (@Validator.validate .blind v spec.default).toOption = some spec.default) = true := by
    decide +kernel
  intro spec field v validated
  rcases checked other listed spec field with rfl | valid
  · obtain rfl := Option.some.inj validated
    exact Validator.validate_analogPin
  · rw [validated, Option.all_some, decide_eq_true_eq] at valid
    apply Validator.validate_of_blind
    cases given : @Validator.validate .blind v spec.default with
    | ok text =>
      rw [given] at valid
      exact congrArg Except.ok (Option.some.inj valid)
    | error reason =>
      rw [given] at valid
      cases valid

/-- However patterns are read, a new block of a defined kind has a valid text in every field with a
validator, and still has one after any edits of its fields. Every one of these edits changes the
field that it is for and nothing else, or is refused and changes nothing. The kinds of the catalogue
for ESP32 boards all begin with valid defaults if the pattern for analog pins is read as it is
meant. -/
theorem edits_keep_fields_valid [PatternReader] :
    (∀ [LawfulPatternReader] (kind : String) (shape : Shape),
      Esp32.catalogue.lookup kind = some shape → shape.DefaultsValid) ∧
    ∀ (c c' : Catalogue) (shape : Shape) (old : Option Shape), c.define shape = .ok (old, c') →
      shape.DefaultsValid → ∃ fresh, c'.instantiate shape.kind = some fresh ∧
        ∀ edits : List (FieldSpec × String), (∀ e ∈ edits, e.1 ∈ shape.fields) →
          (fresh.afterEdits edits).FieldsValid shape ∧
          ∀ spec ∈ shape.fields, ∀ raw,
            (∃ text, (fresh.afterEdits edits).EditAccepted
              (fresh.afterEdits (edits ++ [(spec, raw)])) spec raw text) ∨
            ∃ reason, (fresh.afterEdits edits).EditRefused
              (fresh.afterEdits (edits ++ [(spec, raw)])) spec raw reason := by
  refine ⟨fun {_} kind shape => Esp32.defaultsValid, ?_⟩
  intro c c' shape old defined defaults
  obtain ⟨faultless, known⟩ := Catalogue.lookup_define defined
  have apart := Shape.fields_apart faultless
  obtain ⟨fresh, made, valid⟩ := Catalogue.instantiate_fieldsValid known apart defaults
  refine ⟨fresh, made, ?_⟩
  intro edits described
  refine ⟨valid.afterEdits apart described, ?_⟩
  intro spec listed raw
  have last : fresh.afterEdits (edits ++ [(spec, raw)]) =
      (fresh.afterEdits edits).edited spec raw :=
    List.foldl_append
  rw [last]
  exact (fresh.afterEdits edits).edit_outcome spec raw

def relayState : FieldSpec := .labelled "STATE" [("ON", "HIGH"), ("OFF", "LOW")]

def relayShape : Shape :=
  (Shape.statement "esp32_relay_set").withTooltip "ON / OFF relay (digitalWrite)"
    |>.withField (Esp32.gpioPin "4") |>.withField relayState

def relayEdits : List (FieldSpec × String) :=
  [(Esp32.gpioPin "4", " +07\t"), (Esp32.gpioPin "4", "41"), (relayState, "ON")]

theorem relay_edits_keep_fields_valid :
    ∃ c' fresh, Catalogue.empty.define relayShape = .ok (none, c') ∧ relayShape.DefaultsValid ∧
      c'.instantiate relayShape.kind = some fresh ∧
        (fresh.afterEdits relayEdits).FieldsValid relayShape := by
  have listed : relayShape ∈ Esp32.shapes := by decide +kernel
  have defined : Catalogue.empty.define relayShape =
      .ok (none, ⟨Catalogue.empty.shapes.insert relayShape.kind relayShape⟩) := by
    rw [Catalogue.define, Esp32.shapes_faultless relayShape listed]
    rfl
  have defaults : relayShape.DefaultsValid :=
    edits_keep_fields_valid.1 _ _ (Esp32.lookup_of_mem listed)
  obtain ⟨fresh, made, every⟩ := edits_keep_fields_valid.2 .empty _ relayShape none defined defaults
  exact ⟨_, fresh, defined, defaults, made, (every relayEdits (by decide +kernel)).1⟩

end BlockSketch
