import BlockSketch.Proofs.Shape.Pattern
import BlockSketch.Proofs.Text.Canonical
import BlockSketch.Shape.Esp32
import BlockSketch.Workspace.Block

/-
Fields that the validators of the catalogue leave as they are. What such a field can hold depends on
its validator: a whole number in its canonical form, one of the options, or the name of an analog
pin.
-/
namespace BlockSketch

/-- An edit to the text would be accepted and would change nothing of it. -/
def FieldSpec.Accepts [PatternReader] (spec : FieldSpec) (text : String) : Prop :=
  applyEdit spec.validator text = .ok text

/-- Every field that the catalogue describes for the block's kind holds a text that is accepted. -/
def Block.Accepted [PatternReader] (b : Block) : Prop :=
  ∀ shape, Esp32.catalogue.lookup b.kind = some shape →
    ∀ spec ∈ shape.fields, ∀ v, b.fields.get? spec.name = some v → spec.Accepts v.asText

namespace Validator

variable [PatternReader]

theorem whole_of_accepted {max : Option Int} {raw : String}
    (accepted : (intRange (some 0) max).validate raw = .ok raw) :
    ∃ n : Nat, raw = toString n ∧ n < Text.wordCount := by
  simp only [validate] at accepted
  cases read : Text.integer? (Text.trim raw).toList with
  | none => simp [read] at accepted
  | some n =>
    have bound := (Text.integer?_bounds read).2
    simp only [read, validateRange, Option.filter_some] at accepted
    split at accepted
    · cases accepted
    · cases accepted
    · rename_i low high
      have nonneg : 0 ≤ n := by simpa using low
      obtain ⟨k, rfl⟩ := Int.eq_ofNat_of_zero_le nonneg
      refine ⟨k, (Except.ok.inj accepted).symm, ?_⟩
      simp only [Text.wordMax] at bound
      simp only [Text.wordCount]
      omega

theorem option_of_accepted {options : List String} {raw : String}
    (accepted : (oneOf options).validate raw = .ok raw) : raw ∈ options := by
  simp only [validate] at accepted
  split at accepted
  · rename_i listed
    exact List.contains_iff_mem.mp listed
  · cases accepted

theorem analogPin_of_accepted [LawfulPatternReader] {raw : String}
    (accepted : analogPin.validate raw = .ok raw) : AnalogPinName raw := by
  simp only [analogPin, validate] at accepted
  split at accepted
  · rename_i found
    rw [Except.ok.inj accepted] at found
    exact (LawfulPatternReader.analogPin raw).mp found
  · cases accepted

end Validator

namespace Esp32

def describes (kind : String) (spec : FieldSpec) : Bool :=
  shapes.any fun shape => shape.kind = kind && shape.fields.contains spec

theorem lookup_of_mem {shape : Shape} (listed : shape ∈ shapes) :
    catalogue.lookup shape.kind = some shape := by
  have apart : ((shapes.map fun s => (s.kind, s)).map Prod.fst).Nodup := by decide +kernel
  have entry : (shape.kind, shape) ∈ shapes.map fun s => (s.kind, s) :=
    List.mem_map.mpr ⟨shape, listed, rfl⟩
  rw [Catalogue.lookup, catalogue]
  exact SortedMap.get?_ofList apart entry

end Esp32

namespace Block

variable [PatternReader] {b : Block} {name : String}

def checkFields (b : Block) : Bool :=
  Esp32.shapes.all fun shape => shape.kind ≠ b.kind || shape.fields.all fun spec =>
    match applyEdit spec.validator (b.fieldText spec.name) with
    | .ok text => text = b.fieldText spec.name
    | .error _ => false

theorem accepted_of_checkFields (checked : b.checkFields = true) : b.Accepted := by
  intro shape known spec field v found
  obtain ⟨other, listed, same⟩ := List.mem_map.mp (SortedMap.mem_of_get?_ofList known)
  obtain ⟨kind, rfl⟩ := Prod.mk.inj same
  have fields := List.all_eq_true.mp checked other listed
  simp only [kind, ne_eq, not_true_eq_false, decide_false, Bool.false_or] at fields
  have accepts := List.all_eq_true.mp fields spec field
  rw [BlockContent.fieldText, found] at accepts
  unfold FieldSpec.Accepts
  split at accepts
  · rename_i text given
    rw [given, of_decide_eq_true accepts]
  · cases accepts

theorem Accepted.text (accepted : b.Accepted) {spec : FieldSpec}
    (described : Esp32.describes b.kind spec = true) :
    b.fieldText spec.name = "" ∨ spec.Accepts (b.fieldText spec.name) := by
  obtain ⟨shape, listed, same⟩ := List.any_eq_true.mp described
  rw [Bool.and_eq_true, decide_eq_true_eq, List.contains_iff_mem] at same
  have known := Esp32.lookup_of_mem listed
  rw [same.1] at known
  unfold BlockContent.fieldText
  cases found : b.fields.get? spec.name with
  | none => exact Or.inl rfl
  | some v => exact Or.inr (accepted shape known spec same.2 v found)

theorem Accepted.validated (accepted : b.Accepted) {default : String} {v : Validator}
    (described : Esp32.describes b.kind (.validated name default v) = true) :
    b.fieldText name = "" ∨ v.validate (b.fieldText name) = .ok (b.fieldText name) :=
  accepted.text described

theorem Accepted.whole (accepted : b.Accepted) (default : String) (max : Option Int)
    (described : Esp32.describes b.kind (.validated name default (.intRange (some 0) max)) = true) :
    b.fieldText name = "" ∨ ∃ n : Nat, b.fieldText name = toString n ∧ n < Text.wordCount :=
  (accepted.validated described).imp_right Validator.whole_of_accepted

theorem Accepted.option (accepted : b.Accepted) {pairs : List (String × String)}
    (described : Esp32.describes b.kind (.labelled name pairs) = true) :
    b.fieldText name = "" ∨ b.fieldText name ∈ pairs.map Prod.snd := by
  refine (accepted.text described).imp_right fun allowed => ?_
  have listed := Validator.option_of_accepted allowed
  rw [List.map_map] at listed
  exact listed

theorem Accepted.analogPin [LawfulPatternReader] (accepted : b.Accepted) (default : String)
    (described : Esp32.describes b.kind (.validated name default .analogPin) = true) :
    b.fieldText name = "" ∨ AnalogPinName (b.fieldText name) :=
  (accepted.validated described).imp_right Validator.analogPin_of_accepted

end Block
end BlockSketch
