import BlockSketch.Proofs.Text.Numerals
import BlockSketch.Shape.Validator

/-
Integer fields. A text is accepted exactly if it is the numeral of an integer within the bounds, and
what is left in the field is the canonical numeral of that integer. So the texts of a field tell its
integers apart, however they were typed.
-/
namespace BlockSketch
namespace Validator

theorem validateRange_iff {min max : Option Int} {n : Int} {text : String} :
    validateRange min max n = .ok text ↔
      ((∀ low, min = some low → low ≤ n) ∧ ∀ high, max = some high → n ≤ high) ∧
        text = toString n := by
  have lowest : min.filter (n < ·) = none ↔ ∀ low, min = some low → low ≤ n := by
    simp [Option.filter_eq_none_iff]
  have highest : max.filter (· < n) = none ↔ ∀ high, max = some high → n ≤ high := by
    simp [Option.filter_eq_none_iff]
  rw [← lowest, ← highest, validateRange]
  cases below : min.filter (n < ·) with
  | some low => simp
  | none =>
    cases above : max.filter (· < n) with
    | some high => simp
    | none =>
      simp only [Except.ok.injEq, true_and]
      exact eq_comm

theorem validate_integer_iff [PatternReader] {min max : Option Int} {raw text : String} :
    (intRange min max).validate raw = .ok text ↔
      ∃ n, (Text.Denotes raw n ∧ Text.wordMin ≤ n ∧ n ≤ Text.wordMax ∧
        (∀ low, min = some low → low ≤ n) ∧ ∀ high, max = some high → n ≤ high) ∧
          text = toString n := by
  simp only [validate, Text.denotes_iff]
  cases read : Text.integer? (Text.trim raw).toList with
  | none =>
    constructor
    · intro accepted
      cases accepted
    · rintro ⟨n, ⟨numeral, low, high, _⟩, _⟩
      rw [Text.integer?_iff.mpr ⟨numeral, low, high⟩] at read
      cases read
  | some k =>
    obtain ⟨numeral, low, high⟩ := Text.integer?_iff.mp read
    dsimp only
    rw [validateRange_iff]
    constructor
    · rintro ⟨bounds, same⟩
      exact ⟨k, ⟨numeral, low, high, bounds⟩, same⟩
    · rintro ⟨n, ⟨other, _, _, bounds⟩, same⟩
      cases other.unique numeral
      exact ⟨bounds, same⟩

/-- An edit of an integer field is accepted exactly if it is a numeral, with or without white space
around it, of a 64-bit integer within the bounds. It leaves the one canonical numeral of that
integer, so two accepted texts leave the same if and only if they denote the same integer. -/
theorem integer_edits_are_normalized [PatternReader] (min max : Option Int) :
    (∀ raw, (∃ text, (intRange min max).validate raw = .ok text) ↔
      ∃ n, Text.Denotes raw n ∧ Text.wordMin ≤ n ∧ n ≤ Text.wordMax ∧
        (∀ low, min = some low → low ≤ n) ∧ ∀ high, max = some high → n ≤ high) ∧
    (∀ raw text, (intRange min max).validate raw = .ok text →
      ∃ n, Text.Denotes raw n ∧ (∀ other, Text.Denotes raw other → other = n) ∧
        ∀ spelling : String, Text.Canonical n spelling.toList ↔ spelling = text) ∧
    (∀ raw raw' text text', (intRange min max).validate raw = .ok text →
      (intRange min max).validate raw' = .ok text' →
        (text = text' ↔ ∃ n, Text.Denotes raw n ∧ Text.Denotes raw' n)) := by
  refine ⟨?_, ?_, ?_⟩
  · intro raw
    simp only [validate_integer_iff]
    constructor
    · rintro ⟨text, n, accepted, _⟩
      exact ⟨n, accepted⟩
    · rintro ⟨n, accepted⟩
      exact ⟨toString n, n, accepted, rfl⟩
  · intro raw text accepted
    obtain ⟨n, ⟨denotes, _⟩, rfl⟩ := validate_integer_iff.mp accepted
    refine ⟨n, denotes, fun other also => also.unique denotes, fun spelling => ?_⟩
    rw [Text.canonical_iff, String.toList_inj]
  · intro raw raw' text text' first second
    obtain ⟨m, ⟨denotes, _⟩, rfl⟩ := validate_integer_iff.mp first
    obtain ⟨n, ⟨denotes', _⟩, rfl⟩ := validate_integer_iff.mp second
    constructor
    · intro same
      have spelled : Text.Canonical m (toString n).toList := same ▸ Text.canonical_toString m
      have equal : m = n := spelled.numeral.unique (Text.canonical_toString n).numeral
      exact ⟨m, denotes, equal ▸ denotes'⟩
    · rintro ⟨k, one, two⟩
      rw [denotes.unique one, denotes'.unique two]

end Validator
end BlockSketch
