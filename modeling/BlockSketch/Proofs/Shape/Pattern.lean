import BlockSketch.Shape.Validator

/-
What patterns match. A pattern matches some of a text at a place: the relation says what is read and
what is left of the text, and whether the place is the start. Matching by derivatives finds exactly
what matches, so the reader takes the pattern for analog pins as it is meant.
-/
namespace BlockSketch
namespace Pattern

inductive Matches : Pattern → Bool → List Char → List Char → Prop where
  | empty {start : Bool} {rest : List Char} : Matches .empty start [] rest
  | atStart {rest : List Char} : Matches .atStart true [] rest
  | atEnd {start : Bool} : Matches .atEnd start [] []
  | char {set : CharSet} {start : Bool} {c : Char} {rest : List Char}
      (member : set.contains c = true) : Matches (.char set) start [c] rest
  | seq {p q : Pattern} {start : Bool} {a b rest : List Char}
      (first : Matches p start a (b ++ rest))
      (second : Matches q (start && a.isEmpty) b rest) : Matches (.seq p q) start (a ++ b) rest
  | left {p q : Pattern} {start : Bool} {read rest : List Char}
      (one : Matches p start read rest) : Matches (.alt p q) start read rest
  | right {p q : Pattern} {start : Bool} {read rest : List Char}
      (one : Matches q start read rest) : Matches (.alt p q) start read rest
  | stop {p : Pattern} {start : Bool} {rest : List Char} : Matches (.star p) start [] rest
  | again {p : Pattern} {start : Bool} {a b rest : List Char}
      (first : Matches p start a (b ++ rest))
      (second : Matches (.star p) (start && a.isEmpty) b rest) :
      Matches (.star p) start (a ++ b) rest

section Derivatives

variable {p q : Pattern} {start : Bool} {read rest : List Char} {c : Char}

theorem matches_seq_iff :
    Matches (.seq p q) start read rest ↔
      ∃ a b, read = a ++ b ∧ Matches p start a (b ++ rest) ∧
        Matches q (start && a.isEmpty) b rest := by
  constructor
  · intro given
    cases given with
    | seq first second => exact ⟨_, _, rfl, first, second⟩
  · rintro ⟨a, b, rfl, first, second⟩
    exact Matches.seq first second

theorem matches_alt_iff :
    Matches (.alt p q) start read rest ↔
      Matches p start read rest ∨ Matches q start read rest := by
  constructor
  · intro given
    cases given with
    | left one => exact .inl one
    | right one => exact .inr one
  · rintro (one | one)
    · exact Matches.left one
    · exact Matches.right one

theorem not_matches_never : ¬ Matches .never start read rest := nofun

theorem matches_empty_iff : Matches .empty start read rest ↔ read = [] := by
  constructor
  · intro given
    cases given
    rfl
  · rintro rfl
    exact Matches.empty

theorem matches_andThen_iff :
    Matches (p.andThen q) start read rest ↔ Matches (.seq p q) start read rest := by
  rw [matches_seq_iff]
  unfold andThen
  split
  · constructor
    · exact fun given => absurd given not_matches_never
    · rintro ⟨_, _, _, first, _⟩
      exact absurd first not_matches_never
  · constructor
    · exact fun given => absurd given not_matches_never
    · rintro ⟨_, _, _, _, second⟩
      exact absurd second not_matches_never
  · constructor
    · intro given
      refine ⟨[], read, rfl, Matches.empty, ?_⟩
      simpa using given
    · rintro ⟨a, b, rfl, first, second⟩
      rw [matches_empty_iff.mp first] at second ⊢
      simpa using second
  · exact matches_seq_iff

theorem matches_orElse_iff :
    Matches (p.orElse q) start read rest ↔ Matches (.alt p q) start read rest := by
  rw [matches_alt_iff]
  unfold orElse
  split
  · simp [not_matches_never]
  · simp [not_matches_never]
  · exact matches_alt_iff

theorem matches_nil_iff :
    Matches p start [] rest ↔ p.nullable start rest.isEmpty = true := by
  induction p generalizing start with
  | never => exact ⟨nofun, nofun⟩
  | empty => exact ⟨fun _ => rfl, fun _ => Matches.empty⟩
  | atStart =>
    constructor
    · intro given
      cases given
      rfl
    · intro null
      obtain rfl : start = true := null
      exact Matches.atStart
  | atEnd =>
    constructor
    · intro given
      cases given
      rfl
    · intro null
      obtain rfl : rest = [] := List.isEmpty_iff.mp null
      exact Matches.atEnd
  | char set => exact ⟨nofun, nofun⟩
  | seq p q first second =>
    rw [matches_seq_iff, nullable, Bool.and_eq_true, ← first, ← second]
    constructor
    · rintro ⟨a, b, same, one, two⟩
      obtain ⟨rfl, rfl⟩ := List.append_eq_nil_iff.mp same.symm
      exact ⟨one, by simpa using two⟩
    · rintro ⟨one, two⟩
      exact ⟨[], [], rfl, one, by simpa using two⟩
  | alt p q first second =>
    rw [matches_alt_iff, nullable, Bool.or_eq_true, first, second]
  | star p ih => exact ⟨fun _ => rfl, fun _ => Matches.stop⟩

/-- Rounds of a repetition that read nothing can be left out. -/
theorem star_cons (given : Matches (.star p) start (c :: read) rest) :
    ∃ a b, read = a ++ b ∧ Matches p start (c :: a) (b ++ rest) ∧
      Matches (.star p) false b rest := by
  generalize repeated : Pattern.star p = s at given
  generalize whole : c :: read = text at given
  induction given with
  | empty | atStart | atEnd | char | seq | left | right => cases repeated
  | stop => cases whole
  | @again _ start a b rest first second _ ih =>
    cases repeated
    cases a with
    | nil =>
      obtain ⟨a, b, same, one, more⟩ := ih rfl whole
      exact ⟨a, b, same, by simpa using one, more⟩
    | cons d a =>
      obtain ⟨rfl, rfl⟩ := List.cons.inj whole
      exact ⟨a, b, rfl, first, by simpa using second⟩

/-- What is left to match once a character has been read matches what completes a match. -/
theorem matches_cons_iff :
    Matches p start (c :: read) rest ↔ Matches (p.derive start c) false read rest := by
  induction p generalizing start read rest with
  | never | empty | atStart | atEnd => exact ⟨nofun, nofun⟩
  | char set =>
    unfold derive
    constructor
    · intro given
      cases given with
      | char member =>
        rw [if_pos member]
        exact Matches.empty
    · intro given
      split at given
      · rename_i member
        cases given
        exact Matches.char member
      · cases given
  | seq p q first second =>
    -- The character is read by the first part, unless that part reads nothing.
    have split : Matches (.seq p q) start (c :: read) rest ↔
        Matches ((p.derive start c).andThen q) false read rest ∨
          p.nullable start false = true ∧ Matches (q.derive start c) false read rest := by
      rw [matches_andThen_iff, matches_seq_iff, matches_seq_iff, ← second]
      constructor
      · rintro ⟨a, b, same, one, two⟩
        cases a with
        | nil =>
          rw [List.nil_append] at same
          subst same
          exact .inr ⟨matches_nil_iff.mp one, by simpa using two⟩
        | cons d a =>
          obtain ⟨rfl, rfl⟩ := List.cons.inj same
          exact .inl ⟨a, b, rfl, first.mp one, by simpa using two⟩
      · rintro (⟨a, b, rfl, one, two⟩ | ⟨null, two⟩)
        · exact ⟨c :: a, b, rfl, first.mpr one, by simpa using two⟩
        · exact ⟨[], c :: read, rfl, matches_nil_iff.mpr null, by simpa using two⟩
    rw [split, derive]
    cases p.nullable start false with
    | true => rw [if_pos rfl, matches_orElse_iff, matches_alt_iff, eq_self, true_and]
    | false => simp
  | alt p q first second =>
    rw [matches_alt_iff, derive, matches_orElse_iff, matches_alt_iff, first, second]
  | star p ih =>
    rw [derive, matches_andThen_iff, matches_seq_iff]
    constructor
    · intro given
      obtain ⟨a, b, same, one, more⟩ := star_cons given
      exact ⟨a, b, same, ih.mp one, more⟩
    · rintro ⟨a, b, rfl, one, more⟩
      have later : Matches (.star p) (start && (c :: a).isEmpty) b rest := by simpa using more
      exact Matches.again (ih.mpr one) later

theorem matchesFrom_iff {text : List Char} :
    matchesFrom start p text = true ↔
      ∃ read rest, text = read ++ rest ∧ Matches p start read rest := by
  induction text generalizing p start with
  | nil =>
    constructor
    · intro null
      exact ⟨[], [], rfl, matches_nil_iff.mpr null⟩
    · rintro ⟨read, rest, same, one⟩
      obtain ⟨rfl, rfl⟩ := List.append_eq_nil_iff.mp same.symm
      exact matches_nil_iff.mp one
  | cons c text ih =>
    rw [matchesFrom, Bool.or_eq_true, ih]
    constructor
    · rintro (null | ⟨read, rest, rfl, one⟩)
      · exact ⟨[], c :: text, rfl, matches_nil_iff.mpr null⟩
      · exact ⟨c :: read, rest, rfl, matches_cons_iff.mpr one⟩
    · rintro ⟨read, rest, same, one⟩
      cases read with
      | nil =>
        rw [List.nil_append] at same
        subst same
        exact .inl (matches_nil_iff.mp one)
      | cons d read =>
        obtain ⟨rfl, rfl⟩ := List.cons.inj same
        exact .inr ⟨read, rest, rfl, matches_cons_iff.mp one⟩

end Derivatives

theorem matches_star_char_iff {set : CharSet} {start : Bool} {read rest : List Char} :
    Matches (.star (.char set)) start read rest ↔ ∀ c ∈ read, set.contains c = true := by
  induction read generalizing start with
  | nil =>
    constructor
    · exact fun _ _ member => absurd member List.not_mem_nil
    · exact fun _ => Matches.stop
  | cons c read ih =>
    rw [List.forall_mem_cons]
    constructor
    · intro given
      obtain ⟨a, b, rfl, one, more⟩ := star_cons given
      cases one with
      | char member => exact ⟨member, ih.mp more⟩
    · rintro ⟨member, others⟩
      exact Matches.again (a := [c]) (Matches.char member) (ih.mpr others)

theorem occursIn_iff {p : Pattern} {text : String} :
    p.occursIn text = true ↔
      ∃ before read rest, text.toList = before ++ read ++ rest ∧
        Matches p before.isEmpty read rest := by
  rw [occursIn, matchesFrom_iff]
  constructor
  · rintro ⟨_, rest, whole, one⟩
    obtain ⟨before, read, rfl, _, later⟩ := matches_seq_iff.mp one
    exact ⟨before, read, rest, whole, by simpa using later⟩
  · rintro ⟨before, read, rest, whole, one⟩
    have skipped : Matches (.star (.char (.negated .none))) true before (read ++ rest) :=
      matches_star_char_iff.mpr fun _ _ => rfl
    exact ⟨before ++ read, rest, whole, Matches.seq skipped (by simpa using one)⟩

theorem matches_seq_empty_iff {p : Pattern} {start : Bool} {read rest : List Char} :
    Matches (.seq p .empty) start read rest ↔ Matches p start read rest := by
  rw [matches_seq_iff]
  constructor
  · rintro ⟨a, b, rfl, first, second⟩
    rw [matches_empty_iff.mp second] at first ⊢
    simpa using first
  · intro given
    exact ⟨read, [], by simp, by simpa using given, Matches.empty⟩

end Pattern

/-! Analog pins -/

def AnalogPinName (text : String) : Prop :=
  ∃ digits : List Char, digits ≠ [] ∧ (∀ c ∈ digits, Text.isDecimalDigit c = true) ∧
    (text.toList = 'A' :: digits ∨ text.toList = digits)

/-- A reader that takes the pattern for analog pins as it is meant. Nothing is asked of it about any
other pattern. -/
class LawfulPatternReader [PatternReader] : Prop where
  analogPin (text : String) :
    PatternReader.occurs Validator.analogPinSource text = true ↔ AnalogPinName text

namespace Pattern

def number : Pattern := .seq (.seq (.char .digit) .empty) (.star (.char .digit))

def analogPin : Pattern :=
  .seq .atStart (.seq
    (.alt (.seq (.char (.one 'A')) (.seq number .empty)) (.seq number .empty))
    (.seq .atEnd .empty))

theorem parse_analogPin : parse? Validator.analogPinSource = some analogPin := by
  rfl

theorem matches_number_iff {start : Bool} {read rest : List Char} :
    Matches number start read rest ↔
      read ≠ [] ∧ ∀ c ∈ read, Text.isDecimalDigit c = true := by
  rw [number, matches_seq_iff]
  constructor
  · rintro ⟨a, b, rfl, first, second⟩
    cases matches_seq_empty_iff.mp first with
    | char member =>
      refine ⟨by simp, ?_⟩
      rw [List.singleton_append, List.forall_mem_cons]
      exact ⟨member, matches_star_char_iff.mp second⟩
  · rintro ⟨nonempty, digits⟩
    cases read with
    | nil => exact absurd rfl nonempty
    | cons c read =>
      rw [List.forall_mem_cons] at digits
      exact ⟨[c], read, rfl, matches_seq_empty_iff.mpr (Matches.char digits.1),
        matches_star_char_iff.mpr digits.2⟩

/-- With its two anchors, the pattern is about the whole text. -/
theorem analogPin_occurs_iff {text : String} :
    analogPin.occursIn text = true ↔ AnalogPinName text := by
  rw [analogPin, occursIn_iff]
  constructor
  · rintro ⟨before, read, rest, whole, one⟩
    obtain ⟨a, b, rfl, anchor, later⟩ := matches_seq_iff.mp one
    obtain ⟨d, e, rfl, choice, last⟩ := matches_seq_iff.mp later
    generalize begins : before.isEmpty = start at anchor
    cases anchor
    cases matches_seq_empty_iff.mp last
    rw [List.isEmpty_iff.mp begins] at whole
    simp only [List.nil_append, List.append_nil] at whole
    rcases matches_alt_iff.mp choice with lettered | plain
    · obtain ⟨letter, digits, rfl, isLetter, more⟩ := matches_seq_iff.mp lettered
      obtain ⟨nonempty, decimal⟩ := matches_number_iff.mp (matches_seq_empty_iff.mp more)
      cases isLetter with
      | char same =>
        rw [of_decide_eq_true same] at whole
        exact ⟨digits, nonempty, decimal, .inl whole⟩
    · obtain ⟨nonempty, decimal⟩ := matches_number_iff.mp (matches_seq_empty_iff.mp plain)
      exact ⟨d, nonempty, decimal, .inr whole⟩
  · rintro ⟨digits, nonempty, decimal, spelled⟩
    have digitsMatch : ∀ start rest, Matches (.seq number .empty) start digits rest :=
      fun _ _ => matches_seq_empty_iff.mpr (matches_number_iff.mpr ⟨nonempty, decimal⟩)
    refine ⟨[], text.toList, [], (List.append_nil _).symm, ?_⟩
    refine Matches.seq (a := []) Matches.atStart ?_
    refine matches_seq_iff.mpr ⟨text.toList, [], (List.append_nil _).symm, ?_, ?_⟩
    · rcases spelled with lettered | plain
      · rw [lettered]
        have letter : Matches (.char (.one 'A')) true ['A'] (digits ++ []) := Matches.char rfl
        exact Matches.left (Matches.seq letter (digitsMatch _ _))
      · rw [plain]
        exact Matches.right (digitsMatch _ _)
    · exact matches_seq_empty_iff.mpr Matches.atEnd

instance : LawfulPatternReader where
  analogPin text := by
    have read : PatternReader.occurs Validator.analogPinSource text = analogPin.occursIn text :=
      congrArg (Option.any (·.occursIn text)) parse_analogPin
    rw [read, analogPin_occurs_iff]

end Pattern
end BlockSketch
