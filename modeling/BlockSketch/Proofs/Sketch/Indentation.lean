import BlockSketch.Proofs.Code.Brackets
import BlockSketch.Proofs.Number.LiteralText
import BlockSketch.Proofs.Sketch.Contract
import BlockSketch.Proofs.Sketch.Resources

/-
Brackets and indentation of sketches. The code of a value is part of a row, the code of statements
is made of rows at depth zero, and whatever a rule puts between braces is indented. So if brackets
come from rules alone, they match, and every line of a sketch stands as far in as its braces say.
-/
namespace BlockSketch
open Code

def Unbracketed (text : String) : Prop := ∀ c ∈ text.toList, c ∉ ['\n', '(', ')', '\x7b', '\x7d']

instance (text : String) : Decidable (Unbracketed text) :=
  decidable_of_iff ((text.toList.all fun c => !(['\n', '(', ')', '\x7b', '\x7d'].contains c)) =
    true)
    (by simp [Unbracketed])

structure Inline (code : String) : Prop where
  begins : Scans .start code (.within false 0)
  within : ∀ closes parens, Scans (.within closes parens) code (.within closes parens)

namespace Unbracketed

variable {text other : String}

theorem append (first : Unbracketed text) (second : Unbracketed other) :
    Unbracketed (text ++ other) := by
  intro c member
  rw [String.toList_append] at member
  rcases List.mem_append.mp member with here | there
  · exact first c here
  · exact second c there

theorem within (free : Unbracketed text) (closes : Bool) (parens : Nat) :
    Scans (.within closes parens) text (.within closes parens) := by
  unfold Unbracketed at free
  unfold Scans
  generalize text.toList = chars at free ⊢
  induction chars with
  | nil => rfl
  | cons c rest ih =>
    have step : scanRow (.within closes parens) c = some (.within closes parens) := by
      have apart := free c List.mem_cons_self
      simp only [List.mem_cons, List.not_mem_nil, or_false, not_or] at apart
      simp [scanRow, scanWithin, apart]
    rw [List.foldlM_cons, step]
    exact ih fun d member => free d (List.mem_cons_of_mem c member)

theorem inline (free : Unbracketed text) {c : Char} {rest : List Char}
    (begun : text.toList = c :: rest) (visible : Text.isBlankChar c = false) : Inline text := by
  refine ⟨?_, free.within⟩
  have apart := free c (by rw [begun]; exact List.mem_cons_self)
  simp only [List.mem_cons, List.not_mem_nil, or_false, not_or] at apart
  have first : scanRow .start c = scanRow (.within false 0) c := by simp [scanRow, visible, apart]
  have same := free.within false 0
  rw [Scans, begun, List.foldlM_cons] at same ⊢
  rw [first]
  exact same

end Unbracketed

section Texts

theorem visible_of_word {c : Char} (word : continuesName c = true ∨ c = '.' ∨ c = '-') :
    Text.isBlankChar c = false ∧ c ∉ ['\n', '(', ')', '\x7b', '\x7d'] := by
  rcases word with inName | rfl | rfl
  · constructor
    · have range : 48 ≤ c.toNat ∧ c.toNat ≤ 122 := by
        delta continuesName Char.isAlphanum Char.isAlpha Char.isUpper Char.isLower Char.isDigit
          at inName
        simp only [UInt32.le_iff_toNat_le, ge_iff_le, Bool.or_eq_true, Bool.and_eq_true,
          decide_eq_true_eq] at inName
        rcases inName with ((⟨low, high⟩ | ⟨low, high⟩) | ⟨low, high⟩) | rfl
        · exact ⟨Nat.le_trans (by decide) low, Nat.le_trans high (by decide)⟩
        · exact ⟨Nat.le_trans (by decide) low, Nat.le_trans high (by decide)⟩
        · exact ⟨low, Nat.le_trans high (by decide)⟩
        · decide
      have apart : ∀ r ∈ Text.blankRanges, r.2 < 48 ∨ 122 < r.1 := by decide
      rw [Text.isBlankChar, List.any_eq_false]
      intro r listed
      rw [Bool.and_eq_true, decide_eq_true_eq, decide_eq_true_eq]
      have outside := apart r listed
      omega
    · intro bracket
      simp only [List.mem_cons, List.not_mem_nil, or_false] at bracket
      rcases bracket with rfl | rfl | rfl | rfl | rfl <;> cases inName
  · decide
  · decide

theorem inline_word {text : String} (begun : text.toList ≠ [])
    (each : ∀ c ∈ text.toList, continuesName c = true ∨ c = '.' ∨ c = '-') : Inline text := by
  obtain ⟨c, rest, same⟩ := List.exists_cons_of_ne_nil begun
  have free : Unbracketed text := fun d member => (visible_of_word (each d member)).2
  exact free.inline same (visible_of_word (each c (by rw [same]; exact List.mem_cons_self))).1

theorem word_of_isName {word : List Char} (isName : IsName word) :
    word ≠ [] ∧ ∀ c ∈ word, continuesName c = true := by
  obtain ⟨s, rest, rfl, first, others⟩ := isName.starts
  refine ⟨List.cons_ne_nil s rest, fun c member => ?_⟩
  rcases List.mem_cons.mp member with rfl | later
  · simp only [startsName, Bool.or_eq_true] at first
    rcases first with letter | line
    · exact Identifier.alphanum_continues (by simp [Char.isAlphanum, letter])
    · simp [continuesName, line]
  · exact others c later

theorem word_of_isNumeral {word : List Char} (isNumeral : IsNumeral word) :
    word ≠ [] ∧ ∀ c ∈ word, continuesName c = true ∨ c = '.' := by
  obtain ⟨s, rest, rfl, first, others⟩ := isNumeral.starts
  have digit : ∀ c : Char, c.isDigit = true → continuesName c = true := fun c isDigit =>
    Identifier.alphanum_continues (Identifier.digit_alphanum isDigit)
  refine ⟨List.cons_ne_nil s rest, fun c member => ?_⟩
  rcases List.mem_cons.mp member with rfl | later
  · exact Or.inl (digit c first)
  · exact (others c later).imp_left (digit c)

theorem inline_name {name : String} (isName : IsName name.toList) : Inline name :=
  inline_word (word_of_isName isName).1 fun c member => Or.inl ((word_of_isName isName).2 c member)

theorem inline_literal (x : Binary64) : Inline x.literal := by
  obtain ⟨word, text, shape⟩ := x.literal_shape
  have chars : word ≠ [] ∧ ∀ c ∈ word, continuesName c = true ∨ c = '.' := by
    rcases shape with isName | isNumeral
    · exact ⟨(word_of_isName isName).1, fun c member => Or.inl ((word_of_isName isName).2 c member)⟩
    · exact word_of_isNumeral isNumeral
  refine inline_word (by simp [text, chars.1]) fun c member => ?_
  rw [text] at member
  rcases List.mem_append.mp member with sign | inWord
  · split at sign
    · exact Or.inr (Or.inr (List.mem_singleton.mp sign))
    · cases sign
  · exact (chars.2 c inWord).imp_right Or.inl

theorem inline_number (raw : String) : Inline (Rules.numberLiteral raw).1 := by
  unfold Rules.numberLiteral
  split
  · exact inline_literal _
  · exact ⟨rfl, fun _ _ => rfl⟩

theorem unbracketed_quoteChar {c d : Char} (free : c ∉ ['\n', '(', ')', '\x7b', '\x7d'])
    (member : d ∈ Layout.quoteChar c) : d ∉ ['\n', '(', ')', '\x7b', '\x7d'] := by
  unfold Layout.quoteChar at member
  split at member
  case h_6 => rwa [List.mem_singleton.mp member]
  all_goals
    simp only [List.mem_cons, List.not_mem_nil, or_false] at member
    rcases member with rfl | rfl <;> decide

theorem inline_quote {text : String} (free : Unbracketed text) : Inline (Layout.quote text) := by
  have quoted : Unbracketed (Layout.quote text) := by
    refine Unbracketed.append (Unbracketed.append (by decide) fun d member => ?_) (by decide)
    rw [String.toList_ofList] at member
    obtain ⟨c, here, there⟩ := List.mem_flatMap.mp member
    exact unbracketed_quoteChar (free c here) there
  have begun : (Layout.quote text).toList =
      '"' :: ((text.toList.flatMap Layout.quoteChar) ++ ['"']) := by
    simp [Layout.quote]
  exact quoted.inline begun (by decide)

theorem rows_indent {body : String} (rows : Rows 0 0 body.toList 0) :
    Rows 1 1 (Layout.indent body).toList 1 := by
  rw [Layout.toList_indent]
  exact rows.indent

theorem scans_around {p q : RowPlace} {closes : Bool} {parens : Nat} {head text tail : String}
    (before : Scans p head (.within closes parens))
    (within : ∀ closes parens, Scans (.within closes parens) text (.within closes parens))
    (after : Scans (.within closes parens) tail q) : Scans p (head ++ text ++ tail) q :=
  (before.append (within closes parens)).append after

theorem inline_call {head text : String} (begins : Scans .start head (.within false 1))
    (opens : ∀ closes parens, Scans (.within closes parens) head (.within closes (parens + 1)))
    (within : ∀ closes parens, Scans (.within closes parens) text (.within closes parens)) :
    Inline (head ++ text ++ ")") :=
  ⟨scans_around begins within (by rfl), fun closes parens =>
    scans_around (opens closes parens) within (by rfl)⟩

theorem rows_append {a b : String} {first middle last : Nat} (one : Rows 0 first a.toList middle)
    (two : Rows 0 middle b.toList last) : Rows 0 first (a ++ b).toList last := by
  rw [String.toList_append]
  exact one.append two

theorem rows_line {line : String} (scans : Scans .start line (.ended false false)) :
    Rows 0 0 line.toList 0 :=
  rows_of_scans 0 scans

theorem rows_closing : Rows 0 1 "\x7d\n".toList 0 :=
  rows_of_scans 0 (show Scans .start "\x7d\n" (.ended true false) by rfl)

end Texts

/-! Sessions -/

namespace Session

structure Neat (s : Session) : Prop where
  sound : s.names.Sound
  setup : ∀ e ∈ s.setupLines.entries, Scans .start (e.2 ++ "\n") (.ended false false)
  used : ∀ r ∈ s.used, Unbracketed r.display
  init : Rows 0 0 s.userInit.toList 0
  loop : Rows 0 0 s.userLoop.toList 0

namespace Neat

variable {s : Session}

theorem markUsed (neat : s.Neat) {r : Resource} (free : Unbracketed r.display) :
    (s.markUsed r).Neat := by
  unfold Session.markUsed
  split
  · exact neat
  · refine ⟨neat.sound, neat.setup, ?_, neat.init, neat.loop⟩
    intro other member
    rcases Array.mem_push.mp member with old | rfl
    · exact neat.used other old
    · exact free

theorem configure (neat : s.Neat) (r : Resource) {line : String}
    (scans : Scans .start (line ++ "\n") (.ended false false)) : (s.configure r line).Neat := by
  refine ⟨neat.sound, ?_, neat.used, neat.init, neat.loop⟩
  intro e member
  rcases KeyedLines.mem_insert member with old | rfl
  · exact neat.setup e old
  · exact scans

theorem distinct (neat : s.Neat) (base : String) :
    Inline (s.distinct base).1 ∧ (s.distinct base).2.Neat :=
  ⟨inline_name (Identifier.safeName_isName _ _ _),
    NameTable.sound_distinct neat.sound base, neat.setup, neat.used, neat.init, neat.loop⟩

theorem variableName (neat : s.Neat) (user : String) :
    Inline (s.variableName user).1 ∧ (s.variableName user).2.Neat := by
  have sound := NameTable.sound_get neat.sound user
  have isName := sound.names _ (NameTable.mem_of_lookup (NameTable.lookup_get s.names user))
  exact ⟨inline_name isName, sound, neat.setup, neat.used, neat.init, neat.loop⟩

end Neat
end Session

def laidOut : Contract := ⟨Inline, fun code => Rows 0 0 code.toList 0, Session.Neat⟩

theorem lawful_laidOut : laidOut.Lawful where
  wrapped _ inline := inline_call (by rfl) (fun _ _ => by rfl) inline.within
  ended _ inline := rows_line (inline.begins.append (by rfl))
  nothing := .nil 0
  warned _ _ neat := ⟨neat.sound, neat.setup, neat.used, neat.init, neat.loop⟩

/-! The rules -/

namespace Rules

variable {site : Site}

theorem scans_writeLine {pin state : String} (first : Unbracketed pin)
    (second : Unbracketed state) :
    Scans .start (writeLine pin state) (.ended false false) :=
  scans_around (scans_around (by rfl) first.within (by rfl)) second.within (by rfl)

theorem scans_delayLine {millis : String} (free : Unbracketed millis) :
    Scans .start (delayLine millis) (.ended false false) :=
  scans_around (by rfl) free.within (by rfl)

theorem inline_readCall {pin : String} (free : Unbracketed pin) : Inline (readCall pin) :=
  inline_call (by rfl) (fun _ _ => by rfl) free.within

theorem inline_not {x : String} (inline : Inline x) : Inline ("!" ++ x) :=
  ⟨Scans.append (by rfl) (inline.within _ _), fun _ _ => Scans.append (by rfl) (inline.within _ _)⟩

theorem inline_between {a b op : String} (first : Inline a) (free : Unbracketed op)
    (second : Inline b) : Inline (a ++ op ++ b) :=
  ⟨(first.begins.append (free.within _ _)).append (second.within _ _),
    fun _ _ => ((first.within _ _).append (free.within _ _)).append (second.within _ _)⟩

theorem pinMode_laidOut (free : ∀ name, Unbracketed (site.field name)) :
    (pinMode site).Meets laidOut laidOut.Grants := by
  refine fun s neat => ⟨neat.configure _ ?_, .nil 0⟩
  have called : Scans .start ("pinMode(" ++ site.field "PIN" ++ ", " ++ site.field "MODE" ++ ");")
      (.within false 0) :=
    scans_around (scans_around (by rfl) (free "PIN").within (by rfl)) (free "MODE").within (by rfl)
  exact called.append (by rfl)

theorem serialBegin_laidOut (free : ∀ name, Unbracketed (site.field name)) :
    (serialBegin site).Meets laidOut laidOut.Grants := by
  refine fun s neat => ⟨neat.configure _ ?_, .nil 0⟩
  have called : Scans .start ("Serial.begin(" ++ site.field "BAUD" ++ ");") (.within false 0) :=
    scans_around (by rfl) (free "BAUD").within (by rfl)
  exact called.append (by rfl)

theorem unbracketed_pin {pin : String} (free : Unbracketed pin) :
    Unbracketed (Resource.pin pin).display :=
  Unbracketed.append (by decide) free

theorem digitalWrite_laidOut (free : ∀ name, Unbracketed (site.field name)) :
    (digitalWrite site).Meets laidOut laidOut.Grants :=
  fun _ neat => ⟨neat.markUsed (unbracketed_pin (free "PIN")),
    rows_line (scans_writeLine (free _) (free _))⟩

theorem digitalRead_laidOut (free : ∀ name, Unbracketed (site.field name)) :
    (digitalRead site).Meets laidOut laidOut.Grants :=
  fun _ neat => ⟨neat.markUsed (unbracketed_pin (free "PIN")), inline_readCall (free _)⟩

theorem buttonRead_laidOut (free : ∀ name, Unbracketed (site.field name)) :
    (buttonRead site).Meets laidOut laidOut.Grants := by
  intro s neat
  refine ⟨neat.markUsed (unbracketed_pin (free "PIN")), ?_⟩
  cases site.options.buttons with
  | raw => exact inline_readCall (free _)
  | activeLow => exact inline_not (inline_readCall (free _))

theorem relayBlink_laidOut (free : ∀ name, Unbracketed (site.field name)) :
    (relayBlink site).Meets laidOut laidOut.Grants := by
  intro s neat
  refine ⟨neat.markUsed (unbracketed_pin (free "PIN")), ?_⟩
  have level : ∀ state, Unbracketed state →
      Rows 0 0 (writeLine (site.field "PIN") state).toList 0 :=
    fun _ word => rows_line (scans_writeLine (free _) word)
  have wait : ∀ name, Rows 0 0 (delayLine (site.field name)).toList 0 :=
    fun name => rows_line (scans_delayLine (free name))
  have rise : Rows 0 0 (if followsHighWrite site (site.field "PIN") then ""
      else writeLine (site.field "PIN") "HIGH").toList 0 := by
    split
    · exact .nil 0
    · exact level "HIGH" (by decide)
  exact rows_append (rows_append (rows_append rise (wait _)) (level "LOW" (by decide))) (wait _)

theorem serialOutput_laidOut {method : String}
    (called : Scans .start ("Serial." ++ method ++ "(") (.within false 1)) :
    (serialOutput method site).Meets laidOut laidOut.Grants := by
  intro s neat
  refine ⟨neat.markUsed (by decide), ⟨by rfl, fun _ _ => by rfl⟩, fun o given => ?_⟩
  exact rows_line (scans_around called given.within (by rfl))

theorem never : Inline (Operand.ofFallback "false").code := ⟨by rfl, fun _ _ => by rfl⟩

theorem zero : Inline (Operand.ofFallback "0").code := ⟨by rfl, fun _ _ => by rfl⟩

/-- One more branch after code that is outside of all braces, or still inside those of the branch
before. -/
theorem rows_branch (closes : Bool) {keyword code guard body : String}
    (begins : Scans .start keyword (.within closes 0)) (before : Rows 0 0 code.toList closes.toNat)
    (condition : Inline guard) (given : Rows 0 0 body.toList 0) :
    Rows 0 0 (code ++ keyword ++ " (" ++ guard ++ ") \x7b\n" ++ Layout.indent body).toList 1 := by
  have head : Scans .start (keyword ++ " (" ++ guard ++ ") \x7b\n") (.ended closes true) :=
    scans_around (begins.append (by rfl)) condition.within (by rfl)
  have opened := rows_of_scans 0 head
  rw [Nat.zero_add] at opened
  -- The row goes from the depth it closes to the depth of the body, whichever branch this is.
  have all := rows_append before (rows_append opened ((rows_indent given).weaken (Nat.zero_le 1)))
  simpa only [String.append_assoc] using all

theorem branches_laidOut (bs : List Branch) {code : String} (before : Rows 0 0 code.toList 1) :
    (branches "\x7d else if" code bs).Meets laidOut fun code => Rows 0 0 code.toList 1 := by
  induction bs generalizing code with
  | nil => exact before
  | cons b rest ih =>
    exact ⟨never, fun o guard body given => ih (rows_branch true (by rfl) before guard given)⟩

theorem conditional_laidOut {bs : List Branch} (nonempty : bs ≠ []) (elseSocket : Option String) :
    (conditional bs elseSocket).Meets laidOut laidOut.Grants := by
  have branched : (branches "if" "" bs).Meets laidOut fun code => Rows 0 0 code.toList 1 := by
    cases bs with
    | nil => exact absurd rfl nonempty
    | cons b rest =>
      refine ⟨never, fun o guard body given => branches_laidOut rest ?_⟩
      exact rows_branch false (by rfl) (.nil 0) guard given
  refine branched.bind fun code rows => ?_
  cases elseSocket with
  | none => exact rows_append rows rows_closing
  | some socket =>
    intro body given
    have otherwise : Rows 0 1 "\x7d else \x7b\n".toList 1 :=
      rows_of_scans 0 (show Scans .start "\x7d else \x7b\n" (.ended true true) by rfl)
    have inside := (rows_indent given).weaken (Nat.zero_le 1)
    exact rows_append (rows_append (rows_append rows otherwise) inside) rows_closing

theorem rows_loop {head body : String} (scans : Scans .start head (.ended false true))
    (given : Rows 0 0 body.toList 0) : Rows 0 0 (head ++ Layout.indent body ++ "\x7d\n").toList 0 :=
  rows_append (rows_append (rows_of_scans 0 scans) ((rows_indent given).weaken (Nat.zero_le 1)))
    rows_closing

theorem countedLoop_laidOut {times : String} (inline : Inline times) :
    (countedLoop times).Meets laidOut laidOut.Grants := by
  intro s neat
  obtain ⟨counter, after⟩ := neat.distinct "count"
  refine ⟨after, fun body given => rows_loop ?_ given⟩
  have declared : Scans .start ("for (int " ++ (s.distinct "count").1 ++ " = 0; ")
      (.within false 1) :=
    scans_around (by rfl) counter.within (by rfl)
  have compared :=
    scans_around declared counter.within (show Scans _ " < " (.within false 1) by rfl)
  have bounded := scans_around compared inline.within (show Scans _ "; " (.within false 1) by rfl)
  exact scans_around bounded counter.within (by rfl)

theorem whileRule_laidOut : (whileRule site).Meets laidOut laidOut.Grants := by
  refine ⟨never, fun o guard body given => rows_loop ?_ given⟩
  exact (scans_around (by rfl) guard.within (by rfl)).append (by rfl)

theorem whileUntil_laidOut : (whileUntil site).Meets laidOut laidOut.Grants := by
  refine ⟨never, fun o guard body given => ?_⟩
  have head : Scans .start
      (if site.field "MODE" = "UNTIL" then "while (!(" ++ o.wrapped ++ "))"
        else "while (" ++ o.wrapped ++ ")")
      (.within false 0) := by
    split
    · exact scans_around (by rfl) guard.within (by rfl)
    · exact scans_around (by rfl) guard.within (by rfl)
  exact rows_loop (head.append (by rfl)) given

theorem compare_laidOut : (compare site).Meets laidOut laidOut.Grants := by
  have operator : Unbracketed (comparison (site.field "OP")).1 := by
    unfold comparison
    split <;> decide
  refine ⟨zero, fun a first => ⟨zero, fun b second => ?_⟩⟩
  have spaced : Unbracketed (" " ++ (comparison (site.field "OP")).1 ++ " ") :=
    (Unbracketed.append (by decide) operator).append (by decide)
  have joined := inline_between first spaced second
  rw [← String.append_assoc, ← String.append_assoc] at joined
  exact joined

theorem logicOperation_laidOut : (logicOperation site).Meets laidOut laidOut.Grants := by
  refine ⟨never, fun a first => ⟨never, fun b second => ?_⟩⟩
  have constant : Inline (if site.field "OP" = "OR" then "true" else "false") := by
    split
    · exact ⟨by rfl, fun _ _ => by rfl⟩
    · exact ⟨by rfl, fun _ _ => by rfl⟩
  have joined :
      Inline (a.wrapped ++ (if site.field "OP" = "OR" then " || " else " && ") ++ b.wrapped) := by
    split
    · exact inline_between first (by decide) second
    · exact inline_between first (by decide) second
  change Script.Meets _ _ (if (a.fallback && b.fallback) = true then .done _ else .done _)
  split
  · exact constant
  · exact joined

theorem arithmetic_laidOut : (arithmetic site).Meets laidOut laidOut.Grants := by
  have operator : ∀ op ∈ (arithmeticOperator (site.field "OP")).1, Unbracketed op := by
    unfold arithmeticOperator
    split <;> decide
  unfold arithmetic
  generalize arithmeticOperator (site.field "OP") = operation at operator ⊢
  obtain ⟨op, order⟩ := operation
  refine ⟨zero, fun a first => ⟨zero, fun b second => ?_⟩⟩
  cases op with
  | some op => exact inline_between first (operator op rfl) second
  | none =>
    have separated : Inline (a.wrapped ++ ", " ++ b.wrapped) :=
      inline_between first (by decide) second
    have called :=
      inline_call (show Scans .start "pow(" (.within false 1) by rfl) (fun _ _ => by rfl)
        separated.within
    rw [← String.append_assoc, ← String.append_assoc] at called
    exact called

theorem setVariable_laidOut : (setVariable site).Meets laidOut laidOut.Grants := by
  refine ⟨zero, fun o value s neat => ?_⟩
  obtain ⟨name, after⟩ := neat.variableName (site.field "VAR")
  exact ⟨after, rows_line (scans_around (name.begins.append (by rfl)) value.within (by rfl))⟩

theorem branchCount_pos (b : Block) : 0 < branchCount b := by
  unfold branchCount maxElseIf
  omega

theorem numbered_ne_nil {count : Nat} (positive : 0 < count) : numbered count ≠ [] := by
  simpa [numbered] using Nat.ne_of_gt positive

/-- Rules put brackets into the code only in matching pairs, and braces only around rows. -/
theorem rules_laidOut : ∀ e ∈ entries, e.1 ≠ "esp32_text_raw" → ∀ site : Site,
    (∀ name, Unbracketed (site.field name)) → (e.2 site).Meets laidOut laidOut.Grants := by
  simp only [entries, List.forall_mem_cons, List.not_mem_nil, false_imp_iff, implies_true, and_true]
  refine ⟨
    fun _ site free => pinMode_laidOut free, fun _ site free => digitalWrite_laidOut free,
    fun _ site free => digitalRead_laidOut free,
    fun _ site free => inline_call (by rfl) (fun _ _ => by rfl) (free "PIN").within,
    fun _ site free => buttonRead_laidOut free,
    fun _ site free => ?_,
    fun _ site free => digitalWrite_laidOut free, fun _ site free => relayBlink_laidOut free,
    fun _ site free => rows_line (scans_delayLine (free _)),
    fun _ site _ => ⟨by rfl, fun _ _ => by rfl⟩,
    fun _ site free => serialBegin_laidOut free,
    fun _ site _ => serialOutput_laidOut (by rfl), fun _ site _ => serialOutput_laidOut (by rfl),
    fun _ site _ s neat => ⟨neat.markUsed (by decide), ⟨by rfl, fun _ _ => by rfl⟩⟩,
    fun _ site _ s neat => ⟨neat.markUsed (by decide), ⟨by rfl, fun _ _ => by rfl⟩⟩,
    fun _ site _ => conditional_laidOut (by simp) _, fun _ site _ =>
    conditional_laidOut (by simp) _,
    fun _ site _ => conditional_laidOut (numbered_ne_nil (by decide)) _,
    fun _ site _ => conditional_laidOut (numbered_ne_nil (by decide)) _,
    fun _ site _ => conditional_laidOut (numbered_ne_nil (by decide)) _,
    fun _ site _ => conditional_laidOut (by simp) _, fun _ site _ =>
    conditional_laidOut (by simp) _,
    fun _ site _ => conditional_laidOut (numbered_ne_nil (branchCount_pos _)) _,
    fun _ site _ => whileRule_laidOut, fun _ site _ => whileUntil_laidOut,
    fun _ site _ => ⟨zero, fun o times => countedLoop_laidOut times⟩,
    fun _ site _ => countedLoop_laidOut (inline_number _),
    fun _ site _ => ?_,
    fun _ site _ => compare_laidOut, fun _ site _ => logicOperation_laidOut,
    fun _ site _ => ?_,
    fun _ site _ => ⟨⟨by rfl, fun _ _ => by rfl⟩, fun o x => inline_not x⟩,
    fun _ site _ => ?_,
    fun _ site _ => arithmetic_laidOut,
    fun _ site _ s neat => (neat.variableName (site.field "VAR")).symm,
    fun _ site _ => setVariable_laidOut, fun _ site free => inline_quote (free _),
    fun raw => absurd rfl raw,
    fun _ site _ text rows s neat =>
      ⟨⟨neat.sound, neat.setup, neat.used, rows_append neat.init rows, neat.loop⟩, .nil 0⟩,
    fun _ site _ text rows s neat =>
      ⟨⟨neat.sound, neat.setup, neat.used, neat.init, rows_append neat.loop rows⟩, .nil 0⟩⟩
  · change Inline (if site.field "STATE" = "LOW" then "LOW" else "HIGH")
    split
    · exact ⟨by rfl, fun _ _ => by rfl⟩
    · exact ⟨by rfl, fun _ _ => by rfl⟩
  · change Rows 0 0 ((if site.field "FLOW" = "CONTINUE" then "continue" else "break") ++
      ";\n").toList 0
    split
    · exact rows_line (by rfl)
    · exact rows_line (by rfl)
  · change Inline (if site.field "BOOL" = "TRUE" then "true" else "false")
    split
    · exact ⟨by rfl, fun _ _ => by rfl⟩
    · exact ⟨by rfl, fun _ _ => by rfl⟩
  · have inline := inline_number (site.field "NUM")
    unfold mathNumber
    generalize numberLiteral (site.field "NUM") = literal at inline ⊢
    exact inline

end Rules

/-! The sections of a sketch -/

section Sections

theorem outer_join {texts : List String}
    (each : ∀ text ∈ texts, Scans .start text (.ended false false)) :
    Outer (String.join texts).toList [] := by
  induction texts with
  | nil => exact .nil
  | cons text texts ih =>
    rw [String.join_cons, String.toList_append]
    have rest := ih fun other member => each other (List.mem_cons_of_mem text member)
    exact (outer_of_scans (each text List.mem_cons_self)).append rest

theorem outer_section (none : Bool) {texts : List String}
    (each : ∀ text ∈ texts, Scans .start text (.ended false false)) :
    Outer (if none then "" else String.join texts ++ "\n").toList [] := by
  cases none with
  | true => exact .nil
  | false =>
    change Outer (String.join texts ++ "\n").toList []
    rw [String.toList_append]
    exact (outer_join each).append .blank

theorem rows_join {texts : List String} (each : ∀ text ∈ texts, Rows 1 1 text.toList 1) :
    Rows 1 1 (String.join texts).toList 1 := by
  induction texts with
  | nil => exact .nil 1
  | cons text texts ih =>
    rw [String.join_cons, String.toList_append]
    have rest := ih fun other member => each other (List.mem_cons_of_mem text member)
    exact (each text List.mem_cons_self).append rest

theorem rows_asLines {code : String} (rows : Rows 1 1 code.toList 1) :
    Rows 1 1 (Layout.asLines code).toList 1 := by
  unfold Layout.asLines
  split
  · exact .nil 1
  · rename_i visible
    split
    · exact rows
    · rename_i unended
      -- No newline is ever added: rows are empty or end with one.
      rcases rows.ends with empty | ended
      · exact absurd (by simp [Text.isBlank, empty]) visible
      · exact absurd (by simp [Layout.endsLine, ended]) unended

theorem rows_inside {line : String} (scans : Scans .start line (.ended false false)) :
    Rows 1 1 ("  " ++ line).toList 1 := by
  rw [String.toList_append]
  exact rows_of_scans 1 scans

namespace Session

variable {s : Session}

theorem outer_header : Outer header.toList [] := by
  have lines : header =
      String.join ["// Generated by ESP32 Blockly IDE\n", "// Edit at your own risk!\n"] := by rfl
  rw [lines]
  refine outer_join ?_
  simp only [List.forall_mem_cons, List.not_mem_nil, false_imp_iff, implies_true, and_true]
  exact ⟨by rfl, by rfl⟩

theorem outer_warningLines (neat : s.Neat) : Outer s.warningLines.toList [] := by
  rw [warningLines_eq]
  refine outer_section _ fun text member => ?_
  obtain ⟨r, listed, rfl⟩ := List.mem_map.mp member
  have free : Unbracketed r.display :=
    neat.used r (Array.mem_toList_iff.mp (List.mem_filter.mp listed).1)
  have remedy : Unbracketed r.remedy := by
    cases r with
    | pin name => exact (by decide : Unbracketed "add a pinMode block for it")
    | serial => decide
  have warning : Scans .start r.warning (.within false 0) :=
    scans_around (scans_around (by rfl) free.within (by rfl)) remedy.within (by rfl)
  exact warning.append (by rfl)

theorem outer_definitionLines (tidy : s.Tidy) : Outer s.definitionLines.toList [] := by
  refine outer_section _ fun text member => ?_
  obtain ⟨line, listed, rfl⟩ := List.mem_map.mp member
  obtain ⟨e, entry, rfl⟩ := List.mem_map.mp listed
  obtain ⟨name, isName, same⟩ := tidy.definitions e (Array.mem_toList_iff.mp entry)
  rw [same]
  exact (scans_around (by rfl) (inline_name isName).within (by rfl)).append (by rfl)

theorem rows_setupBody (neat : s.Neat) : Rows 1 1 s.setupBody.toList 1 := by
  unfold setupBody
  split
  · exact rows_inside (show Scans .start "// Initialize your hardware here\n"
      (.ended false false) by rfl)
  · rw [String.toList_append]
    refine (rows_join fun text member => ?_).append (rows_asLines (rows_indent neat.init))
    obtain ⟨line, listed, rfl⟩ := List.mem_map.mp member
    obtain ⟨e, entry, rfl⟩ := List.mem_map.mp listed
    rw [String.append_assoc]
    exact rows_inside (neat.setup e (Array.mem_toList_iff.mp entry))

theorem rows_loopBody (neat : s.Neat) {topLevel : String} (rows : Rows 0 0 topLevel.toList 0) :
    Rows 1 1 (s.loopBody topLevel).toList 1 := by
  have code : Rows 0 0 (s.loopCode topLevel).toList 0 := by
    unfold loopCode
    split
    · exact rows
    · exact neat.loop
  unfold loopBody
  dsimp only
  split
  · exact rows_inside (show Scans .start "// Your main code goes here\n"
      (.ended false false) by rfl)
  · exact rows_asLines (rows_indent code)

theorem outer_sketch (neat : s.Neat) (tidy : s.Tidy) {topLevel : String}
    (rows : Rows 0 0 topLevel.toList 0) :
    Outer (s.sketch topLevel).toList ["void setup() \x7b".toList, "void loop() \x7b".toList] := by
  have setup : IsRow false "void setup() ".toList :=
    ⟨⟨by decide, by decide, by decide, fun _ => rfl⟩, fun _ => ⟨'v', _, rfl, by decide⟩⟩
  have loop : IsRow false "void loop() ".toList :=
    ⟨⟨by decide, by decide, by decide, fun _ => rfl⟩, fun _ => ⟨'v', _, rfl, by decide⟩⟩
  have heading := ((outer_header.append .blank).append (outer_warningLines neat)).append
    (outer_definitionLines tidy)
  have functions := ((Outer.function setup (rows_setupBody neat)).append .blank).append
    (Outer.function loop (rows_loopBody neat rows))
  have all := heading.append functions
  simpa [sketch] using all

end Session
end Sections

/-- The block brings no brackets into the code: there are none in its fields, which are not taken as
code, and none in a kind that has no rule and is named in the code instead. -/
structure Block.Bracketless (b : Block) : Prop where
  fields : ∀ name, Unbracketed (b.fieldText name)
  notRaw : b.kind ≠ "esp32_text_raw"
  kind : Rules.esp32.get? b.kind = none → Unbracketed b.kind

namespace Generator

variable {g : Generator}

theorem placeholder_laidOut {b : Block} (free : Unbracketed b.kind) (r : Run) :
    laidOut.Grants (g.placeholder b r).1 := by
  have text : Unbracketed ("block kind not implemented: " ++ b.kind) :=
    Unbracketed.append (by decide) free
  unfold placeholder
  dsimp only
  split
  · exact ⟨scans_around (by rfl) text.within (by rfl), fun _ _ =>
      scans_around (by rfl) text.within (by rfl)⟩
  · exact rows_line (scans_around (by rfl) text.within (by rfl))

theorem kept_laidOut (rules : g.rules = Rules.esp32)
    (bracketless : ∀ id b, g.workspace.get? id = some b → b.Bracketless) : laidOut.Kept g where
  lawful := lawful_laidOut
  append _ _ := rows_append
  start := ⟨NameTable.sound_of_allocated .default, by simp [Session.new, KeyedLines.empty],
    by simp [Session.new], .nil 0, .nil 0⟩
  rule b rule found known := by
    rw [rules] at known
    have free := bracketless b.id b found
    exact Rules.rules_laidOut _ (SortedMap.mem_of_get?_ofList known) free.notRaw
      ⟨g.workspace, g.options, b⟩ free.fields
  placeholder b r found unknown := by
    rw [rules] at unknown
    exact placeholder_laidOut ((bracketless b.id b found).kind unknown) r

theorem outer_generate (forest : g.workspace.Forest) (rules : g.rules = Rules.esp32)
    (bracketless : ∀ id b, g.workspace.get? id = some b → b.Bracketless) :
    Outer g.generate.code.toList ["void setup() \x7b".toList, "void loop() \x7b".toList] := by
  obtain ⟨rows, neat⟩ := (kept_laidOut rules bracketless).emitRoots forest
  rw [generate_code]
  exact Session.outer_sketch neat (noted_emitRoots forest rules).tidy rows

theorem generate_closed (g : Generator) : "\x7d\n".toList <:+ g.generate.code.toList := by
  rw [generate_code, Session.sketch, String.toList_append]
  exact List.suffix_append _ _

/-- If no field brings brackets or line breaks with it, the brackets of the sketch match, its only
groups of braces outside of all others are the bodies of the two functions, the last of which ends
it, and every line inside braces stands two spaces in for each of them. -/
theorem sketch_is_bracketed_and_indented (history : List Workspace.Operation) (options : Options) :
    let g : Generator := ⟨.afterAll history, Rules.esp32, options⟩
    (∀ id b, g.workspace.get? id = some b → b.Bracketless) →
      let code := g.generate.code.toList
      brackets [] code = some [] ∧
        outerGroups 0 [] code = ["void setup() \x7b".toList, "void loop() \x7b".toList] ∧
        "\x7d\n".toList <:+ code ∧ Indented 0 (Text.linesOf code) := by
  intro g bracketless code
  have forest : g.workspace.Forest := Workspace.forest_afterAll history
  obtain ⟨balanced, functions, indented⟩ := (outer_generate forest rfl bracketless).whole
  exact ⟨balanced, functions, g.generate_closed, indented⟩

def nestedBlocks : List Workspace.Operation :=
  [.add (.new "controls_if"), .add (.new "esp32_while"), .add (.new "sensor_sleep"),
    .add (.new "program_setup"), .add ((BlockContent.new "esp32_pin_mode").setField "PIN"
    (.text "5")), .connect 0 (.statement "DO0") 1,
    .connect 1 (.statement "DO") 2, .connect 3 (.statement "DO") 4]

theorem nestedBlocks_bracketless {id : BlockId} {b : Block}
    (found : (Workspace.afterAll nestedBlocks).get? id = some b) : b.Bracketless := by
  have all : ∀ b ∈ (Workspace.afterAll nestedBlocks).blocks.toList,
      (∀ e ∈ b.fields.entries, Unbracketed e.2.asText) ∧ b.kind ≠ "esp32_text_raw" ∧
        Unbracketed b.kind := by
    decide +kernel
  obtain ⟨fields, notRaw, kind⟩ := all b (Array.mem_toList_iff.mpr (Array.mem_of_getElem? found))
  refine ⟨fun name => ?_, notRaw, fun _ => kind⟩
  unfold BlockContent.fieldText
  split
  · rename_i v held
    exact fields _ (SortedMap.mem_of_get? held)
  · decide

theorem nested_blocks_are_indented :
    let g : Generator := ⟨.afterAll nestedBlocks, Rules.esp32, .default⟩
    (∀ id b, g.workspace.get? id = some b → b.Bracketless) ∧
      brackets [] g.generate.code.toList = some [] ∧
      outerGroups 0 [] g.generate.code.toList =
        ["void setup() \x7b".toList, "void loop() \x7b".toList] ∧
      "\x7d\n".toList <:+ g.generate.code.toList ∧
        Indented 0 (Text.linesOf g.generate.code.toList) := by
  intro g
  have bracketless : ∀ id b, g.workspace.get? id = some b → b.Bracketless := fun _ _ found =>
    nestedBlocks_bracketless found
  exact ⟨bracketless, sketch_is_bracketed_and_indented nestedBlocks .default bracketless⟩

end Generator
end BlockSketch
