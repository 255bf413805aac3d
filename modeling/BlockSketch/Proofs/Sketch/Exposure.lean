import BlockSketch.Proofs.Code.Words
import BlockSketch.Proofs.Number.Whole
import BlockSketch.Proofs.Shape.Acceptance
import BlockSketch.Proofs.Sketch.Contract
import BlockSketch.Proofs.Sketch.Course

/-
The names that rules bring into the code. All that they fix are reserved; the fields of a block can
expose others: the name of an analog pin, the name of a number that is not finite, and what raw text
holds. Any other name stands in the code of a block only if it stands in its sockets or is handed
out by the session.
-/
namespace BlockSketch
open Code

def Rules.constants (raw : String) : List String :=
  ["NAN", "INFINITY"].filter fun word =>
    (numberLiteral raw).1 = word || (numberLiteral raw).1 = "-" ++ word

/-- The names that the fields of a block bring into its code although they are not reserved. -/
def Block.exposed (b : Block) : List String :=
  if b.kind = "esp32_analog_read" then [b.fieldText "PIN"]
  else if b.kind = "math_number" then Rules.constants (b.fieldText "NUM")
  else if b.kind = "esp32_text_raw" then (namesIn (b.fieldText "RAW").toList).map String.ofList
  else []

/-! Sessions that keep clear of a name -/

namespace Session

/-- The session hands out only other identifiers than the name, and the name stands in no setup
line. -/
structure Avoids (name : String) (s : Session) : Prop where
  sound : s.names.Sound
  reserved : name ∈ s.names.reserved
  users : ∀ e ∈ s.names.byUser, e.2 ≠ name
  setup : ∀ e ∈ s.setupLines.entries, Lacks name.toList e.2

namespace Avoids

variable {name : String} {s : Session}

theorem markUsed (avoids : s.Avoids name) (r : Resource) : (s.markUsed r).Avoids name := by
  unfold Session.markUsed
  split
  · exact avoids
  · exact ⟨avoids.sound, avoids.reserved, avoids.users, avoids.setup⟩

theorem configure (avoids : s.Avoids name) (r : Resource) {line : String}
    (lacks : Lacks name.toList line) : (s.configure r line).Avoids name := by
  refine ⟨avoids.sound, avoids.reserved, avoids.users, ?_⟩
  intro e member
  rcases KeyedLines.mem_insert member with old | rfl
  · exact avoids.setup e old
  · exact lacks

theorem fresh (avoids : s.Avoids name) (requested : String) :
    Identifier.safeName requested s.names.reserved s.names.taken ≠ name := by
  intro same
  have free := Identifier.safeName_not_mem requested s.names.reserved s.names.taken
  rw [same] at free
  exact free (List.mem_append_left _ avoids.reserved)

theorem distinct (avoids : s.Avoids name) (base : String) :
    Lacks name.toList (s.distinct base).1 ∧ (s.distinct base).2.Avoids name := by
  constructor
  · exact lacks_name (Identifier.safeName_isName _ _ _) fun same =>
      avoids.fresh base (String.toList_injective same)
  · exact ⟨NameTable.sound_distinct avoids.sound base, avoids.reserved, avoids.users, avoids.setup⟩

theorem variableName (avoids : s.Avoids name) (user : String) :
    Lacks name.toList (s.variableName user).1 ∧ (s.variableName user).2.Avoids name := by
  have sound := NameTable.sound_get avoids.sound user
  have member := NameTable.mem_of_lookup (NameTable.lookup_get s.names user)
  have kept : name ∈ (s.names.get user).2.reserved ∧
      ∀ e ∈ (s.names.get user).2.byUser, e.2 ≠ name := by
    unfold NameTable.get
    split
    · exact ⟨avoids.reserved, avoids.users⟩
    · refine ⟨avoids.reserved, ?_⟩
      intro e listed
      rcases List.mem_cons.mp listed with rfl | old
      · exact avoids.fresh user
      · exact avoids.users e old
  constructor
  · exact lacks_name (sound.names _ member) fun same =>
      kept.2 _ member (String.toList_injective same)
  · exact ⟨sound, kept.1, kept.2, avoids.setup⟩

end Avoids
end Session

/-! Code that lacks a name -/

def lacking (name : String) : Contract :=
  ⟨Lacks name.toList, Lacks name.toList, Session.Avoids name⟩

section Texts

variable {name a t : String}

theorem lacks_of_known (free : name ∉ reservedWords) (known : isKnown reservedWords t = true) :
    Lacks name.toList t :=
  lacks_of_isKnown (by rwa [String.ofList_toList]) known

theorem lacks_head (free : name ∉ reservedWords) (fixed : isFixed reservedWords t = true) :
    LacksOpen name.toList t :=
  lacksOpen_of_isFixed (by rwa [String.ofList_toList]) fixed

theorem lacks_joint (free : name ∉ reservedWords) (lacks : Lacks name.toList a)
    (joint : isJoint reservedWords t = true) : LacksOpen name.toList (a ++ t) :=
  lacks.join (by rwa [String.ofList_toList]) joint

theorem lawful_lacking (free : name ∉ reservedWords) : (lacking name).Lawful where
  wrapped _ lacks :=
    (lacks_joint free ((lacks_head free (by rfl)).append lacks) (by rfl)).lacks
  ended _ lacks := (lacks_joint free lacks (by rfl)).lacks
  nothing := lacks_empty
  warned _ _ avoids := ⟨avoids.sound, avoids.reserved, avoids.users, avoids.setup⟩

theorem lacks_digits (n : Nat) : Lacks name.toList (toString n) :=
  lacks_numeral (Binary64.isNumeral_whole (Binary64.allDigits_repr n) (Text.repr_ne_nil n))

theorem lacks_minus (lacks : Lacks name.toList a) : Lacks name.toList ("-" ++ a) :=
  (lacksOpen_of_isFixed (List.not_mem_nil) (by rfl)).append lacks

theorem lacks_around (free : name ∉ reservedWords) {head tail : String}
    (fixed : isFixed reservedWords head = true) (lacks : Lacks name.toList a)
    (joint : isJoint reservedWords tail = true) : LacksOpen name.toList (head ++ a ++ tail) :=
  lacks_joint free ((lacks_head free fixed).append lacks) joint

theorem lacks_between (free : name ∉ reservedWords) {b : String} (first : Lacks name.toList a)
    (joint : isJoint reservedWords t = true) (second : Lacks name.toList b) :
    Lacks name.toList (a ++ t ++ b) :=
  (lacks_joint free first joint).append second

theorem lacks_finite {x : Binary64} (finite : x.isFinite = true) : Lacks name.toList x.literal := by
  have below : x.magnitude < Binary64.infinityWord := of_decide_eq_true finite
  have number : x.isNaN = false := by simpa [Binary64.isNaN] using below.le
  have bounded : x.isInfinite = false := by simpa [Binary64.isInfinite] using below.ne
  obtain ⟨word, text, shape⟩ := Binary64.literal_finite number bounded
  have lacks : Lacks name.toList (String.ofList word) :=
    lacks_numeral (by rw [String.toList_ofList]; exact Binary64.isNumeral_literalWord shape)
  cases sign : x.isBelowZero with
  | true =>
    have signed : x.literal = "-" ++ String.ofList word :=
      String.toList_injective (by simpa [sign] using text)
    exact signed ▸ lacks_minus lacks
  | false =>
    have plain : x.literal = String.ofList word :=
      String.toList_injective (by simpa [sign] using text)
    exact plain ▸ lacks

theorem literal_infinite {x : Binary64} (infinite : x.isFinite = false) :
    ∃ word ∈ ["NAN", "INFINITY"], x.literal = word ∨ x.literal = "-" ++ word := by
  cases nan : x.isNaN with
  | true => exact ⟨"NAN", by simp, Or.inl (by simp [Binary64.literal, nan])⟩
  | false =>
    have bounded : x.isInfinite = true := by
      simp only [Binary64.isFinite, Binary64.isNaN, Binary64.isInfinite, decide_eq_false_iff_not,
        decide_eq_true_eq] at infinite nan ⊢
      omega
    refine ⟨"INFINITY", by simp, ?_⟩
    cases sign : x.negative with
    | true => exact Or.inr (by simp [Binary64.literal, nan, bounded, sign])
    | false => exact Or.inl (by simp [Binary64.literal, nan, bounded, sign])

theorem numberLiteral_of_none {raw : String} (none : Binary64.ofText? (Text.trim raw) = none) :
    (Rules.numberLiteral raw).1 = "0" := by
  simp only [Rules.numberLiteral, none]

theorem numberLiteral_of_some {raw : String} {x : Binary64}
    (read : Binary64.ofText? (Text.trim raw) = some x) :
    (Rules.numberLiteral raw).1 = x.literal := by
  simp only [Rules.numberLiteral, read]

theorem lacks_number {raw : String} (other : name ∉ Rules.constants raw) :
    Lacks name.toList (Rules.numberLiteral raw).1 := by
  cases read : Binary64.ofText? (Text.trim raw) with
  | none => exact numberLiteral_of_none read ▸ lacks_digits 0
  | some x =>
    have literal := numberLiteral_of_some read
    rw [literal]
    cases finite : x.isFinite with
    | true => exact lacks_finite finite
    | false =>
      obtain ⟨word, named, text⟩ := literal_infinite finite
      have different : word ≠ name := by
        rintro rfl
        exact other (List.mem_filter.mpr ⟨named, by simpa [literal] using text⟩)
      have isName : IsName word.toList := by
        simp only [List.mem_cons, List.not_mem_nil, or_false] at named
        rcases named with rfl | rfl <;> decide
      have lacks := lacks_name isName fun same => different (String.toList_injective same)
      rcases text with plain | signed
      · exact plain ▸ lacks
      · exact signed ▸ lacks_minus lacks

theorem lacks_count {raw : String}
    (whole : raw = "" ∨ ∃ n : Nat, raw = toString n ∧ n < Text.wordCount) :
    Lacks name.toList (Rules.numberLiteral raw).1 := by
  rcases whole with rfl | ⟨n, rfl, small⟩
  · have blank : Binary64.ofText? (Text.trim "") = none := by rfl
    exact numberLiteral_of_none blank ▸ lacks_digits 0
  · obtain ⟨x, read, finite⟩ := Binary64.ofText_whole (n := n) small
    exact numberLiteral_of_some read ▸ lacks_finite finite

theorem lacks_whole {text : String}
    (whole : text = "" ∨ ∃ n : Nat, text = toString n ∧ n < Text.wordCount) :
    Lacks name.toList text := by
  rcases whole with rfl | ⟨n, rfl, _⟩
  · exact lacks_empty
  · exact lacks_digits n

theorem lacks_option (free : name ∉ reservedWords) {text : String} {options : List String}
    (listed : text = "" ∨ text ∈ options) (known : options.all (isKnown reservedWords) = true) :
    Lacks name.toList text := by
  rcases listed with rfl | member
  · exact lacks_empty
  · exact lacks_of_known free (List.all_eq_true.mp known text member)

theorem inWord_of_isDecimalDigit {c : Char} (digit : Text.isDecimalDigit c = true) :
    inWord c = true := by
  obtain ⟨range, listed, within⟩ := List.any_eq_true.mp digit
  rw [Bool.and_eq_true, decide_eq_true_eq, decide_eq_true_eq] at within
  have ranges : ∀ r ∈ Text.digitRanges, r = (0x30, 0x39) ∨ 128 ≤ r.1 := by decide
  rcases ranges range listed with rfl | high
  · have isDigit : c.isDigit = true := by
      simp only [Char.isDigit, Bool.and_eq_true, decide_eq_true_eq, ge_iff_le,
        UInt32.le_iff_toNat_le]
      exact within
    simp [inWord, continuesName, Char.isAlphanum, isDigit]
  · have outside : 128 ≤ c.toNat := by omega
    simp [inWord, outside]

theorem lacks_analogPin {pin : String} (other : name ≠ pin)
    (text : pin = "" ∨ AnalogPinName pin) : Lacks name.toList pin := by
  have different : pin.toList ≠ name.toList := fun same => other (String.toList_injective same).symm
  have on : ∀ s c, Text.isDecimalDigit c = true → goesOn s c = true := fun s c digit => by
    simp [goesOn, inWord_of_isDecimalDigit digit]
  rcases text with rfl | ⟨number, begun, digits, lettered | plain⟩
  · exact lacks_empty
  · exact lacks_word lettered (by decide) (fun c member => on _ c (digits c member))
      (Or.inr different)
  · obtain ⟨s, more, rfl⟩ := List.exists_cons_of_ne_nil begun
    refine lacks_word plain (inWord_of_isDecimalDigit (digits s List.mem_cons_self)) ?_
      (Or.inr different)
    exact fun c member => on _ c (digits c (List.mem_cons_of_mem s member))

end Texts

/-! The rules -/

namespace Rules

variable {name : String} {site : Site}

theorem lacks_writeLine (free : name ∉ reservedWords) {pin state : String}
    (first : Lacks name.toList pin) (second : Lacks name.toList state) :
    LacksOpen name.toList (writeLine pin state) :=
  lacks_joint free ((lacks_around free (by rfl) first (by rfl)).append second)
    (by rfl)

theorem lacks_delayLine (free : name ∉ reservedWords) {millis : String}
    (lacks : Lacks name.toList millis) : LacksOpen name.toList (delayLine millis) :=
  lacks_around free (by rfl) lacks (by rfl)

theorem lacks_readCall (free : name ∉ reservedWords) {pin : String}
    (lacks : Lacks name.toList pin) :
    Lacks name.toList (readCall pin) :=
  (lacks_around free (by rfl) lacks (by rfl)).lacks

theorem lacks_not (free : name ∉ reservedWords) {x : String} (lacks : Lacks name.toList x) :
    Lacks name.toList ("!" ++ x) :=
  (lacks_head free (by rfl)).append lacks

theorem pinMode_lacks (free : name ∉ reservedWords) (pin : Lacks name.toList (site.field "PIN"))
    (mode : Lacks name.toList (site.field "MODE")) :
    (pinMode site).Meets (lacking name) (lacking name).Grants := by
  refine fun s avoids => ⟨avoids.configure _ ?_, lacks_empty⟩
  have first :=
    lacks_joint free ((lacks_head (t := "pinMode(") free (by rfl)).append pin) (t := ", ")
    (by rfl)
  exact (lacks_joint free (first.append mode) (by rfl)).lacks

theorem digitalWrite_lacks (free : name ∉ reservedWords)
    (pin : Lacks name.toList (site.field "PIN")) (state : Lacks name.toList (site.field "STATE")) :
    (digitalWrite site).Meets (lacking name) (lacking name).Grants :=
  fun _ avoids => ⟨avoids.markUsed _, (lacks_writeLine free pin state).lacks⟩

theorem digitalRead_lacks (free : name ∉ reservedWords)
    (pin : Lacks name.toList (site.field "PIN")) :
    (digitalRead site).Meets (lacking name) (lacking name).Grants :=
  fun _ avoids => ⟨avoids.markUsed _, lacks_readCall free pin⟩

theorem buttonRead_lacks (free : name ∉ reservedWords)
    (pin : Lacks name.toList (site.field "PIN")) :
    (buttonRead site).Meets (lacking name) (lacking name).Grants := by
  intro s avoids
  refine ⟨avoids.markUsed _, ?_⟩
  cases site.options.buttons with
  | raw => exact lacks_readCall free pin
  | activeLow => exact lacks_not free (lacks_readCall free pin)

theorem relayBlink_lacks (free : name ∉ reservedWords) (pin : Lacks name.toList (site.field "PIN"))
    (on : Lacks name.toList (site.field "DELAY_ON"))
    (off : Lacks name.toList (site.field "DELAY_OFF")) :
    (relayBlink site).Meets (lacking name) (lacking name).Grants := by
  intro s avoids
  refine ⟨avoids.markUsed _, ?_⟩
  have high := lacks_writeLine free pin (lacks_of_known (t := "HIGH") free (by rfl))
  have low := lacks_writeLine free pin (lacks_of_known (t := "LOW") free (by rfl))
  have rise : LacksOpen name.toList
      (if followsHighWrite site (site.field "PIN") then ""
        else writeLine (site.field "PIN") "HIGH") := by
    split
    · exact lacks_head free (by rfl)
    · exact high
  exact (((rise.appendOpen (lacks_delayLine free on)).appendOpen low).appendOpen
    (lacks_delayLine free off)).lacks

theorem serialOutput_lacks (free : name ∉ reservedWords) {method : String}
    (fixed : isFixed reservedWords ("Serial." ++ method ++ "(") = true) :
    (serialOutput method site).Meets (lacking name) (lacking name).Grants := by
  intro s avoids
  refine ⟨avoids.markUsed _, lacks_of_known free (by rfl), fun o given => ?_⟩
  exact (lacks_around free fixed given (by rfl)).lacks

theorem branches_lack (free : name ∉ reservedWords) (bs : List Branch) {keyword code : String}
    (lacks : Lacks name.toList code) (ready : LacksOpen name.toList (code ++ keyword ++ " (")) :
    (branches keyword code bs).Meets (lacking name) (Lacks name.toList) := by
  induction bs generalizing keyword code with
  | nil => exact lacks
  | cons b rest ih =>
    refine ⟨lacks_of_known free (by rfl), fun o guard body given => ?_⟩
    have opened := lacks_joint free (ready.append guard) (t := ") \x7b\n") (by rfl)
    have longer : Lacks name.toList (code ++ keyword ++ " (" ++ o.wrapped ++ ") \x7b\n" ++
        Layout.indent body) :=
      opened.append (Lacks.indent given)
    refine ih longer ?_
    rw [String.append_assoc]
    exact lacks_joint free longer (by rfl)

theorem conditional_lacks (free : name ∉ reservedWords) (bs : List Branch)
    (elseSocket : Option String) :
    (conditional bs elseSocket).Meets (lacking name) (lacking name).Grants := by
  refine (branches_lack free bs lacks_empty (lacks_head free (by rfl))).bind fun code lacks => ?_
  cases elseSocket with
  | none => exact (lacks_joint free lacks (by rfl)).lacks
  | some socket =>
    intro body given
    have opened := lacks_joint free lacks (t := "\x7d else \x7b\n") (by rfl)
    exact (lacks_joint free (opened.append (Lacks.indent given)) (by rfl)).lacks

theorem whileLoop_lacks (free : name ∉ reservedWords) {head body : String}
    (first : Lacks name.toList head) (given : Lacks name.toList body) :
    (lacking name).Grants (whileLoop head (Layout.indent body)) :=
  (lacks_joint free ((lacks_joint free first (by rfl)).append given.indent) (by rfl)).lacks

theorem countedLoop_lacks (free : name ∉ reservedWords) {times : String}
    (lacks : Lacks name.toList times) :
    (countedLoop times).Meets (lacking name) (lacking name).Grants := by
  intro s avoids
  obtain ⟨counter, after⟩ := avoids.distinct "count"
  refine ⟨after, fun body given => ?_⟩
  have declared := lacks_joint free ((lacks_head (t := "for (int ") free (by rfl)).append counter)
    (t := " = 0; ") (by rfl)
  have compared := lacks_joint free (declared.append counter) (t := " < ") (by rfl)
  have bounded := lacks_joint free (compared.append lacks) (t := "; ") (by rfl)
  have headed := lacks_joint free (bounded.append counter) (t := "++) \x7b\n") (by rfl)
  exact (lacks_joint free (headed.append (Lacks.indent given)) (by rfl)).lacks

theorem whileRule_lacks (free : name ∉ reservedWords) :
    (whileRule site).Meets (lacking name) (lacking name).Grants := by
  refine ⟨lacks_of_known free (by rfl), fun o guard body given => ?_⟩
  exact whileLoop_lacks free (lacks_around free (by rfl) guard (by rfl)).lacks given

theorem whileUntil_lacks (free : name ∉ reservedWords) :
    (whileUntil site).Meets (lacking name) (lacking name).Grants := by
  refine ⟨lacks_of_known free (by rfl), fun o guard body given => whileLoop_lacks free ?_ given⟩
  split
  · exact (lacks_around free (by rfl) guard (by rfl)).lacks
  · exact (lacks_around free (by rfl) guard (by rfl)).lacks

theorem compare_lacks (free : name ∉ reservedWords) :
    (compare site).Meets (lacking name) (lacking name).Grants := by
  have zero : Lacks name.toList (Operand.ofFallback "0").code := lacks_of_known free (by rfl)
  have operator : isFixed reservedWords (comparison (site.field "OP")).1 = true := by
    unfold comparison
    split <;> rfl
  refine ⟨zero, fun a first => ⟨zero, fun b second => ?_⟩⟩
  have spaced := lacks_joint free first (t := " ") (by rfl)
  have written :=
    (spaced.appendOpen (lacks_head free operator)).appendOpen (lacks_head (t := " ") free (by rfl))
  exact written.append second

theorem logicOperation_lacks (free : name ∉ reservedWords) :
    (logicOperation site).Meets (lacking name) (lacking name).Grants := by
  have never : Lacks name.toList (Operand.ofFallback "false").code := lacks_of_known free (by rfl)
  refine ⟨never, fun a first => ⟨never, fun b second => ?_⟩⟩
  have constant : Lacks name.toList (if site.field "OP" = "OR" then "true" else "false") := by
    split
    · exact lacks_of_known free (by rfl)
    · exact lacks_of_known free (by rfl)
  have joined : Lacks name.toList
      (a.wrapped ++ (if site.field "OP" = "OR" then " || " else " && ") ++ b.wrapped) := by
    split
    · exact lacks_between free first (by rfl) second
    · exact lacks_between free first (by rfl) second
  change Script.Meets _ _ (if (a.fallback && b.fallback) = true then .done _ else .done _)
  split
  · exact constant
  · exact joined

theorem arithmetic_lacks (free : name ∉ reservedWords) :
    (arithmetic site).Meets (lacking name) (lacking name).Grants := by
  have zero : Lacks name.toList (Operand.ofFallback "0").code := lacks_of_known free (by rfl)
  have operator : ∀ op ∈ (arithmeticOperator (site.field "OP")).1,
      isJoint reservedWords op = true := by
    unfold arithmeticOperator
    split <;> simp <;> rfl
  unfold arithmetic
  generalize arithmeticOperator (site.field "OP") = operation at operator ⊢
  obtain ⟨op, order⟩ := operation
  refine ⟨zero, fun a first => ⟨zero, fun b second => ?_⟩⟩
  cases op with
  | some op => exact lacks_between free first (operator op rfl) second
  | none =>
    have called :=
      lacks_joint free ((lacks_head (t := "pow(") free (by rfl)).append first) (t := ", ") (by rfl)
    exact (lacks_joint free (called.append second) (t := ")") (by rfl)).lacks

theorem setVariable_lacks (free : name ∉ reservedWords) :
    (setVariable site).Meets (lacking name) (lacking name).Grants := by
  refine ⟨lacks_of_known free (by rfl), fun o value s avoids => ?_⟩
  obtain ⟨variable', after⟩ := avoids.variableName (site.field "VAR")
  refine ⟨after, ?_⟩
  exact (lacks_joint free (lacks_between free variable' (by rfl) value) (by rfl)).lacks

def Clear [PatternReader] (name kind : String) (rule : Rule) : Prop :=
  ∀ site : Site, site.block.kind = kind → site.block.Accepted → name ∉ site.block.exposed →
    (rule site).Meets (lacking name) (lacking name).Grants

section Fields

variable [PatternReader] {kind : String}

theorem lacks_pin (default : String) (same : site.block.kind = kind)
    (accepted : site.block.Accepted) (known : Esp32.describes kind (Esp32.gpioPin default) = true) :
    Lacks name.toList (site.field "PIN") :=
  lacks_whole (accepted.whole default _ (same ▸ known))

theorem lacks_millis {field : String} (default : String) (same : site.block.kind = kind)
    (accepted : site.block.Accepted)
    (known : Esp32.describes kind (Esp32.millisField field default) = true) :
    Lacks name.toList (site.field field) :=
  lacks_whole (accepted.whole default _ (same ▸ known))

theorem lacks_choice (free : name ∉ reservedWords) {field : String} (pairs : List (String × String))
    (same : site.block.kind = kind) (accepted : site.block.Accepted)
    (known : Esp32.describes kind (.labelled field pairs) = true)
    (words : (pairs.map Prod.snd).all (isKnown reservedWords) = true) :
    Lacks name.toList (site.field field) :=
  lacks_option free (accepted.option (same ▸ known)) words

end Fields

theorem clear_conditional [PatternReader] (free : name ∉ reservedWords) {kind : String}
    {rule : Rule} (is : ∀ site, ∃ bs elseSocket, rule site = conditional bs elseSocket) :
    Clear name kind rule := by
  intro site _ _ _
  obtain ⟨bs, elseSocket, same⟩ := is site
  rw [same]
  exact conditional_lacks free bs elseSocket

theorem clear_section [PatternReader] {kind : String} {rule : Rule}
    (is : ∀ site, rule site = setupSection site ∨ rule site = loopSection site) :
    Clear name kind rule := by
  intro site _ _ _
  rcases is site with same | same
  · rw [same]
    exact fun text _ s avoids =>
      ⟨⟨avoids.sound, avoids.reserved, avoids.users, avoids.setup⟩, lacks_empty⟩
  · rw [same]
    exact fun text _ s avoids =>
      ⟨⟨avoids.sound, avoids.reserved, avoids.users, avoids.setup⟩, lacks_empty⟩

/-- Rules fix only reserved names. -/
theorem rules_clear [PatternReader] [LawfulPatternReader] (free : name ∉ reservedWords) :
    ∀ e ∈ entries, e.1 ≠ "esp32_text_raw" → Clear name e.1 e.2 := by
  have known : ∀ {t : String}, isKnown reservedWords t = true → Lacks name.toList t :=
    lacks_of_known free
  simp only [entries, List.forall_mem_cons, List.not_mem_nil, false_imp_iff, implies_true, and_true]
  refine ⟨
    fun _ site kind accepted _ => pinMode_lacks free (lacks_pin "2" kind accepted (by rfl))
      (lacks_choice free
        (["OUTPUT", "INPUT", "INPUT_PULLUP", "INPUT_PULLDOWN"].map fun mode => (mode, mode))
        kind accepted
        (by rfl) (by rfl)),
    fun _ site kind accepted _ => digitalWrite_lacks free (lacks_pin "2" kind accepted (by rfl))
      (lacks_choice free (["HIGH", "LOW"].map fun level => (level, level)) kind accepted
      (by rfl) (by rfl)),
    fun _ site kind accepted _ => digitalRead_lacks free (lacks_pin "2" kind accepted (by rfl)),
    fun _ site kind accepted other => ?_,
    fun _ site kind accepted _ => buttonRead_lacks free (lacks_pin "0" kind accepted (by rfl)),
    fun _ site kind accepted _ => ?_,
    fun _ site kind accepted _ => digitalWrite_lacks free (lacks_pin "4" kind accepted (by rfl))
      (lacks_choice free [("ON", "HIGH"), ("OFF", "LOW")] kind accepted (by rfl) (by rfl)),
    fun _ site kind accepted _ => relayBlink_lacks free (lacks_pin "4" kind accepted (by rfl))
      (lacks_millis "1000" kind accepted (by rfl)) (lacks_millis "1000" kind accepted (by rfl)),
    fun _ site kind accepted _ =>
    (lacks_delayLine free (lacks_millis "1000" kind accepted (by rfl))).lacks,
    fun _ _ _ _ _ => known (by rfl),
    fun _ site kind accepted _ => ?_,
    fun _ _ _ _ _ => serialOutput_lacks free (by rfl), fun _ _ _ _ _ =>
    serialOutput_lacks free (by rfl),
    fun _ _ _ _ _ s avoids => ⟨avoids.markUsed _, known (by rfl)⟩,
    fun _ _ _ _ _ s avoids => ⟨avoids.markUsed _, known (by rfl)⟩,
    fun _ => clear_conditional free fun _ => ⟨_, _, rfl⟩, fun _ =>
    clear_conditional free fun _ => ⟨_, _, rfl⟩,
    fun _ => clear_conditional free fun _ => ⟨_, _, rfl⟩, fun _ =>
    clear_conditional free fun _ => ⟨_, _, rfl⟩,
    fun _ => clear_conditional free fun _ => ⟨_, _, rfl⟩, fun _ =>
    clear_conditional free fun _ => ⟨_, _, rfl⟩,
    fun _ => clear_conditional free fun _ => ⟨_, _, rfl⟩, fun _ =>
    clear_conditional free fun _ => ⟨_, _, rfl⟩,
    fun _ _ _ _ _ => whileRule_lacks free, fun _ _ _ _ _ => whileUntil_lacks free,
    fun _ _ _ _ _ => ⟨known (by rfl), fun o times => countedLoop_lacks free times⟩,
    fun _ site kind accepted _ => ?_,
    fun _ site _ _ _ => ?_,
    fun _ _ _ _ _ => compare_lacks free, fun _ _ _ _ _ => logicOperation_lacks free,
    fun _ site _ _ _ => ?_,
    fun _ _ _ _ _ => ⟨known (by rfl), fun o x => lacks_not free x⟩,
    fun _ site kind _ other => ?_,
    fun _ _ _ _ _ => arithmetic_lacks free,
    fun _ site _ _ _ s avoids => (avoids.variableName (site.field "VAR")).symm,
    fun _ _ _ _ _ => setVariable_lacks free, fun _ _ _ _ _ => (lacksOpen_quote _).lacks,
    fun raw => absurd rfl raw,
    fun _ => clear_section fun _ => Or.inl rfl, fun _ => clear_section fun _ => Or.inr rfl⟩
  · have different : name ≠ site.block.fieldText "PIN" := by simpa [Block.exposed, kind] using other
    have pin := lacks_analogPin different (accepted.analogPin "A0" (by rw [kind]; rfl))
    change Lacks name.toList ("analogRead(" ++ site.block.fieldText "PIN" ++ ")")
    exact (lacks_around free (by rfl) pin (by rfl)).lacks
  · change Lacks name.toList (if site.field "STATE" = "LOW" then "LOW" else "HIGH")
    split
    · exact known (by rfl)
    · exact known (by rfl)
  · refine fun s avoids =>
      ⟨avoids.configure _ (lacks_around free (by rfl) ?_ (by rfl)).lacks, lacks_empty⟩
    exact lacks_choice free
      (["115200", "9600", "57600", "38400", "19200", "4800", "2400"].map fun rate => (rate, rate))
      kind accepted (by rfl) (by rfl)
  · exact countedLoop_lacks free (lacks_count (accepted.whole "10" none (by rw [kind]; rfl)))
  · change Lacks name.toList
      ((if site.field "FLOW" = "CONTINUE" then "continue" else "break") ++ ";\n")
    split
    · exact known (by rfl)
    · exact known (by rfl)
  · change Lacks name.toList (if site.field "BOOL" = "TRUE" then "true" else "false")
    split
    · exact known (by rfl)
    · exact known (by rfl)
  · have different : name ∉ constants (site.block.fieldText "NUM") := by
      simpa [Block.exposed, kind] using other
    have lacks := lacks_number different
    unfold mathNumber Site.field
    generalize numberLiteral (site.block.fieldText "NUM") = literal at lacks ⊢
    exact lacks

end Rules
end BlockSketch
