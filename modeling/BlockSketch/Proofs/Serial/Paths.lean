import BlockSketch.Serial.Discovery
import Mathlib.Data.List.Basic

/-
What serial paths look like. Three tests decide about them: the test of a path, the search in a line
of the device map and the choice among the device files. Here the first two are compared with the
patterns that they stand for, and the others are shown to find nothing that the first would not let
pass.
-/
namespace BlockSketch

/-! White space is neither a digit nor a letter -/

namespace Text

theorem exists_of_inRanges {ranges : List (Nat × Nat)} {c : Char}
    (inside : (ranges.any fun r => r.1 ≤ c.toNat && c.toNat ≤ r.2) = true) :
    ∃ r ∈ ranges, r.1 ≤ c.toNat ∧ c.toNat ≤ r.2 := by
  obtain ⟨r, member, bounds⟩ := List.any_eq_true.mp inside
  rw [Bool.and_eq_true, decide_eq_true_eq, decide_eq_true_eq] at bounds
  exact ⟨r, member, bounds⟩

theorem decimalDigit_visible {c : Char} (digit : isDecimalDigit c = true) :
    isBlankChar c = false := by
  have apart :
      (digitRanges.all fun r => blankRanges.all fun s => r.2 < s.1 || s.2 < r.1) = true := by
    decide
  rw [Bool.eq_false_iff]
  intro blank
  obtain ⟨r, memberR, lowR, highR⟩ := exists_of_inRanges digit
  obtain ⟨s, memberS, lowS, highS⟩ := exists_of_inRanges blank
  have distant := List.all_eq_true.mp (List.all_eq_true.mp apart r memberR) s memberS
  rw [Bool.or_eq_true, decide_eq_true_eq, decide_eq_true_eq] at distant
  omega

end Text

namespace SerialDevice

theorem toNat_toUpper (c : Char) :
    c.toUpper.toNat = if 97 ≤ c.toNat ∧ c.toNat ≤ 122 then c.toNat - 32 else c.toNat := by
  have shift : ('A'.val - 'a'.val).toNat = 4294967264 := rfl
  unfold Char.toUpper
  split
  · rename_i small
    rw [UInt32.le_iff_toNat_le, UInt32.le_iff_toNat_le] at small
    change 97 ≤ c.toNat ∧ c.toNat ≤ 122 at small
    change (c.val + ('A'.val - 'a'.val)).toNat = _
    rw [if_pos small, UInt32.toNat_add, shift]
    change (c.toNat + 4294967264) % 4294967296 = _
    omega
  · rename_i other
    rw [UInt32.le_iff_toNat_le, UInt32.le_iff_toNat_le] at other
    exact (if_neg other).symm

theorem toUpper_eq_iff {c capital small : Char} (letter : 65 ≤ capital.toNat ∧ capital.toNat ≤ 90)
    (pair : small.toNat = capital.toNat + 32) : c.toUpper = capital ↔ c = capital ∨ c = small := by
  rw [← Char.toNat_inj, ← Char.toNat_inj, ← Char.toNat_inj, toNat_toUpper]
  split <;> omega

/-! The patterns -/

structure Number (cs : List Char) : Prop where
  begun : cs ≠ []
  each : ∀ c ∈ cs, Text.isDecimalDigit c = true

inductive ComName : List Char → Prop where
  | letters {c o m : Char} {number : List Char} (first : c = 'C' ∨ c = 'c')
      (second : o = 'O' ∨ o = 'o') (third : m = 'M' ∨ m = 'm') (digits : Number number) :
      ComName (c :: o :: m :: number)

inductive SerialPath : List Char → Prop where
  | com {cs : List Char} (name : ComName cs) : SerialPath cs
  | usb {number : List Char} (digits : Number number) : SerialPath ("/dev/ttyUSB".toList ++ number)
  | acm {number : List Char} (digits : Number number) : SerialPath ("/dev/ttyACM".toList ++ number)
  | callOut {name : List Char} (begun : name ≠ [])
      (each : ∀ c ∈ name, Text.isWordChar c = true ∨ c = '.' ∨ c = '-') :
      SerialPath ("/dev/cu.".toList ++ name)

inductive NamedAtEnd : List Char → List Char → Prop where
  | found {front gap name back : List Char} (gapped : gap ≠ [])
      (blankGap : ∀ c ∈ gap, Text.isBlankChar c = true) (com : ComName name)
      (blankBack : ∀ c ∈ back, Text.isBlankChar c = true) :
      NamedAtEnd (front ++ gap ++ name ++ back) name

/-! The test of a path -/

theorem isNumber_iff {cs : List Char} : isNumber cs = true ↔ Number cs := by
  rw [isNumber, Bool.and_eq_true, Bool.not_eq_true', List.isEmpty_eq_false_iff, List.all_eq_true]
  exact ⟨fun ⟨begun, each⟩ => ⟨begun, each⟩, fun number => ⟨number.begun, number.each⟩⟩

theorem isComName_iff {cs : List Char} : isComName cs = true ↔ ComName cs := by
  unfold isComName
  split
  · simp only [Bool.and_eq_true, decide_eq_true_eq, isNumber_iff,
      toUpper_eq_iff (show 65 ≤ 'C'.toNat ∧ _ by decide)
      (show 'c'.toNat = _ from rfl), toUpper_eq_iff (show 65 ≤ 'O'.toNat ∧ _ by decide)
      (show 'o'.toNat = _ from rfl),
      toUpper_eq_iff (show 65 ≤ 'M'.toNat ∧ _ by decide) (show 'm'.toNat = _ from rfl)]
    constructor
    · rintro ⟨⟨⟨first, second⟩, third⟩, digits⟩
      exact .letters first second third digits
    · rintro ⟨first, second, third, digits⟩
      exact ⟨⟨⟨first, second⟩, third⟩, digits⟩
  · rename_i short
    refine ⟨fun no => absurd no Bool.false_ne_true, ?_⟩
    rintro ⟨first, second, third, digits⟩
    exact absurd rfl (short _ _ _ _)

theorem any_after_iff {front cs : List Char} {test : List Char → Bool} :
    (front.isPrefixOf? cs).any test = true ↔ ∃ rest, cs = front ++ rest ∧ test rest = true := by
  cases found : front.isPrefixOf? cs with
  | none =>
    refine ⟨fun no => absurd no Bool.false_ne_true, ?_⟩
    rintro ⟨rest, rfl, _⟩
    rw [List.isPrefixOf?_eq_some_iff_append_eq.mpr rfl] at found
    cases found
  | some rest =>
    obtain rfl := List.isPrefixOf?_eq_some_iff_append_eq.mp found
    constructor
    · intro passed
      exact ⟨rest, rfl, passed⟩
    · rintro ⟨other, same, passed⟩
      rw [List.append_cancel_left same]
      exact passed

theorem isCallOutName_iff {cs : List Char} :
    isCallOutName cs = true ↔ cs ≠ [] ∧ ∀ c ∈ cs, Text.isWordChar c = true ∨ c = '.' ∨ c = '-' := by
  simp only [isCallOutName, Bool.and_eq_true, Bool.not_eq_true', List.isEmpty_eq_false_iff,
    List.all_eq_true, Bool.or_eq_true, decide_eq_true_eq, or_assoc]

theorem isSerialPath_iff {path : String} : isSerialPath path = true ↔ SerialPath path.toList := by
  rw [isSerialPath, Bool.or_eq_true, isComName_iff, any_after_iff]
  simp only [isDeviceFile, Bool.or_eq_true, any_after_iff, isNumber_iff, isCallOutName_iff]
  constructor
  · rintro (name | ⟨file, split, (⟨number, rfl, digits⟩ | ⟨number, rfl, digits⟩) |
      ⟨name, rfl, begun, each⟩⟩)
    · exact .com name
    · rw [split, ← List.append_assoc]
      exact .usb digits
    · rw [split, ← List.append_assoc]
      exact .acm digits
    · rw [split, ← List.append_assoc]
      exact .callOut begun each
  · generalize path.toList = cs
    intro serial
    cases serial with
    | com name => exact Or.inl name
    | usb digits => exact Or.inr ⟨_, rfl, Or.inl (Or.inl ⟨_, rfl, digits⟩)⟩
    | acm digits => exact Or.inr ⟨_, rfl, Or.inl (Or.inr ⟨_, rfl, digits⟩)⟩
    | callOut begun each => exact Or.inr ⟨_, rfl, Or.inr ⟨_, rfl, begun, each⟩⟩

/-! The search in the device map -/

theorem ComName.visible {cs : List Char} (name : ComName cs) :
    cs ≠ [] ∧ ∀ c ∈ cs, Text.isBlankChar c = false := by
  obtain ⟨first, second, third, digits⟩ := name
  refine ⟨List.cons_ne_nil _ _, ?_⟩
  simp only [List.mem_cons, forall_eq_or_imp]
  refine ⟨?_, ?_, ?_, fun c member => Text.decimalDigit_visible (digits.each c member)⟩
  · rcases first with rfl | rfl <;> decide
  · rcases second with rfl | rfl <;> decide
  · rcases third with rfl | rfl <;> decide

end SerialDevice

namespace Discovery
open SerialDevice

theorem namedAtEnd_of_registryName? {line : List Char} {name : String}
    (found : registryName? line = some name) : NamedAtEnd line name.toList := by
  unfold registryName? at found
  dsimp only at found
  -- Read backwards, the line is white space, the word and what comes before the word.
  have ends := List.takeWhile_append_dropWhile (p := Text.isBlankChar) (l := line.reverse)
  have blankEnd : ∀ c ∈ line.reverse.takeWhile Text.isBlankChar, Text.isBlankChar c = true :=
    List.all_eq_true.mp List.all_takeWhile
  generalize line.reverse.takeWhile Text.isBlankChar = back at ends blankEnd
  generalize line.reverse.dropWhile Text.isBlankChar = rest at ends found
  have words := List.takeWhile_append_dropWhile (p := fun c => !Text.isBlankChar c) (l := rest)
  have stop := List.head?_dropWhile_not (fun c => !Text.isBlankChar c) rest
  generalize rest.takeWhile (fun c => !Text.isBlankChar c) = word at words found
  generalize rest.dropWhile (fun c => !Text.isBlankChar c) = before at words stop
  subst words
  rw [List.drop_left] at found
  split at found
  · rename_i passed
    rw [Bool.and_eq_true, Bool.not_eq_true', List.isEmpty_eq_false_iff, isComName_iff] at passed
    cases before with
    | nil => exact absurd rfl passed.2
    | cons blank front =>
      have whole : line = front.reverse ++ [blank] ++ word.reverse ++ back.reverse := by
        have reversed := congrArg List.reverse ends
        simpa using reversed.symm
      rw [whole, ← Option.some.inj found, String.toList_ofList]
      refine .found (List.cons_ne_nil _ _) (fun c member => ?_) passed.1
        fun c member => blankEnd c (List.mem_reverse.mp member)
      rw [List.mem_singleton.mp member]
      simpa using stop
  · cases found

theorem registryName?_of_parts {front gap word back : List Char} (gapped : gap ≠ [])
    (blankGap : ∀ c ∈ gap, Text.isBlankChar c = true) (com : ComName word)
    (blankBack : ∀ c ∈ back, Text.isBlankChar c = true) :
    registryName? (front ++ gap ++ word ++ back) = some (String.ofList word) := by
  obtain ⟨begun, visible⟩ := com.visible
  have reversed : (front ++ gap ++ word ++ back).reverse =
      back.reverse ++ (word.reverse ++ (gap.reverse ++ front.reverse)) := by simp
  have ending : (front ++ gap ++ word ++ back).reverse.dropWhile Text.isBlankChar =
      word.reverse ++ (gap.reverse ++ front.reverse) := by
    rw [reversed, List.dropWhile_append_of_pos fun c member =>
      blankBack c (List.mem_reverse.mp member)]
    cases backwards : word.reverse with
    | nil => exact absurd (List.reverse_eq_nil_iff.mp backwards) begun
    | cons c rest =>
      have member : c ∈ word := List.mem_reverse.mp (backwards ▸ List.mem_cons_self)
      rw [List.cons_append, List.dropWhile_cons_of_neg (by simp [visible c member])]
  have last :
      (word.reverse ++ (gap.reverse ++ front.reverse)).takeWhile (fun c => !Text.isBlankChar c) =
        word.reverse := by
    rw [List.takeWhile_append_of_pos fun c member =>
      by simp [visible c (List.mem_reverse.mp member)]]
    cases backwards : gap.reverse with
    | nil => exact absurd (List.reverse_eq_nil_iff.mp backwards) gapped
    | cons c rest =>
      have member : c ∈ gap := List.mem_reverse.mp (backwards ▸ List.mem_cons_self)
      rw [List.cons_append, List.takeWhile_cons_of_neg (by simp [blankGap c member]),
        List.append_nil]
  have spaced : (gap.reverse ++ front.reverse).isEmpty = false := by simp [gapped]
  unfold registryName?
  dsimp only
  rw [ending, last, List.drop_left, List.reverse_reverse, isComName_iff.mpr com, spaced]
  rfl

theorem registryName?_iff {line : List Char} {name : String} :
    registryName? line = some name ↔ NamedAtEnd line name.toList := by
  refine ⟨namedAtEnd_of_registryName?, ?_⟩
  generalize given : name.toList = word
  rintro ⟨gapped, blankGap, com, blankBack⟩
  rw [registryName?_of_parts gapped blankGap com blankBack, ← given, String.ofList_toList]

theorem serial_of_mem_ofRegistry {text : String} {d : SerialDevice} (found : d ∈ ofRegistry text) :
    isSerialPath d.path = true := by
  obtain ⟨name, named, rfl⟩ := List.mem_map.mp found
  obtain ⟨line, _, read⟩ := List.mem_filterMap.mp named
  rw [isSerialPath_iff]
  obtain ⟨_, _, com, _⟩ := registryName?_iff.mp read
  exact .com com

theorem serial_of_mem_ofDeviceFiles {names : List String} {d : SerialDevice}
    (found : d ∈ ofDeviceFiles names) : isSerialPath d.path = true := by
  obtain ⟨path, kept, rfl⟩ := List.mem_map.mp found
  exact (List.mem_filter.mp kept).2

end Discovery
end BlockSketch
