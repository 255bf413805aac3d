import BlockSketch.Proofs.Text.Canonical
import Mathlib.Data.List.Induction

/-
Integers as they are typed. A numeral is at most one sign and then digits, which count by their
places; white space may stand around it. Reading accepts exactly the numerals of 64-bit integers. Of
the many numerals of one integer a single one is canonical, and that is the written form.
-/
namespace BlockSketch.Text

/-! White space around a text -/

theorem trimChars_split (cs : List Char) : ∃ before after, cs = before ++ trimChars cs ++ after ∧
    (∀ c ∈ before, isBlankChar c = true) ∧ ∀ c ∈ after, isBlankChar c = true := by
  refine ⟨cs.takeWhile isBlankChar, ((cs.dropWhile isBlankChar).reverse.takeWhile
    isBlankChar).reverse, ?_, ?_, ?_⟩
  · have back : trimChars cs ++ ((cs.dropWhile isBlankChar).reverse.takeWhile isBlankChar).reverse =
        cs.dropWhile isBlankChar := by
      rw [trimChars, ← List.reverse_append, List.takeWhile_append_dropWhile, List.reverse_reverse]
    rw [List.append_assoc, back, List.takeWhile_append_dropWhile]
  · intro c member
    exact List.all_eq_true.mp List.all_takeWhile c member
  · intro c member
    exact List.all_eq_true.mp List.all_takeWhile c (List.mem_reverse.mp member)

theorem trimChars_surrounded {before body after : List Char}
    (blankBefore : ∀ c ∈ before, isBlankChar c = true)
    (blankAfter : ∀ c ∈ after, isBlankChar c = true) (begun : body ≠ [])
    (visible : ∀ c ∈ body, isBlankChar c = false) : trimChars (before ++ body ++ after) = body := by
  have front : (before ++ body ++ after).dropWhile isBlankChar = body ++ after := by
    rw [List.append_assoc, List.dropWhile_append_of_pos blankBefore]
    apply dropWhile_of_visible
    intro c first
    cases body with
    | nil => exact absurd rfl begun
    | cons d rest =>
      obtain rfl := Option.some.inj first
      exact visible _ List.mem_cons_self
  have back : (body ++ after).reverse.dropWhile isBlankChar = body.reverse := by
    rw [List.reverse_append, List.dropWhile_append_of_pos fun c member =>
      blankAfter c (List.mem_reverse.mp member)]
    apply dropWhile_of_visible
    intro c first
    exact visible c (List.mem_reverse.mp (List.mem_of_head? first))
  rw [trimChars, front, back, List.reverse_reverse]

/-! Digits -/

structure Digits (cs : List Char) : Prop where
  begun : cs ≠ []
  each : ∀ c ∈ cs, c.isDigit = true

theorem Digits.ne_cons {c : Char} {cs : List Char} (digits : Digits cs) (other : c.isDigit = false)
    (rest : List Char) : cs ≠ c :: rest := by
  rintro rfl
  rw [digits.each c List.mem_cons_self] at other
  cases other

theorem Digits.visible {cs : List Char} (digits : Digits cs) : ∀ c ∈ cs, isBlankChar c = false :=
  fun c member => digit_visible (digits.each c member)

def digitValue (c : Char) : Nat := c.toNat - '0'.toNat

def placeValue : List Char → Nat
  | [] => 0
  | c :: rest => digitValue c * Nat.pow 10 rest.length + placeValue rest

theorem ofDigitChars_eq_placeValue (cs : List Char) : Nat.ofDigitChars 10 cs 0 = placeValue cs := by
  induction cs with
  | nil => rfl
  | cons c rest ih =>
    rw [Nat.ofDigitChars_cons, Nat.ofDigitChars_eq_ofDigitChars_zero, ih, placeValue, Nat.mul_zero,
      Nat.zero_add, Nat.mul_comm]
    rfl

theorem placeValue_concat (cs : List Char) (c : Char) :
    placeValue (cs ++ [c]) = 10 * placeValue cs + digitValue c := by
  rw [← ofDigitChars_eq_placeValue, ← ofDigitChars_eq_placeValue, Nat.ofDigitChars_append]
  rfl

theorem digits?_iff {cs : List Char} {n : Nat} :
    digits? cs = some n ↔ Digits cs ∧ n = placeValue cs := by
  rw [digits?, ofDigitChars_eq_placeValue]
  constructor
  · intro read
    split at read
    · rename_i digits
      exact ⟨⟨digits.1, List.all_eq_true.mp digits.2⟩, (Option.some.inj read).symm⟩
    · cases read
  · rintro ⟨digits, rfl⟩
    exact if_pos ⟨digits.begun, List.all_eq_true.mpr digits.each⟩

theorem digitChar_digitValue {c : Char} (digit : c.isDigit = true) :
    digitValue c < 10 ∧ (digitValue c).digitChar = c := by
  have bounds := Char.isDigit_iff_toNat.mp digit
  have zero : '0'.toNat = 48 := rfl
  have nine : '9'.toNat = 57 := rfl
  have small : digitValue c < 10 := by
    unfold digitValue
    omega
  refine ⟨small, Char.toNat_inj.mp ?_⟩
  rw [Nat.toNat_digitChar_of_lt_ten small, digitValue]
  omega

theorem digits_repr (n : Nat) : Digits n.repr.toList where
  begun := repr_ne_nil n
  each _ := isDigit_of_mem_repr

theorem placeValue_repr (n : Nat) : placeValue n.repr.toList = n :=
  (digits?_iff.mp (digits?_repr n)).2.symm

def Unpadded (cs : List Char) : Prop := ∀ c rest, cs ≠ '0' :: c :: rest

theorem repr_of_lt_ten {n : Nat} (small : n < 10) : n.repr.toList = [n.digitChar] := by
  rw [Nat.toList_repr, Nat.toDigits_of_lt_base small]

theorem repr_concat {n d : Nat} (positive : 0 < n) (small : d < 10) :
    (10 * n + d).repr.toList = n.repr.toList ++ d.repr.toList := by
  rw [Nat.toList_repr, Nat.toList_repr, Nat.toList_repr,
    Nat.toDigits_append_toDigits (by decide) positive small]

theorem unpadded_repr (n : Nat) : Unpadded n.repr.toList := by
  induction n using Nat.strongRecOn with
  | ind n ih =>
    intro c rest padded
    rcases Nat.lt_or_ge n 10 with small | large
    · rw [repr_of_lt_ten small] at padded
      exact absurd (List.cons.inj padded).2 (List.cons_ne_nil c rest).symm
    · have split := repr_concat (show 0 < n / 10 by omega) (Nat.mod_lt n (by decide))
      rw [Nat.div_add_mod] at split
      rw [split, repr_of_lt_ten (Nat.mod_lt n (by decide))] at padded
      -- All but the last digit begin with the same zero, and they are not the number zero.
      cases front : (n / 10).repr.toList with
      | nil => exact repr_ne_nil _ front
      | cons first others =>
        rw [front] at padded
        obtain ⟨rfl, _⟩ := List.cons.inj padded
        cases others with
        | nil =>
          have value := placeValue_repr (n / 10)
          rw [front] at value
          have zero : placeValue ['0'] = 0 := rfl
          omega
        | cons second others => exact ih (n / 10) (by omega) second others front

/-- Digits without zeros in front are the written form of their number. -/
theorem repr_placeValue {cs : List Char} (digits : Digits cs) (unpadded : Unpadded cs) :
    (placeValue cs).repr.toList = cs := by
  induction cs using List.reverseRecOn with
  | nil => exact absurd rfl digits.begun
  | append_singleton front c ih =>
    obtain ⟨small, back⟩ := digitChar_digitValue (digits.each c (by simp))
    have last : (digitValue c).repr.toList = [c] := by rw [repr_of_lt_ten small, back]
    rw [placeValue_concat]
    by_cases alone : front = []
    · subst alone
      rw [placeValue, Nat.mul_zero, Nat.zero_add, last]
      rfl
    · have before : (placeValue front).repr.toList = front := by
        apply ih ⟨alone, fun d member => digits.each d (List.mem_append_left _ member)⟩
        intro d rest padded
        exact unpadded d (rest ++ [c]) (by rw [padded]; rfl)
      have positive : 0 < placeValue front := by
        apply Nat.pos_of_ne_zero
        intro zero
        rw [zero] at before
        exact unpadded c [] (by rw [← before]; rfl)
      rw [repr_concat positive small, before, last]

/-! Numerals -/

inductive Numeral : List Char → Int → Prop where
  | unsigned {cs : List Char} (digits : Digits cs) : Numeral cs (placeValue cs)
  | plus {cs : List Char} (digits : Digits cs) : Numeral ('+' :: cs) (placeValue cs)
  | minus {cs : List Char} (digits : Digits cs) : Numeral ('-' :: cs) (-(placeValue cs : Int))

theorem numeral_minus_iff {cs : List Char} {n : Int} :
    Numeral ('-' :: cs) n ↔ Digits cs ∧ n = -(placeValue cs : Int) := by
  constructor
  · intro numeral
    cases numeral with
    | unsigned digits => exact absurd rfl (digits.ne_cons (by decide) cs)
    | minus digits => exact ⟨digits, rfl⟩
  · rintro ⟨digits, rfl⟩
    exact .minus digits

theorem numeral_plus_iff {cs : List Char} {n : Int} :
    Numeral ('+' :: cs) n ↔ Digits cs ∧ n = placeValue cs := by
  constructor
  · intro numeral
    cases numeral with
    | unsigned digits => exact absurd rfl (digits.ne_cons (by decide) cs)
    | plus digits => exact ⟨digits, rfl⟩
  · rintro ⟨digits, rfl⟩
    exact .plus digits

theorem numeral_unsigned_iff {cs : List Char} {n : Int} (noMinus : ∀ rest, cs ≠ '-' :: rest)
    (noPlus : ∀ rest, cs ≠ '+' :: rest) : Numeral cs n ↔ Digits cs ∧ n = placeValue cs := by
  constructor
  · intro numeral
    cases numeral with
    | unsigned digits => exact ⟨digits, rfl⟩
    | plus digits => exact absurd rfl (noPlus _)
    | minus digits => exact absurd rfl (noMinus _)
  · rintro ⟨digits, rfl⟩
    exact .unsigned digits

theorem Numeral.unique {cs : List Char} {m n : Int} (first : Numeral cs m) (second : Numeral cs n) :
    m = n := by
  cases first with
  | unsigned digits =>
    rw [numeral_unsigned_iff (digits.ne_cons (by decide)) (digits.ne_cons (by decide))] at second
    exact second.2.symm
  | plus digits => exact (numeral_plus_iff.mp second).2.symm
  | minus digits => exact (numeral_minus_iff.mp second).2.symm

theorem Numeral.visible {cs : List Char} {n : Int} (numeral : Numeral cs n) :
    cs ≠ [] ∧ ∀ c ∈ cs, isBlankChar c = false := by
  cases numeral with
  | unsigned digits => exact ⟨digits.begun, digits.visible⟩
  | plus digits =>
    exact ⟨List.cons_ne_nil _ _, List.forall_mem_cons.mpr ⟨by decide, digits.visible⟩⟩
  | minus digits =>
    exact ⟨List.cons_ne_nil _ _, List.forall_mem_cons.mpr ⟨by decide, digits.visible⟩⟩

theorem map_digits?_iff {f : Nat → Int} {cs : List Char} {n : Int} :
    (digits? cs).map f = some n ↔ Digits cs ∧ n = f (placeValue cs) := by
  rw [Option.map_eq_some_iff]
  constructor
  · rintro ⟨k, read, rfl⟩
    obtain ⟨digits, rfl⟩ := digits?_iff.mp read
    exact ⟨digits, rfl⟩
  · rintro ⟨digits, rfl⟩
    exact ⟨_, digits?_iff.mpr ⟨digits, rfl⟩, rfl⟩

/-- Reading accepts the numerals of 64-bit integers and nothing else. -/
theorem integer?_iff {cs : List Char} {n : Int} :
    integer? cs = some n ↔ Numeral cs n ∧ wordMin ≤ n ∧ n ≤ wordMax := by
  unfold integer?
  simp only [Option.filter_eq_some_iff, Bool.and_eq_true, decide_eq_true_eq]
  refine and_congr_left fun _ => ?_
  split
  · rename_i rest
    rw [numeral_minus_iff]
    refine Iff.trans ?_ (map_digits?_iff (f := fun k => -(k : Int)))
    cases digits? rest <;> rfl
  · rename_i rest
    rw [numeral_plus_iff, map_digits?_iff]
    rfl
  · rename_i noMinus noPlus
    rw [numeral_unsigned_iff noMinus noPlus, map_digits?_iff]
    rfl

inductive Denotes : String → Int → Prop where
  | surrounded {raw : String} {before body after : List Char} {n : Int}
      (split : raw.toList = before ++ body ++ after)
      (blankBefore : ∀ c ∈ before, isBlankChar c = true)
      (blankAfter : ∀ c ∈ after, isBlankChar c = true) (numeral : Numeral body n) : Denotes raw n

theorem denotes_iff {raw : String} {n : Int} : Denotes raw n ↔ Numeral (trim raw).toList n := by
  rw [trim, String.toList_ofList]
  constructor
  · rintro ⟨split, blankBefore, blankAfter, numeral⟩
    rw [split, trimChars_surrounded blankBefore blankAfter numeral.visible.1 numeral.visible.2]
    exact numeral
  · intro numeral
    obtain ⟨before, after, split, blankBefore, blankAfter⟩ := trimChars_split raw.toList
    exact .surrounded split blankBefore blankAfter numeral

theorem Denotes.unique {raw : String} {m n : Int} (first : Denotes raw m) (second : Denotes raw n) :
    m = n :=
  (denotes_iff.mp first).unique (denotes_iff.mp second)

/-! Canonical numerals -/

/-- The numeral of an integer that has no plus sign, a minus sign only if the integer is negative,
and no zeros in front of other digits. -/
structure Canonical (n : Int) (text : List Char) : Prop where
  numeral : Numeral text n
  noPlus : ∀ rest, text ≠ '+' :: rest
  negative : ∀ rest, text = '-' :: rest → n < 0
  unpadded : Unpadded text
  unpaddedAfterMinus : ∀ rest, text = '-' :: rest → Unpadded rest

theorem canonical_toString (n : Int) : Canonical n (toString n).toList := by
  cases n with
  | ofNat k =>
    have text : (toString (Int.ofNat k)).toList = k.repr.toList := rfl
    rw [text]
    constructor
    · have numeral := Numeral.unsigned (digits_repr k)
      rw [placeValue_repr] at numeral
      exact numeral
    · exact (digits_repr k).ne_cons (by decide)
    · exact fun rest sign => absurd sign ((digits_repr k).ne_cons (by decide) rest)
    · exact unpadded_repr k
    · exact fun rest sign => absurd sign ((digits_repr k).ne_cons (by decide) rest)
  | negSucc k =>
    have text : (toString (Int.negSucc k)).toList = '-' :: (k + 1).repr.toList := by
      have spelled : toString (Int.negSucc k) = "-" ++ (k + 1).repr := rfl
      rw [spelled, String.toList_append]
      rfl
    rw [text]
    constructor
    · have numeral := Numeral.minus (digits_repr (k + 1))
      rw [placeValue_repr] at numeral
      exact numeral
    · exact fun rest sign => absurd (List.cons.inj sign).1 (by decide)
    · exact fun rest _ => Int.negSucc_lt_zero k
    · exact fun c rest padded => absurd (List.cons.inj padded).1 (by decide)
    · intro rest sign
      rw [← (List.cons.inj sign).2]
      exact unpadded_repr (k + 1)

theorem canonical_iff {n : Int} {text : List Char} :
    Canonical n text ↔ text = (toString n).toList := by
  constructor
  · intro canonical
    cases canonical.numeral with
    | unsigned digits => exact (repr_placeValue digits canonical.unpadded).symm
    | plus digits => exact absurd rfl (canonical.noPlus _)
    | @minus cs digits =>
      have negative := canonical.negative cs rfl
      have spelled := repr_placeValue digits (canonical.unpaddedAfterMinus cs rfl)
      cases value : placeValue cs with
      | zero =>
        rw [value] at negative
        exact absurd negative (by decide)
      | succ k =>
        rw [value] at spelled
        have text : toString (-((k + 1 : Nat) : Int)) = "-" ++ (k + 1).repr := rfl
        rw [text, String.toList_append, spelled]
        rfl
  · rintro rfl
    exact canonical_toString n

end BlockSketch.Text
