import BlockSketch.Text.Blank
import BlockSketch.Text.Integer

/-
Texts in the form that validation leaves them in. Trimming a trimmed text changes nothing, and the
decimal of an integer is trimmed and reads as that integer.
-/
namespace BlockSketch.Text

/-! Trimmed texts -/

theorem visible_of_head_dropWhile {cs : List Char} {c : Char}
    (first : (cs.dropWhile isBlankChar).head? = some c) : isBlankChar c = false := by
  have all := List.head?_dropWhile_not isBlankChar cs
  rw [first] at all
  exact all

theorem dropWhile_of_visible {cs : List Char}
    (first : ∀ c, cs.head? = some c → isBlankChar c = false) : cs.dropWhile isBlankChar = cs := by
  cases cs with
  | nil => rfl
  | cons c cs => rw [List.dropWhile_cons_of_neg (by simp [first c rfl])]

theorem trimChars_of_visible_ends {cs : List Char}
    (first : ∀ c, cs.head? = some c → isBlankChar c = false)
    (last : ∀ c, cs.getLast? = some c → isBlankChar c = false) : trimChars cs = cs := by
  have back : cs.reverse.dropWhile isBlankChar = cs.reverse := by
    apply dropWhile_of_visible
    intro c found
    rw [List.head?_reverse] at found
    exact last c found
  rw [trimChars, dropWhile_of_visible first, back, List.reverse_reverse]

theorem trim_of_visible {s : String} (visible : ∀ c ∈ s.toList, isBlankChar c = false) :
    trim s = s := by
  rw [trim, trimChars_of_visible_ends, String.ofList_toList]
  · intro c first
    exact visible c (List.mem_of_head? first)
  · intro c last
    exact visible c (List.mem_of_getLast? last)

theorem trim_trim (s : String) : trim (trim s) = trim s := by
  have again : trimChars (trimChars s.toList) = trimChars s.toList := by
    apply trimChars_of_visible_ends
    · intro c found
      -- Trimming the end leaves a front part of a text that begins with something visible.
      have front : trimChars s.toList <+: s.toList.dropWhile isBlankChar := by
        rw [← List.reverse_suffix, trimChars, List.reverse_reverse]
        exact List.dropWhile_suffix isBlankChar
      obtain ⟨rest, whole⟩ := front
      have first : (s.toList.dropWhile isBlankChar).head? = some c := by
        rw [← whole, List.head?_append, found]
        rfl
      exact visible_of_head_dropWhile first
    · intro c found
      rw [trimChars, List.getLast?_reverse] at found
      exact visible_of_head_dropWhile found
  rw [trim, trim, String.toList_ofList, again]

theorem digit_visible {c : Char} (digit : c.isDigit = true) : isBlankChar c = false := by
  simp only [Char.isDigit, Bool.and_eq_true, decide_eq_true_eq, ge_iff_le, UInt32.le_iff_toNat_le]
    at digit
  have zero : '0'.val.toNat = 48 := rfl
  have nine : '9'.val.toNat = 57 := rfl
  have number : c.toNat = c.val.toNat := rfl
  simp only [isBlankChar, blankRanges, List.any_cons, List.any_nil, Bool.or_eq_false_iff,
    Bool.and_eq_false_iff, decide_eq_false_iff_not, and_true]
  omega

/-! Integers -/

theorem toList_toString (n : Int) :
    ∃ k : Nat, (n = k ∧ (toString n).toList = k.repr.toList) ∨
      (n = -(k : Int) ∧ (toString n).toList = '-' :: k.repr.toList) := by
  cases n with
  | ofNat k => exact ⟨k, .inl ⟨rfl, rfl⟩⟩
  | negSucc k =>
    refine ⟨k + 1, .inr ⟨rfl, ?_⟩⟩
    have text : toString (Int.negSucc k) = "-" ++ (k + 1).repr := rfl
    rw [text, String.toList_append]
    rfl

theorem trim_toString (n : Int) : trim (toString n) = toString n := by
  apply trim_of_visible
  intro c member
  obtain ⟨k, ⟨_, text⟩ | ⟨_, text⟩⟩ := toList_toString n
  · rw [text] at member
    exact digit_visible (isDigit_of_mem_repr member)
  · rw [text, List.mem_cons] at member
    rcases member with rfl | digit
    · decide
    · exact digit_visible (isDigit_of_mem_repr digit)

theorem integer?_bounds {cs : List Char} {n : Int} (read : integer? cs = some n) :
    wordMin ≤ n ∧ n ≤ wordMax := by
  unfold integer? at read
  have kept := (Option.filter_eq_some_iff.mp read).2
  rw [Bool.and_eq_true] at kept
  exact ⟨of_decide_eq_true kept.1, of_decide_eq_true kept.2⟩

theorem integer?_unsigned {cs : List Char} (digits : cs.all Char.isDigit = true) :
    integer? cs = ((digits? cs).map Int.ofNat).filter fun n => wordMin ≤ n && n ≤ wordMax := by
  unfold integer?
  split
  · exact absurd digits (by simp)
  · exact absurd digits (by simp)
  · rfl

theorem integer?_toString {n : Int} (low : wordMin ≤ n) (high : n ≤ wordMax) :
    integer? (toString n).toList = some n := by
  have inside : (decide (wordMin ≤ n) && decide (n ≤ wordMax)) = true := by
    rw [Bool.and_eq_true, decide_eq_true_eq, decide_eq_true_eq]
    exact ⟨low, high⟩
  obtain ⟨k, ⟨same, text⟩ | ⟨same, text⟩⟩ := toList_toString n
  · have digits : k.repr.toList.all Char.isDigit = true :=
      List.all_eq_true.mpr fun _ => isDigit_of_mem_repr
    rw [text, integer?_unsigned digits, digits?_repr, Option.map_some, Int.ofNat_eq_natCast, ← same]
    exact if_pos inside
  · have signed : integer? ('-' :: k.repr.toList) =
        (some (-(k : Int))).filter fun n => wordMin ≤ n && n ≤ wordMax := by
      rw [integer?, digits?_repr]
      rfl
    rw [text, signed, ← same]
    exact if_pos inside

end BlockSketch.Text
