import BlockSketch.Proofs.Code.Grammar

/-
How texts of expressions are put together: which pieces can be set side by side without their
characters running into each other, and which operators stand in one row when no parentheses part
them.
-/
namespace BlockSketch.Code

/-! Tokens of texts side by side -/

@[simp] theorem both_nil (second : Option (List Token)) : both (some []) second = second := by
  cases second <;> rfl

@[simp] theorem both_some (a b : List Token) : both (some a) (some b) = some (a ++ b) := rfl

@[simp] theorem both_of_nil (first : Option (List Token)) : both first (some []) = first := by
  cases first <;> simp [both]

theorem both_assoc (a b c : Option (List Token)) : both (both a b) c = both a (both b c) := by
  cases a <;> cases b <;> cases c <;> simp [both]

theorem lex_cons {c : Char} (visible : c ≠ ' ') (rest : List Char) :
    lex (c :: rest) = lexFrom [c] rest := by
  simp [lex, lexFrom, visible, joins]

theorem lex_space (rest : List Char) : lex (' ' :: rest) = lex rest := by
  simp [lex, lexFrom, tokenOf]

theorem lexFrom_apart {begun text : List Char}
    (apart : ∀ c rest, text = c :: rest → c = ' ' ∨ joins begun c = false) :
    lexFrom begun text = both (tokenOf begun) (lex text) := by
  cases text with
  | nil => exact (both_of_nil (tokenOf begun)).symm
  | cons c rest =>
    by_cases space : c = ' '
    · subst space
      rw [lex_space, lexFrom, if_pos rfl, lex]
    · have joined := (apart c rest rfl).resolve_left space
      rw [lex_cons space, lexFrom, if_neg space, joined]
      simp

def divides (c : Char) : Bool := c = ' ' || c = '(' || c = ')' || c = ','

theorem joins_divider {begun : List Char} {c : Char} (begins : begun ≠ [])
    (divider : divides c = true) (visible : c ≠ ' ') : joins begun c = false := by
  cases begun with
  | nil => exact absurd rfl begins
  | cons s rest =>
    simp only [divides, Bool.or_eq_true, decide_eq_true_eq, visible, false_or] at divider
    have noPair : pairs.contains [s, c] = false := by
      rcases divider with (rfl | rfl) | rfl <;> simp [pairs]
    have noName : continuesName c = false := by rcases divider with (rfl | rfl) | rfl <;> decide
    have noPoint : decide (c = '.') = false := by rcases divider with (rfl | rfl) | rfl <;> decide
    simp only [joins, noPair, noName, noPoint]
    split <;> simp

theorem lexFrom_divided (begun text rest : List Char) {c : Char} (divider : divides c = true) :
    lexFrom begun (text ++ c :: rest) = both (lexFrom begun text) (lex (c :: rest)) := by
  induction text generalizing begun with
  | nil =>
    rw [List.nil_append, lexFrom]
    by_cases begins : begun = []
    · subst begins
      simp [tokenOf, lex]
    · refine lexFrom_apart fun d more same => ?_
      cases same
      by_cases space : c = ' '
      · exact Or.inl space
      · exact Or.inr (joins_divider begins divider space)
  | cons d text ih =>
    simp only [List.cons_append, lexFrom]
    split
    · rw [ih, both_assoc]
    · split
      · rw [ih]
      · rw [ih, both_assoc]

theorem lex_divided (text rest : List Char) {c : Char} (divider : divides c = true) :
    lex (text ++ c :: rest) = both (lex text) (lex (c :: rest)) :=
  lexFrom_divided [] text rest divider

theorem lex_symbol {c : Char} (visible : c ≠ ' ') {rest : List Char}
    (apart : ∀ d more, rest = d :: more → d = ' ' ∨ joins [c] d = false) :
    lex (c :: rest) = both (tokenOf [c]) (lex rest) := by
  rw [lex_cons visible, lexFrom_apart apart]

theorem lex_bracket {c : Char} (bracket : c = '(' ∨ c = ')' ∨ c = ',') (rest : List Char) :
    lex (c :: rest) = both (some [.symbol [c]]) (lex rest) := by
  have visible : c ≠ ' ' := by rcases bracket with rfl | rfl | rfl <;> decide
  have alone : tokenOf [c] = some [.symbol [c]] := by
    rcases bracket with rfl | rfl | rfl <;> decide
  have noName : startsName c = false := by rcases bracket with rfl | rfl | rfl <;> decide
  have noDigit : c.isDigit = false := by rcases bracket with rfl | rfl | rfl <;> decide
  rw [lex_symbol visible, alone]
  intro d more _
  right
  rcases bracket with rfl | rfl | rfl <;> simp [joins, noName, noDigit, pairs]

theorem lex_operator (op : BinaryOp) (rest : List Char) :
    lex (op.symbol ++ ' ' :: rest) = both (some [.symbol op.symbol]) (lex rest) := by
  have alone : lex op.symbol = some [.symbol op.symbol] := by cases op <;> decide
  rw [lex_divided op.symbol rest (by decide), alone, lex_space]

/-! Words -/

structure IsName (text : List Char) : Prop where
  starts : ∃ s rest, text = s :: rest ∧ startsName s = true ∧ ∀ c ∈ rest, continuesName c = true

def checkName : List Char → Bool
  | s :: rest => startsName s && rest.all continuesName
  | [] => false

theorem checkName_iff {text : List Char} : checkName text = true ↔ IsName text := by
  constructor
  · intro checked
    cases text with
    | nil => cases checked
    | cons s rest =>
      simp only [checkName, Bool.and_eq_true, List.all_eq_true] at checked
      exact ⟨s, rest, rfl, checked.1, checked.2⟩
  · rintro ⟨s, rest, rfl, first, others⟩
    simp only [checkName, first, Bool.true_and, List.all_eq_true]
    exact others

instance (text : List Char) : Decidable (IsName text) := decidable_of_iff _ checkName_iff

structure IsNumeral (text : List Char) : Prop where
  starts : ∃ s rest, text = s :: rest ∧ s.isDigit = true ∧ ∀ c ∈ rest, c.isDigit = true ∨ c = '.'
  reads : (Binary64.decimalText? false text).isSome = true

/-- Whether a character joins a word hangs on the first character of the word alone. -/
theorem lexFrom_word {s : Char} {front text : List Char}
    (joined : ∀ front, ∀ c ∈ text, c ≠ ' ' ∧ joins (s :: front) c = true) :
    lexFrom (s :: front) text = tokenOf (s :: front ++ text) := by
  induction text generalizing front with
  | nil => simp [lexFrom]
  | cons c rest ih =>
    obtain ⟨visible, first⟩ := joined front c (by simp)
    have tail : ∀ front, ∀ d ∈ rest, d ≠ ' ' ∧ joins (s :: front) d = true :=
      fun front d member => joined front d (by simp [member])
    rw [lexFrom, if_neg visible, if_pos first, List.cons_append, ih tail]
    simp

theorem continuesName_visible {c : Char} (h : continuesName c = true) : c ≠ ' ' := by
  rintro rfl
  exact absurd h (by decide)

theorem startsName_visible {c : Char} (h : startsName c = true) : c ≠ ' ' := by
  rintro rfl
  exact absurd h (by decide)

theorem isDigit_visible {c : Char} (h : c.isDigit = true) : c ≠ ' ' := by
  rintro rfl
  exact absurd h (by decide)

theorem letters_follow_A {c : Char} (alpha : c.isAlpha = true) : 'A' ≤ c := by
  rcases Bool.or_eq_true_iff.mp alpha with upper | lower
  · exact (of_decide_eq_true upper).1
  · have past : 'a' ≤ c := of_decide_eq_true (Bool.and_eq_true_iff.mp lower).1
    exact Char.le_trans (by decide) past

theorem digit_starts_no_name {c : Char} (digit : c.isDigit = true) : startsName c = false := by
  cases starts : startsName c with
  | false => rfl
  | true =>
    have letter : c.isAlpha = true ∨ c = '_' := by simpa [startsName] using starts
    rcases letter with alpha | rfl
    · have atMost : c ≤ '9' := of_decide_eq_true (Bool.and_eq_true_iff.mp digit).2
      exact absurd (Char.le_trans (letters_follow_A alpha) atMost) (by decide)
    · exact absurd digit (by decide)

theorem lex_name {text : List Char} (isName : IsName text) : lex text = some [.name text] := by
  obtain ⟨s, rest, rfl, first, others⟩ := isName.starts
  rw [lex_cons (startsName_visible first), lexFrom_word]
  · simp [tokenOf, first]
  · intro front c member
    exact ⟨continuesName_visible (others c member), by simp [joins, first, others c member]⟩

theorem lex_numeral {text : List Char} (isNumeral : IsNumeral text) :
    lex text = some [.numeral text] := by
  obtain ⟨s, rest, rfl, first, others⟩ := isNumeral.starts
  have noName := digit_starts_no_name first
  rw [lex_cons (isDigit_visible first), lexFrom_word]
  · simp [tokenOf, first, noName, isNumeral.reads]
  · intro front c member
    rcases others c member with digit | rfl
    · refine ⟨isDigit_visible digit, ?_⟩
      simp [joins, noName, first, continuesName, Char.isAlphanum, digit]
    · refine ⟨by decide, ?_⟩
      simp [joins, noName, first]

/-! Rows of operators -/

inductive Row (n : Nat) : List Token → Expr → List (BinaryOp × Expr) → Prop where
  | single {m : Nat} {ts : List Token} {e : Expr} (le : n ≤ m) (tighter : n < m ∨ 6 ≤ n)
      (reads : Reads (.level m) ts e) : Row n ts e []
  | more {ts rs : List Token} {e x : Expr} {tail : List (BinaryOp × Expr)} {op : BinaryOp}
      (row : Row n ts e tail) (level : op.level = n) (reads : Reads (.level (n + 1)) rs x) :
      Row n (ts ++ .symbol op.symbol :: rs) e (tail ++ [(op, x)])

def grouped (e : Expr) (tail : List (BinaryOp × Expr)) : Expr :=
  tail.foldl (fun a next => .binary next.1 a next.2) e

@[simp] theorem grouped_nil (e : Expr) : grouped e [] = e := rfl

theorem grouped_append (e : Expr) (front : List (BinaryOp × Expr)) (op : BinaryOp) (x : Expr)
    (back : List (BinaryOp × Expr)) :
    grouped e (front ++ (op, x) :: back) = grouped (.binary op (grouped e front) x) back := by
  simp [grouped]

theorem reads_of_row {n : Nat} {ts : List Token} {e : Expr} {tail : List (BinaryOp × Expr)}
    (row : Row n ts e tail) : Reads (.level n) ts (grouped e tail) := by
  induction row with
  | single le _ reads => exact reads_of_le le reads
  | more row level reads ih =>
    rw [grouped_append, grouped_nil]
    subst level
    exact Reads.binary _ ih reads

theorem operator_level_le (op : BinaryOp) : op.level ≤ 5 := by cases op <;> decide

/-- Two rows of a level with an operator of that level between them are one row. -/
theorem row_append {n : Nat} {ls rs : List Token} {a b : Expr} {front back : List (BinaryOp × Expr)}
    {op : BinaryOp} (left : Row n ls a front) (level : op.level = n) (right : Row n rs b back) :
    Row n (ls ++ .symbol op.symbol :: rs) a (front ++ (op, b) :: back) := by
  induction right with
  | @single m ts e le tighter reads =>
    have := operator_level_le op
    exact Row.more left level (reads_of_le (by omega) reads)
  | @more ts rs e x tail last row sameLevel reads ih =>
    have extended := Row.more ih sameLevel reads
    simpa using extended

/-! Texts of rows -/

structure Spelled (n : Nat) (text : List Char) (e : Expr)
    (tail : List (BinaryOp × Expr)) : Prop where
  starts : ∃ c rest, text = c :: rest ∧ c ≠ '='
  tokens : ∃ ts, lex text = some ts ∧ Row n ts e tail

theorem read_spelled {n : Nat} {text : String} {e : Expr} {tail : List (BinaryOp × Expr)}
    (spelled : Spelled n text.toList e tail) : read text = some (grouped e tail) := by
  obtain ⟨ts, lexed, row⟩ := spelled.tokens
  rw [read, lexed, Option.bind_some]
  exact parse_of_reads (reads_of_le (Nat.zero_le n) (reads_of_row row))

theorem spelled_tighter {m n : Nat} {text : List Char} {e : Expr} {tail : List (BinaryOp × Expr)}
    (spelled : Spelled m text e tail) (lt : n < m) : Spelled n text (grouped e tail) [] := by
  obtain ⟨ts, lexed, row⟩ := spelled.tokens
  exact ⟨spelled.starts, ts, lexed, Row.single (Nat.le_of_lt lt) (Or.inl lt) (reads_of_row row)⟩

theorem spelled_primary {n : Nat} {text : List Char} {ts : List Token} {e : Expr} (le : n ≤ 7)
    (starts : ∃ c rest, text = c :: rest ∧ c ≠ '=') (lexed : lex text = some ts)
    (reads : Reads (.level 7) ts e) : Spelled n text e [] :=
  ⟨starts, ts, lexed, Row.single le (by omega) reads⟩

theorem spelled_group {m n : Nat} {text : List Char} {e : Expr} {tail : List (BinaryOp × Expr)}
    (spelled : Spelled m text e tail) (le : n ≤ 7) :
    Spelled n ('(' :: (text ++ [')'])) (grouped e tail) [] := by
  obtain ⟨ts, lexed, row⟩ := spelled.tokens
  refine spelled_primary le ⟨'(', _, rfl, by decide⟩ ?_
    (Reads.group (reads_of_le (Nat.zero_le m) (reads_of_row row)))
  rw [lex_bracket (Or.inl rfl), lex_divided text [] (by decide), lexed,
    lex_bracket (Or.inr (Or.inl rfl))]
  rfl

theorem spelled_binary {n : Nat} {left right : List Char} {a b : Expr}
    {front back : List (BinaryOp × Expr)} {op : BinaryOp} (first : Spelled n left a front)
    (level : op.level = n) (second : Spelled n right b back) :
    Spelled n (left ++ ' ' :: (op.symbol ++ ' ' :: right)) a (front ++ (op, b) :: back) := by
  obtain ⟨ls, lexedLeft, rowLeft⟩ := first.tokens
  obtain ⟨rs, lexedRight, rowRight⟩ := second.tokens
  obtain ⟨c, rest, rfl, safe⟩ := first.starts
  refine ⟨⟨c, _, rfl, safe⟩, _, ?_, row_append rowLeft level rowRight⟩
  rw [lex_divided _ _ (by decide), lexedLeft, lex_space, lex_operator, lexedRight]
  rfl

theorem spelled_negation {text : List Char} {e : Expr} {tail : List (BinaryOp × Expr)}
    (spelled : Spelled 6 text e tail) :
    Spelled 6 ('!' :: text) (.unary .not (grouped e tail)) [] := by
  obtain ⟨ts, lexed, row⟩ := spelled.tokens
  obtain ⟨c, rest, rfl, safe⟩ := spelled.starts
  refine ⟨⟨'!', _, rfl, by decide⟩, _, ?_,
    Row.single (Nat.le_refl 6) (Or.inr (Nat.le_refl 6)) (Reads.unary .not (reads_of_row row))⟩
  have apart : ∀ d more, c :: rest = d :: more → d = ' ' ∨ joins ['!'] d = false := by
    intro d more same
    cases same
    right
    simp [joins, startsName, pairs, safe]
  rw [lex_symbol (by decide) apart, lexed]
  rfl

theorem spelled_name {n : Nat} {text : List Char} (isName : IsName text) (le : n ≤ 7) :
    Spelled n text (.name text) [] := by
  obtain ⟨s, rest, same, first, _⟩ := isName.starts
  have safe : s ≠ '=' := by
    rintro rfl
    exact absurd first (by decide)
  exact spelled_primary le ⟨s, rest, same, safe⟩ (lex_name isName) (Reads.name text)

theorem spelled_numeral {n : Nat} {text : List Char} (isNumeral : IsNumeral text) (le : n ≤ 7) :
    Spelled n text (.numeral text) [] := by
  obtain ⟨s, rest, same, first, _⟩ := isNumeral.starts
  have safe : s ≠ '=' := by
    rintro rfl
    exact absurd first (by decide)
  exact spelled_primary le ⟨s, rest, same, safe⟩ (lex_numeral isNumeral) (Reads.numeral text)

theorem spelled_minus {text : List Char} {e : Expr} (spelled : Spelled 7 text e [])
    (word : ∃ c rest, text = c :: rest ∧ (startsName c = true ∨ c.isDigit = true)) :
    Spelled 6 ('-' :: text) (.unary .minus e) [] := by
  obtain ⟨ts, lexed, row⟩ := spelled.tokens
  obtain ⟨c, rest, rfl, first⟩ := word
  refine ⟨⟨'-', _, rfl, by decide⟩, _, ?_,
    Row.single (Nat.le_refl 6) (Or.inr (Nat.le_refl 6))
      (Reads.unary .minus (Reads.looser (reads_of_row row)))⟩
  have apart : ∀ d more, c :: rest = d :: more → d = ' ' ∨ joins ['-'] d = false := by
    intro d more same
    cases same
    right
    have noPair : pairs.contains ['-', c] = false := by
      have differs : c ≠ '-' ∧ c ≠ '>' ∧ c ≠ '=' := by
        refine ⟨?_, ?_, ?_⟩ <;> rintro rfl <;> exact absurd first (by decide)
      simp [pairs, differs]
    simp only [joins, noPair, Bool.and_false]
    rfl
  rw [lex_symbol (by decide) apart, lexed]
  rfl

theorem spelled_call {n : Nat} {text : List Char} (isName : IsName text) (le : n ≤ 7) :
    Spelled n (text ++ ['(', ')']) (.call (.name text)) [] := by
  obtain ⟨c, rest, same, safe⟩ := (spelled_name isName le).starts
  refine spelled_primary le ⟨c, rest ++ ['(', ')'], by simp [same], safe⟩ ?_
    (Reads.call (Reads.name text))
  rw [lex_divided text [')'] (by decide), lex_name isName, lex_bracket (Or.inl rfl),
    lex_bracket (Or.inr (Or.inl rfl))]
  rfl

theorem spelled_call_one {m n : Nat} {text value : List Char} {e : Expr}
    {tail : List (BinaryOp × Expr)} (isName : IsName text) (spelled : Spelled m value e tail)
    (le : n ≤ 7) :
    Spelled n (text ++ '(' :: (value ++ [')'])) (.argument (.call (.name text)) (grouped e tail))
      [] := by
  obtain ⟨c, rest, same, safe⟩ := (spelled_name isName le).starts
  obtain ⟨ts, lexed, row⟩ := spelled.tokens
  refine spelled_primary le ⟨c, rest ++ '(' :: (value ++ [')']), by simp [same], safe⟩ ?_
    (Reads.close (Reads.first (Reads.name text) (reads_of_le (Nat.zero_le m) (reads_of_row row))))
  rw [lex_divided text _ (by decide), lex_name isName, lex_bracket (Or.inl rfl),
    lex_divided value [] (by decide), lexed, lex_bracket (Or.inr (Or.inl rfl))]
  simp [lex, lexFrom, tokenOf]

theorem spelled_call_two {m k n : Nat} {text first second : List Char} {a b : Expr}
    {front back : List (BinaryOp × Expr)} (isName : IsName text) (one : Spelled m first a front)
    (two : Spelled k second b back) (le : n ≤ 7) :
    Spelled n (text ++ '(' :: (first ++ ',' :: ' ' :: (second ++ [')'])))
      (.argument (.argument (.call (.name text)) (grouped a front)) (grouped b back)) [] := by
  obtain ⟨c, rest, same, safe⟩ := (spelled_name isName le).starts
  obtain ⟨ls, lexedFirst, rowFirst⟩ := one.tokens
  obtain ⟨rs, lexedSecond, rowSecond⟩ := two.tokens
  have call := Reads.first (Reads.name text) (reads_of_le (Nat.zero_le m) (reads_of_row rowFirst))
  refine spelled_primary le ⟨c, rest ++ _, by rw [same, List.cons_append], safe⟩ ?_
    (Reads.close (Reads.more call (reads_of_le (Nat.zero_le k) (reads_of_row rowSecond))))
  rw [lex_divided text _ (by decide), lex_name isName, lex_bracket (Or.inl rfl),
    lex_divided first _ (by decide), lexedFirst, lex_bracket (Or.inr (Or.inr rfl)), lex_space,
    lex_divided second [] (by decide), lexedSecond, lex_bracket (Or.inr (Or.inl rfl))]
  simp [lex, lexFrom, tokenOf]

end BlockSketch.Code
