import BlockSketch.Proofs.Code.Reader

/-
The grammar of expressions, with its left recursion, and that the reader follows it: whatever the
grammar derives is read as the tree of the derivation. The reader keeps a stack of unfinished parts.
At every point the part read so far stands for its tree as soon as anything looser follows, and that
is what each rule of the grammar keeps.
-/
namespace BlockSketch.Code

/-- What a row of tokens can be: an expression that binds at least as tightly as a level, or a call
before its closing parenthesis. Levels up to five are those of the binary operators, six is unary
and seven primary. -/
inductive Form where
  | level (n : Nat)
  | arguments

inductive Reads : Form → List Token → Expr → Prop where
  | numeral (text : List Char) : Reads (.level 7) [.numeral text] (.numeral text)
  | name (text : List Char) : Reads (.level 7) [.name text] (.name text)
  | group {ts : List Token} {e : Expr} (inner : Reads (.level 0) ts e) :
      Reads (.level 7) (.symbol ['('] :: (ts ++ [.symbol [')']])) e
  | call {ts : List Token} {f : Expr} (callee : Reads (.level 7) ts f) :
      Reads (.level 7) (ts ++ [.symbol ['('], .symbol [')']]) (.call f)
  | first {ts xs : List Token} {f x : Expr} (callee : Reads (.level 7) ts f)
      (value : Reads (.level 0) xs x) :
      Reads .arguments (ts ++ .symbol ['('] :: xs) (.argument (.call f) x)
  | more {ts xs : List Token} {c x : Expr} (call : Reads .arguments ts c)
      (value : Reads (.level 0) xs x) :
      Reads .arguments (ts ++ .symbol [','] :: xs) (.argument c x)
  | close {ts : List Token} {c : Expr} (call : Reads .arguments ts c) :
      Reads (.level 7) (ts ++ [.symbol [')']]) c
  | unary (op : UnaryOp) {ts : List Token} {e : Expr} (inner : Reads (.level 6) ts e) :
      Reads (.level 6) (.symbol op.symbol :: ts) (.unary op e)
  | binary (op : BinaryOp) {ls rs : List Token} {a b : Expr} (left : Reads (.level op.level) ls a)
      (right : Reads (.level (op.level + 1)) rs b) :
      Reads (.level op.level) (ls ++ .symbol op.symbol :: rs) (.binary op a b)
  | looser {n : Nat} {ts : List Token} {e : Expr} (tight : Reads (.level (n + 1)) ts e) :
      Reads (.level n) ts e

theorem reads_of_le {m n : Nat} {ts : List Token} {e : Expr} (le : m ≤ n)
    (tight : Reads (.level n) ts e) : Reads (.level m) ts e := by
  induction n with
  | zero =>
    obtain rfl : m = 0 := by omega
    exact tight
  | succ n ih =>
    by_cases same : m = n + 1
    · exact same ▸ tight
    · exact ih (by omega) (Reads.looser tight)

/-! Ending unfinished parts -/

def Closed (level : Nat) : List Frame → Prop
  | .unary _ :: _ => False
  | .left _ op :: _ => op.level < level
  | _ => True

theorem collapse_closed {level : Nat} {frames : List Frame} (closed : Closed level frames)
    (e : Expr) : collapse level frames e = (frames, e) := by
  cases frames with
  | nil => rfl
  | cons frame outer =>
    cases frame with
    | group => rfl
    | call c => rfl
    | unary op => exact absurd closed id
    | left a op =>
      have loose : ¬ level ≤ op.level := Nat.not_le.mpr closed
      simp [collapse, loose]

theorem closed_succ {level : Nat} {frames : List Frame} (closed : Closed level frames) :
    Closed (level + 1) frames := by
  cases frames with
  | nil => trivial
  | cons frame outer =>
    cases frame with
    | group => trivial
    | call c => trivial
    | unary op => exact closed
    | left a op => exact Nat.lt_succ_of_lt closed

theorem ofSymbol_symbol (op : BinaryOp) : BinaryOp.ofSymbol? op.symbol = some op := by
  cases op <;> rfl

theorem after_operator (op : BinaryOp) (frames : List Frame) (e : Expr) (rest : List Token) :
    after frames e (.symbol op.symbol :: rest) =
      operand (.left (collapse op.level frames e).2 op :: (collapse op.level frames e).1) rest := by
  have known := ofSymbol_symbol op
  rw [after]
  cases op <;> simp_all [BinaryOp.symbol]

theorem operand_unary (op : UnaryOp) (frames : List Frame) (rest : List Token) :
    operand frames (.symbol op.symbol :: rest) = operand (.unary op :: frames) rest := by
  cases op <;> simp [operand, UnaryOp.symbol]

/-! The reader along a derivation -/

def ReadsWhole (ts : List Token) (e : Expr) : Prop :=
  ∀ frames rest, operand frames (ts ++ rest) = after frames e rest

/-- After the tokens some parts may be unfinished; ending them at any level up to `n` gives the
expression. -/
def ReadsUpTo (n : Nat) (ts : List Token) (e : Expr) : Prop :=
  ∀ frames, n = 6 ∨ Closed n frames → ∀ rest, ∃ inner x,
    operand frames (ts ++ rest) = after (inner ++ frames) x rest ∧
    ∀ level, level ≤ n → collapse level (inner ++ frames) x = collapse level frames e

/-- The tokens leave a call open whose last argument may have unfinished parts. -/
def ReadsOpen (ts : List Token) (c : Expr) : Prop :=
  ∀ frames rest, ∃ inner call x value,
    operand frames (ts ++ rest) = after (inner ++ .call call :: frames) x rest ∧
    collapse 0 (inner ++ .call call :: frames) x = (.call call :: frames, value) ∧
    c = .argument call value

def Followed : Form → List Token → Expr → Prop
  | .level n, ts, e => if 7 ≤ n then ReadsWhole ts e else ReadsUpTo n ts e
  | .arguments, ts, c => ReadsOpen ts c

theorem readsUpTo_of_whole {ts : List Token} {e : Expr} (whole : ReadsWhole ts e) (n : Nat) :
    ReadsUpTo n ts e := by
  intro frames _ rest
  exact ⟨[], e, whole frames rest, fun _ _ => rfl⟩

/-- An argument leaves only unfinished parts of its own above the frame of its call. -/
theorem argument_followed {xs : List Token} {x : Expr} (value : ReadsUpTo 0 xs x) {frame : Frame}
    {frames : List Frame} (closed : Closed 0 (frame :: frames)) (rest : List Token) :
    ∃ inner y, operand (frame :: frames) (xs ++ rest) = after (inner ++ frame :: frames) y rest ∧
      collapse 0 (inner ++ frame :: frames) y = (frame :: frames, x) := by
  obtain ⟨inner, y, run, ended⟩ := value (frame :: frames) (Or.inr closed) rest
  refine ⟨inner, y, run, ?_⟩
  rw [ended 0 (Nat.le_refl 0), collapse_closed closed]

theorem binary_followed (op : BinaryOp) {ls rs : List Token} {a b : Expr}
    (left : ReadsUpTo op.level ls a) (right : ReadsUpTo (op.level + 1) rs b) :
    ReadsUpTo op.level (ls ++ .symbol op.symbol :: rs) (.binary op a b) := by
  intro frames closed rest
  have notUnary : op.level ≠ 6 := by cases op <;> decide
  have closed := closed.resolve_left notUnary
  obtain ⟨inner, x, runLeft, endedLeft⟩ :=
    left frames (Or.inr closed) (.symbol op.symbol :: rs ++ rest)
  have stack : collapse op.level (inner ++ frames) x = (frames, a) := by
    rw [endedLeft op.level (Nat.le_refl _), collapse_closed closed]
  obtain ⟨innerRight, y, runRight, endedRight⟩ :=
    right (.left a op :: frames) (Or.inr (Nat.lt_succ_self _)) rest
  refine ⟨innerRight ++ [.left a op], y, ?_, ?_⟩
  · rw [List.append_assoc, runLeft, List.cons_append, after_operator, stack, runRight]
    simp
  · intro level le
    have ended := endedRight level (Nat.le_succ_of_le le)
    rw [collapse, if_pos le] at ended
    simpa using ended

theorem looser_followed {n : Nat} {ts : List Token} {e : Expr}
    (tight : Followed (.level (n + 1)) ts e) : Followed (.level n) ts e := by
  simp only [Followed] at tight ⊢
  by_cases primary : 7 ≤ n
  · simpa [primary, Nat.le_succ_of_le primary] using tight
  · rw [if_neg primary]
    by_cases unary : 7 ≤ n + 1
    · rw [if_pos unary] at tight
      exact readsUpTo_of_whole tight n
    · rw [if_neg unary] at tight
      intro frames closed rest
      have closedAbove : n + 1 = 6 ∨ Closed (n + 1) frames := by
        rcases closed with six | closed
        · omega
        · exact Or.inr (closed_succ closed)
      obtain ⟨inner, x, run, ended⟩ := tight frames closedAbove rest
      exact ⟨inner, x, run, fun level le => ended level (Nat.le_succ_of_le le)⟩

theorem reads_followed {form : Form} {ts : List Token} {e : Expr} (reads : Reads form ts e) :
    Followed form ts e := by
  induction reads with
  | numeral text => intro frames rest; simp [operand]
  | name text => intro frames rest; simp [operand]
  | @group ts e inner ih =>
    intro frames rest
    have closed : Closed 0 (.group :: frames) := trivial
    obtain ⟨fs, x, run, ended⟩ := argument_followed ih closed (.symbol [')'] :: rest)
    simp [operand, run, after, ended]
  | @call ts f callee ih =>
    intro frames rest
    rw [List.append_assoc, ih frames]
    simp [after, operand]
  | @first ts xs f x callee value ihCallee ihValue =>
    intro frames rest
    have closed : Closed 0 (.call (.call f) :: frames) := trivial
    obtain ⟨fs, y, run, ended⟩ := argument_followed ihValue closed rest
    refine ⟨fs, .call f, y, x, ?_, ended, rfl⟩
    rw [List.append_assoc, ihCallee frames]
    simp [after, run]
  | @more ts xs c x _ _ ihCall ihValue =>
    intro frames rest
    obtain ⟨inner, call, y, last, runCall, endedCall, rfl⟩ :=
      ihCall frames (.symbol [','] :: xs ++ rest)
    have closed : Closed 0 (.call (.argument call last) :: frames) := trivial
    obtain ⟨fs, z, run, ended⟩ := argument_followed ihValue closed rest
    refine ⟨fs, .argument call last, z, x, ?_, ended, rfl⟩
    rw [List.append_assoc, runCall]
    simp [after, endedCall, run]
  | @close ts c _ ih =>
    intro frames rest
    obtain ⟨inner, call, y, last, run, ended, rfl⟩ := ih frames (.symbol [')'] :: rest)
    rw [List.append_assoc, List.singleton_append, run]
    simp [after, ended]
  | @unary op ts e inner ih =>
    intro frames _ rest
    obtain ⟨fs, x, run, ended⟩ := ih (.unary op :: frames) (Or.inl rfl) rest
    refine ⟨fs ++ [.unary op], x, ?_, ?_⟩
    · rw [List.cons_append, operand_unary, run]
      simp
    · intro level le
      simpa [collapse] using ended level le
  | @binary op ls rs a b left right ihLeft ihRight =>
    have levels : op.level ≤ 5 := by cases op <;> decide
    have notPrimary : ¬ 7 ≤ op.level := by omega
    have notPrimaryRight : ¬ 7 ≤ op.level + 1 := by omega
    simp only [Followed, notPrimary, notPrimaryRight, ↓reduceIte] at ihLeft ihRight ⊢
    exact binary_followed op ihLeft ihRight
  | looser _ ih => exact looser_followed ih

/-- The reader reads what the grammar derives. -/
theorem parse_of_reads {ts : List Token} {e : Expr} (reads : Reads (.level 0) ts e) :
    parse ts = some e := by
  obtain ⟨inner, x, run, ended⟩ := reads_followed reads [] (Or.inr trivial) []
  rw [List.append_nil] at run
  rw [parse, run, after, ended 0 (Nat.le_refl 0)]
  rfl

end BlockSketch.Code
