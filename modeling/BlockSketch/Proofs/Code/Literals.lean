import BlockSketch.Proofs.Code.Quotation
import BlockSketch.Proofs.Code.Spelling

/-
Reading expressions with string literals and members of objects in them. A literal is one token,
quotes included, and so is a name with those of its members after points. Both are read as names,
which no name of the language can be mistaken for. All other texts are read as before.
-/
namespace BlockSketch.Code

inductive ScanMode where
  | plain (begun : List Char)
  | quoted (begun : List Char)
  | escaped (begun : List Char)

def beginsName (begun : List Char) : Bool := begun.head?.any startsName

/-- Names with points between them. The flag says that a name has begun. -/
def checkPath : Bool → List Char → Bool
  | begun, [] => begun
  | false, c :: rest => startsName c && checkPath true rest
  | true, c :: rest =>
    if c = '.' then checkPath false rest else continuesName c && checkPath true rest

def joinsPath (begun : List Char) (c : Char) : Bool :=
  joins begun c || (beginsName begun && c = '.')

def pathToken (begun : List Char) : Option (List Token) :=
  if beginsName begun then
    if checkPath false begun then some [.name begun] else none
  else tokenOf begun

namespace ScanMode

def advance : ScanMode → Char → Option (List Token × ScanMode)
  | plain begun, c =>
    if c = ' ' then (pathToken begun).map fun ts => (ts, plain [])
    else if c = '"' then (pathToken begun).map fun ts => (ts, quoted [c])
    else if joinsPath begun c then some ([], plain (begun ++ [c]))
    else (pathToken begun).map fun ts => (ts, plain [c])
  | quoted begun, c =>
    if c = '\n' then none
    else if c = '"' then some ([.name (begun ++ [c])], plain [])
    else some ([], if c = '\\' then escaped (begun ++ [c]) else quoted (begun ++ [c]))
  | escaped begun, c => some ([], quoted (begun ++ [c]))

def finish : ScanMode → Option (List Token)
  | plain begun => pathToken begun
  | _ => none

end ScanMode

def scanFrom (mode : ScanMode) : List Char → Option (List Token)
  | [] => mode.finish
  | c :: rest => (mode.advance c).bind fun next => both (some next.1) (scanFrom next.2 rest)

def scan (text : List Char) : Option (List Token) := scanFrom (.plain []) text

def readExpression (text : String) : Option Expr := (scan text.toList).bind parse

/-! Texts side by side -/

theorem both_eq_some {a b : Option (List Token)} {ts : List Token} (found : both a b = some ts) :
    ∃ front back, a = some front ∧ b = some back ∧ ts = front ++ back := by
  cases a with
  | none => cases found
  | some front =>
    cases b with
    | none => cases found
    | some back => exact ⟨front, back, rfl, rfl, (Option.some.inj found).symm⟩

theorem ended_bind (ended : Option (List Token)) (mode : ScanMode) (rest : List Char) :
    ((ended.map fun ts => (ts, mode)).bind fun next => both (some next.1) (scanFrom next.2 rest)) =
      both ended (scanFrom mode rest) := by
  cases ended <;> rfl

theorem pathToken_nil : pathToken [] = some [] := rfl

theorem scanFrom_plain (begun : List Char) (c : Char) (rest : List Char) :
    scanFrom (.plain begun) (c :: rest) =
      if c = ' ' then both (pathToken begun) (scanFrom (.plain []) rest)
      else if c = '"' then both (pathToken begun) (scanFrom (.quoted [c]) rest)
      else if joinsPath begun c then scanFrom (.plain (begun ++ [c])) rest
      else both (pathToken begun) (scanFrom (.plain [c]) rest) := by
  rw [scanFrom, ScanMode.advance]
  split
  · rw [ended_bind]
  · split
    · rw [ended_bind]
    · split
      · rw [Option.bind_some, both_nil]
      · rw [ended_bind]

theorem scanFrom_literal (begun rest : List Char) :
    scanFrom (.plain begun) ('"' :: rest) =
      both (pathToken begun) (scanFrom (.quoted ['"']) rest) := by
  rw [scanFrom_plain, if_neg (by decide), if_pos rfl]

theorem scan_space (rest : List Char) : scan (' ' :: rest) = scan rest := by
  rw [scan, scanFrom_plain, if_pos rfl, pathToken_nil, both_nil, scan]

theorem scan_cons {c : Char} (visible : c ≠ ' ') (outside : c ≠ '"') (rest : List Char) :
    scan (c :: rest) = scanFrom (.plain [c]) rest := by
  rw [scan, scanFrom_plain, if_neg visible, if_neg outside]
  rfl

theorem scanFrom_apart {begun text : List Char}
    (apart : ∀ c rest, text = c :: rest → c = ' ' ∨ c = '"' ∨ joinsPath begun c = false) :
    scanFrom (.plain begun) text = both (pathToken begun) (scan text) := by
  cases text with
  | nil => exact (both_of_nil (pathToken begun)).symm
  | cons c rest =>
    by_cases space : c = ' '
    · subst space
      rw [scan_space, scanFrom_plain, if_pos rfl, scan]
    · by_cases quote : c = '"'
      · subst quote
        rw [scan, scanFrom_literal, scanFrom_literal, pathToken_nil, both_nil]
      · have joined := ((apart c rest rfl).resolve_left space).resolve_left quote
        rw [scan_cons space quote, scanFrom_plain, if_neg space, if_neg quote, joined]
        rfl

theorem joinsPath_divider {begun : List Char} {c : Char} (begins : begun ≠ [])
    (divider : divides c = true) (visible : c ≠ ' ') : joinsPath begun c = false := by
  have noPoint : c ≠ '.' := by
    rintro rfl
    exact absurd divider (by decide)
  simp [joinsPath, joins_divider begins divider visible, noPoint]

/-- What can be scanned is scanned the same before anything that ends its last token. -/
theorem scanFrom_divided {mode : ScanMode} {text : List Char} {ts : List Token} (rest : List Char)
    {c : Char} (divider : divides c = true) (scanned : scanFrom mode text = some ts) :
    scanFrom mode (text ++ c :: rest) = both (some ts) (scan (c :: rest)) := by
  induction text generalizing mode ts with
  | nil =>
    cases mode with
    | quoted begun => cases scanned
    | escaped begun => cases scanned
    | plain begun =>
      have last : pathToken begun = some ts := scanned
      rw [List.nil_append, ← last]
      by_cases begins : begun = []
      · subst begins
        exact (both_nil _).symm
      · refine scanFrom_apart fun d more same => ?_
        cases same
        by_cases space : c = ' '
        · exact Or.inl space
        · exact Or.inr (Or.inr (joinsPath_divider begins divider space))
  | cons d text ih =>
    rw [scanFrom] at scanned
    obtain ⟨next, advanced, found⟩ := Option.bind_eq_some_iff.mp scanned
    obtain ⟨front, back, first, scannedRest, rfl⟩ := both_eq_some found
    rw [List.cons_append, scanFrom, advanced, Option.bind_some, ih scannedRest, first,
      ← both_assoc, both_some]

theorem scan_divided {text : List Char} {ts : List Token} (rest : List Char) {c : Char}
    (divider : divides c = true) (scanned : scan text = some ts) :
    scan (text ++ c :: rest) = both (some ts) (scan (c :: rest)) :=
  scanFrom_divided rest divider scanned

theorem scan_bracket {c : Char} (bracket : c = '(' ∨ c = ')' ∨ c = ',') (rest : List Char) :
    scan (c :: rest) = both (some [.symbol [c]]) (scan rest) := by
  have alone : pathToken [c] = some [.symbol [c]] := by
    rcases bracket with rfl | rfl | rfl <;> decide
  have visible : c ≠ ' ' ∧ c ≠ '"' := by rcases bracket with rfl | rfl | rfl <;> decide
  rw [scan_cons visible.1 visible.2, scanFrom_apart, alone]
  intro d more _
  right
  right
  have noName : startsName c = false := by rcases bracket with rfl | rfl | rfl <;> decide
  have noDigit : c.isDigit = false := by rcases bracket with rfl | rfl | rfl <;> decide
  rcases bracket with
    rfl | rfl | rfl <;> simp [joinsPath, beginsName, joins, noName, noDigit, pairs]

/-! Texts without literals -/

def Undotted (begun : List Char) : Prop := beginsName begun = true → IsName begun

theorem checkPath_names {rest : List Char} (others : ∀ c ∈ rest, continuesName c = true) :
    checkPath true rest = true := by
  induction rest with
  | nil => rfl
  | cons c rest ih =>
    have first := others c List.mem_cons_self
    have noPoint : c ≠ '.' := by
      rintro rfl
      exact absurd first (by decide)
    rw [checkPath, if_neg noPoint, first, ih fun d member =>
      others d (List.mem_cons_of_mem c member)]
    rfl

theorem pathToken_undotted {begun : List Char} (undotted : Undotted begun) :
    pathToken begun = tokenOf begun := by
  unfold pathToken
  cases begins : beginsName begun with
  | false => rfl
  | true =>
    obtain ⟨s, rest, rfl, first, others⟩ := (undotted begins).starts
    simp [checkPath, checkPath_names others, tokenOf, first]

theorem undotted_joined {begun : List Char} {c : Char} (undotted : Undotted begun)
    (joined : joins begun c = true) : Undotted (begun ++ [c]) := by
  intro begins
  cases begun with
  | nil =>
    have first : startsName c = true := by simpa [beginsName] using begins
    exact ⟨c, [], rfl, first, by simp⟩
  | cons s rest =>
    have first : startsName s = true := by simpa [beginsName] using begins
    obtain ⟨s', rest', same, _, others⟩ := (undotted (by simpa [beginsName] using first)).starts
    cases same
    have last : continuesName c = true := by simpa [joins, first] using joined
    refine ⟨s, rest ++ [c], rfl, first, fun d member => ?_⟩
    rcases List.mem_append.mp member with inside | added
    · exact others d inside
    · rw [List.mem_singleton.mp added]
      exact last

/-- A character that is no token and joins none makes the text unreadable. -/
theorem lexFrom_stray {c : Char} (stray : c = '"' ∨ c = '.') (rest : List Char) :
    lexFrom [c] rest = none := by
  have alone : tokenOf [c] = none := by rcases stray with rfl | rfl <;> decide
  have single : ∀ d, joins [c] d = false := by
    intro d
    rcases stray with rfl | rfl <;> simp [joins, startsName, pairs]
  cases rest with
  | nil => exact alone
  | cons d rest =>
    rw [lexFrom, single, alone]
    split <;> rfl

theorem lexFrom_quote (begun rest : List Char) : lexFrom begun ('"' :: rest) = none := by
  have stray := lexFrom_stray (Or.inl rfl) rest
  cases begun with
  | nil => simpa [lexFrom, joins] using stray
  | cons s others =>
    have apart : joins (s :: others) '"' = false := by
      have noName : continuesName '"' = false := by decide
      simp [joins, noName, pairs]
    simp [lexFrom, apart, stray, both]

theorem lexFrom_point {begun : List Char} (begins : beginsName begun = true) (rest : List Char) :
    lexFrom begun ('.' :: rest) = none := by
  have stray := lexFrom_stray (Or.inr rfl) rest
  cases begun with
  | nil => cases begins
  | cons s others =>
    have first : startsName s = true := by simpa [beginsName] using begins
    have noName : continuesName '.' = false := by decide
    simp [lexFrom, joins, first, noName, stray, both]

theorem scanFrom_of_lexFrom {begun text : List Char} {ts : List Token} (undotted : Undotted begun)
    (lexed : lexFrom begun text = some ts) : scanFrom (.plain begun) text = some ts := by
  have blank : Undotted [] := fun begins => by cases begins
  have fresh : ∀ {c : Char}, Undotted [c] := undotted_joined blank rfl
  induction text generalizing begun ts with
  | nil =>
    rw [scanFrom, ScanMode.finish, pathToken_undotted undotted]
    exact lexed
  | cons c rest ih =>
    have quote : c ≠ '"' := by
      rintro rfl
      rw [lexFrom_quote] at lexed
      cases lexed
    have point : (beginsName begun && decide (c = '.')) = false := by
      cases begins : beginsName begun with
      | false => rfl
      | true =>
        rw [Bool.true_and, decide_eq_false_iff_not]
        rintro rfl
        rw [lexFrom_point begins] at lexed
        cases lexed
    rw [lexFrom] at lexed
    rw [scanFrom_plain, if_neg quote, joinsPath, point, Bool.or_false, pathToken_undotted undotted]
    by_cases space : c = ' '
    · rw [if_pos space] at lexed ⊢
      obtain ⟨front, back, first, lexedRest, rfl⟩ := both_eq_some lexed
      rw [first, ih blank lexedRest]
      rfl
    · rw [if_neg space] at lexed ⊢
      by_cases joined : joins begun c = true
      · rw [if_pos joined] at lexed ⊢
        exact ih (undotted_joined undotted joined) lexed
      · rw [if_neg joined] at lexed ⊢
        obtain ⟨front, back, first, lexedRest, rfl⟩ := both_eq_some lexed
        rw [first, ih fresh lexedRest]
        rfl

theorem scan_of_lex {text : List Char} {ts : List Token} (lexed : lex text = some ts) :
    scan text = some ts :=
  scanFrom_of_lexFrom (fun begins => by cases begins) lexed

theorem scan_operator (op : BinaryOp) (rest : List Char) :
    scan (op.symbol ++ ' ' :: rest) = both (some [.symbol op.symbol]) (scan rest) := by
  have alone : lex op.symbol = some [.symbol op.symbol] := by cases op <;> decide
  rw [scan_divided rest (by decide) (scan_of_lex alone), scan_space]

/-! Literals -/

theorem scanFrom_quoteChar (begun : List Char) (c : Char) (rest : List Char) :
    scanFrom (.quoted begun) (Layout.quoteChar c ++ rest) =
      scanFrom (.quoted (begun ++ Layout.quoteChar c)) rest := by
  unfold Layout.quoteChar
  split
  iterate 5 simp [scanFrom, ScanMode.advance]
  rename_i backslash quote newline _ _
  rw [List.singleton_append, scanFrom, ScanMode.advance, if_neg newline, if_neg quote,
    if_neg backslash]
  exact both_nil _

theorem scanFrom_quoted (begun cs : List Char) :
    scanFrom (.quoted begun) (cs.flatMap Layout.quoteChar ++ ['"']) =
      some [.name (begun ++ cs.flatMap Layout.quoteChar ++ ['"'])] := by
  induction cs generalizing begun with
  | nil => simp [scanFrom, ScanMode.advance, ScanMode.finish, pathToken_nil]
  | cons c cs ih =>
    rw [List.flatMap_cons, List.append_assoc, scanFrom_quoteChar, ih, List.append_assoc begun]

theorem scan_quote (s : String) :
    scan (Layout.quote s).toList = some [.name (Layout.quote s).toList] := by
  have begun : scan ('"' :: (s.toList.flatMap Layout.quoteChar ++ ['"'])) =
      scanFrom (.quoted ['"']) (s.toList.flatMap Layout.quoteChar ++ ['"']) := by
    rw [scan, scanFrom_literal, pathToken_nil, both_nil]
  rw [toList_quote, begun, scanFrom_quoted]
  rfl

/-! Texts of expressions -/

structure Parsed (text : List Char) (e : Expr) : Prop where
  tokens : ∃ ts, scan text = some ts ∧ Reads (.level 0) ts e

structure Written (n : Nat) (text : List Char) (e : Expr)
    (tail : List (BinaryOp × Expr)) : Prop where
  starts : ∃ c rest, text = c :: rest ∧ c ≠ '='
  tokens : ∃ ts, scan text = some ts ∧ Row n ts e tail

theorem readExpression_parsed {text : String} {e : Expr} (parsed : Parsed text.toList e) :
    readExpression text = some e := by
  obtain ⟨ts, scanned, reads⟩ := parsed.tokens
  rw [readExpression, scanned, Option.bind_some]
  exact parse_of_reads reads

namespace Written

variable {m n : Nat} {text value left right first second : List Char} {e a b : Expr}
  {tail front back : List (BinaryOp × Expr)}

theorem parsed (written : Written n text e tail) : Parsed text (grouped e tail) := by
  obtain ⟨ts, scanned, row⟩ := written.tokens
  exact ⟨ts, scanned, reads_of_le (Nat.zero_le n) (reads_of_row row)⟩

theorem of_spelled (spelled : Spelled n text e tail) : Written n text e tail := by
  obtain ⟨ts, lexed, row⟩ := spelled.tokens
  exact ⟨spelled.starts, ts, scan_of_lex lexed, row⟩

theorem tighter (written : Written m text e tail) (lt : n < m) :
    Written n text (grouped e tail) [] := by
  obtain ⟨ts, scanned, row⟩ := written.tokens
  exact ⟨written.starts, ts, scanned, Row.single (Nat.le_of_lt lt) (Or.inl lt) (reads_of_row row)⟩

theorem primary {ts : List Token} (le : n ≤ 7) (starts : ∃ c rest, text = c :: rest ∧ c ≠ '=')
    (scanned : scan text = some ts) (reads : Reads (.level 7) ts e) : Written n text e [] :=
  ⟨starts, ts, scanned, Row.single le (by omega) reads⟩

theorem group (parsed : Parsed text e) (le : n ≤ 7) : Written n ('(' :: (text ++ [')'])) e [] := by
  obtain ⟨ts, scanned, reads⟩ := parsed.tokens
  refine primary le ⟨'(', _, rfl, by decide⟩ ?_ (Reads.group reads)
  rw [scan_bracket (Or.inl rfl), scan_divided [] (by decide) scanned,
    scan_bracket (Or.inr (Or.inl rfl))]
  rfl

theorem binary {op : BinaryOp} (one : Written n left a front) (level : op.level = n)
    (two : Written n right b back) :
    Written n (left ++ ' ' :: (op.symbol ++ ' ' :: right)) a (front ++ (op, b) :: back) := by
  obtain ⟨ls, scannedLeft, rowLeft⟩ := one.tokens
  obtain ⟨rs, scannedRight, rowRight⟩ := two.tokens
  obtain ⟨c, rest, rfl, safe⟩ := one.starts
  refine ⟨⟨c, _, rfl, safe⟩, _, ?_, row_append rowLeft level rowRight⟩
  rw [scan_divided _ (by decide) scannedLeft, scan_space, scan_operator, scannedRight]
  rfl

theorem negation (written : Written 6 text e tail) :
    Written 6 ('!' :: text) (.unary .not (grouped e tail)) [] := by
  obtain ⟨ts, scanned, row⟩ := written.tokens
  obtain ⟨c, rest, rfl, safe⟩ := written.starts
  refine ⟨⟨'!', _, rfl, by decide⟩, _, ?_,
    Row.single (Nat.le_refl 6) (Or.inr (Nat.le_refl 6)) (Reads.unary .not (reads_of_row row))⟩
  rw [scan_cons (by decide) (by decide), scanFrom_apart, scanned]
  · rfl
  · intro d more same
    cases same
    right
    right
    simp [joinsPath, beginsName, joins, startsName, pairs, safe]

theorem quote (s : String) (le : n ≤ 7) :
    Written n (Layout.quote s).toList (.name (Layout.quote s).toList) [] :=
  primary le ⟨'"', _, toList_quote s, by decide⟩ (scan_quote s) (Reads.name _)

section Calls

variable {callee : List Char} (isName : IsName callee) (le : n ≤ 7)
include isName le

theorem callee_starts (rest : List Char) : ∃ c more, callee ++ rest = c :: more ∧ c ≠ '=' := by
  obtain ⟨c, more, same, safe⟩ := (spelled_name isName le).starts
  exact ⟨c, more ++ rest, by rw [same, List.cons_append], safe⟩

theorem call_one (argument : Parsed value e) :
    Written n (callee ++ '(' :: (value ++ [')'])) (.argument (.call (.name callee)) e) [] := by
  obtain ⟨ts, scanned, reads⟩ := argument.tokens
  refine primary le (callee_starts isName le _) ?_
    (Reads.close (Reads.first (Reads.name callee) reads))
  rw [scan_divided _ (by decide) (scan_of_lex (lex_name isName)), scan_bracket (Or.inl rfl),
    scan_divided [] (by decide) scanned, scan_bracket (Or.inr (Or.inl rfl))]
  simp [scan, scanFrom, ScanMode.finish, pathToken_nil]

theorem call_two (one : Parsed first a) (two : Parsed second b) :
    Written n (callee ++ '(' :: (first ++ ',' :: ' ' :: (second ++ [')'])))
      (.argument (.argument (.call (.name callee)) a) b) [] := by
  obtain ⟨ls, scannedFirst, readsFirst⟩ := one.tokens
  obtain ⟨rs, scannedSecond, readsSecond⟩ := two.tokens
  have call := Reads.first (Reads.name callee) readsFirst
  refine primary le (callee_starts isName le _) ?_ (Reads.close (Reads.more call readsSecond))
  rw [scan_divided _ (by decide) (scan_of_lex (lex_name isName)), scan_bracket (Or.inl rfl),
    scan_divided _ (by decide) scannedFirst, scan_bracket (Or.inr (Or.inr rfl)), scan_space,
    scan_divided [] (by decide) scannedSecond, scan_bracket (Or.inr (Or.inl rfl))]
  simp [scan, scanFrom, ScanMode.finish, pathToken_nil]

end Calls
end Written
end BlockSketch.Code
