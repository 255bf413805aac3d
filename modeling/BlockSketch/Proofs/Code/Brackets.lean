import BlockSketch.Proofs.Sketch.Lines

/-
Brackets and indentation of code. Text is put together from rows. A row stands two spaces in for
every brace around it; it may begin by closing a brace and end by opening one, and between them its
parentheses match. All that is said of a text as a whole follows from its rows.
-/
namespace BlockSketch.Code

/-- The open brackets after one more character, innermost first. Only the innermost one can be
closed. -/
def bracket : List Char → Char → Option (List Char)
  | stack, '(' => some ('(' :: stack)
  | stack, '\x7b' => some ('\x7b' :: stack)
  | '(' :: stack, ')' => some stack
  | '\x7b' :: stack, '\x7d' => some stack
  | _, ')' => none
  | _, '\x7d' => none
  | stack, _ => some stack

def brackets (stack text : List Char) : Option (List Char) := text.foldlM bracket stack

def nest (depth : Nat) (c : Char) : Nat :=
  if c = '\x7b' then depth + 1 else if c = '\x7d' then depth - 1 else depth

def outerGroups : Nat → List Char → List Char → List (List Char)
  | _, _, [] => []
  | depth, line, c :: text =>
    let rest := outerGroups (nest depth c) (if c = '\n' then [] else line ++ [c]) text
    if depth = 0 ∧ c = '\x7b' then (line ++ [c]) :: rest else rest

def margin (depth : Nat) : List Char := List.replicate (2 * depth) ' '

/-- The line has two spaces for every brace around it and then something visible. A brace that it
closes at its beginning is no longer around it. -/
def AtDepth (depth : Nat) (line : List Char) : Prop :=
  ∃ c rest, Text.isBlankChar c = false ∧
    line = margin (if c = '\x7d' then depth - 1 else depth) ++ c :: rest

inductive Indented : Nat → List (List Char) → Prop where
  | nil (depth : Nat) : Indented depth []
  | line {depth : Nat} {line : List Char} {rest : List (List Char)}
      (here : 0 < depth → AtDepth depth line) (more : Indented (line.foldl nest depth) rest) :
      Indented depth (line :: rest)

theorem brackets_append (stack front back : List Char) :
    brackets stack (front ++ back) = (brackets stack front).bind fun s => brackets s back :=
  List.foldlM_append

example : brackets [] "(\x7b)\x7d".toList = none := by rfl

/-! Text within a row -/

theorem bracket_other {c : Char} (stack : List Char) (other : c ∉ ['(', ')', '\x7b', '\x7d']) :
    bracket stack c = some stack := by
  simp only [List.mem_cons, List.not_mem_nil, or_false, not_or] at other
  unfold bracket
  split <;> simp_all

/-- Text of one line without braces that closes so many parentheses, and opens none that it does not
close. -/
structure Flat (parens : Nat) (text : List Char) : Prop where
  one : '\n' ∉ text
  unopened : '\x7b' ∉ text
  unclosed : '\x7d' ∉ text
  balanced : ∀ stack, brackets (List.replicate parens '(' ++ stack) text = some stack

theorem Flat.matched {text : List Char} (flat : Flat 0 text) (stack : List Char) :
    brackets stack text = some stack :=
  flat.balanced stack

theorem Flat.cons {c : Char} {text : List Char} {parens after : Nat} (flat : Flat after text)
    (other : c ∉ ['\n', '\x7b', '\x7d'])
    (step : ∀ stack,
      bracket (List.replicate parens '(' ++ stack) c = some (List.replicate after '(' ++ stack)) :
    Flat parens (c :: text) := by
  simp only [List.mem_cons, List.not_mem_nil, or_false, not_or] at other
  constructor
  · exact List.not_mem_cons_of_ne_of_not_mem (Ne.symm other.1) flat.one
  · exact List.not_mem_cons_of_ne_of_not_mem (Ne.symm other.2.1) flat.unopened
  · exact List.not_mem_cons_of_ne_of_not_mem (Ne.symm other.2.2) flat.unclosed
  · intro stack
    rw [brackets, List.foldlM_cons, step]
    exact flat.balanced stack

theorem foldl_nest {text : List Char} (unopened : '\x7b' ∉ text) (unclosed : '\x7d' ∉ text)
    (depth : Nat) : text.foldl nest depth = depth := by
  induction text with
  | nil => rfl
  | cons c text ih =>
    simp only [List.mem_cons, not_or] at unopened unclosed
    rw [List.foldl_cons, nest, if_neg (Ne.symm unopened.1), if_neg (Ne.symm unclosed.1)]
    exact ih unopened.2 unclosed.2

theorem outerGroups_flat {text : List Char} (one : '\n' ∉ text) (unopened : '\x7b' ∉ text)
    (unclosed : '\x7d' ∉ text) (depth : Nat) (line rest : List Char) :
    outerGroups depth line (text ++ rest) = outerGroups depth (line ++ text) rest := by
  induction text generalizing line with
  | nil => rw [List.nil_append, List.append_nil]
  | cons c text ih =>
    simp only [List.mem_cons, not_or] at one unopened unclosed
    have step : nest depth c = depth := by
      rw [nest, if_neg (Ne.symm unopened.1), if_neg (Ne.symm unclosed.1)]
    rw [List.cons_append, outerGroups, if_neg fun brace => unopened.1 brace.2.symm,
      if_neg (Ne.symm one.1), step, ih one.2 unopened.2 unclosed.2, List.append_assoc,
      List.singleton_append]

theorem not_mem_margin {c : Char} (visible : c ≠ ' ') (depth : Nat) : c ∉ margin depth :=
  fun member => visible (List.eq_of_mem_replicate member)

theorem flat_margin (depth : Nat) : Flat 0 (margin depth) := by
  constructor
  · exact not_mem_margin (by decide) depth
  · exact not_mem_margin (by decide) depth
  · exact not_mem_margin (by decide) depth
  · intro stack
    unfold margin
    induction 2 * depth with
    | zero => rfl
    | succ n ih => exact ih

/-! Rows -/

def row (depth : Nat) (closes : Bool) (text : List Char) (opens : Bool) : List Char :=
  margin depth ++ ((if closes then ['\x7d'] else []) ++ text ++ if opens then ['\x7b'] else [])

structure IsRow (closes : Bool) (text : List Char) : Prop where
  flat : Flat 0 text
  begins : closes = false → ∃ c rest, text = c :: rest ∧ Text.isBlankChar c = false

namespace IsRow

variable {closes opens : Bool} {text rest : List Char} {depth : Nat}

theorem one_line (isRow : IsRow closes text) : '\n' ∉ row depth closes text opens := by
  have margin := (flat_margin depth).one
  have flat := isRow.flat.one
  cases closes <;> cases opens <;> simp [row, margin, flat]

theorem shape (isRow : IsRow closes text) (opens : Bool) :
    ∃ c rest, Text.isBlankChar c = false ∧ (c = '\x7d' ↔ closes = true) ∧
      ∀ depth, row depth closes text opens = margin depth ++ c :: rest := by
  cases closes with
  | true => exact ⟨'\x7d', _, by decide, by simp, fun _ => rfl⟩
  | false =>
    obtain ⟨c, more, same, visible⟩ := isRow.begins rfl
    have noBrace : c ≠ '\x7d' := by
      intro brace
      rw [brace] at same
      exact isRow.flat.unclosed (same ▸ List.mem_cons_self)
    exact ⟨c, _, visible, by simp [noBrace], fun _ => by rw [row, same]; rfl⟩

theorem atDepth (isRow : IsRow closes text) :
    AtDepth (depth + closes.toNat) (row depth closes text opens ++ ['\n']) := by
  obtain ⟨c, more, visible, brace, same⟩ := isRow.shape opens
  refine ⟨c, more ++ ['\n'], visible, ?_⟩
  rw [same depth, List.append_assoc, List.cons_append]
  cases closes with
  | true => simp [brace]
  | false => simp [brace]

theorem indentLine_row (isRow : IsRow closes text) :
    Layout.indentLine (row depth closes text opens ++ ['\n']) =
      row (depth + 1) closes text opens ++ ['\n'] := by
  obtain ⟨c, more, visible, -, same⟩ := isRow.shape opens
  have further : margin (depth + 1) = ' ' :: ' ' :: margin depth := rfl
  have seen : (margin depth ++ c :: more ++ ['\n']).all Text.isBlankChar = false := by
    simp [visible]
  rw [Layout.indentLine, same depth, same (depth + 1), seen, further]
  rfl

theorem brackets_row (isRow : IsRow closes text) :
    brackets (List.replicate (depth + closes.toNat) '\x7b')
        (row depth closes text opens ++ '\n' :: rest) =
      brackets (List.replicate (depth + opens.toNat) '\x7b') rest := by
  have flat := isRow.flat.matched
  have spaces := (flat_margin depth).matched
  rw [brackets_append, row, brackets_append, spaces, Option.bind_some, brackets_append,
    brackets_append]
  cases closes <;> cases opens <;> simp [brackets] at flat ⊢ <;>
    simp [bracket, List.replicate_succ, flat]

theorem nest_row (isRow : IsRow closes text) :
    (row depth closes text opens ++ ['\n']).foldl nest (depth + closes.toNat) =
      depth + opens.toNat := by
  have flat := foldl_nest isRow.flat.unopened isRow.flat.unclosed
  have spaces := foldl_nest (flat_margin depth).unopened (flat_margin depth).unclosed
  rw [List.foldl_append, row, List.foldl_append, spaces, List.foldl_append, List.foldl_append]
  cases closes <;> cases opens <;> simp [nest, flat]

theorem outerGroups_row (isRow : IsRow closes text) (inside : 0 < depth) :
    outerGroups (depth + closes.toNat) [] (row depth closes text opens ++ '\n' :: rest) =
      outerGroups (depth + opens.toNat) [] rest := by
  have flat := outerGroups_flat isRow.flat.one isRow.flat.unopened isRow.flat.unclosed
  have blank := flat_margin depth
  have spaces := outerGroups_flat blank.one blank.unopened blank.unclosed
  have deep : depth ≠ 0 := by omega
  rw [row, List.append_assoc, spaces, List.append_assoc, List.append_assoc]
  cases closes <;> cases opens <;> simp [outerGroups, nest, flat, deep]

end IsRow

inductive Rows (floor : Nat) : Nat → List Char → Nat → Prop where
  | nil (depth : Nat) : Rows floor depth [] depth
  | row (closes opens : Bool) {depth last : Nat} {text rest : List Char} (above : floor ≤ depth)
      (isRow : IsRow closes text) (more : Rows floor (depth + opens.toNat) rest last) :
      Rows floor (depth + closes.toNat) (row depth closes text opens ++ '\n' :: rest) last

namespace Rows

variable {floor depth last : Nat} {text rest : List Char}

theorem append {middle : Nat} (first : Rows floor depth text middle)
    (second : Rows floor middle rest last) : Rows floor depth (text ++ rest) last := by
  induction first with
  | nil depth => exact second
  | row closes opens above isRow more ih =>
    rw [List.append_assoc, List.cons_append]
    exact .row closes opens above isRow (ih second)

theorem weaken (rows : Rows floor depth text last) {lower : Nat} (le : lower ≤ floor) :
    Rows lower depth text last := by
  induction rows with
  | nil depth => exact .nil depth
  | row closes opens above isRow more ih => exact .row closes opens (Nat.le_trans le above) isRow ih

theorem indent (rows : Rows floor depth text last) :
    Rows (floor + 1) (depth + 1) (Layout.indentChars text) (last + 1) := by
  induction rows with
  | nil depth => exact .nil (depth + 1)
  | @row closes opens depth last text rest above isRow more ih =>
    rw [Layout.indentChars_line isRow.one_line, isRow.indentLine_row, List.append_assoc,
      List.singleton_append, Nat.add_right_comm]
    rw [Nat.add_right_comm] at ih
    exact .row closes opens (Nat.succ_le_succ above) isRow ih

theorem ends (rows : Rows floor depth text last) : text = [] ∨ text.getLast? = some '\n' := by
  induction rows with
  | nil depth => exact Or.inl rfl
  | row closes opens above isRow more ih =>
    refine Or.inr ?_
    rcases ih with rfl | ended
    · simp
    · simp [List.getLast?_cons, ended]

theorem brackets (rows : Rows floor depth text last) (rest : List Char) :
    brackets (List.replicate depth '\x7b') (text ++ rest) =
      Code.brackets (List.replicate last '\x7b') rest := by
  induction rows with
  | nil depth => rfl
  | row closes opens above isRow more ih =>
    rw [List.append_assoc, List.cons_append, isRow.brackets_row, ih]

theorem indented (rows : Rows floor depth text last) {rest : List Char}
    (after : Indented last (Text.linesOf rest)) : Indented depth (Text.linesOf (text ++ rest)) := by
  induction rows with
  | nil depth => exact after
  | row closes opens above isRow more ih =>
    rw [List.append_assoc, List.cons_append, Text.linesOf_line isRow.one_line]
    refine .line (fun _ => isRow.atDepth) ?_
    rw [isRow.nest_row]
    exact ih after

theorem outerGroups (rows : Rows floor depth text last) (inside : 0 < floor) (rest : List Char) :
    outerGroups depth [] (text ++ rest) = Code.outerGroups last [] rest := by
  induction rows with
  | nil depth => rfl
  | row closes opens above isRow more ih =>
    -- The floor keeps rows from closing the braces around the text and opening others.
    rw [List.append_assoc, List.cons_append, isRow.outerGroups_row (by omega), ih]

end Rows

/-! Text outside of all braces -/

/-- Text that begins and ends outside of all braces, with the groups of braces that it opens
there. -/
structure Outer (text : List Char) (groups : List (List Char)) : Prop where
  balanced : ∀ rest, brackets [] (text ++ rest) = brackets [] rest
  opened : ∀ rest, outerGroups 0 [] (text ++ rest) = groups ++ outerGroups 0 [] rest
  indented : ∀ rest, Indented 0 (Text.linesOf rest) → Indented 0 (Text.linesOf (text ++ rest))

namespace Outer

variable {a b : List Char} {front back : List (List Char)}

theorem nil : Outer [] [] := ⟨fun _ => rfl, fun _ => rfl, fun _ after => after⟩

theorem append (first : Outer a front) (second : Outer b back) :
    Outer (a ++ b) (front ++ back) := by
  constructor
  · intro rest
    rw [List.append_assoc, first.balanced, second.balanced]
  · intro rest
    rw [List.append_assoc, first.opened, second.opened, List.append_assoc]
  · intro rest after
    rw [List.append_assoc]
    exact first.indented _ (second.indented _ after)

theorem blank : Outer ['\n'] [] := by
  exact ⟨fun _ => rfl, fun _ => rfl, fun rest after => .line nofun after⟩

theorem line {text : List Char} (isRow : IsRow false text) : Outer (text ++ ['\n']) [] := by
  have rows : Rows 0 0 (text ++ ['\n']) 0 := by
    have one := Rows.row false false (Nat.le_refl 0) isRow (.nil 0)
    simpa [row, margin] using one
  refine ⟨rows.brackets, fun rest => ?_, fun rest after => rows.indented after⟩
  have flat := isRow.flat
  rw [List.append_assoc, outerGroups_flat flat.one flat.unopened flat.unclosed]
  rfl

theorem function {head body : List Char} (isRow : IsRow false head) (inside : Rows 1 1 body 1) :
    Outer (head ++ '\x7b' :: '\n' :: (body ++ ['\x7d', '\n'])) [head ++ ['\x7b']] := by
  have closing : IsRow true [] := ⟨⟨by simp, by simp, by simp, fun _ => rfl⟩, nofun⟩
  have closed : Rows 0 1 ['\x7d', '\n'] 0 := .row true false (Nat.le_refl 0) closing (.nil 0)
  have rows : Rows 0 0 (head ++ '\x7b' :: '\n' :: (body ++ ['\x7d', '\n'])) 0 := by
    have all :=
      Rows.row false true (Nat.le_refl 0) isRow ((inside.weaken (Nat.zero_le 1)).append closed)
    simpa [row, margin] using all
  refine ⟨rows.brackets, fun rest => ?_, fun rest after => rows.indented after⟩
  have flat := isRow.flat
  have groups := inside.outerGroups (Nat.zero_lt_one) (['\x7d', '\n'] ++ rest)
  rw [List.append_assoc, outerGroups_flat flat.one flat.unopened flat.unclosed]
  simp only [List.nil_append, List.cons_append, List.append_assoc] at groups ⊢
  simp [Code.outerGroups, nest, groups]

theorem whole (outer : Outer a front) :
    brackets [] a = some [] ∧ outerGroups 0 [] a = front ∧ Indented 0 (Text.linesOf a) := by
  have balanced := outer.balanced []
  have opened := outer.opened []
  have indented := outer.indented [] (.nil 0)
  rw [List.append_nil] at balanced opened indented
  refine ⟨balanced, ?_, indented⟩
  rw [opened, Code.outerGroups, List.append_nil]

end Outer

/-! Scanning a row -/

inductive RowPlace where
  | start
  /-- So many parentheses are open; the flag says whether the row began by closing a brace. -/
  | within (closes : Bool) (parens : Nat)
  | opened (closes : Bool)
  | ended (closes opens : Bool)

def scanWithin (closes : Bool) (parens : Nat) (c : Char) : Option RowPlace :=
  if c = '(' then some (.within closes (parens + 1))
  else if c = ')' then
    match parens with
    | 0 => none
    | parens + 1 => some (.within closes parens)
  else if c = '\x7b' then if parens = 0 then some (.opened closes) else none
  else if c = '\x7d' then none
  else if c = '\n' then if parens = 0 then some (.ended closes false) else none
  else some (.within closes parens)

def scanRow : RowPlace → Char → Option RowPlace
  | .start, c =>
    if c = '\x7d' then some (.within true 0)
    else if Text.isBlankChar c || c = '\x7b' then none
    else scanWithin false 0 c
  | .within closes parens, c => scanWithin closes parens c
  | .opened closes, c => if c = '\n' then some (.ended closes true) else none
  | .ended _ _, _ => none

def Scans (place : RowPlace) (text : String) (after : RowPlace) : Prop :=
  text.toList.foldlM scanRow place = some after

theorem Scans.append {p q r : RowPlace} {a b : String} (first : Scans p a q)
    (second : Scans q b r) :
    Scans p (a ++ b) r := by
  rw [Scans, String.toList_append, List.foldlM_append, first]
  exact second

/-- A character within a row stands between its braces, opens the brace at its end, or ends the
line. -/
theorem scanWithin_cases {closes : Bool} {parens : Nat} {c : Char} {place : RowPlace}
    (scans : scanWithin closes parens c = some place) :
    (∃ after, place = .within closes after ∧ c ∉ ['\n', '\x7b', '\x7d'] ∧
      ∀ stack, bracket (List.replicate parens '(' ++ stack) c =
        some (List.replicate after '(' ++ stack)) ∨
    (parens = 0 ∧ c = '\x7b' ∧ place = .opened closes) ∨
    (parens = 0 ∧ c = '\n' ∧ place = .ended closes false) := by
  unfold scanWithin at scans
  split at scans
  · rename_i open'
    cases scans
    exact Or.inl ⟨parens + 1, rfl, by simp [open'], fun _ => by subst open'; rfl⟩
  split at scans
  · rename_i close
    cases parens with
    | zero => cases scans
    | succ parens =>
      cases scans
      exact Or.inl ⟨parens, rfl, by simp [close], fun _ => by subst close; rfl⟩
  split at scans
  · rename_i brace
    split at scans
    · rename_i matched
      exact Or.inr (Or.inl ⟨matched, brace, (Option.some.inj scans).symm⟩)
    · cases scans
  split at scans
  · cases scans
  split at scans
  · rename_i newline
    split at scans
    · rename_i matched
      exact Or.inr (Or.inr ⟨matched, newline, (Option.some.inj scans).symm⟩)
    · cases scans
  · cases scans
    exact Or.inl ⟨parens, rfl, by simp [*], fun _ => bracket_other _ (by simp [*])⟩

theorem eq_nil_of_ended {closes opens : Bool} {place : RowPlace} {text : List Char}
    (scans : text.foldlM scanRow (.ended closes opens) = some place) :
    text = [] ∧ place = .ended closes opens := by
  cases text with
  | nil => exact ⟨rfl, (Option.some.inj scans).symm⟩
  | cons c text => cases scans

theorem eq_newline_of_opened {closes back opens : Bool} {text : List Char}
    (scans : text.foldlM scanRow (.opened closes) = some (.ended back opens)) :
    text = ['\n'] ∧ back = closes ∧ opens = true := by
  cases text with
  | nil => cases scans
  | cons c text =>
    rw [List.foldlM_cons, scanRow] at scans
    split at scans
    · rename_i newline
      obtain ⟨rfl, same⟩ := eq_nil_of_ended scans
      cases same
      exact ⟨by rw [newline], rfl, rfl⟩
    · cases scans

theorem flat_of_scans {closes back opens : Bool} {parens : Nat} {text : List Char}
    (scans : text.foldlM scanRow (.within closes parens) = some (.ended back opens)) :
    back = closes ∧ ∃ flat, Flat parens flat ∧
      text = flat ++ (if opens then ['\x7b'] else []) ++ ['\n'] := by
  induction text generalizing parens with
  | nil => cases scans
  | cons c text ih =>
    have nothing : Flat 0 [] := ⟨by simp, by simp, by simp, fun _ => rfl⟩
    rw [List.foldlM_cons] at scans
    obtain ⟨place, first, more⟩ := Option.bind_eq_some_iff.mp scans
    rcases scanWithin_cases first with ⟨after, rfl, other, step⟩ | ⟨rfl, rfl, rfl⟩ | ⟨rfl, rfl, rfl⟩
    · obtain ⟨same, flat, isFlat, rfl⟩ := ih more
      exact ⟨same, c :: flat, isFlat.cons other step, rfl⟩
    · obtain ⟨rfl, rfl, rfl⟩ := eq_newline_of_opened more
      exact ⟨rfl, [], nothing, rfl⟩
    · obtain ⟨rfl, same⟩ := eq_nil_of_ended more
      cases same
      exact ⟨rfl, [], nothing, rfl⟩

theorem isRow_of_scans {text : String} {closes opens : Bool}
    (scans : Scans .start text (.ended closes opens)) :
    ∃ flat, IsRow closes flat ∧ ∀ depth, margin depth ++ text.toList =
      row depth closes flat opens ++ ['\n'] := by
  rw [Scans] at scans
  cases chars : text.toList with
  | nil =>
    rw [chars] at scans
    cases scans
  | cons c rest =>
    rw [chars, List.foldlM_cons, scanRow] at scans
    split at scans
    · rename_i brace
      obtain ⟨rfl, flat, isFlat, rfl⟩ := flat_of_scans scans
      exact ⟨flat, ⟨isFlat, nofun⟩, fun depth => by simp [row, brace]⟩
    · split at scans
      · cases scans
      · rename_i visible
        rw [Bool.or_eq_true, not_or, decide_eq_true_eq] at visible
        have first : (c :: rest).foldlM scanRow (.within false 0) = some (.ended closes opens) :=
          scans
        obtain ⟨rfl, flat, isFlat, same⟩ := flat_of_scans first
        refine ⟨flat, ⟨isFlat, fun _ => ?_⟩, fun depth => by simp [row, same]⟩
        cases flat with
        | nil =>
          have begun : c = '\x7b' ∨ c = '\n' := by
            cases opens with
            | true => exact Or.inl (List.cons.inj same).1
            | false => exact Or.inr (List.cons.inj same).1
          rcases begun with rfl | rfl
          · exact absurd rfl visible.2
          · exact absurd rfl visible.1
        | cons d flat =>
          rw [List.cons_append, List.cons_append] at same
          exact ⟨d, flat, rfl, by rw [← (List.cons.inj same).1]; simpa using visible.1⟩

theorem rows_of_scans {text : String} {closes opens : Bool} (depth : Nat)
    (scans : Scans .start text (.ended closes opens)) :
    Rows depth (depth + closes.toNat) (margin depth ++ text.toList) (depth + opens.toNat) := by
  obtain ⟨flat, isRow, same⟩ := isRow_of_scans scans
  rw [same]
  exact .row closes opens (Nat.le_refl depth) isRow (.nil _)

theorem outer_of_scans {text : String} (scans : Scans .start text (.ended false false)) :
    Outer text.toList [] := by
  obtain ⟨flat, isRow, same⟩ := isRow_of_scans scans
  have outside : text.toList = flat ++ ['\n'] := by simpa [margin, row] using same 0
  rw [outside]
  exact Outer.line isRow

end BlockSketch.Code
