import BlockSketch.Json.Print
import BlockSketch.Json.Token
import BlockSketch.Text.Integer

/-
The compact text of a value tells the value, and also where the text ends. Strings are told because
every character can be read back from the way it is written, containers because a comma or a bracket
says whether more is to come. Only an integer does not show its own end: what follows it must not be
a digit. Floats are left out, for one that is not a number is written as `null`.
-/
namespace BlockSketch.Json

inductive Floatless : Json → Prop where
  | null : Floatless .null
  | bool (b : Bool) : Floatless (.bool b)
  | int (n : Int) : Floatless (.number (.int n))
  | string (s : String) : Floatless (.string s)
  | array {items : List Json} (each : ∀ v ∈ items, Floatless v) : Floatless (.array items)
  | object {members : List (String × Json)} (each : ∀ m ∈ members, Floatless m.2) :
      Floatless (.object members)

def Delimited (rest : List Char) : Prop := ∀ c, rest.head? = some c → c.isDigit = false

/-- Whatever follows them, the texts of `a` and `b` are the same only if `a` and `b` are. -/
def Told {α : Type} (text : α → String) (a b : α) : Prop :=
  ∀ s t, Delimited s → Delimited t → (text a).toList ++ s = (text b).toList ++ t → a = b ∧ s = t

/-! Strings -/

theorem hexValue_digitChar {n : Nat} (small : n < 16) :
    Token.hexValue? (Nat.digitChar n) = some n := by
  have all : ∀ n : Fin 16, Token.hexValue? (Nat.digitChar n) = some n.val := by decide
  exact all ⟨n, small⟩

theorem utf8Size_digitChar {n : Nat} (small : n < 16) : (Nat.digitChar n).utf8Size = 1 := by
  have all : ∀ n : Fin 16, (Nat.digitChar n).utf8Size = 1 := by decide
  exact all ⟨n, small⟩

theorem codeUnit_escaped {n : Nat} (control : n < 32) (rest : List Char) :
    Token.codeUnit ('0' :: '0' :: Nat.digitChar (n / 16) :: Nat.digitChar (n % 16) :: rest) =
      .ok (n, rest) := by
  have high := @hexValue_digitChar (n / 16) (by omega)
  have low := @hexValue_digitChar (n % 16) (by omega)
  have zero : Token.hexValue? '0' = some 0 := by decide
  have whole : 16 * (n / 16) + n % 16 = n := by omega
  have bytes : "0".utf8ByteSize = 1 := by decide
  have highByte := @utf8Size_digitChar (n / 16) (by omega)
  have lowByte := @utf8Size_digitChar (n % 16) (by omega)
  simp [Token.codeUnit, high, low, zero, whole, bytes, highByte, lowByte]

theorem stringChar_escapeChar (c : Char) (rest : List Char) :
    Token.stringChar (escapeChar c ++ rest) = .ok (some c, rest) := by
  unfold escapeChar
  split
  case h_8 quote backslash _ _ _ _ _ =>
    split
    · rename_i control
      have unit := codeUnit_escaped control rest
      have escape : Token.unicodeEscape
          ('0' :: '0' :: Nat.digitChar (c.toNat / 16) :: Nat.digitChar (c.toNat % 16) :: rest) =
            .ok (c, rest) := by
        have trailing : Token.isTrailing c.toNat = false := by simp [Token.isTrailing]; omega
        have leading : Token.isLeading c.toNat = false := by simp [Token.isLeading]; omega
        simp [Token.unicodeEscape, unit, bind, Except.bind, trailing, leading]
      simp [Token.stringChar, escape, bind, Except.bind]
    · rename_i visible
      change Token.stringChar (c :: rest) = _
      rw [Token.stringChar, if_neg visible]
      · exact quote
      · exact fun same => absurd same backslash
      · exact fun _ same => absurd same backslash
      · exact fun _ _ same => absurd same backslash
  all_goals rfl

theorem escaped_told {xs ys s t : List Char}
    (same : xs.flatMap escapeChar ++ '"' :: s = ys.flatMap escapeChar ++ '"' :: t) :
    xs = ys ∧ s = t := by
  induction xs generalizing ys with
  | nil =>
    cases ys with
    | nil => exact ⟨rfl, (List.cons.inj same).2⟩
    | cons d ys =>
      -- the closing quote is read as such, an escaped character never is
      have read := congrArg Token.stringChar same
      rw [List.flatMap_cons, List.append_assoc, stringChar_escapeChar] at read
      cases read
  | cons c xs ih =>
    have read := congrArg Token.stringChar same
    rw [List.flatMap_cons, List.append_assoc, stringChar_escapeChar] at read
    cases ys with
    | nil => cases read
    | cons d ys =>
      rw [List.flatMap_cons, List.append_assoc, stringChar_escapeChar] at read
      simp only [Except.ok.injEq, Prod.mk.injEq, Option.some.injEq] at read
      obtain ⟨rfl, rest⟩ := read
      obtain ⟨rfl, rfl⟩ := ih rest
      exact ⟨rfl, rfl⟩

theorem toList_quoted (s : String) :
    (quoted s).toList = '"' :: s.toList.flatMap escapeChar ++ ['"'] := by
  simp [quoted]

theorem quoted_told {a b : String} {s t : List Char}
    (same : (quoted a).toList ++ s = (quoted b).toList ++ t) : a = b ∧ s = t := by
  simp only [toList_quoted, List.cons_append, List.append_assoc, List.nil_append, List.cons.injEq,
    true_and] at same
  obtain ⟨chars, rest⟩ := escaped_told same
  exact ⟨String.toList_inj.mp chars, rest⟩

/-! Integers -/

theorem takeWhile_delimited {digits s : List Char} (all : ∀ c ∈ digits, c.isDigit = true)
    (ends : Delimited s) : (digits ++ s).takeWhile Char.isDigit = digits := by
  rw [List.takeWhile_append_of_pos all]
  cases s with
  | nil => simp
  | cons c s => simp [ends c rfl]

theorem digits_told {xs ys s t : List Char} (first : ∀ c ∈ xs, c.isDigit = true)
    (second : ∀ c ∈ ys, c.isDigit = true) (ends : Delimited s) (stops : Delimited t)
    (same : xs ++ s = ys ++ t) : xs = ys ∧ s = t := by
  have digits := congrArg (List.takeWhile Char.isDigit) same
  rw [takeWhile_delimited first ends, takeWhile_delimited second stops] at digits
  subst digits
  exact ⟨rfl, List.append_cancel_left same⟩

theorem repr_told {m n : Nat} {s t : List Char} (ends : Delimited s) (stops : Delimited t)
    (same : m.repr.toList ++ s = n.repr.toList ++ t) : m = n ∧ s = t := by
  obtain ⟨digits, rest⟩ :=
    digits_told (fun _ => Text.isDigit_of_mem_repr) (fun _ => Text.isDigit_of_mem_repr)
      ends stops same
  have number := Text.digits?_repr m
  rw [digits, Text.digits?_repr] at number
  exact ⟨(Option.some.inj number).symm, rest⟩

theorem minus_not_digit {m n : Nat} {s t : List Char}
    (same : '-' :: m.repr.toList ++ s = n.repr.toList ++ t) : False := by
  cases digits : n.repr.toList with
  | nil => exact Text.repr_ne_nil n digits
  | cons c cs =>
    rw [digits] at same
    have first : c.isDigit = true := @Text.isDigit_of_mem_repr n c (by simp [digits])
    rw [← (List.cons.inj same).1] at first
    exact absurd first (by decide)

theorem int_told {m n : Int} {s t : List Char} (ends : Delimited s) (stops : Delimited t)
    (same : (toString m).toList ++ s = (toString n).toList ++ t) : m = n ∧ s = t := by
  have positive : ∀ k : Nat, (toString (Int.ofNat k)).toList = k.repr.toList := fun k => rfl
  have negative : ∀ k : Nat, (toString (Int.negSucc k)).toList = '-' :: (k + 1).repr.toList := by
    intro k
    change ("-" ++ (k + 1).repr).toList = _
    simp
  cases m with
  | ofNat m =>
    rw [positive] at same
    cases n with
    | ofNat n =>
      rw [positive] at same
      obtain ⟨rfl, rest⟩ := repr_told ends stops same
      exact ⟨rfl, rest⟩
    | negSucc n =>
      rw [negative] at same
      exact (minus_not_digit same.symm).elim
  | negSucc m =>
    rw [negative] at same
    cases n with
    | ofNat n =>
      rw [positive] at same
      exact (minus_not_digit same).elim
    | negSucc n =>
      rw [negative] at same
      obtain ⟨number, rest⟩ := repr_told ends stops (List.cons.inj same).2
      obtain rfl := Nat.succ.inj number
      exact ⟨rfl, rest⟩

/-! Rows of values -/

def led {α : Type} (text : α → String) (xs : List α) : String :=
  String.join (xs.map fun x => "," ++ text x)

section Rows

variable {α : Type} {text : α → String}

theorem toList_led_cons (text : α → String) (x : α) (xs : List α) :
    (led text (x :: xs)).toList = ',' :: (text x).toList ++ (led text xs).toList := by
  simp [led]

theorem delimited_led (text : α → String) (xs : List α) {close : Char}
    (bracket : close.isDigit = false) (s : List Char) :
    Delimited ((led text xs).toList ++ close :: s) := by
  cases xs with
  | nil =>
    rintro c same
    cases same
    exact bracket
  | cons x xs =>
    rw [toList_led_cons]
    rintro c same
    cases same
    decide

/-- A row is known from its text, for the closing bracket is no comma. -/
theorem led_told {xs ys : List α} (told : ∀ x ∈ xs, ∀ y ∈ ys, Told text x y) {close : Char}
    (bracket : close.isDigit = false) (other : close ≠ ',') {s t : List Char}
    (same : (led text xs).toList ++ close :: s = (led text ys).toList ++ close :: t) :
    xs = ys ∧ s = t := by
  induction xs generalizing ys with
  | nil =>
    cases ys with
    | nil => exact ⟨rfl, (List.cons.inj same).2⟩
    | cons y ys =>
      rw [toList_led_cons] at same
      exact absurd (List.cons.inj same).1 other
  | cons x xs ih =>
    rw [toList_led_cons] at same
    cases ys with
    | nil => exact absurd (List.cons.inj same).1.symm other
    | cons y ys =>
      rw [toList_led_cons, List.cons_append, List.cons_append, List.append_assoc, List.append_assoc]
        at same
      have first := told x List.mem_cons_self y List.mem_cons_self
      obtain ⟨rfl, rest⟩ :=
        first _ _ (delimited_led text xs bracket s) (delimited_led text ys bracket t)
        (List.cons.inj same).2
      obtain ⟨rfl, rfl⟩ := ih (fun a here b there => told a (List.mem_cons_of_mem _ here) b
        (List.mem_cons_of_mem _ there)) rest
      exact ⟨rfl, rfl⟩

def row (text : α → String) : List α → String
  | [] => ""
  | x :: xs => text x ++ led text xs

theorem row_told {xs ys : List α} (told : ∀ x ∈ xs, ∀ y ∈ ys, Told text x y) {close : Char}
    (bracket : close.isDigit = false) (other : close ≠ ',')
    (first : ∀ x ∈ xs, ∀ s t, (text x).toList ++ s ≠ close :: t)
    (second : ∀ y ∈ ys, ∀ s t, (text y).toList ++ s ≠ close :: t) {s t : List Char}
    (same : (row text xs).toList ++ close :: s = (row text ys).toList ++ close :: t) :
    xs = ys ∧ s = t := by
  cases xs with
  | nil =>
    cases ys with
    | nil => exact ⟨rfl, (List.cons.inj same).2⟩
    | cons y ys =>
      rw [row, row, String.toList_append, List.append_assoc] at same
      exact absurd same.symm (second y List.mem_cons_self _ _)
  | cons x xs =>
    rw [row, String.toList_append, List.append_assoc] at same
    cases ys with
    | nil => exact absurd same (first x List.mem_cons_self _ _)
    | cons y ys =>
      rw [row, String.toList_append, List.append_assoc] at same
      -- with a comma before their first texts these are rows of the other form
      have whole : (led text (x :: xs)).toList ++ close :: s =
          (led text (y :: ys)).toList ++ close :: t := by
        simp [toList_led_cons, same]
      exact led_told told bracket other whole

end Rows

theorem compactItems_eq (items : List Json) : compactItems items = row compact items := by
  cases items with
  | nil => rfl
  | cons v rest =>
    induction rest generalizing v with
    | nil => simp [compactItems, row, led]
    | cons w rest ih => simp [compactItems, ih, row, led, String.append_assoc]

def memberText (m : String × Json) : String := quoted m.1 ++ ":" ++ compact m.2

theorem compactMembers_eq (members : List (String × Json)) :
    compactMembers members = row memberText members := by
  cases members with
  | nil => rfl
  | cons m rest =>
    induction rest generalizing m with
    | nil => simp [compactMembers, memberText, row, led]
    | cons n rest ih => simp [compactMembers, ih, memberText, row, led, String.append_assoc]

/-! Values -/

def typeAt? (c : Char) : Option String :=
  match c with
  | 'n' => some "null"
  | 't' | 'f' => some "a boolean"
  | '"' => some "a string"
  | '[' => some "an array"
  | '\x7b' => some "an object"
  | '-' => some "a number"
  | _ => if c.isDigit then some "a number" else none

theorem typeAt_digit {c : Char} (digit : c.isDigit = true) : typeAt? c = some "a number" := by
  unfold typeAt?
  split
  case h_8 => rw [if_pos digit]
  case h_7 => rfl
  all_goals exact absurd digit (by decide)

theorem typeAt_int (n : Int) :
    ∃ c rest, (toString n).toList = c :: rest ∧ typeAt? c = some "a number" := by
  cases n with
  | ofNat n =>
    change ∃ c rest, n.repr.toList = c :: rest ∧ _
    cases digits : n.repr.toList with
    | nil => exact absurd digits (Text.repr_ne_nil n)
    | cons c rest =>
      exact ⟨c, rest, rfl, typeAt_digit (@Text.isDigit_of_mem_repr n c (by simp [digits]))⟩
  | negSucc n =>
    change ∃ c rest, ("-" ++ (n + 1).repr).toList = c :: rest ∧ _
    exact ⟨'-', (n + 1).repr.toList, by simp, rfl⟩

theorem typeAt_compact {v : Json} (floatless : v.Floatless) :
    ∃ c rest, v.compact.toList = c :: rest ∧ typeAt? c = some v.typeName := by
  cases floatless with
  | null => exact ⟨'n', _, rfl, rfl⟩
  | bool b => cases b <;> exact ⟨_, _, rfl, rfl⟩
  | int n => exact typeAt_int n
  | string s => exact ⟨'"', _, toList_quoted s, rfl⟩
  | @array items each => exact ⟨'[', (compactItems items).toList ++ [']'], by simp [compact], rfl⟩
  | @object members each =>
    exact ⟨'\x7b', (compactMembers members).toList ++ ['\x7d'], by simp [compact], rfl⟩

theorem typeName_of_text {v w : Json} (first : v.Floatless) (second : w.Floatless) {s t : List Char}
    (same : v.compact.toList ++ s = w.compact.toList ++ t) : v.typeName = w.typeName := by
  obtain ⟨c, rest, begins, type⟩ := typeAt_compact first
  obtain ⟨d, more, starts, other⟩ := typeAt_compact second
  rw [begins, starts, List.cons_append, List.cons_append, List.cons.injEq] at same
  rw [← same.1, type] at other
  exact Option.some.inj other

theorem compact_not_closed {v : Json} (floatless : v.Floatless) (s t : List Char) :
    v.compact.toList ++ s ≠ ']' :: t := by
  intro same
  obtain ⟨c, rest, begins, type⟩ := typeAt_compact floatless
  rw [begins, List.cons_append, List.cons.injEq] at same
  rw [same.1] at type
  cases type

theorem memberText_not_closed (m : String × Json) (s t : List Char) :
    (memberText m).toList ++ s ≠ '\x7d' :: t := by
  simp [memberText, toList_quoted]

theorem memberText_told {m n : String × Json} (told : Told compact m.2 n.2) :
    Told memberText m n := by
  intro s t ends stops same
  simp only [memberText, String.toList_append, List.append_assoc] at same
  obtain ⟨name, rest⟩ := quoted_told same
  obtain ⟨value, rest⟩ := told s t ends stops (List.cons.inj rest).2
  exact ⟨Prod.ext name value, rest⟩

/-- A value without floats is known from its text, and so is where the text ends. -/
theorem compact_told {v w : Json} (first : v.Floatless) (second : w.Floatless) :
    Told compact v w := by
  induction first generalizing w with
  | null =>
    intro s t _ _ same
    have type := typeName_of_text .null second same
    cases second with
    | null => exact ⟨rfl, List.append_cancel_left same⟩
    | _ => simp [typeName] at type
  | bool b =>
    intro s t _ _ same
    have type := typeName_of_text (.bool b) second same
    cases second with
    | bool c =>
      cases b <;> cases c
      · exact ⟨rfl, List.append_cancel_left same⟩
      · cases (List.cons.inj same).1
      · cases (List.cons.inj same).1
      · exact ⟨rfl, List.append_cancel_left same⟩
    | _ => simp [typeName] at type
  | int m =>
    intro s t ends stops same
    have type := typeName_of_text (.int m) second same
    cases second with
    | int n =>
      obtain ⟨rfl, rest⟩ := int_told ends stops same
      exact ⟨rfl, rest⟩
    | _ => simp [typeName] at type
  | string a =>
    intro s t _ _ same
    have type := typeName_of_text (.string a) second same
    cases second with
    | string b =>
      obtain ⟨rfl, rest⟩ := quoted_told same
      exact ⟨rfl, rest⟩
    | _ => simp [typeName] at type
  | @array items each ih =>
    intro s t _ _ same
    have type := typeName_of_text (.array each) second same
    cases second with
    | @array others every =>
      simp only [compact, compactItems_eq, String.toList_append, List.append_assoc] at same
      obtain ⟨rfl, rest⟩ := row_told (fun v here w there => ih v here (every w there)) (by decide)
        (by decide) (fun v here => compact_not_closed (each v here))
        (fun w there => compact_not_closed (every w there)) (List.cons.inj same).2
      exact ⟨rfl, rest⟩
    | _ => simp [typeName] at type
  | @object members each ih =>
    intro s t _ _ same
    have type := typeName_of_text (.object each) second same
    cases second with
    | @object others every =>
      simp only [compact, compactMembers_eq, String.toList_append, List.append_assoc] at same
      obtain ⟨rfl, rest⟩ := row_told
        (fun m here n there => memberText_told (ih m here (every n there))) (by decide)
        (by decide) (fun m _ => memberText_not_closed m) (fun n _ => memberText_not_closed n)
          (List.cons.inj same).2
      exact ⟨rfl, rest⟩
    | _ => simp [typeName] at type

theorem compact_injective {v w : Json} (first : v.Floatless) (second : w.Floatless)
    (same : v.compact = w.compact) : v = w := by
  have none : Delimited [] := nofun
  exact (compact_told first second [] [] none none (by rw [same])).1

end BlockSketch.Json
