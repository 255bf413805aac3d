import BlockSketch.Proofs.Code.Spelling
import BlockSketch.Proofs.Sketch.Lines

/-
The names in code without comments. A name is the longest run of word characters that does not begin
with a digit, stands in no string literal and is not selected from something by a point. The names
of two texts set side by side are those of the one and those of the other, if the texts do not run
into each other.
-/
namespace BlockSketch.Code

/-- Word characters of C, and all characters outside ASCII. -/
def inWord (c : Char) : Bool := continuesName c || 128 ≤ c.toNat

def goesOn (s c : Char) : Bool := inWord c || s.isDigit && c = '.'

/-- Where a reader of code is. The flags say that the next word, or the word begun, comes after a
point. -/
inductive Place where
  | outside (member : Bool)
  | word (s : Char) (more : List Char) (member : Bool)
  | quoted
  | escaped
  deriving DecidableEq

namespace Place

def start : Place := outside false

def enter (member : Bool) (c : Char) : Place :=
  if inWord c then word c [] member else if c = '"' then quoted else outside (c = '.')

def next : Place → Char → Place
  | outside member, c => enter member c
  | word s more member, c => if goesOn s c then word s (more ++ [c]) member else enter false c
  | quoted, c => if c = '"' then start else if c = '\\' then escaped else quoted
  | escaped, _ => quoted

def pending : Place → List (List Char)
  | word s more false => if s.isDigit then [] else [s :: more]
  | _ => []

def ended : Place → Char → List (List Char)
  | word s more member, c => if goesOn s c then [] else (word s more member).pending
  | _, _ => []

def passed : Place → List Char → List (List Char)
  | _, [] => []
  | p, c :: cs => p.ended c ++ (p.next c).passed cs

def after (p : Place) (cs : List Char) : Place := cs.foldl next p

def isClear : Place → Bool
  | outside member => !member
  | word _ _ _ => true
  | quoted => false
  | escaped => false

theorem passed_append (p : Place) (a b : List Char) :
    p.passed (a ++ b) = p.passed a ++ (p.after a).passed b := by
  induction a generalizing p with
  | nil => rfl
  | cons c a ih =>
    simp only [List.cons_append, passed, ih, List.append_assoc]
    rfl

theorem after_append (p : Place) (a b : List Char) : p.after (a ++ b) = (p.after a).after b :=
  List.foldl_append

end Place

def namesIn (cs : List Char) : List (List Char) :=
  Place.start.passed cs ++ (Place.start.after cs).pending

/-! Texts side by side -/

def endsWord (c : Char) : Bool := !inWord c && c ≠ '"' && c ≠ '.'

theorem enter_divider {c : Char} (divider : endsWord c = true) (member : Bool) :
    Place.enter member c = .start := by
  simp only [endsWord, Bool.and_eq_true, Bool.not_eq_true', decide_eq_true_eq] at divider
  simp [Place.enter, divider, Place.start]

theorem goesOn_divider {c : Char} (divider : endsWord c = true) (s : Char) :
    goesOn s c = false := by
  simp only [endsWord, Bool.and_eq_true, Bool.not_eq_true', decide_eq_true_eq] at divider
  simp [goesOn, divider]

theorem divided {p : Place} (clear : p.isClear = true) {c : Char} (divider : endsWord c = true)
    (cs : List Char) : p.passed (c :: cs) = p.pending ++ Place.start.passed (c :: cs) ∧
      p.after (c :: cs) = Place.start.after (c :: cs) := by
  have begun : Place.start.next c = .start := enter_divider divider false
  cases p with
  | outside member =>
    cases member with
    | true => cases clear
    | false => exact ⟨rfl, rfl⟩
  | word s more member =>
    have left : (Place.word s more member).next c = .start := by
      rw [Place.next, goesOn_divider divider, enter_divider divider]
      rfl
    have name : (Place.word s more member).ended c = (Place.word s more member).pending := by
      rw [Place.ended, goesOn_divider divider]
      rfl
    constructor
    · rw [Place.passed, left, name, Place.passed, begun]
      rfl
    · rw [Place.after, List.foldl_cons, left, Place.after, List.foldl_cons, begun]
  | quoted => cases clear
  | escaped => cases clear

inductive Apart (a b : List Char) : Prop where
  | left (ends : Place.start.after a = .start)
  | right {c : Char} {rest : List Char} (clear : (Place.start.after a).isClear = true)
      (begins : b = c :: rest) (divider : endsWord c = true)

theorem namesIn_append {a b : List Char} (apart : Apart a b) :
    namesIn (a ++ b) = namesIn a ++ namesIn b := by
  unfold namesIn
  rw [Place.passed_append, Place.after_append]
  cases apart with
  | left ends =>
    have none : Place.start.pending = [] := rfl
    simp [ends, none]
  | right clear begins divider =>
    rw [begins, (divided clear divider _).1, (divided clear divider _).2]
    simp

theorem after_apart {a b : List Char} (apart : Apart a b) :
    Place.start.after (a ++ b) = Place.start.after b := by
  rw [Place.after_append]
  cases apart with
  | left ends => rw [ends]
  | right clear begins divider => rw [begins, (divided clear divider _).2]

/-! Single words and literals -/

theorem word_goesOn (s : Char) (begun more : List Char) (member : Bool)
    (on : ∀ c ∈ more, goesOn s c = true) :
    (Place.word s begun member).after more = .word s (begun ++ more) member ∧
      (Place.word s begun member).passed more = [] := by
  induction more generalizing begun with
  | nil => simp [Place.after, Place.passed]
  | cons c more ih =>
    have step : (Place.word s begun member).next c = .word s (begun ++ [c]) member := by
      rw [Place.next, on c List.mem_cons_self, if_pos rfl]
    have none : (Place.word s begun member).ended c = [] := by
      rw [Place.ended, on c List.mem_cons_self, if_pos rfl]
    obtain ⟨later, rest⟩ := ih (begun ++ [c]) fun d member => on d (List.mem_cons_of_mem c member)
    constructor
    · rw [Place.after, List.foldl_cons, step, ← Place.after, later, List.append_assoc]
      rfl
    · rw [Place.passed, none, step, rest]
      rfl

theorem namesIn_word {s : Char} {more : List Char} (first : inWord s = true)
    (on : ∀ c ∈ more, goesOn s c = true) :
    namesIn (s :: more) = (if s.isDigit then [] else [s :: more]) ∧
      (Place.start.after (s :: more)).isClear = true := by
  have step : Place.start.next s = .word s [] false := by
    rw [Place.start, Place.next, Place.enter, if_pos first]
  obtain ⟨later, rest⟩ := word_goesOn s [] more false on
  have whole : Place.start.after (s :: more) = .word s more false := by
    rw [Place.after, List.foldl_cons, step, ← Place.after, later]
    rfl
  refine ⟨?_, by rw [whole]; rfl⟩
  rw [namesIn, whole, Place.passed, step, rest]
  rfl

theorem namesIn_name {text : List Char} (isName : IsName text) :
    namesIn text = [text] ∧ (Place.start.after text).isClear = true := by
  obtain ⟨s, more, rfl, first, rest⟩ := isName.starts
  have word : ∀ c, continuesName c = true → inWord c = true := fun c on => by simp [inWord, on]
  have begins : continuesName s = true := by
    simp only [startsName, Bool.or_eq_true] at first
    simp only [continuesName, Char.isAlphanum, Bool.or_eq_true]
    exact first.imp_left Or.inl
  have letter : s.isDigit = false := by
    cases digit : s.isDigit with
    | false => rfl
    | true =>
      rw [digit_starts_no_name digit] at first
      cases first
  obtain ⟨one, clear⟩ :=
    namesIn_word (word s begins) fun c member => by simp [goesOn, word c (rest c member)]
  exact ⟨by rw [one, letter]; rfl, clear⟩

theorem quoted_char (c : Char) :
    Place.quoted.after (Layout.quoteChar c) = .quoted ∧
      Place.quoted.passed (Layout.quoteChar c) = [] := by
  unfold Layout.quoteChar
  split
  · exact ⟨rfl, rfl⟩
  · exact ⟨rfl, rfl⟩
  · exact ⟨rfl, rfl⟩
  · exact ⟨rfl, rfl⟩
  · exact ⟨rfl, rfl⟩
  · rename_i notSlash notQuote _ _ _
    constructor
    · simp [Place.after, Place.next, show c ≠ '"' from notQuote, show c ≠ '\\' from notSlash]
    · rfl

theorem namesIn_quote (s : String) :
    namesIn (Layout.quote s).toList = [] ∧ Place.start.after (Layout.quote s).toList = .start := by
  have inside : ∀ cs : List Char, Place.quoted.after (cs.flatMap Layout.quoteChar) = .quoted ∧
      Place.quoted.passed (cs.flatMap Layout.quoteChar) = [] := by
    intro cs
    induction cs with
    | nil => exact ⟨rfl, rfl⟩
    | cons c cs ih =>
      rw [List.flatMap_cons, Place.after_append, Place.passed_append, (quoted_char c).1,
        (quoted_char c).2]
      exact ih
  have text : (Layout.quote s).toList = ['"'] ++ (s.toList.flatMap Layout.quoteChar ++ ['"']) := by
    simp [Layout.quote]
  have opened : Place.start.after ['"'] = .quoted := by decide
  have none : Place.start.passed ['"'] = [] := by decide
  have closed : Place.start.after (Layout.quote s).toList = .start := by
    rw [text, Place.after_append, opened, Place.after_append, (inside s.toList).1]
    rfl
  refine ⟨?_, closed⟩
  rw [namesIn, closed, text, Place.passed_append, none, opened, Place.passed_append,
    (inside s.toList).1, (inside s.toList).2]
  rfl

/-! Indentation -/

inductive Place.AtLine : Place → Prop where
  | start : AtLine .start
  | quoted : AtLine .quoted

theorem next_newline (p : Place) : (p.next '\n').AtLine := by
  have on : ∀ s, goesOn s '\n' = false := fun s => goesOn_divider (by decide) s
  cases p with
  | outside member =>
    rw [Place.next, enter_divider (by decide) member]
    exact Place.AtLine.start
  | word s more member =>
    rw [Place.next, on s]
    exact Place.AtLine.start
  | quoted => exact Place.AtLine.quoted
  | escaped => exact Place.AtLine.quoted

theorem spaces_skipped {p : Place} (line : p.AtLine) (cs : List Char) :
    p.passed (' ' :: ' ' :: cs) = p.passed cs ∧ p.after (' ' :: ' ' :: cs) = p.after cs := by
  have still : p.next ' ' = p := by
    cases line with
    | start => decide
    | quoted => rfl
  have none : p.ended ' ' = [] := by
    cases line with
    | start => rfl
    | quoted => rfl
  constructor
  · simp only [Place.passed, still, none, List.nil_append]
  · simp only [Place.after, List.foldl_cons, still]

theorem indent_skipped {p : Place} (line : p.AtLine) (cs : List Char) :
    p.passed (Layout.indentChars cs) = p.passed cs ∧
      p.after (Layout.indentChars cs) = p.after cs := by
  have oneLine : ∀ {p : Place}, p.AtLine →
      ∀ line : List Char, p.passed (Layout.indentLine line) = p.passed line ∧
      p.after (Layout.indentLine line) = p.after line := by
    intro p here line
    unfold Layout.indentLine
    split
    · exact ⟨rfl, rfl⟩
    · exact spaces_skipped here line
  induction cs using Text.line_induction generalizing p with
  | nothing => exact ⟨rfl, rfl⟩
  | unended text nonempty one =>
    rw [Layout.indentChars_unended nonempty one]
    exact oneLine line text
  | line text rest one ih =>
    have ends : (p.after (text ++ ['\n'])).AtLine := by
      rw [Place.after_append]
      exact next_newline _
    have whole : text ++ '\n' :: rest = (text ++ ['\n']) ++ rest := by simp
    obtain ⟨first, place⟩ := oneLine line (text ++ ['\n'])
    obtain ⟨later, final⟩ := ih ends
    rw [Layout.indentChars_line one, whole]
    constructor
    · rw [Place.passed_append, Place.passed_append, first, place, later]
    · rw [Place.after_append, Place.after_append, place, final]

theorem namesIn_indent (text : String) : namesIn (Layout.indent text).toList = namesIn text.toList ∧
    Place.start.after (Layout.indent text).toList = Place.start.after text.toList := by
  rw [Layout.toList_indent]
  obtain ⟨passed, after⟩ := indent_skipped Place.AtLine.start text.toList
  exact ⟨by rw [namesIn, namesIn, passed, after], after⟩

/-! Texts without a name -/

/-- The name does not stand in the text, and the text ends in the clear. -/
structure Lacks (name : List Char) (text : String) : Prop where
  absent : name ∉ namesIn text.toList
  clear : (Place.start.after text.toList).isClear = true

structure LacksOpen (name : List Char) (text : String) : Prop where
  absent : name ∉ namesIn text.toList
  ends : Place.start.after text.toList = .start

def isKnown (words : List String) (text : String) : Bool :=
  (namesIn text.toList).all (fun word => words.contains (String.ofList word)) &&
    (Place.start.after text.toList).isClear

def isFixed (words : List String) (text : String) : Bool :=
  isKnown words text && Place.start.after text.toList = .start

def isJoint (words : List String) (text : String) : Bool :=
  isFixed words text && match text.toList with
    | c :: _ => endsWord c
    | [] => false

section

variable {name : List Char} {words : List String} {a b : String}

theorem LacksOpen.lacks (first : LacksOpen name a) : Lacks name a :=
  ⟨first.absent, by rw [first.ends]; rfl⟩

theorem lacks_append (first : Lacks name a) (second : Lacks name b)
    (apart : Apart a.toList b.toList) : Lacks name (a ++ b) := by
  constructor
  · rw [String.toList_append, namesIn_append apart, List.mem_append]
    rintro (here | there)
    · exact first.absent here
    · exact second.absent there
  · rw [String.toList_append, after_apart apart]
    exact second.clear

theorem LacksOpen.append (first : LacksOpen name a) (second : Lacks name b) : Lacks name (a ++ b) :=
  lacks_append first.lacks second (Apart.left first.ends)

theorem lacksOpen_of_lacks (both : Lacks name (a ++ b)) (apart : Apart a.toList b.toList)
    (ends : Place.start.after b.toList = .start) : LacksOpen name (a ++ b) :=
  ⟨both.absent, by rw [String.toList_append, after_apart apart, ends]⟩

theorem LacksOpen.appendOpen (first : LacksOpen name a) (second : LacksOpen name b) :
    LacksOpen name (a ++ b) :=
  lacksOpen_of_lacks (first.append second.lacks) (Apart.left first.ends) second.ends

theorem lacks_of_isKnown (other : String.ofList name ∉ words) (known : isKnown words a = true) :
    Lacks name a := by
  obtain ⟨all, clear⟩ := Bool.and_eq_true_iff.mp known
  refine ⟨fun here => other ?_, clear⟩
  exact List.contains_iff_mem.mp (List.all_eq_true.mp all name here)

theorem lacksOpen_of_isFixed (other : String.ofList name ∉ words) (fixed : isFixed words a = true) :
    LacksOpen name a := by
  obtain ⟨known, ends⟩ := Bool.and_eq_true_iff.mp fixed
  exact ⟨(lacks_of_isKnown other known).absent, of_decide_eq_true ends⟩

theorem Lacks.join (first : Lacks name a) (other : String.ofList name ∉ words)
    (joint : isJoint words b = true) : LacksOpen name (a ++ b) := by
  obtain ⟨fixed, begins⟩ := Bool.and_eq_true_iff.mp joint
  have second := lacksOpen_of_isFixed other fixed
  have apart : Apart a.toList b.toList := by
    split at begins
    · rename_i text
      exact Apart.right first.clear text begins
    · cases begins
  exact lacksOpen_of_lacks (lacks_append first second.lacks apart) apart second.ends

theorem lacks_empty : Lacks name "" :=
  ⟨by simp [namesIn, Place.passed, Place.after, Place.start, Place.pending], rfl⟩

theorem lacks_word {s : Char} {more : List Char} (text : a.toList = s :: more)
    (first : inWord s = true) (on : ∀ c ∈ more, goesOn s c = true)
    (other : s.isDigit = true ∨ a.toList ≠ name) : Lacks name a := by
  obtain ⟨one, clear⟩ := namesIn_word first on
  refine ⟨?_, by rw [text]; exact clear⟩
  rw [text, one]
  rcases other with digit | different
  · simp [digit]
  · rw [text] at different
    split
    · simp
    · simpa using fun same => different same.symm

theorem lacks_name (isName : IsName a.toList) (other : a.toList ≠ name) : Lacks name a := by
  obtain ⟨one, clear⟩ := namesIn_name isName
  exact ⟨by rw [one]; simpa using fun same => other same.symm, clear⟩

theorem lacks_numeral (numeral : IsNumeral a.toList) : Lacks name a := by
  obtain ⟨s, more, text, first, rest⟩ := numeral.starts
  have word : ∀ c : Char, c.isDigit = true → inWord c = true := fun c digit => by
    simp [inWord, continuesName, Char.isAlphanum, digit]
  refine lacks_word text (word s first) (fun c member => ?_) (Or.inl first)
  rcases rest c member with digit | rfl
  · simp [goesOn, word c digit]
  · simp [goesOn, first]

theorem lacksOpen_quote (s : String) : LacksOpen name (Layout.quote s) := by
  obtain ⟨none, ends⟩ := namesIn_quote s
  exact ⟨by simp [none], ends⟩

theorem Lacks.indent (lacks : Lacks name a) : Lacks name (Layout.indent a) := by
  obtain ⟨same, ends⟩ := namesIn_indent a
  exact ⟨by rw [same]; exact lacks.absent, by rw [ends]; exact lacks.clear⟩

end

end BlockSketch.Code
