import BlockSketch.Text.Blank

/-
Layout of sketch text: indentation, blocks of lines, and string literals.
-/
namespace BlockSketch.Layout

/-- A line two spaces further in; a blank line stays as it is. -/
def indentLine (line : List Char) : List Char :=
  if line.all Text.isBlankChar then line else ' ' :: ' ' :: line

def indentChars (cs : List Char) : List Char := (Text.linesOf cs).flatMap indentLine

structure Indenting where
  done : String
  /-- What has come of the current line, as long as that is blank. -/
  blanks : String
  /-- Something that is not blank has come in the current line. -/
  inLine : Bool

namespace Indenting

def start : Indenting := ⟨"", "", false⟩

def step : Indenting → Char → Indenting
  | ⟨done, blanks, inLine⟩, c =>
    if inLine then ⟨done.push c, blanks, c ≠ '\n'⟩
    else if c = '\n' then ⟨(done ++ blanks).push c, "", false⟩
    else if Text.isBlankChar c then ⟨done, blanks.push c, false⟩
    else ⟨(done ++ "  " ++ blanks).push c, "", true⟩

def text (s : Indenting) : String := s.done ++ s.blanks

end Indenting

/-- Every line that is not blank, two spaces further in. Only one pass is made, for code is indented
once for every level that it is nested. -/
def indent (code : String) : String := (code.foldl Indenting.step .start).text

def endsLine (text : String) : Bool := text.toList.getLast? = some '\n'

/-- Text as whole lines: blank text is left out, and the last line gets its newline. -/
def asLines (text : String) : String :=
  if Text.isBlank text then ""
  else if endsLine text then text
  else text ++ "\n"

def quoteChar (c : Char) : List Char :=
  match c with
  | '\\' => ['\\', '\\']
  | '"' => ['\\', '"']
  | '\n' => ['\\', 'n']
  | '\r' => ['\\', 'r']
  | '\t' => ['\\', 't']
  | _ => [c]

def quote (s : String) : String := "\"" ++ String.ofList (s.toList.flatMap quoteChar) ++ "\""

def keepLine (cs : List Char) : List Char :=
  match Text.linesOf cs with
  | [] => []
  | line :: rest => line ++ rest.flatMap indentLine

theorem linesOf_newline (cs : List Char) : Text.linesOf ('\n' :: cs) = ['\n'] :: Text.linesOf cs :=
  rfl

theorem linesOf_cons {c : Char} (h : c ≠ '\n') (cs : List Char) :
    Text.linesOf (c :: cs) =
      match Text.linesOf cs with
      | [] => [[c]]
      | line :: rest => (c :: line) :: rest :=
  if_neg h

theorem linesOf_append {p : List Char} (nonempty : p ≠ []) (h : '\n' ∉ p) (cs : List Char) :
    Text.linesOf (p ++ cs) =
      match Text.linesOf cs with
      | [] => [p]
      | line :: rest => (p ++ line) :: rest := by
  induction p with
  | nil => exact absurd rfl nonempty
  | cons c p ih =>
    have hc : c ≠ '\n' := fun e => h (e ▸ List.mem_cons_self)
    rw [List.cons_append, linesOf_cons hc]
    cases p with
    | nil => rfl
    | cons d p =>
      rw [ih (List.cons_ne_nil _ _) (fun m => h (List.mem_cons_of_mem _ m))]
      cases Text.linesOf cs <;> rfl

theorem keepLine_newline (cs : List Char) : keepLine ('\n' :: cs) = '\n' :: indentChars cs := rfl

theorem keepLine_cons {c : Char} (h : c ≠ '\n') (cs : List Char) :
    keepLine (c :: cs) = c :: keepLine cs := by
  simp only [keepLine, linesOf_cons h]
  cases Text.linesOf cs <;> simp

theorem indentChars_blank_newline {p : List Char} (blank : p.all Text.isBlankChar = true)
    (h : '\n' ∉ p) (cs : List Char) :
    indentChars (p ++ '\n' :: cs) = p ++ '\n' :: indentChars cs := by
  have line : (p ++ ['\n']).all Text.isBlankChar = true := by
    rw [List.all_append, blank]
    decide
  cases p with
  | nil => rfl
  | cons c p =>
    rw [indentChars, linesOf_append (List.cons_ne_nil c p) h, linesOf_newline]
    simp only [List.flatMap_cons, indentLine, line, if_true, indentChars]
    simp

theorem indentChars_blank {p : List Char} (blank : p.all Text.isBlankChar = true) (h : '\n' ∉ p) :
    indentChars p = p := by
  cases p with
  | nil => rfl
  | cons c p =>
    have lines := linesOf_append (List.cons_ne_nil c p) h []
    rw [List.append_nil] at lines
    rw [indentChars, lines]
    simp [Text.linesOf, indentLine, blank]

/-- The first character that is not blank decides for its line. -/
theorem indentChars_visible {p : List Char} {c : Char} (h : '\n' ∉ p) (hc : c ≠ '\n')
    (visible : Text.isBlankChar c = false) (cs : List Char) :
    indentChars (p ++ c :: cs) = ' ' :: ' ' :: (p ++ c :: keepLine cs) := by
  have joined : p ++ c :: cs = (p ++ [c]) ++ cs := by simp
  have noNewline : '\n' ∉ p ++ [c] := by
    simp only [List.mem_append, List.mem_singleton, not_or]
    exact ⟨h, fun e => hc e.symm⟩
  rw [joined, indentChars, linesOf_append (by simp) noNewline, keepLine]
  cases Text.linesOf cs <;> simp [indentLine, visible]

theorem foldl_step_inLine (cs : List Char) (done : String) :
    (cs.foldl Indenting.step ⟨done, "", true⟩).text.toList = done.toList ++ keepLine cs ∧
      ∀ blanks : String, blanks.toList.all Text.isBlankChar = true → '\n' ∉ blanks.toList →
        (cs.foldl Indenting.step ⟨done, blanks, false⟩).text.toList =
          done.toList ++ indentChars (blanks.toList ++ cs) := by
  induction cs generalizing done with
  | nil =>
    refine ⟨by simp [Indenting.text, keepLine, Text.linesOf], fun blanks blank h => ?_⟩
    simp [Indenting.text, indentChars_blank blank h]
  | cons c cs ih =>
    refine ⟨?_, fun blanks blank h => ?_⟩
    · by_cases hc : c = '\n'
      · subst hc
        have rest := (ih (done.push '\n')).2 "" (by rfl) (by simp)
        simpa [Indenting.step, keepLine_newline] using rest
      · have rest := (ih (done.push c)).1
        simpa [Indenting.step, hc, keepLine_cons hc] using rest
    · by_cases hc : c = '\n'
      · subst hc
        have rest := (ih ((done ++ blanks).push '\n')).2 "" (by rfl) (by simp)
        simpa [Indenting.step, indentChars_blank_newline blank h] using rest
      · cases visible : Text.isBlankChar c with
        | true =>
          have rest := (ih done).2 (blanks.push c) (by simp [blank, visible]) (by
            simp only [String.toList_push, List.mem_append, List.mem_singleton, not_or]
            exact ⟨h, fun e => hc e.symm⟩)
          simpa [Indenting.step, hc, visible] using rest
        | false =>
          have rest := (ih ((done ++ "  " ++ blanks).push c)).1
          simpa [Indenting.step, hc, visible, indentChars_visible h hc visible] using rest

/-- Indentation works line by line. -/
theorem toList_indent (code : String) : (indent code).toList = indentChars code.toList := by
  have all := (foldl_step_inLine code.toList "").2 "" (by rfl) (by simp)
  simpa [indent, String.foldl_eq_foldl_toList, Indenting.start] using all

end BlockSketch.Layout
