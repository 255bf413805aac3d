import BlockSketch.Proofs.Sketch.Lines
import Mathlib.Data.List.Forall2

/-
Indentation line by line. The lines of a text are what stands between its newlines. Those of an
indented text are the lines of the text itself, blank ones as they were and the others behind two
spaces, so taking these spaces away again gives the text back. A text that ends its last line can be
indented apart from what follows it.
-/
namespace BlockSketch.Layout

def linesBetween (text : String) : List (List Char) := text.toList.splitOn '\n'

inductive Shifted : List Char → List Char → Prop where
  | blank {line : List Char} (white : ∀ c ∈ line, Text.isBlankChar c = true) : Shifted line line
  | visible {line : List Char} (seen : ∃ c ∈ line, Text.isBlankChar c = false) :
      Shifted line (' ' :: ' ' :: line)

def unindentLine? (line : List Char) : Option (List Char) :=
  if line.all Text.isBlankChar then some line
  else match line with
    | ' ' :: ' ' :: rest => some rest
    | _ => none

/-- The text without the two spaces that each of its lines begins with, blank lines apart. There is
none if a line begins with anything else. -/
def unindent? (text : String) : Option String :=
  ((linesBetween text).mapM unindentLine?).map fun lines => String.ofList (['\n'].intercalate lines)

/-! One line -/

theorem shifted_indentLine (line : List Char) : Shifted line (indentLine line) := by
  unfold indentLine
  split
  · rename_i white
    exact .blank (List.all_eq_true.mp white)
  · rename_i seen
    rw [Bool.not_eq_true, List.all_eq_false] at seen
    simp only [Bool.not_eq_true] at seen
    exact .visible seen

theorem Shifted.unindented {line indented : List Char} (shifted : Shifted line indented) :
    unindentLine? indented = some line := by
  unfold unindentLine?
  cases shifted with
  | blank white => rw [if_pos (List.all_eq_true.mpr white)]
  | visible seen =>
    obtain ⟨c, member, visible⟩ := seen
    have notBlank : ¬ (' ' :: ' ' :: line).all Text.isBlankChar = true := by
      intro white
      have further := List.mem_cons_of_mem ' ' (List.mem_cons_of_mem ' ' member)
      rw [List.all_eq_true.mp white c further] at visible
      cases visible
    rw [if_neg notBlank]
    rfl

theorem newline_notMem_indentLine {p : List Char} (one : '\n' ∉ p) : '\n' ∉ indentLine p := by
  unfold indentLine
  split
  · exact one
  · simpa using one

theorem indentLine_newline (p : List Char) : indentLine (p ++ ['\n']) = indentLine p ++ ['\n'] := by
  have same : (p ++ ['\n']).all Text.isBlankChar = p.all Text.isBlankChar := by
    rw [List.all_append]
    exact Bool.and_true _
  unfold indentLine
  rw [same]
  split <;> rfl

/-! All lines -/

theorem splitOn_indentChars (cs : List Char) :
    (indentChars cs).splitOn '\n' = (cs.splitOn '\n').map indentLine := by
  induction cs using Text.line_induction with
  | nothing => rfl
  | unended p nonempty one =>
    rw [indentChars_unended nonempty one, List.splitOn_eq_singleton one,
      List.splitOn_eq_singleton (newline_notMem_indentLine one)]
    rfl
  | line p rest one ih =>
    rw [indentChars_line one, indentLine_newline, List.append_assoc, List.singleton_append,
      List.splitOn_append_cons_self_of_not_mem (newline_notMem_indentLine one),
      List.splitOn_append_cons_self_of_not_mem one, ih]
    rfl

theorem linesBetween_indent (text : String) :
    linesBetween (indent text) = (linesBetween text).map indentLine := by
  rw [linesBetween, toList_indent, splitOn_indentChars]
  rfl

theorem indentChars_append (cs rest : List Char) :
    indentChars (cs ++ '\n' :: rest) = indentChars (cs ++ ['\n']) ++ indentChars rest := by
  rw [indentChars, Text.linesOf_ended, List.flatMap_append]
  rfl

theorem indent_append {a : String} (whole : a = "" ∨ ∃ start, a = start ++ "\n") (b : String) :
    indent (a ++ b) = indent a ++ indent b := by
  apply String.toList_injective
  rw [String.toList_append, toList_indent, toList_indent, toList_indent, String.toList_append]
  rcases whole with rfl | ⟨start, rfl⟩
  · rfl
  · have newline : "\n".toList = ['\n'] := rfl
    rw [String.toList_append, newline, List.append_assoc, List.singleton_append, indentChars_append]

theorem mapM_unindentLine? (lines : List (List Char)) :
    (lines.map indentLine).mapM unindentLine? = some lines := by
  induction lines with
  | nil => rfl
  | cons line rest ih =>
    rw [List.map_cons, List.mapM_cons, (shifted_indentLine line).unindented, ih]
    rfl

theorem unindent?_indent (text : String) : unindent? (indent text) = some text := by
  rw [unindent?, linesBetween_indent, mapM_unindentLine?, Option.map_some, linesBetween,
    List.intercalate_splitOn, String.ofList_toList]

/-- A text of whole lines and the text after it are indented each for itself. An indented text has
as many lines as the text it was made of, and in each place the same blank line, or the same line
behind two spaces. Without these spaces it is the text again. -/
theorem indentation_works_line_by_line :
    (∀ a b : String, (a = "" ∨ ∃ start, a = start ++ "\n") →
      indent (a ++ b) = indent a ++ indent b) ∧
    ∀ text : String, (linesBetween (indent text)).length = (linesBetween text).length ∧
      List.Forall₂ Shifted (linesBetween text) (linesBetween (indent text)) ∧
      unindent? (indent text) = some text := by
  refine ⟨fun a b whole => indent_append whole b, ?_⟩
  intro text
  refine ⟨?_, ?_, unindent?_indent text⟩
  · rw [linesBetween_indent, List.length_map]
  · rw [linesBetween_indent, List.forall₂_map_right_iff, List.forall₂_same]
    exact fun line _ => shifted_indentLine line

/-- A blank line with an ideographic space, and an unended line that begins with a space of its
own. -/
theorem spaced_line_is_indented_apart :
    (∃ start, "a;\n\u3000\n" = start ++ "\n") ∧
      indent ("a;\n\u3000\n" ++ " b;") = indent "a;\n\u3000\n" ++ indent " b;" ∧
      indent "a;\n\u3000\n" = "  a;\n\u3000\n" ∧ indent " b;" = "   b;" := by
  have whole : ∃ start, "a;\n\u3000\n" = start ++ "\n" := ⟨"a;\n\u3000", rfl⟩
  refine ⟨whole, indentation_works_line_by_line.1 _ _ (.inr whole), ?_, ?_⟩
  · apply String.toList_injective
    rw [toList_indent]
    decide
  · apply String.toList_injective
    rw [toList_indent]
    decide

end BlockSketch.Layout
