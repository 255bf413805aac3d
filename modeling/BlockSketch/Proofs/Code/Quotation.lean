import BlockSketch.Sketch.Layout

/-
String literals of the sketch language. A reader takes a literal off the front of a text: it stops
at the first quote that no backslash escapes, decodes the escapes and copies everything else. What
it reads off a quoted text is that text, whatever comes after the literal, so no text can end its
own literal early or run on into the code behind it.
-/
namespace BlockSketch.Code
open Layout

/-- What a character after a backslash stands for. An escape that is not known is copied as it
is. -/
def unescaped (c : Char) : List Char :=
  match c with
  | '\\' => ['\\']
  | '"' => ['"']
  | 'n' => ['\n']
  | 'r' => ['\r']
  | 't' => ['\t']
  | _ => ['\\', c]

/-- Reads on inside a literal, right after a backslash if the flag says so. Gives what the rest of
the literal stands for and what comes after it; a literal without an end is none. -/
def readQuoted : Bool → List Char → Option (List Char × List Char)
  | _, [] => none
  | true, c :: rest => (readQuoted false rest).map fun read => (unescaped c ++ read.1, read.2)
  | false, c :: rest =>
    if c = '"' then some ([], rest)
    else if c = '\\' then readQuoted true rest
    else (readQuoted false rest).map fun read => (c :: read.1, read.2)

def readLiteral (text : String) : Option (String × String) :=
  match text.toList with
  | '"' :: rest =>
    (readQuoted false rest).map fun read => (String.ofList read.1, String.ofList read.2)
  | _ => none

/-! One character -/

theorem quoteChar_cases (c : Char) :
    (quoteChar c = [c] ∧ c ≠ '\\' ∧ c ≠ '"' ∧ c ≠ '\n' ∧ c ≠ '\r' ∧ c ≠ '\t') ∨
      ∃ letter, quoteChar c = ['\\', letter] ∧ unescaped letter = [c] ∧
        letter ≠ '\n' ∧ letter ≠ '\r' ∧ letter ≠ '\t' := by
  unfold quoteChar
  split
  · exact .inr ⟨'\\', rfl, rfl, by decide⟩
  · exact .inr ⟨'"', rfl, rfl, by decide⟩
  · exact .inr ⟨'n', rfl, rfl, by decide⟩
  · exact .inr ⟨'r', rfl, rfl, by decide⟩
  · exact .inr ⟨'t', rfl, rfl, by decide⟩
  · rename_i backslash quote newline carriage tab
    exact .inl ⟨rfl, backslash, quote, newline, carriage, tab⟩

theorem readQuoted_quoteChar (c : Char) (rest : List Char) :
    readQuoted false (quoteChar c ++ rest) =
      (readQuoted false rest).map fun read => (c :: read.1, read.2) := by
  rcases quoteChar_cases c with ⟨same, backslash, quote, _⟩ | ⟨letter, escape, meaning, _⟩
  · rw [same, List.singleton_append, readQuoted, if_neg quote, if_neg backslash]
  · rw [escape, List.cons_append, readQuoted, if_neg (by decide), if_pos rfl]
    rw [List.singleton_append, readQuoted, meaning]
    rfl

theorem quoteChar_visible {c d : Char} (member : d ∈ quoteChar c) :
    d ≠ '\n' ∧ d ≠ '\r' ∧ d ≠ '\t' := by
  rcases quoteChar_cases c with ⟨same, _, _, visible⟩ | ⟨letter, escape, _, visible⟩
  · rw [same, List.mem_singleton] at member
    rw [member]
    exact visible
  · rw [escape, List.mem_cons, List.mem_singleton] at member
    rcases member with rfl | rfl
    · decide
    · exact visible

/-! Whole texts -/

theorem readQuoted_flatMap (s t : List Char) :
    readQuoted false (s.flatMap quoteChar ++ '"' :: t) = some (s, t) := by
  induction s with
  | nil => rfl
  | cons c s ih =>
    rw [List.flatMap_cons, List.append_assoc, readQuoted_quoteChar, ih]
    rfl

theorem toList_quote (s : String) :
    (quote s).toList = '"' :: (s.toList.flatMap quoteChar ++ ['"']) := by
  simp [quote]

/-- A quoted text is a literal in one line, without raw tabs and line breaks. Before any other text
it is read to its last character and no further, and as the text that was quoted. -/
theorem quoted_text_reads_back (s : String) :
    (∃ body : String, quote s = "\"" ++ body ++ "\"") ∧
      (∀ c ∈ (quote s).toList, c ≠ '\n' ∧ c ≠ '\r' ∧ c ≠ '\t') ∧
      ∀ t : String, readLiteral (quote s ++ t) = some (s, t) := by
  refine ⟨⟨_, rfl⟩, ?_, ?_⟩
  · intro c member
    rw [toList_quote, List.mem_cons, List.mem_append, List.mem_singleton] at member
    rcases member with rfl | inside | rfl
    · decide
    · obtain ⟨d, _, from_d⟩ := List.mem_flatMap.mp inside
      exact quoteChar_visible from_d
    · decide
  · intro t
    have text : (quote s ++ t).toList = '"' :: (s.toList.flatMap quoteChar ++ '"' :: t.toList) := by
      rw [String.toList_append, toList_quote]
      simp
    rw [readLiteral, text]
    simp only [readQuoted_flatMap, Option.map_some, String.ofList_toList]

example : readLiteral "\"a \\\"b\\\\\" + c" = some ("a \"b\\", " + c") := by decide +kernel

end BlockSketch.Code
