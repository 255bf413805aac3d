import BlockSketch.Sketch.Layout

/-
Lines of a text. Texts that end their last line can be cut into lines one by one. The lines that
begin with a slash can only come from texts that have one at the beginning of a line, and no
indented text has that.
-/
namespace BlockSketch
namespace Text

/-- A text is nothing, or one line that does not end, or a line and the text after it. -/
theorem line_induction {motive : List Char → Prop} (nothing : motive [])
    (unended : ∀ p, p ≠ [] → '\n' ∉ p → motive p)
    (line : ∀ p rest, '\n' ∉ p → motive rest → motive (p ++ '\n' :: rest)) (cs : List Char) :
    motive cs := by
  induction size : cs.length using Nat.strongRecOn generalizing cs with
  | ind n ih =>
    by_cases ends : '\n' ∈ cs
    · obtain ⟨p, rest, rfl, first⟩ := List.eq_append_cons_of_mem ends
      refine line p rest first (ih rest.length ?_ rest rfl)
      rw [← size, List.length_append, List.length_cons]
      omega
    · cases cs with
      | nil => exact nothing
      | cons c cs => exact unended _ (List.cons_ne_nil c cs) ends

theorem linesOf_unended {p : List Char} (nonempty : p ≠ []) (one : '\n' ∉ p) : linesOf p = [p] := by
  have split := Layout.linesOf_append nonempty one []
  rw [List.append_nil] at split
  exact split

theorem linesOf_line {p : List Char} (one : '\n' ∉ p) (rest : List Char) :
    linesOf (p ++ '\n' :: rest) = (p ++ ['\n']) :: linesOf rest := by
  cases p with
  | nil => rfl
  | cons c p => rw [Layout.linesOf_append (List.cons_ne_nil c p) one, Layout.linesOf_newline]

/-- What follows an ended line does not change how the text before it is cut. -/
theorem linesOf_ended (cs rest : List Char) :
    linesOf (cs ++ '\n' :: rest) = linesOf (cs ++ ['\n']) ++ linesOf rest := by
  induction cs using line_induction with
  | nothing => rfl
  | unended p _ one =>
    rw [linesOf_line one rest, linesOf_line one []]
    rfl
  | line p cs one ih =>
    rw [List.append_assoc, List.append_assoc, List.cons_append, List.cons_append, linesOf_line one,
      linesOf_line one, ih, List.cons_append]

/-! Lines that begin with a slash -/

/-- No line of the text begins with a slash; the flag says whether the text is at the beginning of a
line. -/
def Unslashed : Bool → List Char → Prop
  | _, [] => True
  | start, c :: cs => (start = true → c ≠ '/') ∧ Unslashed (c = '\n') cs

instance decidableUnslashed : (start : Bool) → (cs : List Char) → Decidable (Unslashed start cs)
  | _, [] => isTrue trivial
  | start, c :: cs =>
    have := decidableUnslashed (c = '\n') cs
    inferInstanceAs (Decidable ((start = true → c ≠ '/') ∧ Unslashed (c = '\n') cs))

theorem Unslashed.weaken {cs : List Char} (free : Unslashed true cs) (start : Bool) :
    Unslashed start cs := by
  cases cs with
  | nil => trivial
  | cons c cs => exact ⟨fun _ => free.1 rfl, free.2⟩

theorem Unslashed.append {start : Bool} {a b : List Char} (first : Unslashed start a)
    (second : Unslashed true b) : Unslashed start (a ++ b) := by
  induction a generalizing start with
  | nil => exact second.weaken start
  | cons c a ih => exact ⟨first.1, ih first.2⟩

theorem unslashed_of_one {p : List Char} (one : '\n' ∉ p) : Unslashed false p := by
  induction p with
  | nil => trivial
  | cons c p ih =>
    have other : c ≠ '\n' := fun same => one (same ▸ List.mem_cons_self)
    refine ⟨nofun, ?_⟩
    rw [decide_eq_false other]
    exact ih fun later => one (List.mem_cons_of_mem c later)

theorem unslashed_line {p : List Char} (other : p.head? ≠ some '/') (one : '\n' ∉ p) :
    Unslashed true p := by
  cases p with
  | nil => trivial
  | cons c p =>
    have visible : c ≠ '\n' := fun same => one (same ▸ List.mem_cons_self)
    refine ⟨fun _ same => other (same ▸ rfl), ?_⟩
    rw [decide_eq_false visible]
    exact unslashed_of_one fun later => one (List.mem_cons_of_mem c later)

theorem unslashed_newline : Unslashed true ['\n'] := by decide

theorem head_of_unslashed {start : Bool} {cs : List Char} (free : Unslashed start cs) :
    (∀ line ∈ (linesOf cs).tail, line.head? ≠ some '/') ∧
      (start = true → ∀ line ∈ linesOf cs, line.head? ≠ some '/') := by
  induction cs generalizing start with
  | nil => exact ⟨by simp [linesOf], by simp [linesOf]⟩
  | cons c cs ih =>
    by_cases ends : c = '\n'
    · subst ends
      have later := (ih free.2).2 (by simp)
      rw [Layout.linesOf_newline]
      refine ⟨later, fun _ => ?_⟩
      intro line member
      rcases List.mem_cons.mp member with rfl | after
      · simp
      · exact later line after
    · have later := (ih free.2).1
      rw [Layout.linesOf_cons ends]
      cases lines : linesOf cs with
      | nil =>
        refine ⟨by simp, fun begins line member => ?_⟩
        rw [List.mem_singleton.mp member]
        simpa using free.1 begins
      | cons first rest =>
        rw [lines] at later
        refine ⟨later, fun begins line member => ?_⟩
        rcases List.mem_cons.mp member with rfl | after
        · simpa using free.1 begins
        · exact later line after

structure Plain (text : String) : Prop where
  unslashed : Unslashed true text.toList

instance (text : String) : Decidable (Plain text) :=
  decidable_of_iff (Unslashed true text.toList) ⟨Plain.mk, Plain.unslashed⟩

theorem plain_empty : Plain "" := ⟨trivial⟩

theorem plain_newline : Plain "\n" := ⟨unslashed_newline⟩

theorem Plain.append {a b : String} (first : Plain a) (second : Plain b) : Plain (a ++ b) := by
  constructor
  rw [String.toList_append]
  exact first.unslashed.append second.unslashed

theorem plain_join {texts : List String} (each : ∀ text ∈ texts, Plain text) :
    Plain (String.join texts) := by
  induction texts with
  | nil => exact plain_empty
  | cons text texts ih =>
    rw [String.join_cons]
    have rest := ih fun other member => each other (List.mem_cons_of_mem text member)
    exact (each text List.mem_cons_self).append rest

theorem plain_line {text : String} (other : text.toList.head? ≠ some '/')
    (one : '\n' ∉ text.toList) :
    Plain text :=
  ⟨unslashed_line other one⟩

end Text

namespace Layout

theorem indentChars_line {p : List Char} (one : '\n' ∉ p) (rest : List Char) :
    indentChars (p ++ '\n' :: rest) = indentLine (p ++ ['\n']) ++ indentChars rest := by
  rw [indentChars, Text.linesOf_line one, List.flatMap_cons]
  rfl

theorem indentChars_unended {p : List Char} (nonempty : p ≠ []) (one : '\n' ∉ p) :
    indentChars p = indentLine p := by
  rw [indentChars, Text.linesOf_unended nonempty one, List.flatMap_singleton]

theorem unslashed_indentLine {p tail : List Char} (one : '\n' ∉ p)
    (ending : tail = [] ∨ tail = ['\n']) : Text.Unslashed true (indentLine (p ++ tail)) := by
  have closed : Text.Unslashed true tail := by
    rcases ending with rfl | rfl
    · trivial
    · exact Text.unslashed_newline
  unfold indentLine
  split
  · rename_i blank
    refine (Text.unslashed_line ?_ one).append closed
    intro slash
    have member := List.mem_append_left tail (List.mem_of_head? slash)
    exact absurd (List.all_eq_true.mp blank '/' member) (by decide)
  · have spaced : '\n' ∉ ' ' :: ' ' :: p := by simpa using one
    exact (Text.unslashed_line (by simp) spaced).append closed

theorem unslashed_indentChars (cs : List Char) : Text.Unslashed true (indentChars cs) := by
  induction cs using Text.line_induction with
  | nothing => trivial
  | unended p nonempty one =>
    rw [indentChars_unended nonempty one, ← List.append_nil p]
    exact unslashed_indentLine one (Or.inl rfl)
  | line p rest one ih =>
    rw [indentChars_line one]
    exact (unslashed_indentLine one (Or.inr rfl)).append ih

/-- Indented code has no line that begins with a slash, also when its last line is ended. -/
theorem plain_asLines_indent (code : String) : Text.Plain (asLines (indent code)) := by
  have indented : Text.Plain (indent code) := by
    constructor
    rw [toList_indent]
    exact unslashed_indentChars code.toList
  rw [asLines]
  cases Text.isBlank (indent code) with
  | true =>
    rw [if_pos rfl]
    exact Text.plain_empty
  | false =>
    rw [if_neg Bool.false_ne_true]
    cases endsLine (indent code) with
    | true =>
      rw [if_pos rfl]
      exact indented
    | false =>
      rw [if_neg Bool.false_ne_true]
      exact indented.append Text.plain_newline

end Layout
end BlockSketch
