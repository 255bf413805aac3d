import BlockSketch.Proofs.Code.Reader

/-
Sketch text cut into comments and tokens. First every backslash at the end of a line is taken out
together with the line end. What is left is cut from the front: words, literals, single marks,
comments up to the end of their line, and comments up to the first star with a slash behind it.
-/
namespace BlockSketch.Code

def spliced : List Char → List Char
  | [] => []
  | '\\' :: '\n' :: rest => spliced rest
  | c :: rest => c :: spliced rest

inductive Lexeme where
  | comment (text : List Char)
  | word (text : List Char)
  | literal (text : List Char)
  /-- Any other character; operators come as rows of marks. -/
  | mark (c : Char)
  deriving DecidableEq, Repr

inductive Lexing where
  | nothing
  | slash
  | word (begun : List Char)
  | literal (quote : Char) (begun : List Char)
  | escape (quote : Char) (begun : List Char)
  | lineComment (begun : List Char)
  | blockComment (begun : List Char)

namespace Lexing

def extendsWord (begun : List Char) (c : Char) : Bool :=
  continuesName c || (c = '.' && begun.head?.any Char.isDigit)

def start (c : Char) : List Lexeme × Lexing :=
  if c = '/' then ([], slash)
  else if c = '"' || c = '\'' then ([], literal c [c])
  else if continuesName c then ([], word [c])
  else if c.isWhitespace then ([], nothing)
  else ([.mark c], nothing)

def after (l : Lexeme) (c : Char) : List Lexeme × Lexing := (l :: (start c).1, (start c).2)

/-- What one more character brings: the lexemes that are then complete, and what has begun. A
literal has to end in its line. -/
def advance : Lexing → Char → Option (List Lexeme × Lexing)
  | nothing, c => some (start c)
  | slash, c =>
    if c = '/' then some ([], lineComment [])
    else if c = '*' then some ([], blockComment [])
    else some (after (.mark '/') c)
  | word begun, c =>
    if extendsWord begun c then some ([], word (begun ++ [c])) else some (after (.word begun) c)
  | literal quote begun, c =>
    if c = '\n' then none
    else if c = quote then some ([.literal (begun ++ [c])], nothing)
    else if c = '\\' then some ([], escape quote (begun ++ [c]))
    else some ([], literal quote (begun ++ [c]))
  | escape quote begun, c => if c = '\n' then none else some ([], literal quote (begun ++ [c]))
  | lineComment begun, c =>
    if c = '\n' then some ([.comment begun], nothing) else some ([], lineComment (begun ++ [c]))
  | blockComment begun, c =>
    if c = '/' && begun.getLast? = some '*' then some ([.comment begun.dropLast], nothing)
    else some ([], blockComment (begun ++ [c]))

def finish : Lexing → Option (List Lexeme)
  | nothing => some []
  | slash => some [.mark '/']
  | word begun => some [.word begun]
  | lineComment begun => some [.comment begun]
  | _ => none

def run (s : Lexing) : List Char → Option (List Lexeme)
  | [] => s.finish
  | c :: rest => (s.advance c).bind fun next => (next.2.run rest).map (next.1 ++ ·)

end Lexing

def lexemes (text : String) : Option (List Lexeme) := Lexing.nothing.run (spliced text.toList)

/-! Joined lines -/

theorem spliced_cons {c : Char} {rest : List Char} (apart : c = '\\' → rest.head? ≠ some '\n') :
    spliced (c :: rest) = c :: spliced rest := by
  rw [spliced]
  rintro tail rfl rfl
  exact apart rfl rfl

/-- Texts side by side are joined apart, unless a backslash meets a line end between them. -/
theorem spliced_append {a b : List Char} (apart : a.getLast? = some '\\' → b.head? ≠ some '\n') :
    spliced (a ++ b) = spliced a ++ spliced b := by
  fun_induction spliced a with
  | case1 => rfl
  | case2 rest ih =>
    rw [List.cons_append, List.cons_append, spliced]
    apply ih
    intro last
    apply apart
    rw [List.getLast?_cons_cons, List.getLast?_cons, last]
    rfl
  | case3 c rest notJoined ih =>
    have inner : spliced (rest ++ b) = spliced rest ++ spliced b := by
      apply ih
      intro last
      apply apart
      rw [List.getLast?_cons, last]
      rfl
    rw [List.cons_append, spliced_cons, inner, List.cons_append]
    intro backslash newline
    cases rest with
    | nil => exact apart (by rw [backslash]; rfl) newline
    | cons d rest =>
      have first : d = '\n' := Option.some.inj newline
      exact notJoined rest backslash (by rw [first])

theorem spliced_of_no_newline {text : List Char} (plain : '\n' ∉ text) : spliced text = text := by
  induction text with
  | nil => rfl
  | cons c rest ih =>
    have later : '\n' ∉ rest := fun member => plain (List.mem_cons_of_mem c member)
    rw [spliced_cons, ih later]
    intro _ newline
    exact later (List.mem_of_head? newline)

namespace Lexing

theorem run_begun {s next : Lexing} {c : Char} (advanced : s.advance c = some ([], next))
    (rest : List Char) : s.run (c :: rest) = next.run rest := by
  rw [run, advanced, Option.bind_some]
  cases next.run rest with
  | none => rfl
  | some ls => rfl

theorem run_complete {s next : Lexing} {c : Char} {l : Lexeme}
    (advanced : s.advance c = some ([l], next)) (rest : List Char) :
    s.run (c :: rest) = (next.run rest).map (l :: ·) := by
  rw [run, advanced, Option.bind_some]
  rfl

theorem run_cons {s : Lexing} {c : Char} {rest : List Char} {ls : List Lexeme}
    (found : s.run (c :: rest) = some ls) :
    ∃ front next back, s.advance c = some (front, next) ∧ next.run rest = some back ∧
      ls = front ++ back := by
  rw [run] at found
  obtain ⟨⟨front, next⟩, advanced, later⟩ := Option.bind_eq_some_iff.mp found
  obtain ⟨back, given, rfl⟩ := Option.map_eq_some_iff.mp later
  exact ⟨front, next, back, advanced, given, rfl⟩

/-! Comments up to the end of the line -/

theorem advance_lineComment {c : Char} (inside : c ≠ '\n') (begun : List Char) :
    (lineComment begun).advance c = some ([], lineComment (begun ++ [c])) := by
  rw [advance, if_neg inside]

theorem run_lineComment {body : List Char} (oneLine : '\n' ∉ body) (begun rest : List Char) :
    (lineComment begun).run (body ++ '\n' :: rest) =
      (nothing.run rest).map (.comment (begun ++ body) :: ·) := by
  induction body generalizing begun with
  | nil =>
    rw [List.append_nil]
    exact run_complete rfl rest
  | cons c body ih =>
    obtain ⟨first, later⟩ := not_or.mp (mt List.mem_cons.mpr oneLine)
    rw [List.cons_append, run_begun (advance_lineComment (Ne.symm first) begun), ih later,
      List.append_assoc]
    rfl

theorem run_lineComment_end {body : List Char} (oneLine : '\n' ∉ body) (begun : List Char) :
    (lineComment begun).run body = some [.comment (begun ++ body)] := by
  induction body generalizing begun with
  | nil =>
    rw [List.append_nil]
    rfl
  | cons c body ih =>
    obtain ⟨first, later⟩ := not_or.mp (mt List.mem_cons.mpr oneLine)
    rw [run_begun (advance_lineComment (Ne.symm first) begun), ih later, List.append_assoc]
    rfl

/-! Comments between stars -/

theorem advance_blockComment {c : Char} {begun rest : List Char}
    (unended : ¬ ['*', '/'] <:+: begun ++ c :: rest) :
    (blockComment begun).advance c = some ([], blockComment (begun ++ [c])) := by
  rw [advance, if_neg]
  intro ended
  obtain ⟨slash, star⟩ := Bool.and_eq_true_iff.mp ended
  obtain ⟨front, rfl⟩ := List.getLast?_eq_some_iff.mp (of_decide_eq_true star)
  apply unended
  refine ⟨front, rest, ?_⟩
  rw [of_decide_eq_true slash]
  simp

theorem run_blockComment {begun body : List Char} (unended : ¬ ['*', '/'] <:+: begun ++ body)
    (rest : List Char) :
    (blockComment begun).run (body ++ '*' :: '/' :: rest) =
      (nothing.run rest).map (.comment (begun ++ body) :: ·) := by
  induction body generalizing begun with
  | nil =>
    have star : (blockComment begun).advance '*' = some ([], blockComment (begun ++ ['*'])) := rfl
    have slash : (blockComment (begun ++ ['*'])).advance '/' =
        some ([.comment begun], nothing) := by
      rw [advance, if_pos, List.dropLast_concat]
      simp
    rw [List.nil_append, run_begun star, run_complete slash, List.append_nil]
  | cons c body ih =>
    have later : ¬ ['*', '/'] <:+: (begun ++ [c]) ++ body := by
      rw [List.append_assoc]
      exact unended
    rw [List.cons_append, run_begun (advance_blockComment unended), ih later, List.append_assoc]
    rfl

theorem exists_first_end {text : List Char} (ended : ['*', '/'] <:+: text) :
    ∃ front back, text = front ++ '*' :: '/' :: back ∧ ¬ ['*', '/'] <:+: front := by
  induction text with
  | nil =>
    have short := ended.length_le
    simp at short
  | cons c text ih =>
    by_cases here : ['*', '/'] <+: c :: text
    · obtain ⟨back, whole⟩ := here
      refine ⟨[], back, whole.symm, ?_⟩
      intro inside
      have short := inside.length_le
      simp at short
    · obtain ⟨front, back, rfl, first⟩ := ih ((List.infix_cons_iff.mp ended).resolve_left here)
      refine ⟨c :: front, back, rfl, ?_⟩
      intro inside
      rcases List.infix_cons_iff.mp inside with early | later
      · exact here (early.trans (List.prefix_append (c :: front) _))
      · exact first later

theorem infix_append_cons {a b : List Char} {c : Char} (star : c ≠ '*') (slash : c ≠ '/')
    (inside : ['*', '/'] <:+: a ++ c :: b) : ['*', '/'] <:+: a ∨ ['*', '/'] <:+: b := by
  induction a with
  | nil =>
    rcases List.infix_cons_iff.mp inside with early | later
    · exact absurd (List.cons_prefix_cons.mp early).1.symm star
    · exact .inr later
  | cons d a ih =>
    rcases List.infix_cons_iff.mp inside with early | later
    · obtain ⟨same, next⟩ := List.cons_prefix_cons.mp early
      cases a with
      | nil => exact absurd (List.cons_prefix_cons.mp next).1.symm slash
      | cons e a =>
        have second := (List.cons_prefix_cons.mp next).1
        left
        rw [← same, ← second]
        exact ⟨[], a, rfl⟩
    · rcases ih later with front | back
      · exact .inl (List.infix_cons_iff.mpr (.inr front))
      · exact .inr back

/-! What a star leaves behind -/

def Enclosed : Lexing → Prop
  | literal _ _ | escape _ _ | lineComment _ | blockComment _ => True
  | _ => False

/-- What is inside stays inside until the literal or the comment is complete. -/
theorem advance_enclosed {s next : Lexing} {c : Char} {front : List Lexeme} (enclosed : s.Enclosed)
    (advanced : s.advance c = some (front, next)) :
    next.Enclosed ∨ ∃ text, front = [.literal text] ∨ front = [.comment text] := by
  cases s with
  | nothing | slash | word => exact enclosed.elim
  | literal quote begun =>
    rw [advance] at advanced
    split at advanced
    · cases advanced
    · split at advanced
      · cases advanced
        exact .inr ⟨_, .inl rfl⟩
      · split at advanced <;> cases advanced <;> exact .inl trivial
  | escape quote begun =>
    rw [advance] at advanced
    split at advanced
    · cases advanced
    · cases advanced
      exact .inl trivial
  | lineComment begun =>
    rw [advance] at advanced
    split at advanced
    · cases advanced
      exact .inr ⟨_, .inr rfl⟩
    · cases advanced
      exact .inl trivial
  | blockComment begun =>
    rw [advance] at advanced
    split at advanced
    · cases advanced
      exact .inr ⟨_, .inr rfl⟩
    · cases advanced
      exact .inl trivial

theorem run_enclosed {s : Lexing} {text : List Char} {ls : List Lexeme} (enclosed : s.Enclosed)
    (found : s.run text = some ls) : ∃ l ∈ ls, ∀ word, l ≠ .word word := by
  induction text generalizing s ls with
  | nil =>
    cases s with
    | nothing | slash | word => exact enclosed.elim
    | literal | escape | blockComment => cases found
    | lineComment begun =>
      cases found
      exact ⟨.comment begun, List.mem_cons_self, nofun⟩
  | cons c rest ih =>
    obtain ⟨front, next, back, advanced, later, rfl⟩ := run_cons found
    rcases advance_enclosed enclosed advanced with inside | ⟨text, rfl | rfl⟩
    · obtain ⟨l, member, other⟩ := ih inside later
      exact ⟨l, List.mem_append_right front member, other⟩
    · exact ⟨.literal text, List.mem_cons_self, nofun⟩
    · exact ⟨.comment text, List.mem_cons_self, nofun⟩

theorem run_star {s : Lexing} {text : List Char} {ls : List Lexeme} (star : '*' ∈ text)
    (found : s.run text = some ls) : ∃ l ∈ ls, ∀ word, l ≠ .word word := by
  induction text generalizing s ls with
  | nil => cases star
  | cons c rest ih =>
    by_cases here : c = '*'
    · subst here
      cases s with
      | literal | escape | lineComment | blockComment => exact run_enclosed (by trivial) found
      | nothing =>
        obtain ⟨front, next, back, advanced, _, rfl⟩ := run_cons found
        cases advanced
        exact ⟨.mark '*', List.mem_cons_self, nofun⟩
      | slash =>
        have begun : slash.advance '*' = some ([], blockComment []) := rfl
        rw [run_begun begun] at found
        exact run_enclosed (by trivial) found
      | word begun =>
        obtain ⟨front, next, back, advanced, _, rfl⟩ := run_cons found
        cases advanced
        exact ⟨.mark '*', List.mem_cons_of_mem _ List.mem_cons_self, nofun⟩
    · have later : '*' ∈ rest := (List.mem_cons.mp star).resolve_left (Ne.symm here)
      obtain ⟨front, next, back, _, given, rfl⟩ := run_cons found
      obtain ⟨l, member, other⟩ := ih later given
      exact ⟨l, List.mem_append_right front member, other⟩

end Lexing

/-! Whole comments -/

theorem opened_lineComment (rest : List Char) :
    Lexing.nothing.run ('/' :: '/' :: rest) = (Lexing.lineComment []).run rest := by
  have one : Lexing.nothing.advance '/' = some ([], .slash) := rfl
  have two : Lexing.slash.advance '/' = some ([], .lineComment []) := rfl
  rw [Lexing.run_begun one, Lexing.run_begun two]

/-- A line comment whose text has no line end and no backslash before its own line end is one
lexeme. -/
theorem lexemes_line {body : List Char} (oneLine : '\n' ∉ body) (ends : body.getLast? ≠ some '\\')
    {text after : String} (given : text.toList = '/' :: '/' :: (body ++ ['\n'])) :
    lexemes (text ++ after) = (lexemes after).map (.comment body :: ·) := by
  have plain : '\n' ∉ '/' :: '/' :: body := by simp [oneLine]
  have apart : ('/' :: '/' :: body).getLast? = some '\\' →
      ('\n' :: after.toList).head? ≠ some '\n' := by
    intro last
    cases body with
    | nil => exact absurd last (by decide)
    | cons c body => exact absurd last ends
  have whole : (text ++ after).toList = ('/' :: '/' :: body) ++ '\n' :: after.toList := by
    rw [String.toList_append, given]
    simp
  have newline : '\n' = '\\' → after.toList.head? ≠ some '\n' := nofun
  unfold lexemes
  rw [whole, spliced_append apart, spliced_of_no_newline plain, spliced_cons newline,
    List.cons_append, List.cons_append, opened_lineComment, Lexing.run_lineComment oneLine,
    List.nil_append]

/-- A backslash before the line end hides the line after the comment. -/
theorem lexemes_continued_line {body : List Char} (oneLine : '\n' ∉ body) {text after : String}
    (given : text.toList = '/' :: '/' :: (body ++ ['\\', '\n'])) (last : '\n' ∉ after.toList) :
    lexemes (text ++ after) = some [.comment (body ++ after.toList)] := by
  have plain : '\n' ∉ '/' :: '/' :: body := by simp [oneLine]
  have joined : '\n' ∉ body ++ after.toList := by simp [oneLine, last]
  have whole : (text ++ after).toList = ('/' :: '/' :: body) ++ '\\' :: '\n' :: after.toList := by
    rw [String.toList_append, given]
    simp
  have apart : ('\\' :: '\n' :: after.toList).head? ≠ some '\n' := nofun
  unfold lexemes
  rw [whole, spliced_append (fun _ => apart), spliced_of_no_newline plain, spliced,
    spliced_of_no_newline last, List.cons_append, List.cons_append, opened_lineComment,
    Lexing.run_lineComment_end joined, List.nil_append]

theorem run_closedComment {body : List Char} (unended : ¬ ['*', '/'] <:+: body) (rest : List Char) :
    Lexing.nothing.run ('/' :: '*' :: (body ++ '*' :: '/' :: rest)) =
      (Lexing.nothing.run rest).map (.comment body :: ·) := by
  have one : Lexing.nothing.advance '/' = some ([], .slash) := rfl
  have two : Lexing.slash.advance '*' = some ([], .blockComment []) := rfl
  have inside : ¬ ['*', '/'] <:+: [] ++ body := unended
  rw [Lexing.run_begun one, Lexing.run_begun two, Lexing.run_blockComment inside, List.nil_append]

end BlockSketch.Code
