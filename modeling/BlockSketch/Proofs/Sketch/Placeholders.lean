import BlockSketch.Proofs.Code.Comments
import BlockSketch.Proofs.Workspace.Descent
import BlockSketch.Sketch.Generator
import BlockSketch.Sketch.Rules

/-
Placeholders of blocks that no rule is for. A placeholder names the kind of its block in a comment.
The name goes in as it is, so it stays in the comment exactly as long as it has nothing in it that
ends such a comment: a line end where the comment is a line, a star and a slash where the comment
stands before a value. A backslash at the end of the name hides the line after the comment as well.
-/
namespace BlockSketch
open Code

/-! Value positions -/

namespace Workspace

/-- The chain that the block is in hangs from a value socket. -/
inductive InValueChain (w : Workspace) : BlockId → Prop where
  | head {id parent : BlockId} {socket : String}
      (up : w.parent? id = some ⟨parent, .value socket⟩) :
      InValueChain w id
  | later {id before : BlockId} (up : w.parent? id = some ⟨before, .next⟩)
      (chain : InValueChain w before) :
      InValueChain w id

theorem inValueChain_of_within {w : Workspace} {count : Nat} {id : BlockId}
    (found : w.inValueWithin count id = true) : w.InValueChain id := by
  induction count generalizing id with
  | zero => cases found
  | succ count ih =>
    rw [inValueWithin] at found
    split at found
    · rename_i before up
      exact .later up (ih found)
    · rename_i parent socket up
      exact .head up
    · cases found

theorem Forest.inValuePosition_iff {w : Workspace} (forest : w.Forest) (id : BlockId) :
    w.inValuePosition id = true ↔ w.InValueChain id := by
  constructor
  · exact inValueChain_of_within
  · intro chain
    -- One step more than there are blocks changes nothing, and it leaves enough for the block
    -- above.
    have enough : w.size ≤ w.size + 1 := Nat.le_succ w.size
    induction chain with
    | head up => rw [← forest.inValueWithin_eq_inValuePosition enough, inValueWithin, up]
    | later up _ ih =>
      rw [← forest.inValueWithin_eq_inValuePosition enough, inValueWithin, up]
      exact ih

end Workspace

/-! The two texts -/

def placeholderNote : List Char := " block kind not implemented: ".toList

def linePlaceholder (kind : String) : String :=
  "// " ++ ("block kind not implemented: " ++ kind) ++ "\n"

def valuePlaceholder (kind : String) : String :=
  "/* " ++ ("block kind not implemented: " ++ kind) ++ " */ 0"

theorem Generator.own_unknown {g : Generator} {b : Block} (unknown : g.rules.get? b.kind = none)
    (visit : Visit) (r : Run) :
    ∃ r', g.own visit b r =
      (if g.workspace.inValuePosition b.id then .expression (valuePlaceholder b.kind) .atomic
      else .statement (linePlaceholder b.kind), r') := by
  unfold Generator.own
  rw [unknown]
  unfold Generator.placeholder
  dsimp only
  split
  · exact ⟨_, rfl⟩
  · exact ⟨_, rfl⟩

theorem toList_linePlaceholder (kind : String) :
    (linePlaceholder kind).toList = '/' :: '/' :: (placeholderNote ++ kind.toList ++ ['\n']) := by
  delta linePlaceholder
  rw [String.toList_append, String.toList_append, String.toList_append]
  rfl

theorem toList_valuePlaceholder (kind : String) :
    (valuePlaceholder kind).toList =
      '/' :: '*' :: (placeholderNote ++ kind.toList ++ " */ 0".toList) := by
  delta valuePlaceholder
  rw [String.toList_append, String.toList_append, String.toList_append]
  rfl

theorem note_oneLine_iff (text : List Char) : '\n' ∉ placeholderNote ++ text ↔ '\n' ∉ text := by
  have note : '\n' ∉ placeholderNote := by decide
  simp [note]

/-! Comments that are lines -/

/-- One line that is a comment: slashes, anything but a line end, and a line end. -/
def IsCommentLine (text : String) : Prop :=
  ∃ body : List Char, text.toList = '/' :: '/' :: (body ++ ['\n']) ∧ '\n' ∉ body

theorem isCommentLine_iff (kind : String) :
    IsCommentLine (linePlaceholder kind) ↔ '\n' ∉ kind.toList := by
  constructor
  · rintro ⟨body, text, oneLine⟩ newline
    rw [toList_linePlaceholder] at text
    have same : placeholderNote ++ kind.toList = body :=
      List.append_cancel_right (List.cons.inj (List.cons.inj text).2).2
    rw [← same] at oneLine
    exact (note_oneLine_iff kind.toList).mp oneLine newline
  · intro oneLine
    exact ⟨_, toList_linePlaceholder kind, (note_oneLine_iff kind.toList).mpr oneLine⟩

theorem linePlaceholder_alone_iff {kind : String} (oneLine : '\n' ∉ kind.toList) :
    (∃ c, ∀ after, lexemes (linePlaceholder kind ++ after) =
      (lexemes after).map (.comment c :: ·)) ↔
      kind.toList.getLast? ≠ some '\\' := by
  constructor
  · rintro ⟨c, alone⟩ last
    obtain ⟨front, name⟩ := List.getLast?_eq_some_iff.mp last
    have body : '\n' ∉ placeholderNote ++ front := by
      rw [note_oneLine_iff]
      intro newline
      apply oneLine
      rw [name]
      exact List.mem_append_left _ newline
    have given : (linePlaceholder kind).toList =
        '/' :: '/' :: ((placeholderNote ++ front) ++ ['\\', '\n']) := by
      rw [toList_linePlaceholder, name]
      simp
    -- The number in the next line is no lexeme of its own.
    have next : '\n' ∉ "0".toList := by decide
    have hidden := lexemes_continued_line body given next
    have shown : lexemes "0" = some [.word ['0']] := by decide +kernel
    rw [alone, shown] at hidden
    have lengths := congrArg List.length (Option.some.inj hidden)
    cases lengths
  · intro ends
    refine ⟨placeholderNote ++ kind.toList, fun after => ?_⟩
    apply lexemes_line ((note_oneLine_iff kind.toList).mpr oneLine) _ (toList_linePlaceholder kind)
    rw [List.getLast?_append]
    cases found : kind.toList.getLast? with
    | none => decide
    | some c =>
      rw [found] at ends
      exact ends

/-! Comments before values -/

/-- The blanks around the name keep it apart from the rest when lines are joined. -/
theorem lexemes_valuePlaceholder (kind : String) :
    lexemes (valuePlaceholder kind) =
      Lexing.nothing.run ('/' :: '*' ::
        (placeholderNote ++ (spliced kind.toList ++ " */ 0".toList))) := by
  have front : spliced ('/' :: '*' :: placeholderNote) = '/' :: '*' :: placeholderNote :=
    spliced_of_no_newline (by decide)
  have back : spliced " */ 0".toList = " */ 0".toList := spliced_of_no_newline (by decide)
  have whole : (valuePlaceholder kind).toList =
      ('/' :: '*' :: placeholderNote) ++ (kind.toList ++ " */ 0".toList) := by
    rw [toList_valuePlaceholder, List.append_assoc]
    rfl
  unfold lexemes
  rw [whole, spliced_append (fun last => absurd last (by decide)), front,
    spliced_append (fun _ => by decide), back]
  rfl

theorem unended_note {text : List Char} (unended : ¬ ['*', '/'] <:+: text) :
    ¬ ['*', '/'] <:+: placeholderNote ++ text := by
  intro inside
  have shape : placeholderNote ++ text = placeholderNote.dropLast ++ ' ' :: text := by rfl
  rw [shape] at inside
  rcases Lexing.infix_append_cons (by decide) (by decide) inside with note | name
  · exact absurd (note.subset List.mem_cons_self) (by decide)
  · exact unended name

theorem valuePlaceholder_inert_iff (kind : String) :
    (∃ c, lexemes (valuePlaceholder kind) = some [.comment c, .word ['0']]) ↔
      ¬ ['*', '/'] <:+: spliced kind.toList := by
  rw [lexemes_valuePlaceholder]
  generalize spliced kind.toList = name
  constructor
  · rintro ⟨c, inert⟩ ended
    obtain ⟨front, back, rfl, first⟩ := Lexing.exists_first_end ended
    have split : placeholderNote ++ (front ++ '*' :: '/' :: back ++ " */ 0".toList) =
        (placeholderNote ++ front) ++ '*' :: '/' :: (back ++ " */ 0".toList) := by simp
    rw [split, run_closedComment (unended_note first)] at inert
    obtain ⟨ls, read, same⟩ := Option.map_eq_some_iff.mp inert
    obtain ⟨_, rfl⟩ := List.cons.inj same
    -- The comment ended in the name, so the star that was to end it is still there.
    have star : '*' ∈ back ++ " */ 0".toList := List.mem_append_right back (by decide)
    obtain ⟨l, member, other⟩ := Lexing.run_star star read
    exact other ['0'] (List.mem_singleton.mp member)
  · intro unended
    have inside : ¬ ['*', '/'] <:+: placeholderNote ++ (name ++ [' ']) := by
      apply unended_note
      intro ended
      rcases Lexing.infix_append_cons (by decide) (by decide) ended with front | back
      · exact unended front
      · exact absurd (back.subset List.mem_cons_self) List.not_mem_nil
    have split : placeholderNote ++ (name ++ " */ 0".toList) =
        (placeholderNote ++ (name ++ [' '])) ++ '*' :: '/' :: [' ', '0'] := by
      simp
    have zero : Lexing.nothing.run [' ', '0'] = some [.word ['0']] := by decide +kernel
    refine ⟨placeholderNote ++ (name ++ [' ']), ?_⟩
    rw [split, run_closedComment inside, zero]
    rfl

example : lexemes (valuePlaceholder "x */ reboot(), /*") =
    some [.comment (placeholderNote ++ ['x', ' ']), .word "reboot".toList, .mark '(',
      .mark ')', .mark ',', .comment [' '], .word ['0']] := by decide +kernel

/-! Blocks of unknown kinds -/

/-- What stands for a block of a kind that has no rule. Outside of value sockets it is a comment
line exactly if the name has no line end, and such a line leaves the lines after it alone exactly if
the name does not end in a backslash. In the chain of a value socket it is a comment and a zero
exactly if nothing in the name, with its lines joined, ends the comment. -/
theorem unknown_kinds_are_inert_iff {g : Generator} (forest : g.workspace.Forest) (visit : Visit)
    {b : Block} (unknown : g.rules.get? b.kind = none) (r : Run) :
    (¬ g.workspace.InValueChain b.id →
      ∃ text r', g.own visit b r = (.statement text, r') ∧
        (IsCommentLine text ↔ '\n' ∉ b.kind.toList) ∧
        ('\n' ∉ b.kind.toList →
          ((∃ c, ∀ after, lexemes (text ++ after) = (lexemes after).map (.comment c :: ·)) ↔
            b.kind.toList.getLast? ≠ some '\\'))) ∧
    (g.workspace.InValueChain b.id →
      ∃ text r', g.own visit b r = (.expression text .atomic, r') ∧
        ((∃ c, lexemes text = some [.comment c, .word ['0']]) ↔
          ¬ ['*', '/'] <:+: spliced b.kind.toList)) := by
  have position := forest.inValuePosition_iff b.id
  obtain ⟨r', given⟩ := Generator.own_unknown unknown visit r
  constructor
  · intro outside
    rw [if_neg (mt position.mp outside)] at given
    exact ⟨linePlaceholder b.kind, r', given, isCommentLine_iff b.kind, linePlaceholder_alone_iff⟩
  · intro inside
    rw [if_pos (position.mpr inside)] at given
    exact ⟨valuePlaceholder b.kind, r', given, valuePlaceholder_inert_iff b.kind⟩

def hostileKinds : List Workspace.Operation :=
  [.add (.new "esp32_serial_println"), .add (.new "x */ reboot(), /*"),
    .connect 0 (.value "TEXT") 1, .add (.new "x\nreboot();")]

theorem esp32_get?_none {kind : String} (absent : kind ∉ Rules.entries.map Prod.fst) :
    Rules.esp32.get? kind = none :=
  SortedMap.get?_foldl_of_not_mem .empty absent

/-- A kind that ends its comment is read as code, whichever comment it stands in. -/
theorem hostile_kinds_leave_their_comments :
    let g : Generator := ⟨.afterAll hostileKinds, Rules.esp32, .default⟩
    ∃ value line : Block, g.workspace.get? 1 = some value ∧ g.workspace.get? 2 = some line ∧
      g.rules.get? value.kind = none ∧ g.rules.get? line.kind = none ∧
      ∀ (visit : Visit) (r : Run),
        (∃ text r', g.own visit value r = (.expression text .atomic, r') ∧
          ¬ ∃ c, lexemes text = some [.comment c, .word ['0']]) ∧
        ∃ text r', g.own visit line r = (.statement text, r') ∧ ¬ IsCommentLine text := by
  intro g
  have forest : g.workspace.Forest := Workspace.forest_afterAll hostileKinds
  have socket : g.workspace.parent? 1 = some ⟨0, .value "TEXT"⟩ := by decide +kernel
  have top : g.workspace.parent? 2 = none := by decide +kernel
  obtain ⟨value, first, valueId, valueKind⟩ :
      ∃ b, g.workspace.get? 1 = some b ∧ b.id = 1 ∧ b.kind = "x */ reboot(), /*" :=
        ⟨_, rfl, rfl, rfl⟩
  obtain ⟨line, second, lineId, lineKind⟩ :
      ∃ b, g.workspace.get? 2 = some b ∧ b.id = 2 ∧ b.kind = "x\nreboot();" := ⟨_, rfl, rfl, rfl⟩
  have unknownValue : g.rules.get? value.kind = none := by
    rw [valueKind]
    exact esp32_get?_none (by decide +kernel)
  have unknownLine : g.rules.get? line.kind = none := by
    rw [lineKind]
    exact esp32_get?_none (by decide +kernel)
  have inside : g.workspace.InValueChain value.id := by
    rw [valueId]
    exact .head socket
  have outside : ¬ g.workspace.InValueChain line.id := by
    rw [lineId]
    intro chain
    cases chain with
    | head up => cases top.symm.trans up
    | later up _ => cases top.symm.trans up
  refine ⟨value, line, first, second, unknownValue, unknownLine, fun visit r => ⟨?_, ?_⟩⟩
  · obtain ⟨text, r', given, inert⟩ :=
      (unknown_kinds_are_inert_iff forest visit unknownValue r).2 inside
    refine ⟨text, r', given, fun enclosed => inert.mp enclosed ?_⟩
    rw [valueKind]
    exact ⟨"x ".toList, " reboot(), /*".toList, by decide⟩
  · obtain ⟨text, r', given, alone, _⟩ :=
      (unknown_kinds_are_inert_iff forest visit unknownLine r).1 outside
    refine ⟨text, r', given, fun line => alone.mp line ?_⟩
    rw [lineKind]
    decide

end BlockSketch
