import BlockSketch.Sketch.Rules

/-
Frames. The code of a statement block is a frame around the statements in its sockets: each of them
stands in it once, one level in, and the frame does not depend on them.
-/
namespace BlockSketch

/-- Code with places for statements: what comes before the first place, and what after each of
them. -/
structure Frame where
  head : String
  tails : List String

namespace Frame

def weave : List String → List String → String
  | tail :: tails, body :: bodies => Layout.indent body ++ tail ++ weave tails bodies
  | _, _ => ""

def fill (f : Frame) (bodies : List String) : String := f.head ++ weave f.tails bodies

@[simp] theorem fill_nil (head : String) : fill ⟨head, []⟩ [] = head := by simp [fill, weave]

theorem fill_cons (tail body : String) (tails bodies : List String) :
    fill ⟨"", tail :: tails⟩ (body :: bodies) =
      Layout.indent body ++ fill ⟨tail, tails⟩ bodies := by
  simp [fill, weave, String.append_assoc]

end Frame

namespace Script

variable {α β : Type}

/-- The script gives the result for these operands, sessions and statements. Each operand is one
that can be supplied to what it is asked for. -/
inductive Answers (supplies : String → Order → String → Operand → Prop) :
    Script α → List Operand → List Session → List String → α → Prop where
  | done (a : α) : Answers supplies (.done a) [] [] [] a
  | value {socket fallback : String} {min : Order} {next : Operand → Script α} {o : Operand}
      {os : List Operand} {ss : List Session} {bodies : List String} {a : α}
      (supplied : supplies socket min fallback o)
      (later : Answers supplies (next o) os ss bodies a) :
      Answers supplies (.value socket min fallback next) (o :: os) ss bodies a
  | body {socket text : String} {next : String → Script α} {os : List Operand}
      {ss : List Session} {bodies : List String} {a : α}
      (later : Answers supplies (next text) os ss bodies a) :
      Answers supplies (.body socket next) os ss (text :: bodies) a
  | read {next : Session → Script α} {s : Session} {os : List Operand} {ss : List Session}
      {bodies : List String} {a : α} (later : Answers supplies (next s) os ss bodies a) :
      Answers supplies (.read next) os (s :: ss) bodies a
  | write {s : Session} {next : Script α} {os : List Operand} {ss : List Session}
      {bodies : List String} {a : α} (later : Answers supplies next os ss bodies a) :
      Answers supplies (.write s next) os ss bodies a

theorem Answers.unique {supplies : String → Order → String → Operand → Prop} {script : Script α}
    {os : List Operand} {ss : List Session} {bodies : List String} {a a' : α}
    (first : script.Answers supplies os ss bodies a)
    (second : script.Answers supplies os ss bodies a') : a = a' := by
  induction first with
  | done a =>
    cases second
    rfl
  | value _ _ ih =>
    cases second with
    | value _ later => exact ih later
  | body _ ih =>
    cases second with
    | body later => exact ih later
  | read _ ih =>
    cases second with
    | read later => exact ih later
  | write _ ih =>
    cases second with
    | write later => exact ih later

/-- Scripts that only ever add to the code they have so far, and add what they are told of
statements once and one level in. -/
inductive Adding : (String → Script Emission) → Prop where
  | done (rest : String) : Adding fun code => .done (.statement (code ++ rest))
  | text {F : String → Script Emission} (more : String) (later : Adding F) :
      Adding fun code => F (code ++ more)
  | value {F : Operand → String → Script Emission} {socket : String} {min : Order}
      {fallback : String} (later : ∀ o, Adding (F o)) :
      Adding fun code => .value socket min fallback fun o => F o code
  | body {F : String → Script Emission} {socket : String} (later : Adding F) :
      Adding fun code => .body socket fun text => F (code ++ Layout.indent text)
  | update {F : Session → String → Script Emission} {f : Session → Session}
      (later : ∀ s, Adding (F s)) :
      Adding fun code => .read fun s => .write (f s) (F s code)

/-- Around any statements such a script puts the same frame. -/
theorem Adding.frame {supplies : String → Order → String → Operand → Prop}
    {F : String → Script Emission} (adding : Adding F) {start : String} {os : List Operand}
    {ss : List Session} {bodies : List String} {e : Emission}
    (given : (F start).Answers supplies os ss bodies e) :
    ∃ frame : Frame, frame.tails.length = bodies.length ∧ ∀ code others,
      others.length = bodies.length →
        (F code).Answers supplies os ss others (.statement (code ++ frame.fill others)) := by
  induction adding generalizing start os ss bodies with
  | done rest =>
    cases given with
    | done =>
      refine ⟨⟨rest, []⟩, rfl, fun code others none => ?_⟩
      rw [List.length_eq_zero_iff.mp none, Frame.fill_nil]
      exact Answers.done _
  | text more later ih =>
    obtain ⟨⟨head, tails⟩, count, same⟩ := ih given
    refine ⟨⟨more ++ head, tails⟩, count, fun code others as => ?_⟩
    have filled := same (code ++ more) others as
    rw [String.append_assoc, Frame.fill, ← @String.append_assoc more] at filled
    exact filled
  | value later ih =>
    cases given with
    | @value _ _ _ _ o _ _ _ _ supplied after =>
      obtain ⟨frame, count, same⟩ := ih o after
      exact ⟨frame, count, fun code others as => Answers.value supplied (same code others as)⟩
  | body later ih =>
    cases given with
    | body after =>
      obtain ⟨⟨head, tails⟩, count, same⟩ := ih after
      refine ⟨⟨"", head :: tails⟩, congrArg Nat.succ count, fun code others as => ?_⟩
      cases others with
      | nil => cases as
      | cons other others =>
        rw [Frame.fill_cons, ← String.append_assoc]
        exact Answers.body (same _ others (Nat.succ.inj as))
  | update later ih =>
    cases given with
    | @read _ s _ _ _ _ written =>
      cases written with
      | write after =>
        obtain ⟨frame, count, same⟩ := ih s after
        refine ⟨frame, count, fun code others as => ?_⟩
        exact Answers.read (Answers.write (same code others as))

def Woven (script : Script Emission) : Prop := ∃ F, Adding F ∧ script = F ""

theorem Woven.value {socket : String} {min : Order} {fallback : String}
    {next : Operand → Script Emission} (later : ∀ o, Woven (next o)) :
    Woven (.value socket min fallback next) := by
  obtain ⟨F, each⟩ := Classical.axiomOfChoice later
  refine ⟨fun code => .value socket min fallback fun o => F o code,
    Adding.value fun o => (each o).1, ?_⟩
  rw [funext fun o => (each o).2]

theorem Woven.update {f : Session → Session} {next : Session → Script Emission}
    (later : ∀ s, Woven (next s)) : Woven (.read fun s => .write (f s) (next s)) := by
  obtain ⟨F, each⟩ := Classical.axiomOfChoice later
  refine ⟨fun code => .read fun s => .write (f s) (F s code), Adding.update fun s => (each s).1, ?_⟩
  simp only [fun s => (each s).2]

theorem woven_body (socket head tail : String) :
    Woven (.body socket fun text => .done (.statement (head ++ Layout.indent text ++ tail))) := by
  refine ⟨fun code => .body socket fun text =>
    .done (.statement (code ++ head ++ Layout.indent text ++ tail)),
    Adding.text head (Adding.body (Adding.done tail)), ?_⟩
  simp only [String.empty_append]

end Script

namespace Rules

open Script

theorem adding_branches (bs : List Branch) {k : String → Script Emission} (later : Adding k)
    (keyword : String) : Adding fun code => (branches keyword code bs).bind k := by
  induction bs generalizing keyword with
  | nil => exact later
  | cons b rest ih =>
    have one : ∀ o : Operand, Adding fun code =>
        .body b.body fun text =>
          (branches "\x7d else if" (code ++ (keyword ++ " (" ++ o.wrapped ++ ") \x7b\n") ++
            Layout.indent text) rest).bind k :=
      fun o => Adding.text _ (Adding.body (ih _))
    simp only [← String.append_assoc] at one
    exact Adding.value one

theorem woven_conditional (bs : List Branch) (elseSocket : Option String) :
    Woven (conditional bs elseSocket) := by
  cases elseSocket with
  | none => exact ⟨_, adding_branches bs (Adding.done "\x7d\n") "if", rfl⟩
  | some socket =>
    have last : Adding fun code => .body socket fun text =>
        .done (.statement (code ++ "\x7d else \x7b\n" ++ Layout.indent text ++ "\x7d\n")) :=
      Adding.text _ (Adding.body (Adding.done _))
    exact ⟨_, adding_branches bs last "if", rfl⟩

theorem woven_countedLoop (times : String) : Woven (countedLoop times) :=
  Woven.update fun _ => woven_body "DO" _ "\x7d\n"

end Rules
end BlockSketch
