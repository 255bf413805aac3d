import BlockSketch.Proofs.Names
import BlockSketch.Proofs.Sketch.Frames
import BlockSketch.Proofs.Sketch.KeyedLines
import BlockSketch.Sketch.Generator
import BlockSketch.Sketch.Rules

/-
What the rules of the catalogue do. A rule first notes what its block configures or uses; then it
asks for the same sockets in the same order whatever it is answered, and for no socket twice. It
always gives a statement or always an expression. Apart from the note it changes nothing in the
session but names and their definitions, except for the two sections, which take over the statements
in their socket.
-/
namespace BlockSketch

/-! Courses of scripts -/

namespace Script

variable {α β : Type} {R S : Session → Session → Prop} {P : α → Prop} {Q : β → Prop}

/-- Whatever it is answered, the script asks for these sockets in this order, changes the session
only as the relation allows, and gives a result with the property. -/
inductive Course (R : Session → Session → Prop) (P : α → Prop) : Script α → List Link → Prop where
  | done {a : α} (result : P a) : Course R P (.done a) []
  | value {socket : String} {min : Order} {fallback : String} {next : Operand → Script α}
      {links : List Link} (later : ∀ o, Course R P (next o) links) :
      Course R P (.value socket min fallback next) (.value socket :: links)
  | body {socket : String} {next : String → Script α} {links : List Link}
      (later : ∀ text, Course R P (next text) links) :
      Course R P (.body socket next) (.statement socket :: links)
  | update {f : Session → Session} {next : Session → Script α} {links : List Link}
      (allowed : ∀ s, R s (f s)) (later : ∀ s, Course R P (next s) links) :
      Course R P (.read fun s => .write (f s) (next s)) links

inductive Reads (link : Link) : Script α → Prop where
  | value {socket : String} {min : Order} {fallback : String} {next : Operand → Script α}
      (here : link = .value socket) : Reads link (.value socket min fallback next)
  | body {socket : String} {next : String → Script α} (here : link = .statement socket) :
      Reads link (.body socket next)
  | afterValue {socket : String} {min : Order} {fallback : String} {next : Operand → Script α}
      (o : Operand) (later : Reads link (next o)) : Reads link (.value socket min fallback next)
  | afterBody {socket : String} {next : String → Script α} (text : String)
      (later : Reads link (next text)) : Reads link (.body socket next)
  | read {next : Session → Script α} (s : Session) (later : Reads link (next s)) :
      Reads link (.read next)
  | write {s : Session} {next : Script α} (later : Reads link next) : Reads link (.write s next)

namespace Course

variable {script : Script α} {links more : List Link}

theorem bind {next : α → Script β} (first : script.Course R P links)
    (second : ∀ a, P a → (next a).Course R Q more) :
    (script.bind next).Course R Q (links ++ more) := by
  induction first with
  | done result => exact second _ result
  | value later ih => exact Course.value ih
  | body later ih => exact Course.body ih
  | update allowed later ih => exact Course.update allowed ih

theorem mono (course : script.Course R P links) (wider : ∀ s t, R s t → S s t) :
    script.Course S P links := by
  induction course with
  | done result => exact Course.done result
  | value later ih => exact Course.value ih
  | body later ih => exact Course.body ih
  | update allowed later ih => exact Course.update (fun s => wider _ _ (allowed s)) ih

theorem next_not_mem (course : script.Course R P links) : Link.next ∉ links := by
  induction course with
  | done result => exact List.not_mem_nil
  | value later ih => simpa using ih (.ofFallback "")
  | body later ih => simpa using ih ""
  | update allowed later ih => exact ih .new

/-- A socket that is asked for in one course of the script is asked for in all of them. -/
theorem reads_iff (course : script.Course R P links) (link : Link) :
    script.Reads link ↔ link ∈ links := by
  constructor
  · intro reads
    induction course with
    | done result => cases reads
    | value later ih =>
      cases reads with
      | value here => exact here ▸ List.mem_cons_self
      | afterValue o after => exact List.mem_cons_of_mem _ (ih o after)
    | body later ih =>
      cases reads with
      | body here => exact here ▸ List.mem_cons_self
      | afterBody text after => exact List.mem_cons_of_mem _ (ih text after)
    | update allowed later ih =>
      cases reads with
      | read s after =>
        cases after with
        | write after => exact ih s after
  · intro member
    induction course with
    | done result => cases member
    | value later ih =>
      rcases List.mem_cons.mp member with here | after
      · exact Reads.value here
      · exact Reads.afterValue (.ofFallback "") (ih _ after)
    | body later ih =>
      rcases List.mem_cons.mp member with here | after
      · exact Reads.body here
      · exact Reads.afterBody "" (ih _ after)
    | update allowed later ih => exact Reads.read .new (Reads.write (ih _ member))

end Course
end Script

/-! What blocks note in the session -/

namespace Block

def pinUsers : List String :=
  ["esp32_digital_write", "esp32_relay_set", "esp32_relay_blink", "esp32_digital_read",
    "esp32_button_read"]

def serialUsers : List String :=
  ["esp32_serial_print", "esp32_serial_println", "esp32_serial_available", "esp32_serial_read"]

def uses? (b : Block) : Option Resource :=
  if b.kind ∈ pinUsers then some (.pin (b.fieldText "PIN"))
  else if b.kind ∈ serialUsers then some .serial
  else none

def configures? (b : Block) : Option (Resource × String) :=
  if b.kind = "esp32_pin_mode" then
    some (.pin (b.fieldText "PIN"), "pinMode(" ++ b.fieldText "PIN" ++ ", " ++
      b.fieldText "MODE" ++ ");")
  else if b.kind = "esp32_serial_begin" then
    some (.serial, "Serial.begin(" ++ b.fieldText "BAUD" ++ ");")
  else none

def note (b : Block) (s : Session) : Session :=
  let configured := match b.configures? with
    | some (r, line) => s.configure r line
    | none => s
  match b.uses? with
  | some r => configured.markUsed r
  | none => configured

end Block

namespace Session

/-- Every definition declares an identifier that the session has handed out. -/
structure Tidy (s : Session) : Prop where
  names : s.names.Allocated
  definitions : ∀ e ∈ s.definitions.entries, ∃ name : String,
    Code.IsName name.toList ∧ e.2 = "double " ++ name ++ " = 0;"

structure SameMarks (s t : Session) : Prop where
  setupLines : t.setupLines = s.setupLines
  used : t.used = s.used
  diagnostics : t.diagnostics = s.diagnostics
  tidy : s.Tidy → t.Tidy

/-- Nothing but names and definitions has changed. -/
structure SameNotes (s t : Session) : Prop extends SameMarks s t where
  userInit : t.userInit = s.userInit
  userLoop : t.userLoop = s.userLoop

theorem sameNotes_variableName (user : String) (s : Session) :
    s.SameNotes (s.variableName user).2 := by
  refine ⟨⟨rfl, rfl, rfl, fun tidy => ⟨tidy.names.get user, ?_⟩⟩, rfl, rfl⟩
  have sound := NameTable.sound_of_allocated (tidy.names.get user)
  have isName := sound.names _ (NameTable.mem_of_lookup (NameTable.lookup_get s.names user))
  intro e member
  simp only [variableName] at member
  split at member
  · exact tidy.definitions e member
  · rcases KeyedLines.mem_insert member with old | rfl
    · exact tidy.definitions e old
    · exact ⟨_, isName, rfl⟩

theorem sameNotes_distinct (base : String) (s : Session) : s.SameNotes (s.distinct base).2 :=
  ⟨⟨rfl, rfl, rfl, fun tidy => ⟨tidy.names.distinct base, tidy.definitions⟩⟩, rfl, rfl⟩

theorem sameMarks_appendInit (text : String) (s : Session) : s.SameMarks (s.appendInit text) :=
  ⟨rfl, rfl, rfl, fun tidy => ⟨tidy.names, tidy.definitions⟩⟩

theorem sameMarks_appendLoop (text : String) (s : Session) : s.SameMarks (s.appendLoop text) :=
  ⟨rfl, rfl, rfl, fun tidy => ⟨tidy.names, tidy.definitions⟩⟩

end Session

namespace Emission

def IsStatement : Emission → Prop
  | statement _ => True
  | expression _ _ => False

def IsExpression : Emission → Prop
  | statement _ => False
  | expression _ _ => True

theorem not_both {e : Emission} (statement : e.IsStatement) (expression : e.IsExpression) :
    False := by
  cases e with
  | statement text => exact expression
  | expression text order => exact statement

end Emission

namespace Rules

open Script

def Uniform (R : Session → Session → Prop) (script : Script Emission) (links : List Link) : Prop :=
  script.Course R Emission.IsStatement links ∨ script.Course R Emission.IsExpression links

inductive Noting (b : Block) (rest : Script Emission) : Script Emission → Prop where
  | nothing (idle : ∀ s, b.note s = s) : Noting b rest rest
  | first : Noting b rest (.read fun s => .write (b.note s) rest)

def Bare (links : List Link) : Prop := ∀ socket, Link.statement socket ∉ links

/-- A rule that notes, asks for different sockets in a fixed order, sets the statements that it is
given into a frame, and changes nothing else. -/
def Orderly (b : Block) (script : Script Emission) : Prop :=
  ∃ rest links, Noting b rest script ∧ links.Nodup ∧ Uniform Session.SameNotes rest links ∧
    (Bare links ∨ rest.Woven)

def Gathering (kind : String) (script : Script Emission) : Prop :=
  kind = "program_setup" ∧ script = (do
    let text ← statements "DO"
    update (·.appendInit text)
    return .empty) ∨
  kind = "program_loop" ∧ script = (do
    let text ← statements "DO"
    update (·.appendLoop text)
    return .empty)

/-! Branches -/

def branchLinks (bs : List Branch) : List Link :=
  bs.flatMap fun b => [.value b.condition, .statement b.body]

theorem branches_course (R : Session → Session → Prop) (keyword code : String) (bs : List Branch) :
    (branches keyword code bs).Course R (fun _ => True) (branchLinks bs) := by
  induction bs generalizing keyword code with
  | nil => exact Course.done trivial
  | cons b rest ih => exact Course.value fun _ => Course.body fun _ => ih _ _

theorem conditional_course (R : Session → Session → Prop) (bs : List Branch)
    (elseSocket : Option String) :
    (conditional bs elseSocket).Course R Emission.IsStatement
      (branchLinks bs ++ elseSocket.toList.map .statement) := by
  refine (branches_course R "if" "" bs).bind fun code _ => ?_
  cases elseSocket with
  | none => exact Course.done trivial
  | some socket => exact Course.body fun _ => Course.done trivial

theorem repr_injective {i j : Nat} (same : i.repr = j.repr) : i = j := by
  have numbers := Text.digits?_repr i
  rw [same, Text.digits?_repr] at numbers
  exact (Option.some.inj numbers).symm

theorem numbered_nodup (count : Nat) {elseSocket : Option String}
    (apart : ∀ socket ∈ elseSocket, ∀ i : Nat, socket ≠ "DO" ++ toString i) :
    (branchLinks (numbered count) ++ elseSocket.toList.map Link.statement).Nodup := by
  rw [List.nodup_append]
  refine ⟨?_, ?_, ?_⟩
  · rw [branchLinks, numbered, List.flatMap_map, List.Nodup, List.pairwise_flatMap]
    refine ⟨by simp, List.nodup_range.imp ?_⟩
    intro i j other
    have numbers : i.repr ≠ j.repr := fun same => other (repr_injective same)
    simp [numbers]
  · cases elseSocket <;> simp
  · intro link member other last
    cases elseSocket with
    | none => cases last
    | some socket =>
      simp only [Option.toList_some, List.map_cons, List.map_nil, List.mem_singleton] at last
      simp only [branchLinks, numbered, List.flatMap_map, List.mem_flatMap, List.mem_cons,
        List.not_mem_nil, or_false] at member
      obtain ⟨i, _, rfl | rfl⟩ := member
      · rw [last]
        exact Link.noConfusion
      · rw [last]
        intro same
        exact apart socket rfl i (Link.statement.inj same).symm

theorem else_apart : ∀ socket ∈ some "ELSE", ∀ i : Nat, socket ≠ "DO" ++ toString i := by
  rintro socket same i clash
  cases same
  have chars := congrArg (List.head? ∘ String.toList) clash
  simp at chars

/-! The rules one by one -/

def noters : List String :=
  ["esp32_pin_mode", "esp32_serial_begin"] ++ Block.pinUsers ++ Block.serialUsers

theorem notes_nothing {b : Block} (quiet : b.kind ∉ noters) :
    b.configures? = none ∧ b.uses? = none := by
  simp only [noters, List.mem_append, List.mem_cons, List.not_mem_nil, or_false, not_or] at quiet
  obtain ⟨⟨⟨pinMode, serialBegin⟩, pin⟩, serial⟩ := quiet
  simp only [Block.configures?, Block.uses?, pinMode, serialBegin, pin, serial, if_false, and_self]

theorem note_idle {b : Block} (quiet : b.kind ∉ noters) (s : Session) : b.note s = s := by
  obtain ⟨configures, uses⟩ := notes_nothing quiet
  simp only [Block.note, configures, uses]

theorem note_pin {b : Block} (user : b.kind ∈ Block.pinUsers) (s : Session) :
    b.note s = s.markUsed (.pin (b.fieldText "PIN")) := by
  have other : b.kind ≠ "esp32_pin_mode" ∧ b.kind ≠ "esp32_serial_begin" := by
    constructor <;> intro same <;> rw [same] at user <;> simp [Block.pinUsers] at user
  simp only [Block.note, Block.configures?, Block.uses?, other, user, if_false, if_true]

theorem note_serial {b : Block} (user : b.kind ∈ Block.serialUsers) (s : Session) :
    b.note s = s.markUsed .serial := by
  have other : b.kind ≠ "esp32_pin_mode" ∧ b.kind ≠ "esp32_serial_begin" ∧
      b.kind ∉ Block.pinUsers := by
    refine ⟨?_, ?_, ?_⟩
    · intro same
      rw [same] at user
      simp [Block.serialUsers] at user
    · intro same
      rw [same] at user
      simp [Block.serialUsers] at user
    · intro pin
      simp only [Block.pinUsers, Block.serialUsers, List.mem_cons, List.not_mem_nil, or_false]
        at pin user
      rcases pin with same | same | same | same | same <;> rw [same] at user <;> simp at user
  simp only [Block.note, Block.configures?, Block.uses?, other, user, if_false, if_true]

theorem Noting.of_eq {b : Block} {rest : Script Emission} {f : Session → Session}
    (same : ∀ s, b.note s = f s) : Noting b rest (.read fun s => .write (f s) rest) := by
  rw [← funext same]
  exact Noting.first

def Behaved (kind : String) (rule : Rule) : Prop :=
  ∀ site : Site, site.block.kind = kind →
    Orderly site.block (rule site) ∨ (∀ s, site.block.note s = s) ∧ Gathering kind (rule site)

section Forms

variable {kind : String} {rule : Rule} {links : Site → List Link}

theorem quiet_statement (quiet : kind ∉ noters)
    (values : ∀ site, (links site).Nodup ∧ Bare (links site))
    (course : ∀ site, (rule site).Course Session.SameNotes Emission.IsStatement (links site)) :
    Behaved kind rule := by
  intro site same
  refine Or.inl ⟨rule site, links site, Noting.nothing (note_idle ?_), (values site).1,
    Or.inl (course site), Or.inl (values site).2⟩
  rw [same]
  exact quiet

theorem quiet_expression (quiet : kind ∉ noters)
    (values : ∀ site, (links site).Nodup ∧ Bare (links site))
    (course : ∀ site, (rule site).Course Session.SameNotes Emission.IsExpression (links site)) :
    Behaved kind rule := by
  intro site same
  refine Or.inl ⟨rule site, links site, Noting.nothing (note_idle ?_), (values site).1,
    Or.inr (course site), Or.inl (values site).2⟩
  rw [same]
  exact quiet

theorem compound (quiet : kind ∉ noters) (nodup : ∀ site, (links site).Nodup)
    (woven : ∀ site, (rule site).Woven)
    (course : ∀ site, (rule site).Course Session.SameNotes Emission.IsStatement (links site)) :
    Behaved kind rule := by
  intro site same
  refine Or.inl ⟨rule site, links site, Noting.nothing (note_idle ?_), nodup site,
    Or.inl (course site), Or.inr (woven site)⟩
  rw [same]
  exact quiet

theorem pin_user {rest : Site → Script Emission} (user : kind ∈ Block.pinUsers)
    (uniform : ∀ site, Uniform Session.SameNotes (rest site) []) :
    Behaved kind fun site => (use (.pin (site.field "PIN"))).bind fun _ => rest site := by
  intro site same
  refine Or.inl ⟨rest site, [], Noting.of_eq (note_pin ?_), List.nodup_nil, uniform site,
    Or.inl fun _ => List.not_mem_nil⟩
  rw [same]
  exact user

theorem serial_user {rest : Site → Script Emission} {links : List Link}
    (user : kind ∈ Block.serialUsers) (values : links.Nodup ∧ Bare links)
    (uniform : ∀ site, Uniform Session.SameNotes (rest site) links) :
    Behaved kind fun site => (use .serial).bind fun _ => rest site := by
  intro site same
  refine Or.inl ⟨rest site, links, Noting.of_eq (note_serial ?_), values.1, uniform site,
    Or.inl values.2⟩
  rw [same]
  exact user

theorem conditional_behaved {bs : Site → List Branch} {elseSocket : Site → Option String}
    (quiet : kind ∉ noters)
    (nodup : ∀ site, (branchLinks (bs site) ++ (elseSocket site).toList.map Link.statement).Nodup) :
    Behaved kind fun site => conditional (bs site) (elseSocket site) :=
  compound quiet nodup (fun site => woven_conditional (bs site) (elseSocket site))
    fun site => conditional_course _ (bs site) (elseSocket site)

theorem loop_behaved {rule : Rule} {condition : String} (quiet : kind ∉ noters)
    (woven : ∀ site, (rule site).Woven)
    (course : ∀ site, (rule site).Course Session.SameNotes Emission.IsStatement
      [.value condition, .statement "DO"]) : Behaved kind rule :=
  compound quiet (fun _ => by simp) woven course

theorem countedLoop_course (times : String) :
    (countedLoop times).Course Session.SameNotes Emission.IsStatement [.statement "DO"] :=
  Course.update (Session.sameNotes_distinct "count") fun _ => Course.body fun _ =>
    Course.done trivial

end Forms

theorem configuring {kind : String} {f : Site → Session → Session}
    (same : ∀ site : Site, site.block.kind = kind → ∀ s, site.block.note s = f site s) :
    Behaved kind fun site => (update (f site)).bind fun _ => .done .empty := by
  intro site kind
  exact Or.inl ⟨.done .empty, [], Noting.of_eq (same site kind), List.nodup_nil,
    Or.inl (Course.done trivial), Or.inl fun _ => List.not_mem_nil⟩

theorem gathering {kind : String} {rule : Rule} (quiet : kind ∉ noters)
    (same : ∀ site, Gathering kind (rule site)) : Behaved kind rule := by
  intro site kind
  refine Or.inr ⟨note_idle ?_, same site⟩
  rw [kind]
  exact quiet

theorem rules_behaved : ∀ e ∈ entries, Behaved e.1 e.2 := by
  have none : ([] : List Link).Nodup ∧ Bare [] := ⟨List.nodup_nil, fun _ => List.not_mem_nil⟩
  have leaf : Site → ([] : List Link).Nodup ∧ Bare [] := fun _ => none
  have single : ∀ {socket : String}, [Link.value socket].Nodup ∧ Bare [Link.value socket] := by
    simp [Bare]
  have both : Site → [Link.value "A", Link.value "B"].Nodup ∧
      Bare [Link.value "A", Link.value "B"] := by
    simp [Bare]
  simp only [entries, List.forall_mem_cons, List.not_mem_nil, false_imp_iff, implies_true, and_true]
  refine ⟨
    configuring fun site kind s => by
      simp [Block.note, Block.configures?, Block.uses?, Block.pinUsers, Block.serialUsers,
      kind, Site.field],
    pin_user (by decide) fun _ => Or.inl (Course.done trivial),
    pin_user (by decide) fun _ => Or.inr (Course.done trivial),
    quiet_expression (by decide) leaf fun _ => Course.done trivial,
    pin_user (by decide) fun site => ?_,
    quiet_expression (by decide) leaf fun _ => Course.done trivial,
    pin_user (by decide) fun _ => Or.inl (Course.done trivial),
    pin_user (by decide) fun _ => Or.inl (Course.done trivial),
    quiet_statement (by decide) leaf fun _ => Course.done trivial,
    quiet_expression (by decide) leaf fun _ => Course.done trivial,
    configuring fun site kind s => by
      simp [Block.note, Block.configures?, Block.uses?, Block.pinUsers, Block.serialUsers,
      kind, Site.field],
    serial_user (by decide) single fun _ => Or.inl (Course.value fun _ => Course.done trivial),
    serial_user (by decide) single fun _ => Or.inl (Course.value fun _ => Course.done trivial),
    serial_user (by decide) none fun _ => Or.inr (Course.done trivial),
    serial_user (by decide) none fun _ => Or.inr (Course.done trivial),
    conditional_behaved (by decide) fun _ => by simp [branchLinks],
    conditional_behaved (by decide) fun _ => by simp [branchLinks],
    conditional_behaved (by decide) fun _ => numbered_nodup 2 (by simp),
    conditional_behaved (by decide) fun _ => numbered_nodup 2 else_apart,
    conditional_behaved (by decide) fun _ => numbered_nodup 3 else_apart,
    conditional_behaved (by decide) fun _ => by simp [branchLinks],
    conditional_behaved (by decide) fun _ => by simp [branchLinks],
    conditional_behaved (by decide) fun site => numbered_nodup (branchCount site.block) ?_,
    loop_behaved (by decide) (fun _ => Woven.value fun _ => woven_body _ _ _) fun _ =>
      Course.value fun _ => Course.body fun _ => Course.done trivial,
    loop_behaved (by decide) (fun _ => Woven.value fun _ => woven_body _ _ _) fun _ =>
      Course.value fun _ => Course.body fun _ => Course.done trivial,
    loop_behaved (by decide) (fun _ => Woven.value fun _ => woven_countedLoop _) fun _ =>
      Course.value fun _ => countedLoop_course _,
    compound (by decide) (fun _ => List.pairwise_singleton _ _) (fun _ => woven_countedLoop _)
      fun _ => countedLoop_course _,
    quiet_statement (by decide) leaf fun _ => Course.done trivial,
    quiet_expression (by decide) both fun _ => Course.value fun _ => Course.value fun _ =>
    Course.done trivial,
    quiet_expression (by decide) both fun _ => Course.value fun _ => Course.value fun _ => ?_,
    quiet_expression (by decide) leaf fun _ => Course.done trivial,
    quiet_expression (by decide) (fun _ => single) fun _ => Course.value fun _ =>
    Course.done trivial,
    quiet_expression (by decide) leaf fun _ => Course.done trivial,
    quiet_expression (by decide) both fun _ => Course.value fun _ => Course.value fun _ => ?_,
    quiet_expression (by decide) leaf fun site =>
      Course.update (Session.sameNotes_variableName (site.field "VAR")) fun _ =>
      Course.done trivial,
    quiet_statement (by decide) (fun _ => single) fun site => Course.value fun _ =>
      Course.update (Session.sameNotes_variableName (site.field "VAR")) fun _ =>
      Course.done trivial,
    quiet_expression (by decide) leaf fun _ => Course.done trivial,
    quiet_expression (by decide) leaf fun _ => Course.done trivial,
    gathering (by decide) fun _ => Or.inl ⟨rfl, rfl⟩, gathering (by decide) fun _ =>
    Or.inr ⟨rfl, rfl⟩⟩
  · right
    cases site.options.buttons <;> exact Course.done trivial
  · cases hasElse site.block with
    | true => exact else_apart
    | false => simp
  · rw [Script.bind]
    split <;> exact Course.done trivial
  · split <;> exact Course.done trivial

theorem esp32_get {kind : String} {rule : Rule} (entry : (kind, rule) ∈ entries) :
    esp32.get? kind = some rule :=
  SortedMap.get?_ofList (by decide) entry

theorem not_noter_of_none {kind : String} (missing : esp32.get? kind = none) : kind ∉ noters := by
  intro noter
  have known : ∀ k ∈ noters, k ∈ entries.map Prod.fst := by
    simp [noters, Block.pinUsers, Block.serialUsers, entries]
  obtain ⟨entry, listed, rfl⟩ := List.mem_map.mp (known kind noter)
  rw [esp32_get listed] at missing
  cases missing

theorem behaved_of_get {kind : String} {rule : Rule} (found : esp32.get? kind = some rule) :
    Behaved kind rule :=
  rules_behaved (kind, rule) (SortedMap.mem_of_get?_ofList found)

theorem Uniform.mono {R S : Session → Session → Prop} {script : Script Emission} {links : List Link}
    (uniform : Uniform R script links) (wider : ∀ s t, R s t → S s t) : Uniform S script links :=
  uniform.imp (·.mono wider) (·.mono wider)

/-- Whatever a rule does after noting, it leaves the notes alone. -/
theorem marks_of_get {rule : Rule} {site : Site} (found : esp32.get? site.block.kind = some rule) :
    ∃ rest links, Noting site.block rest (rule site) ∧ links.Nodup ∧
      Uniform Session.SameMarks rest links := by
  rcases behaved_of_get found site rfl with
    ⟨rest, links, noting, nodup, uniform, _⟩ | ⟨idle, gathering⟩
  · exact ⟨rest, links, noting, nodup, uniform.mono fun _ _ same => same.toSameMarks⟩
  · refine ⟨rule site, [.statement "DO"], Noting.nothing idle, List.pairwise_singleton _ _,
      Or.inl ?_⟩
    rcases gathering with ⟨_, same⟩ | ⟨_, same⟩ <;> rw [same]
    · exact Course.body fun text => Course.update (Session.sameMarks_appendInit text) fun _ =>
        Course.done trivial
    · exact Course.body fun text => Course.update (Session.sameMarks_appendLoop text) fun _ =>
        Course.done trivial

/-- Every rule asks for different sockets in a fixed order, whatever it does to the session. -/
theorem uniform_of_get {rule : Rule} {site : Site}
    (found : esp32.get? site.block.kind = some rule) :
    ∃ links, links.Nodup ∧ Uniform (fun _ _ => True) (rule site) links := by
  obtain ⟨rest, links, noting, nodup, uniform⟩ := marks_of_get found
  have wider : Uniform (fun _ _ => True) rest links := uniform.mono fun _ _ _ => trivial
  generalize rule site = script at noting ⊢
  cases noting with
  | nothing idle => exact ⟨links, nodup, wider⟩
  | first =>
    exact ⟨links, nodup, wider.imp (fun course => Course.update (fun _ => trivial) fun _ => course)
      (fun course => Course.update (fun _ => trivial) fun _ => course)⟩

end Rules
end BlockSketch
