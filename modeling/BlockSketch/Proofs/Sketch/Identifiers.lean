import BlockSketch.Proofs.Names
import BlockSketch.Proofs.Sketch.KeyedLines
import BlockSketch.Sketch.Session

/-
Identifiers over a whole session. Two allocators draw on one table: one gives every user name an
identifier of its own and declares it, the other gives a new identifier at every request. However
their requests are mixed, no two of them get in each other's way.
-/
namespace BlockSketch

inductive NameRequest where
  | named (user : String)
  | distinct (base : String)
  deriving DecidableEq, Repr

def NameRequest.user? : NameRequest → Option String
  | named user => some user
  | distinct _ => none

structure Grant where
  request : NameRequest
  name : String
  deriving DecidableEq, Repr

/-- Two requests for user names get the same identifier exactly if the user names are the same; any
other two requests get different ones. -/
def Grant.Apart (a b : Grant) : Prop :=
  match a.request, b.request with
  | .named u, .named v => a.name = b.name ↔ u = v
  | _, _ => a.name ≠ b.name

def usersOf (log : List Grant) : List String := (log.map Grant.request).filterMap NameRequest.user?

theorem usersOf_append (log : List Grant) (r : NameRequest) (name : String) :
    usersOf (log ++ [⟨r, name⟩]) = usersOf log ++ r.user?.toList := by
  cases r <;> simp [usersOf, NameRequest.user?]

theorem NameTable.Sound.lookup_of_mem {table : NameTable} (sound : table.Sound)
    {e : String × String} (member : e ∈ table.byUser) : table.byUser.lookup e.1 = some e.2 := by
  obtain ⟨before, after, split⟩ := List.append_of_mem member
  rw [List.lookup_eq_some_iff]
  refine ⟨before, after, split, ?_⟩
  intro other earlier
  have users := sound.users
  rw [split, List.map_append, List.nodup_append] at users
  have differ := users.2.2 other.1 (List.mem_map_of_mem earlier) e.1 (by simp)
  simpa using Ne.symm differ

namespace Session

def reserving (reserved : List String) : Session := { Session.new with names := .new reserved }

def serve (s : Session) : NameRequest → String × Session
  | .named user => s.variableName user
  | .distinct base => s.distinct base

def serveAll (s : Session) : List NameRequest → List Grant × Session
  | [] => ([], s)
  | r :: rest =>
    let (name, s) := s.serve r
    let (log, s) := s.serveAll rest
    (⟨r, name⟩ :: log, s)

def declaration (e : String × String) : String × String :=
  ("var_" ++ e.2, "double " ++ e.2 ++ " = 0;")

structure Served (words : List String) (log : List Grant) (s : Session) : Prop where
  reserved : s.names.reserved = words
  sound : s.names.Sound
  taken : ∀ a ∈ log, a.name ∈ s.names.taken
  known : ∀ user name, s.names.byUser.lookup user = some name ↔ ⟨.named user, name⟩ ∈ log
  drawn : ∀ base name, ⟨.distinct base, name⟩ ∈ log → name ∉ s.names.byUser.map Prod.snd
  apart : log.Pairwise Grant.Apart
  free : ∀ a ∈ log, a.name ∉ words
  users : s.names.byUser.reverse.map Prod.fst = (usersOf log).eraseDups
  indexed : s.definitions.Indexed
  entries : s.definitions.entries.toList = s.names.byUser.reverse.map declaration

theorem served_reserving (words : List String) : Served words [] (reserving words) where
  reserved := rfl
  sound := ⟨nofun, nofun, List.nodup_nil, List.nodup_nil⟩
  taken := nofun
  known := by simp [reserving, NameTable.new]
  drawn := nofun
  apart := List.Pairwise.nil
  free := nofun
  users := rfl
  indexed := KeyedLines.indexed_empty
  entries := rfl

namespace Served

variable {words : List String} {log : List Grant} {s : Session}

theorem mem_users (served : Served words log s) {user : String} :
    user ∈ usersOf log ↔ ∃ name, s.names.byUser.lookup user = some name := by
  rw [usersOf, List.filterMap_map, List.mem_filterMap]
  constructor
  · rintro ⟨⟨request, name⟩, member, asks⟩
    cases request with
    | distinct base => cases asks
    | named other =>
      cases asks
      exact ⟨name, (served.known user name).mpr member⟩
  · rintro ⟨name, found⟩
    exact ⟨⟨.named user, name⟩, (served.known user name).mp found, rfl⟩

theorem contains_declaration (served : Served words log s) {name : String} :
    s.definitions.contains ("var_" ++ name) = true ↔ name ∈ s.names.byUser.map Prod.snd := by
  rw [served.indexed.contains_iff, served.entries, List.map_map, List.mem_map, List.mem_map]
  constructor
  · rintro ⟨e, member, same⟩
    refine ⟨e, List.mem_reverse.mp member, ?_⟩
    have lists := congrArg String.toList same
    simp only [Function.comp, declaration, String.toList_append] at lists
    exact String.toList_injective (List.append_cancel_left lists)
  · rintro ⟨e, member, rfl⟩
    exact ⟨e, List.mem_reverse.mpr member, rfl⟩

section Fresh

variable {name : String} (served : Served words log s)
  (new : name ∉ s.names.reserved ++ s.names.taken)

include served new

theorem not_word : name ∉ words := by
  intro clash
  rw [← served.reserved] at clash
  exact new (List.mem_append_left _ clash)

theorem not_granted : ∀ a ∈ log, a.name ≠ name := by
  intro a member same
  have old := served.taken a member
  rw [same] at old
  exact new (List.mem_append_right _ old)

theorem not_listed : name ∉ s.names.byUser.map Prod.snd := by
  intro listed
  obtain ⟨e, member, same⟩ := List.mem_map.mp listed
  have old := served.sound.taken e member
  rw [same] at old
  exact new (List.mem_append_right _ old)

end Fresh

theorem apart_append (served : Served words log s) {last : Grant}
    (apart : ∀ a ∈ log, a.Apart last) :
    (log ++ [last]).Pairwise Grant.Apart := by
  rw [List.pairwise_append]
  refine ⟨served.apart, List.pairwise_singleton _ _, ?_⟩
  intro a member b listed
  rw [List.mem_singleton.mp listed]
  exact apart a member

theorem distinct (served : Served words log s) (base : String) :
    Served words (log ++ [⟨.distinct base, (s.distinct base).1⟩]) (s.distinct base).2 := by
  have new := Identifier.safeName_not_mem base s.names.reserved s.names.taken
  have unlisted := served.not_listed new
  constructor
  case reserved => exact served.reserved
  case sound =>
    exact ⟨served.sound.names, fun e member => List.mem_cons_of_mem _ (served.sound.taken e member),
      served.sound.users, served.sound.different⟩
  case taken =>
    rw [List.forall_mem_append, List.forall_mem_singleton]
    exact ⟨fun a old => List.mem_cons_of_mem _ (served.taken a old), List.mem_cons_self⟩
  case known =>
    intro user name
    rw [List.mem_append, List.mem_singleton, ← served.known]
    simp [Session.distinct, NameTable.distinct]
  case drawn =>
    intro other name member
    rcases List.mem_append.mp member with old | last
    · exact served.drawn other name old
    · cases List.mem_singleton.mp last
      exact unlisted
  case apart =>
    apply served.apart_append
    intro a member
    have differ := served.not_granted new a member
    unfold Grant.Apart
    cases a.request <;> exact differ
  case free =>
    rw [List.forall_mem_append, List.forall_mem_singleton]
    exact ⟨served.free, served.not_word new⟩
  case users =>
    rw [usersOf_append, NameRequest.user?, Option.toList_none, List.append_nil]
    exact served.users
  case indexed => exact served.indexed
  case entries => exact served.entries

theorem named_again (served : Served words log s) {user name : String}
    (found : s.names.byUser.lookup user = some name) :
    s.variableName user = (name, s) ∧ Served words (log ++ [⟨.named user, name⟩]) s := by
  have granted := (served.known user name).mp found
  have listed : name ∈ s.names.byUser.map Prod.snd :=
    List.mem_map.mpr ⟨_, NameTable.mem_of_lookup found, rfl⟩
  constructor
  · have got : s.names.get user = (name, s.names) := by rw [NameTable.get, found]
    simp only [variableName, got, served.contains_declaration.mpr listed, if_true]
  constructor
  case reserved => exact served.reserved
  case sound => exact served.sound
  case taken =>
    rw [List.forall_mem_append, List.forall_mem_singleton]
    exact ⟨served.taken, served.taken _ granted⟩
  case known =>
    intro other id
    rw [served.known, List.mem_append, List.mem_singleton]
    constructor
    · exact Or.inl
    · rintro (old | last)
      · exact old
      · rw [last]
        exact granted
  case drawn =>
    intro base other member
    rcases List.mem_append.mp member with old | last
    · exact served.drawn base other old
    · cases List.mem_singleton.mp last
  case apart =>
    apply served.apart_append
    rintro ⟨request, other⟩ member
    cases request with
    | distinct base =>
      rintro rfl
      exact served.drawn base _ member listed
    | named earlier =>
      have before := (served.known earlier other).mpr member
      constructor
      · rintro rfl
        have first := NameTable.userOf_lookup served.sound before
        have second := NameTable.userOf_lookup served.sound found
        exact Option.some.inj (first.symm.trans second)
      · rintro rfl
        exact Option.some.inj (before.symm.trans found)
  case free =>
    rw [List.forall_mem_append, List.forall_mem_singleton]
    exact ⟨served.free, served.free _ granted⟩
  case users =>
    have old : user ∈ usersOf log := served.mem_users.mpr ⟨name, found⟩
    rw [usersOf_append]
    exact served.users.trans ((eraseDups_append_singleton _ user).trans (if_pos old)).symm
  case indexed => exact served.indexed
  case entries => exact served.entries

theorem named_first (served : Served words log s) {user : String}
    (absent : s.names.byUser.lookup user = none) :
    Served words (log ++ [⟨.named user, (s.variableName user).1⟩]) (s.variableName user).2 := by
  have new := Identifier.safeName_not_mem user s.names.reserved s.names.taken
  have unlisted := served.not_listed new
  have sound := NameTable.sound_get served.sound user
  have unknown : ∀ a ∈ log, a.request ≠ .named user := by
    rintro ⟨request, name⟩ member rfl
    rw [(served.known user name).mpr member] at absent
    cases absent
  have undeclared := mt served.contains_declaration.mp unlisted
  rw [Bool.not_eq_true] at undeclared
  generalize given : Identifier.safeName user s.names.reserved s.names.taken =
    name at new unlisted undeclared
  have got : s.names.get user =
      (name, { s.names with taken := name :: s.names.taken, byUser :=
        (user, name) :: s.names.byUser }) := by
    rw [NameTable.get, absent, ← given]
  rw [got] at sound
  simp only [variableName, got, undeclared, Bool.false_eq_true, if_false]
  constructor
  case reserved => exact served.reserved
  case sound => exact sound
  case taken =>
    rw [List.forall_mem_append, List.forall_mem_singleton]
    exact ⟨fun a old => List.mem_cons_of_mem _ (served.taken a old), List.mem_cons_self⟩
  case known =>
    intro other id
    rw [List.lookup_cons, List.mem_append, List.mem_singleton]
    by_cases same : other = user
    · subst same
      have old : Grant.mk (.named other) id ∉ log := fun member => unknown _ member rfl
      simp [old, eq_comm]
    · have differ : (other == user) = false := beq_eq_false_iff_ne.mpr same
      simp [differ, served.known, same]
  case drawn =>
    intro base other member
    rcases List.mem_append.mp member with old | last
    · rw [List.map_cons, List.mem_cons, not_or]
      exact ⟨served.not_granted new _ old, served.drawn base other old⟩
    · cases List.mem_singleton.mp last
  case apart =>
    apply served.apart_append
    rintro ⟨request, other⟩ member
    have differ : other ≠ name := served.not_granted new _ member
    cases request with
    | distinct base => exact differ
    | named earlier =>
      constructor
      · intro same
        exact absurd same differ
      · rintro rfl
        exact absurd rfl (unknown _ member)
  case free =>
    rw [List.forall_mem_append, List.forall_mem_singleton]
    exact ⟨served.free, served.not_word new⟩
  case users =>
    have unseen : user ∉ usersOf log := by
      rw [served.mem_users, absent]
      rintro ⟨_, none⟩
      cases none
    rw [usersOf_append, List.reverse_cons, List.map_append, served.users]
    exact ((eraseDups_append_singleton _ user).trans (if_neg unseen)).symm
  case indexed => exact served.indexed.insert _ _
  case entries =>
    rw [served.indexed.insert_new undeclared, served.entries, List.reverse_cons, List.map_append]
    rfl

theorem serve (served : Served words log s) (r : NameRequest) :
    Served words (log ++ [⟨r, (s.serve r).1⟩]) (s.serve r).2 := by
  cases r with
  | distinct base => exact served.distinct base
  | named user =>
    cases found : s.names.byUser.lookup user with
    | none => exact served.named_first found
    | some name =>
      obtain ⟨same, after⟩ := served.named_again found
      rw [Session.serve, same]
      exact after

theorem serveAll (served : Served words log s) (requests : List NameRequest) :
    Served words (log ++ (s.serveAll requests).1) (s.serveAll requests).2 := by
  induction requests generalizing log s with
  | nil =>
    rw [Session.serveAll, List.append_nil]
    exact served
  | cons r rest ih =>
    have after := ih (served.serve r)
    rw [List.append_assoc] at after
    exact after

end Served

theorem requests_serveAll (s : Session) (requests : List NameRequest) :
    (s.serveAll requests).1.map Grant.request = requests := by
  induction requests generalizing s with
  | nil => rfl
  | cons r rest ih =>
    change r :: ((s.serve r).2.serveAll rest).1.map Grant.request = r :: rest
    rw [ih]

/-- Whatever is asked for and in whatever order: the same user name always gets the same identifier,
every other identifier is new, none of them is a reserved word, and the user names are declared,
each once and in the order in which they first came up. -/
theorem identifiers_stay_apart (words : List String) (requests : List NameRequest) :
    let result := (reserving words).serveAll requests
    result.1.map Grant.request = requests ∧ result.1.Pairwise Grant.Apart ∧
      (∀ a ∈ result.1, a.name ∉ words) ∧
      ∃ nameOf : String →
        String, (∀ user name, ⟨.named user, name⟩ ∈ result.1 → name = nameOf user) ∧
        result.2.definitions.lines =
          (requests.filterMap NameRequest.user?).eraseDups.map fun user =>
            "double " ++ nameOf user ++ " = 0;" := by
  intro result
  have served : Served words result.1 result.2 := (served_reserving words).serveAll requests
  have asked : result.1.map Grant.request = requests := requests_serveAll (reserving words) requests
  have agrees := NameTable.agrees_naming served.sound
  refine ⟨asked, served.apart, served.free, result.2.names.naming, ?_, ?_⟩
  · intro user name member
    exact (agrees.known user name ((served.known user name).mpr member)).symm
  · rw [← asked, ← usersOf, ← served.users, KeyedLines.lines, served.entries, List.map_map,
      List.map_map]
    apply List.map_congr_left
    intro e member
    have name := agrees.known _ _ (served.sound.lookup_of_mem (List.mem_reverse.mp member))
    simp only [Function.comp, declaration, name]

def countRequests : List NameRequest :=
  [.named "count", .distinct "count", .named "count2", .named "count"]

theorem renamed_count_stays_apart :
    let result := (reserving ["count"]).serveAll countRequests
    result.1 = [⟨.named "count", "count2"⟩, ⟨.distinct "count", "count3"⟩,
      ⟨.named "count2", "count22"⟩, ⟨.named "count", "count2"⟩] ∧
    result.2.definitions.lines = ["double count2 = 0;", "double count22 = 0;"] := by
  intro result
  have log : result.1 = [⟨.named "count", "count2"⟩, ⟨.distinct "count", "count3"⟩,
      ⟨.named "count2", "count22"⟩, ⟨.named "count", "count2"⟩] := by decide +kernel
  obtain ⟨_, _, _, nameOf, names, lines⟩ := identifiers_stay_apart ["count"] countRequests
  have first := names "count" "count2" (by rw [log]; simp)
  have second := names "count2" "count22" (by rw [log]; simp)
  constructor
  · exact log
  · rw [lines, show (countRequests.filterMap NameRequest.user?).eraseDups =
      ["count", "count2"] by decide,
      List.map_cons, List.map_cons, List.map_nil, ← first, ← second]
    decide +kernel

end Session
end BlockSketch
