import BlockSketch.Json.Print
import BlockSketch.Proofs.Files.ReadBack
import BlockSketch.Service.Job

/-
Jobs that take turns. Every job saves its code as the one sketch and then lets the toolchain work on
it, and between two steps of a job others may take theirs. Nothing keeps a job from saving while
another one is at work, so what the toolchain finds is the code that was saved last, by whichever
job. A job finds its own code if no other one saves in between.
-/
namespace BlockSketch

def Job.Progress.atWork : Job.Progress → Bool
  | .compiling | .uploading _ => true
  | .saving | .finished _ => false

def Job.Progress.reply? : Job.Progress → Option String
  | .finished response => response.body.map Json.compact
  | _ => none

structure Bench where
  jobs : List (Job × Job.Progress)
  machine : Machine

structure Turn where
  place : Nat
  programs : String → List String → RunResult

namespace ServiceConfig

theorem sketchFile_last (c : ServiceConfig) : c.sketchFile.toList.getLast? = some 'o' := by
  have ends : ∀ front : String, (front ++ ".ino").toList.getLast? = some 'o' := by
    intro front
    rw [String.toList_append, List.getLast?_append]
    rfl
  unfold sketchFile Path.join
  split <;> rw [← String.append_assoc] <;> exact ends _

end ServiceConfig

namespace Machine

variable {m n : Machine} {c : ServiceConfig}

theorem read_saveSketch {code : String} (ordinary : m.files.Ordinary)
    (saved : m.saveSketch c code = .ok n) :
    n.files.read c.sketchFile = .ok code ∧ n.files.Ordinary := by
  unfold saveSketch at saved
  split at saved
  · cases saved
  · rename_i made directories
    split at saved
    · cases saved
    · rename_i files written
      cases saved
      have plain := FileTree.ordinary_makeDirectories ordinary directories
      exact FileTree.read_write plain c.sketchFile_last (by decide) (by decide) written

theorem runStep_files (m : Machine) (c : ServiceConfig) (step : String) (args : List String)
    (timeout : Nat) : (m.runStep c step args timeout).2.files = m.files := by
  unfold runStep start
  dsimp only
  split <;> rfl

end Machine

namespace Job

variable {c : ServiceConfig} {job : Job}

/-- A step saves the code, with which the job gets to work, or leaves the files alone and does not
put the job to work. -/
theorem advance_cases {p q : Progress} {m n : Machine} (ordinary : m.files.Ordinary)
    (step : job.advance c p m = (q, n)) :
    p = .saving ∧ q = .compiling ∧ n.files.read c.sketchFile = .ok job.code ∧ n.files.Ordinary ∨
      n.files = m.files ∧ (q.atWork → p.atWork) ∧ (p = .saving → q.atWork = false) := by
  cases p with
  | saving =>
    rw [advance] at step
    split at step
    · cases step
      exact Or.inr ⟨rfl, nofun, fun _ => rfl⟩
    · split at step
      · rename_i saved
        cases step
        obtain ⟨read, plain⟩ := Machine.read_saveSketch ordinary saved
        exact Or.inl ⟨rfl, rfl, read, plain⟩
      · cases step
        exact Or.inr ⟨rfl, nofun, fun _ => rfl⟩
  | compiling =>
    right
    have files : (m.compile c).2.files = m.files := Machine.runStep_files ..
    rw [advance] at step
    cases compiled : m.compile c with
    | mk result after =>
      rw [compiled] at step files
      cases result with
      | error e =>
        cases step
        exact ⟨files, nofun, nofun⟩
      | ok output =>
        cases device : job.device with
        | none =>
          rw [device] at step
          cases step
          exact ⟨files, nofun, nofun⟩
        | some device =>
          rw [device] at step
          cases step
          exact ⟨files, fun _ => rfl, nofun⟩
  | uploading device =>
    right
    have files : (m.upload c device).2.files = m.files := Machine.runStep_files ..
    rw [advance] at step
    cases uploaded : m.upload c device with
    | mk result after =>
      rw [uploaded] at step files
      cases result <;> cases step <;> exact ⟨files, nofun, nofun⟩
  | finished response =>
    cases step
    exact Or.inr ⟨rfl, nofun, nofun⟩

end Job

namespace Bench

variable {c : ServiceConfig}

def opened (jobs : List Job) (m : Machine) : Bench := ⟨jobs.map (·, .saving), m⟩

def take (c : ServiceConfig) (s : Bench) (turn : Turn) : Bench :=
  match s.jobs[turn.place]? with
  | none => s
  | some (job, progress) =>
    let (progress, machine) :=
      job.advance c progress ⟨s.machine.files, turn.programs, s.machine.calls⟩
    ⟨s.jobs.set turn.place (job, progress), machine⟩

def takeAll (c : ServiceConfig) (s : Bench) (turns : List Turn) : Bench := turns.foldl (take c) s

def sketch (c : ServiceConfig) (s : Bench) : Except FileFault String :=
  s.machine.files.read c.sketchFile

def savedIn (c : ServiceConfig) (s : Bench) (turn : Turn) : Option String :=
  match s.jobs[turn.place]?, (s.take c turn).jobs[turn.place]? with
  | some (job, .saving), some (_, .compiling) => some job.code
  | _, _ => none

def lastSaved (c : ServiceConfig) : Bench → List Turn → Option String
  | _, [] => none
  | s, turn :: rest => (lastSaved c (s.take c turn) rest).or (s.savedIn c turn)

def Idle (s : Bench) : Prop := ∀ e ∈ s.jobs, e.2.atWork = false

/-- No job saves while another one is at work. -/
def Uncontested (c : ServiceConfig) : Bench → List Turn → Prop
  | _, [] => True
  | s, turn :: rest => ((s.savedIn c turn).isSome → s.Idle) ∧ Uncontested c (s.take c turn) rest

inductive Took (c : ServiceConfig) (s : Bench) (turn : Turn) (t : Bench) : Prop where
  | saved {job : Job} (here : (job, .saving) ∈ s.jobs) (code : s.savedIn c turn = some job.code)
      (holds : t.sketch c = .ok job.code)
      (others : ∀ e ∈ t.jobs, e.2.atWork → e = (job, .compiling) ∨ e ∈ s.jobs)
  | other (nothing : s.savedIn c turn = none) (files : t.machine.files = s.machine.files)
      (before : ∀ e ∈ t.jobs, e.2.atWork → ∃ p, (e.1, p) ∈ s.jobs ∧ p.atWork)

theorem took (c : ServiceConfig) {s : Bench} (ordinary : s.machine.files.Ordinary) (turn : Turn) :
    s.Took c turn (s.take c turn) ∧ (s.take c turn).machine.files.Ordinary := by
  cases up : s.jobs[turn.place]? with
  | none =>
    have same : s.take c turn = s := by rw [take, up]
    have nothing : s.savedIn c turn = none := by rw [savedIn, up]
    rw [same]
    exact ⟨Took.other nothing rfl fun e member work => ⟨e.2, member, work⟩, ordinary⟩
  | some entry =>
    obtain ⟨job, p⟩ := entry
    have here : (job, p) ∈ s.jobs := List.mem_of_getElem? up
    obtain ⟨bound, -⟩ := List.getElem?_eq_some_iff.mp up
    cases stepped : job.advance c p ⟨s.machine.files, turn.programs, s.machine.calls⟩ with
    | mk q n =>
      have after : s.take c turn = ⟨s.jobs.set turn.place (job, q), n⟩ := by
        simp only [take, up, stepped]
      have there : (s.take c turn).jobs[turn.place]? = some (job, q) := by
        rw [after, List.getElem?_set_self bound]
      have entries : ∀ e ∈ (s.take c turn).jobs, e = (job, q) ∨ e ∈ s.jobs := by
        rw [after]
        exact fun e member => (List.mem_or_eq_of_mem_set member).symm
      have cases :=
        @Job.advance_cases c job p q ⟨s.machine.files, turn.programs, s.machine.calls⟩ n
          ordinary stepped
      rcases cases with ⟨rfl, rfl, holds, plain⟩ | ⟨files, work, saving⟩
      · have code : s.savedIn c turn = some job.code := by rw [savedIn, up, there]
        constructor
        · refine Took.saved here code ?_ fun e member _ => entries e member
          rw [sketch, after]
          exact holds
        · rw [after]
          exact plain
      · have nothing : s.savedIn c turn = none := by
          rw [savedIn, up, there]
          split
          · rename_i first second
            cases first
            cases second
            cases saving rfl
          · rfl
        constructor
        · refine Took.other nothing ?_ ?_
          · rw [after]
            exact files
          · intro e member busy
            rcases entries e member with rfl | old
            · exact ⟨p, here, work busy⟩
            · exact ⟨e.2, old, busy⟩
        · rw [after, files]
          exact ordinary

/-! Any turns -/

/-- The sketch holds what was saved last, and no job is at work before one has saved. -/
structure Follows (c : ServiceConfig) (s : Bench) (last : Option String) : Prop where
  ordinary : s.machine.files.Ordinary
  holds : ∀ code, last = some code → s.sketch c = .ok code
  saved : ∀ e ∈ s.jobs, e.2.atWork → last.isSome

theorem Follows.take {s : Bench} {last : Option String} (follows : s.Follows c last) (turn : Turn) :
    (s.take c turn).Follows c ((s.savedIn c turn).or last) := by
  obtain ⟨took, ordinary⟩ := took c follows.ordinary turn
  cases took with
  | saved here code holds others =>
    rw [code, Option.some_or]
    constructor
    · exact ordinary
    · intro saved same
      rw [holds, Option.some.inj same]
    · intro e member work
      rfl
  | other nothing files before =>
    rw [nothing, Option.none_or]
    constructor
    · exact ordinary
    · intro saved same
      rw [sketch, files]
      exact follows.holds saved same
    · intro e member work
      obtain ⟨p, old, busy⟩ := before e member work
      exact follows.saved (e.1, p) old busy

theorem Follows.takeAll {s : Bench} {last : Option String} (follows : s.Follows c last)
    (turns : List Turn) : (s.takeAll c turns).Follows c ((lastSaved c s turns).or last) := by
  induction turns generalizing s last with
  | nil => exact follows
  | cons turn rest ih =>
    rw [lastSaved, Option.or_assoc]
    exact ih (follows.take turn)

theorem opened_idle (jobs : List Job) (m : Machine) : (opened jobs m).Idle := by
  intro e member
  obtain ⟨job, _, rfl⟩ := List.mem_map.mp member
  rfl

/-- Whenever the toolchain works for a job, it finds the code that was saved last. -/
theorem toolchain_finds_last_saved (c : ServiceConfig) (jobs : List Job) {m : Machine}
    (ordinary : m.files.Ordinary) (turns : List Turn) {job : Job} {p : Job.Progress}
    (member : (job, p) ∈ ((opened jobs m).takeAll c turns).jobs) (work : p.atWork) :
    ∃ code, lastSaved c (opened jobs m) turns = some code ∧
      ((opened jobs m).takeAll c turns).sketch c = .ok code := by
  have start : (opened jobs m).Follows c none := by
    constructor
    · exact ordinary
    · intro code same
      cases same
    · intro e member work
      rw [opened_idle jobs m e member] at work
      cases work
  have follows := start.takeAll turns
  rw [Option.or_none] at follows
  obtain ⟨code, saved⟩ := Option.isSome_iff_exists.mp (follows.saved _ member work)
  exact ⟨code, saved, follows.holds code saved⟩

/-! Turns without contest -/

/-- Every job that is at work finds its own code. -/
structure Undisturbed (c : ServiceConfig) (s : Bench) : Prop where
  ordinary : s.machine.files.Ordinary
  own : ∀ e ∈ s.jobs, e.2.atWork → s.sketch c = .ok e.1.code

theorem Undisturbed.take {s : Bench} (undisturbed : s.Undisturbed c) {turn : Turn}
    (alone : (s.savedIn c turn).isSome → s.Idle) : (s.take c turn).Undisturbed c := by
  obtain ⟨took, ordinary⟩ := took c undisturbed.ordinary turn
  refine ⟨ordinary, ?_⟩
  cases took with
  | @saved job here code holds others =>
    intro e member work
    rcases others e member work with rfl | old
    · exact holds
    · have idle : s.Idle := alone (by rw [code]; rfl)
      rw [idle e old] at work
      cases work
  | other nothing files before =>
    intro e member work
    obtain ⟨p, old, busy⟩ := before e member work
    rw [sketch, files]
    exact undisturbed.own (e.1, p) old busy

/-- If no job saves while another one is at work, the toolchain finds the job's own code whenever it
works for it. -/
theorem toolchain_finds_own_code (c : ServiceConfig) (jobs : List Job) {m : Machine}
    (ordinary : m.files.Ordinary) {turns : List Turn}
    (uncontested : Uncontested c (opened jobs m) turns) {job : Job} {p : Job.Progress}
    (member : (job, p) ∈ ((opened jobs m).takeAll c turns).jobs) (work : p.atWork) :
    ((opened jobs m).takeAll c turns).sketch c = .ok job.code := by
  have run : ∀ (turns : List Turn) (s : Bench), s.Undisturbed c → Uncontested c s turns →
      (s.takeAll c turns).Undisturbed c := by
    intro turns
    induction turns with
    | nil => exact fun s undisturbed _ => undisturbed
    | cons turn rest ih => exact fun s undisturbed alone => ih _ (undisturbed.take alone.1) alone.2
  have start : (opened jobs m).Undisturbed c := by
    refine ⟨ordinary, ?_⟩
    intro e member work
    rw [opened_idle jobs m e member] at work
    cases work
  exact (run turns _ start uncontested).own _ member work

def willing : String → List String → RunResult := fun _ _ => .exited (some 0) "" ""

def overtaken : Bench :=
  (opened [⟨"first", none⟩, ⟨"second", none⟩] ⟨.empty ["home"], willing, #[]⟩).takeAll .default
    [⟨0, willing⟩, ⟨1, willing⟩]

/-- With contest it may find the code of another job, and reports success on it. -/
theorem overtaken_job_compiles_foreign_code :
    (FileTree.empty ["home"]).Ordinary ∧
      overtaken.jobs.map (fun e => (e.1.code, e.2.atWork)) = [("first", true), ("second", true)] ∧
      (overtaken.sketch .default).toOption = some "second" ∧
      (overtaken.take .default ⟨0, willing⟩).jobs[0]?.bind (·.2.reply?) = some
        ("\x7b\"success\":true,\"stage\":\"Compile Complete\"," ++
          "\"message\":\"Compilation successful\",\"output\":\"\"," ++
          "\"file\":\"temp_sketch/temp_sketch.ino\"\x7d") := by
  refine ⟨FileTree.ordinary_empty _, ?_, ?_, ?_⟩ <;> decide +kernel

end Bench
end BlockSketch
