import LinuxExercises.Foundations.Runs
import LinuxExercises.Shell.Redirection

/-!
# Who waits for a pipeline

`run_command` forks one child and, without a `&`, waits for it before it returns to the
prompt. The child handles the redirections and calls `pipe_and_exec`, in which it becomes
the first command and forks the process that goes on with the others. So the pid that the
shell waits for is that of the first command, and nobody waits for the processes behind
it.

All processes have ended at the prompt, whatever the order in which they end, exactly for
the lines in which the child does not get to see a `|` with something behind it
(`waitsForAll_iff`). A pipeline without redirections is such a line when it is a single
command (`screened_iff_of_plain`).

The processes of a run execute the programs of `pipe_and_exec` (`programs_of_run`).
-/

set_option autoImplicit false

namespace LinuxExercises.Shell

open Foundations

/-! ## The code -/

/-- `is_background`: whether there is a `&`, and the vector with NULL in its place. -/
def isBackground (argv : List String) : Bool × List (Option String) :=
  (argv.contains "&", argv.map (fun arg => if arg = "&" then none else some arg) ++ [none])

/-- A process that the shell or another process of the pipeline has forked: at its
redirections, in `pipe_and_exec`, behind `execvp`, or no more. -/
inductive Process where
  | redirecting (child : Child)
  | piping (argv : List String) (fds : Descriptors OpenFile) (next : Nat)
  | command (program : Program)
  | ended
deriving DecidableEq

/-- The process up to its next call of `fork` or `execvp`, and what it forks. -/
def Process.advance (files : Files) : Process → Option (Process × List Process)
  | redirecting child =>
    let child := redirectBoth files child
    some (piping (visible child.argv) child.fds 0, [])
  | piping argv fds next =>
    if pipePresent argv = -1 then some (ended, [])
    else if pipePresent argv = 0 then some (command ⟨argv, fds⟩, [])
    else
      some (command ⟨argv.take (pipePresent argv).toNat, talkingParent fds next⟩,
        [piping (argv.drop ((pipePresent argv).toNat + 1)) (listeningChild fds next) (next + 1)])
  | command _ => none
  | ended => none

/-- Where `run_command` is. -/
inductive ShellPc where
  | fork
  | wait (pid : Nat)
  | returned
  | exited
deriving DecidableEq

/-- The shell and the processes of the pipeline. A pid is the place of the process in the
list, in the order in which they are forked. -/
structure Session where
  shell : ShellPc
  processes : List Process
deriving DecidableEq

namespace Session

/-- `run_command` is called. -/
def start : Session where
  shell := .fork
  processes := []

/-- The next call of `run_command`. -/
def stepShell (argv : List String) (fds : Descriptors OpenFile) (s : Session) : Option Session :=
  match s.shell with
  | .fork =>
      some {
        shell := if (isBackground argv).1 then .returned else .wait s.processes.length
        processes := s.processes ++ [.redirecting ⟨(isBackground argv).2, fds, []⟩] }
  | .wait pid =>
      if s.processes[pid]? = some .ended then some { s with shell := .returned } else none
  | .returned => none
  | .exited => none

end Session

/-- What happens next. The shell and the processes move on, the `fork` of the shell may
fail, and a process may end: its program does, a call fails, or a signal kills it. -/
inductive Action where
  | shell
  | failedFork
  | process (pid : Nat)
  | ends (pid : Nat)
deriving DecidableEq

/-- The step of an action, when it is enabled. -/
def step (files : Files) (argv : List String) (fds : Descriptors OpenFile) (s : Session) :
    Action → Option Session
  | .shell => s.stepShell argv fds
  | .failedFork => if s.shell = .fork then some { s with shell := .exited } else none
  | .process pid =>
      (s.processes[pid]?.bind (Process.advance files)).map fun (p, forked) =>
        { s with processes := s.processes.set pid p ++ forked }
  | .ends pid =>
      (s.processes[pid]?.filter (· ≠ .ended)).map fun _ =>
        { s with processes := s.processes.set pid .ended }

/-- Back at the prompt, all processes of the pipeline have ended. -/
def Session.Finished (s : Session) : Prop :=
  s.shell = .returned → ∀ p ∈ s.processes, p = .ended

/-- The shell waits for all processes, in whatever order they move and end. -/
def WaitsForAll (files : Files) (argv : List String) (fds : Descriptors OpenFile) : Prop :=
  ∀ actions s, run (step files argv fds) .start actions = some s → s.Finished

/-! ## What the processes execute -/

/-- The programs that a process and those it has still to fork execute. -/
def Process.programs (files : Files) : Process → List Program
  | redirecting child =>
    let child := redirectBoth files child
    pipeAndExec (visible child.argv) child.fds 0
  | piping argv fds next => pipeAndExec argv fds next
  | command program => [program]
  | ended => []

/-- A process hands a part of its programs to the process it forks. -/
theorem Process.programs_advance {files : Files} {p q : Process} {forked : List Process}
    (moved : p.advance files = some (q, forked)) :
    p.programs files = q.programs files ++ forked.flatMap (Process.programs files) := by
  cases p with
  | redirecting child =>
      cases moved
      exact (List.append_nil _).symm
  | piping argv fds next =>
      rw [advance] at moved
      rw [programs, pipeAndExec]
      split at moved
      next missing =>
        cases moved
        rw [dif_pos missing]
        rfl
      next present =>
        rw [dif_neg present]
        split at moved
        next single =>
          cases moved
          rw [if_pos single]
          rfl
        next between =>
          cases moved
          rw [if_neg between]
          simp only [programs, List.flatMap_cons, List.flatMap_nil, List.append_nil,
            List.cons_append, List.nil_append]
  | command program => cases moved
  | ended => cases moved

/-- Replacing one process and appending others changes the programs accordingly. -/
theorem perm_programs_set {files : Files} {processes forked : List Process} {pid : Nat}
    {p q : Process} (found : processes[pid]? = some p)
    (same : p.programs files = q.programs files ++ forked.flatMap (Process.programs files)) :
    ((processes.set pid q ++ forked).flatMap (Process.programs files)).Perm
      (processes.flatMap (Process.programs files)) := by
  obtain ⟨within, rfl⟩ := List.getElem?_eq_some_iff.mp found
  have split : processes = processes.take pid ++ processes[pid] :: processes.drop (pid + 1) := by
    rw [List.getElem_cons_drop, List.take_append_drop]
  conv_rhs => rw [split]
  rw [List.set_eq_take_append_cons_drop, if_pos within]
  simp only [List.flatMap_append, List.flatMap_cons, same, List.append_assoc]
  exact (List.perm_append_comm.append_left _).append_left _

/-- The action is none that cuts a process short. -/
def Action.Succeeds : Action → Prop
  | .failedFork => False
  | .ends _ => False
  | _ => True

/-- What the shell has forked executes the programs that `pipe_and_exec` starts for what
the redirections leave of the vector. -/
structure Planned (files : Files) (argv : List String) (fds : Descriptors OpenFile)
    (s : Session) : Prop where
  fresh : s.shell = .fork → s.processes = []
  programs : s.shell ≠ .fork → (s.processes.flatMap (Process.programs files)).Perm
    (Process.programs files (.redirecting ⟨(isBackground argv).2, fds, []⟩))

section Programs

variable {files : Files} {argv : List String} {fds : Descriptors OpenFile}

theorem planned_start : Planned files argv fds .start where
  fresh := fun _ => rfl
  programs := fun forked => absurd rfl forked

theorem Planned.step {s t : Session} {a : Action} (succeeds : a.Succeeds)
    (planned : Planned files argv fds s) (taken : step files argv fds s a = some t) :
    Planned files argv fds t := by
  cases a with
  | shell =>
      rw [Shell.step, Session.stepShell] at taken
      split at taken
      next pc =>
        cases taken
        refine ⟨fun same => ?_, fun _ => ?_⟩
        · dsimp only at same
          split at same <;> cases same
        · rw [planned.fresh pc]
          exact .of_eq (List.append_nil _)
      next pid pc =>
        split at taken
        · cases taken
          exact ⟨nofun, fun _ => planned.programs (by rw [pc]; nofun)⟩
        · cases taken
      next => cases taken
      next => cases taken
  | failedFork => exact succeeds.elim
  | process pid =>
      obtain ⟨⟨q, forked⟩, moved, rfl⟩ := Option.map_eq_some_iff.mp taken
      obtain ⟨p, found, moved⟩ := Option.bind_eq_some_iff.mp moved
      have same := perm_programs_set found (Process.programs_advance moved)
      refine ⟨fun pc => ?_, fun pc => same.trans (planned.programs pc)⟩
      rw [planned.fresh pc] at found
      cases found
  | ends pid => exact succeeds.elim

/-- **The processes and `pipe_and_exec`.** When no call fails and no process ends early, the
processes that the shell has forked execute, in some order, the programs that
`pipe_and_exec` starts for what the redirections leave of the vector. -/
theorem programs_of_run {actions : List Action} {s : Session}
    (succeeds : ∀ a ∈ actions, a.Succeeds)
    (ran : run (step files argv fds) .start actions = some s) (forked : s.shell ≠ .fork) :
    (s.processes.flatMap (Process.programs files)).Perm
      (Process.programs files (.redirecting ⟨(isBackground argv).2, fds, []⟩)) :=
  (run_invariant_of (fun allowed holds taken => Planned.step allowed holds taken) succeeds
    planned_start ran).programs forked

end Programs

/-! ## Whom the shell waits for -/

theorem isBackground_of_notMem {argv : List String} (foreground : "&" ∉ argv) :
    isBackground argv = (false, argv.map some ++ [none]) := by
  refine Prod.ext (List.contains_iff_mem.not.mpr foreground |> eq_false_of_ne_true) ?_
  refine congrArg (· ++ [none]) (List.map_congr_left fun arg member => if_neg ?_)
  rintro rfl
  exact foreground member

/-- What the child of the shell passes to `pipe_and_exec`. -/
def received (files : Files) (argv : List String) (fds : Descriptors OpenFile) : List String :=
  visible (redirectBoth files ⟨argv.map some ++ [none], fds, []⟩).argv

section Waiting

variable {files : Files} {argv : List String} {fds : Descriptors OpenFile}

/-- A process that does not fork. -/
def Process.Alone (files : Files) : Process → Prop
  | redirecting child => pipePresent (visible (redirectBoth files child).argv) ≤ 0
  | piping argv _ _ => pipePresent argv ≤ 0
  | command _ => True
  | ended => True

theorem Process.Alone.advance {p q : Process} {forked : List Process} (alone : p.Alone files)
    (moved : p.advance files = some (q, forked)) : q.Alone files ∧ forked = [] := by
  cases p with
  | redirecting child =>
      cases moved
      exact ⟨alone, rfl⟩
  | piping argv fds next =>
      rw [Process.advance] at moved
      split at moved
      · cases moved
        exact ⟨trivial, rfl⟩
      next present =>
        split at moved
        · cases moved
          exact ⟨trivial, rfl⟩
        next between =>
          rcases pipePresent_cases argv with none | ⟨-, single⟩ | ⟨left, right, -, -, -, inside⟩
          · exact absurd none present
          · exact absurd single between
          · have : pipePresent argv ≤ 0 := alone
            omega
  | command program => cases moved
  | ended => cases moved

/-- The invariant for a child that does not fork. -/
structure Single (files : Files) (s : Session) : Prop where
  fresh : s.shell = .fork → s.processes = []
  one : s.processes.length ≤ 1
  alone : ∀ p ∈ s.processes, p.Alone files
  waits : ∀ pid, s.shell = .wait pid → pid = 0
  finished : s.Finished

theorem single_start : Single files .start where
  fresh := fun _ => rfl
  one := Nat.zero_le _
  alone := fun _ member => (List.not_mem_nil member).elim
  waits := nofun
  finished := nofun

/-- A process of the list is replaced, and none is added. -/
theorem Single.set {s : Session} (single : Single files s) {pid : Nat} {p q : Process}
    (found : s.processes[pid]? = some p) (alone : q.Alone files) (stays : p = .ended → q = .ended) :
    Single files { s with processes := s.processes.set pid q } where
  fresh := by
    intro pc
    rw [single.fresh pc] at found
    cases found
  one := (List.length_set ..).trans_le single.one
  alone := by
    intro r member
    rcases List.mem_or_eq_of_mem_set member with same | rfl
    · exact single.alone r same
    · exact alone
  waits := single.waits
  finished := by
    intro pc r member
    rcases List.mem_or_eq_of_mem_set member with same | rfl
    · exact single.finished pc r same
    · exact stays (single.finished pc p (List.mem_of_getElem? found))

theorem Single.step (foreground : "&" ∉ argv) (first : pipePresent (received files argv fds) ≤ 0)
    {s t : Session} {a : Action} (single : Single files s)
    (taken : step files argv fds s a = some t) : Single files t := by
  cases a with
  | shell =>
      rw [Shell.step, Session.stepShell, isBackground_of_notMem foreground] at taken
      split at taken
      next pc =>
        cases taken
        rw [single.fresh pc]
        refine ⟨nofun, le_rfl, ?_, ?_, nofun⟩
        · intro p member
          rw [List.mem_singleton.mp member]
          exact first
        · intro pid same
          cases same
          rfl
      next pid pc =>
        split at taken
        next ended =>
          cases taken
          refine ⟨nofun, single.one, single.alone, nofun, ?_⟩
          -- The process that the shell has waited for is the only one.
          intro _ p member
          obtain ⟨other, within, rfl⟩ := List.mem_iff_getElem.mp member
          have last : other < 1 := within.trans_le single.one
          obtain rfl : other = pid := (Nat.lt_one_iff.mp last).trans (single.waits pid pc).symm
          exact Option.some.inj ((List.getElem?_eq_getElem within).symm.trans ended)
        · cases taken
      next => cases taken
      next => cases taken
  | failedFork =>
      rw [Shell.step] at taken
      split at taken
      · cases taken
        exact ⟨nofun, single.one, single.alone, nofun, nofun⟩
      · cases taken
  | process pid =>
      obtain ⟨⟨q, forked⟩, moved, rfl⟩ := Option.map_eq_some_iff.mp taken
      obtain ⟨p, found, moved⟩ := Option.bind_eq_some_iff.mp moved
      obtain ⟨alone, rfl⟩ := (single.alone p (List.mem_of_getElem? found)).advance moved
      dsimp only
      rw [List.append_nil]
      refine single.set found alone ?_
      rintro rfl
      cases moved
  | ends pid =>
      obtain ⟨p, running, rfl⟩ := Option.map_eq_some_iff.mp taken
      exact single.set (Option.filter_eq_some_iff.mp running).1 trivial fun _ => rfl

/-- A child that forks and ends leaves its own child behind. -/
theorem not_waitsForAll (foreground : "&" ∉ argv)
    (first : 0 < pipePresent (received files argv fds)) : ¬ WaitsForAll files argv fds := by
  intro waits
  have forks : step files argv fds .start .shell =
      some ⟨.wait 0, [.redirecting ⟨argv.map some ++ [none], fds, []⟩]⟩ := by
    rw [step, Session.stepShell, isBackground_of_notMem foreground]
    rfl
  have redirects : step files argv fds
      ⟨.wait 0, [.redirecting ⟨argv.map some ++ [none], fds, []⟩]⟩ (.process 0) =
        some ⟨.wait 0, [.piping (received files argv fds)
          (redirectBoth files ⟨argv.map some ++ [none], fds, []⟩).fds 0]⟩ := rfl
  generalize received files argv fds = words at first redirects
  generalize (redirectBoth files ⟨argv.map some ++ [none], fds, []⟩).fds = table at redirects
  have pipes : step files argv fds ⟨.wait 0, [.piping words table 0]⟩ (.process 0) =
      some ⟨.wait 0, [.command ⟨words.take (pipePresent words).toNat, talkingParent table 0⟩,
        .piping (words.drop ((pipePresent words).toNat + 1)) (listeningChild table 0) 1]⟩ := by
    rw [step, List.getElem?_cons_zero, Option.bind_some, Process.advance, if_neg (by omega),
      if_neg (by omega)]
    rfl
  have left : run (step files argv fds) .start
      [.shell, .process 0, .process 0, .ends 0, .shell] =
        some ⟨.returned, [.ended, .piping (words.drop ((pipePresent words).toNat + 1))
          (listeningChild table 0) 1]⟩ :=
    run_step forks (run_step redirects (run_step pipes rfl))
  have ended := waits _ _ left rfl _ (List.mem_cons_of_mem _ (List.mem_singleton_self _))
  cases ended

/-- The shell waits for all processes exactly when its child does not fork. -/
theorem waitsForAll_iff_received (foreground : "&" ∉ argv) :
    WaitsForAll files argv fds ↔ pipePresent (received files argv fds) ≤ 0 := by
  constructor
  · intro waits
    by_contra first
    exact not_waitsForAll foreground (Int.not_le.mp first) waits
  · intro first actions s ran
    exact (run_invariant (fun single taken => Single.step foreground first single taken)
      single_start ran).finished

end Waiting

/-! ## What the redirections leave of a line -/

/-- A pipeline of commands, with redirections anywhere in it. -/
structure Pipeline (line : List Lexeme) : Prop where
  proper : ∀ l ∈ line, l.Proper
  commands_ne : ∀ c ∈ commands line, c ≠ []

/-- A redirection behind `before` takes effect when it is the first of its kind and its file
can be opened. -/
def Lexeme.TakesEffect (files : Files) (before : List Lexeme) : Lexeme → Prop
  | input path => files.readable path = true ∧ ∀ other, input other ∉ before
  | output path => files.writable path = true ∧ ∀ other, output other ∉ before
  | _ => False

/-- Each `|` of the line has a redirection that takes effect somewhere before it or directly
behind it. -/
def Screened (files : Files) (line : List Lexeme) : Prop :=
  ∀ before after, line = before ++ .bar :: after →
    ∃ earlier l later, line = earlier ++ l :: later ∧ l.TakesEffect files earlier ∧
      earlier.length ≤ before.length + 1

theorem tokens_cons (l : Lexeme) (line : List Lexeme) :
    tokens (l :: line) = l.tokens ++ tokens line := List.flatMap_cons

/-- There is one way to split a list at the first element with a property. -/
theorem split_unique {α : Type*} {P : α → Prop} {before before' after after' : List α} {x y : α}
    (same : before ++ x :: after = before' ++ y :: after') (holds : P x) (holds' : P y)
    (none : ∀ a ∈ before, ¬ P a) (none' : ∀ a ∈ before', ¬ P a) : before = before' ∧ x = y := by
  classical
  have taken : ∀ {front rest : List α} {z : α}, P z → (∀ a ∈ front, ¬ P a) →
      (front ++ z :: rest).takeWhile (fun a => decide (¬ P a)) = front := by
    intro front rest z isFirst noneFront
    rw [List.takeWhile_append_of_pos fun a member => decide_eq_true (noneFront a member),
      List.takeWhile_cons_of_neg (by simpa using isFirst), List.append_nil]
  have front : before = before' :=
    (taken holds none).symm.trans ((congrArg _ same).trans (taken holds' none'))
  subst front
  exact ⟨rfl, (List.cons.inj (List.append_cancel_left same)).1⟩

/-- The redirections that a pass looks for. -/
structure Redirection.Reads (r : Redirection) (redirection : String → Lexeme) : Prop where
  tokens : ∀ path, (redirection path).tokens = [r.operator, path]
  other : ∀ {l : Lexeme}, l.Proper → (∀ path, l ≠ redirection path) → r.operator ∉ l.tokens
  injective : Function.Injective redirection

theorem Files.reads_input (files : Files) : files.input.Reads .input where
  tokens := fun _ => rfl
  other := by
    intro l proper different member
    change "<" ∈ _ at member
    cases l with
    | word w => exact proper.2.1 (List.mem_singleton.mp member).symm
    | bar => exact absurd member (by decide)
    | input path => exact different path rfl
    | output path =>
        rcases List.mem_cons.mp member with same | member
        · exact absurd same (by decide)
        · exact proper.2.1 (List.mem_singleton.mp member).symm
  injective := fun _ _ => Lexeme.input.inj

theorem Files.reads_output (files : Files) : files.output.Reads .output where
  tokens := fun _ => rfl
  other := by
    intro l proper different member
    change ">" ∈ _ at member
    cases l with
    | word w => exact proper.2.2 (List.mem_singleton.mp member).symm
    | bar => exact absurd member (by decide)
    | input path =>
        rcases List.mem_cons.mp member with same | member
        · exact absurd same (by decide)
        · exact proper.2.2 (List.mem_singleton.mp member).symm
    | output path => exact different path rfl
  injective := fun _ _ => Lexeme.output.inj

/-- With a file that cannot be opened, a pass changes nothing. -/
theorem Redirection.pass_refused (r : Redirection) {left : List String}
    (absent : r.operator ∉ left) {path : String} (refused : r.canOpen path = false)
    (tail : List (Option String)) (fds : Descriptors OpenFile) (opened : List OpenFile) :
    (r.pass ⟨left.map some ++ some r.operator :: some path :: tail, fds, opened⟩).2 =
      ⟨left.map some ++ some r.operator :: some path :: tail, fds, opened⟩ := by
  rw [pass_snd, scan_append r absent, scan, if_pos rfl]
  simp only [apply, refused, Bool.false_eq_true, if_false]

/-- The part of a line in front of the first redirection of a pass, if its file can be
opened, and else the line. -/
structure Redirection.Cut (r : Redirection) (redirection : String → Lexeme)
    (line seen : List Lexeme) : Prop where
  stops : seen = line ∨ ∃ path after, line = seen ++ redirection path :: after ∧
    r.canOpen path = true ∧ ∀ other, redirection other ∉ seen
  first : ∀ {earlier path later}, line = earlier ++ redirection path :: later →
    r.canOpen path = true → (∀ other, redirection other ∉ earlier) →
    seen.length ≤ earlier.length

theorem Redirection.Cut.isPrefix {r : Redirection} {redirection : String → Lexeme}
    {line seen : List Lexeme} (cut : r.Cut redirection line seen) : seen <+: line := by
  rcases cut.stops with rfl | ⟨path, after, rfl, -⟩
  · exact List.prefix_rfl
  · exact List.prefix_append ..

/-- A pass cuts the vector of a line. -/
theorem Redirection.Reads.pass {r : Redirection} {redirection : String → Lexeme}
    (reads : r.Reads redirection) {line : List Lexeme} (proper : ∀ l ∈ line, l.Proper)
    (tail : List (Option String)) (fds : Descriptors OpenFile) (opened : List OpenFile) :
    ∃ seen tail' fds' opened', r.Cut redirection line seen ∧
      (r.pass ⟨(Shell.tokens line).map some ++ none :: tail, fds, opened⟩).2 =
        ⟨(Shell.tokens seen).map some ++ none :: tail', fds', opened'⟩ := by
  classical
  have absent : ∀ {part : List Lexeme}, (∀ l ∈ part, l ∈ line) →
      (∀ path, redirection path ∉ part) → r.operator ∉ Shell.tokens part := by
    intro part inside none member
    obtain ⟨l, inPart, inTokens⟩ := List.mem_flatMap.mp member
    exact reads.other (proper l (inside l inPart)) (fun path same => none path (same ▸ inPart))
      inTokens
  cases found : line.find? fun l => decide (∃ path, l = redirection path) with
  | none =>
      rw [List.find?_eq_none] at found
      have none : ∀ path, redirection path ∉ line := fun path member =>
        found _ member (decide_eq_true ⟨path, rfl⟩)
      refine ⟨line, tail, fds, opened, ⟨.inl rfl, ?_⟩,
        r.pass_absent (absent (fun _ member => member) none) _ _ _⟩
      rintro earlier path later rfl
      exact absurd (by simp) (none path)
  | some l =>
      obtain ⟨isFirst, before, after, split, noneBefore⟩ := List.find?_eq_some_iff_append.mp found
      obtain ⟨path, rfl⟩ := of_decide_eq_true isFirst
      have none : ∀ other, redirection other ∉ before := by
        intro other member
        have := noneBefore _ member
        rw [Bool.not_eq_true', decide_eq_false_iff_not] at this
        exact this ⟨other, rfl⟩
      -- Whatever is the first redirection of its kind is this one.
      have unique : ∀ {earlier other later}, line = earlier ++ redirection other :: later →
          (∀ path, redirection path ∉ earlier) → other = path ∧ earlier.length = before.length := by
        intro earlier other later same noneEarlier
        have notAny : ∀ {part : List Lexeme}, (∀ other, redirection other ∉ part) →
            ∀ l ∈ part, ¬ ∃ other, l = redirection other := by
          rintro part nonePart _ member ⟨other, rfl⟩
          exact nonePart other member
        obtain ⟨front, isSame⟩ := split_unique (same.symm.trans split) ⟨other, rfl⟩ ⟨path, rfl⟩
          (notAny noneEarlier) (notAny none)
        exact ⟨reads.injective isSame, congrArg List.length front⟩
      have vector : (Shell.tokens line).map some ++ Option.none :: tail =
          (Shell.tokens before).map some ++ some r.operator :: some path ::
            ((Shell.tokens after).map some ++ Option.none :: tail) := by
        rw [split, tokens_append, tokens_cons, reads.tokens]
        simp only [List.map_append, List.map_cons, List.append_assoc, List.cons_append,
          List.nil_append]
      have noOperator : r.operator ∉ Shell.tokens before :=
        absent (fun l member => split ▸ List.mem_append_left _ member) none
      rw [vector]
      cases canOpen : r.canOpen path with
      | true =>
          refine ⟨before, _, _, _, ⟨.inr ⟨path, after, split, canOpen, none⟩, ?_⟩,
            r.pass_present noOperator canOpen _ _ _⟩
          intro earlier other later same _ noneEarlier
          exact (unique same noneEarlier).2.ge
      | false =>
          refine ⟨line, tail, fds, opened, ⟨.inl rfl, ?_⟩, ?_⟩
          · intro earlier other later same opens noneEarlier
            rw [(unique same noneEarlier).1, canOpen] at opens
            cases opens
          · rw [vector]
            exact r.pass_refused noOperator canOpen _ _ _

/-- The part of a line in front of the first redirection that takes effect. -/
structure Seen (files : Files) (line seen : List Lexeme) : Prop where
  stops : seen = line ∨ ∃ l later, line = seen ++ l :: later ∧ l.TakesEffect files seen
  first : ∀ {earlier l later}, line = earlier ++ l :: later → l.TakesEffect files earlier →
    seen.length ≤ earlier.length

theorem Seen.isPrefix {files : Files} {line seen : List Lexeme} (isSeen : Seen files line seen) :
    seen <+: line := by
  rcases isSeen.stops with rfl | ⟨l, later, rfl, -⟩
  · exact List.prefix_rfl
  · exact List.prefix_append ..

/-- A part that both passes leave. -/
theorem seen_of_cuts {files : Files} {line middle seen : List Lexeme}
    (input : files.input.Cut .input line middle) (output : files.output.Cut .output middle seen) :
    Seen files line seen where
  stops := by
    obtain ⟨rest, split⟩ := input.isPrefix
    rcases output.stops with rfl | ⟨path, after, rfl, writable, none⟩
    · rcases input.stops with same | ⟨path, after, split, readable, none⟩
      · exact .inl same
      · exact .inr ⟨_, after, split, readable, none⟩
    · refine .inr ⟨.output path, after ++ rest, ?_, writable, none⟩
      rw [← split, List.append_assoc, List.cons_append]
  first := by
    intro earlier l later split effect
    have shorter := output.isPrefix.length_le
    cases l with
    | word w => exact effect.elim
    | bar => exact effect.elim
    | input path => exact shorter.trans (input.first split effect.1 effect.2)
    | output path =>
        by_contra inside
        have isPrefix : earlier ++ [.output path] <+: middle := by
          refine List.prefix_of_prefix_length_le ⟨later, ?_⟩ input.isPrefix ?_
          · rw [split, List.append_assoc, List.singleton_append]
          · rw [List.length_append, List.length_singleton]
            omega
        obtain ⟨rest, again⟩ := isPrefix
        rw [List.append_assoc, List.singleton_append] at again
        exact inside (output.first again.symm effect.1 effect.2)

/-- What the child passes to `pipe_and_exec`: the line in front of the first redirection
that takes effect. -/
theorem exists_seen {files : Files} {line : List Lexeme} (proper : ∀ l ∈ line, l.Proper)
    (fds : Descriptors OpenFile) :
    ∃ seen, Seen files line seen ∧ received files (tokens line) fds = tokens seen := by
  obtain ⟨middle, tail, fds', opened, input, passed⟩ := files.reads_input.pass proper [] fds []
  obtain ⟨seen, tail', fds'', opened', output, passed'⟩ :=
    files.reads_output.pass (fun l member => proper l (input.isPrefix.subset member))
      tail fds' opened
  refine ⟨seen, seen_of_cuts input output, ?_⟩
  rw [received, redirectBoth, redirectIn, passed, redirectOut, passed', visible_append]

/-! ## Pipes in what is left -/

section Pipes

variable {line before after : List Lexeme}

theorem commands_append_bar :
    commands (before ++ .bar :: after) = commands before ++ commands after := by
  have plain_bar : plain (.bar :: after) = "|" :: plain after := rfl
  rw [commands, plain_append, plain_bar, List.splitOn_append_cons_self]
  rfl

/-- Something stands on both sides of each `|` of a pipeline. -/
theorem Pipeline.sides (pipeline : Pipeline (before ++ .bar :: after)) :
    before ≠ [] ∧ after ≠ [] := by
  have commands_ne := pipeline.commands_ne
  rw [commands_append_bar] at commands_ne
  constructor
  · rintro rfl
    exact commands_ne [] (List.mem_append_left _ (List.mem_singleton_self _)) rfl
  · rintro rfl
    exact commands_ne [] (List.mem_append_right _ (List.mem_singleton_self _)) rfl

theorem Lexeme.eq_bar {l : Lexeme} (proper : l.Proper) (member : "|" ∈ l.tokens) : l = .bar := by
  cases l with
  | word w => exact absurd (List.mem_singleton.mp member).symm proper.1
  | bar => rfl
  | input path =>
      rcases List.mem_cons.mp member with same | member
      · exact absurd same (by decide)
      · exact absurd (List.mem_singleton.mp member).symm proper.1
  | output path =>
      rcases List.mem_cons.mp member with same | member
      · exact absurd same (by decide)
      · exact absurd (List.mem_singleton.mp member).symm proper.1

/-- A string `|` stands for a `|` of the line. -/
theorem exists_bar {left right : List String} (proper : ∀ l ∈ line, l.Proper)
    (split : tokens line = left ++ "|" :: right) :
    ∃ before after, line = before ++ .bar :: after ∧ tokens before = left ∧
      tokens after = right := by
  induction line generalizing left with
  | nil => exact absurd split (by simp [tokens])
  | cons l line ih =>
      rw [List.forall_mem_cons] at proper
      rw [tokens_cons, List.append_eq_append_iff] at split
      have later : ∀ {rest}, left = l.tokens ++ rest → tokens line = rest ++ "|" :: right →
          ∃ before after, l :: line = before ++ .bar :: after ∧ tokens before = left ∧
            tokens after = right := by
        intro rest isLeft isRest
        obtain ⟨before, after, rfl, rfl, same⟩ := ih proper.2 isRest
        exact ⟨l :: before, after, rfl, (tokens_cons ..).trans isLeft.symm, same⟩
      rcases split with ⟨rest, isLeft, isRest⟩ | ⟨front, isTokens, isFront⟩
      · exact later isLeft isRest
      · rcases front with _ | ⟨arg, front⟩
        · rw [List.append_nil] at isTokens
          exact later (isTokens.symm.trans (List.append_nil _).symm) isFront.symm
        · obtain ⟨rfl, isRight⟩ := List.cons.inj isFront
          obtain rfl := Lexeme.eq_bar proper.1 (isTokens ▸ List.mem_append_right _
            (List.mem_cons_self ..))
          obtain ⟨rfl, same⟩ := (List.append_eq_singleton_iff.mp isTokens.symm).resolve_right
            (by simp)
          rw [(List.cons.inj same).2] at isRight
          exact ⟨[], line, rfl, rfl, isRight.symm⟩

theorem bar_notMem_tokens (proper : ∀ l ∈ line, l.Proper) (absent : .bar ∉ line) :
    "|" ∉ tokens line := by
  intro member
  obtain ⟨l, inLine, inTokens⟩ := List.mem_flatMap.mp member
  exact absent (Lexeme.eq_bar (proper l inLine) inTokens ▸ inLine)

theorem tokens_ne_nil (nonempty : line ≠ []) : tokens line ≠ [] := by
  cases line with
  | nil => exact absurd rfl nonempty
  | cons l line =>
      rw [tokens_cons]
      cases l <;> exact List.cons_ne_nil _ _

/-- `pipe_present` finds no `|` in the middle of a line when each is its last part. -/
theorem pipePresent_tokens_iff (proper : ∀ l ∈ line, l.Proper)
    (begins : ∀ after, line ≠ .bar :: after) :
    pipePresent (tokens line) ≤ 0 ↔
      ∀ before after, line = before ++ .bar :: after → after = [] := by
  constructor
  · intro absent before after split
    by_contra more
    obtain ⟨front, rest, isFirst, none⟩ := List.eq_append_cons_of_mem
      (split ▸ List.mem_append_right before (List.mem_cons_self ..) : .bar ∈ line)
    have frontNe : front ≠ [] := by
      rintro rfl
      exact begins rest isFirst
    have restNe : rest ≠ [] := by
      rintro rfl
      obtain ⟨middle, last, rfl⟩ := (List.eq_nil_or_concat' after).resolve_left more
      have same : before ++ .bar :: middle ++ [last] = front ++ [.bar] := by
        rw [List.append_assoc, List.cons_append, ← split, isFirst]
      have isFront := List.append_inj_left' same rfl
      exact none (isFront ▸ List.mem_append_right _ (List.mem_cons_self ..))
    rw [isFirst, List.forall_mem_append] at proper
    have found := pipePresent_between (tokens_ne_nil frontNe) (tokens_ne_nil restNe)
      (bar_notMem_tokens proper.1 none)
    rw [isFirst, tokens_append, tokens_cons, Lexeme.tokens, List.singleton_append, found] at absent
    have positive := List.length_pos_iff.mpr (tokens_ne_nil frontNe)
    omega
  · intro last
    rcases pipePresent_cases (tokens line) with none | ⟨-, single⟩ |
      ⟨left, right, split, -, rightNe, -⟩
    · rw [none]
      decide
    · exact Int.le_of_eq single
    · obtain ⟨before, after, rfl, rfl, rfl⟩ := exists_bar proper split
      rw [last before after rfl] at rightNe
      exact absurd rfl rightNe

end Pipes

/-- In what is left of a pipeline, each `|` is the last part exactly when the pipeline is
screened. -/
theorem Seen.screened_iff {files : Files} {line seen : List Lexeme} (isSeen : Seen files line seen)
    (pipeline : Pipeline line) :
    (∀ before after, seen = before ++ .bar :: after → after = []) ↔ Screened files line := by
  obtain ⟨rest, split⟩ := isSeen.isPrefix
  constructor
  · intro last before after isLine
    subst isLine
    have short : seen.length ≤ before.length + 1 := by
      by_contra long
      have isPrefix : before ++ [.bar] <+: seen := by
        refine List.prefix_of_prefix_length_le ⟨after, ?_⟩
          isSeen.isPrefix ?_
        · rw [List.append_assoc, List.singleton_append]
        · rw [List.length_append, List.length_singleton]
          omega
      obtain ⟨more, same⟩ := isPrefix
      rw [List.append_assoc, List.singleton_append] at same
      rw [← same, last before more same.symm, List.length_append] at long
      exact long le_rfl
    rcases isSeen.stops with whole | ⟨l, later, isLine, effect⟩
    · rw [whole] at last
      exact absurd (last before after rfl) pipeline.sides.2
    · exact ⟨seen, l, later, isLine, effect, short⟩
  · intro screened before after isLine
    obtain ⟨earlier, l, later, again, effect, near⟩ := screened before (after ++ rest) (by
      rw [← split, isLine, List.append_assoc, List.cons_append])
    have short := (isSeen.first again effect).trans near
    rw [isLine, List.length_append, List.length_cons] at short
    exact List.eq_nil_of_length_eq_zero (by omega)

/-- Without redirections, a screened pipeline is a single command. -/
theorem screened_iff_of_plain {files : Files} {line : List Lexeme} (pipeline : Pipeline line)
    (simple : ∀ l ∈ line, l.isPlain = true) :
    Screened files line ↔ (commands line).length = 1 := by
  constructor
  · intro screened
    have absent : .bar ∉ line := by
      intro member
      obtain ⟨before, after, split⟩ := List.append_of_mem member
      obtain ⟨earlier, l, later, isLine, effect, -⟩ := screened before after split
      have isPlain := simple l (isLine ▸ List.mem_append_right _ (List.mem_cons_self ..))
      cases l with
      | word w => exact effect
      | bar => exact effect
      | input path => cases isPlain
      | output path => cases isPlain
    have noBar : "|" ∉ plain line := by
      intro member
      obtain ⟨l, inLine, isPlain⟩ := List.mem_filterMap.mp member
      have proper := pipeline.proper l inLine
      cases l with
      | word w => exact proper.1 (Option.some.inj isPlain)
      | bar => exact absent inLine
      | input path => cases isPlain
      | output path => cases isPlain
    rw [commands, List.splitOn_eq_singleton noBar]
    rfl
  · intro one before after split
    rw [split, commands_append_bar, List.length_append] at one
    have first := List.length_pos_iff.mpr (List.splitOn_ne_nil "|" (plain before))
    have second := List.length_pos_iff.mpr (List.splitOn_ne_nil "|" (plain after))
    rw [commands, commands] at one
    omega

/-- **Who is waited for.** When `run_command` returns to the prompt in the foreground, all
processes of the pipeline have ended, in whatever order they do, exactly when each `|` of
the line has a redirection that takes effect before it or directly behind it. -/
theorem waitsForAll_iff {line : List Lexeme} (pipeline : Pipeline line)
    (foreground : "&" ∉ tokens line) (files : Files) (fds : Descriptors OpenFile) :
    WaitsForAll files (tokens line) fds ↔ Screened files line := by
  obtain ⟨seen, isSeen, received⟩ := @exists_seen files line pipeline.proper fds
  have begins : ∀ after, seen ≠ .bar :: after := by
    rintro after rfl
    obtain ⟨rest, split⟩ := isSeen.isPrefix
    subst split
    exact (@Pipeline.sides [] (after ++ rest) pipeline).1 rfl
  have proper : ∀ l ∈ seen, l.Proper := fun l member =>
    pipeline.proper l (isSeen.isPrefix.subset member)
  rw [waitsForAll_iff_received foreground, received, pipePresent_tokens_iff proper begins]
  exact isSeen.screened_iff pipeline

/-- The line `a < in | b`. Where the file `in` can be opened, its `|` is screened. -/
def screenedLine : List Lexeme := [.word "a", .input "in", .bar, .word "b"]

theorem pipeline_screenedLine : Pipeline screenedLine := ⟨by decide, by decide⟩

theorem waitsForAll_iff_screenedLine :
    WaitsForAll allFiles (tokens screenedLine) terminal ↔ Screened allFiles screenedLine :=
  waitsForAll_iff pipeline_screenedLine (by decide) allFiles terminal

/-- The line `a | b`. -/
def pairLine : List Lexeme := [.word "a", .bar, .word "b"]

/-- The first command of `a | b` ends, and the shell returns to the prompt while the process
of the second has still to start its program. -/
theorem abandoned_pair :
    Pipeline pairLine ∧ "&" ∉ tokens pairLine ∧
      ∃ actions s, run (step allFiles (tokens pairLine) terminal) .start actions = some s ∧
        ¬ s.Finished := by
  have reaches : (run (step allFiles (tokens pairLine) terminal) .start
      [.shell, .process 0, .process 0, .ends 0, .shell]).map
        (fun s => (s.shell, s.processes.map (decide <| · = .ended))) =
          some (.returned, [true, false]) := by
    decide +kernel
  obtain ⟨s, ran, same⟩ := Option.map_eq_some_iff.mp reaches
  obtain ⟨returned, ended⟩ := Prod.mk.inj same
  refine ⟨⟨by decide, by decide⟩, by decide, _, s, ran, fun finished => ?_⟩
  have all := finished returned
  have none : false ∉ s.processes.map (decide <| · = .ended) := by
    intro member
    obtain ⟨p, inside, notEnded⟩ := List.mem_map.mp member
    exact of_decide_eq_false notEnded (all p inside)
  rw [ended] at none
  exact none (by decide)

end LinuxExercises.Shell
