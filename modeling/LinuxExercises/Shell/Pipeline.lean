import Mathlib.Algebra.GroupWithZero.Nat
import Mathlib.Data.List.Basic
import LinuxExercises.Foundations.Descriptors

/-!
# Pipelines of the shell

`pipe_and_exec` runs in a child of the shell. It looks for the first `|` of its vector.
Without one it execs the vector. Otherwise it opens a pipe and forks: the parent moves the
write end to its standard output and execs what stands before the `|`, the child moves
the read end to its standard input and goes on with what stands behind it.

A vector is the list of its strings up to the NULL. Every program that is reached by
`execvp` is listed with its argument vector and its descriptor table, in the order of the
commands. The function can be reasoned about by one induction rule with a case for each
arm of its `switch` (`pipeAndExec_induction`).

A pipeline of `n` commands execs exactly these, each reads what its predecessor writes,
and the write end of a pipe is open in the process that writes to it and in no other
(`connected_pipeAndExec`).
-/

set_option autoImplicit false

namespace LinuxExercises.Shell

open Foundations

/-- An open file of a process: one that the shell was started with, one that a
redirection opened, or an end of a pipe. -/
inductive OpenFile where
  | inherited (n : Nat)
  | input (path : String)
  | output (path : String)
  | readEnd (pipe : Nat)
  | writeEnd (pipe : Nat)
deriving Repr, DecidableEq

/-- A program that `execvp` has started. -/
structure Program where
  argv : List String
  fds : Descriptors OpenFile
deriving DecidableEq

namespace Program

def stdin (p : Program) : Option OpenFile := p.fds.file 0

def stdout (p : Program) : Option OpenFile := p.fds.file 1

end Program

/-! ## The code -/

/-- The loop of `pipe_present` from an index on. Behind the last string the function ends
without a `return`; the value is the documented 0. -/
def findPipe (index : Nat) : List String → Int
  | [] => 0
  | arg :: rest =>
    if arg = "|" then
      if index = 0 then -1
      else if rest = [] then 0
      else index
    else findPipe (index + 1) rest

/-- `pipe_present`. -/
def pipePresent (argv : List String) : Int := if argv = [] then -1 else findPipe 0 argv

/-- The talking parent after `pipe`: the write end becomes its standard output. -/
def talkingParent (fds : Descriptors OpenFile) (id : Nat) : Descriptors OpenFile :=
  let (readFd, fds) := fds.allocate (.readEnd id)
  let (writeFd, fds) := fds.allocate (.writeEnd id)
  ((fds.close readFd).dup2 writeFd 1).close writeFd

/-- The listening child after `pipe`: the read end becomes its standard input, and stays
open at the descriptor that `pipe` returned. -/
def listeningChild (fds : Descriptors OpenFile) (id : Nat) : Descriptors OpenFile :=
  let (readFd, fds) := fds.allocate (.readEnd id)
  let (writeFd, fds) := fds.allocate (.writeEnd id)
  (fds.close writeFd).dup2 readFd 0

/-- `pipe_and_exec`: the programs that it starts, in this process and in the children it
forks. The pipes are numbered from `next` on. -/
def pipeAndExec (argv : List String) (fds : Descriptors OpenFile) (next : Nat) : List Program :=
  if missing : pipePresent argv = -1 then []
  else if pipePresent argv = 0 then [⟨argv, fds⟩]
  else
    ⟨argv.take (pipePresent argv).toNat, talkingParent fds next⟩ ::
      pipeAndExec (argv.drop ((pipePresent argv).toNat + 1)) (listeningChild fds next) (next + 1)
termination_by argv.length
decreasing_by
  have nonempty : argv ≠ [] := fun empty => missing (if_pos empty)
  have := List.length_pos_iff.mpr nonempty
  rw [List.length_drop]
  omega

/-! ## Where the vector is split -/

/-- The loop passes over strings that are no `|`. -/
theorem findPipe_append {left : List String} (absent : "|" ∉ left) (rest : List String)
    (index : Nat) : findPipe index (left ++ rest) = findPipe (index + left.length) rest := by
  induction left generalizing index with
  | nil => rfl
  | cons arg left ih =>
      rw [List.mem_cons, not_or] at absent
      rw [List.cons_append, findPipe, if_neg (Ne.symm absent.1), ih absent.2, List.length_cons,
        Nat.add_assoc, Nat.add_comm 1]

/-- A `|` between two parts is found at its index. -/
theorem pipePresent_between {left right : List String} (leftNe : left ≠ []) (rightNe : right ≠ [])
    (first : "|" ∉ left) : pipePresent (left ++ "|" :: right) = left.length := by
  have positive := List.length_pos_iff.mpr leftNe
  rw [pipePresent, if_neg (by simp), findPipe_append first, Nat.zero_add, findPipe, if_pos rfl,
    if_neg (by omega), if_neg rightNe]

/-- In a vector without `|`, none is found. -/
theorem pipePresent_absent {argv : List String} (nonempty : argv ≠ []) (absent : "|" ∉ argv) :
    pipePresent argv = 0 := by
  rw [pipePresent, if_neg nonempty, ← List.append_nil argv, findPipe_append absent, findPipe]

/-- The values of `pipe_present`. -/
theorem pipePresent_cases (argv : List String) :
    pipePresent argv = -1 ∨ (argv ≠ [] ∧ pipePresent argv = 0) ∨
      ∃ left right, argv = left ++ "|" :: right ∧ left ≠ [] ∧ right ≠ [] ∧
        pipePresent argv = left.length := by
  by_cases empty : argv = []
  · exact .inl (if_pos empty)
  by_cases bar : "|" ∈ argv
  · obtain ⟨left, right, split, first⟩ := List.eq_append_cons_of_mem bar
    subst split
    have found : pipePresent (left ++ "|" :: right) = findPipe left.length ("|" :: right) := by
      rw [pipePresent, if_neg empty, findPipe_append first, Nat.zero_add]
    by_cases leftNe : left = []
    · exact .inl (by rw [found, findPipe, if_pos rfl, if_pos (by rw [leftNe]; rfl)])
    by_cases rightNe : right = []
    · have positive := List.length_pos_iff.mpr leftNe
      refine .inr (.inl ⟨empty, ?_⟩)
      rw [found, findPipe, if_pos rfl, if_neg (by omega), if_pos rightNe]
    · exact .inr (.inr ⟨left, right, rfl, leftNe, rightNe,
        pipePresent_between leftNe rightNe first⟩)
  · exact .inr (.inl ⟨empty, pipePresent_absent empty bar⟩)

/-- No command next to a `|`: nothing is started. -/
theorem pipeAndExec_missing {argv : List String} (missing : pipePresent argv = -1)
    (fds : Descriptors OpenFile) (next : Nat) : pipeAndExec argv fds next = [] := by
  rw [pipeAndExec, dif_pos missing]

/-- No `|`: the whole vector is started in this process. -/
theorem pipeAndExec_single {argv : List String} (single : pipePresent argv = 0)
    (fds : Descriptors OpenFile) (next : Nat) :
    pipeAndExec argv fds next = [⟨argv, fds⟩] := by
  rw [pipeAndExec, dif_neg (by rw [single]; decide), if_pos single]

/-- A `|` between two parts: the left part is started in this process, the child goes on
with the right part. -/
theorem pipeAndExec_between {left right : List String} (leftNe : left ≠ [])
    (between : pipePresent (left ++ "|" :: right) = left.length)
    (fds : Descriptors OpenFile) (next : Nat) :
    pipeAndExec (left ++ "|" :: right) fds next =
      ⟨left, talkingParent fds next⟩ ::
        pipeAndExec right (listeningChild fds next) (next + 1) := by
  have positive := List.length_pos_iff.mpr leftNe
  have behind : (left ++ "|" :: right).drop (left.length + 1) = right := by
    rw [List.drop_append, List.drop_of_length_le (Nat.le_succ _), Nat.add_sub_cancel_left]
    rfl
  rw [pipeAndExec, dif_neg (by omega), if_neg (by omega), between, Int.toNat_natCast,
    List.take_left, behind]

/-- **The induction rule of `pipe_and_exec`**, with a case for each arm of its `switch`. -/
theorem pipeAndExec_induction
    {P : List String → Descriptors OpenFile → Nat → List Program → Prop}
    (missing : ∀ {argv fds next}, P argv fds next [])
    (single : ∀ {argv fds next}, argv ≠ [] → P argv fds next [⟨argv, fds⟩])
    (between : ∀ {left right fds next programs}, left ≠ [] → right ≠ [] →
      P right (listeningChild fds next) (next + 1) programs →
      P (left ++ "|" :: right) fds next (⟨left, talkingParent fds next⟩ :: programs))
    (argv : List String) (fds : Descriptors OpenFile) (next : Nat) :
    P argv fds next (pipeAndExec argv fds next) := by
  -- The child goes on with a shorter vector.
  induction length : argv.length using Nat.strongRecOn generalizing argv fds next with
  | ind _ ih =>
      rcases pipePresent_cases argv with none | ⟨nonempty, only⟩ |
        ⟨left, right, rfl, leftNe, rightNe, inside⟩
      · rw [pipeAndExec_missing none]
        exact missing
      · rw [pipeAndExec_single only]
        exact single nonempty
      · have shorter : right.length < (left ++ "|" :: right).length := by
          rw [List.length_append, List.length_cons]
          omega
        rw [pipeAndExec_between leftNe inside]
        exact between leftNe rightNe (ih right.length (length ▸ shorter) right _ _ rfl)

/-- Every `|` that splits the vector is dropped, so the programs get at most the other
strings. -/
theorem length_pipeAndExec (argv : List String) (fds : Descriptors OpenFile) (next : Nat) :
    ((pipeAndExec argv fds next).map fun p => p.argv.length).sum +
      (pipeAndExec argv fds next).length ≤ argv.length + 1 := by
  refine @pipeAndExec_induction (fun argv _ _ programs =>
    (programs.map fun p => p.argv.length).sum + programs.length ≤ argv.length + 1)
    ?missing ?single ?between argv fds next
  case missing =>
    intro argv _ _
    exact Nat.zero_le _
  case single =>
    intro argv _ _ _
    simp
  case between =>
    intro left right _ _ programs _ _ later
    simp only [List.map_cons, List.sum_cons, List.length_cons, List.length_append]
    omega

/-! ## Both sides of a fork -/

section Fork

variable {fds : Descriptors OpenFile}

/-- The write end of a new pipe is opened at a descriptor of its own. -/
theorem writeFd_spec (standard : fds.Standard) (id : Nat) :
    3 ≤ (fds.put fds.lowestFree (some (OpenFile.readEnd id))).lowestFree ∧
      (fds.put fds.lowestFree (some (OpenFile.readEnd id))).lowestFree ≠ fds.lowestFree ∧
      fds.file (fds.put fds.lowestFree (some (OpenFile.readEnd id))).lowestFree = none := by
  have isOpen : ((fds.put fds.lowestFree (some (OpenFile.readEnd id))).file
      fds.lowestFree).isSome := by
    rw [Descriptors.file_put_self]
    rfl
  have different := (Descriptors.ne_lowestFree isOpen).symm
  refine ⟨Descriptors.le_lowestFree (standard.put_some _ _), different, ?_⟩
  rw [← Descriptors.file_put_of_ne (some (OpenFile.readEnd id)) different]
  exact Descriptors.file_lowestFree _

/-- The talking parent differs from the process that forked in its standard output
alone. -/
theorem file_talkingParent (standard : fds.Standard) (id fd : Nat) :
    (talkingParent fds id).file fd =
      if fd = 1 then some (.writeEnd id) else fds.file fd := by
  have readFree := Descriptors.file_lowestFree fds
  have readAbove := Descriptors.le_lowestFree standard
  obtain ⟨writeAbove, different, writeFree⟩ := writeFd_spec standard id
  simp only [talkingParent, Descriptors.allocate, Descriptors.close, Descriptors.dup2]
  generalize (fds.put fds.lowestFree (some (OpenFile.readEnd id))).lowestFree = writeFd at *
  simp only [Descriptors.file_put]
  grind

/-- The listening child differs from the process that forked in its standard input and in
the descriptor of the read end. -/
theorem file_listeningChild (standard : fds.Standard) (id fd : Nat) :
    (listeningChild fds id).file fd =
      if fd = 0 ∨ fd = fds.lowestFree then some (.readEnd id) else fds.file fd := by
  have readFree := Descriptors.file_lowestFree fds
  have readAbove := Descriptors.le_lowestFree standard
  obtain ⟨writeAbove, different, writeFree⟩ := writeFd_spec standard id
  simp only [listeningChild, Descriptors.allocate, Descriptors.close, Descriptors.dup2]
  generalize (fds.put fds.lowestFree (some (OpenFile.readEnd id))).lowestFree = writeFd at *
  simp only [Descriptors.file_put]
  grind

theorem stdin_listeningChild (standard : fds.Standard) (id : Nat) :
    (listeningChild fds id).file 0 = some (.readEnd id) := by
  rw [file_listeningChild standard, if_pos (.inl rfl)]

theorem stdout_listeningChild (standard : fds.Standard) (id : Nat) :
    (listeningChild fds id).file 1 = fds.file 1 := by
  have above := Descriptors.le_lowestFree standard
  rw [file_listeningChild standard, if_neg (by omega)]

theorem standard_listeningChild (standard : fds.Standard) (id : Nat) :
    (listeningChild fds id).Standard := by
  intro fd small
  rw [file_listeningChild standard]
  split
  · rfl
  · exact standard fd small

end Fork

/-- The standard output of a program is that of the process that was given the vector, or
the end of a pipe. -/
theorem stdout_pipeAndExec {argv : List String} {fds : Descriptors OpenFile}
    (standard : fds.Standard) (next : Nat) :
    ∀ p ∈ pipeAndExec argv fds next,
      p.stdout = fds.file 1 ∨ ∃ id, p.stdout = some (.writeEnd id) := by
  refine @pipeAndExec_induction (fun _ fds _ programs => fds.Standard → ∀ p ∈ programs,
    p.stdout = fds.file 1 ∨ ∃ id, p.stdout = some (.writeEnd id))
    ?missing ?single ?between argv fds next standard
  case missing =>
    intro _ _ _ _ p member
    cases member
  case single =>
    intro argv fds _ _ _ p member
    rw [List.mem_singleton.mp member]
    exact .inl rfl
  case between =>
    intro left right fds next programs _ _ later standard p member
    rcases List.mem_cons.mp member with rfl | member
    · exact .inr ⟨next, file_talkingParent standard next 1⟩
    · rw [← stdout_listeningChild standard next]
      exact later (standard_listeningChild standard next) p member

/-! ## Pipelines -/

/-- A word of a command is none of the operators. -/
def Ordinary (word : String) : Prop := word ≠ "|" ∧ word ≠ "<" ∧ word ≠ ">"

instance (word : String) : Decidable (Ordinary word) := inferInstanceAs (Decidable (_ ∧ _))

/-- A command: a program and its arguments. -/
structure Command where
  words : List String
  words_ne : words ≠ []
  ordinary : ∀ w ∈ words, Ordinary w

/-- A process starts without any write end of a pipe. -/
def NoWriteEnd (fds : Descriptors OpenFile) : Prop :=
  ∀ fd id, fds.file fd ≠ some (.writeEnd id)

/-- The stages of a pipeline whose pipes are numbered from `next` on. -/
structure Stages (commands : List Command) (fds : Descriptors OpenFile) (next : Nat)
    (programs : List Program) : Prop where
  argv : programs.map Program.argv = commands.map Command.words
  stdin : ∀ {k p}, programs[k]? = some p →
    p.stdin = if k = 0 then fds.file 0 else some (.readEnd (next + k - 1))
  stdout : ∀ {k p}, programs[k]? = some p →
    p.stdout = if k + 1 < commands.length then some (.writeEnd (next + k)) else fds.file 1
  writeEnds : ∀ {k p fd id}, programs[k]? = some p →
    p.fds.file fd = some (.writeEnd id) → id = next + k

/-- One command: the process itself. -/
theorem stages_singleton (command : Command) {fds : Descriptors OpenFile}
    (clean : NoWriteEnd fds) (next : Nat) :
    Stages [command] fds next [⟨command.words, fds⟩] where
  argv := rfl
  stdin := by
    intro k p at_k
    cases k with
    | zero =>
        cases at_k
        rfl
    | succ k => cases at_k
  stdout := by
    intro k p at_k
    cases k with
    | zero =>
        cases at_k
        rfl
    | succ k => cases at_k
  writeEnds := by
    intro k p fd id at_k held
    cases k with
    | zero =>
        cases at_k
        exact absurd held (clean fd id)
    | succ k => cases at_k

/-- The listening child starts without any write end. -/
theorem noWriteEnd_listeningChild {fds : Descriptors OpenFile} (standard : fds.Standard)
    (clean : NoWriteEnd fds) (id : Nat) : NoWriteEnd (listeningChild fds id) := by
  intro fd other held
  rw [file_listeningChild standard] at held
  split at held
  · cases held
  · exact clean fd other held

/-- The only write end that the talking parent holds is that of the new pipe. -/
theorem writeEnd_talkingParent {fds : Descriptors OpenFile} (standard : fds.Standard)
    (clean : NoWriteEnd fds) {id other fd : Nat}
    (held : (talkingParent fds id).file fd = some (.writeEnd other)) : other = id := by
  rw [file_talkingParent standard] at held
  split at held
  · cases held
    rfl
  · exact absurd held (clean fd other)

/-- A command in front of a pipeline that runs in the listening child. -/
theorem stages_cons (command : Command) {commands : List Command} (nonempty : commands ≠ [])
    {fds : Descriptors OpenFile} (standard : fds.Standard) (clean : NoWriteEnd fds) {next : Nat}
    {programs : List Program}
    (later : Stages commands (listeningChild fds next) (next + 1) programs) :
    Stages (command :: commands) fds next
      (⟨command.words, talkingParent fds next⟩ :: programs) where
  argv := by rw [List.map_cons, List.map_cons, later.argv]
  stdin := by
    intro k p at_k
    cases k with
    | zero =>
        cases at_k
        exact file_talkingParent standard next 0
    | succ k =>
        rw [later.stdin at_k, stdin_listeningChild standard, if_neg (Nat.succ_ne_zero k)]
        split
        next first => rw [first]; rfl
        next => congr 2; omega
  stdout := by
    intro k p at_k
    cases k with
    | zero =>
        cases at_k
        have positive := List.length_pos_iff.mpr nonempty
        rw [List.length_cons, if_pos (by omega)]
        exact file_talkingParent standard next 1
    | succ k =>
        rw [later.stdout at_k, stdout_listeningChild standard, List.length_cons]
        simp only [Nat.succ_lt_succ_iff, Nat.add_assoc, Nat.add_comm 1]
  writeEnds := by
    intro k p fd id at_k held
    cases k with
    | zero =>
        cases at_k
        exact writeEnd_talkingParent standard clean held
    | succ k =>
        rw [later.writeEnds at_k held, Nat.add_assoc, Nat.add_comm 1]

/-- The vector of a pipeline. -/
def vector (commands : List Command) : List String :=
  ["|"].intercalate (commands.map Command.words)

theorem vector_singleton (command : Command) : vector [command] = command.words :=
  List.intercalate_singleton

theorem vector_ne {commands : List Command} (nonempty : commands ≠ []) :
    vector commands ≠ [] := by
  rcases commands with _ | ⟨command, _ | ⟨second, rest⟩⟩
  · exact absurd rfl nonempty
  · rw [vector_singleton]
    exact command.words_ne
  · intro empty
    rw [vector, List.map_cons, List.map_cons, List.intercalate_cons_cons] at empty
    simp at empty

theorem vector_cons (command second : Command) (rest : List Command) :
    vector (command :: second :: rest) = command.words ++ "|" :: vector (second :: rest) := by
  rw [vector, List.map_cons, List.map_cons, List.intercalate_cons_cons, List.append_assoc]
  rfl

theorem Command.bar_notMem (command : Command) : "|" ∉ command.words :=
  fun member => (command.ordinary _ member).1 rfl

/-- The vector of a pipeline is taken apart into its stages. -/
theorem stages_pipeAndExec {commands : List Command} (nonempty : commands ≠ [])
    {fds : Descriptors OpenFile} (standard : fds.Standard) (clean : NoWriteEnd fds)
    (next : Nat) : Stages commands fds next (pipeAndExec (vector commands) fds next) := by
  induction commands generalizing fds next with
  | nil => exact absurd rfl nonempty
  | cons command commands ih =>
      cases commands with
      | nil =>
          rw [vector_singleton,
            pipeAndExec_single (pipePresent_absent command.words_ne command.bar_notMem)]
          exact stages_singleton command clean next
      | cons second rest =>
          have more : second :: rest ≠ [] := List.cons_ne_nil _ _
          rw [vector_cons, pipeAndExec_between command.words_ne
            (pipePresent_between command.words_ne (vector_ne more) command.bar_notMem)]
          exact stages_cons command more standard clean
            (ih more (standard_listeningChild standard next)
              (noWriteEnd_listeningChild standard clean next) (next + 1))

/-- What the user of a pipeline relies on: the programs are the commands, each reads the
pipe that its predecessor writes, the ends of the pipeline are those of the process that
was given it, and the write end of a pipe is open in the process that writes to it
alone. -/
structure Connected (commands : List Command) (fds : Descriptors OpenFile)
    (programs : List Program) : Prop where
  argv : programs.map Program.argv = commands.map Command.words
  stdin : ∀ {p}, programs.head? = some p → p.stdin = fds.file 0
  stdout : ∀ {p}, programs.getLast? = some p → p.stdout = fds.file 1
  pipes : ∀ {k p q}, programs[k]? = some p → programs[k + 1]? = some q →
    ∃ id, p.stdout = some (.writeEnd id) ∧ q.stdin = some (.readEnd id) ∧
      ∀ {j r fd}, programs[j]? = some r → r.fds.file fd = some (.writeEnd id) → j = k

theorem Stages.connected {commands : List Command} {fds : Descriptors OpenFile} {next : Nat}
    {programs : List Program} (stages : Stages commands fds next programs) :
    Connected commands fds programs where
  argv := stages.argv
  stdin := by
    intro p first
    rw [List.head?_eq_getElem?] at first
    rw [stages.stdin first, if_pos rfl]
  stdout := by
    intro p last
    have length := congrArg List.length stages.argv
    rw [List.length_map, List.length_map] at length
    rw [List.getLast?_eq_getElem?] at last
    rw [stages.stdout last, if_neg (by omega)]
  pipes := by
    intro k p q at_k at_next
    have length := congrArg List.length stages.argv
    rw [List.length_map, List.length_map] at length
    have within := (List.getElem?_eq_some_iff.mp at_next).1
    refine ⟨next + k, ?_, ?_, ?_⟩
    · rw [stages.stdout at_k, if_pos (by omega)]
    · rw [stages.stdin at_next, if_neg (Nat.succ_ne_zero k), ← Nat.add_assoc,
        Nat.add_sub_cancel]
    · intro j r fd at_j held
      have same := stages.writeEnds at_j held
      omega

/-- **Pipelines.** In a process whose standard descriptors are open and that holds no end of
a pipe, a vector of commands with `|` between them starts exactly these commands, connected
as a pipeline. -/
theorem connected_pipeAndExec {commands : List Command} (nonempty : commands ≠ [])
    {fds : Descriptors OpenFile} (standard : fds.Standard)
    (noPipes : ∀ fd id, fds.file fd ≠ some (.readEnd id) ∧ fds.file fd ≠ some (.writeEnd id))
    (next : Nat) : Connected commands fds (pipeAndExec (vector commands) fds next) :=
  (stages_pipeAndExec nonempty standard (fun fd id => (noPipes fd id).2) next).connected

/-- The descriptors of a process that a terminal started. -/
def terminal : Descriptors OpenFile :=
  [some (.inherited 0), some (.inherited 1), some (.inherited 2)]

theorem standard_terminal : terminal.Standard := by
  intro fd small
  rcases fd with _ | _ | _ | fd
  · rfl
  · rfl
  · rfl
  · omega

theorem noPipes_terminal (fd id : Nat) :
    terminal.file fd ≠ some (.readEnd id) ∧ terminal.file fd ≠ some (.writeEnd id) := by
  rcases fd with _ | _ | _ | fd <;> simp [terminal, Descriptors.file]

/-- The command `a`. -/
def tinyCommand : Command where
  words := ["a"]
  words_ne := by decide
  ordinary := by decide

/-- The pipeline `a | a | a`. -/
theorem connected_pipeAndExec_tiny :
    Connected [tinyCommand, tinyCommand, tinyCommand] terminal
      (pipeAndExec (vector [tinyCommand, tinyCommand, tinyCommand]) terminal 0) :=
  connected_pipeAndExec (List.cons_ne_nil _ _) standard_terminal noPipes_terminal 0

end LinuxExercises.Shell
