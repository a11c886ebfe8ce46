import LinuxExercises.Shell.Pipeline

/-!
# The read ends of a pipeline

A write into a pipe fails when nobody has its read end open any more, and blocks when the
pipe is full and somebody has. So a pipeline stops behind a command that ends early when the
read end of each pipe is open in the process that reads it alone.

The listening child of `pipe_and_exec` moves the read end to its standard input and leaves it
open at the descriptor that `pipe` returned. It then goes on as the process that forks for
the rest of the vector, so every later command inherits it: the read end of a pipe is open in
all processes behind it (`readEnd_pipeAndExec_iff`). Only in a pipeline of two commands that
is one process (`consumersAlone_iff`).
-/

set_option autoImplicit false

namespace LinuxExercises.Shell

open Foundations

/-! ## What a producer relies on -/

/-- A write into a pipe fails: none of the processes has its read end. -/
def WriteFails (programs : List Program) (pipe : Nat) : Prop :=
  ∀ p ∈ programs, ∀ fd, p.fds.file fd ≠ some (.readEnd pipe)

/-- The read end of each pipe is open in the process that reads it and in no other, so that
when this process has ended, writes into the pipe fail. -/
def ConsumersAlone (programs : List Program) : Prop :=
  ∀ k p q, programs[k]? = some p → programs[k + 1]? = some q →
    ∃ pipe, p.stdout = some (.writeEnd pipe) ∧ q.stdin = some (.readEnd pipe) ∧
      (∀ j r fd, programs[j]? = some r → r.fds.file fd = some (.readEnd pipe) → j = k + 1) ∧
      WriteFails (programs.eraseIdx (k + 1)) pipe

/-! ## Where a read end is open -/

/-- What the programs of a vector inherit from the process that was given it, and the read
ends that they have. Pipes are numbered from `next` on. -/
structure Inherits (fds : Descriptors OpenFile) (next : Nat) (programs : List Program) : Prop where
  kept : ∀ {p fd f}, p ∈ programs → 2 ≤ fd → fds.file fd = some f → p.fds.file fd = some f
  only : ∀ {j p fd pipe}, programs[j]? = some p → p.fds.file fd = some (.readEnd pipe) →
    (∃ fd, fds.file fd = some (.readEnd pipe)) ∨ next ≤ pipe ∧ pipe < next + j
  held : ∀ {j p pipe}, programs[j]? = some p → next ≤ pipe → pipe < next + j →
    ∃ fd, p.fds.file fd = some (.readEnd pipe)

/-- A program in the process itself. -/
theorem inherits_single (argv : List String) (fds : Descriptors OpenFile) (next : Nat) :
    Inherits fds next [⟨argv, fds⟩] where
  kept := by
    intro p fd f member _ isOpen
    rw [List.mem_singleton.mp member]
    exact isOpen
  only := by
    intro j p fd pipe at_j held
    cases j with
    | zero =>
        cases at_j
        exact .inl ⟨fd, held⟩
    | succ j => cases at_j
  held := by
    intro j p pipe at_j lower upper
    cases j with
    | zero => omega
    | succ j => cases at_j

/-- A program in the talking parent, in front of those that the listening child starts. -/
theorem inherits_cons (argv : List String) {fds : Descriptors OpenFile} (standard : fds.Standard)
    {next : Nat} {programs : List Program}
    (later : Inherits (listeningChild fds next) (next + 1) programs) :
    Inherits fds next (⟨argv, talkingParent fds next⟩ :: programs) where
  kept := by
    intro p fd f member above isOpen
    rcases List.mem_cons.mp member with rfl | member
    · rw [file_talkingParent standard, if_neg (by omega)]
      exact isOpen
    · have used : fd ≠ fds.lowestFree := Descriptors.ne_lowestFree (by rw [isOpen]; rfl)
      apply later.kept member above
      rw [file_listeningChild standard, if_neg (by omega)]
      exact isOpen
  only := by
    intro j p fd pipe at_j held
    cases j with
    | zero =>
        cases at_j
        simp only [file_talkingParent standard] at held
        split at held
        · cases held
        · exact .inl ⟨fd, held⟩
    | succ j =>
        rcases later.only at_j held with ⟨fd, inherited⟩ | ⟨lower, upper⟩
        · rw [file_listeningChild standard] at inherited
          split at inherited
          · cases inherited
            exact .inr ⟨Nat.le_refl _, by omega⟩
          · exact .inl ⟨fd, inherited⟩
        · exact .inr ⟨by omega, by omega⟩
  held := by
    intro j p pipe at_j lower upper
    cases j with
    | zero => omega
    | succ j =>
        by_cases own : pipe = next
        · -- The child never closes the descriptor that `pipe` returned for the read end.
          subst own
          have above := Descriptors.le_lowestFree standard
          refine ⟨fds.lowestFree, later.kept (List.mem_of_getElem? at_j) (by omega) ?_⟩
          rw [file_listeningChild standard, if_pos (.inr rfl)]
        · exact later.held at_j (by omega) (by omega)

theorem inherits_pipeAndExec (argv : List String) {fds : Descriptors OpenFile}
    (standard : fds.Standard) (next : Nat) : Inherits fds next (pipeAndExec argv fds next) := by
  refine @pipeAndExec_induction (fun _ fds next programs => fds.Standard →
    Inherits fds next programs) ?missing ?single ?between argv fds next standard
  case missing =>
    intro _ fds next _
    constructor
    · intro p fd f member
      cases member
    · intro j p fd pipe at_j
      cases at_j
    · intro j p pipe at_j
      cases at_j
  case single =>
    intro argv fds next _ _
    exact inherits_single argv fds next
  case between =>
    intro left right fds next programs _ _ later standard
    exact inherits_cons left standard (later (standard_listeningChild standard next))

/-- **The read end of a pipe** is open in every process behind it, and in no other. -/
theorem readEnd_pipeAndExec_iff {argv : List String} {fds : Descriptors OpenFile}
    (standard : fds.Standard) (clean : ∀ fd pipe, fds.file fd ≠ some (.readEnd pipe))
    {next j : Nat} {p : Program} (at_j : (pipeAndExec argv fds next)[j]? = some p) (pipe : Nat) :
    (∃ fd, p.fds.file fd = some (.readEnd pipe)) ↔ next ≤ pipe ∧ pipe < next + j := by
  have inherits := inherits_pipeAndExec argv standard next
  constructor
  · rintro ⟨fd, held⟩
    refine (inherits.only at_j held).resolve_left ?_
    rintro ⟨fd, inherited⟩
    exact clean fd pipe inherited
  · rintro ⟨lower, upper⟩
    exact inherits.held at_j lower upper

/-! ## Pipelines of two commands -/

section Pipeline

variable {commands : List Command} {fds : Descriptors OpenFile}

theorem length_pipeAndExec_vector (nonempty : commands ≠ []) (standard : fds.Standard)
    (noPipes : ∀ fd id, fds.file fd ≠ some (.readEnd id) ∧ fds.file fd ≠ some (.writeEnd id))
    (next : Nat) : (pipeAndExec (vector commands) fds next).length = commands.length := by
  have stages := stages_pipeAndExec nonempty standard (fun fd id => (noPipes fd id).2) next
  have length := congrArg List.length stages.argv
  rwa [List.length_map, List.length_map] at length

/-- The third command has the read end of the first pipe. -/
theorem not_consumersAlone_of_three (three : 3 ≤ commands.length) (standard : fds.Standard)
    (noPipes : ∀ fd id, fds.file fd ≠ some (.readEnd id) ∧ fds.file fd ≠ some (.writeEnd id))
    (next : Nat) : ¬ ConsumersAlone (pipeAndExec (vector commands) fds next) := by
  intro alone
  have nonempty : commands ≠ [] := List.ne_nil_of_length_pos (by omega)
  have stages := stages_pipeAndExec nonempty standard (fun fd id => (noPipes fd id).2) next
  have length := length_pipeAndExec_vector nonempty standard noPipes next
  have at_k : ∀ k, k < 3 → ∃ p, (pipeAndExec (vector commands) fds next)[k]? = some p :=
    fun k below => ⟨_, List.getElem?_eq_getElem (by omega)⟩
  obtain ⟨first, at_0⟩ := at_k 0 (by omega)
  obtain ⟨second, at_1⟩ := at_k 1 (by omega)
  obtain ⟨third, at_2⟩ := at_k 2 (by omega)
  obtain ⟨pipe, stdout, -, only, -⟩ := alone 0 first second at_0 at_1
  have number : pipe = next := by
    rw [stages.stdout at_0, if_pos (by omega)] at stdout
    cases stdout
    exact Nat.add_zero next
  subst number
  obtain ⟨fd, held⟩ := (inherits_pipeAndExec (vector commands) standard pipe).held at_2
    (Nat.le_refl _) (by omega)
  cases only 2 third fd at_2 held

/-- **Consumers.** In a pipeline the read end of each pipe is open in the process that reads
it alone, so that a producer stops when its consumer has ended, exactly when the pipeline has
two commands. -/
theorem consumersAlone_iff (two : 2 ≤ commands.length) (standard : fds.Standard)
    (noPipes : ∀ fd id, fds.file fd ≠ some (.readEnd id) ∧ fds.file fd ≠ some (.writeEnd id))
    (next : Nat) :
    ConsumersAlone (pipeAndExec (vector commands) fds next) ↔ commands.length = 2 := by
  constructor
  · intro alone
    by_contra more
    exact not_consumersAlone_of_three (by omega) standard noPipes next alone
  · intro exactly k p q at_k at_next
    have nonempty : commands ≠ [] := List.ne_nil_of_length_pos (by omega)
    have stages := stages_pipeAndExec nonempty standard (fun fd id => (noPipes fd id).2) next
    have length := length_pipeAndExec_vector nonempty standard noPipes next
    have first : k = 0 := by
      have within := (List.getElem?_eq_some_iff.mp at_next).1
      omega
    subst first
    have only : ∀ j r fd, (pipeAndExec (vector commands) fds next)[j]? = some r →
        r.fds.file fd = some (.readEnd next) → j = 1 := by
      intro j r fd at_j held
      have behind := (readEnd_pipeAndExec_iff standard (fun fd id => (noPipes fd id).1) at_j
        next).mp ⟨fd, held⟩
      have within := (List.getElem?_eq_some_iff.mp at_j).1
      omega
    refine ⟨next, ?_, ?_, only, ?_⟩
    · rw [stages.stdout at_k, if_pos (by omega), Nat.add_zero]
    · rw [stages.stdin at_next, if_neg (Nat.succ_ne_zero 0)]
      rfl
    · intro r member fd held
      obtain ⟨j, elsewhere, at_j⟩ := List.mem_eraseIdx_iff_getElem?.mp member
      exact elsewhere (only j r fd at_j held)

end Pipeline

/-- The pipeline `a | a`. -/
theorem consumersAlone_iff_tiny :
    ConsumersAlone (pipeAndExec (vector [tinyCommand, tinyCommand]) terminal 0) ↔
      [tinyCommand, tinyCommand].length = 2 :=
  consumersAlone_iff (by decide) standard_terminal noPipes_terminal 0

/-- The pipeline `a | a | a`. -/
theorem not_consumersAlone :
    ¬ ConsumersAlone (pipeAndExec (vector [tinyCommand, tinyCommand, tinyCommand]) terminal 0) :=
  not_consumersAlone_of_three (by decide) standard_terminal noPipes_terminal 0

end LinuxExercises.Shell
