import LinuxExercises.PingPong.System

/-!
# The diagram of the two processes

The header of `sig_suspend` shows what the two processes do: in each round the child sends and the
parent waits, then the parent sends and the child waits. `Alternates` says that it is so in every
run in which no call fails: the run ends, both processes have then done all rounds, the waits come
behind the sends that they are for, and the two processes are never both asleep.

The programs never get there. Without the braces the `exit` behind the check of the arguments is
always reached, and a run is that check alone (`run_of_noBraces`, `not_alternates`).
-/

set_option autoImplicit false

namespace LinuxExercises.PingPong

open Foundations
open Process (Role)

variable {program : Program} {argv : List (List Byte)}

/-! ## The diagram -/

/-- The process has left its loop behind `n` rounds. -/
def Process.Done (n : Int) (p : Process) : Prop :=
  (∃ status, p.point = .ended status) ∧ (p.sends : Int) = n ∧ (p.waits : Int) = n

/-- The process waits, and no signal is pending for it. -/
def Process.Asleep (p : Process) : Prop := p.point = .wait ∧ p.signal.pending = false

/-- The step is one of a call that succeeds. -/
def Action.Succeeds (a : Action) : Prop := a.fails = false

/-- A state that the two processes come to when no call fails. -/
def Reached (program : Program) (argv : List (List Byte)) (t : System) : Prop :=
  ∃ actions, (∀ a ∈ actions, Action.Succeeds a) ∧
    run (System.step program argv) System.start actions = some t

/-- The property of the diagram. -/
structure Alternates (program : Program) (argv : List (List Byte)) : Prop where
  /-- Every run ends. -/
  ends : ∃ bound, ∀ actions t, (∀ a ∈ actions, Action.Succeeds a) →
    run (System.step program argv) System.start actions = some t → actions.length ≤ bound
  /-- At the end of a run parent and child have done all rounds. -/
  completes : ∀ t, Reached program argv t →
    (∀ a, Action.Succeeds a → System.step program argv t a = none) →
    ∃ child, t.child = some child ∧ t.parent.Done (numSigs argv) ∧ child.Done (numSigs argv)
  /-- A wait comes back only behind the send that it is for. -/
  ordered : ∀ t child, Reached program argv t → t.child = some child →
    child.waits ≤ t.parent.sends ∧ t.parent.waits ≤ child.sends
  /-- The two processes are never both asleep. -/
  awake : ∀ t child, Reached program argv t → t.child = some child →
    ¬ (t.parent.Asleep ∧ child.Asleep)

/-! ## Without the braces -/

/-- The program has left `main` behind the check of its arguments. -/
def System.exited : System where
  parent := { System.start.parent with point := .ended .failure }
  child := none

theorem Program.check_of_noBraces (noBraces : program.braces = false) (failed : Bool)
    (next : Process) : program.check failed next = { next with point := .ended .failure } := by
  rw [Program.check, noBraces, Bool.not_false, Bool.or_true]
  exact if_pos rfl

theorem step_start_of_noBraces (noBraces : program.braces = false) (fails : Bool) :
    System.step program argv System.start ⟨.parent, fails⟩ = some System.exited :=
  congrArg (fun p => some (System.mk p none)) (Program.check_of_noBraces noBraces _ _)

theorem step_exited (a : Action) : System.step program argv System.exited a = none := by
  obtain ⟨_ | _, _⟩ := a <;> rfl

/-- **Main.** Whatever the arguments, a run of the programs as they stand is the check of the
arguments, and the parent ends with a failure. -/
theorem run_of_noBraces (noBraces : program.braces = false) {actions : List Action} {t : System}
    (ran : run (System.step program argv) System.start actions = some t) :
    (actions = [] ∧ t = System.start) ∨ (actions.length = 1 ∧ t = System.exited) := by
  cases actions with
  | nil =>
      rw [run_nil, Option.some.injEq] at ran
      exact .inl ⟨rfl, ran.symm⟩
  | cons a rest =>
      obtain ⟨middle, taken, ran⟩ := run_cons_cases ran
      obtain ⟨role, fails⟩ := a
      cases role with
      | child => cases taken
      | parent =>
          rw [step_start_of_noBraces noBraces, Option.some.injEq] at taken
          subst taken
          cases rest with
          | nil =>
              rw [run_nil, Option.some.injEq] at ran
              exact .inr ⟨rfl, ran.symm⟩
          | cons b later =>
              obtain ⟨next, impossible, _⟩ := run_cons_cases ran
              rw [step_exited] at impossible
              cases impossible

/-- There is no child in the last state. -/
theorem not_alternates_of_noBraces (noBraces : program.braces = false) :
    ¬ Alternates program argv := by
  intro holds
  have reached : Reached program argv System.exited :=
    ⟨[⟨.parent, false⟩], fun a member => List.mem_singleton.mp member ▸ rfl,
      run_step (step_start_of_noBraces noBraces false) (run_nil _ _)⟩
  obtain ⟨child, isChild, _⟩ := holds.completes _ reached fun a _ => step_exited a
  cases isChild

/-- **Main.** Neither program does the rounds of the diagram, whatever its arguments. -/
theorem not_alternates (argv : List (List Byte)) :
    ¬ Alternates sigSuspend argv ∧ ¬ Alternates sigWaitinfo argv :=
  ⟨not_alternates_of_noBraces rfl, not_alternates_of_noBraces rfl⟩

/-- Three rounds are asked for, and there are none. -/
theorem not_alternates_three :
    numSigs [literal "sig_suspend", literal "3"] = 3 ∧
      ¬ Alternates sigSuspend [literal "sig_suspend", literal "3"] ∧
      ¬ Alternates sigWaitinfo [literal "sig_waitinfo", literal "3"] :=
  ⟨by decide, not_alternates_of_noBraces rfl, not_alternates_of_noBraces rfl⟩

end LinuxExercises.PingPong
