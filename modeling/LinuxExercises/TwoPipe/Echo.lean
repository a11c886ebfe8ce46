import LinuxExercises.TwoPipe.System

/-!
# The echo, and how it ends

While both processes run, every byte of the input is in exactly one place: printed, in a
buffer, in a pipe or not yet read, and these places are in order (`Echoed`). So what is
printed is at every moment the start of the input in upper case (`echoes_of_run`).

The exchange cannot end. At the end of the input the parent reads nothing, writes nothing to
the first pipe, which leaves no trace in it, and waits for the second one. The child waits
for the first one, whose write end the parent never closes. Whatever has happened, as long
as no call has failed, the two get to that state, with the whole input echoed
(`stuck_of_run`).
-/

set_option autoImplicit false

namespace LinuxExercises.TwoPipe

open Foundations

/-- The bytes that the parent is about to write to the first pipe. -/
@[simp] def ParentPc.unsent : ParentPc → List Byte
  | .writePipe buf => buf
  | _ => []

/-- The bytes that it is about to print. -/
@[simp] def ParentPc.unprinted : ParentPc → List Byte
  | .writeOutput buf => buf
  | _ => []

/-- The bytes that the child is about to write to the second pipe. -/
@[simp] def ChildPc.unsent : ChildPc → List Byte
  | .writePipe buf => buf
  | _ => []

namespace State

/-- What has come back from the child. -/
def arrived (s : State) : List Byte := s.output ++ s.parent.unprinted ++ s.pd2

/-- What is on its way to the child, or has not been read. -/
def outgoing (s : State) : List Byte := s.pd1 ++ s.parent.unsent ++ s.input

/-- How many bytes the parent can still get back without a byte of its own. -/
def inFlight (s : State) : Nat := s.pd1.length + s.child.unsent.length + s.pd2.length

end State

/-- Where the bytes of the input are. Behind the end of the child those in its hands are lost,
and behind the end of the parent nothing is printed any more. -/
structure Echoed (input : List Byte) (s : State) : Prop where
  printed : s.Echoes input
  arrived : s.parent ≠ .exited → s.arrived <+: input.map toupper
  underWay : s.parent ≠ .exited → s.child ≠ .exited →
    s.arrived ++ s.child.unsent ++ s.outgoing.map toupper = input.map toupper

variable {input : List Byte} {s t : State} {a : Action}

/-! ## What a call moves -/

/-- A call of the parent moves no byte past another one. -/
theorem moves_of_stepParent {n : Nat} (stepped : s.stepParent n = some t) :
    s.parent ≠ .exited ∧ (t = s.parentExit ∨ t.child = s.child ∧ t.arrived = s.arrived ∧
      t.outgoing = s.outgoing) := by
  rw [State.stepParent] at stepped
  split at stepped
  · rename_i pc
    cases stepped
    exact ⟨by simp [pc], .inr ⟨rfl, by simp [State.arrived, pc],
      by simp [State.outgoing, pc]⟩⟩
  · rename_i pc
    cases stepped
    exact ⟨by simp [pc], .inr ⟨rfl, by simp [State.arrived, pc],
      by simp [State.outgoing, pc]⟩⟩
  · rename_i pc
    obtain ⟨⟨buf, rest⟩, returned, stepped⟩ := Option.map_eq_some_iff.mp stepped
    cases stepped
    have split := (read_eq_some returned).1
    exact ⟨by simp [pc], .inr ⟨rfl, by simp [State.arrived, pc],
      by simp [State.outgoing, pc, split]⟩⟩
  · rename_i buf pc
    split at stepped
    · cases stepped
      exact ⟨by simp [pc], .inr ⟨rfl, by simp [State.arrived, pc],
        by simp [State.outgoing, pc]⟩⟩
    · cases stepped
      exact ⟨by simp [pc], .inl rfl⟩
  · rename_i pc
    obtain ⟨⟨buf, rest⟩, returned, stepped⟩ := Option.map_eq_some_iff.mp stepped
    cases stepped
    have split := (read_eq_some returned).1
    exact ⟨by simp [pc], .inr ⟨rfl, by simp [State.arrived, pc, split],
      by simp [State.outgoing, pc]⟩⟩
  · rename_i buf pc
    cases stepped
    exact ⟨by simp [pc], .inr ⟨rfl, by simp [State.arrived, pc],
      by simp [State.outgoing, pc]⟩⟩
  · cases stepped

/-- Neither does a call of the child, which puts the bytes that it reads in upper case. -/
theorem moves_of_stepChild {n : Nat} (stepped : s.stepChild n = some t) :
    s.child ≠ .exited ∧ (t = s.childExit ∨ t.parent = s.parent ∧ t.output = s.output ∧
      t.arrived ++ t.child.unsent ++ t.outgoing.map toupper =
        s.arrived ++ s.child.unsent ++ s.outgoing.map toupper) := by
  rw [State.stepChild] at stepped
  split at stepped
  · rename_i pc
    cases stepped
    exact ⟨by simp [pc], .inr ⟨rfl, rfl,
      by simp [State.arrived, State.outgoing, pc]⟩⟩
  · rename_i pc
    cases stepped
    exact ⟨by simp [pc], .inr ⟨rfl, rfl,
      by simp [State.arrived, State.outgoing, pc]⟩⟩
  · rename_i pc
    obtain ⟨⟨buf, rest⟩, returned, stepped⟩ := Option.map_eq_some_iff.mp stepped
    cases stepped
    have split := (read_eq_some returned).1
    exact ⟨by simp [pc], .inr ⟨rfl, rfl,
      by simp [State.arrived, State.outgoing, pc, split]⟩⟩
  · rename_i buf pc
    split at stepped
    · cases stepped
      exact ⟨by simp [pc], .inr ⟨rfl, rfl,
        by simp [State.arrived, State.outgoing, pc]⟩⟩
    · cases stepped
      exact ⟨by simp [pc], .inl rfl⟩
  · cases stepped

/-! ## The echo -/

theorem echoed_start (input : List Byte) : Echoed input (.start input) where
  printed := List.nil_prefix
  arrived := fun _ => List.nil_prefix
  underWay := fun _ _ => rfl

namespace Echoed

/-- The parent has ended. -/
theorem of_parentExit (echoed : Echoed input s) : Echoed input s.parentExit where
  printed := echoed.printed
  arrived := fun running => absurd rfl running
  underWay := fun running => absurd rfl running

/-- The child has ended. -/
theorem of_childExit (echoed : Echoed input s) : Echoed input s.childExit where
  printed := echoed.printed
  arrived := echoed.arrived
  underWay := fun _ running => absurd rfl running

/-- What has been printed has come back. -/
theorem of_arrived (arrived : s.arrived <+: input.map toupper)
    (underWay : s.child ≠ .exited →
      s.arrived ++ s.child.unsent ++ s.outgoing.map toupper = input.map toupper) :
    Echoed input s where
  printed := by
    refine List.IsPrefix.trans ?_ arrived
    rw [State.arrived, List.append_assoc]
    exact List.prefix_append ..
  arrived := fun _ => arrived
  underWay := fun _ => underWay

theorem of_stepParent (echoed : Echoed input s) {n : Nat} (stepped : s.stepParent n = some t) :
    Echoed input t := by
  obtain ⟨running, rfl | ⟨child, arrived, outgoing⟩⟩ := moves_of_stepParent stepped
  · exact echoed.of_parentExit
  · apply of_arrived
    · rw [arrived]
      exact echoed.arrived running
    · rw [child, arrived, outgoing]
      exact echoed.underWay running

theorem of_stepChild (echoed : Echoed input s) {n : Nat} (stepped : s.stepChild n = some t) :
    Echoed input t := by
  obtain ⟨running, rfl | ⟨parent, output, same⟩⟩ := moves_of_stepChild stepped
  · exact echoed.of_childExit
  · by_cases gone : s.parent = .exited
    · refine ⟨?_, ?_, ?_⟩
      · rw [State.Echoes, output]
        exact echoed.printed
      · exact fun here => absurd (parent.trans gone) here
      · exact fun here => absurd (parent.trans gone) here
    · have whole := echoed.underWay gone running
      rw [← same] at whole
      refine of_arrived ?_ fun _ => whole
      rw [← whole, List.append_assoc]
      exact List.prefix_append ..

/-- **Every step** keeps the bytes in order. -/
theorem of_step (echoed : Echoed input s) (taken : step s a = some t) : Echoed input t := by
  cases a with
  | parent n => exact echoed.of_stepParent taken
  | child n => exact echoed.of_stepChild taken
  | parentFails =>
      simp only [step] at taken
      split at taken
      · cases taken
      · cases taken
        exact echoed.of_parentExit
  | childFails =>
      simp only [step] at taken
      split at taken
      · cases taken
      · cases taken
        exact echoed.of_childExit

end Echoed

/-- **The echo.** At every moment of every run what is printed is the start of the input in
upper case. -/
theorem echoes_of_run {actions : List Action} (ran : run step (.start input) actions = some s) :
    s.Echoes input :=
  Echoed.printed (run_invariant (fun echoed taken => Echoed.of_step echoed taken)
    (echoed_start input) ran)

/-! ## The end of the exchange -/

/-- No call has failed. While the parent waits for the child there is something on the way to
it, unless the input is at its end. -/
structure Going (s : State) : Prop where
  parent : s.parent ≠ .exited
  child : s.child ≠ .exited
  write1 : s.parentEnds.write1 = true
  read2 : s.parentEnds.read2 = true
  read1 : s.childEnds.read1 = true
  write2 : s.childEnds.write2 = true
  unsent : ∀ buf, s.parent = .writePipe buf → buf ≠ [] ∨ s.input = []
  waiting : s.parent = .readPipe → 0 < s.inFlight ∨ s.input = []
  unprinted : s.parent ≠ .writeOutput []

theorem going_start (input : List Byte) : Going (.start input) where
  parent := by simp [State.start]
  child := by simp [State.start]
  write1 := rfl
  read2 := rfl
  read1 := rfl
  write2 := rfl
  unsent := by simp [State.start]
  waiting := by simp [State.start]
  unprinted := by simp [State.start]

namespace Going

theorem of_stepParent (going : Going s) {n : Nat} (stepped : s.stepParent n = some t) :
    Going t := by
  rw [State.stepParent] at stepped
  split at stepped
  · cases stepped
    exact ⟨by simp, going.child, going.write1, going.read2, going.read1, going.write2, by simp,
      by simp, by simp⟩
  · cases stepped
    exact ⟨by simp, going.child, going.write1, going.read2, going.read1, going.write2, by simp,
      by simp, by simp⟩
  · obtain ⟨⟨buf, rest⟩, returned, stepped⟩ := Option.map_eq_some_iff.mp stepped
    cases stepped
    obtain ⟨split, ended⟩ := read_eq_some returned
    refine ⟨by simp, going.child, going.write1, going.read2, going.read1, going.write2, ?_,
      by simp, by simp⟩
    intro buf' same
    cases same
    by_cases nothing : buf = []
    · rw [(ended nothing).1, nothing] at split
      exact .inr split.symm
    · exact .inl nothing
  · rename_i buf pc
    rw [if_pos (.inr (by simp [State.readers1, going.read1]))] at stepped
    cases stepped
    refine ⟨by simp, going.child, going.write1, going.read2, going.read1, going.write2, by simp,
      ?_, by simp⟩
    intro _
    rcases going.unsent buf pc with nonempty | ended
    · have positive := List.length_pos_iff.mpr nonempty
      refine .inl ?_
      simp only [State.inFlight, List.length_append]
      omega
    · exact .inr ended
  · obtain ⟨⟨buf, rest⟩, returned, stepped⟩ := Option.map_eq_some_iff.mp stepped
    cases stepped
    refine ⟨by simp, going.child, going.write1, going.read2, going.read1, going.write2, by simp,
      by simp, ?_⟩
    intro nothing
    have ended := (read_eq_some returned).2 (by simpa using nothing)
    simp [State.writers2, going.write2] at ended
  · cases stepped
    exact ⟨by simp, going.child, going.write1, going.read2, going.read1, going.write2, by simp,
      by simp, by simp⟩
  · cases stepped

theorem of_stepChild (going : Going s) {n : Nat} (stepped : s.stepChild n = some t) :
    Going t := by
  rw [State.stepChild] at stepped
  split at stepped
  · rename_i pc
    cases stepped
    refine ⟨going.parent, by simp, going.write1, going.read2, going.read1, going.write2,
      going.unsent, ?_, going.unprinted⟩
    simpa only [State.inFlight, pc, ChildPc.unsent] using going.waiting
  · rename_i pc
    cases stepped
    refine ⟨going.parent, by simp, going.write1, going.read2, going.read1, going.write2,
      going.unsent, ?_, going.unprinted⟩
    simpa only [State.inFlight, pc, ChildPc.unsent] using going.waiting
  · rename_i pc
    obtain ⟨⟨buf, rest⟩, returned, stepped⟩ := Option.map_eq_some_iff.mp stepped
    cases stepped
    have split := (read_eq_some returned).1
    refine ⟨going.parent, by simp, going.write1, going.read2, going.read1, going.write2,
      going.unsent, fun waits => (going.waiting waits).imp_left ?_, going.unprinted⟩
    simp only [State.inFlight, pc, ChildPc.unsent, split, List.length_append, List.length_map,
      List.length_nil]
    omega
  · rename_i buf pc
    rw [if_pos (.inr (by simp [State.readers2, going.read2]))] at stepped
    cases stepped
    refine ⟨going.parent, by simp, going.write1, going.read2, going.read1, going.write2,
      going.unsent, fun waits => (going.waiting waits).imp_left ?_, going.unprinted⟩
    simp only [State.inFlight, pc, ChildPc.unsent, List.length_append, List.length_nil]
    omega
  · cases stepped

theorem of_step (going : Going s) (succeeds : a.Succeeds) (taken : step s a = some t) :
    Going t := by
  cases a with
  | parent n => exact going.of_stepParent taken
  | child n => exact going.of_stepChild taken
  | parentFails => exact absurd succeeds id
  | childFails => exact absurd succeeds id

end Going

/-- How far the parent is from its next wait for the child. -/
@[simp] def ParentPc.rank : ParentPc → Nat
  | .closeRead1 => 5
  | .closeWrite2 => 4
  | .readInput => 3
  | .writePipe _ => 2
  | .readPipe => 1
  | _ => 0

@[simp] def ChildPc.rank : ChildPc → Nat
  | .closeWrite1 => 3
  | .closeRead2 => 2
  | .writePipe _ => 1
  | _ => 0

/-- What is left to do. A byte counts the more the further it has to go. -/
def State.left (s : State) : Nat :=
  30 * s.input.length + 25 * s.parent.unsent.length + 20 * s.pd1.length +
    15 * s.child.unsent.length + 10 * s.pd2.length + 5 * s.parent.unprinted.length +
      s.parent.rank + s.child.rank

/-- The child goes on unless it waits for the parent. -/
theorem Going.childProgress (going : Going s) (busy : s.child = .readPipe → s.pd1 ≠ []) :
    ∃ n t, s.stepChild n = some t ∧ t.left < s.left := by
  cases pc : s.child with
  | closeWrite1 =>
      refine ⟨0, _, by rw [State.stepChild, pc], ?_⟩
      simp [State.left, pc]
  | closeRead2 =>
      refine ⟨0, _, by rw [State.stepChild, pc], ?_⟩
      simp [State.left, pc]
  | readPipe =>
      obtain ⟨b, rest, there⟩ := List.exists_cons_of_ne_nil (busy pc)
      refine ⟨1, _, by rw [State.stepChild, pc, there, read_cons, Option.map_some], ?_⟩
      simp only [State.left, pc, there, ChildPc.unsent, ChildPc.rank, List.length_cons,
        List.length_nil, List.length_map]
      omega
  | writePipe buf =>
      have readers : s.readers2 = true := by simp [State.readers2, going.read2]
      refine ⟨0, _, by rw [State.stepChild, pc]; exact if_pos (.inr readers), ?_⟩
      simp only [State.left, pc, ChildPc.unsent, ChildPc.rank, List.length_append,
        List.length_nil]
      omega
  | exited => exact absurd pc going.child

/-- So does the parent. -/
theorem Going.parentProgress (going : Going s) (busy : s.parent = .readPipe → s.pd2 ≠ []) :
    ∃ n t, s.stepParent n = some t ∧ t.left < s.left := by
  cases pc : s.parent with
  | closeRead1 =>
      refine ⟨0, _, by rw [State.stepParent, pc], ?_⟩
      simp [State.left, pc]
  | closeWrite2 =>
      refine ⟨0, _, by rw [State.stepParent, pc], ?_⟩
      simp [State.left, pc]
  | readInput =>
      by_cases ended : s.input = []
      · refine ⟨0, _, by rw [State.stepParent, pc, ended, read_end, Option.map_some], ?_⟩
        simp [State.left, pc, ended]
      · obtain ⟨b, rest, there⟩ := List.exists_cons_of_ne_nil ended
        refine ⟨1, _, by rw [State.stepParent, pc, there, read_cons, Option.map_some], ?_⟩
        simp only [State.left, pc, there, ParentPc.unsent, ParentPc.unprinted, ParentPc.rank,
          List.length_cons, List.length_nil]
        omega
  | writePipe buf =>
      have readers : s.readers1 = true := by simp [State.readers1, going.read1]
      refine ⟨0, _, by rw [State.stepParent, pc]; exact if_pos (.inr readers), ?_⟩
      simp only [State.left, pc, ParentPc.unsent, ParentPc.unprinted, ParentPc.rank,
        List.length_append, List.length_nil]
      omega
  | readPipe =>
      obtain ⟨b, rest, there⟩ := List.exists_cons_of_ne_nil (busy pc)
      refine ⟨1, _, by rw [State.stepParent, pc, there, read_cons, Option.map_some], ?_⟩
      simp only [State.left, pc, there, ParentPc.unsent, ParentPc.unprinted, ParentPc.rank,
        List.length_cons, List.length_nil]
      omega
  | writeOutput buf =>
      have positive : 0 < buf.length := by
        rw [List.length_pos_iff]
        rintro rfl
        exact going.unprinted pc
      refine ⟨0, _, by rw [State.stepParent, pc], ?_⟩
      simp only [State.left, pc, ParentPc.unsent, ParentPc.unprinted, ParentPc.rank,
        List.length_nil]
      omega
  | exited => exact absurd pc going.parent

/-- **Progress.** Unless the two are stuck, a call of one of them can return. -/
theorem Going.progress (going : Going s) (unstuck : ¬ s.Stuck) :
    ∃ a t, a.Succeeds ∧ step s a = some t ∧ t.left < s.left := by
  by_cases childWaits : s.child = .readPipe ∧ s.pd1 = []
  · have busy : s.parent = .readPipe → s.pd2 ≠ [] := by
      intro parentWaits empty
      have ended : s.input = [] := by
        refine (going.waiting parentWaits).resolve_left ?_
        simp [State.inFlight, childWaits.1, childWaits.2, empty]
      exact unstuck ⟨ended, parentWaits, empty, by simp [State.writers2, going.write2],
        childWaits.1, childWaits.2, by simp [State.writers1, going.write1]⟩
    obtain ⟨n, t, stepped, smaller⟩ := going.parentProgress busy
    exact ⟨.parent n, t, trivial, stepped, smaller⟩
  · obtain ⟨n, t, stepped, smaller⟩ :=
      going.childProgress fun waits empty => childWaits ⟨waits, empty⟩
    exact ⟨.child n, t, trivial, stepped, smaller⟩

/-- When the two are stuck, the whole input has been printed. -/
theorem Echoed.output_of_stuck (echoed : Echoed input s) (stuck : s.Stuck) :
    s.output = input.map toupper := by
  have whole := echoed.underWay (by simp [stuck.parent]) (by simp [stuck.child])
  simpa [State.arrived, State.outgoing, stuck.parent, stuck.child, stuck.pd1, stuck.pd2,
    stuck.input] using whole

/-- **The end.** From every state that a run without a failing call has reached, the two get
to where each waits for the other, with the whole input echoed. -/
theorem stuck_of_run {actions : List Action} (ran : run step (.start input) actions = some s)
    (succeed : ∀ a ∈ actions, a.Succeeds) :
    ∃ more t, run step s more = some t ∧ t.Stuck ∧ t.output = input.map toupper := by
  have echoed := run_invariant (fun echoed taken => Echoed.of_step echoed taken)
    (echoed_start input) ran
  have going := run_invariant_of (fun succeeds going taken => Going.of_step going succeeds taken)
    succeed (going_start input) ran
  have progress : ∀ s, Echoed input s ∧ Going s → ¬ s.Stuck →
      ∃ a t, a.Succeeds ∧ step s a = some t ∧ (Echoed input t ∧ Going t) ∧ t.left < s.left := by
    rintro s ⟨echoed, going⟩ unstuck
    obtain ⟨a, t, succeeds, taken, smaller⟩ := going.progress unstuck
    exact ⟨a, t, succeeds, taken, ⟨echoed.of_step taken, going.of_step succeeds taken⟩, smaller⟩
  obtain ⟨more, t, -, ran', ⟨echoed', -⟩, stuck⟩ :=
    run_reaches State.left progress ⟨echoed, going⟩
  exact ⟨more, t, ran', stuck, echoed'.output_of_stuck stuck⟩

/-- **The echo never ends.** For every input what is printed is at every moment of every run
the start of the input in upper case, and some run leads to where the two wait for each
other. -/
theorem echoes_and_sticks (input : List Byte) :
    (∀ actions s, run step (.start input) actions = some s → s.Echoes input) ∧
      ¬ ∀ actions s, run step (.start input) actions = some s → ¬ s.Stuck := by
  refine ⟨fun actions s ran => echoes_of_run ran, fun never => ?_⟩
  obtain ⟨more, t, ran, stuck, -⟩ :=
    @stuck_of_run input _ [] rfl (by simp)
  exact never more t ran stuck

/-- The input `a` comes back as `A`, and behind the `read` that returns nothing the two are
stuck. -/
theorem stuck_letter :
    ∃ s, run step (.start [97])
        [.parent 0, .parent 0, .child 0, .child 0, .parent 1, .parent 0, .child 1, .child 0,
          .parent 1, .parent 0, .parent 0, .parent 0] = some s ∧ s.output = [65] ∧ s.Stuck :=
  ⟨_, rfl, rfl, ⟨rfl, rfl, rfl, rfl, rfl, rfl, rfl⟩⟩

end LinuxExercises.TwoPipe
