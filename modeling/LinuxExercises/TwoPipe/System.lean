import LinuxExercises.Foundations.Buffer
import LinuxExercises.Foundations.Runs

/-!
# A parent and a child that exchange bytes over two pipes

In `two_pipe` the parent reads a block of its standard input, writes it to the first pipe,
reads a block from the second pipe and writes that to its standard output, for ever. The
child reads a block from the first pipe, puts it in upper case and writes it to the second
pipe, for ever. Neither leaves its loop at the end of a file: a `read` that returns 0 is
followed by a `write` of no bytes.

Every system call is a step, so every interleaving is a run. An action says how many bytes a
`read` returns: any positive number that is there and fits the buffer, and 0 at the end of a
file, which a pipe has once nobody holds its write end. A `write` stores all its bytes, to a
pipe because they are at most `PIPE_BUF`. A writer that would wait for room takes its step
later.
-/

set_option autoImplicit false

namespace LinuxExercises.TwoPipe

open Foundations

/-- Size of the buffers. -/
abbrev SIZE : Nat := 4096

/-- `toupper` in the C locale. -/
def toupper (c : Byte) : Byte := if 97 ≤ c ∧ c ≤ 122 then c - 32 else c

/-- The ends of `pd1` and `pd2` that a process has open. -/
structure Ends where
  read1 : Bool
  write1 : Bool
  read2 : Bool
  write2 : Bool
deriving Repr, DecidableEq

namespace Ends

/-- Behind the two calls of `pipe`. -/
def all : Ends := ⟨true, true, true, true⟩

/-- Behind `exit`. -/
def none : Ends := ⟨false, false, false, false⟩

end Ends

/-- The next call of the parent, with what is in `p_buf` when it is a `write`. -/
inductive ParentPc where
  | closeRead1
  | closeWrite2
  | readInput
  | writePipe (buf : List Byte)
  | readPipe
  | writeOutput (buf : List Byte)
  | exited
deriving Repr, DecidableEq

/-- The next call of the child, with what is in `c_buf` when it is a `write`. -/
inductive ChildPc where
  | closeWrite1
  | closeRead2
  | readPipe
  | writePipe (buf : List Byte)
  | exited
deriving Repr, DecidableEq

/-- The bytes of the standard input that have not been read, those that have been written to
the standard output, those in the pipes, and the two processes. -/
structure State where
  input : List Byte
  output : List Byte
  pd1 : List Byte
  pd2 : List Byte
  parent : ParentPc
  child : ChildPc
  parentEnds : Ends
  childEnds : Ends
deriving Repr, DecidableEq

/-- Behind the `fork`. -/
def State.start (input : List Byte) : State where
  input := input
  output := []
  pd1 := []
  pd2 := []
  parent := .closeRead1
  child := .closeWrite1
  parentEnds := .all
  childEnds := .all

/-- A `read` that returns `n`: the bytes, and what is left. While more may come, a source
without bytes makes the reader wait. -/
def read (source : List Byte) (more : Bool) (n : Nat) : Option (List Byte × List Byte) :=
  if (0 < n ∧ n ≤ SIZE ∧ n ≤ source.length) ∨ (n = 0 ∧ source = [] ∧ more = false) then
    some (source.take n, source.drop n)
  else none

namespace State

/-- Somebody can write to the first pipe. -/
def writers1 (s : State) : Bool := s.parentEnds.write1 || s.childEnds.write1

def readers1 (s : State) : Bool := s.parentEnds.read1 || s.childEnds.read1

def writers2 (s : State) : Bool := s.parentEnds.write2 || s.childEnds.write2

def readers2 (s : State) : Bool := s.parentEnds.read2 || s.childEnds.read2

def parentExit (s : State) : State := { s with parent := .exited, parentEnds := .none }

def childExit (s : State) : State := { s with child := .exited, childEnds := .none }

/-- The next call of the parent. Bytes that nobody can read kill their writer. -/
def stepParent (n : Nat) (s : State) : Option State :=
  match s.parent with
  | .closeRead1 =>
      some { s with parentEnds := { s.parentEnds with read1 := false }, parent := .closeWrite2 }
  | .closeWrite2 =>
      some { s with parentEnds := { s.parentEnds with write2 := false }, parent := .readInput }
  | .readInput =>
      (read s.input false n).map fun (buf, rest) =>
        { s with input := rest, parent := .writePipe buf }
  | .writePipe buf =>
      if buf = [] ∨ s.readers1 then some { s with pd1 := s.pd1 ++ buf, parent := .readPipe }
      else some s.parentExit
  | .readPipe =>
      (read s.pd2 s.writers2 n).map fun (buf, rest) =>
        { s with pd2 := rest, parent := .writeOutput buf }
  | .writeOutput buf => some { s with output := s.output ++ buf, parent := .readInput }
  | .exited => none

/-- The next call of the child. -/
def stepChild (n : Nat) (s : State) : Option State :=
  match s.child with
  | .closeWrite1 =>
      some { s with childEnds := { s.childEnds with write1 := false }, child := .closeRead2 }
  | .closeRead2 =>
      some { s with childEnds := { s.childEnds with read2 := false }, child := .readPipe }
  | .readPipe =>
      (read s.pd1 s.writers1 n).map fun (buf, rest) =>
        { s with pd1 := rest, child := .writePipe (buf.map toupper) }
  | .writePipe buf =>
      if buf = [] ∨ s.readers2 then some { s with pd2 := s.pd2 ++ buf, child := .readPipe }
      else some s.childExit
  | .exited => none

end State

/-- Who makes its next call, and what a `read` returns. A call that fails is followed by
`exit`. -/
inductive Action where
  | parent (n : Nat)
  | child (n : Nat)
  | parentFails
  | childFails
deriving Repr, DecidableEq

/-- The call does not fail. -/
def Action.Succeeds : Action → Prop
  | .parent _ | .child _ => True
  | .parentFails | .childFails => False

instance : ∀ a : Action, Decidable a.Succeeds
  | .parent _ => .isTrue trivial
  | .child _ => .isTrue trivial
  | .parentFails => .isFalse id
  | .childFails => .isFalse id

def step (s : State) : Action → Option State
  | .parent n => s.stepParent n
  | .child n => s.stepChild n
  | .parentFails => if s.parent = .exited then none else some s.parentExit
  | .childFails => if s.child = .exited then none else some s.childExit

/-- Behind the end of the input each process waits for bytes from the other one. -/
structure State.Stuck (s : State) : Prop where
  input : s.input = []
  parent : s.parent = .readPipe
  pd2 : s.pd2 = []
  writers2 : s.writers2 = true
  child : s.child = .readPipe
  pd1 : s.pd1 = []
  writers1 : s.writers1 = true

/-- What the parent has written is the start of its input in upper case. -/
def State.Echoes (s : State) (input : List Byte) : Prop := s.output <+: input.map toupper

/-! ## Reading -/

theorem read_eq_some {source buf rest : List Byte} {more : Bool} {n : Nat}
    (returned : read source more n = some (buf, rest)) :
    source = buf ++ rest ∧ (buf = [] → source = [] ∧ more = false) := by
  rw [read] at returned
  split at returned
  · rename_i possible
    cases returned
    refine ⟨(List.take_append_drop n source).symm, fun nothing => ?_⟩
    rcases possible with ⟨positive, -, there⟩ | ⟨-, ended⟩
    · rw [List.take_eq_nil_iff] at nothing
      rcases nothing with zero | empty
      · omega
      · rw [empty, List.length_nil] at there
        omega
    · exact ended
  · cases returned

/-- A `read` from a source with bytes can return. -/
theorem read_cons (b : Byte) (rest : List Byte) (more : Bool) :
    read (b :: rest) more 1 = some ([b], rest) := by
  rw [read, if_pos (.inl ⟨by decide, by decide, by simp⟩)]
  rfl

/-- At the end of a file it returns nothing. -/
theorem read_end : read [] false 0 = some ([], []) := by
  rw [read, if_pos (.inr ⟨rfl, rfl, rfl⟩)]
  rfl

end LinuxExercises.TwoPipe
