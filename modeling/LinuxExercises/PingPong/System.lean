import LinuxExercises.Foundations.Formatting
import LinuxExercises.Foundations.Runs
import LinuxExercises.Foundations.Signals

/-!
# Two processes that send a signal back and forth

`sig_suspend` and `sig_waitinfo` block a signal, fork, and then parent and child take turns: the
child sends and waits, the parent waits and sends, as often as the argument says. One program waits
with `sigsuspend` behind a handler that does nothing, the other with `sigwaitinfo`.

Every check of the programs has this form, without braces:

    if (failed)
        perror("..");
        exit(EXIT_FAILURE);

Only the first of the two calls hangs on the condition. The programs are modelled with the braces as
a parameter, so that what the missing braces do can be told from what the rest of the code does. A
process advances in single steps, and a system call is a step.
-/

set_option autoImplicit false

namespace LinuxExercises.PingPong

open Foundations

/-! ## The programs -/

/-- Which call waits for the signal, and whether the two calls behind a check are in braces. -/
structure Program where
  suspends : Bool
  braces : Bool
deriving Repr, DecidableEq

def sigSuspend : Program where
  suspends := true
  braces := false

def sigWaitinfo : Program where
  suspends := false
  braces := false

inductive Status where
  | success
  | failure
deriving Repr, DecidableEq

/-- Where a process is in `main`: at a check of the set-up, at `fork`, at the test of its loop, at
one of the two calls of the loop, or no more. -/
inductive Point where
  | usage
  | sigaction
  | sigprocmask
  | fork
  | loop
  | kill
  | wait
  | ended (status : Status)
  | killed
deriving Repr, DecidableEq

/-- A process, with what it knows of the signal and with the numbers of its calls of `kill` and of
its waits that have come back. -/
structure Process where
  point : Point
  scnt : Nat
  signal : SignalState
  sends : Nat
  waits : Nat
deriving Repr, DecidableEq

/-- The parent, and the child behind `fork`. -/
structure System where
  parent : Process
  child : Option Process
deriving Repr, DecidableEq

/-- `argc != 2 || strcmp(argv[1], "--help") == 0`. -/
def usageWrong : List (List Byte) → Bool
  | [_, arg] => cstr arg == literal "--help"
  | _ => true

def numSigs : List (List Byte) → Int
  | _ :: arg :: _ => atoiLong arg
  | _ => 0

/-- A check, and `exit(EXIT_FAILURE)` behind it. Without braces the `exit` is no part of the
branch. -/
def Program.check (program : Program) (failed : Bool) (next : Process) : Process :=
  if failed || !program.braces then { next with point := .ended .failure } else next

/-- The call that waits for the signal. -/
def Program.waiting (program : Program) (s : SignalState) : SignalState.Waiting :=
  if program.suspends then s.sigsuspend else s.sigwaitinfo

namespace Process

/-- Parent and child have the same loop, but for the order of the two calls. -/
inductive Role where
  | parent
  | child
deriving Repr, DecidableEq

/-- The end of an iteration. -/
def again (p : Process) : Process := { p with point := .loop, scnt := p.scnt + 1 }

/-- The signal arrives. Nothing happens to a process that has ended. -/
def receive (p : Process) : Process :=
  match p.point with
  | .ended _ | .killed => p
  | _ =>
    match p.signal.receive with
    | some signal => { p with signal := signal }
    | none => { p with point := .killed }

/-- The first call of an iteration. -/
def enter (role : Role) (p : Process) : Process :=
  match role with
  | .parent => { p with point := .wait }
  | .child => { p with point := .kill }

/-- Behind the call of `kill`. -/
def sent (role : Role) (p : Process) : Process :=
  let p := { p with sends := p.sends + 1 }
  match role with
  | .parent => p.again
  | .child => { p with point := .wait }

/-- Behind the call that waits. -/
def waited (role : Role) (signal : SignalState) (p : Process) : Process :=
  let p := { p with signal := signal, waits := p.waits + 1 }
  match role with
  | .parent => { p with point := .kill }
  | .child => p.again

/-- A step of the loop of a process, which may signal the other one. A call may fail. -/
def step (program : Program) (n : Int) (role : Role) (fails : Bool) (p other : Process) :
    Option (Process × Process) :=
  match p.point with
  | .loop =>
    if (p.scnt : Int) < n then some (p.enter role, other)
    else some ({ p with point := .ended .success }, other)
  | .kill =>
    if fails then some (program.check true p, other)
    else some (program.check false (p.sent role), other.receive)
  | .wait =>
    if fails then some (program.check true p, other)
    else
      match program.waiting p.signal with
      | .sleeps => none
      | .kills => some ({ p with point := .killed }, other)
      | .returns signal => some (program.check false (p.waited role signal), other)
  | _ => none

end Process

open Process (Role)

/-- What happens next: a process makes a step, and the call in it succeeds or fails. -/
structure Action where
  role : Role
  fails : Bool
deriving Repr, DecidableEq

namespace System

/-- `main` is entered. -/
def start : System where
  parent := { point := .usage, scnt := 0, signal := .initial, sends := 0, waits := 0 }
  child := none

/-- The child is a copy of the parent. -/
def forked (p : Process) : System where
  parent := { p with point := .loop }
  child := some { p with point := .loop, signal := p.signal.clear }

/-- A step of the parent before there is a child. -/
def setUp (program : Program) (argv : List (List Byte)) (fails : Bool) (p : Process) :
    Option System :=
  match p.point with
  | .usage =>
    let next : Point := if program.suspends then .sigaction else .sigprocmask
    some ⟨program.check (usageWrong argv) { p with point := next }, none⟩
  | .sigaction =>
    let signal := if fails then p.signal else { p.signal with caught := true }
    some ⟨program.check fails { p with point := .sigprocmask, signal := signal }, none⟩
  | .sigprocmask =>
    let signal := if fails then p.signal else { p.signal with blocked := true }
    some ⟨program.check fails { p with point := .fork, signal := signal }, none⟩
  | .fork =>
    if fails then some ⟨{ p with point := .ended .failure }, none⟩ else some (forked p)
  | _ => none

/-- The step function. -/
def step (program : Program) (argv : List (List Byte)) (s : System) (a : Action) : Option System :=
  match s.child with
  | none =>
    match a.role with
    | .parent => setUp program argv a.fails s.parent
    | .child => none
  | some child =>
    match a.role with
    | .parent =>
      (s.parent.step program (numSigs argv) .parent a.fails child).map fun (p, c) => ⟨p, some c⟩
    | .child =>
      (child.step program (numSigs argv) .child a.fails s.parent).map fun (c, p) => ⟨p, some c⟩

end System

end LinuxExercises.PingPong
