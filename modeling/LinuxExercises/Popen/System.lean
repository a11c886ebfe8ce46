import LinuxExercises.Foundations.Descriptors
import LinuxExercises.Foundations.Runs

/-!
# Streams to and from child processes

`my_popen` opens a pipe, forks a child that execs a command with one end as its standard
input or output, and returns the other end as a stream. It notes the child in `pid_list` at
the descriptor of the stream. `my_pclose` looks the child up there, waits for it, and then
closes the stream.

A process is seen through its descriptor table. The calls of the parent and the steps of its
children are actions, so every interleaving is a run. Between its `fork` and its return
`my_popen` touches nothing that a child can see but its own copies of the pipe's ends, so it
is one step, and the child starts behind it. `my_pclose` is two: it begins to wait, and it
goes on when the child has ended.

Of the data in a pipe or a buffer only the amount is kept. The room in a pipe is not
bounded: a writer that would wait for room takes its step later.
-/

set_option autoImplicit false

namespace LinuxExercises.Popen

open Foundations

/-- The argument `type`. -/
inductive Mode where
  | r
  | w
  | other
deriving Repr, DecidableEq

/-- An open file: one that the program was started with, or an end of a pipe. -/
inductive OpenFile where
  | inherited (n : Nat)
  | readEnd (pipe : Nat)
  | writeEnd (pipe : Nat)
deriving Repr, DecidableEq

/-- The array `pid_list`. -/
abbrev PidList := Vector Nat 100

/-! ## A child -/

/-- Where a child is: behind `fork`, in its loop over `pid_list`, in the program that it
execs, in a `read` of that program, or no more. -/
inductive Phase where
  | forked
  | closing (i : Nat)
  | running
  | reading (fd : Nat)
  | zombie
  | reaped
deriving Repr, DecidableEq

/-- A child, with the variables of `my_popen` at the `fork`. -/
structure Child where
  mode : Mode
  pid : Nat
  readFd : Nat
  writeFd : Nat
  pidList : PidList
  fds : Descriptors OpenFile
  phase : Phase
deriving Repr, DecidableEq

namespace Child

/-- The child ends, and its descriptors are closed. -/
def exit (c : Child) : Child := { c with fds := [], phase := .zombie }

/-- From the `fork` to the loop. With `"w"` the write end stays open. -/
def redirect (c : Child) : Child :=
  match c.mode with
  | .r => { c with fds := (c.fds.close c.readFd).dup2 c.writeFd 1, phase := .closing 0 }
  | .w => { c with fds := c.fds.dup2 c.readFd 0, phase := .closing 0 }
  | .other => c.exit

/-- One round of the loop `for (int i = 0; i < 100; i++)`, and `execvp` behind it. -/
def closeNext (c : Child) (i : Nat) : Child :=
  match c.pidList[i]? with
  | some pid =>
      { c with
        fds := if 0 < pid then c.fds.close i else c.fds
        phase := .closing (i + 1) }
  | none => { c with phase := .running }

/-- The pipe that the child is reading from. -/
def input (c : Child) : Option Nat :=
  match c.phase with
  | .reading fd =>
      match c.fds.file fd with
      | some (.readEnd pipe) => some pipe
      | _ => none
  | _ => none

end Child

/-- What a child does next. It ends when its program does, when a signal kills it, or when a
call in front of its program fails. -/
inductive ChildAction where
  | redirect
  | closeNext
  | read (fd : Nat)
  | readDone (n : Nat)
  | write (fd n : Nat)
  | exit
deriving Repr, DecidableEq

/-! ## The parent -/

/-- An open stream: the child that was forked for it, and the bytes in its buffer. -/
structure OpenStream where
  child : Nat
  unflushed : Nat
deriving Repr, DecidableEq

/-- Where the parent is: between two calls, in the `waitpid` of `my_pclose`, behind a call of
`exit` or a signal, behind the `exit` of a call that did not find its child, or behind a
store outside of `pid_list`. -/
inductive Pc where
  | ready
  | waiting (fd child : Nat)
  | exited
  | lost
  | overrun
deriving Repr, DecidableEq

/-- The child that `waitpid` waits for. -/
def Pc.awaited : Pc → Option Nat
  | .waiting _ child => some child
  | _ => none

/-- The parent, its children in the order in which they were forked, and the bytes in the
pipe of each. A stream is kept at its descriptor. -/
structure State where
  fds : Descriptors OpenFile
  pidList : PidList
  streams : Descriptors OpenStream
  children : List Child
  pipes : List Nat
  pc : Pc
deriving Repr, DecidableEq

namespace State

/-- The program is started with these open files. -/
def start (inherited : List (Option Nat)) : State where
  fds := inherited.map (Option.map .inherited)
  pidList := Vector.replicate 100 0
  streams := []
  children := []
  pipes := []
  pc := .ready

/-- Only the standard descriptors are open. -/
def standard : State := start [some 0, some 1, some 2]

/-- Some process has the file open. -/
def Holds (s : State) (f : OpenFile) : Prop := some f ∈ s.fds ∨ ∃ c ∈ s.children, some f ∈ c.fds

instance (s : State) (f : OpenFile) : Decidable (s.Holds f) :=
  inferInstanceAs (Decidable (_ ∨ _))

/-- The parent ends. -/
def leave (s : State) (pc : Pc) : State := { s with fds := [], streams := [], pc := pc }

/-- `pid_list[fd] = pid;` for the stream that is returned. -/
def register (s : State) (fd child pid : Nat) : State :=
  if within : fd < 100 then
    { s with
      pidList := s.pidList.set fd pid
      streams := s.streams.put fd (some ⟨child, 0⟩) }
  else s.leave .overrun

/-- `my_popen`, when `fork` returns `pid`. -/
def myPopen (s : State) (mode : Mode) (pid : Nat) : State :=
  let id := s.children.length
  let (readFd, writeFd, fds) := s.fds.pipe (.readEnd id) (.writeEnd id)
  let forked : State :=
    { s with
      children := s.children ++ [⟨mode, pid, readFd, writeFd, s.pidList, fds, .forked⟩]
      pipes := s.pipes ++ [0] }
  match mode with
  | .r => { forked with fds := fds.close writeFd }.register readFd id pid
  | .w => { forked with fds := fds.close readFd }.register writeFd id pid
  | .other => forked.leave .exited

/-- `my_pclose` up to its `waitpid`. -/
def myPclose (s : State) (fd : Nat) : State :=
  match s.pidList[fd]? with
  | none => s.leave .overrun
  | some pid =>
      if pid = 0 then s.leave .lost
      else
        match s.children.findIdx? fun c => c.pid = pid ∧ c.phase ≠ .reaped with
        | some child => { s with pc := .waiting fd child }
        | none => s.leave .lost

/-- `fclose`. What is left in the buffer is written, which kills a writer to a pipe without
readers. -/
def fclose (s : State) (fd : Nat) (stream : OpenStream) : State :=
  if 0 < stream.unflushed ∧ ¬ s.Holds (.readEnd stream.child) then s.leave .exited
  else
    { s with
      fds := s.fds.close fd
      streams := s.streams.put fd none
      pipes := s.pipes.modify stream.child (· + stream.unflushed)
      pc := .ready }

/-- `my_pclose` behind its `waitpid`. -/
def finishPclose (s : State) (fd child : Nat) (c : Child) (stream : OpenStream) : State :=
  if within : fd < 100 then
    { s with
      children := s.children.set child { c with phase := .reaped }
      pidList := s.pidList.set fd 0 }.fclose fd stream
  else s.leave .overrun

end State

/-! ## Steps -/

/-- The step of a child, with the bytes in the pipes behind it. -/
def Child.step (c : Child) (s : State) : ChildAction → Option (Child × List Nat)
  | .redirect => if c.phase = .forked then some (c.redirect, s.pipes) else none
  | .closeNext =>
      match c.phase with
      | .closing i => some (c.closeNext i, s.pipes)
      | _ => none
  | .read fd =>
      if c.phase = .running then some ({ c with phase := .reading fd }, s.pipes) else none
  | .readDone n =>
      match c.phase, c.input with
      | .reading _, some pipe =>
          -- Bytes that are there, or the end of the file once nobody can write.
          if n ≤ s.pipes.getD pipe 0 ∧
              (0 < n ∨ s.pipes.getD pipe 0 = 0 ∧ ¬ s.Holds (.writeEnd pipe)) then
            some ({ c with phase := .running }, s.pipes.modify pipe (· - n))
          else none
      | .reading _, none => some ({ c with phase := .running }, s.pipes)
      | _, _ => none
  | .write fd n =>
      match c.phase, c.fds.file fd with
      | .running, some (.writeEnd pipe) =>
          if s.Holds (.readEnd pipe) then some (c, s.pipes.modify pipe (· + n))
          else some (c.exit, s.pipes)
      | .running, _ => some (c, s.pipes)
      | _, _ => none
  | .exit =>
      if c.phase = .zombie ∨ c.phase = .reaped then none else some (c.exit, s.pipes)

/-- What happens next. `fails` is the `exit` behind a system call of the parent that fails. -/
inductive Action where
  | myPopen (mode : Mode) (pid : Nat)
  | fwrite (fd n : Nat)
  | fflush (fd n : Nat)
  | fread (fd n : Nat)
  | myPclose (fd : Nat)
  | waitpid
  | fails
  | child (k : Nat) (a : ChildAction)
deriving Repr, DecidableEq

/-- The child that was forked for the stream at a descriptor. -/
def State.owner (s : State) (fd : Nat) : Option Nat := (s.streams.file fd).map OpenStream.child

/-- The stream at a descriptor, when it was opened with this type. -/
def State.streamOf (s : State) (fd : Nat) (mode : Mode) : Option OpenStream := do
  let stream ← s.streams.file fd
  let c ← s.children[stream.child]?
  if c.mode = mode then some stream else none

/-- The step of an action, when it is enabled. `fork` returns a number that no child has that
has not been waited for. Behind a store outside of `pid_list` nothing is known. -/
def step (s : State) (a : Action) : Option State :=
  match s.pc, a with
  | .overrun, _ => none
  | _, .child k a => do
      let c ← s.children[k]?
      let (c', pipes) ← c.step s a
      some { s with children := s.children.set k c', pipes := pipes }
  | .ready, .myPopen mode pid =>
      if 0 < pid ∧ ∀ c ∈ s.children, c.phase ≠ .reaped → c.pid ≠ pid then
        some (s.myPopen mode pid)
      else none
  | .ready, .fwrite fd n => do
      let stream ← s.streamOf fd .w
      some { s with
        streams := s.streams.put fd (some { stream with unflushed := stream.unflushed + n }) }
  | .ready, .fflush fd n => do
      let stream ← s.streamOf fd .w
      if n = 0 ∨ stream.unflushed < n then none
      else if s.Holds (.readEnd stream.child) then
        some { s with
          streams := s.streams.put fd (some { stream with unflushed := stream.unflushed - n })
          pipes := s.pipes.modify stream.child (· + n) }
      else some (s.leave .exited)
  | .ready, .fread fd n => do
      let stream ← s.streamOf fd .r
      if n ≤ s.pipes.getD stream.child 0 then
        some { s with pipes := s.pipes.modify stream.child (· - n) }
      else none
  | .ready, .myPclose fd => (s.streams.file fd).map fun _ => s.myPclose fd
  | .waiting fd child, .waitpid => do
      let c ← s.children[child]?
      let stream ← s.streams.file fd
      if c.phase = .zombie then some (s.finishPclose fd child c stream) else none
  | .ready, .fails | .waiting _ _, .fails => some (s.leave .exited)
  | _, _ => none

/-- The parent waits for a child that waits for input, and the only bytes that it can still
get would have to come from the parent or from itself. -/
def State.Deadlocked (s : State) : Prop :=
  ∃ k ∈ s.pc.awaited, ∃ c ∈ s.children[k]?, ∃ pipe ∈ c.input,
    s.pipes.getD pipe 0 = 0 ∧ (some (.writeEnd pipe) ∈ s.fds ∨ some (.writeEnd pipe) ∈ c.fds)

instance (s : State) : Decidable s.Deadlocked :=
  inferInstanceAs (Decidable (∃ k ∈ s.pc.awaited, ∃ c ∈ s.children[k]?, ∃ pipe ∈ c.input,
    s.pipes.getD pipe 0 = 0 ∧ (some (.writeEnd pipe) ∈ s.fds ∨ some (.writeEnd pipe) ∈ c.fds)))

/-- Every store was inside of `pid_list`, every call of `my_pclose` found a child, and the one
that waits waits for the child that was forked for its stream. -/
def State.Bookkept (s : State) : Prop :=
  s.pc ≠ .overrun ∧ s.pc ≠ .lost ∧
    ∀ fd child, s.pc = .waiting fd child → s.owner fd = some child

/-! ## What a step can do -/

/-- The child is in the program that it execs. -/
def Phase.InProgram : Phase → Prop
  | .running | .reading _ => True
  | _ => False

/-- What a step does to the child. -/
inductive Child.Moved (c : Child) : Child → Prop
  | redirect : c.phase = .forked → Child.Moved c c.redirect
  | closeNext {i : Nat} : c.phase = .closing i → Child.Moved c (c.closeNext i)
  | program {phase : Phase} : c.phase.InProgram → phase.InProgram →
      Child.Moved c { c with phase := phase }
  | exit : c.phase ≠ .zombie → c.phase ≠ .reaped → Child.Moved c c.exit

theorem Child.moved_of_running {c : Child} (running : c.phase = .running) : c.Moved c := by
  have moved : c.Moved { c with phase := c.phase } :=
    .program (by rw [running]; trivial) (by rw [running]; trivial)
  exact moved

theorem Child.moved {c c' : Child} {s : State} {a : ChildAction} {pipes : List Nat}
    (stepped : c.step s a = some (c', pipes)) : c.Moved c' := by
  cases a with
  | redirect =>
      simp only [Child.step] at stepped
      split at stepped
      · cases stepped
        exact .redirect ‹_›
      · cases stepped
  | closeNext =>
      simp only [Child.step] at stepped
      split at stepped
      · cases stepped
        exact .closeNext ‹_›
      · cases stepped
  | read fd =>
      simp only [Child.step] at stepped
      split at stepped
      · rename_i running
        cases stepped
        exact .program (by rw [running]; trivial) trivial
      · cases stepped
  | readDone n =>
      simp only [Child.step] at stepped
      split at stepped
      · rename_i reading input
        split at stepped
        · cases stepped
          exact .program (by rw [reading]; trivial) trivial
        · cases stepped
      · rename_i reading input
        cases stepped
        exact .program (by rw [reading]; trivial) trivial
      · cases stepped
  | write fd n =>
      simp only [Child.step] at stepped
      split at stepped
      · rename_i running file
        split at stepped
        · cases stepped
          exact moved_of_running running
        · cases stepped
          exact .exit (by simp [running]) (by simp [running])
      · cases stepped
        exact moved_of_running ‹_›
      · cases stepped
  | exit =>
      simp only [Child.step] at stepped
      split at stepped
      · cases stepped
      · rename_i alive
        cases stepped
        exact .exit (not_or.mp alive).1 (not_or.mp alive).2

/-- What a step of a child keeps. A child that has ended takes none, and none is waited for. -/
structure Child.Kept (c c' : Child) : Prop where
  pid : c'.pid = c.pid
  mode : c'.mode = c.mode
  alive : c.phase ≠ .zombie ∧ c.phase ≠ .reaped
  unreaped : c'.phase ≠ .reaped

theorem Child.Moved.kept {c c' : Child} (moved : c.Moved c') : c.Kept c' := by
  cases moved with
  | redirect forked =>
      cases mode : c.mode <;> constructor <;> simp [Child.redirect, Child.exit, mode, forked]
  | @closeNext i closing =>
      cases entry : c.pidList[i]? <;> constructor <;> simp [Child.closeNext, entry, closing]
  | @program phase before after =>
      refine ⟨rfl, rfl, ⟨?_, ?_⟩, ?_⟩
      · intro ended
        rw [ended] at before
        exact before
      · intro ended
        rw [ended] at before
        exact before
      · rintro rfl
        exact after
  | exit zombie reaped => exact ⟨rfl, rfl, ⟨zombie, reaped⟩, by simp [Child.exit]⟩

/-- What a step of the system can do. A step that moves data leaves everything else as it
is. -/
inductive Stepped (s : State) : Action → State → Prop
  | child {k : Nat} {a : ChildAction} {c c' : Child} {pipes : List Nat} :
      s.children[k]? = some c → c.Moved c' →
      Stepped s (.child k a) { s with children := s.children.set k c', pipes := pipes }
  | popen {mode : Mode} {pid : Nat} :
      s.pc = .ready → 0 < pid → (∀ c ∈ s.children, c.phase ≠ .reaped → c.pid ≠ pid) →
      Stepped s (.myPopen mode pid) (s.myPopen mode pid)
  | data {a : Action} {streams : Descriptors OpenStream} {pipes : List Nat} :
      s.pc = .ready → (∀ mode pid, a ≠ .myPopen mode pid) →
      (∀ fd, (streams.file fd).map OpenStream.child = s.owner fd) →
      Stepped s a { s with streams := streams, pipes := pipes }
  | pclose {fd : Nat} {stream : OpenStream} :
      s.pc = .ready → s.streams.file fd = some stream →
      Stepped s (.myPclose fd) (s.myPclose fd)
  | waited {fd child : Nat} {c : Child} {stream : OpenStream} :
      s.pc = .waiting fd child → s.children[child]? = some c → c.phase = .zombie →
      s.streams.file fd = some stream →
      Stepped s .waitpid (s.finishPclose fd child c stream)
  | left {a : Action} : (∀ mode pid, a ≠ .myPopen mode pid) → Stepped s a (s.leave .exited)

theorem streamOf_eq_some {s : State} {fd : Nat} {mode : Mode} {stream : OpenStream}
    (found : s.streamOf fd mode = some stream) : s.streams.file fd = some stream := by
  rw [State.streamOf] at found
  obtain ⟨stream', open_, found⟩ := Option.bind_eq_some_iff.mp found
  obtain ⟨c, -, found⟩ := Option.bind_eq_some_iff.mp found
  split at found
  · cases found
    exact open_
  · cases found

/-- A stream that takes the place of one of the same child. -/
theorem owner_put {s : State} {fd : Nat} {stream stream' : OpenStream}
    (open_ : s.streams.file fd = some stream) (same : stream'.child = stream.child) (other : Nat) :
    ((s.streams.put fd (some stream')).file other).map OpenStream.child = s.owner other := by
  rw [State.owner, Descriptors.file_put]
  split
  · rename_i here
    rw [here, open_, Option.map_some, Option.map_some, same]
  · rfl

/-- Every step is one of these. -/
theorem stepped {s t : State} {a : Action} (taken : step s a = some t) : Stepped s a t := by
  cases a with
  | child k a =>
      cases pc : s.pc <;> simp only [step, pc] at taken
      all_goals first
        | cases taken
        | obtain ⟨c, found, taken⟩ := Option.bind_eq_some_iff.mp taken
          obtain ⟨⟨c', pipes⟩, moved, taken⟩ := Option.bind_eq_some_iff.mp taken
          cases taken
          rw [← pc]
          exact .child found (Child.moved moved)
  | myPopen mode pid =>
      cases pc : s.pc <;> simp only [step, pc] at taken
      case ready =>
        split at taken
        · rename_i fresh
          cases taken
          exact .popen pc fresh.1 fresh.2
        · cases taken
      all_goals cases taken
  | fwrite fd n =>
      cases pc : s.pc <;> simp only [step, pc] at taken
      case ready =>
        obtain ⟨stream, found, taken⟩ := Option.bind_eq_some_iff.mp taken
        cases taken
        rw [← pc]
        refine @Stepped.data s _ _ s.pipes pc (by simp) ?_
        exact owner_put (streamOf_eq_some found) rfl
      all_goals cases taken
  | fflush fd n =>
      cases pc : s.pc <;> simp only [step, pc] at taken
      case ready =>
        obtain ⟨stream, found, taken⟩ := Option.bind_eq_some_iff.mp taken
        split at taken
        · cases taken
        · split at taken
          · cases taken
            rw [← pc]
            exact .data pc (by simp) (owner_put (streamOf_eq_some found) rfl)
          · cases taken
            exact .left (by simp)
      all_goals cases taken
  | fread fd n =>
      cases pc : s.pc <;> simp only [step, pc] at taken
      case ready =>
        obtain ⟨stream, found, taken⟩ := Option.bind_eq_some_iff.mp taken
        split at taken
        · cases taken
          rw [← pc]
          exact @Stepped.data s _ s.streams _ pc (by simp) (fun fd => rfl)
        · cases taken
      all_goals cases taken
  | myPclose fd =>
      cases pc : s.pc <;> simp only [step, pc] at taken
      case ready =>
        obtain ⟨stream, found, taken⟩ := Option.map_eq_some_iff.mp taken
        rw [← taken]
        exact .pclose pc found
      all_goals cases taken
  | waitpid =>
      cases pc : s.pc <;> simp only [step, pc] at taken
      case waiting fd child =>
        obtain ⟨c, among, taken⟩ := Option.bind_eq_some_iff.mp taken
        obtain ⟨stream, found, taken⟩ := Option.bind_eq_some_iff.mp taken
        split at taken
        · rename_i ended
          cases taken
          exact .waited pc among ended found
        · cases taken
      all_goals cases taken
  | fails =>
      cases pc : s.pc <;> simp only [step, pc] at taken
      case ready | waiting =>
        cases taken
        exact .left (by simp)
      all_goals cases taken

end LinuxExercises.Popen
