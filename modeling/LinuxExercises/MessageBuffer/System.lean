import LinuxExercises.Foundations.Formatting
import LinuxExercises.Foundations.Runs

/-!
# A message buffer for consumers that are woken by signals

`shm_consumer_signal` takes four numbers: of messages, of milliseconds between two of them, of
consumers, and of slots. It allocates an array of pointers, one for each message, and gives the
first slots a block each. It forks the consumers, which wait in a loop. Then it writes the
messages into the slots one after the other, beginning again at the first, and sends a signal to
each consumer for each message. The handler of a consumer prints a message.

`pid_list` is declared before `consumer` has a value, so nothing is said about its size. It is
assumed to have a place for each consumer, and no `malloc` fails.

The program and its consumers advance in single steps. An access to the array is checked against
its bounds and against the slots that have a block. The first one that goes wrong is noted, and
nothing is said about what comes after it.
-/

set_option autoImplicit false

namespace LinuxExercises.MessageBuffer

open Foundations

/-! ## The program -/

/-- The arguments as numbers. -/
structure Settings where
  dataNum : Int
  rate : Int
  consumer : Int
  bufSize : Int
deriving Repr, DecidableEq

/-- The arguments that `main` accepts. -/
def Settings.ofArgs : List (List Byte) → Option Settings
  | [_, number, rate, consumer, size] =>
    if cstr number = literal "--help" then none
    else some ⟨atoiLong number, atoiLong rate, atoiLong consumer, atoiLong size⟩
  | _ => none

/-- What goes wrong: an index outside `message_buffer`, a slot that has been given no block, a
remainder by zero. -/
inductive Misuse where
  | outside (index : Int)
  | noBlock (index : Int)
  | remainderByZero
deriving Repr, DecidableEq

/-- Where `main` is: at an iteration of one of its loops, or no more at any that has to do with the
buffer. The loop that sends the signals of a message is inside the one that writes it. -/
inductive Pc where
  | setUp (i : Nat)
  | fork (i : Nat)
  | write (i : Nat)
  | signal (i j : Nat)
  | close (j : Nat)
  | exited
deriving Repr, DecidableEq

/-- A consumer in its loop, with or without a pending signal, or no more. -/
inductive Consumer where
  | looping (pending : Bool)
  | ended
deriving Repr, DecidableEq

/-- A signal is pending once, however often it is sent. -/
def Consumer.receive : Consumer → Consumer
  | looping _ => looping true
  | ended => ended

/-- The program and its consumers. Of `message_buffer` it is kept which slots have been given a
block. -/
structure System where
  main : Pc
  messageBuffer : List Bool
  consumers : List Consumer
  misuse : Option Misuse
deriving Repr, DecidableEq

/-- What is wrong with reading the block of a slot. -/
def accessed (messageBuffer : List Bool) (index : Int) : Option Misuse :=
  if 0 ≤ index ∧ index < messageBuffer.length then
    if messageBuffer[index.toNat]? = some true then none else some (.noBlock index)
  else some (.outside index)

/-- The slot of a message. The remainder is that of C. -/
def seq (s : Settings) (i : Nat) : Except Misuse Int :=
  if i = 0 then .ok 0
  else if s.bufSize = 0 then .error .remainderByZero
  else .ok (Int.tmod i s.bufSize)

namespace System

/-- Behind `malloc` of the array. -/
def start (s : Settings) : System where
  main := .setUp 0
  messageBuffer := List.replicate s.dataNum.toNat false
  consumers := []
  misuse := none

/-- The next step of `main`. A call of `fork`, `sigqueue` or `kill` may fail, and `main` exits. -/
def stepMain (s : Settings) (t : System) (fails : Bool) : Option System :=
  match t.main with
  | .setUp i =>
    if (i : Int) < s.bufSize then
      if i < t.messageBuffer.length then
        some { t with main := .setUp (i + 1), messageBuffer := t.messageBuffer.set i true }
      else some { t with misuse := some (.outside i) }
    else some { t with main := .fork 0 }
  | .fork i =>
    if (i : Int) < s.consumer then
      if fails then some { t with main := .exited }
      else some { t with main := .fork (i + 1), consumers := t.consumers ++ [.looping false] }
    else some { t with main := .write 0 }
  | .write i =>
    if (i : Int) < s.dataNum then
      match seq s i with
      | .error misuse => some { t with misuse := some misuse }
      | .ok index =>
        match accessed t.messageBuffer index with
        | some misuse => some { t with misuse := some misuse }
        | none => some { t with main := .signal i 0 }
    else some { t with main := .close 0 }
  | .signal i j =>
    if (j : Int) < s.consumer then
      if fails then some { t with main := .exited }
      else
        some { t with
          main := .signal i (j + 1)
          consumers := t.consumers.modify j Consumer.receive }
    else some { t with main := .write (i + 1) }
  | .close j =>
    if (j : Int) < s.consumer then
      if fails then some { t with main := .exited }
      else some { t with main := .close (j + 1), consumers := t.consumers.set j .ended }
    else some { t with main := .exited }
  | .exited => none

/-- `my_handler` of a consumer with a pending signal. When it cannot open the shared memory it
exits, and else it prints `message_buffer[-1]`. -/
def handle (t : System) (j : Nat) (opens : Bool) : Option System :=
  match t.consumers[j]? with
  | some (.looping true) =>
    if opens then
      match accessed t.messageBuffer (-1) with
      | some misuse => some { t with misuse := some misuse }
      | none => some { t with consumers := t.consumers.set j (.looping false) }
    else some { t with consumers := t.consumers.set j .ended }
  | _ => none

end System

/-- What happens next. -/
inductive Action where
  | main (fails : Bool)
  | handler (j : Nat) (opens : Bool)
deriving Repr, DecidableEq

/-- The step of an action, when it is enabled. -/
def step (s : Settings) (t : System) (a : Action) : Option System :=
  if t.misuse = none then
    match a with
    | .main fails => t.stepMain s fails
    | .handler j opens => t.handle j opens
  else none

/-- In no run does an access go wrong. -/
def AccessesInside (argv : List (List Byte)) : Prop :=
  ∀ s, Settings.ofArgs argv = some s →
    ∀ actions t, run (step s) (.start s) actions = some t → t.misuse = none

/-! ## Everything that a step can do -/

/-- Steps that do not touch the array, `main` inside or behind its set-up, and the accesses. -/
inductive Stepped (s : Settings) (t : System) : Action → System → Prop
  | gives {i : Nat} {fails : Bool} (pc : t.main = .setUp i) (more : (i : Int) < s.bufSize)
      (inside : i < t.messageBuffer.length) :
      Stepped s t (.main fails)
        { t with main := .setUp (i + 1), messageBuffer := t.messageBuffer.set i true }
  | outgrows {i : Nat} {fails : Bool} (pc : t.main = .setUp i) (more : (i : Int) < s.bufSize)
      (outside : t.messageBuffer.length ≤ i) :
      Stepped s t (.main fails) { t with misuse := some (.outside i) }
  | ready {i : Nat} {fails : Bool} (pc : t.main = .setUp i) (done : s.bufSize ≤ i) :
      Stepped s t (.main fails) { t with main := .fork 0 }
  | goesOn {fails : Bool} {next : Pc} {consumers : List Consumer}
      (pc : ∀ i, t.main ≠ .setUp i) (later : ∀ i, next ≠ .setUp i)
      (fresh : s.consumer ≤ 0 → t.consumers = [] → consumers = []) :
      Stepped s t (.main fails) { t with main := next, consumers := consumers }
  | writes {i : Nat} {fails : Bool} {misuse : Misuse} (pc : t.main = .write i)
      (wrong : seq s i = .error misuse ∨
        ∃ index, seq s i = .ok index ∧ accessed t.messageBuffer index = some misuse) :
      Stepped s t (.main fails) { t with misuse := some misuse }
  | handles {j : Nat} {opens : Bool} {u : System}
      (pending : t.consumers[j]? = some (.looping true)) : Stepped s t (.handler j opens) u

section Stepped

variable {s : Settings} {t u : System} {i j : Nat} {fails : Bool}

/-- `main` goes on to a place behind the set-up, and the consumers stay as they are. -/
theorem Stepped.moves {next : Pc} (pc : ∀ i, t.main ≠ .setUp i) (later : ∀ i, next ≠ .setUp i) :
    Stepped s t (.main fails) { t with main := next } :=
  .goesOn pc later fun _ none => none

theorem stepped_setUp (pc : t.main = .setUp i) (taken : t.stepMain s fails = some u) :
    Stepped s t (.main fails) u := by
  rw [System.stepMain, pc] at taken
  dsimp only at taken
  split at taken
  next more =>
    split at taken
    next inside =>
      cases taken
      exact .gives pc more inside
    next outside =>
      cases taken
      rw [← pc]
      exact .outgrows pc more (Nat.le_of_not_lt outside)
  next done =>
    cases taken
    exact .ready pc (Int.not_lt.mp done)

theorem stepped_fork (pc : t.main = .fork i) (taken : t.stepMain s fails = some u) :
    Stepped s t (.main fails) u := by
  rw [System.stepMain, pc] at taken
  dsimp only at taken
  split at taken
  next more =>
    split at taken
    · cases taken
      exact .moves (by simp [pc]) (by simp)
    · cases taken
      exact .goesOn (by simp [pc]) (by simp) fun few _ => absurd more (by omega)
  next =>
    cases taken
    exact .moves (by simp [pc]) (by simp)

theorem stepped_write (pc : t.main = .write i) (taken : t.stepMain s fails = some u) :
    Stepped s t (.main fails) u := by
  rw [System.stepMain, pc] at taken
  dsimp only at taken
  split at taken
  · split at taken
    next misuse wrong =>
      cases taken
      rw [← pc]
      exact .writes pc (.inl wrong)
    next index found =>
      split at taken
      next misuse wrong =>
        cases taken
        rw [← pc]
        exact .writes pc (.inr ⟨index, found, wrong⟩)
      next =>
        cases taken
        exact .moves (by simp [pc]) (by simp)
  · cases taken
    exact .moves (by simp [pc]) (by simp)

/-- The two loops that send signals. -/
theorem stepped_signal (pc : t.main = .signal i j ∨ t.main = .close j)
    (taken : t.stepMain s fails = some u) : Stepped s t (.main fails) u := by
  rcases pc with pc | pc <;> rw [System.stepMain, pc] at taken <;> dsimp only at taken <;>
    split at taken
  case inl.isFalse | inr.isFalse =>
    cases taken
    exact .moves (by simp [pc]) (by simp)
  case inl.isTrue | inr.isTrue =>
    split at taken
    · cases taken
      exact .moves (by simp [pc]) (by simp)
    · cases taken
      exact .goesOn (by simp [pc]) (by simp) fun _ none => by simp [none]

theorem stepped {a : Action} (taken : step s t a = some u) : Stepped s t a u := by
  unfold step at taken
  split at taken
  next =>
    cases a with
    | main fails =>
        cases pc : t.main with
        | setUp i => exact stepped_setUp pc taken
        | fork i => exact stepped_fork pc taken
        | write i => exact stepped_write pc taken
        | signal i j => exact stepped_signal (.inl pc) taken
        | close j => exact @stepped_signal _ _ _ 0 _ _ (.inr pc) taken
        | exited =>
            simp only [System.stepMain, pc] at taken
            cases taken
    | handler j opens =>
        simp only [System.handle] at taken
        split at taken
        next pending => exact .handles pending
        next => cases taken
  next => cases taken

end Stepped

end LinuxExercises.MessageBuffer
