import Mathlib.Data.List.Basic

/-!
# Named pipes

A FIFO has a name, counts its open ends, and holds the messages that have been written
and not yet read. Every message is at most `PIPE_BUF` bytes long, so it is written and
read as a whole. The room in the pipe is not bounded here: a writer that would wait for
room takes its step later.

Opening one end waits for the other. The opener first counts itself among the open ends
and then waits until the other side has been opened since, which the opening counters
`readOpens` and `writeOpens` record: the partner may have come and gone by the time the
opener wakes up. With `O_NONBLOCK` an open for reading never waits, and an open for
writing fails unless there is a reader. Once both ends are closed the messages are gone.
-/

set_option autoImplicit false

namespace LinuxExercises.Foundations

/-- A FIFO and the pipe behind it. -/
structure NamedPipe (Message : Type*) where
  linked : Bool
  readers : Nat
  writers : Nat
  readOpens : Nat
  writeOpens : Nat
  data : List Message

variable {Message : Type*}

namespace NamedPipe

/-- No FIFO of this name, and nobody has one open. -/
def absent : NamedPipe Message where
  linked := false
  readers := 0
  writers := 0
  readOpens := 0
  writeOpens := 0
  data := []

/-- The outcome of `open`: it fails, it waits until a counter has left `seen`, or it
returns. -/
inductive Opening (Message : Type*) where
  | fails
  | waits (seen : Nat) (pipe : NamedPipe Message)
  | opens (pipe : NamedPipe Message)

/-- The outcome of `read`: every write end is closed, there is nothing to read, or a
message. -/
inductive Reading (Message : Type*) where
  | eof
  | empty
  | got (message : Message) (pipe : NamedPipe Message)

/-- `mkfifo`. -/
def make (pipe : NamedPipe Message) : NamedPipe Message := { pipe with linked := true }

/-- `unlink`. Whoever has the FIFO open keeps it. -/
def unlink (pipe : NamedPipe Message) : NamedPipe Message := { pipe with linked := false }

/-- `open(.., O_RDONLY)`, with `O_NONBLOCK` or without. -/
def openRead (pipe : NamedPipe Message) (nonblock : Bool) : Opening Message :=
  let opened := { pipe with readers := pipe.readers + 1, readOpens := pipe.readOpens + 1 }
  if !pipe.linked then .fails
  else if !nonblock && pipe.writers == 0 then .waits pipe.writeOpens opened
  else .opens opened

/-- `open(.., O_WRONLY)`, with `O_NONBLOCK` or without. -/
def openWrite (pipe : NamedPipe Message) (nonblock : Bool) : Opening Message :=
  let opened := { pipe with writers := pipe.writers + 1, writeOpens := pipe.writeOpens + 1 }
  if !pipe.linked then .fails
  else if pipe.readers == 0 then
    if nonblock then .fails else .waits pipe.readOpens opened
  else .opens opened

/-- What is left when an end has been closed: nothing, when it was the last one. -/
def settle (pipe : NamedPipe Message) : NamedPipe Message :=
  if pipe.readers == 0 && pipe.writers == 0 then { pipe with data := [] } else pipe

/-- `close` of a read end. -/
def closeRead (pipe : NamedPipe Message) : NamedPipe Message :=
  settle { pipe with readers := pipe.readers - 1 }

/-- `close` of a write end. -/
def closeWrite (pipe : NamedPipe Message) : NamedPipe Message :=
  settle { pipe with writers := pipe.writers - 1 }

/-- `write`. It fails with `EPIPE` when there is no reader. -/
def put (pipe : NamedPipe Message) (message : Message) : Option (NamedPipe Message) :=
  if pipe.readers == 0 then none else some { pipe with data := pipe.data ++ [message] }

/-- `read`. -/
def take (pipe : NamedPipe Message) : Reading Message :=
  match pipe.data with
  | [] => if pipe.writers == 0 then .eof else .empty
  | message :: rest => .got message { pipe with data := rest }

/-! ## What the calls do to the messages -/

variable {pipe opened : NamedPipe Message} {message : Message}

@[simp] theorem make_data : pipe.make.data = pipe.data := rfl

@[simp] theorem unlink_data : pipe.unlink.data = pipe.data := rfl

theorem settle_data_sublist (pipe : NamedPipe Message) : pipe.settle.data.Sublist pipe.data := by
  unfold settle
  split
  · exact List.nil_sublist _
  · exact List.Sublist.refl _

theorem closeRead_data_sublist (pipe : NamedPipe Message) :
    pipe.closeRead.data.Sublist pipe.data :=
  settle_data_sublist { pipe with readers := pipe.readers - 1 }

theorem closeWrite_data_sublist (pipe : NamedPipe Message) :
    pipe.closeWrite.data.Sublist pipe.data :=
  settle_data_sublist { pipe with writers := pipe.writers - 1 }

/-- An end that is closed only when it was open. -/
theorem ite_data_sublist {b : Bool} {closed : NamedPipe Message}
    (fewer : closed.data.Sublist pipe.data) :
    (if b then closed else pipe).data.Sublist pipe.data := by
  split
  · exact fewer
  · exact List.Sublist.refl _

/-- The pipe that an `open` leaves, whether it returns or waits. -/
def Opening.Leaves (opening : Opening Message) (opened : NamedPipe Message) : Prop :=
  opening = .opens opened ∨ ∃ seen, opening = .waits seen opened

/-- Opening for reading leaves the messages alone. -/
theorem openRead_data {nonblock : Bool} (leaves : (pipe.openRead nonblock).Leaves opened) :
    opened.data = pipe.data := by
  unfold openRead at leaves
  split at leaves
  · simp [Opening.Leaves] at leaves
  · split at leaves <;> simp [Opening.Leaves] at leaves <;> rw [← leaves]

/-- Opening for writing leaves the messages alone. -/
theorem openWrite_data {nonblock : Bool} (leaves : (pipe.openWrite nonblock).Leaves opened) :
    opened.data = pipe.data := by
  unfold openWrite at leaves
  split at leaves
  · simp [Opening.Leaves] at leaves
  · split at leaves
    · split at leaves <;> simp [Opening.Leaves] at leaves
      rw [← leaves]
    · simp [Opening.Leaves] at leaves
      rw [← leaves]

/-- A write adds its message at the end. -/
theorem put_data (written : pipe.put message = some opened) :
    opened.data = pipe.data ++ [message] := by
  unfold put at written
  split at written
  · exact nomatch written
  · rw [← Option.some.inj written]

/-- A read takes the first message. -/
theorem take_data (taken : pipe.take = .got message opened) :
    pipe.data = message :: opened.data := by
  unfold take at taken
  split at taken
  · split at taken <;> exact nomatch taken
  · rename_i first rest data
    rw [data, ← (Reading.got.inj taken).1, ← (Reading.got.inj taken).2]

end NamedPipe

end LinuxExercises.Foundations
