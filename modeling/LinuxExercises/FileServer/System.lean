import Mathlib.Data.Finset.Basic
import LinuxExercises.Foundations.Buffer
import LinuxExercises.Foundations.QueueName
import LinuxExercises.Foundations.Runs

/-!
# The file server over message queues

A client sends the name of a file into the queue of the server. The server reads the file
and sends what it has read into the reply queue, from which the client takes it. All
clients use one name for the reply queue. Whoever opens it, the server or a client,
creates it when it is not there, and every client that is done unlinks it.

The server opens a file for reading and writing, and exits when it cannot. Both kinds of
queues hold at most `capacity` messages, and whoever sends into a full queue waits.
-/

set_option autoImplicit false

namespace LinuxExercises.FileServer

open Foundations

/-- The name of a file. -/
abbrev Path := List Byte

/-- How much the server reads of a file. -/
def size : Nat := 8192

/-- The clients that may come, and the files they name. Every client names a file that the
server can read as a whole. -/
structure Clients where
  ids : Finset Nat
  path : Nat → Path
  contents : Path → List Byte
  writable : Path → Bool
  small : ∀ c ∈ ids, (contents (path c)).length ≤ size

namespace Clients

/-- The contents of the file that a client names. -/
def file (P : Clients) (c : Nat) : List Byte := P.contents (P.path c)

/-- What the server reads of a file. -/
def read (P : Clients) (path : Path) : List Byte := (P.contents path).take size

theorem read_path (P : Clients) {c : Nat} (among : c ∈ P.ids) : P.read (P.path c) = P.file c :=
  List.take_of_length_le (P.small c among)

end Clients

/-! ## States -/

/-- Where the server is. -/
inductive ServerPc where
  | start
  | receive
  | openFile (path : Path)
  | openQueue (fileRead : List Byte)
  | send (clientMqd : Nat) (fileRead : List Byte)
  | stopped
deriving DecidableEq

/-- Where a client is. `unlink` is the handler that runs on exit. -/
inductive ClientPc where
  | start
  | send (serverMqd : Nat)
  | openQueue
  | receive (clientMqd : Nat)
  | unlink
  | gone
deriving DecidableEq

/-- The processes, the two names and the queues behind them, and what the clients have
received. No step reads the last. -/
structure System where
  server : ServerPc
  serverMqd : Nat
  serverName : QueueName Path
  clientName : QueueName (List Byte)
  client : Nat → ClientPc
  received : List (Nat × List Byte)

/-- Before anything has happened. -/
def start : System where
  server := .start
  serverMqd := 0
  serverName := .absent
  clientName := .absent
  client := fun _ => .start
  received := []

namespace System

/-- Client `c` goes on at `pc`. -/
def move (s : System) (c : Nat) (pc : ClientPc) : System :=
  { s with client := Function.update s.client c pc }

@[simp] theorem move_same (s : System) (c : Nat) (pc : ClientPc) : (s.move c pc).client c = pc :=
  Function.update_self ..

@[simp] theorem move_other (s : System) {c d : Nat} (pc : ClientPc) (other : d ≠ c) :
    (s.move c pc).client d = s.client d :=
  Function.update_of_ne other ..

/-- The server exits and unlinks its queue. -/
def stop (s : System) : System :=
  { s with server := .stopped, serverName := s.serverName.unlink }

/-- The server's next call. -/
def stepServer (P : Clients) (capacity : Nat) (s : System) : Option System :=
  match s.server with
  | .start =>
      some { s with
        server := .receive
        serverMqd := s.serverName.descriptor
        serverName := s.serverName.create }
  | .receive =>
      (s.serverName.receive s.serverMqd).map fun (path, name) =>
        { s with server := .openFile path, serverName := name }
  | .openFile path =>
      if P.writable path then some { s with server := .openQueue (P.read path) } else some s.stop
  | .openQueue fileRead =>
      some { s with
        server := .send s.clientName.descriptor fileRead
        clientName := s.clientName.create }
  | .send clientMqd fileRead =>
      (s.clientName.send capacity clientMqd fileRead).map fun name =>
        { s with server := .receive, clientName := name }
  | .stopped => none

/-- The next call of client `c`. -/
def stepClient (P : Clients) (capacity : Nat) (s : System) (c : Nat) : Option System :=
  match s.client c with
  | .start =>
      some { s.move c (.send s.serverName.descriptor) with serverName := s.serverName.create }
  | .send serverMqd =>
      (s.serverName.send capacity serverMqd (P.path c)).map fun name =>
        { s.move c .openQueue with serverName := name }
  | .openQueue =>
      some { s.move c (.receive s.clientName.descriptor) with clientName := s.clientName.create }
  | .receive clientMqd =>
      (s.clientName.receive clientMqd).map fun (buf, name) =>
        { s.move c .unlink with clientName := name, received := s.received ++ [(c, buf)] }
  | .unlink => some { s.move c .gone with clientName := s.clientName.unlink }
  | .gone => none

end System

/-! ## Runs -/

/-- The next call of the server or of a client. -/
inductive Action where
  | server
  | client (c : Nat)
deriving DecidableEq

/-- The step of an action, when it is enabled. -/
def step (P : Clients) (capacity : Nat) (s : System) : Action → Option System
  | .server => s.stepServer P capacity
  | .client c => if c ∈ P.ids then s.stepClient P capacity c else none

end LinuxExercises.FileServer
