import Mathlib.Algebra.BigOperators.Group.Finset.Basic
import Mathlib.Data.BitVec
import LinuxExercises.Foundations.NamedPipe
import LinuxExercises.Foundations.Runs

/-!
# The sequence server over FIFOs

Clients ask a server for ranges of numbers. A client makes a FIFO named after its pid,
writes a request into the FIFO of the server and opens its own FIFO to read the answer.
The server takes one request after the other, opens the FIFO of the client, writes the
counter `seq_n` into it, closes it and advances the counter by the length asked for.

There are three clients: `fifo_client` waits in its open for the server,
`fifo_client_nonblock` does not, and `fifo_client_malicious` leaves without reading. The
server opens the FIFO of a client with `O_NONBLOCK` or without, as its argument says. It
goes on with the next request, and leaves the counter alone, when it cannot read a request
or cannot open the FIFO; a failed write it only reports.

Each step of a process makes one call. A call that fails for a reason outside the model
and a client that is killed are steps of their own.
-/

set_option autoImplicit false

namespace LinuxExercises.FifoServer

open Foundations

/-- A C `int`. -/
abbrev CInt := BitVec 32

/-- `struct request`. -/
structure Request where
  pid : Nat
  seqLen : CInt
deriving DecidableEq

/-- The argument of the server. -/
inductive Mode where
  | block
  | nonblock
deriving DecidableEq

/-- Whether `flag` has `O_NONBLOCK`. -/
def Mode.flag : Mode → Bool
  | .block => false
  | .nonblock => true

/-- The three client programs. -/
inductive Kind where
  | client
  | nonblock
  | malicious
deriving DecidableEq

/-- The clients that may come. No pid is used twice. -/
structure Clients where
  pids : Finset Nat
  kind : Nat → Kind
  seqLen : Nat → Nat

/-- Every client asks for at least one number, and together they ask for fewer than an `int`
can count. -/
structure Population extends Clients where
  positive : ∀ p ∈ pids, 1 ≤ seqLen p
  bounded : ∑ p ∈ pids, seqLen p < 2 ^ 31

instance : Coe Population Clients := ⟨Population.toClients⟩

/-- The request of a client. -/
def Clients.request (P : Clients) (p : Nat) : Request where
  pid := p
  seqLen := BitVec.ofNat 32 (P.seqLen p)

/-! ## States -/

/-- Where the server is. A blocked `open` remembers the opening counter it has seen. -/
inductive ServerPc where
  | makeFifo
  | openServerFd
  | waitServerFd (seen : Nat)
  | openDummyFd
  | waitDummyFd (seen : Nat)
  | ignoreSigpipe
  | read
  | openFifo (req : Request)
  | waitFifo (req : Request) (seen : Nat)
  | write (req : Request)
  | close (req : Request)
  | stopped
deriving DecidableEq

/-- Where a client is. `exit` runs the handler that removes the FIFO, after which the
process ends. -/
inductive ClientPc where
  | makeFifo
  | openServer
  | waitServer (seen : Nat)
  | request
  | openFifo
  | waitFifo (seen : Nat)
  | read
  | print (seqNum : CInt)
  | exit
  | close
  | gone
deriving DecidableEq

/-- The server's variables. -/
structure Server where
  pc : ServerPc
  seqN : CInt
deriving DecidableEq

/-- A client and the descriptors that it has open. -/
structure Client where
  pc : ClientPc
  serverFd : Bool
  clientFd : Bool
deriving DecidableEq

/-- A request the server has dealt with, and whether it could open the client's FIFO. -/
structure Handled where
  req : Request
  opened : Bool
deriving DecidableEq

/-- All processes and FIFOs, what the clients have printed, and the requests that the
server has dealt with in their order. No step reads the last two. -/
structure System where
  server : Server
  serverFifo : NamedPipe Request
  client : Nat → Client
  clientFifo : Nat → NamedPipe CInt
  printed : List (Nat × CInt)
  handled : List Handled

/-- Before anything has happened. -/
def start : System where
  server := ⟨.makeFifo, 0⟩
  serverFifo := .absent
  client := fun _ => ⟨.makeFifo, false, false⟩
  clientFifo := fun _ => .absent
  printed := []
  handled := []

/-- The server has its FIFO open for reading. -/
def ServerPc.reads : ServerPc → Bool
  | .makeFifo => false
  | .openServerFd => false
  | .stopped => false
  | _ => true

/-- The server has its FIFO open for writing. -/
def ServerPc.writes : ServerPc → Bool
  | .openDummyFd => false
  | .waitServerFd _ => false
  | pc => pc.reads

namespace System

/-- The server goes on at `pc`. -/
def goto (s : System) (pc : ServerPc) : System := { s with server := { s.server with pc := pc } }

def setServerFifo (s : System) (fifo : NamedPipe Request) : System :=
  { s with serverFifo := fifo }

def setFifo (s : System) (p : Nat) (fifo : NamedPipe CInt) : System :=
  { s with clientFifo := Function.update s.clientFifo p fifo }

def setClient (s : System) (p : Nat) (c : Client) : System :=
  { s with client := Function.update s.client p c }

section Updates

variable (s : System) {p q : Nat} (fifo : NamedPipe CInt) (c : Client)

@[simp] theorem setFifo_same : (s.setFifo p fifo).clientFifo p = fifo :=
  Function.update_self ..

@[simp] theorem setFifo_other (other : q ≠ p) : (s.setFifo p fifo).clientFifo q = s.clientFifo q :=
  Function.update_of_ne other ..

@[simp] theorem setClient_same : (s.setClient p c).client p = c :=
  Function.update_self ..

@[simp] theorem setClient_other (other : q ≠ p) : (s.setClient p c).client q = s.client q :=
  Function.update_of_ne other ..

end Updates

/-- Client `p` goes on at `pc`. -/
def move (s : System) (p : Nat) (pc : ClientPc) : System :=
  s.setClient p { s.client p with pc := pc }

/-! ## The server -/

/-- The server calls `exit`, which closes the ends of its FIFO that it has open. -/
def stop (s : System) : System :=
  let fifo := if s.server.pc.reads then s.serverFifo.closeRead else s.serverFifo
  let fifo := if s.server.pc.writes then fifo.closeWrite else fifo
  (s.setServerFifo fifo).goto .stopped

/-- The FIFO of the client could not be opened: `continue`. -/
def discard (s : System) (req : Request) : System :=
  { s.goto .read with handled := s.handled ++ [⟨req, false⟩] }

/-- The FIFO of the client is open. -/
def accept (s : System) (req : Request) : System :=
  { s.goto (.write req) with handled := s.handled ++ [⟨req, true⟩] }

/-- `seq_n += req.seqLen`, and the next round of the loop. -/
def advance (s : System) (req : Request) : System :=
  { s with server := ⟨.read, s.server.seqN + req.seqLen⟩ }

/-- The server's next call. -/
def stepServer (mode : Mode) (s : System) : Option System :=
  match s.server.pc with
  | .makeFifo => some ((s.setServerFifo s.serverFifo.make).goto .openServerFd)
  | .openServerFd =>
      match s.serverFifo.openRead false with
      | .fails => some s.stop
      | .waits seen fifo => some ((s.setServerFifo fifo).goto (.waitServerFd seen))
      | .opens fifo => some ((s.setServerFifo fifo).goto .openDummyFd)
  | .waitServerFd seen =>
      if s.serverFifo.writeOpens = seen then none else some (s.goto .openDummyFd)
  | .openDummyFd =>
      match s.serverFifo.openWrite false with
      | .fails => some s.stop
      | .waits seen fifo => some ((s.setServerFifo fifo).goto (.waitDummyFd seen))
      | .opens fifo => some ((s.setServerFifo fifo).goto .ignoreSigpipe)
  | .waitDummyFd seen =>
      if s.serverFifo.readOpens = seen then none else some (s.goto .ignoreSigpipe)
  | .ignoreSigpipe => some (s.goto .read)
  | .read =>
      match s.serverFifo.take with
      | .eof => some s
      | .empty => none
      | .got req fifo => some ((s.setServerFifo fifo).goto (.openFifo req))
  | .openFifo req =>
      match (s.clientFifo req.pid).openWrite mode.flag with
      | .fails => some (s.discard req)
      | .waits seen fifo => some ((s.setFifo req.pid fifo).goto (.waitFifo req seen))
      | .opens fifo => some ((s.setFifo req.pid fifo).accept req)
  | .waitFifo req seen =>
      if (s.clientFifo req.pid).readOpens = seen then none else some (s.accept req)
  | .write req =>
      match (s.clientFifo req.pid).put s.server.seqN with
      | none => some (s.goto (.close req))
      | some fifo => some ((s.setFifo req.pid fifo).goto (.close req))
  | .close req => some ((s.setFifo req.pid (s.clientFifo req.pid).closeWrite).advance req)
  | .stopped => none

/-- The server's next call fails. -/
def failServer (s : System) : Option System :=
  match s.server.pc with
  | .read => some s
  | .openFifo req => some (s.discard req)
  | .waitFifo req _ =>
      some ((s.setFifo req.pid (s.clientFifo req.pid).closeWrite).discard req)
  | .write req => some (s.goto (.close req))
  | .close req => some (s.setFifo req.pid (s.clientFifo req.pid).closeWrite).stop
  | .stopped => none
  | _ => some s.stop

/-! ## The clients -/

/-- A client is no more, which closes what it has open. -/
def die (s : System) (p : Nat) : System :=
  let c := s.client p
  let fifo := if c.serverFd then s.serverFifo.closeWrite else s.serverFifo
  let own := if c.clientFd then (s.clientFifo p).closeRead else s.clientFifo p
  ((s.setServerFifo fifo).setFifo p own).setClient p ⟨.gone, false, false⟩

/-- The next call of client `p`. A write without a reader ends the client, which does not
ignore `SIGPIPE`. -/
def stepClient (P : Clients) (s : System) (p : Nat) : Option System :=
  match (s.client p).pc with
  | .makeFifo => some ((s.setFifo p (s.clientFifo p).make).move p .openServer)
  | .openServer =>
      match s.serverFifo.openWrite false with
      | .fails => some (s.move p .exit)
      | .waits seen fifo =>
          some ((s.setServerFifo fifo).setClient p ⟨.waitServer seen, true, false⟩)
      | .opens fifo => some ((s.setServerFifo fifo).setClient p ⟨.request, true, false⟩)
  | .waitServer seen =>
      if s.serverFifo.readOpens = seen then none else some (s.move p .request)
  | .request =>
      match s.serverFifo.put (P.request p) with
      | none => some (s.die p)
      | some fifo =>
          let pc := if P.kind p = .malicious then .exit else .openFifo
          some ((s.setServerFifo fifo).move p pc)
  | .openFifo =>
      match (s.clientFifo p).openRead (P.kind p = .nonblock) with
      | .fails => some (s.move p .exit)
      | .waits seen fifo => some ((s.setFifo p fifo).setClient p ⟨.waitFifo seen, true, true⟩)
      | .opens fifo => some ((s.setFifo p fifo).setClient p ⟨.read, true, true⟩)
  | .waitFifo seen =>
      if (s.clientFifo p).writeOpens = seen then none else some (s.move p .read)
  | .read =>
      match (s.clientFifo p).take with
      | .eof => some (s.move p .exit)
      | .empty => if P.kind p = .nonblock then some (s.move p .exit) else none
      | .got seqNum fifo => some ((s.setFifo p fifo).move p (.print seqNum))
  | .print seqNum => some { s.move p .exit with printed := s.printed ++ [(p, seqNum)] }
  | .exit => some ((s.setFifo p (s.clientFifo p).unlink).move p .close)
  | .close => some (s.die p)
  | .gone => none

/-- The next call of client `p` fails. The handler that removes the FIFO is registered
once the FIFO has been made. A blocked `open` does not fail. -/
def failClient (s : System) (p : Nat) : Option System :=
  match (s.client p).pc with
  | .makeFifo => some (s.die p)
  | .waitServer _ => none
  | .waitFifo _ => none
  | .exit => some (s.move p .close)
  | .close => none
  | .gone => none
  | _ => some (s.move p .exit)

end System

/-! ## Runs -/

/-- One step of one process: its next call, that call failing, or the end of a client
that is killed. -/
inductive Action where
  | server
  | serverFails
  | client (p : Nat)
  | clientFails (p : Nat)
  | kill (p : Nat)
deriving DecidableEq

/-- The step of an action, when it is enabled. -/
def step (P : Clients) (mode : Mode) (s : System) : Action → Option System
  | .server => s.stepServer mode
  | .serverFails => s.failServer
  | .client p => if p ∈ P.pids then s.stepClient P p else none
  | .clientFails p => if p ∈ P.pids then s.failClient p else none
  | .kill p => if p ∈ P.pids then some (s.die p) else none

end LinuxExercises.FifoServer
