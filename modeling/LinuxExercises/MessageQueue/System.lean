import Mathlib.Algebra.BigOperators.Group.Finset.Basic
import Mathlib.Data.BitVec
import LinuxExercises.Foundations.Runs
import LinuxExercises.Foundations.TypedQueue

/-!
# The sequence server over a message queue

One System V message queue carries both the requests and the responses. A request has
type 1, a response has the pid of the client as its type. The server takes a message of
type 1, sends the counter `seq_num` back and advances it by the length asked for. A client
sends its request and takes a message whose type is its own pid.

The text of a message is two words of memory. A request fills both; behind the number in
a response the second word is whatever lies there, which the step of the server chooses.

A text has eight bytes, and `SIZE` is ten: with each message the two bytes behind the variable
are sent too, and written where it is received. It is assumed that they may be read and written
and that nothing is kept there.

The queue holds at most `capacity` messages, and whoever sends into a full queue waits.
When the server cannot send at all, because the type is not positive, it leaves its loop
and removes the queue. The calls of a client fail without the queue, and the client exits.
-/

set_option autoImplicit false

namespace LinuxExercises.MessageQueue

open Foundations

/-- A C `int`. -/
abbrev CInt := BitVec 32

/-- `struct requestMsg` or `struct responseMsg`. -/
structure Message where
  mtype : Int
  first : CInt
  second : CInt
deriving DecidableEq

/-- The clients that may come. No pid is used twice. -/
structure Clients where
  pids : Finset CInt
  seqLen : CInt → Nat
  positive : ∀ p ∈ pids, 0 < p.toInt

/-- Every client asks for at least one number, and together they ask for fewer than an `int`
can count. -/
structure Population extends Clients where
  lengths : ∀ p ∈ pids, 1 ≤ seqLen p
  bounded : ∑ p ∈ pids, seqLen p < 2 ^ 31

instance : Coe Population Clients := ⟨Population.toClients⟩

/-- The request of a client. -/
def Clients.request (P : Clients) (p : CInt) : Message where
  mtype := 1
  first := p
  second := BitVec.ofNat 32 (P.seqLen p)

/-- The response to a request. -/
def Message.response (req : Message) (seqNum padding : CInt) : Message where
  mtype := req.first.toInt
  first := seqNum
  second := padding

/-! ## States -/

/-- Where the server is. -/
inductive ServerPc where
  | get
  | receive
  | send (req : Message)
  | stopped
deriving DecidableEq

/-- Where a client is. -/
inductive ClientPc where
  | get
  | send
  | receive
  | gone
deriving DecidableEq

/-- A request the server has answered, and the number it has sent. -/
structure Answer where
  req : Message
  seqNum : CInt
deriving DecidableEq

/-- The server, the queue and the clients; the messages the server has taken as requests,
those it has answered, and what the clients have received. No step reads the last three. -/
structure System where
  server : ServerPc
  seqNum : CInt
  linked : Bool
  queue : List Message
  client : CInt → ClientPc
  taken : List Message
  answered : List Answer
  received : List (CInt × CInt)

/-- Before anything has happened. -/
def start : System where
  server := .get
  seqNum := 0
  linked := false
  queue := []
  client := fun _ => .get
  taken := []
  answered := []
  received := []

namespace System

/-- Client `p` goes on at `pc`. -/
def move (s : System) (p : CInt) (pc : ClientPc) : System :=
  { s with client := Function.update s.client p pc }

@[simp] theorem move_same (s : System) (p : CInt) (pc : ClientPc) : (s.move p pc).client p = pc :=
  Function.update_self ..

@[simp] theorem move_other (s : System) {p q : CInt} (pc : ClientPc) (other : q ≠ p) :
    (s.move p pc).client q = s.client q :=
  Function.update_of_ne other ..

/-! ## What the calls do -/

/-- The server has created the queue. -/
def create (s : System) : System := { s with server := .receive, linked := true }

/-- The server has taken a message as a request. -/
def take (s : System) (req : Message) (rest : List Message) : System :=
  { s with server := .send req, queue := rest, taken := s.taken ++ [req] }

/-- The server has sent the response, and the counter moves on. -/
def respond (s : System) (req : Message) (padding : CInt) : System :=
  { s with
    server := .receive
    seqNum := s.seqNum + req.second
    queue := s.queue ++ [req.response s.seqNum padding]
    answered := s.answered ++ [⟨req, s.seqNum⟩] }

/-- The server exits and removes the queue. -/
def stop (s : System) : System := { s with server := .stopped, linked := false, queue := [] }

/-- A client has sent its request. -/
def request (P : Clients) (s : System) (p : CInt) : System :=
  { s.move p .receive with queue := s.queue ++ [P.request p] }

/-- A client has received a message. -/
def finish (s : System) (p : CInt) (resp : Message) (rest : List Message) : System :=
  { s.move p .gone with queue := rest, received := s.received ++ [(p, resp.first)] }

/-- The server's next call, with what lies behind the number in a response. -/
def stepServer (capacity : Nat) (s : System) (padding : CInt) : Option System :=
  match s.server with
  | .get => some s.create
  | .receive => (TypedQueue.receive Message.mtype 1 s.queue).map fun (req, rest) => s.take req rest
  | .send req =>
      let resp := req.response s.seqNum padding
      if resp.mtype < 1 then some s.stop
      else (TypedQueue.send capacity s.queue resp).map fun _ => s.respond req padding
  | .stopped => none

/-- The next call of client `p`. -/
def stepClient (P : Clients) (capacity : Nat) (s : System) (p : CInt) : Option System :=
  match s.client p with
  | .get => some (s.move p (if s.linked then .send else .gone))
  | .send =>
      if s.linked then
        (TypedQueue.send capacity s.queue (P.request p)).map fun _ => s.request P p
      else some (s.move p .gone)
  | .receive =>
      if s.linked then
        (TypedQueue.receive Message.mtype p.toInt s.queue).map fun (resp, rest) =>
          s.finish p resp rest
      else some (s.move p .gone)
  | .gone => none

end System

/-! ## Runs -/

/-- The next call of the server or of a client. -/
inductive Action where
  | server (padding : CInt)
  | client (p : CInt)
deriving DecidableEq

/-- The step of an action, when it is enabled. -/
def step (P : Clients) (capacity : Nat) (s : System) : Action → Option System
  | .server padding => s.stepServer capacity padding
  | .client p => if p ∈ P.pids then s.stepClient P capacity p else none

/-- What a step does. -/
inductive Stepped (P : Clients) (capacity : Nat) (s : System) : System → Prop
  | create (pc : s.server = .get) : Stepped P capacity s s.create
  | take {req : Message} {rest : List Message} (pc : s.server = .receive)
      (received : TypedQueue.receive Message.mtype 1 s.queue = some (req, rest)) :
      Stepped P capacity s (s.take req rest)
  | stop {req : Message} (pc : s.server = .send req) (invalid : req.first.toInt < 1) :
      Stepped P capacity s s.stop
  | respond {req : Message} (padding : CInt) (pc : s.server = .send req)
      (valid : 1 ≤ req.first.toInt) (room : s.queue.length < capacity) :
      Stepped P capacity s (s.respond req padding)
  | enter {p : CInt} (among : p ∈ P.pids) (pc : s.client p = .get) (linked : s.linked = true) :
      Stepped P capacity s (s.move p .send)
  | leave {p : CInt} (among : p ∈ P.pids) (removed : s.linked = false) :
      Stepped P capacity s (s.move p .gone)
  | request {p : CInt} (among : p ∈ P.pids) (pc : s.client p = .send) (linked : s.linked = true)
      (room : s.queue.length < capacity) : Stepped P capacity s (s.request P p)
  | finish {p : CInt} {resp : Message} {rest : List Message} (among : p ∈ P.pids)
      (pc : s.client p = .receive) (linked : s.linked = true)
      (received : TypedQueue.receive Message.mtype p.toInt s.queue = some (resp, rest)) :
      Stepped P capacity s (s.finish p resp rest)

variable {P : Clients} {capacity : Nat} {s t : System}

theorem stepped_server {padding : CInt} (taken : s.stepServer capacity padding = some t) :
    Stepped P capacity s t := by
  rw [System.stepServer] at taken
  cases pc : s.server with
  | get =>
      rw [pc] at taken
      exact Option.some.inj taken ▸ .create pc
  | receive =>
      rw [pc] at taken
      obtain ⟨⟨req, rest⟩, received, rfl⟩ := Option.map_eq_some_iff.mp taken
      exact .take pc received
  | send req =>
      rw [pc] at taken
      dsimp only at taken
      split at taken
      · rename_i invalid
        exact Option.some.inj taken ▸ .stop pc invalid
      · rename_i valid
        obtain ⟨queue, sent, rfl⟩ := Option.map_eq_some_iff.mp taken
        exact .respond padding pc (Int.not_lt.mp valid) (TypedQueue.send_eq_some sent).1
  | stopped =>
      rw [pc] at taken
      cases taken

theorem stepped_client {p : CInt} (among : p ∈ P.pids)
    (taken : s.stepClient P capacity p = some t) : Stepped P capacity s t := by
  rw [System.stepClient] at taken
  cases linked : s.linked with
  | false =>
      rw [linked] at taken
      cases pc : s.client p with
      | gone =>
          rw [pc] at taken
          cases taken
      | _ =>
          rw [pc] at taken
          exact Option.some.inj taken ▸ .leave among linked
  | true =>
      rw [linked] at taken
      cases pc : s.client p with
      | get =>
          rw [pc] at taken
          exact Option.some.inj taken ▸ .enter among pc linked
      | send =>
          rw [pc] at taken
          obtain ⟨queue, sent, rfl⟩ := Option.map_eq_some_iff.mp taken
          exact .request among pc linked (TypedQueue.send_eq_some sent).1
      | receive =>
          rw [pc] at taken
          obtain ⟨⟨resp, rest⟩, received, rfl⟩ := Option.map_eq_some_iff.mp taken
          exact .finish among pc linked received
      | gone =>
          rw [pc] at taken
          cases taken

/-- **Every step is one of these.** -/
theorem stepped {a : Action} (taken : step P capacity s a = some t) : Stepped P capacity s t := by
  cases a with
  | server padding => exact stepped_server taken
  | client p =>
      rw [step] at taken
      split at taken
      · rename_i among
        exact stepped_client among taken
      · cases taken

end LinuxExercises.MessageQueue
