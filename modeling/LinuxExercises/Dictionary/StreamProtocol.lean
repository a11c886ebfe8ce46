import LinuxExercises.Foundations.Runs
import LinuxExercises.Dictionary.Record

/-!
# The dictionary over a stream socket

A client and the server child that serves it exchange records of 512 bytes over a stream
connection, `lookup7` over a local socket and `lookup8` over the Internet. A call of
`lookup` writes its record and reads the reply into the same record; the server child
reads a record, looks it up and writes it back.

A stream keeps the bytes and their order but not the boundaries of the writes, so a
`read` may return any nonempty initial part of what has arrived. Both sides call `read`
once per record and only test whether it failed. The choice of how much each `read`
returns is part of the action, and so are the answers of the server's own `lookup` and
the points at which either process ends.

When every `read` returns a whole record, the conversation takes turns: at every moment
it is in one of the stages of `Turn`, and requests, lookups, replies and results pair up
(`paired_of_whole`). A single short `read` breaks this (`exists_not_paired`).
-/

set_option autoImplicit false

namespace LinuxExercises.Dictionary

open Foundations

/-! ## Reading from a stream -/

/-- `read` with a buffer of `size` bytes returns `n` bytes of the stream: they replace the
first bytes of the buffer. At least one byte is returned, and at most what has arrived. -/
def recv {size : Nat} (stream : List Byte) (n : Nat) (buffer : Buffer size) :
    Option (Buffer size × List Byte) :=
  if 0 < n ∧ n ≤ stream.length then
    match buffer.store 0 (stream.take n) with
    | .ok buffer => some (buffer, stream.drop n)
    | .error _ => none
  else none

/-- A `read` of one whole record from a stream that holds exactly one. -/
theorem recv_whole {size : Nat} {n : Nat} {message buffer result : Buffer size}
    {rest : List Byte} (whole : n = size)
    (received : recv message.bytes n buffer = some (result, rest)) :
    result = message ∧ rest = [] := by
  subst whole
  have all : message.bytes.take n = message.bytes :=
    List.take_of_length_le (Nat.le_of_eq message.size_eq)
  have none : message.bytes.drop n = [] :=
    List.drop_eq_nil_of_le (Nat.le_of_eq message.size_eq)
  obtain ⟨stored, store, bytes⟩ := buffer.store_whole message.size_eq
  rw [recv, all, none, store] at received
  split at received
  · cases received
    exact ⟨Buffer.ext bytes, rfl⟩
  · cases received

/-- Nothing is read from an empty stream. -/
theorem recv_nil {size : Nat} (n : Nat) (buffer : Buffer size) : recv [] n buffer = none := by
  rw [recv, if_neg]
  rintro ⟨positive, short⟩
  exact absurd (Nat.lt_of_lt_of_le positive short) (Nat.not_lt_zero _)

/-! ## The two processes -/

/-- The client process: between two calls of `lookup`, or in the `read` of a call with the
record it has written, or gone. -/
inductive Client where
  | ready
  | waiting (sought : Dictrec)
  | gone
deriving DecidableEq

/-- The server child: in `read`, in its own `lookup` with the record it has read, or
gone. -/
inductive Server where
  | reading
  | serving
  | gone
deriving DecidableEq

/-- One lookup of the server: the record as it was looked up, the verdict and the record
afterwards. -/
structure Service where
  request : Dictrec
  verdict : Verdict
  reply : Dictrec
deriving DecidableEq

/-- The client, the server child and the bytes under way. The last three fields record
what happened. -/
structure Connection where
  client : Client
  server : Server
  tryit : Dictrec
  toServer : List Byte
  toClient : List Byte
  sent : List Dictrec
  served : List Service
  returned : List Dictrec
deriving DecidableEq

namespace Connection

/-- The connection just accepted. The record of the server is not initialised. -/
def start (uninitialised : Dictrec) : Connection where
  client := .ready
  server := .reading
  tryit := uninitialised
  toServer := []
  toClient := []
  sent := []
  served := []
  returned := []

/-- A step of one of the two processes. -/
inductive Action where
  /-- The client calls `lookup`, which writes the record. -/
  | send (sought : Dictrec)
  /-- The client's `read` returns `n` bytes, and `lookup` returns. -/
  | receive (n : Nat)
  /-- The client's `read` finds the connection closed, and `lookup` returns. -/
  | receiveEnd
  /-- The client ends, by itself, through a failed call or through a signal. -/
  | quit
  /-- The server's `read` returns `n` bytes. -/
  | serverRead (n : Nat)
  /-- The server's `read` finds the connection closed. -/
  | serverEnd
  /-- The server's `lookup` returns, and the server writes the record or gives up. -/
  | answer (verdict : Verdict) (reply : Dictrec)
  /-- The server ends in its `lookup` or because its `write` failed. -/
  | abandon
deriving DecidableEq

/-- The record is written as it is; the verdict decides only whether to go on. -/
def serve (c : Connection) (verdict : Verdict) (reply : Dictrec) : Connection :=
  match verdict with
  | .unavail => { c with server := .gone, served := c.served ++ [⟨c.tryit, verdict, reply⟩] }
  | _ =>
    { c with
      server := .reading
      tryit := reply
      toClient := c.toClient ++ reply.bytes
      served := c.served ++ [⟨c.tryit, verdict, reply⟩] }

def step (c : Connection) : Action → Option Connection
  | .send sought =>
    if c.client = .ready then
      some { c with
        client := .waiting sought
        toServer := c.toServer ++ sought.bytes
        sent := c.sent ++ [sought] }
    else none
  | .receive n =>
    match c.client with
    | .waiting sought =>
      match recv c.toClient n sought with
      | some (record, rest) =>
        some { c with client := .ready, toClient := rest, returned := c.returned ++ [record] }
      | none => none
    | _ => none
  | .receiveEnd =>
    match c.client with
    | .waiting sought =>
      if c.toClient = [] ∧ c.server = .gone then
        some { c with client := .ready, returned := c.returned ++ [sought] }
      else none
    | _ => none
  | .quit => if c.client = .gone then none else some { c with client := .gone }
  | .serverRead n =>
    if c.server = .reading then
      match recv c.toServer n c.tryit with
      | some (request, rest) =>
        some { c with server := .serving, tryit := request, toServer := rest }
      | none => none
    else none
  | .serverEnd =>
    if c.server = .reading ∧ c.toServer = [] ∧ c.client = .gone then
      some { c with server := .gone }
    else none
  | .answer verdict reply =>
    if c.server = .serving then some (c.serve verdict reply) else none
  | .abandon => if c.server = .serving then some { c with server := .gone } else none

/-- Everything that a step can do. -/
inductive Stepped (c : Connection) : Action → Connection → Prop
  | send {sought : Dictrec} (ready : c.client = .ready) :
      Stepped c (.send sought) { c with
        client := .waiting sought
        toServer := c.toServer ++ sought.bytes
        sent := c.sent ++ [sought] }
  | receive {n : Nat} {sought record : Dictrec} {rest : List Byte}
      (waiting : c.client = .waiting sought)
      (received : recv c.toClient n sought = some (record, rest)) :
      Stepped c (.receive n)
        { c with client := .ready, toClient := rest, returned := c.returned ++ [record] }
  | receiveEnd {sought : Dictrec} (waiting : c.client = .waiting sought)
      (drained : c.toClient = []) (gone : c.server = .gone) :
      Stepped c .receiveEnd { c with client := .ready, returned := c.returned ++ [sought] }
  | quit : Stepped c .quit { c with client := .gone }
  | serverRead {n : Nat} {request : Dictrec} {rest : List Byte} (reading : c.server = .reading)
      (received : recv c.toServer n c.tryit = some (request, rest)) :
      Stepped c (.serverRead n)
        { c with server := .serving, tryit := request, toServer := rest }
  | serverEnd (reading : c.server = .reading) (empty : c.toServer = [])
      (gone : c.client = .gone) :
      Stepped c .serverEnd { c with server := .gone }
  | answer {verdict : Verdict} {reply : Dictrec} (serving : c.server = .serving) :
      Stepped c (.answer verdict reply) (c.serve verdict reply)
  | abandon (serving : c.server = .serving) : Stepped c .abandon { c with server := .gone }

theorem stepped {c d : Connection} {a : Action} (taken : c.step a = some d) : c.Stepped a d := by
  cases a with
  | send sought =>
      rw [step] at taken
      split at taken <;> cases taken
      next ready => exact .send ready
  | receive n =>
      rw [step] at taken
      split at taken
      next sought waiting =>
        split at taken <;> cases taken
        next record rest received => exact .receive waiting received
      next => cases taken
  | receiveEnd =>
      rw [step] at taken
      split at taken
      next sought waiting =>
        split at taken <;> cases taken
        next ended => exact .receiveEnd waiting ended.1 ended.2
      next => cases taken
  | quit =>
      rw [step] at taken
      split at taken <;> cases taken
      exact .quit
  | serverRead n =>
      rw [step] at taken
      split at taken
      next reading =>
        split at taken <;> cases taken
        next request rest received => exact .serverRead reading received
      next => cases taken
  | serverEnd =>
      rw [step] at taken
      split at taken <;> cases taken
      next ended => exact .serverEnd ended.1 ended.2.1 ended.2.2
  | answer verdict reply =>
      rw [step] at taken
      split at taken <;> cases taken
      next serving => exact .answer serving
  | abandon =>
      rw [step] at taken
      split at taken <;> cases taken
      next serving => exact .abandon serving

/-- Requests, lookups, replies and results pair up: the server looks up the requests in
their order, and the calls return the replies in their order; between two calls of the
client there was one lookup for each request and one result for each reply. -/
structure Paired (c : Connection) : Prop where
  lookups : c.served.map Service.request <+: c.sent
  results : c.returned <+: c.served.map Service.reply
  balanced : c.client = .ready →
    c.served.map Service.request = c.sent ∧ c.returned = c.served.map Service.reply

/-- Every `read` of a record returns a whole record, of the client and of the server. The
`read` with which the server finds that there are no more requests is none of a record. -/
def Whole : Action → Prop
  | .receive n => n = WORD + TEXT
  | .receiveEnd => False
  | .serverRead n => n = WORD + TEXT
  | _ => True

/-! ## Taking turns -/

/-- The stages of a conversation by turns. -/
inductive Turn where
  /-- No request is under way. -/
  | idle
  /-- A request is on its way to the server. -/
  | asked (request : Dictrec)
  /-- The server is looking a request up. -/
  | serving (request : Dictrec)
  /-- A reply is on its way to the client. -/
  | answered (reply : Dictrec)
  /-- The server is gone without a reply. -/
  | owed

/-- The bytes under way at a stage, and what the record lacks by then. -/
def AtTurn (c : Connection) : Turn → Prop
  | .idle =>
    c.toServer = [] ∧ c.toClient = [] ∧ c.server ≠ .serving ∧
      (∀ sought, c.client ≠ .waiting sought) ∧ (c.client = .ready → c.server = .reading) ∧
      c.served.map Service.request = c.sent ∧ c.returned = c.served.map Service.reply
  | .asked request =>
    c.toServer = request.bytes ∧ c.toClient = [] ∧ c.server = .reading ∧ c.client ≠ .ready ∧
      c.sent = c.served.map Service.request ++ [request] ∧
      c.returned = c.served.map Service.reply
  | .serving request =>
    c.toServer = [] ∧ c.toClient = [] ∧ c.server = .serving ∧ c.client ≠ .ready ∧
      c.tryit = request ∧ c.sent = c.served.map Service.request ++ [request] ∧
      c.returned = c.served.map Service.reply
  | .answered reply =>
    c.toServer = [] ∧ c.toClient = reply.bytes ∧ c.server ≠ .serving ∧ c.client ≠ .ready ∧
      (∀ sought, c.client = .waiting sought → c.server = .reading) ∧
      c.served.map Service.request = c.sent ∧
      c.served.map Service.reply = c.returned ++ [reply]
  | .owed =>
    c.toServer = [] ∧ c.toClient = [] ∧ c.server = .gone ∧ c.client ≠ .ready ∧
      c.served.map Service.request <+: c.sent ∧ c.returned <+: c.served.map Service.reply

/-- The pairs are complete up to what is under way. -/
theorem AtTurn.paired {c : Connection} {turn : Turn} (stage : c.AtTurn turn) : Paired c := by
  cases turn with
  | idle =>
      obtain ⟨-, -, -, -, -, lookups, results⟩ := stage
      exact ⟨lookups ▸ List.prefix_rfl, results ▸ List.prefix_rfl, fun _ => ⟨lookups, results⟩⟩
  | asked request =>
      obtain ⟨-, -, -, busy, sent, results⟩ := stage
      exact ⟨sent ▸ List.prefix_append _ _, results ▸ List.prefix_rfl,
        fun ready => absurd ready busy⟩
  | serving request =>
      obtain ⟨-, -, -, busy, -, sent, results⟩ := stage
      exact ⟨sent ▸ List.prefix_append _ _, results ▸ List.prefix_rfl,
        fun ready => absurd ready busy⟩
  | answered reply =>
      obtain ⟨-, -, -, busy, -, lookups, replies⟩ := stage
      exact ⟨lookups ▸ List.prefix_rfl, replies ▸ List.prefix_append _ _,
        fun ready => absurd ready busy⟩
  | owed =>
      obtain ⟨-, -, -, busy, lookups, results⟩ := stage
      exact ⟨lookups, results, fun ready => absurd ready busy⟩

theorem atTurn_start (uninitialised : Dictrec) : (start uninitialised).AtTurn .idle := by
  refine ⟨rfl, rfl, ?_, ?_, fun _ => rfl, rfl, rfl⟩
  · intro serving
    cases serving
  · intro sought waiting
    cases waiting

/-- A request is written between two calls, when nothing is under way. -/
theorem atTurn_send {c d : Connection} {turn : Turn} {sought : Dictrec}
    (stage : c.AtTurn turn) (taken : c.step (.send sought) = some d) :
    d.AtTurn (.asked sought) := by
  cases stepped taken with | send ready =>
  cases turn with
  | idle =>
      obtain ⟨toServer, toClient, -, -, reading, lookups, results⟩ := stage
      refine ⟨?_, toClient, reading ready, ?_, ?_, results⟩
      · simp only [toServer, List.nil_append]
      · simp
      · simp only [lookups]
  | asked request => exact absurd ready stage.2.2.2.1
  | serving request => exact absurd ready stage.2.2.2.1
  | answered reply => exact absurd ready stage.2.2.2.1
  | owed => exact absurd ready stage.2.2.2.1

/-- A whole reply is read when a reply is under way, and ends the turn. -/
theorem atTurn_receive {c d : Connection} {turn : Turn} {n : Nat} (whole : n = WORD + TEXT)
    (stage : c.AtTurn turn) (taken : c.step (.receive n) = some d) : d.AtTurn .idle := by
  cases stepped taken with | receive waiting received =>
  have empty : c.toClient ≠ [] := by
    intro empty
    rw [empty, recv_nil] at received
    cases received
  cases turn with
  | idle => exact absurd stage.2.1 empty
  | asked request => exact absurd stage.2.1 empty
  | serving request => exact absurd stage.2.1 empty
  | answered reply =>
      obtain ⟨toServer, toClient, notServing, -, reading, lookups, replies⟩ := stage
      rw [toClient] at received
      obtain ⟨rfl, rfl⟩ := recv_whole whole received
      exact ⟨toServer, rfl, notServing, by simp, fun _ => reading _ waiting, lookups,
        replies.symm⟩
  | owed => exact absurd stage.2.1 empty

/-- A client that ends leaves the stage as it is. -/
theorem atTurn_quit {c d : Connection} {turn : Turn} (stage : c.AtTurn turn)
    (taken : c.step .quit = some d) : d.AtTurn turn := by
  cases stepped taken
  cases turn with
  | idle =>
      obtain ⟨toServer, toClient, notServing, -, -, lookups, results⟩ := stage
      exact ⟨toServer, toClient, notServing, by simp, by simp, lookups, results⟩
  | asked request =>
      obtain ⟨toServer, toClient, reading, -, sent, results⟩ := stage
      exact ⟨toServer, toClient, reading, by simp, sent, results⟩
  | serving request =>
      obtain ⟨toServer, toClient, serving, -, tryit, sent, results⟩ := stage
      exact ⟨toServer, toClient, serving, by simp, tryit, sent, results⟩
  | answered reply =>
      obtain ⟨toServer, toClient, notServing, -, -, lookups, replies⟩ := stage
      exact ⟨toServer, toClient, notServing, by simp, by simp, lookups, replies⟩
  | owed =>
      obtain ⟨toServer, toClient, gone, -, lookups, results⟩ := stage
      exact ⟨toServer, toClient, gone, by simp, lookups, results⟩

/-- A whole request is read when one is under way. -/
theorem atTurn_serverRead {c d : Connection} {turn : Turn} {n : Nat} (whole : n = WORD + TEXT)
    (stage : c.AtTurn turn) (taken : c.step (.serverRead n) = some d) :
    ∃ request, d.AtTurn (.serving request) := by
  cases stepped taken with | serverRead reading received =>
  have empty : c.toServer ≠ [] := by
    intro empty
    rw [empty, recv_nil] at received
    cases received
  cases turn with
  | idle => exact absurd stage.1 empty
  | asked asked =>
      obtain ⟨toServer, toClient, -, busy, sent, results⟩ := stage
      rw [toServer] at received
      obtain ⟨rfl, rfl⟩ := recv_whole whole received
      exact ⟨_, rfl, toClient, rfl, busy, rfl, sent, results⟩
  | serving asked => exact absurd stage.1 empty
  | answered reply => exact absurd stage.1 empty
  | owed => exact absurd stage.1 empty

/-- The server finds no more requests only when none is under way. -/
theorem atTurn_serverEnd {c d : Connection} {turn : Turn} (stage : c.AtTurn turn)
    (taken : c.step .serverEnd = some d) : d.AtTurn turn := by
  cases stepped taken with | serverEnd reading empty gone =>
  cases turn with
  | idle =>
      obtain ⟨toServer, toClient, -, notWaiting, -, lookups, results⟩ := stage
      exact ⟨toServer, toClient, by simp, notWaiting, by simp [gone], lookups, results⟩
  | asked request =>
      have length := request.size_eq
      rw [← stage.1, empty] at length
      cases length
  | serving request => cases reading.symm.trans stage.2.2.1
  | answered reply =>
      obtain ⟨toServer, toClient, -, busy, -, lookups, replies⟩ := stage
      exact ⟨toServer, toClient, by simp, busy, by simp [gone], lookups, replies⟩
  | owed => cases reading.symm.trans stage.2.2.1

/-- Only a server in its lookup serves a request. -/
theorem AtTurn.serving {c : Connection} {turn : Turn} (stage : c.AtTurn turn)
    (serving : c.server = .serving) : ∃ request, c.AtTurn (.serving request) := by
  cases turn with
  | idle => exact absurd serving stage.2.2.1
  | asked request => cases serving.symm.trans stage.2.2.1
  | serving request => exact ⟨request, stage⟩
  | answered reply => exact absurd serving stage.2.2.1
  | owed => cases serving.symm.trans stage.2.2.1

theorem atTurn_answer {c d : Connection} {turn : Turn} {verdict : Verdict} {reply : Dictrec}
    (stage : c.AtTurn turn) (taken : c.step (.answer verdict reply) = some d) :
    ∃ turn', d.AtTurn turn' := by
  cases stepped taken with | answer serving =>
  obtain ⟨request, toServer, toClient, -, busy, tryit, sent, results⟩ := stage.serving serving
  have lookups :
      List.map Service.request (c.served ++ [⟨c.tryit, verdict, reply⟩]) = c.sent := by
    rw [List.map_append, sent, ← tryit]
    rfl
  have replies :
      List.map Service.reply (c.served ++ [⟨c.tryit, verdict, reply⟩]) =
        c.returned ++ [reply] := by
    rw [List.map_append, results]
    rfl
  have answered : ({ c with
      server := .reading
      tryit := reply
      toClient := c.toClient ++ reply.bytes
      served := c.served ++ [⟨c.tryit, verdict, reply⟩] } : Connection).AtTurn
        (.answered reply) :=
    ⟨toServer, by simp only [toClient, List.nil_append], by simp, busy, fun _ _ => rfl,
      lookups, replies⟩
  cases verdict with
  | found => exact ⟨_, answered⟩
  | notFound => exact ⟨_, answered⟩
  | unavail =>
      exact ⟨.owed, toServer, toClient, rfl, busy, lookups ▸ List.prefix_rfl,
        replies ▸ List.prefix_append _ _⟩

theorem atTurn_abandon {c d : Connection} {turn : Turn} (stage : c.AtTurn turn)
    (taken : c.step .abandon = some d) : d.AtTurn .owed := by
  cases stepped taken with | abandon serving =>
  obtain ⟨request, toServer, toClient, -, busy, -, sent, results⟩ := stage.serving serving
  exact ⟨toServer, toClient, rfl, busy, sent ▸ List.prefix_append _ _,
    results ▸ List.prefix_rfl⟩

/-- A step in which every `read` returns a whole record leads from a stage to a stage. -/
theorem atTurn_step {c : Connection} {a : Action} {d : Connection} (whole : Whole a)
    (stage : ∃ turn, c.AtTurn turn) (taken : c.step a = some d) : ∃ turn, d.AtTurn turn := by
  obtain ⟨turn, stage⟩ := stage
  cases a with
  | send sought => exact ⟨_, atTurn_send stage taken⟩
  | receive n => exact ⟨_, atTurn_receive whole stage taken⟩
  | receiveEnd => exact absurd whole id
  | quit => exact ⟨_, atTurn_quit stage taken⟩
  | serverRead n =>
      obtain ⟨request, serving⟩ := atTurn_serverRead whole stage taken
      exact ⟨_, serving⟩
  | serverEnd => exact ⟨_, atTurn_serverEnd stage taken⟩
  | answer verdict reply => exact atTurn_answer stage taken
  | abandon => exact ⟨_, atTurn_abandon stage taken⟩

/-- **Framing.** In every run in which each `read` of a record returns a whole record,
requests, lookups, replies and results pair up in every state. -/
theorem paired_of_whole {uninitialised : Dictrec} {actions : List Action} {c : Connection}
    (whole : ∀ a ∈ actions, Whole a) (ran : run step (start uninitialised) actions = some c) :
    Paired c := by
  have started : ∃ turn, (start uninitialised).AtTurn turn := ⟨.idle, atTurn_start _⟩
  obtain ⟨turn, stage⟩ := run_invariant_of atTurn_step whole started ran
  exact stage.paired

/-- A conversation of one request, read as a whole by both sides. -/
theorem paired_of_whole_tiny :
    ∃ c, run step (start (.ofString _ []))
        [.send (.ofString _ [97]), .serverRead 512, .answer .notFound (.ofString _ [97]),
          .receive 512] = some c ∧ Paired c := by
  obtain ⟨c, ran⟩ : ∃ c, run step (start (.ofString _ []))
      [.send (.ofString _ [97]), .serverRead 512, .answer .notFound (.ofString _ [97]),
        .receive 512] = some c := Option.isSome_iff_exists.mp (by decide +kernel)
  exact ⟨c, ran, paired_of_whole (by simp [Whole, WORD, TEXT]) ran⟩

/-- One short `read` of the server makes two lookups of one request. -/
theorem exists_not_paired :
    ∃ c, run step (start (.ofString _ []))
        [.send (.ofString _ [97]), .serverRead 1, .answer .notFound (.ofString _ [97]),
          .receive 512, .serverRead 511, .answer .notFound (.ofString _ [97])] = some c ∧
      ¬ Paired c := by
  have lengths : (run step (start (.ofString _ []))
      [.send (.ofString _ [97]), .serverRead 1, .answer .notFound (.ofString _ [97]),
        .receive 512, .serverRead 511, .answer .notFound (.ofString _ [97])]).map
          (fun c => (c.sent.length, c.served.length)) = some (1, 2) := by decide +kernel
  obtain ⟨c, ran, counts⟩ := Option.map_eq_some_iff.mp lengths
  refine ⟨c, ran, fun paired => ?_⟩
  have short := paired.lookups.length_le
  rw [List.length_map] at short
  rw [Prod.mk.injEq] at counts
  omega

end Connection

end LinuxExercises.Dictionary
