import LinuxExercises.FifoServer.Nonblock

/-!
# The blocking server serves everybody

When the server was started with `block`, only `fifo_client` processes come, the server has made
its FIFO before the first of them, and no call fails, then nobody waits for ever: a state in which
no process can make its next call is one in which every client has printed its number
(`System.Calm.printed_of_stuck`). Such a state is reached whatever the order of the calls, since
each of them takes away from a number that the clients determine (`System.size_step`).

What carries the first part is where each client is together with its FIFO and with the server
(`Turn`). The two opens of a client's FIFO wait for each other, and the client's and the server's
first opens of the FIFO of the server do.
-/

set_option autoImplicit false

namespace LinuxExercises.FifoServer

open Foundations

/-- A process makes its next call, and the call does not fail. -/
def Smooth : Action → Prop
  | .server => True
  | .client _ => True
  | _ => False

instance : DecidablePred Smooth
  | .server => .isTrue trivial
  | .client _ => .isTrue trivial
  | .serverFails => .isFalse id
  | .clientFails _ => .isFalse id
  | .kill _ => .isFalse id

/-! ## How many calls are left -/

/-- At most so many calls are left to a client, and to the server for it. -/
def ClientPc.rank : ClientPc → Nat
  | .makeFifo => 16
  | .openServer => 15
  | .waitServer _ => 14
  | .request => 13
  | .openFifo => 6
  | .waitFifo _ => 5
  | .read => 4
  | .print _ => 3
  | .exit => 2
  | .close => 1
  | .gone => 0

/-- At most so many calls are left to the server up to its next `read`. -/
def ServerPc.rank : ServerPc → Nat
  | .makeFifo => 6
  | .openServerFd => 5
  | .waitServerFd _ => 4
  | .openDummyFd => 3
  | .waitDummyFd _ => 2
  | .ignoreSigpipe => 1
  | .read => 0
  | .openFifo _ => 4
  | .waitFifo _ _ => 3
  | .write _ => 2
  | .close _ => 1
  | .stopped => 0

namespace System

variable {P : Clients} {s t : System}

/-- What each call takes away from. A request that is still to be read stands for five calls. -/
def size (P : Clients) (s : System) : Nat :=
  (∑ p ∈ P.pids, (s.client p).pc.rank) + 5 * s.serverFifo.data.length + s.server.pc.rank

/-- In a sum over the clients only the summand of the one that has moved changes. -/
theorem sum_move (f : Client → Nat) {q : Nat} (among : q ∈ P.pids) (aside : Aside q s t) :
    (∑ p ∈ P.pids, f (t.client p)) + f (s.client q) =
      (∑ p ∈ P.pids, f (s.client p)) + f (t.client q) := by
  have others : ∑ p ∈ P.pids.erase q, f (t.client p) = ∑ p ∈ P.pids.erase q, f (s.client p) :=
    Finset.sum_congr rfl fun p member => by rw [aside.client p (Finset.ne_of_mem_erase member)]
  rw [← Finset.add_sum_erase _ _ among, ← Finset.add_sum_erase _ _ among, others]
  omega

/-- A client that is no more has taken nothing from the FIFO of the server that was not there. -/
theorem length_die (s : System) (q : Nat) :
    (s.die q).serverFifo.data.length ≤ s.serverFifo.data.length :=
  (NamedPipe.ite_data_sublist (NamedPipe.closeWrite_data_sublist _)).length_le

/-- A client that calls comes nearer to its end. -/
theorem rank_stepClient {q : Nat} (taken : s.stepClient P q = some t) :
    (t.client q).pc.rank + 5 * t.serverFifo.data.length <
      (s.client q).pc.rank + 5 * s.serverFifo.data.length := by
  have gone : ((s.die q).client q).pc.rank = 0 := by
    rw [System.die, System.setClient_same, ClientPc.rank]
  have fewer := length_die s q
  cases pc : (s.client q).pc with
  | makeFifo =>
      rw [stepClient, pc] at taken
      cases taken
      simp [move, setFifo, setClient, ClientPc.rank]
  | openServer =>
      rw [stepClient, pc] at taken
      dsimp only at taken
      split at taken
      · cases taken
        simp [move, setClient, ClientPc.rank]
      · rename_i opening
        cases taken
        have same := NamedPipe.openWrite_data (.inr ⟨_, opening⟩)
        simp [setServerFifo, setClient, ClientPc.rank, same]
      · rename_i opening
        cases taken
        have same := NamedPipe.openWrite_data (.inl opening)
        simp [setServerFifo, setClient, ClientPc.rank, same]
  | waitServer seen =>
      rw [stepClient, pc] at taken
      dsimp only at taken
      split at taken
      · cases taken
      · cases taken
        simp [move, setClient, ClientPc.rank]
  | request =>
      rw [stepClient, pc] at taken
      dsimp only at taken
      split at taken
      · cases taken
        rw [gone, ClientPc.rank]
        omega
      · rename_i written
        cases taken
        have more := NamedPipe.put_data written
        split <;> simp [setServerFifo, move, setClient, ClientPc.rank, more] <;> omega
  | openFifo =>
      rw [stepClient, pc] at taken
      dsimp only at taken
      split at taken <;> cases taken <;>
        simp [move, setFifo, setClient, ClientPc.rank]
  | waitFifo seen =>
      rw [stepClient, pc] at taken
      dsimp only at taken
      split at taken
      · cases taken
      · cases taken
        simp [move, setClient, ClientPc.rank]
  | read =>
      rw [stepClient, pc] at taken
      dsimp only at taken
      split at taken
      · cases taken
        simp [move, setClient, ClientPc.rank]
      · split at taken
        · cases taken
          simp [move, setClient, ClientPc.rank]
        · cases taken
      · cases taken
        simp [move, setFifo, setClient, ClientPc.rank]
  | print n =>
      rw [stepClient, pc] at taken
      cases taken
      simp [move, setClient, ClientPc.rank]
  | exit =>
      rw [stepClient, pc] at taken
      cases taken
      simp [move, setFifo, setClient, ClientPc.rank]
  | close =>
      rw [stepClient, pc] at taken
      cases taken
      rw [gone, ClientPc.rank]
      omega
  | gone =>
      rw [stepClient, pc] at taken
      cases taken

/-- The server that calls comes nearer to its next `read`, or takes up a request. It has the FIFO
open for writing itself, so it does not see its end. -/
theorem rank_stepServer {mode : Mode} (taken : s.stepServer mode = some t)
    (notEnd : s.server.pc = .read → s.serverFifo.writers ≠ 0) :
    t.server.pc.rank + 5 * t.serverFifo.data.length <
      s.server.pc.rank + 5 * s.serverFifo.data.length := by
  have stops : s.stop.serverFifo.data.length ≤ s.serverFifo.data.length :=
    ((NamedPipe.ite_data_sublist (NamedPipe.closeWrite_data_sublist _)).trans
      (NamedPipe.ite_data_sublist (NamedPipe.closeRead_data_sublist _))).length_le
  have stopped : s.stop.server.pc.rank = 0 := by simp [stop, goto, ServerPc.rank]
  cases pc : s.server.pc with
  | makeFifo =>
      rw [stepServer, pc] at taken
      cases taken
      simp [goto, setServerFifo, ServerPc.rank]
  | openServerFd =>
      rw [stepServer, pc] at taken
      dsimp only at taken
      split at taken
      · cases taken
        rw [stopped, ServerPc.rank]
        omega
      · rename_i opening
        cases taken
        have same := NamedPipe.openRead_data (.inr ⟨_, opening⟩)
        simp [goto, setServerFifo, ServerPc.rank, same]
      · rename_i opening
        cases taken
        have same := NamedPipe.openRead_data (.inl opening)
        simp [goto, setServerFifo, ServerPc.rank, same]
  | openDummyFd =>
      rw [stepServer, pc] at taken
      dsimp only at taken
      split at taken
      · cases taken
        rw [stopped, ServerPc.rank]
        omega
      · rename_i opening
        cases taken
        have same := NamedPipe.openWrite_data (.inr ⟨_, opening⟩)
        simp [goto, setServerFifo, ServerPc.rank, same]
      · rename_i opening
        cases taken
        have same := NamedPipe.openWrite_data (.inl opening)
        simp [goto, setServerFifo, ServerPc.rank, same]
  | ignoreSigpipe =>
      rw [stepServer, pc] at taken
      cases taken
      simp [goto, ServerPc.rank]
  | read =>
      rw [stepServer, pc] at taken
      dsimp only at taken
      split at taken
      · rename_i ended
        unfold NamedPipe.take at ended
        simp [notEnd pc] at ended
        split at ended <;> cases ended
      · cases taken
      · rename_i got
        cases taken
        have fewer := NamedPipe.take_data got
        simp [goto, setServerFifo, ServerPc.rank, fewer]
        omega
  | openFifo req =>
      rw [stepServer, pc] at taken
      dsimp only at taken
      split at taken <;> cases taken <;>
        simp [discard, goto, accept, setFifo, ServerPc.rank]
  | write req =>
      rw [stepServer, pc] at taken
      dsimp only at taken
      split at taken <;> cases taken <;> simp [goto, setFifo, ServerPc.rank]
  | close req =>
      rw [stepServer, pc] at taken
      cases taken
      simp [advance, setFifo, ServerPc.rank]
  | stopped =>
      rw [stepServer, pc] at taken
      cases taken
  | _ =>
      rw [stepServer, pc] at taken
      dsimp only at taken
      split at taken
      · cases taken
      · cases taken
        simp [goto, accept, ServerPc.rank]

/-- The server leaves the clients where they are. -/
theorem client_stepServer {mode : Mode} (taken : s.stepServer mode = some t) :
    t.client = s.client := by
  unfold stepServer at taken
  split at taken
  all_goals first
    | (split at taken <;> cases taken <;> rfl)
    | (cases taken; rfl)
    | cases taken

/-- **Every call counts.** -/
theorem size_step {mode : Mode} {a : Action} (smooth : Smooth a)
    (notEnd : s.server.pc = .read → s.serverFifo.writers ≠ 0)
    (taken : step P mode s a = some t) : size P t < size P s := by
  cases a with
  | server =>
      have nearer := rank_stepServer taken notEnd
      rw [size, size, client_stepServer taken]
      omega
  | client q =>
      rw [step] at taken
      split at taken
      · rename_i among
        have aside := Aside.stepClient taken
        have nearer := rank_stepClient taken
        have sum := sum_move (fun c => c.pc.rank) among aside
        rw [size, size, aside.server]
        omega
      · cases taken
  | serverFails => exact absurd smooth id
  | clientFails q => exact absurd smooth id
  | kill q => exact absurd smooth id

end System

/-! ## The FIFO of the server -/

/-- The server has made its FIFO and runs, and the counts of the FIFO are those of the processes
that have it open, so many clients among them. -/
structure Door (pc : ServerPc) (fifo : NamedPipe Request) (clients : Nat) : Prop where
  linked : fifo.linked = true
  readers : fifo.readers = pc.reads.toNat
  readOpens : fifo.readOpens = pc.reads.toNat
  writers : fifo.writers = pc.writes.toNat + clients
  since : ∀ seen, pc = .waitServerFd seen → seen ≤ fifo.writeOpens
  nobody : ∀ seen, pc = .waitServerFd seen → fifo.writeOpens = seen → clients = 0
  runs : pc ≠ .makeFifo ∧ pc ≠ .stopped ∧ ∀ seen, pc ≠ .waitDummyFd seen

namespace Door

variable {pc pc' : ServerPc} {fifo opened : NamedPipe Request} {clients : Nat}

theorem readers_of_reads (door : Door pc fifo clients) (reads : pc.reads = true) :
    fifo.readers = 1 := by
  rw [door.readers, reads]
  rfl

/-- A client opens the FIFO. It waits when the server has not opened it yet. -/
theorem openWrite (door : Door pc fifo clients) :
    ∃ opened, Door pc opened (clients + 1) ∧ opened.data = fifo.data ∧
      fifo.openWrite false = if pc.reads then .opens opened else .waits 0 opened := by
  refine ⟨{ fifo with writers := fifo.writers + 1, writeOpens := fifo.writeOpens + 1 }, ?_, rfl, ?_⟩
  · obtain ⟨linked, readers, readOpens, writers, since, nobody, runs⟩ := door
    refine ⟨linked, readers, readOpens, ?_, ?_, ?_, runs⟩
    · rw [writers, Nat.add_assoc]
    · exact fun seen waits => Nat.le_succ_of_le (since seen waits)
    · intro seen waits same
      have earlier := since seen waits
      dsimp only at same
      omega
  · rw [NamedPipe.openWrite, door.linked, door.readers, door.readOpens]
    cases pc.reads <;> rfl

/-- A client closes it. -/
theorem closeWrite (door : Door pc fifo (clients + 1)) (reads : pc.reads = true) :
    Door pc fifo.closeWrite clients ∧ fifo.closeWrite.data = fifo.data := by
  have settled : fifo.closeWrite = { fifo with writers := fifo.writers - 1 } := by
    rw [NamedPipe.closeWrite, NamedPipe.settle, door.readers_of_reads reads]
    rfl
  obtain ⟨linked, readers, readOpens, writers, since, nobody, runs⟩ := door
  rw [settled]
  refine ⟨⟨linked, readers, readOpens, ?_, since, ?_, runs⟩, rfl⟩
  · dsimp only
    omega
  · intro seen waits same
    have several := nobody seen waits same
    omega

/-- What is in the FIFO does not matter. -/
theorem setData (door : Door pc fifo clients) (data : List Request) :
    Door pc { fifo with data := data } clients :=
  ⟨door.linked, door.readers, door.readOpens, door.writers, door.since, door.nobody, door.runs⟩

/-- A client writes its request. -/
theorem put (door : Door pc fifo clients) (reads : pc.reads = true) (req : Request) :
    fifo.put req = some { fifo with data := fifo.data ++ [req] } := by
  rw [NamedPipe.put, door.readers_of_reads reads]
  rfl

/-- The server goes on and leaves the FIFO alone. -/
theorem goto (door : Door pc fifo clients) (reads : pc'.reads = pc.reads)
    (writes : pc'.writes = pc.writes) (waits : ∀ seen, pc' ≠ .waitServerFd seen)
    (runs : pc' ≠ .makeFifo ∧ pc' ≠ .stopped ∧ ∀ seen, pc' ≠ .waitDummyFd seen) :
    Door pc' fifo clients where
  linked := door.linked
  readers := reads ▸ door.readers
  readOpens := reads ▸ door.readOpens
  writers := writes ▸ door.writers
  since := fun seen same => absurd same (waits seen)
  nobody := fun seen same => absurd same (waits seen)
  runs := runs

/-- The server opens the FIFO for reading. It waits when no client has opened it yet. -/
theorem openServerFd (door : Door .openServerFd fifo clients) :
    ∃ opened, opened.data = fifo.data ∧
      ((clients = 0 ∧ fifo.openRead false = .waits fifo.writeOpens opened ∧
          Door (.waitServerFd fifo.writeOpens) opened clients) ∨
        (fifo.openRead false = .opens opened ∧ Door .openDummyFd opened clients)) := by
  obtain ⟨linked, readers, readOpens, writers, since, nobody, runs⟩ := door
  have none : fifo.writers = clients := by simpa [ServerPc.writes, ServerPc.reads] using writers
  refine ⟨{ fifo with readers := fifo.readers + 1, readOpens := fifo.readOpens + 1 }, rfl, ?_⟩
  rw [NamedPipe.openRead, linked, none]
  by_cases nobody : clients = 0
  · refine .inl ⟨nobody, by simp [nobody], rfl, ?_, ?_, ?_, ?_, ?_, by simp⟩
    · simpa [ServerPc.reads] using readers
    · simpa [ServerPc.reads] using readOpens
    · simp [ServerPc.writes]
    · rintro seen ⟨⟩
      exact Nat.le_refl _
    · exact fun _ _ _ => nobody
  · refine .inr ⟨by simp [nobody], rfl, ?_, ?_, ?_, by simp, by simp, by simp⟩
    · simpa [ServerPc.reads] using readers
    · simpa [ServerPc.reads] using readOpens
    · simp [ServerPc.writes]

/-- The server opens the FIFO for writing, as the first reader of its own. -/
theorem openDummyFd (door : Door .openDummyFd fifo clients) :
    ∃ opened, opened.data = fifo.data ∧ fifo.openWrite false = .opens opened ∧
      Door .ignoreSigpipe opened clients := by
  obtain ⟨linked, readers, readOpens, writers, since, nobody, runs⟩ := door
  refine ⟨{ fifo with writers := fifo.writers + 1, writeOpens := fifo.writeOpens + 1 }, rfl, ?_,
    linked, readers, readOpens, ?_, by simp, by simp, by simp⟩
  · rw [NamedPipe.openWrite, linked, readers]
    rfl
  · simp only [ServerPc.writes, ServerPc.reads, Bool.toNat_true, Bool.toNat_false] at writers ⊢
    omega

end Door

/-! ## Where a client is -/

/-- The FIFO of a client for which the server waits. -/
def knocked : NamedPipe CInt where
  linked := true
  readers := 0
  writers := 1
  readOpens := 0
  writeOpens := 1
  data := []

/-- The FIFO of a client that has been answered. -/
def answer (writers : Nat) (n : CInt) : NamedPipe CInt where
  linked := true
  readers := 1
  writers := writers
  readOpens := 1
  writeOpens := 1
  data := [n]

/-- Where a client that has been answered is together with its FIFO. -/
inductive Answered (printed : List (Nat × CInt)) (p : Nat) : Client → NamedPipe CInt → Prop
  | waits (writers : Nat) (n : CInt) :
      Answered printed p ⟨.waitFifo 0, true, true⟩ (answer writers n)
  | reads (writers : Nat) (n : CInt) : Answered printed p ⟨.read, true, true⟩ (answer writers n)
  | prints (n : CInt) (fifo : NamedPipe CInt) : Answered printed p ⟨.print n, true, true⟩ fifo
  | exits (n : CInt) (fifo : NamedPipe CInt) (member : (p, n) ∈ printed) :
      Answered printed p ⟨.exit, true, true⟩ fifo
  | closes (n : CInt) (fifo : NamedPipe CInt) (member : (p, n) ∈ printed) :
      Answered printed p ⟨.close, true, true⟩ fifo
  | gone (n : CInt) (fifo : NamedPipe CInt) (member : (p, n) ∈ printed) :
      Answered printed p ⟨.gone, false, false⟩ fifo

/-- Where a client is together with its FIFO and the server. -/
inductive Turn (P : Clients) (s : System) (p : Nat) : Prop
  | fresh (client : s.client p = ⟨.makeFifo, false, false⟩) (fifo : s.clientFifo p = .absent)
  | knocks (client : s.client p = ⟨.openServer, false, false⟩) (fifo : s.clientFifo p = idle true)
  | waits (client : s.client p = ⟨.waitServer 0, true, false⟩) (fifo : s.clientFifo p = idle true)
  | asks (client : s.client p = ⟨.request, true, false⟩) (fifo : s.clientFifo p = idle true)
      (reads : s.server.pc.reads = true)
  | asked (reads : s.server.pc.reads = true)
      (pending : P.request p ∈ s.serverFifo.data ∨ s.server.pc = .openFifo (P.request p))
      (place : (s.client p = ⟨.openFifo, true, false⟩ ∧ s.clientFifo p = idle true) ∨
        (s.client p = ⟨.waitFifo 0, true, true⟩ ∧ s.clientFifo p = listening 0))
  | met (pc : s.server.pc = .waitFifo (P.request p) 0)
      (place : (s.client p = ⟨.openFifo, true, false⟩ ∧ s.clientFifo p = knocked) ∨
        (s.client p = ⟨.read, true, true⟩ ∧ s.clientFifo p = listening 1))
  | opened (pc : s.server.pc = .write (P.request p))
      (client : s.client p = ⟨.waitFifo 0, true, true⟩ ∨ s.client p = ⟨.read, true, true⟩)
      (fifo : s.clientFifo p = listening 1)
  | answered (reads : s.server.pc.reads = true) (dealt : ∃ h ∈ s.handled, h.req.pid = p)
      (passed : s.server.pc ≠ .write (P.request p))
      (place : Answered s.printed p (s.client p) (s.clientFifo p))

section Turns

variable {P : Clients} {s t : System} {p : Nat}

theorem Answered.mono {printed more : List (Nat × CInt)} {c : Client} {fifo : NamedPipe CInt}
    (answered : Answered printed p c fifo) (kept : printed ⊆ more) : Answered more p c fifo := by
  cases answered with
  | waits => exact .waits _ _
  | reads => exact .reads _ _
  | prints => exact .prints _ _
  | exits n _ member => exact .exits n _ (kept member)
  | closes n _ member => exact .closes n _ (kept member)
  | gone n _ member => exact .gone n _ (kept member)

/-- A step of others leaves a client where it is. -/
theorem Turn.frame (turn : Turn P s p) (client : t.client p = s.client p)
    (fifo : t.clientFifo p = s.clientFifo p)
    (reads : s.server.pc.reads = true → t.server.pc.reads = true)
    (pending : P.request p ∈ s.serverFifo.data ∨ s.server.pc = .openFifo (P.request p) →
      P.request p ∈ t.serverFifo.data ∨ t.server.pc = .openFifo (P.request p))
    (met : s.server.pc = .waitFifo (P.request p) 0 → t.server.pc = .waitFifo (P.request p) 0)
    (opened : s.server.pc = .write (P.request p) ↔ t.server.pc = .write (P.request p))
    (handled : s.handled ⊆ t.handled) (printed : s.printed ⊆ t.printed) : Turn P t p := by
  cases turn with
  | fresh c f => exact .fresh (client.trans c) (fifo.trans f)
  | knocks c f => exact .knocks (client.trans c) (fifo.trans f)
  | waits c f => exact .waits (client.trans c) (fifo.trans f)
  | asks c f r => exact .asks (client.trans c) (fifo.trans f) (reads r)
  | asked r asks place => exact .asked (reads r) (pending asks) (by rwa [client, fifo])
  | met pc place => exact .met (met pc) (by rwa [client, fifo])
  | opened pc c f => exact .opened (opened.mp pc) (by rwa [client]) (fifo.trans f)
  | answered r dealt passed place =>
      obtain ⟨h, member, same⟩ := dealt
      refine .answered (reads r) ⟨h, handled member, same⟩ (fun pc => passed (opened.mpr pc)) ?_
      rw [client, fifo]
      exact place.mono printed

/-- The client whose request the server holds has asked, or the server waits for it. -/
theorem Turn.of_held {req : Request} (turn : Turn P s req.pid) (inv : s.Inv P)
    (held : s.server.pc.held = [req]) :
    (s.server.pc = .openFifo req ∧
      ((s.client req.pid = ⟨.openFifo, true, false⟩ ∧ s.clientFifo req.pid = idle true) ∨
        (s.client req.pid = ⟨.waitFifo 0, true, true⟩ ∧ s.clientFifo req.pid = listening 0))) ∨
    (s.server.pc = .waitFifo req 0 ∧
      ((s.client req.pid = ⟨.openFifo, true, false⟩ ∧ s.clientFifo req.pid = knocked) ∨
        (s.client req.pid = ⟨.read, true, true⟩ ∧ s.clientFifo req.pid = listening 1))) := by
  have member : req ∈ s.requests :=
    List.mem_append_right _ (List.mem_append_left _ (held ▸ List.mem_singleton_self req))
  obtain ⟨-, same, sent⟩ := inv.known req member
  have fresh := inv.fresh held
  cases turn with
  | fresh c => simp [c, ClientPc.sent] at sent
  | knocks c => simp [c, ClientPc.sent] at sent
  | waits c => simp [c, ClientPc.sent] at sent
  | asks c => simp [c, ClientPc.sent] at sent
  | asked r pending place =>
      rw [← same] at pending
      refine .inl ⟨pending.resolve_left fun inFifo => ?_, place⟩
      have distinct := inv.distinct
      rw [System.requests, System.pending, held, List.map_append, List.map_append,
        List.nodup_append] at distinct
      have pids := (List.nodup_append.mp distinct.2.1).2.2
      exact pids _ (List.mem_singleton_self _) _ (List.mem_map_of_mem inFifo) rfl
  | met pc place =>
      rw [← same] at pc
      exact .inr ⟨pc, place⟩
  | opened pc => rw [pc] at held; cases held
  | answered r dealt =>
      obtain ⟨h, member, equal⟩ := dealt
      exact absurd equal (fresh h member)

/-- The client that the server writes to has been met. -/
theorem Turn.of_write {req : Request} (turn : Turn P s req.pid) (inv : s.Inv P)
    (pc : s.server.pc = .write req) :
    (s.client req.pid = ⟨.waitFifo 0, true, true⟩ ∨ s.client req.pid = ⟨.read, true, true⟩) ∧
      s.clientFifo req.pid = listening 1 := by
  have handled := inv.dealt (.inl pc)
  have member : req ∈ s.requests := List.mem_append_left _ (List.mem_map_of_mem handled)
  obtain ⟨-, same, sent⟩ := inv.known req member
  cases turn with
  | fresh c => simp [c, ClientPc.sent] at sent
  | knocks c => simp [c, ClientPc.sent] at sent
  | waits c => simp [c, ClientPc.sent] at sent
  | asks c => simp [c, ClientPc.sent] at sent
  | asked r pending place =>
      rw [← same] at pending
      rcases pending with inFifo | opening
      · have distinct := inv.distinct
        rw [System.requests, System.pending, List.map_append, List.map_append,
          List.nodup_append] at distinct
        refine absurd rfl (distinct.2.2 req.pid ?_ req.pid ?_)
        · exact List.mem_map_of_mem (List.mem_map_of_mem handled)
        · exact List.mem_append_right _ (List.mem_map_of_mem inFifo)
      · rw [pc] at opening
        cases opening
  | met waiting => rw [pc] at waiting; cases waiting
  | opened _ client fifo => exact ⟨client, fifo⟩
  | answered r dealt passed => exact absurd (same ▸ pc) passed

end Turns

/-- The request that the server is busy with. -/
def ServerPc.request : ServerPc → Option Request
  | .openFifo req => some req
  | .waitFifo req _ => some req
  | .write req => some req
  | .close req => some req
  | _ => none

/-- In its loop the server has its FIFO open at both ends. -/
theorem ServerPc.inLoop {pc : ServerPc} {req : Request}
    (inside : pc.request = some req ∨ pc = .read) :
    pc.reads = true ∧ pc.writes = true ∧ (∀ seen, pc ≠ .waitServerFd seen) ∧
      pc ≠ .makeFifo ∧ pc ≠ .stopped ∧ ∀ seen, pc ≠ .waitDummyFd seen := by
  rcases inside with busy | rfl
  · cases pc <;> cases busy <;> simp [ServerPc.reads, ServerPc.writes]
  · simp [ServerPc.reads, ServerPc.writes]

/-- How many clients have the FIFO of the server open. -/
def openers (P : Clients) (s : System) : Nat := ∑ p ∈ P.pids, (s.client p).serverFd.toNat

theorem openers_eq {P : Clients} {s t : System} {q : Nat} (among : q ∈ P.pids)
    (aside : s.Aside q t) (held : (t.client q).serverFd = (s.client q).serverFd) :
    openers P t = openers P s := by
  have sum := System.sum_move (fun c => c.serverFd.toNat) among aside
  rw [held] at sum
  exact Nat.add_right_cancel sum

/-- The invariant of the blocking server with its clients. -/
structure Calm (P : Clients) (s : System) : Prop where
  inv : s.Inv P
  door : Door s.server.pc s.serverFifo (openers P s)
  turn : ∀ p ∈ P.pids, Turn P s p

namespace Calm

variable {P : Clients} {s t : System} {q : Nat}

/-- What a client that moves has to show. -/
theorem of_aside (calm : Calm P s) (inv : t.Inv P) (aside : s.Aside q t)
    (door : Door s.server.pc t.serverFifo (openers P t)) (turn : Turn P t q)
    (data : s.serverFifo.data ⊆ t.serverFifo.data) (printed : s.printed ⊆ t.printed) :
    Calm P t where
  inv := inv
  door := aside.server ▸ door
  turn := by
    intro p among
    by_cases here : p = q
    · exact here ▸ turn
    · refine (calm.turn p among).frame (aside.client p here) (aside.fifo p here) ?_ ?_ ?_ ?_ ?_
        printed
      · exact fun reads => aside.server ▸ reads
      · rw [aside.server]
        exact Or.imp_left fun member => data member
      · exact fun pc => aside.server ▸ pc
      · rw [aside.server]
      · rw [aside.handled]
        exact List.Subset.refl _

/-- A client that neither opens nor closes the FIFO of the server. -/
theorem of_same (calm : Calm P s) (inv : t.Inv P) (among : q ∈ P.pids) (aside : s.Aside q t)
    (fifo : t.serverFifo = s.serverFifo) (held : (t.client q).serverFd = (s.client q).serverFd)
    (turn : Turn P t q) (printed : s.printed ⊆ t.printed) : Calm P t := by
  refine calm.of_aside inv aside ?_ turn ?_ printed
  · rw [openers_eq among aside held, fifo]
    exact calm.door
  · rw [fifo]
    exact List.Subset.refl _

/-- A client that has opened the FIFO of the server. -/
theorem of_openServer (calm : Calm P s) (among : q ∈ P.pids) {fifo : NamedPipe Request}
    {pc : ClientPc} (client : s.client q = ⟨.openServer, false, false⟩)
    (inv : ((s.setServerFifo fifo).setClient q ⟨pc, true, false⟩).Inv P)
    (door : Door s.server.pc fifo (openers P s + 1)) (data : fifo.data = s.serverFifo.data)
    (turn : Turn P ((s.setServerFifo fifo).setClient q ⟨pc, true, false⟩) q) :
    Calm P ((s.setServerFifo fifo).setClient q ⟨pc, true, false⟩) := by
  have aside : s.Aside q ((s.setServerFifo fifo).setClient q ⟨pc, true, false⟩) :=
    (System.Aside.setServerFifo fifo).trans (System.Aside.setClient _)
  have sum := System.sum_move (fun c => c.serverFd.toNat) among aside
  rw [System.setClient_same, client] at sum
  refine calm.of_aside inv aside ?_ turn (data ▸ List.Subset.refl _) (List.Subset.refl _)
  have one : openers P ((s.setServerFifo fifo).setClient q ⟨pc, true, false⟩) =
      openers P s + 1 := sum
  exact one ▸ door

/-- **A call of a client.** -/
theorem stepClient (calm : Calm P s) (among : q ∈ P.pids) (kind : P.kind q = .client)
    (taken : s.stepClient P q = some t) : Calm P t := by
  have inv := System.inv_stepClient calm.inv among taken
  have aside := System.Aside.stepClient taken
  cases calm.turn q among with
  | fresh client fifo =>
      simp only [System.stepClient, client, fifo] at taken
      cases taken
      exact calm.of_same inv among aside rfl (by simp [System.move, System.setFifo])
        (.knocks (by simp [System.move, System.setFifo, client])
          (by simp [System.move, System.setClient]; rfl)) (List.Subset.refl _)
  | knocks client fifo =>
      obtain ⟨fifo', door, data, opens⟩ := calm.door.openWrite
      cases reads : s.server.pc.reads with
      | false =>
          simp only [System.stepClient, client, opens, reads] at taken
          cases taken
          exact calm.of_openServer among client inv door data
            (.waits (System.setClient_same ..) fifo)
      | true =>
          simp only [System.stepClient, client, opens, reads] at taken
          cases taken
          exact calm.of_openServer among client inv door data
            (.asks (System.setClient_same ..) fifo reads)
  | waits client fifo =>
      cases reads : s.server.pc.reads with
      | false => simp [System.stepClient, client, calm.door.readOpens, reads] at taken
      | true =>
          simp [System.stepClient, client, calm.door.readOpens, reads] at taken
          cases taken
          exact calm.of_same inv among aside rfl (by simp [System.move])
            (.asks (by simp [System.move, client]) fifo reads) (List.Subset.refl _)
  | asks client fifo reads =>
      simp only [System.stepClient, client, kind, calm.door.put reads, reduceCtorEq, if_false]
        at taken
      cases taken
      refine calm.of_aside inv aside ?_ (.asked reads (.inl ?_) (.inl ⟨?_, fifo⟩)) ?_
        (List.Subset.refl _)
      · rw [openers_eq among aside (by simp [System.move, System.setServerFifo])]
        exact calm.door.setData _
      · exact List.mem_append_right _ (List.mem_singleton_self _)
      · simp [System.move, System.setServerFifo, client]
      · exact List.subset_append_left ..
  | asked reads pending place =>
      rcases place with ⟨client, fifo⟩ | ⟨client, fifo⟩
      · simp [System.stepClient, client, fifo, kind, idle, NamedPipe.openRead, NamedPipe.absent]
          at taken
        cases taken
        exact calm.of_same inv among aside rfl (by simp [client])
          (.asked reads pending (.inr ⟨System.setClient_same .., System.setFifo_same ..⟩))
          (List.Subset.refl _)
      · simp [System.stepClient, client, fifo, listening] at taken
  | met pc place =>
      rcases place with ⟨client, fifo⟩ | ⟨client, fifo⟩
      · simp [System.stepClient, client, fifo, kind, knocked, NamedPipe.openRead] at taken
        cases taken
        exact calm.of_same inv among aside rfl (by simp [client])
          (.met pc (.inr ⟨System.setClient_same .., System.setFifo_same ..⟩))
          (List.Subset.refl _)
      · simp [System.stepClient, client, fifo, kind, listening, NamedPipe.take] at taken
  | opened pc client fifo =>
      rcases client with client | client
      · simp [System.stepClient, client, fifo, listening] at taken
        cases taken
        exact calm.of_same inv among aside rfl (by simp [System.move])
          (.opened pc (.inr (by simp [System.move, client])) fifo) (List.Subset.refl _)
      · simp [System.stepClient, client, fifo, kind, listening, NamedPipe.take] at taken
  | answered reads dealt passed place =>
      generalize client : s.client q = c at place
      generalize fifo : s.clientFifo q = f at place
      cases place with
      | waits writers n =>
          simp [System.stepClient, client, fifo, answer] at taken
          cases taken
          refine calm.of_same inv among aside rfl (by simp [System.move])
            (.answered reads dealt passed ?_) (List.Subset.refl _)
          simp only [System.move, System.setClient_same, client]
          exact fifo ▸ .reads writers n
      | reads writers n =>
          simp [System.stepClient, client, fifo, answer, NamedPipe.take] at taken
          cases taken
          refine calm.of_same inv among aside rfl (by simp [System.move, System.setFifo])
            (.answered reads dealt passed ?_) (List.Subset.refl _)
          simp only [System.move, System.setClient_same, System.setFifo, client]
          exact .prints n _
      | prints n =>
          simp only [System.stepClient, client] at taken
          cases taken
          refine calm.of_same inv among aside rfl (by simp [System.move])
            (.answered reads dealt passed ?_) (List.subset_append_left ..)
          simp only [System.move, System.setClient_same, client]
          exact .exits n _ (List.mem_append_right _ (List.mem_singleton_self _))
      | exits n _ member =>
          simp only [System.stepClient, client] at taken
          cases taken
          refine calm.of_same inv among aside rfl (by simp [System.move, System.setFifo])
            (.answered reads dealt passed ?_) (List.Subset.refl _)
          simp only [System.move, System.setClient_same, System.setFifo, client]
          exact .closes n _ member
      | closes n _ member =>
          simp only [System.stepClient, client] at taken
          cases taken
          have sum := System.sum_move (fun c => c.serverFd.toNat) among aside
          have died : (s.die q).client q = ⟨.gone, false, false⟩ := System.setClient_same ..
          have serverFifo : (s.die q).serverFifo = s.serverFifo.closeWrite := by
            simp [System.die, System.setClient, System.setFifo, System.setServerFifo, client]
          rw [client, died] at sum
          have one : openers P s = openers P (s.die q) + 1 := sum.symm
          have door := calm.door
          rw [one] at door
          obtain ⟨door, data⟩ := door.closeWrite reads
          refine calm.of_aside inv aside (serverFifo ▸ door) (.answered reads dealt passed ?_) ?_
            (List.Subset.refl _)
          · rw [died]
            exact .gone n _ member
          · rw [serverFifo, data]
            exact List.Subset.refl _
      | gone n _ member => simp [System.stepClient, client] at taken

/-- The server does not see the end of its FIFO. -/
theorem writers_ne (calm : Calm P s) (pc : s.server.pc = .read) : s.serverFifo.writers ≠ 0 := by
  have counted := calm.door.writers
  simp only [pc, ServerPc.writes, ServerPc.reads, Bool.toNat_true] at counted
  omega

/-- What the server has to show when it goes on at its own FIFO. -/
theorem of_server (calm : Calm P s) {fifo : NamedPipe Request} {pc : ServerPc}
    (inv : ((s.setServerFifo fifo).goto pc).Inv P)
    (door : Door s.server.pc s.serverFifo (openers P s) → Door pc fifo (openers P s))
    (before : s.server.pc.elsewhere = true) (after : ∀ req, pc ≠ .write req)
    (reads : s.server.pc.reads = true → pc.reads = true)
    (pending : ∀ req ∈ s.serverFifo.data, req ∈ fifo.data ∨ pc = .openFifo req) :
    Calm P ((s.setServerFifo fifo).goto pc) where
  inv := inv
  door := door calm.door
  turn := by
    intro p among
    refine (calm.turn p among).frame rfl rfl reads ?_ ?_ ?_ (List.Subset.refl _)
      (List.Subset.refl _)
    · rintro (inFifo | opening)
      · exact pending _ inFifo
      · rw [opening] at before
        cases before
    · intro waiting
      rw [waiting] at before
      cases before
    · refine iff_of_false (fun writing => ?_) (after _)
      rw [writing] at before
      cases before

/-- What the server has to show when it goes on with a request. -/
theorem of_serve (calm : Calm P s) {req : Request} (inv : t.Inv P)
    (busy : s.server.pc.request = some req)
    (later : t.server.pc.request = some req ∨ t.server.pc = .read)
    (serverFifo : t.serverFifo = s.serverFifo) (client : t.client = s.client)
    (fifo : ∀ p ≠ req.pid, t.clientFifo p = s.clientFifo p) (handled : s.handled ⊆ t.handled)
    (printed : t.printed = s.printed) (turn : req.pid ∈ P.pids → Turn P t req.pid) :
    Calm P t where
  inv := inv
  door := by
    have same : openers P t = openers P s := by rw [openers, client, openers]
    obtain ⟨reads, writes, -, -⟩ := ServerPc.inLoop (.inl busy)
    obtain ⟨reads', writes', waits, runs⟩ := ServerPc.inLoop later
    rw [same, serverFifo]
    exact calm.door.goto (reads'.trans reads.symm) (writes'.trans writes.symm) waits runs
  turn := by
    intro p among
    by_cases here : p = req.pid
    · exact here ▸ turn (here ▸ among)
    have other : P.request p ≠ req := fun same => here (congrArg Request.pid same)
    have elsewhere : s.server.pc.request ≠ some (P.request p) := fun same =>
      other (Option.some.inj (same.symm.trans busy))
    refine (calm.turn p among).frame (by rw [client]) (fifo p here)
      (fun _ => (ServerPc.inLoop later).1) ?_ ?_ ?_ handled
      (by rw [printed]; exact List.Subset.refl _)
    · rintro (inFifo | opening)
      · exact .inl (serverFifo ▸ inFifo)
      · exact absurd (by rw [opening]; rfl) elsewhere
    · exact fun waiting => absurd (by rw [waiting]; rfl) elsewhere
    · refine iff_of_false (fun writing => elsewhere (by rw [writing]; rfl)) fun writing => ?_
      rw [writing] at later
      rcases later with same | none
      · exact other (Option.some.inj same)
      · cases none

/-- The server closes the FIFO of a client. -/
theorem close (calm : Calm P s) {req : Request} (pc : s.server.pc = .close req)
    (inv : ((s.setFifo req.pid (s.clientFifo req.pid).closeWrite).advance req).Inv P) :
    Calm P ((s.setFifo req.pid (s.clientFifo req.pid).closeWrite).advance req) := by
  refine calm.of_serve inv (by rw [pc]; rfl) (.inr rfl) rfl rfl
    (fun p other => System.setFifo_other _ _ other) (List.Subset.refl _) rfl fun among => ?_
  have fifo' : ((s.setFifo req.pid (s.clientFifo req.pid).closeWrite).advance req).clientFifo
      req.pid = (s.clientFifo req.pid).closeWrite := System.setFifo_same s _
  cases calm.turn req.pid among with
  | fresh client fifo => exact .fresh client (fifo'.trans (by rw [fifo]; rfl))
  | knocks client fifo => exact .knocks client (fifo'.trans (by rw [fifo]; rfl))
  | waits client fifo => exact .waits client (fifo'.trans (by rw [fifo]; rfl))
  | asks client fifo => exact .asks client (fifo'.trans (by rw [fifo]; rfl)) rfl
  | asked reads pending place =>
      refine .asked rfl (.inl (pending.resolve_right fun opening => ?_)) ?_
      · rw [pc] at opening
        cases opening
      · rcases place with ⟨client, fifo⟩ | ⟨client, fifo⟩
        · exact .inl ⟨client, fifo'.trans (by rw [fifo]; rfl)⟩
        · exact .inr ⟨client, fifo'.trans (by rw [fifo]; rfl)⟩
  | met waiting =>
      rw [pc] at waiting
      cases waiting
  | opened writing =>
      rw [pc] at writing
      cases writing
  | answered reads dealt passed place =>
      refine .answered rfl dealt (fun writing => by cases writing) ?_
      change Answered s.printed req.pid (s.client req.pid) _
      rw [fifo']
      generalize s.client req.pid = client at place
      generalize s.clientFifo req.pid = fifo at place
      cases place with
      | waits writers n => exact .waits (writers - 1) n
      | reads writers n => exact .reads (writers - 1) n
      | prints n => exact .prints n _
      | exits n _ member => exact .exits n _ member
      | closes n _ member => exact .closes n _ member
      | gone n _ member => exact .gone n _ member

/-- **A call of the server.** -/
theorem stepServer (calm : Calm P s) (taken : s.stepServer .block = some t) : Calm P t := by
  have inv := System.inv_stepServer calm.inv taken
  have runs := calm.door.runs
  cases pc : s.server.pc with
  | makeFifo => exact absurd pc runs.1
  | stopped => exact absurd pc runs.2.1
  | waitDummyFd seen => exact absurd pc (runs.2.2 seen)
  | openServerFd =>
      have door := calm.door
      rw [pc] at door
      obtain ⟨opened, data, ⟨nobody, waits, door⟩ | ⟨opens, door⟩⟩ := door.openServerFd
      · simp only [System.stepServer, pc, waits] at taken
        cases taken
        exact calm.of_server inv (fun _ => door) (by rw [pc]; rfl) (by simp)
          (by simp [pc, ServerPc.reads]) fun req member => .inl (data ▸ member)
      · simp only [System.stepServer, pc, opens] at taken
        cases taken
        exact calm.of_server inv (fun _ => door) (by rw [pc]; rfl) (by simp)
          (by simp [pc, ServerPc.reads]) fun req member => .inl (data ▸ member)
  | waitServerFd seen =>
      simp only [System.stepServer, pc] at taken
      split at taken
      · cases taken
      · cases taken
        exact calm.of_server inv
          (fun door => door.goto (by rw [pc]; rfl) (by rw [pc]; rfl) (by simp) (by simp))
          (by rw [pc]; rfl) (by simp) (by simp [ServerPc.reads]) fun _ => .inl
  | openDummyFd =>
      have door := calm.door
      rw [pc] at door
      obtain ⟨opened, data, opens, door⟩ := door.openDummyFd
      simp only [System.stepServer, pc, opens] at taken
      cases taken
      exact calm.of_server inv (fun _ => door) (by rw [pc]; rfl) (by simp)
        (by simp [ServerPc.reads]) fun req member => .inl (data ▸ member)
  | ignoreSigpipe =>
      simp only [System.stepServer, pc] at taken
      cases taken
      exact calm.of_server inv
        (fun door => door.goto (by rw [pc]; rfl) (by rw [pc]; rfl) (by simp) (by simp))
        (by rw [pc]; rfl) (by simp) (by simp [ServerPc.reads]) fun _ => .inl
  | read =>
      have door := calm.door
      rw [pc] at door
      have writer := calm.writers_ne pc
      cases data : s.serverFifo.data with
      | nil => simp [System.stepServer, pc, NamedPipe.take, data, writer] at taken
      | cons req rest =>
          simp only [System.stepServer, pc, NamedPipe.take, data] at taken
          cases taken
          refine calm.of_server inv (fun _ => ?_) (by rw [pc]; rfl) (by simp)
            (by simp [ServerPc.reads]) ?_
          · exact (door.setData rest).goto rfl rfl (by simp) (by simp)
          · rw [data]
            rintro other member
            rcases List.mem_cons.mp member with rfl | later
            · exact .inr rfl
            · exact .inl later
  | openFifo req =>
      have busy : s.server.pc.request = some req := by rw [pc]; rfl
      have held : s.server.pc.held = [req] := by rw [pc]; rfl
      have member : req ∈ s.requests :=
        List.mem_append_right _ (List.mem_append_left _ (held ▸ List.mem_singleton_self req))
      obtain ⟨among, same, -⟩ := calm.inv.known req member
      obtain ⟨-, place⟩ | ⟨waiting, -⟩ := (calm.turn req.pid among).of_held calm.inv held
      · rcases place with ⟨client, fifo⟩ | ⟨client, fifo⟩
        · simp [System.stepServer, pc, fifo, idle, NamedPipe.absent, NamedPipe.openWrite, Mode.flag]
            at taken
          cases taken
          refine calm.of_serve inv busy (.inl rfl) rfl rfl
            (fun p other => System.setFifo_other _ _ other) (List.Subset.refl _) rfl fun _ => ?_
          exact .met (by rw [← same]; rfl) (.inl ⟨client, System.setFifo_same ..⟩)
        · simp [System.stepServer, pc, fifo, listening, NamedPipe.openWrite] at taken
          cases taken
          refine calm.of_serve inv busy (.inl rfl) rfl rfl
            (fun p other => System.setFifo_other _ _ other) (List.subset_append_left ..) rfl
            fun _ => ?_
          exact .opened (by rw [← same]; rfl) (.inl client) (System.setFifo_same ..)
      · rw [pc] at waiting
        cases waiting
  | waitFifo req seen =>
      have busy : s.server.pc.request = some req := by rw [pc]; rfl
      have held : s.server.pc.held = [req] := by rw [pc]; rfl
      have member : req ∈ s.requests :=
        List.mem_append_right _ (List.mem_append_left _ (held ▸ List.mem_singleton_self req))
      obtain ⟨among, same, -⟩ := calm.inv.known req member
      obtain ⟨opening, -⟩ | ⟨waiting, place⟩ := (calm.turn req.pid among).of_held calm.inv held
      · rw [pc] at opening
        cases opening
      · rw [pc] at waiting
        cases waiting
        rcases place with ⟨client, fifo⟩ | ⟨client, fifo⟩
        · simp [System.stepServer, pc, fifo, knocked] at taken
        · simp [System.stepServer, pc, fifo, listening] at taken
          cases taken
          refine calm.of_serve inv busy (.inl rfl) rfl rfl (fun p other => rfl)
            (List.subset_append_left ..) rfl fun _ => ?_
          exact .opened (by rw [← same]; rfl) (.inr client) fifo
  | write req =>
      have busy : s.server.pc.request = some req := by rw [pc]; rfl
      have handled := calm.inv.dealt (.inl pc)
      have among := (calm.inv.known req (List.mem_append_left _ (List.mem_map_of_mem handled))).1
      obtain ⟨client, fifo⟩ := (calm.turn req.pid among).of_write calm.inv pc
      simp [System.stepServer, pc, fifo, NamedPipe.put, listening] at taken
      cases taken
      refine calm.of_serve inv busy (.inl rfl) rfl rfl
        (fun p other => System.setFifo_other _ _ other) (List.Subset.refl _) rfl fun _ => ?_
      refine .answered rfl ⟨_, handled, rfl⟩ (fun writing => by cases writing) ?_
      have fifo' : ∀ pipe, ((s.setFifo req.pid pipe).goto (.close req)).clientFifo req.pid = pipe :=
        fun pipe => System.setFifo_same s pipe
      rw [fifo']
      rcases client with client | client
      · exact client ▸ .waits 1 s.server.seqN
      · exact client ▸ .reads 1 s.server.seqN
  | close req =>
      simp only [System.stepServer, pc] at taken
      cases taken
      exact calm.close pc inv

/-- **The step lemma.** -/
theorem step {a : Action} (calm : Calm P s) (clients : ∀ p ∈ P.pids, P.kind p = .client)
    (smooth : Smooth a) (taken : step P .block s a = some t) : Calm P t := by
  cases a with
  | server => exact calm.stepServer taken
  | client q =>
      rw [FifoServer.step] at taken
      split at taken
      · rename_i among
        exact calm.stepClient among (clients q among) taken
      · cases taken
  | serverFails => exact absurd smooth id
  | clientFails q => exact absurd smooth id
  | kill q => exact absurd smooth id

/-! ## Where nobody can go on -/

/-- A server that cannot make its next call waits for the first client, or for a request. -/
theorem idle_of_stuck (calm : Calm P s) (clients : ∀ p ∈ P.pids, P.kind p = .client)
    (server : s.stepServer .block = none) (stuck : ∀ p ∈ P.pids, s.stepClient P p = none) :
    ((∃ seen, s.server.pc = .waitServerFd seen) ∧ openers P s = 0) ∨
      (s.server.pc = .read ∧ s.serverFifo.data = []) := by
  have runs := calm.door.runs
  cases pc : s.server.pc with
  | makeFifo => exact absurd pc runs.1
  | stopped => exact absurd pc runs.2.1
  | waitDummyFd seen => exact absurd pc (runs.2.2 seen)
  | waitServerFd seen =>
      simp only [System.stepServer, pc] at server
      split at server
      · rename_i same
        exact .inl ⟨⟨seen, rfl⟩, calm.door.nobody seen pc same⟩
      · cases server
  | read =>
      refine .inr ⟨rfl, ?_⟩
      cases data : s.serverFifo.data with
      | nil => rfl
      | cons req rest => simp [System.stepServer, pc, NamedPipe.take, data] at server
  | waitFifo req seen =>
      have held : s.server.pc.held = [req] := by rw [pc]; rfl
      have member : req ∈ s.requests :=
        List.mem_append_right _ (List.mem_append_left _ (held ▸ List.mem_singleton_self req))
      obtain ⟨among, same, -⟩ := calm.inv.known req member
      obtain ⟨opening, -⟩ | ⟨waiting, place⟩ := (calm.turn req.pid among).of_held calm.inv held
      · rw [pc] at opening
        cases opening
      · rw [pc] at waiting
        cases waiting
        rcases place with ⟨client, fifo⟩ | ⟨client, fifo⟩
        · have blocked := stuck _ among
          simp [System.stepClient, client, fifo, clients _ among, knocked, NamedPipe.openRead]
            at blocked
        · simp [System.stepServer, pc, fifo, listening] at server
  | openServerFd =>
      simp only [System.stepServer, pc] at server
      split at server <;> cases server
  | openDummyFd =>
      simp only [System.stepServer, pc] at server
      split at server <;> cases server
  | openFifo req =>
      simp only [System.stepServer, pc] at server
      split at server <;> cases server
  | write req =>
      simp only [System.stepServer, pc] at server
      split at server <;> cases server
  | ignoreSigpipe => simp [System.stepServer, pc] at server
  | close req => simp [System.stepServer, pc] at server

/-- **Nobody waits for ever.** -/
theorem printed_of_stuck (calm : Calm P s) (clients : ∀ p ∈ P.pids, P.kind p = .client)
    (stuck : ∀ a, Smooth a → FifoServer.step P .block s a = none) :
    ∀ p ∈ P.pids, (s.client p).pc = .gone ∧ ∃ n, (p, n) ∈ s.printed := by
  have server : s.stepServer .block = none := stuck .server trivial
  have blocked : ∀ p ∈ P.pids, s.stepClient P p = none := by
    intro p among
    have none := stuck (.client p) trivial
    rwa [FifoServer.step, if_pos among] at none
  have idle := calm.idle_of_stuck clients server blocked
  intro p among
  have none := blocked p among
  have nobody : (s.client p).serverFd = true → openers P s ≠ 0 := by
    intro held zero
    have summand := Finset.sum_eq_zero_iff.mp zero p among
    rw [held] at summand
    cases summand
  cases calm.turn p among with
  | fresh client fifo => simp [System.stepClient, client] at none
  | knocks client fifo =>
      obtain ⟨fifo', -, -, opens⟩ := calm.door.openWrite
      simp only [System.stepClient, client, opens] at none
      cases reads : s.server.pc.reads <;> simp [reads] at none
  | waits client fifo =>
      rcases idle with ⟨-, zero⟩ | ⟨pc, -⟩
      · exact absurd zero (nobody (by rw [client]))
      · simp [System.stepClient, client, calm.door.readOpens, pc, ServerPc.reads] at none
  | asks client fifo reads =>
      simp [System.stepClient, client, calm.door.put reads] at none
  | asked reads pending place =>
      have held : (s.client p).serverFd = true := by
        rcases place with ⟨client, -⟩ | ⟨client, -⟩ <;> rw [client]
      rcases idle with ⟨-, zero⟩ | ⟨pc, data⟩
      · exact absurd zero (nobody held)
      · rw [pc, data] at pending
        rcases pending with inFifo | opening
        · cases inFifo
        · cases opening
  | met waiting =>
      rcases idle with ⟨⟨seen, pc⟩, -⟩ | ⟨pc, -⟩ <;> rw [pc] at waiting <;> cases waiting
  | opened writing =>
      rcases idle with ⟨⟨seen, pc⟩, -⟩ | ⟨pc, -⟩ <;> rw [pc] at writing <;> cases writing
  | answered reads dealt passed place =>
      generalize client : s.client p = c at place
      generalize fifo : s.clientFifo p = f at place
      cases place with
      | waits writers n => simp [System.stepClient, client, fifo, answer] at none
      | reads writers n => simp [System.stepClient, client, fifo, answer, NamedPipe.take] at none
      | prints n => simp [System.stepClient, client] at none
      | exits n => simp [System.stepClient, client] at none
      | closes n => simp [System.stepClient, client] at none
      | gone n _ member => exact ⟨rfl, n, member⟩

end Calm

/-! ## Runs -/

section Runs

variable {P : Clients} {s : System}

/-- The server has made its FIFO. -/
def opened : System := (start.setServerFifo NamedPipe.absent.make).goto .openServerFd

theorem calm_opened (P : Clients) : Calm P opened where
  inv := @System.inv_stepServer P start opened .block (System.inv_start P) rfl
  door := by
    have nobody : openers P opened = 0 := Finset.sum_eq_zero fun p _ => rfl
    rw [nobody]
    exact ⟨rfl, rfl, rfl, rfl, by simp [opened, System.goto], by simp [opened, System.goto],
      by simp [opened, System.goto]⟩
  turn := fun p _ => .fresh rfl rfl

/-- The calls of the server and of each client, at most. -/
theorem size_opened (P : Clients) : opened.size P = 16 * P.pids.card + 5 := by
  have clients : ∑ p ∈ P.pids, (opened.client p).pc.rank = P.pids.card * 16 :=
    Finset.sum_const_nat fun p _ => rfl
  rw [System.size, clients, Nat.mul_comm]
  rfl

/-- **The blocking server serves everybody.** Once it has made its FIFO, it and any number of
`fifo_client` processes make at most 16 calls for each client and 5 more, in whatever order, when no
call fails. When none of them can make its next call, every client has printed its number. -/
theorem everyone_served (clients : ∀ p ∈ P.pids, P.kind p = .client) {actions : List Action}
    (smooth : ∀ a ∈ actions, Smooth a)
    (ran : run (step P .block) start (.server :: actions) = some s) :
    actions.length ≤ 16 * P.pids.card + 5 ∧
      ((∀ a, Smooth a → step P .block s a = none) →
        ∀ p ∈ P.pids, (s.client p).pc = .gone ∧ ∃ n, (p, n) ∈ s.printed) := by
  have ran : run (step P .block) opened actions = some s := ran
  have kept : Calm P s :=
    run_invariant_of (fun smooth calm taken => calm.step clients smooth taken) smooth
      (calm_opened P) ran
  refine ⟨?_, kept.printed_of_stuck clients⟩
  rw [← size_opened P]
  refine run_length_le (System.size P) ?_ smooth (calm_opened P) ran
  intro s a t smooth calm taken
  exact ⟨calm.step clients smooth taken, System.size_step smooth calm.writers_ne taken⟩

end Runs

/-- The server opens the FIFO of the client before the client does. -/
def oneAnswered : List Action :=
  oneRequest.tail ++ [.server, .server, .client 2, .server, .server, .server, .client 2, .client 2,
    .client 2, .client 2]

theorem everyone_served_one :
    ∃ s, run (step one .block) start (.server :: oneAnswered) = some s ∧
      oneAnswered.length ≤ 16 * one.pids.card + 5 ∧
      ((∀ a, Smooth a → step one .block s a = none) →
        ∀ p ∈ one.pids, (s.client p).pc = .gone ∧ ∃ n, (p, n) ∈ s.printed) := by
  have runs : (run (step one .block) start (.server :: oneAnswered)).isSome = true := by
    decide +kernel
  obtain ⟨s, ran⟩ := Option.isSome_iff_exists.mp runs
  exact ⟨s, ran, everyone_served (by decide) (by decide) ran⟩

end LinuxExercises.FifoServer
