import LinuxExercises.FifoServer.System
import LinuxExercises.Foundations.Allocation

/-!
# What the clients are granted

Every request is in one place: waiting in the FIFO of the server, held by the server until
it has opened the FIFO of the client, or dealt with (`Inv.distinct`). The counter is what
the requests dealt with have been granted, and lags behind by the last one between the
open and the end of the round (`Counted`). A number that is under way to a client is the
start of what that client was granted (`Inv.granted`).

Most steps bring up no new request and no new number (`Quiet`), also those in which the
server deals with a request. What remains is a client that sends its request (`inv_send`)
and a server that writes an answer (`inv_answer`). The invariant holds after every run
(`inv_run`).
-/

set_option autoImplicit false

namespace LinuxExercises.FifoServer

open Foundations

/-! ## What is granted and what is under way -/

/-- By how much a request dealt with moves the counter. -/
def Handled.length (h : Handled) : Nat := if h.opened then h.req.seqLen.toNat else 0

/-- The client has sent its request or will not send it any more. -/
def ClientPc.sent : ClientPc → Bool
  | .makeFifo => false
  | .openServer => false
  | .waitServer _ => false
  | .request => false
  | _ => true

/-- The request that the server has read and not yet dealt with. -/
def ServerPc.held : ServerPc → List Request
  | .openFifo req => [req]
  | .waitFifo req _ => [req]
  | _ => []

/-- The server is not in its loop yet. -/
def ServerPc.starting : ServerPc → Bool
  | .makeFifo => true
  | .openServerFd => true
  | .waitServerFd _ => true
  | .openDummyFd => true
  | .waitDummyFd _ => true
  | .ignoreSigpipe => true
  | _ => false

/-- The counter owes nothing to the request last dealt with. -/
def ServerPc.free : ServerPc → Bool
  | .write _ => false
  | .close _ => false
  | .stopped => false
  | _ => true

namespace System

/-- The requests that the server has not dealt with. -/
def pending (s : System) : List Request := s.server.pc.held ++ s.serverFifo.data

/-- The number is under way to client `p`, or the client has printed it. -/
def UnderWay (s : System) (p : Nat) (seqNum : CInt) : Prop :=
  seqNum ∈ (s.clientFifo p).data ∨ (s.client p).pc = .print seqNum ∨ (p, seqNum) ∈ s.printed

/-- The counter is what the requests dealt with have been granted, less the last one while
the server is still busy with it. -/
def Counted (s : System) : Prop :=
  match s.server.pc with
  | .write req => ∃ earlier, s.handled = earlier ++ [⟨req, true⟩] ∧
      s.server.seqN = BitVec.ofNat 32 (total Handled.length earlier)
  | .close req => ∃ earlier, s.handled = earlier ++ [⟨req, true⟩] ∧
      s.server.seqN = BitVec.ofNat 32 (total Handled.length earlier)
  | .stopped => True
  | _ => s.server.seqN = BitVec.ofNat 32 (total Handled.length s.handled)

theorem counted_iff {s : System} (free : s.server.pc.free = true) :
    s.Counted ↔ s.server.seqN = BitVec.ofNat 32 (total Handled.length s.handled) := by
  unfold Counted
  split <;> simp_all [ServerPc.free]

theorem counted_goto {s : System} {pc : ServerPc} (before : s.server.pc.free = true)
    (after : pc.free = true) (counted : s.Counted) : (s.goto pc).Counted :=
  (counted_iff after).mpr ((counted_iff before).mp counted)

/-- The number is the start of what client `p` was granted. -/
def Granted (P : Clients) (s : System) (p : Nat) (seqNum : CInt) : Prop :=
  ∃ begin, GrantedAt Handled.length s.handled ⟨P.request p, true⟩ begin ∧
    seqNum = BitVec.ofNat 32 begin

/-- The requests that have been read or are still to be read, in their order. -/
def requests (s : System) : List Request := s.handled.map Handled.req ++ s.pending

/-- The invariant. -/
structure Inv (P : Clients) (s : System) : Prop where
  distinct : (s.requests.map Request.pid).Nodup
  known : ∀ req ∈ s.requests,
    req.pid ∈ P.pids ∧ req = P.request req.pid ∧ (s.client req.pid).pc.sent = true
  counted : s.Counted
  granted : ∀ p seqNum, s.UnderWay p seqNum → Granted P s p seqNum

theorem inv_start (P : Clients) : Inv P start where
  distinct := List.nodup_nil
  known := fun _ member => (List.not_mem_nil member).elim
  counted := rfl
  granted := by
    intro p seqNum underWay
    rcases underWay with inFifo | held | printed
    · exact (List.not_mem_nil inFifo).elim
    · exact nomatch held
    · exact (List.not_mem_nil printed).elim

/-! ## Quiet steps -/

/-- No request and no number in `t` is new. -/
structure Quiet (s t : System) : Prop where
  handled : s.handled <+: t.handled
  requests : t.requests.Sublist s.requests
  sent : ∀ p, (s.client p).pc.sent = true → (t.client p).pc.sent = true
  counted : s.Counted → t.Counted
  underWay : ∀ p seqNum, t.UnderWay p seqNum → s.UnderWay p seqNum

namespace Quiet

variable {s t u : System}

theorem refl (s : System) : Quiet s s where
  handled := List.prefix_rfl
  requests := List.Sublist.refl _
  sent := fun _ sent => sent
  counted := id
  underWay := fun _ _ underWay => underWay

theorem trans (first : Quiet s t) (second : Quiet t u) : Quiet s u where
  handled := first.handled.trans second.handled
  requests := second.requests.trans first.requests
  sent := fun p sent => second.sent p (first.sent p sent)
  counted := fun counted => second.counted (first.counted counted)
  underWay := fun p seqNum underWay => first.underWay p seqNum (second.underWay p seqNum underWay)

/-- **A quiet step keeps the invariant.** -/
theorem inv {P : Clients} (quiet : Quiet s t) (inv : Inv P s) : Inv P t := by
  refine ⟨inv.distinct.sublist (quiet.requests.map _), ?_, quiet.counted inv.counted, ?_⟩
  · intro req member
    obtain ⟨among, same, sent⟩ := inv.known req (quiet.requests.subset member)
    exact ⟨among, same, quiet.sent _ sent⟩
  · intro p seqNum underWay
    obtain ⟨begin, granted, value⟩ := inv.granted p seqNum (quiet.underWay p seqNum underWay)
    obtain ⟨later, grown⟩ := quiet.handled
    exact ⟨begin, grown ▸ granted.append later, value⟩

/-- Messages disappear from the FIFO of the server. -/
theorem setServerFifo {fifo : NamedPipe Request} (fewer : fifo.data.Sublist s.serverFifo.data) :
    Quiet s (s.setServerFifo fifo) where
  handled := List.prefix_rfl
  requests := (List.Sublist.refl _).append ((List.Sublist.refl _).append fewer)
  sent := fun _ sent => sent
  counted := id
  underWay := fun _ _ underWay => underWay

/-- Messages disappear from the FIFO of a client. -/
theorem setFifo {p : Nat} {fifo : NamedPipe CInt}
    (fewer : fifo.data.Sublist (s.clientFifo p).data) : Quiet s (s.setFifo p fifo) where
  handled := List.prefix_rfl
  requests := List.Sublist.refl _
  sent := fun _ sent => sent
  counted := id
  underWay := by
    intro q seqNum underWay
    rcases underWay with inFifo | other
    · refine Or.inl ?_
      by_cases here : q = p
      · subst here
        rw [setFifo_same] at inFifo
        exact fewer.subset inFifo
      · rw [setFifo_other s fifo here] at inFifo
        exact inFifo
    · exact Or.inr other

/-- The FIFO of the server changes but for its messages. -/
theorem keepServerFifo {fifo : NamedPipe Request} (data : fifo.data = s.serverFifo.data) :
    Quiet s (s.setServerFifo fifo) :=
  setServerFifo (data ▸ List.Sublist.refl _)

/-- The FIFO of a client changes but for its messages. -/
theorem keepFifo {p : Nat} {fifo : NamedPipe CInt} (data : fifo.data = (s.clientFifo p).data) :
    Quiet s (s.setFifo p fifo) :=
  setFifo (data ▸ List.Sublist.refl _)

/-- The server closes the FIFO of a client. -/
theorem closeFifo (s : System) (p : Nat) : Quiet s (s.setFifo p (s.clientFifo p).closeWrite) :=
  setFifo (NamedPipe.closeWrite_data_sublist _)

/-- A client goes on, and prints only what was under way to it. -/
theorem setClient {p : Nat} {c : Client}
    (sent : (s.client p).pc.sent = true → c.pc.sent = true)
    (prints : ∀ seqNum, c.pc = .print seqNum → s.UnderWay p seqNum) :
    Quiet s (s.setClient p c) where
  handled := List.prefix_rfl
  requests := List.Sublist.refl _
  sent := by
    intro q before
    by_cases here : q = p
    · subst here
      rw [setClient_same]
      exact sent before
    · rw [setClient_other s c here]
      exact before
  counted := id
  underWay := by
    intro q seqNum underWay
    rcases underWay with inFifo | held | printed
    · exact Or.inl inFifo
    · by_cases here : q = p
      · subst here
        rw [setClient_same] at held
        exact prints seqNum held
      · rw [setClient_other s c here] at held
        exact Or.inr (Or.inl held)
    · exact Or.inr (Or.inr printed)

/-- The server goes on, with no other request in its hands. -/
theorem goto {pc : ServerPc} (held : pc.held.Sublist s.server.pc.held)
    (counted : s.Counted → (s.goto pc).Counted) : Quiet s (s.goto pc) where
  handled := List.prefix_rfl
  requests := (List.Sublist.refl _).append (held.append (List.Sublist.refl _))
  sent := fun _ sent => sent
  counted := counted
  underWay := fun _ _ underWay => underWay

/-- The server goes on without a request, and owes nothing before or after. -/
theorem goto_free {pc : ServerPc} (nothing : pc.held = []) (before : s.server.pc.free = true)
    (after : pc.free = true) : Quiet s (s.goto pc) :=
  goto (nothing ▸ List.nil_sublist _) (counted_goto before after)

theorem stop (s : System) : Quiet s s.stop := by
  have read : Quiet s (s.setServerFifo
      (if s.server.pc.reads then s.serverFifo.closeRead else s.serverFifo)) :=
    setServerFifo (NamedPipe.ite_data_sublist (NamedPipe.closeRead_data_sublist _))
  refine (read.trans (setServerFifo ?_)).trans (goto (List.nil_sublist _) fun _ => trivial)
  exact NamedPipe.ite_data_sublist (NamedPipe.closeWrite_data_sublist _)

/-- The server deals with the request in its hands. -/
theorem handle {req : Request} {pc : ServerPc} {opened : Bool} (held : s.server.pc.held = [req])
    (free : pc.held = [])
    (counted : s.Counted → ({ s.goto pc with handled := s.handled ++ [⟨req, opened⟩] } :
      System).Counted) :
    Quiet s { s.goto pc with handled := s.handled ++ [⟨req, opened⟩] } where
  handled := List.prefix_append ..
  requests := by
    rw [System.requests, System.requests, System.pending, System.pending, held, System.goto, free,
      List.map_append, List.append_assoc]
    exact List.Sublist.refl _
  sent := fun _ sent => sent
  counted := counted
  underWay := fun _ _ underWay => underWay

theorem die (s : System) (p : Nat) : Quiet s (s.die p) := by
  have server : Quiet s (s.setServerFifo
      (if (s.client p).serverFd then s.serverFifo.closeWrite else s.serverFifo)) :=
    setServerFifo (NamedPipe.ite_data_sublist (NamedPipe.closeWrite_data_sublist _))
  refine (server.trans (@setFifo _ p _ ?_)).trans
    (setClient (fun _ => rfl) fun _ prints => nomatch prints)
  exact NamedPipe.ite_data_sublist (NamedPipe.closeRead_data_sublist _)

end Quiet

/-! ## Steps of the server -/

variable {P : Clients} {s t : System}

/-- The server answers the request that it has dealt with last. -/
theorem inv_answer {req : Request} {fifo : NamedPipe CInt} (inv : Inv P s)
    (pc : s.server.pc = .write req)
    (written : (s.clientFifo req.pid).put s.server.seqN = some fifo) :
    Inv P ((s.setFifo req.pid fifo).goto (.close req)) := by
  have requests : ((s.setFifo req.pid fifo).goto (.close req)).requests = s.requests := by
    rw [System.requests, System.requests, pending, pending, pc]
    rfl
  have counted := inv.counted
  rw [Counted, pc] at counted
  obtain ⟨earlier, handled, seqN⟩ := counted
  have member : req ∈ s.requests := by
    refine List.mem_append_left _ ?_
    rw [handled, List.map_append]
    exact List.mem_append_right _ (List.mem_singleton_self _)
  have answer : Granted P s req.pid s.server.seqN := by
    refine ⟨total Handled.length earlier, ?_, seqN⟩
    rw [handled, ← (inv.known req member).2.1]
    exact GrantedAt.last ..
  refine ⟨requests ▸ inv.distinct, requests ▸ inv.known, ⟨earlier, handled, seqN⟩, ?_⟩
  intro p seqNum underWay
  rcases underWay with inFifo | other
  · by_cases here : p = req.pid
    · subst here
      rw [goto, setFifo_same, NamedPipe.put_data written] at inFifo
      rcases List.mem_append.mp inFifo with old | new
      · exact inv.granted _ _ (Or.inl old)
      · rw [List.mem_singleton.mp new]
        exact answer
    · rw [goto, setFifo_other s fifo here] at inFifo
      exact inv.granted p seqNum (Or.inl inFifo)
  · exact inv.granted p seqNum (Or.inr other)

/-- The open of the client's FIFO fails. -/
theorem Quiet.discard {req : Request} (held : s.server.pc.held = [req])
    (free : s.server.pc.free = true) : Quiet s (s.discard req) := by
  refine Quiet.handle held rfl fun counted => ?_
  have seqN := (counted_iff free).mp counted
  show s.server.seqN = BitVec.ofNat 32 (total Handled.length (s.handled ++ [⟨req, false⟩]))
  rw [total_append, seqN]
  rfl

/-- The open of the client's FIFO returns. -/
theorem Quiet.accept {req : Request} (held : s.server.pc.held = [req])
    (free : s.server.pc.free = true) : Quiet s (s.accept req) :=
  Quiet.handle held rfl fun counted => ⟨s.handled, rfl, (counted_iff free).mp counted⟩

/-- The round ends, and the counter catches up. -/
theorem Quiet.advance {req : Request} (pc : s.server.pc = .close req) :
    Quiet s (s.advance req) where
  handled := List.prefix_rfl
  requests := by
    rw [System.requests, System.requests, pending, pending, pc]
    exact List.Sublist.refl _
  sent := fun _ sent => sent
  counted := by
    intro counted
    rw [Counted, pc] at counted
    obtain ⟨earlier, handled, seqN⟩ := counted
    show s.server.seqN + req.seqLen = BitVec.ofNat 32 (total Handled.length s.handled)
    have length : total Handled.length [⟨req, true⟩] = req.seqLen.toNat := rfl
    rw [handled, total_append, length, seqN, BitVec.ofNat_add, BitVec.ofNat_toNat,
      BitVec.setWidth_eq]
  underWay := fun _ _ underWay => underWay

/-- The write to the client's FIFO fails. -/
theorem Quiet.skip {req : Request} (pc : s.server.pc = .write req) :
    Quiet s (s.goto (.close req)) :=
  Quiet.goto (List.nil_sublist _) fun counted => by
    rw [Counted, pc] at counted
    exact counted

/-- The server's FIFO changes but for its messages, and the server goes on. -/
theorem Quiet.setGoto {fifo : NamedPipe Request} {pc : ServerPc}
    (data : fifo.data = s.serverFifo.data) (nothing : pc.held = [])
    (before : s.server.pc.free = true) (after : pc.free = true) :
    Quiet s ((s.setServerFifo fifo).goto pc) :=
  (Quiet.keepServerFifo data).trans (Quiet.goto_free nothing before after)

/-- The server takes a request out of its FIFO. -/
theorem Quiet.take {req : Request} {fifo : NamedPipe Request} (pc : s.server.pc = .read)
    (taken : s.serverFifo.take = .got req fifo) :
    Quiet s ((s.setServerFifo fifo).goto (.openFifo req)) where
  handled := List.prefix_rfl
  requests := by
    rw [System.requests, System.requests, pending, pending, pc, NamedPipe.take_data taken]
    exact List.Sublist.refl _
  sent := fun _ sent => sent
  counted := by
    have free : s.server.pc.free = true := by rw [pc]; rfl
    exact @counted_goto (s.setServerFifo fifo) _ free rfl
  underWay := fun _ _ underWay => underWay

/-- A step of the server in its loop. -/
theorem inv_serve {mode : Mode} {req : Request} (inv : Inv P s) (pc : s.server.pc = .openFifo req)
    (taken : s.stepServer mode = some t) : Inv P t := by
  have held : s.server.pc.held = [req] := by rw [pc]; rfl
  have free : s.server.pc.free = true := by rw [pc]; rfl
  rw [stepServer, pc] at taken
  dsimp only at taken
  cases opening : (s.clientFifo req.pid).openWrite mode.flag with
  | fails =>
      rw [opening] at taken
      obtain rfl := Option.some.inj taken
      exact (Quiet.discard held free).inv inv
  | waits seen fifo =>
      rw [opening] at taken
      obtain rfl := Option.some.inj taken
      have set : Quiet s (s.setFifo req.pid fifo) :=
        Quiet.keepFifo (NamedPipe.openWrite_data (Or.inr ⟨seen, opening⟩))
      have wait : Quiet (s.setFifo req.pid fifo)
          ((s.setFifo req.pid fifo).goto (.waitFifo req seen)) :=
        Quiet.goto (held ▸ List.Sublist.refl [req])
          (@counted_goto (s.setFifo req.pid fifo) _ free rfl)
      exact (set.trans wait).inv inv
  | opens fifo =>
      rw [opening] at taken
      obtain rfl := Option.some.inj taken
      have set : Quiet s (s.setFifo req.pid fifo) :=
        Quiet.keepFifo (NamedPipe.openWrite_data (Or.inl opening))
      exact (set.trans (Quiet.accept held free)).inv inv

/-- A step of the server before its loop. -/
theorem Quiet.startUp {mode : Mode} (starting : s.server.pc.starting = true)
    (taken : s.stepServer mode = some t) : Quiet s t := by
  have free : s.server.pc.free = true := by
    revert starting
    cases s.server.pc <;> first | exact fun _ => rfl | exact fun no => nomatch no
  cases pc : s.server.pc with
  | makeFifo =>
      rw [stepServer, pc] at taken
      obtain rfl := Option.some.inj taken
      exact Quiet.setGoto rfl rfl free rfl
  | openServerFd =>
      rw [stepServer, pc] at taken
      dsimp only at taken
      cases opening : s.serverFifo.openRead false with
      | fails =>
          rw [opening] at taken
          exact Option.some.inj taken ▸ Quiet.stop s
      | waits seen fifo =>
          rw [opening] at taken
          obtain rfl := Option.some.inj taken
          exact Quiet.setGoto (NamedPipe.openRead_data (Or.inr ⟨seen, opening⟩)) rfl free rfl
      | opens fifo =>
          rw [opening] at taken
          obtain rfl := Option.some.inj taken
          exact Quiet.setGoto (NamedPipe.openRead_data (Or.inl opening)) rfl free rfl
  | waitServerFd seen =>
      rw [stepServer, pc] at taken
      dsimp only at taken
      split at taken
      · exact nomatch taken
      · exact Option.some.inj taken ▸ Quiet.goto_free rfl free rfl
  | openDummyFd =>
      rw [stepServer, pc] at taken
      dsimp only at taken
      cases opening : s.serverFifo.openWrite false with
      | fails =>
          rw [opening] at taken
          exact Option.some.inj taken ▸ Quiet.stop s
      | waits seen fifo =>
          rw [opening] at taken
          obtain rfl := Option.some.inj taken
          exact Quiet.setGoto (NamedPipe.openWrite_data (Or.inr ⟨seen, opening⟩)) rfl free rfl
      | opens fifo =>
          rw [opening] at taken
          obtain rfl := Option.some.inj taken
          exact Quiet.setGoto (NamedPipe.openWrite_data (Or.inl opening)) rfl free rfl
  | waitDummyFd seen =>
      rw [stepServer, pc] at taken
      dsimp only at taken
      split at taken
      · exact nomatch taken
      · exact Option.some.inj taken ▸ Quiet.goto_free rfl free rfl
  | ignoreSigpipe =>
      rw [stepServer, pc] at taken
      exact Option.some.inj taken ▸ Quiet.goto_free rfl free rfl
  | _ =>
      rw [pc] at starting
      exact nomatch starting

theorem inv_stepServer {mode : Mode} (inv : Inv P s) (taken : s.stepServer mode = some t) :
    Inv P t := by
  cases pc : s.server.pc with
  | read =>
      rw [stepServer, pc] at taken
      dsimp only at taken
      cases reading : s.serverFifo.take with
      | eof =>
          rw [reading] at taken
          exact Option.some.inj taken ▸ inv
      | empty =>
          rw [reading] at taken
          exact nomatch taken
      | got req fifo =>
          rw [reading] at taken
          exact Option.some.inj taken ▸ (Quiet.take pc reading).inv inv
  | openFifo req => exact inv_serve inv pc taken
  | waitFifo req seen =>
      rw [stepServer, pc] at taken
      dsimp only at taken
      split at taken
      · exact nomatch taken
      · obtain rfl := Option.some.inj taken
        exact (Quiet.accept (by rw [pc]; rfl) (by rw [pc]; rfl)).inv inv
  | write req =>
      rw [stepServer, pc] at taken
      dsimp only at taken
      cases written : (s.clientFifo req.pid).put s.server.seqN with
      | none =>
          rw [written] at taken
          exact Option.some.inj taken ▸ (Quiet.skip pc).inv inv
      | some fifo =>
          rw [written] at taken
          exact Option.some.inj taken ▸ inv_answer inv pc written
  | close req =>
      rw [stepServer, pc] at taken
      obtain rfl := Option.some.inj taken
      have advance := @Quiet.advance (s.setFifo req.pid (s.clientFifo req.pid).closeWrite) req pc
      exact ((Quiet.closeFifo s req.pid).trans advance).inv inv
  | stopped =>
      rw [stepServer, pc] at taken
      exact nomatch taken
  | _ => exact (Quiet.startUp (by rw [pc]; rfl) taken).inv inv

theorem Quiet.failServer (taken : s.failServer = some t) : Quiet s t := by
  cases pc : s.server.pc with
  | read =>
      rw [System.failServer, pc] at taken
      exact Option.some.inj taken ▸ Quiet.refl s
  | openFifo req =>
      rw [System.failServer, pc] at taken
      exact Option.some.inj taken ▸ Quiet.discard (by rw [pc]; rfl) (by rw [pc]; rfl)
  | waitFifo req seen =>
      rw [System.failServer, pc] at taken
      obtain rfl := Option.some.inj taken
      exact (Quiet.closeFifo s req.pid).trans
        (Quiet.discard (show s.server.pc.held = [req] by rw [pc]; rfl)
          (show s.server.pc.free = true by rw [pc]; rfl))
  | write req =>
      rw [System.failServer, pc] at taken
      exact Option.some.inj taken ▸ Quiet.skip pc
  | close req =>
      rw [System.failServer, pc] at taken
      obtain rfl := Option.some.inj taken
      exact (Quiet.closeFifo s req.pid).trans (Quiet.stop _)
  | stopped =>
      rw [System.failServer, pc] at taken
      exact nomatch taken
  | _ =>
      rw [System.failServer, pc] at taken
      exact Option.some.inj taken ▸ Quiet.stop s

/-! ## Steps of the clients -/

/-- A client that has not sent its request goes on. -/
theorem Quiet.approach {p : Nat} {c : Client} (unsent : (s.client p).pc.sent = false)
    (silent : ∀ n, c.pc ≠ .print n) : Quiet s (s.setClient p c) :=
  Quiet.setClient (fun sent => nomatch unsent.symm.trans sent)
    fun n prints => absurd prints (silent n)

/-- A client goes on behind its request. -/
theorem Quiet.proceed {p : Nat} {c : Client} (sent : c.pc.sent = true)
    (silent : ∀ n, c.pc ≠ .print n) : Quiet s (s.setClient p c) :=
  Quiet.setClient (fun _ => sent) fun n prints => absurd prints (silent n)

/-- A client leaves its program. -/
theorem Quiet.leave (s : System) (p : Nat) : Quiet s (s.move p .exit) :=
  Quiet.proceed rfl fun _ prints => nomatch prints

/-- A client reads its answer. -/
theorem Quiet.receive {p : Nat} {seqNum : CInt} {fifo : NamedPipe CInt}
    (taken : (s.clientFifo p).take = .got seqNum fifo) :
    Quiet s ((s.setFifo p fifo).move p (.print seqNum)) := by
  have data := NamedPipe.take_data taken
  have arrives : Quiet s (s.move p (.print seqNum)) := by
    refine Quiet.setClient (fun _ => rfl) fun n prints => ?_
    rw [← ClientPc.print.inj prints]
    exact Or.inl (data ▸ List.mem_cons_self ..)
  exact arrives.trans (@Quiet.setFifo (s.move p (.print seqNum)) p fifo
    (show fifo.data.Sublist (s.clientFifo p).data from data ▸ List.sublist_cons_self ..))

/-- A client prints its answer. -/
theorem Quiet.print {p : Nat} {seqNum : CInt} (pc : (s.client p).pc = .print seqNum) :
    Quiet s { s.move p .exit with printed := s.printed ++ [(p, seqNum)] } where
  handled := List.prefix_rfl
  requests := List.Sublist.refl _
  sent := (Quiet.leave s p).sent
  counted := id
  underWay := by
    intro q n underWay
    rcases underWay with inFifo | held | printed
    · exact Or.inl inFifo
    · exact (Quiet.leave s p).underWay q n (Or.inr (Or.inl held))
    · rcases List.mem_append.mp printed with old | new
      · exact Or.inr (Or.inr old)
      · obtain ⟨rfl, rfl⟩ := Prod.mk.inj (List.mem_singleton.mp new)
        exact Or.inr (Or.inl pc)

/-- A client sends its request. -/
theorem inv_send {p : Nat} {fifo : NamedPipe Request} {pc' : ClientPc} (inv : Inv P s)
    (among : p ∈ P.pids) (pc : (s.client p).pc = .request)
    (written : s.serverFifo.put (P.request p) = some fifo)
    (sent : pc'.sent = true) (silent : ∀ n, pc' ≠ .print n) :
    Inv P ((s.setServerFifo fifo).move p pc') := by
  have moved : Inv P (s.move p pc') := (Quiet.proceed sent silent).inv inv
  have requests : ((s.setServerFifo fifo).move p pc').requests =
      (s.move p pc').requests ++ [P.request p] := by
    show s.handled.map Handled.req ++ (s.server.pc.held ++ fifo.data) = s.requests ++ [P.request p]
    rw [NamedPipe.put_data written, System.requests, pending, List.append_assoc, List.append_assoc]
  have fresh : p ∉ s.requests.map Request.pid := by
    intro member
    obtain ⟨req, inside, rfl⟩ := List.mem_map.mp member
    have already := (inv.known req inside).2.2
    rw [pc] at already
    exact nomatch already
  refine ⟨?_, ?_, moved.counted, moved.granted⟩
  · rw [requests, List.map_append]
    refine List.Nodup.append moved.distinct (List.nodup_singleton _) ?_
    rw [List.map_singleton, List.disjoint_singleton]
    exact fresh
  · intro req member
    rw [requests] at member
    rcases List.mem_append.mp member with old | new
    · exact moved.known req old
    · obtain rfl := List.mem_singleton.mp new
      refine ⟨among, rfl, ?_⟩
      show (((s.setServerFifo fifo).move p pc').client p).pc.sent = true
      rw [System.move, setClient_same]
      exact sent

/-- A step of a client up to its request. -/
theorem Quiet.begin {p : Nat} (unsent : (s.client p).pc.sent = false)
    (early : (s.client p).pc ≠ .request) (taken : s.stepClient P p = some t) : Quiet s t := by
  cases pc : (s.client p).pc with
  | makeFifo =>
      rw [stepClient, pc] at taken
      obtain rfl := Option.some.inj taken
      have made : Quiet s (s.setFifo p (s.clientFifo p).make) :=
        Quiet.keepFifo NamedPipe.make_data
      exact made.trans (Quiet.approach unsent fun _ prints => nomatch prints)
  | openServer =>
      rw [stepClient, pc] at taken
      dsimp only at taken
      cases opening : s.serverFifo.openWrite false with
      | fails =>
          rw [opening] at taken
          exact Option.some.inj taken ▸ Quiet.leave s p
      | waits seen fifo =>
          rw [opening] at taken
          obtain rfl := Option.some.inj taken
          have data := NamedPipe.openWrite_data (Or.inr ⟨seen, opening⟩)
          exact (Quiet.keepServerFifo data).trans
            (Quiet.approach unsent fun _ prints => nomatch prints)
      | opens fifo =>
          rw [opening] at taken
          obtain rfl := Option.some.inj taken
          have data := NamedPipe.openWrite_data (Or.inl opening)
          exact (Quiet.keepServerFifo data).trans
            (Quiet.approach unsent fun _ prints => nomatch prints)
  | waitServer seen =>
      rw [stepClient, pc] at taken
      dsimp only at taken
      split at taken
      · exact nomatch taken
      · obtain rfl := Option.some.inj taken
        exact Quiet.approach unsent fun _ prints => nomatch prints
  | request => exact absurd pc early
  | _ =>
      rw [pc] at unsent
      exact nomatch unsent

/-- A step of a client behind its request. -/
theorem Quiet.finish {p : Nat} (sent : (s.client p).pc.sent = true)
    (taken : s.stepClient P p = some t) : Quiet s t := by
  cases pc : (s.client p).pc with
  | openFifo =>
      rw [stepClient, pc] at taken
      dsimp only at taken
      cases opening : (s.clientFifo p).openRead (P.kind p = .nonblock) with
      | fails =>
          rw [opening] at taken
          exact Option.some.inj taken ▸ Quiet.leave s p
      | waits seen fifo =>
          rw [opening] at taken
          obtain rfl := Option.some.inj taken
          have data := NamedPipe.openRead_data (Or.inr ⟨seen, opening⟩)
          exact (Quiet.keepFifo data).trans (Quiet.proceed rfl fun _ prints => nomatch prints)
      | opens fifo =>
          rw [opening] at taken
          obtain rfl := Option.some.inj taken
          have data := NamedPipe.openRead_data (Or.inl opening)
          exact (Quiet.keepFifo data).trans (Quiet.proceed rfl fun _ prints => nomatch prints)
  | waitFifo seen =>
      rw [stepClient, pc] at taken
      dsimp only at taken
      split at taken
      · exact nomatch taken
      · obtain rfl := Option.some.inj taken
        exact Quiet.proceed rfl fun _ prints => nomatch prints
  | read =>
      rw [stepClient, pc] at taken
      dsimp only at taken
      cases reading : (s.clientFifo p).take with
      | eof =>
          rw [reading] at taken
          exact Option.some.inj taken ▸ Quiet.leave s p
      | empty =>
          rw [reading] at taken
          dsimp only at taken
          split at taken
          · exact Option.some.inj taken ▸ Quiet.leave s p
          · exact nomatch taken
      | got seqNum fifo =>
          rw [reading] at taken
          exact Option.some.inj taken ▸ Quiet.receive reading
  | print seqNum =>
      rw [stepClient, pc] at taken
      exact Option.some.inj taken ▸ Quiet.print pc
  | exit =>
      rw [stepClient, pc] at taken
      obtain rfl := Option.some.inj taken
      have unlinked : Quiet s (s.setFifo p (s.clientFifo p).unlink) :=
        Quiet.keepFifo NamedPipe.unlink_data
      exact unlinked.trans (Quiet.proceed rfl fun _ prints => nomatch prints)
  | close =>
      rw [stepClient, pc] at taken
      exact Option.some.inj taken ▸ Quiet.die s p
  | gone =>
      rw [stepClient, pc] at taken
      exact nomatch taken
  | _ =>
      rw [pc] at sent
      exact nomatch sent

theorem inv_stepClient {p : Nat} (inv : Inv P s) (among : p ∈ P.pids)
    (taken : s.stepClient P p = some t) : Inv P t := by
  by_cases pc : (s.client p).pc = .request
  · rw [stepClient, pc] at taken
    dsimp only at taken
    cases written : s.serverFifo.put (P.request p) with
    | none =>
        rw [written] at taken
        exact Option.some.inj taken ▸ (Quiet.die s p).inv inv
    | some fifo =>
        rw [written] at taken
        obtain rfl := Option.some.inj taken
        refine inv_send inv among pc written ?_ ?_
        · split <;> rfl
        · intro n
          split <;> exact fun prints => nomatch prints
  · cases sent : (s.client p).pc.sent with
    | false => exact (Quiet.begin sent pc taken).inv inv
    | true => exact (Quiet.finish sent taken).inv inv

theorem Quiet.failClient {p : Nat} (taken : s.failClient p = some t) : Quiet s t := by
  unfold System.failClient at taken
  split at taken
  · exact Option.some.inj taken ▸ Quiet.die s p
  · exact nomatch taken
  · exact nomatch taken
  · obtain rfl := Option.some.inj taken
    exact Quiet.proceed rfl fun _ prints => nomatch prints
  · exact nomatch taken
  · exact nomatch taken
  · exact Option.some.inj taken ▸ Quiet.leave s p

/-! ## Runs -/

theorem inv_step {mode : Mode} {a : Action} (inv : Inv P s) (taken : step P mode s a = some t) :
    Inv P t := by
  cases a with
  | server => exact inv_stepServer inv taken
  | serverFails => exact (Quiet.failServer taken).inv inv
  | client p =>
      rw [step] at taken
      split at taken
      · rename_i among
        exact inv_stepClient inv among taken
      · exact nomatch taken
  | clientFails p =>
      rw [step] at taken
      split at taken
      · exact (Quiet.failClient taken).inv inv
      · exact nomatch taken
  | kill p =>
      rw [step] at taken
      split at taken
      · exact Option.some.inj taken ▸ (Quiet.die s p).inv inv
      · exact nomatch taken

theorem inv_run {mode : Mode} {actions : List Action}
    (ran : run (step P mode) start actions = some s) : Inv P s :=
  run_invariant inv_step (inv_start P) ran

end System

end LinuxExercises.FifoServer
