import LinuxExercises.FifoServer.Grants

/-!
# The server that does not wait

The server's comment names `nonblock` as the solution for clients that never open their
FIFO: the open then fails at once when nobody reads, and the server goes on. It fails just
the same when a `fifo_client` has sent its request and has not come to its own open yet.
The server discards the request, and the client waits in its open for good
(`dropped_one`).

A `fifo_client` is never dropped in the runs in which it has its FIFO open whenever the
server is about to open it (`neverDropped_of_run`).
-/

set_option autoImplicit false

namespace LinuxExercises.FifoServer

open Foundations

/-- The system, and the clients to whose FIFOs a response has been written. -/
structure Recorded where
  system : System
  written : List Nat

namespace System

/-- The client to whose FIFO a step writes a response. -/
def responds (s : System) : Action → List Nat
  | .server =>
      match s.server.pc with
      | .write req => if ((s.clientFifo req.pid).put s.server.seqN).isSome then [req.pid] else []
      | _ => []
  | _ => []

/-- The server has dealt with the request, and that round of its loop is over. -/
def Finished (s : System) (req : Request) : Prop :=
  (∃ h ∈ s.handled, h.req = req) ∧ s.server.pc ≠ .write req ∧ s.server.pc ≠ .close req

/-- A `fifo_client` has its FIFO open when the server is about to open it. -/
def clientFirst (P : Clients) (s : System) : Bool :=
  match s.server.pc with
  | .openFifo req => P.kind req.pid != .client || (s.client req.pid).clientFd
  | _ => true

end System

namespace Recorded

/-- Before anything has happened. -/
def start : Recorded := ⟨FifoServer.start, []⟩

/-- A step and the response it writes. -/
def step (P : Clients) (mode : Mode) (r : Recorded) (a : Action) : Option Recorded :=
  (FifoServer.step P mode r.system a).map fun t => ⟨t, r.written ++ r.system.responds a⟩

/-- Every `fifo_client` whose round is over has a response, and none waits in its open for
a request that the server has discarded. -/
structure NeverDropped (P : Clients) (r : Recorded) : Prop where
  answered : ∀ p, P.kind p = .client → r.system.Finished (P.request p) → p ∈ r.written
  awaited : ∀ p seen, P.kind p = .client → (r.system.client p).pc = .waitFifo seen →
    ⟨P.request p, false⟩ ∉ r.system.handled

end Recorded

/-- The server's calls do not fail, and no `fifo_client` is killed or has a call that
fails. -/
def Undisturbed (P : Clients) : Action → Prop
  | .server => True
  | .serverFails => False
  | .client _ => True
  | .clientFails p => P.kind p ≠ .client
  | .kill p => P.kind p ≠ .client

instance (P : Clients) : DecidablePred (Undisturbed P)
  | .server => .isTrue trivial
  | .serverFails => .isFalse id
  | .client _ => .isTrue trivial
  | .clientFails p => inferInstanceAs (Decidable (P.kind p ≠ .client))
  | .kill p => inferInstanceAs (Decidable (P.kind p ≠ .client))

/-! ## What a step leaves alone -/

namespace System

variable {P : Clients} {s t u : System}

/-- Between `s` and `t` only client `q` and its FIFO have moved, or the FIFO of the
server. -/
structure Aside (q : Nat) (s t : System) : Prop where
  server : t.server = s.server
  handled : t.handled = s.handled
  client : ∀ p ≠ q, t.client p = s.client p
  fifo : ∀ p ≠ q, t.clientFifo p = s.clientFifo p

namespace Aside

variable {q : Nat}

theorem trans (first : Aside q s t) (second : Aside q t u) : Aside q s u where
  server := second.server.trans first.server
  handled := second.handled.trans first.handled
  client := fun p other => (second.client p other).trans (first.client p other)
  fifo := fun p other => (second.fifo p other).trans (first.fifo p other)

theorem setServerFifo (fifo : NamedPipe Request) : Aside q s (s.setServerFifo fifo) where
  server := rfl
  handled := rfl
  client := fun _ _ => rfl
  fifo := fun _ _ => rfl

theorem setFifo (fifo : NamedPipe CInt) : Aside q s (s.setFifo q fifo) where
  server := rfl
  handled := rfl
  client := fun _ _ => rfl
  fifo := fun _ other => setFifo_other s fifo other

theorem setClient (c : Client) : Aside q s (s.setClient q c) where
  server := rfl
  handled := rfl
  client := fun _ other => setClient_other s c other
  fifo := fun _ _ => rfl

theorem move (pc : ClientPc) : Aside q s (s.move q pc) := setClient _

theorem die (s : System) (q : Nat) : Aside q s (s.die q) :=
  ((setServerFifo _).trans (setFifo _)).trans (setClient _)

end Aside

/-- A client that calls touches only itself, its FIFO and that of the server. -/
theorem Aside.stepClient {q : Nat} (taken : s.stepClient P q = some t) : Aside q s t := by
  unfold System.stepClient at taken
  split at taken
  · exact Option.some.inj taken ▸ (Aside.setFifo _).trans (Aside.move _)
  · split at taken
    · exact Option.some.inj taken ▸ Aside.move _
    · exact Option.some.inj taken ▸ (Aside.setServerFifo _).trans (Aside.setClient _)
    · exact Option.some.inj taken ▸ (Aside.setServerFifo _).trans (Aside.setClient _)
  · split at taken
    · cases taken
    · exact Option.some.inj taken ▸ Aside.move _
  · split at taken
    · exact Option.some.inj taken ▸ Aside.die s q
    · exact Option.some.inj taken ▸ (Aside.setServerFifo _).trans (Aside.move _)
  · split at taken
    · exact Option.some.inj taken ▸ Aside.move _
    · exact Option.some.inj taken ▸ (Aside.setFifo _).trans (Aside.setClient _)
    · exact Option.some.inj taken ▸ (Aside.setFifo _).trans (Aside.setClient _)
  · split at taken
    · cases taken
    · exact Option.some.inj taken ▸ Aside.move _
  · split at taken
    · exact Option.some.inj taken ▸ Aside.move _
    · split at taken
      · exact Option.some.inj taken ▸ Aside.move _
      · cases taken
    · exact Option.some.inj taken ▸ (Aside.setFifo _).trans (Aside.move _)
  · obtain rfl := Option.some.inj taken
    exact ⟨rfl, rfl, (Aside.move _).client, fun _ _ => rfl⟩
  · exact Option.some.inj taken ▸ (Aside.setFifo _).trans (Aside.move _)
  · exact Option.some.inj taken ▸ Aside.die s q
  · cases taken

theorem Aside.failClient {q : Nat} (taken : s.failClient q = some t) : Aside q s t := by
  unfold System.failClient at taken
  split at taken
  · exact Option.some.inj taken ▸ Aside.die s q
  · cases taken
  · cases taken
  · exact Option.some.inj taken ▸ Aside.move _
  · cases taken
  · cases taken
  · exact Option.some.inj taken ▸ Aside.move _

end System

/-! ## The stages of a request -/

/-- The FIFO of a client that has not opened it. -/
def idle (linked : Bool) : NamedPipe CInt := { NamedPipe.absent with linked := linked }

/-- The FIFO of a client that reads it, with the server writing or not. -/
def listening (writers : Nat) : NamedPipe CInt where
  linked := true
  readers := 1
  writers := writers
  readOpens := 1
  writeOpens := writers
  data := []

/-- The client has not come to its open, or has left without it. -/
def ClientPc.away : ClientPc → Bool
  | .waitFifo _ => false
  | .read => false
  | .print _ => false
  | _ => true

/-- The client does not have its FIFO open. -/
structure Away (c : Client) (fifo : NamedPipe CInt) : Prop where
  pc : c.pc.away = true
  closed : c.clientFd = false
  idle : ∃ linked, fifo = idle linked

/-- The client waits in its open for the server. -/
structure Listening (c : Client) (fifo : NamedPipe CInt) : Prop where
  pc : c.pc = .waitFifo 0
  opened : c.clientFd = true
  fifo : fifo = listening 0

/-- The client and the server both have the FIFO open. -/
structure Connected (c : Client) (fifo : NamedPipe CInt) : Prop where
  pc : c.pc = .waitFifo 0 ∨ c.pc = .read
  fifo : fifo = listening 1

/-- How far the request of a `fifo_client` has come. -/
inductive Stage (P : Clients) (r : Recorded) (p : Nat) : Prop
  | early (unhandled : ∀ h ∈ r.system.handled, h.req.pid ≠ p)
      (waits : Away (r.system.client p) (r.system.clientFifo p) ∨
        Listening (r.system.client p) (r.system.clientFifo p))
  | answering (pc : r.system.server.pc = .write (P.request p))
      (connected : Connected (r.system.client p) (r.system.clientFifo p))
  | answered (member : p ∈ r.written) (handled : ∃ h ∈ r.system.handled, h.req.pid = p)

variable {P : Clients} {s t : System} {p : Nat}

theorem away_setClient {fifo : NamedPipe CInt} {linked : Bool} {pc : ClientPc} {serverFd : Bool}
    (away : pc.away = true) (same : fifo = idle linked) :
    Away ⟨pc, serverFd, false⟩ fifo :=
  ⟨away, rfl, linked, same⟩

/-- A client goes on that does not have its FIFO open. -/
theorem Away.move {pc : ClientPc} (away : Away (s.client p) (s.clientFifo p))
    (still : pc.away = true) : Away ((s.move p pc).client p) ((s.move p pc).clientFifo p) := by
  rw [System.move, System.setClient_same]
  exact ⟨still, away.closed, away.idle⟩

theorem Away.die (away : Away (s.client p) (s.clientFifo p)) :
    Away ((s.die p).client p) ((s.die p).clientFifo p) := by
  obtain ⟨linked, same⟩ := away.idle
  have fifo : (s.die p).clientFifo p = s.clientFifo p := by
    rw [System.die, away.closed]
    exact System.setFifo_same _ _
  have client : (s.die p).client p = ⟨.gone, false, false⟩ := System.setClient_same ..
  rw [fifo, client]
  exact ⟨rfl, rfl, linked, same⟩

/-- A `fifo_client` that does not have its FIFO open comes at most to its open. -/
theorem Away.step (away : Away (s.client p) (s.clientFifo p)) (kind : P.kind p = .client)
    (taken : s.stepClient P p = some t) :
    Away (t.client p) (t.clientFifo p) ∨ Listening (t.client p) (t.clientFifo p) := by
  obtain ⟨linked, same⟩ := away.idle
  have passed := away.pc
  cases pc : (s.client p).pc with
  | makeFifo =>
      rw [System.stepClient, pc] at taken
      obtain rfl := Option.some.inj taken
      refine Or.inl (@Away.move (s.setFifo p (s.clientFifo p).make) p _ ?_ rfl)
      rw [System.setFifo_same]
      exact ⟨away.pc, away.closed, true, by rw [same]; rfl⟩
  | openServer =>
      rw [System.stepClient, pc] at taken
      dsimp only at taken
      split at taken
      · exact Or.inl (Option.some.inj taken ▸ away.move rfl)
      · obtain rfl := Option.some.inj taken
        rw [System.setClient_same]
        exact Or.inl (away_setClient rfl same)
      · obtain rfl := Option.some.inj taken
        rw [System.setClient_same]
        exact Or.inl (away_setClient rfl same)
  | waitServer seen =>
      rw [System.stepClient, pc] at taken
      dsimp only at taken
      split at taken
      · cases taken
      · exact Or.inl (Option.some.inj taken ▸ away.move rfl)
  | request =>
      rw [System.stepClient, pc] at taken
      dsimp only at taken
      split at taken
      · exact Or.inl (Option.some.inj taken ▸ away.die)
      · obtain rfl := Option.some.inj taken
        refine Or.inl (@Away.move (s.setServerFifo _) p _ away ?_)
        rw [kind]
        rfl
  | openFifo =>
      rw [System.stepClient, pc, same, kind] at taken
      cases linked with
      | false => exact Or.inl (Option.some.inj taken ▸ away.move rfl)
      | true =>
          obtain rfl := Option.some.inj taken
          rw [System.setClient_same]
          exact Or.inr ⟨rfl, rfl, System.setFifo_same ..⟩
  | exit =>
      rw [System.stepClient, pc] at taken
      obtain rfl := Option.some.inj taken
      refine Or.inl (@Away.move (s.setFifo p (s.clientFifo p).unlink) p _ ?_ rfl)
      rw [System.setFifo_same]
      exact ⟨away.pc, away.closed, false, by rw [same]; rfl⟩
  | close =>
      rw [System.stepClient, pc] at taken
      exact Or.inl (Option.some.inj taken ▸ away.die)
  | gone =>
      rw [System.stepClient, pc] at taken
      cases taken
  | _ =>
      rw [pc] at passed
      cases passed

/-- Until the server opens the FIFO, the client stays in its open. -/
theorem Listening.waits (listens : Listening (s.client p) (s.clientFifo p)) :
    s.stepClient P p = none := by
  rw [System.stepClient, listens.pc, listens.fifo]
  rfl

/-- Until the server writes, the client waits for the response. -/
theorem Connected.step (connected : Connected (s.client p) (s.clientFifo p))
    (kind : P.kind p = .client) (taken : s.stepClient P p = some t) :
    Connected (t.client p) (t.clientFifo p) := by
  rcases connected.pc with pc | pc
  · rw [System.stepClient, pc, connected.fifo] at taken
    obtain rfl := Option.some.inj taken
    rw [System.move, System.setClient_same]
    exact ⟨Or.inr rfl, connected.fifo⟩
  · rw [System.stepClient, pc, connected.fifo, kind] at taken
    cases taken

/-! ## Every step keeps the stages -/

/-- The invariant: no request of a `fifo_client` is discarded, and each is at a stage. -/
structure Served (P : Clients) (r : Recorded) : Prop where
  inv : r.system.Inv P
  ready : ∀ req seen, r.system.server.pc ≠ .waitFifo req seen
  opened : ∀ h ∈ r.system.handled, P.kind h.req.pid = .client → h.opened = true
  stage : ∀ p, P.kind p = .client → Stage P r p

theorem served_start (P : Clients) : Served P .start where
  inv := System.inv_start P
  ready := fun _ _ pc => nomatch pc
  opened := fun _ member => (List.not_mem_nil member).elim
  stage := fun _ _ => .early (fun _ member => (List.not_mem_nil member).elim)
    (Or.inl ⟨rfl, rfl, false, rfl⟩)

variable {r : Recorded} {later : List Nat}

/-- A request stays at its stage while its client, the FIFO and the server's write to it are
left alone. -/
theorem Stage.frame (stage : Stage P r p) (client : t.client p = r.system.client p)
    (fifo : t.clientFifo p = r.system.clientFifo p)
    (handled : ∀ h ∈ t.handled, h ∈ r.system.handled ∨ h.req.pid ≠ p)
    (kept : r.system.handled ⊆ t.handled)
    (pc : r.system.server.pc = .write (P.request p) → t.server.pc = .write (P.request p)) :
    Stage P ⟨t, r.written ++ later⟩ p := by
  cases stage with
  | early unhandled waits =>
      refine .early (fun h member => ?_) (by rw [client, fifo]; exact waits)
      rcases handled h member with old | other
      · exact unhandled h old
      · exact other
  | answering writing connected => exact .answering (pc writing) (by rwa [client, fifo])
  | answered member dealt =>
      obtain ⟨h, inside, same⟩ := dealt
      exact .answered (List.mem_append_left _ member) ⟨h, kept inside, same⟩

/-- A step of a client keeps the stages of the others. -/
theorem Served.aside {q : Nat} (served : Served P r) (aside : r.system.Aside q t)
    (inv : t.Inv P) (own : P.kind q = .client → Stage P ⟨t, r.written ++ later⟩ q) :
    Served P ⟨t, r.written ++ later⟩ where
  inv := inv
  ready := fun req seen pc => served.ready req seen (aside.server ▸ pc)
  opened := fun h member => served.opened h (aside.handled ▸ member)
  stage := by
    intro p kind
    by_cases here : p = q
    · subst here
      exact own kind
    · refine (served.stage p kind).frame (aside.client p here) (aside.fifo p here) ?_ ?_ ?_
      · exact fun h member => Or.inl (aside.handled ▸ member)
      · exact fun h member => aside.handled ▸ member
      · exact fun writing => by rw [aside.server, writing]

theorem Served.stepClient {q : Nat} (served : Served P r) (inv : t.Inv P)
    (taken : r.system.stepClient P q = some t) : Served P ⟨t, r.written ++ later⟩ := by
  have aside := System.Aside.stepClient taken
  refine served.aside aside inv fun kind => ?_
  cases served.stage q kind with
  | early unhandled waits =>
      refine .early (by rw [aside.handled]; exact unhandled) ?_
      rcases waits with away | listens
      · exact away.step kind taken
      · exact nomatch listens.waits.symm.trans taken
  | answering writing connected =>
      exact .answering (by rw [aside.server, writing]) (connected.step kind taken)
  | answered member dealt =>
      exact .answered (List.mem_append_left _ member) (by rw [aside.handled]; exact dealt)

/-- The server is not concerned with a client's FIFO. -/
def ServerPc.elsewhere : ServerPc → Bool
  | .openFifo _ => false
  | .waitFifo _ _ => false
  | .write _ => false
  | .close _ => false
  | _ => true

/-- Elsewhere the server does not touch the clients. -/
theorem System.stepServer_elsewhere {mode : Mode} (elsewhere : s.server.pc.elsewhere = true)
    (taken : s.stepServer mode = some t) :
    t.client = s.client ∧ t.clientFifo = s.clientFifo ∧ t.handled = s.handled ∧
      ∀ req seen, t.server.pc ≠ .waitFifo req seen := by
  have stopped : ∀ req seen, s.stop.server.pc ≠ .waitFifo req seen := by
    simp [System.stop, System.goto]
  cases pc : s.server.pc with
  | makeFifo =>
      rw [System.stepServer, pc] at taken
      cases taken
      exact ⟨rfl, rfl, rfl, by simp [System.goto]⟩
  | openServerFd =>
      rw [System.stepServer, pc] at taken
      dsimp only at taken
      split at taken
      · cases taken
        exact ⟨rfl, rfl, rfl, stopped⟩
      · cases taken
        exact ⟨rfl, rfl, rfl, by simp [System.goto]⟩
      · cases taken
        exact ⟨rfl, rfl, rfl, by simp [System.goto]⟩
  | waitServerFd seen =>
      rw [System.stepServer, pc] at taken
      dsimp only at taken
      split at taken
      · cases taken
      · cases taken
        exact ⟨rfl, rfl, rfl, by simp [System.goto]⟩
  | openDummyFd =>
      rw [System.stepServer, pc] at taken
      dsimp only at taken
      split at taken
      · cases taken
        exact ⟨rfl, rfl, rfl, stopped⟩
      · cases taken
        exact ⟨rfl, rfl, rfl, by simp [System.goto]⟩
      · cases taken
        exact ⟨rfl, rfl, rfl, by simp [System.goto]⟩
  | waitDummyFd seen =>
      rw [System.stepServer, pc] at taken
      dsimp only at taken
      split at taken
      · cases taken
      · cases taken
        exact ⟨rfl, rfl, rfl, by simp [System.goto]⟩
  | ignoreSigpipe =>
      rw [System.stepServer, pc] at taken
      cases taken
      exact ⟨rfl, rfl, rfl, by simp [System.goto]⟩
  | read =>
      rw [System.stepServer, pc] at taken
      dsimp only at taken
      split at taken
      · cases taken
        exact ⟨rfl, rfl, rfl, by simp [pc]⟩
      · cases taken
      · cases taken
        exact ⟨rfl, rfl, rfl, by simp [System.goto]⟩
  | stopped =>
      rw [System.stepServer, pc] at taken
      cases taken
  | _ =>
      rw [pc] at elsewhere
      cases elsewhere

theorem Served.elsewhere (served : Served P r) (inv : t.Inv P)
    (elsewhere : r.system.server.pc.elsewhere = true)
    (taken : r.system.stepServer .nonblock = some t) : Served P ⟨t, r.written ++ later⟩ := by
  obtain ⟨client, fifo, handled, ready⟩ := System.stepServer_elsewhere elsewhere taken
  refine ⟨inv, ready, fun h member => served.opened h (handled ▸ member), ?_⟩
  intro p kind
  refine (served.stage p kind).frame (by rw [client]) (by rw [fifo]) ?_ ?_ ?_
  · exact fun h member => Or.inl (handled ▸ member)
  · exact fun h member => handled ▸ member
  · intro writing
    rw [writing] at elsewhere
    cases elsewhere

/-- A step in which the server serves a request keeps the stages of the other clients. -/
theorem Served.serve {req : Request} (served : Served P r) (inv : t.Inv P)
    (busy : ∀ q, r.system.server.pc = .write q → q = req)
    (client : t.client = r.system.client)
    (fifo : ∀ p ≠ req.pid, t.clientFifo p = r.system.clientFifo p)
    (ready : ∀ q seen, t.server.pc ≠ .waitFifo q seen)
    (kept : r.system.handled ⊆ t.handled)
    (new : ∀ h ∈ t.handled, h ∈ r.system.handled ∨
      h.req = req ∧ (P.kind req.pid = .client → h.opened = true))
    (own : P.kind req.pid = .client → Stage P ⟨t, r.written ++ later⟩ req.pid) :
    Served P ⟨t, r.written ++ later⟩ where
  inv := inv
  ready := ready
  opened := by
    intro h member kind
    rcases new h member with old | ⟨rfl, opened⟩
    · exact served.opened h old kind
    · exact opened kind
  stage := by
    intro p kind
    by_cases here : p = req.pid
    · exact here ▸ own (here ▸ kind)
    · refine (served.stage p kind).frame (by rw [client]) (fifo p here) ?_ kept ?_
      · intro h member
        rcases new h member with old | ⟨rfl, -⟩
        · exact Or.inl old
        · exact Or.inr (Ne.symm here)
      · intro writing
        exact absurd (congrArg Request.pid (busy _ writing)) here

/-- The request in the server's hands has not been dealt with. -/
theorem System.Inv.fresh {req : Request} (inv : s.Inv P) (held : s.server.pc.held = [req]) :
    ∀ h ∈ s.handled, h.req.pid ≠ req.pid := by
  intro h member same
  have distinct := inv.distinct
  rw [System.requests, System.pending, held, List.map_append] at distinct
  refine List.disjoint_of_nodup_append distinct
    (List.mem_map_of_mem (List.mem_map_of_mem member)) ?_
  rw [same]
  exact List.mem_cons_self ..

/-- The request that the server answers has been dealt with. -/
theorem System.Inv.dealt {req : Request} (inv : s.Inv P)
    (pc : s.server.pc = .write req ∨ s.server.pc = .close req) :
    ⟨req, true⟩ ∈ s.handled := by
  have counted := inv.counted
  rcases pc with pc | pc
  · rw [System.Counted, pc] at counted
    obtain ⟨earlier, handled, -⟩ := counted
    exact handled ▸ List.mem_append_right _ (List.mem_singleton_self _)
  · rw [System.Counted, pc] at counted
    obtain ⟨earlier, handled, -⟩ := counted
    exact handled ▸ List.mem_append_right _ (List.mem_singleton_self _)

/-- The server opens the FIFO of a client that listens. -/
theorem openWrite_listening : (listening 0).openWrite true = .opens (listening 1) := rfl

theorem Served.openFifo {req : Request} (served : Served P r) (inv : t.Inv P)
    (pc : r.system.server.pc = .openFifo req) (first : r.system.clientFirst P = true)
    (taken : r.system.stepServer .nonblock = some t) : Served P ⟨t, r.written ++ later⟩ := by
  have held : r.system.server.pc.held = [req] := by rw [pc]; rfl
  have known := served.inv.known req (List.mem_append_right _ (by rw [System.pending, held]; simp))
  have fresh := served.inv.fresh held
  have busy : ∀ q, r.system.server.pc = .write q → q = req :=
    fun q writing => by cases pc.symm.trans writing
  have listens : P.kind req.pid = .client →
      Listening (r.system.client req.pid) (r.system.clientFifo req.pid) := by
    intro kind
    rw [System.clientFirst, pc] at first
    cases served.stage req.pid kind with
    | early _ waits =>
        rcases waits with away | listens
        · simp [kind, away.closed] at first
        · exact listens
    | answering writing _ => cases pc.symm.trans writing
    | answered _ dealt =>
        obtain ⟨h, member, same⟩ := dealt
        exact absurd same (fresh h member)
  rw [System.stepServer, pc] at taken
  dsimp only at taken
  cases opening : (r.system.clientFifo req.pid).openWrite Mode.nonblock.flag with
  | waits seen fifo =>
      unfold NamedPipe.openWrite at opening
      split at opening
      · cases opening
      · split at opening <;> cases opening
  | fails =>
      rw [opening] at taken
      obtain rfl := Option.some.inj taken
      have other : P.kind req.pid ≠ .client := by
        intro kind
        rw [(listens kind).fifo, Mode.flag, openWrite_listening] at opening
        cases opening
      refine served.serve inv busy rfl (fun _ _ => rfl) (fun _ _ pc => by cases pc)
        (List.subset_append_left ..) ?_ (fun kind => absurd kind other)
      intro h member
      rcases List.mem_append.mp member with old | new
      · exact Or.inl old
      · rw [List.mem_singleton.mp new]
        exact Or.inr ⟨rfl, fun kind => absurd kind other⟩
  | opens fifo =>
      rw [opening] at taken
      obtain rfl := Option.some.inj taken
      refine served.serve inv busy rfl (fun p other => System.setFifo_other _ _ other)
        (fun _ _ pc => by cases pc) (List.subset_append_left ..) ?_ ?_
      · intro h member
        rcases List.mem_append.mp member with old | new
        · exact Or.inl old
        · rw [List.mem_singleton.mp new]
          exact Or.inr ⟨rfl, fun _ => rfl⟩
      · intro kind
        rw [(listens kind).fifo, Mode.flag, openWrite_listening] at opening
        refine .answering (congrArg ServerPc.write known.2.1) ⟨Or.inl (listens kind).pc, ?_⟩
        exact (System.setFifo_same _ _).trans (NamedPipe.Opening.opens.inj opening).symm

theorem Served.write {req : Request} (served : Served P r) (inv : t.Inv P)
    (pc : r.system.server.pc = .write req) (taken : r.system.stepServer .nonblock = some t) :
    Served P ⟨t, r.written ++ r.system.responds .server⟩ := by
  have dealt := served.inv.dealt (Or.inl pc)
  have busy : ∀ q, r.system.server.pc = .write q → q = req :=
    fun q writing => (ServerPc.write.inj (pc.symm.trans writing)).symm
  have responds : r.system.responds .server =
      if ((r.system.clientFifo req.pid).put r.system.server.seqN).isSome then [req.pid]
      else [] := by
    rw [System.responds, pc]
  rw [responds]
  rw [System.stepServer, pc] at taken
  dsimp only at taken
  cases written : (r.system.clientFifo req.pid).put r.system.server.seqN with
  | none =>
      rw [written] at taken
      obtain rfl := Option.some.inj taken
      refine served.serve inv busy rfl (fun _ _ => rfl) (fun _ _ pc => by cases pc)
        (List.Subset.refl _) (fun _ member => Or.inl member) fun kind => ?_
      cases served.stage req.pid kind with
      | early unhandled _ => exact absurd rfl (unhandled _ dealt)
      | answering _ connected =>
          rw [connected.fifo] at written
          cases written
      | answered member dealt => exact .answered (List.mem_append_left _ member) dealt
  | some fifo =>
      rw [written] at taken
      obtain rfl := Option.some.inj taken
      refine served.serve inv busy rfl (fun p other => System.setFifo_other _ _ other)
        (fun _ _ pc => by cases pc) (List.Subset.refl _) (fun _ member => Or.inl member) ?_
      exact fun _ => .answered (List.mem_append_right _ (List.mem_singleton_self _))
        ⟨_, dealt, rfl⟩

theorem Served.close {req : Request} (served : Served P r) (inv : t.Inv P)
    (pc : r.system.server.pc = .close req) (taken : r.system.stepServer .nonblock = some t) :
    Served P ⟨t, r.written ++ later⟩ := by
  have dealt := served.inv.dealt (Or.inr pc)
  rw [System.stepServer, pc] at taken
  obtain rfl := Option.some.inj taken
  refine served.serve inv (fun q writing => by cases pc.symm.trans writing) rfl
    (fun p other => System.setFifo_other _ _ other) (fun _ _ pc => by cases pc)
    (List.Subset.refl _) (fun _ member => Or.inl member) fun kind => ?_
  cases served.stage req.pid kind with
  | early unhandled _ => exact absurd rfl (unhandled _ dealt)
  | answering writing _ => cases pc.symm.trans writing
  | answered member dealt => exact .answered (List.mem_append_left _ member) dealt

/-! ## Runs -/

/-- A `fifo_client` is at its open before the server is. -/
def ClientFirst (P : Clients) (r : Recorded) (a : Action) : Prop :=
  a = .server → r.system.clientFirst P = true

instance (P : Clients) (r : Recorded) (a : Action) : Decidable (ClientFirst P r a) :=
  inferInstanceAs (Decidable (_ → _))

theorem served_step {a : Action} {r' : Recorded} (allowed : Undisturbed P a ∧ ClientFirst P r a)
    (served : Served P r) (taken : r.step P .nonblock a = some r') : Served P r' := by
  obtain ⟨t, stepped, rfl⟩ := Option.map_eq_some_iff.mp taken
  have inv := System.inv_step served.inv stepped
  cases a with
  | server =>
      cases pc : r.system.server.pc with
      | openFifo req => exact served.openFifo inv pc (allowed.2 rfl) stepped
      | waitFifo req seen => exact absurd pc (served.ready req seen)
      | write req => exact served.write inv pc stepped
      | close req => exact served.close inv pc stepped
      | _ => exact served.elsewhere inv (by rw [pc]; rfl) stepped
  | serverFails => exact allowed.1.elim
  | client q =>
      rw [step] at stepped
      split at stepped
      · exact served.stepClient inv stepped
      · cases stepped
  | clientFails q =>
      rw [step] at stepped
      split at stepped
      · exact served.aside (System.Aside.failClient stepped) inv fun kind => absurd kind allowed.1
      · cases stepped
  | kill q =>
      rw [step] at stepped
      split at stepped
      · obtain rfl := Option.some.inj stepped
        exact served.aside (System.Aside.die _ q) inv fun kind => absurd kind allowed.1
      · cases stepped

theorem Served.neverDropped (served : Served P r) : r.NeverDropped P where
  answered := by
    intro p kind finished
    obtain ⟨⟨h, member, same⟩, notWriting, -⟩ := finished
    cases served.stage p kind with
    | early unhandled _ => exact absurd (congrArg Request.pid same) (unhandled h member)
    | answering writing _ => exact absurd writing notWriting
    | answered member _ => exact member
  awaited := fun p _ kind _ member => nomatch served.opened _ member kind

/-- **A `fifo_client` is not dropped** in a run in which it has its FIFO open whenever the
server is about to open it. -/
theorem neverDropped_of_run {actions : List Action} {r : Recorded}
    (undisturbed : ∀ a ∈ actions, Undisturbed P a)
    (first : Along (Recorded.step P .nonblock) (ClientFirst P) .start actions)
    (ran : run (Recorded.step P .nonblock) .start actions = some r) : r.NeverDropped P :=
  (run_invariant_along served_step (first.and undisturbed) (served_start P) ran).neverDropped

/-- One `fifo_client`. -/
def one : Clients where
  pids := {2}
  kind := fun _ => .client
  seqLen := fun _ => 1

/-- The server and the client open the server's FIFO, and the client sends its request. -/
def oneRequest : List Action :=
  [.server, .server, .client 2, .client 2, .server, .server, .server, .client 2]

/-- The client waits in its open, and the server opens the FIFO, writes and closes. -/
def oneServed : List Action :=
  oneRequest ++ [.client 2, .server, .server, .server, .server, .client 2, .client 2]

theorem neverDropped_one :
    ∃ r, run (Recorded.step one .nonblock) .start oneServed = some r ∧
      r.system.Finished (one.request 2) ∧ r.NeverDropped one := by
  have serves : (run (Recorded.step one .nonblock) .start oneServed).map
      (fun r => (r.system.handled, r.system.server.pc)) =
        some ([⟨one.request 2, true⟩], .read) := by decide +kernel
  obtain ⟨r, ran, finished⟩ := Option.map_eq_some_iff.mp serves
  obtain ⟨handled, pc⟩ := Prod.mk.inj finished
  refine ⟨r, ran, ⟨⟨_, handled ▸ List.mem_cons_self .., rfl⟩, ?_, ?_⟩, ?_⟩
  · exact fun writing => nomatch pc.symm.trans writing
  · exact fun closing => nomatch pc.symm.trans closing
  · exact neverDropped_of_run (by decide) (by decide +kernel) ran

/-- The server reads the request and opens the FIFO before the client does, which then waits
in its open. -/
def oneDropped : List Action := oneRequest ++ [.server, .server, .client 2]

theorem dropped_one :
    (∀ a ∈ oneDropped, Undisturbed one a) ∧
      ∃ r, run (Recorded.step one .nonblock) .start oneDropped = some r ∧
        r.system.Finished (one.request 2) ∧ 2 ∉ r.written ∧
        (r.system.client 2).pc = .waitFifo 0 ∧
        ⟨one.request 2, false⟩ ∈ r.system.handled ∧ ¬ r.NeverDropped one := by
  refine ⟨by decide, ?_⟩
  have drops : (run (Recorded.step one .nonblock) .start oneDropped).map
      (fun r => ((r.system.handled, r.system.server.pc), r.written, (r.system.client 2).pc)) =
        some (([⟨one.request 2, false⟩], .read), [], .waitFifo 0) := by decide +kernel
  obtain ⟨r, ran, dropped⟩ := Option.map_eq_some_iff.mp drops
  obtain ⟨⟨handled, pc⟩, written, waits⟩ := by simpa only [Prod.mk.injEq] using dropped
  have member : ⟨one.request 2, false⟩ ∈ r.system.handled := handled ▸ List.mem_cons_self ..
  refine ⟨r, ran, ⟨⟨_, member, rfl⟩, ?_, ?_⟩, ?_, waits, member, ?_⟩
  · exact fun writing => nomatch pc.symm.trans writing
  · exact fun closing => nomatch pc.symm.trans closing
  · rw [written]
    exact List.not_mem_nil
  · exact fun kept => kept.awaited 2 0 rfl waits member

end LinuxExercises.FifoServer
