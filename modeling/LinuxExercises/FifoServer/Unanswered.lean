import LinuxExercises.FifoServer.Liveness

/-!
# Servers that leave their clients waiting

Two arrangements keep a client waiting. `fifo_client_malicious` never opens its FIFO for reading.
When a server that was started with `block` is in its open of that FIFO, it stays there: nobody who
has not been answered by then prints anything (`starved_of_waitFifo`).

`fifo_server_nowrite` reads the requests and answers none of them. A `fifo_client` that has come to
the open of its FIFO stays there, while a `fifo_client_nonblock` that has sent its request comes to
its end by itself (`nobody_answered`).
-/

set_option autoImplicit false

namespace LinuxExercises.FifoServer

open Foundations

/-! ## What the calls do to the FIFO of a client -/

section ReadOpens

variable {pipe opened : NamedPipe CInt}

theorem readOpens_closeWrite : pipe.closeWrite.readOpens = pipe.readOpens := by
  rw [NamedPipe.closeWrite, NamedPipe.settle]
  split <;> rfl

theorem readOpens_closeRead : pipe.closeRead.readOpens = pipe.readOpens := by
  rw [NamedPipe.closeRead, NamedPipe.settle]
  split <;> rfl

theorem readOpens_openWrite {nonblock : Bool} (leaves : (pipe.openWrite nonblock).Leaves opened) :
    opened.readOpens = pipe.readOpens := by
  unfold NamedPipe.openWrite at leaves
  split at leaves
  · simp [NamedPipe.Opening.Leaves] at leaves
  · split at leaves
    · split at leaves <;> simp [NamedPipe.Opening.Leaves] at leaves
      rw [← leaves]
    · simp [NamedPipe.Opening.Leaves] at leaves
      rw [← leaves]

theorem readOpens_put {n : CInt} (written : pipe.put n = some opened) :
    opened.readOpens = pipe.readOpens := by
  unfold NamedPipe.put at written
  split at written
  · cases written
  · rw [← Option.some.inj written]

theorem seen_openWrite {nonblock : Bool} {seen : Nat}
    (waits : pipe.openWrite nonblock = .waits seen opened) : seen = pipe.readOpens := by
  unfold NamedPipe.openWrite at waits
  repeat' split at waits
  all_goals cases waits
  rfl

end ReadOpens

namespace System

variable {P : Clients} {s t : System} {p : Nat}

theorem readOpens_setFifo {q : Nat} {fifo : NamedPipe CInt}
    (same : fifo.readOpens = (s.clientFifo q).readOpens) :
    ((s.setFifo q fifo).clientFifo p).readOpens = (s.clientFifo p).readOpens := by
  by_cases here : p = q
  · subst here
    rw [setFifo_same, same]
  · rw [setFifo_other s fifo here]

/-- The server opens no FIFO of a client for reading. -/
theorem readOpens_stepServer {mode : Mode} (taken : s.stepServer mode = some t) (p : Nat) :
    (t.clientFifo p).readOpens = (s.clientFifo p).readOpens := by
  cases elsewhere : s.server.pc.elsewhere with
  | true => rw [(stepServer_elsewhere elsewhere taken).2.1]
  | false =>
      cases pc : s.server.pc with
      | openFifo req =>
          rw [stepServer, pc] at taken
          dsimp only at taken
          split at taken
          · cases taken
            rfl
          · rename_i opening
            cases taken
            exact readOpens_setFifo (readOpens_openWrite (.inr ⟨_, opening⟩))
          · rename_i opening
            cases taken
            exact readOpens_setFifo (readOpens_openWrite (.inl opening))
      | waitFifo req seen =>
          rw [stepServer, pc] at taken
          dsimp only at taken
          split at taken
          · cases taken
          · cases taken
            rfl
      | write req =>
          rw [stepServer, pc] at taken
          dsimp only at taken
          split at taken
          · cases taken
            rfl
          · rename_i written
            cases taken
            exact readOpens_setFifo (readOpens_put written)
      | close req =>
          rw [stepServer, pc] at taken
          cases taken
          exact readOpens_setFifo readOpens_closeWrite
      | _ =>
          rw [pc] at elsewhere
          cases elsewhere

theorem readOpens_failServer (taken : s.failServer = some t) (p : Nat) :
    (t.clientFifo p).readOpens = (s.clientFifo p).readOpens := by
  unfold failServer at taken
  split at taken
  · cases taken
    rfl
  · cases taken
    rfl
  · cases taken
    exact readOpens_setFifo readOpens_closeWrite
  · cases taken
    rfl
  · cases taken
    exact readOpens_setFifo readOpens_closeWrite
  · cases taken
  · cases taken
    rfl

theorem client_failServer (taken : s.failServer = some t) : t.client = s.client := by
  unfold failServer at taken
  split at taken
  all_goals cases taken
  all_goals rfl

/-- Where the server comes to wait for a reader of a FIFO, it has seen how often that has been
opened. -/
theorem seen_stepServer {mode : Mode} {req : Request} {seen : Nat}
    (taken : s.stepServer mode = some t) (waits : t.server.pc = .waitFifo req seen) :
    seen = (s.clientFifo req.pid).readOpens := by
  cases elsewhere : s.server.pc.elsewhere with
  | true => exact absurd waits ((stepServer_elsewhere elsewhere taken).2.2.2 req seen)
  | false =>
      cases pc : s.server.pc with
      | openFifo other =>
          rw [stepServer, pc] at taken
          dsimp only at taken
          split at taken
          · cases taken
            cases waits
          · rename_i opening
            cases taken
            cases waits
            exact seen_openWrite opening
          · cases taken
            cases waits
      | waitFifo other seen' =>
          rw [stepServer, pc] at taken
          dsimp only at taken
          split at taken
          · cases taken
          · cases taken
            cases waits
      | write other =>
          rw [stepServer, pc] at taken
          dsimp only at taken
          split at taken <;> cases taken <;> cases waits
      | close other =>
          rw [stepServer, pc] at taken
          cases taken
          cases waits
      | _ =>
          rw [pc] at elsewhere
          cases elsewhere

theorem pc_failServer {req : Request} {seen : Nat} (taken : s.failServer = some t) :
    t.server.pc ≠ .waitFifo req seen := by
  intro waits
  unfold failServer at taken
  split at taken
  · rename_i pc
    cases taken
    rw [pc] at waits
    cases waits
  · cases taken
    cases waits
  · cases taken
    cases waits
  · cases taken
    cases waits
  · cases taken
    cases waits
  · cases taken
  · cases taken
    cases waits

theorem readOpens_die (s : System) (p q : Nat) :
    ((s.die p).clientFifo q).readOpens = (s.clientFifo q).readOpens := by
  refine readOpens_setFifo (s := s.setServerFifo _) ?_
  split
  · exact readOpens_closeRead
  · rfl

end System

/-! ## A client that does not read -/

/-- Where a client can be that never opens its FIFO. -/
def ClientPc.shy : ClientPc → Bool
  | .openFifo => false
  | .waitFifo _ => false
  | .read => false
  | .print _ => false
  | _ => true

/-- Nobody has opened the FIFO of a `fifo_client_malicious`, and the server that waits for a reader
of it has seen so. -/
structure Shy (P : Clients) (s : System) : Prop where
  client : ∀ p, P.kind p = .malicious → (s.client p).pc.shy = true
  fifo : ∀ p, P.kind p = .malicious → (s.clientFifo p).readOpens = 0
  server : ∀ req seen, s.server.pc = .waitFifo req seen → P.kind req.pid = .malicious → seen = 0

namespace Shy

variable {P : Clients} {s t : System}

theorem start (P : Clients) : Shy P start where
  client := fun _ _ => rfl
  fifo := fun _ _ => rfl
  server := by
    intro req seen waits
    cases waits

/-- A step of a client. -/
theorem of_aside {q : Nat} (shy : Shy P s) (aside : s.Aside q t)
    (own : P.kind q = .malicious →
      (t.client q).pc.shy = true ∧ (t.clientFifo q).readOpens = 0) : Shy P t where
  client := by
    intro p malicious
    by_cases here : p = q
    · exact here ▸ (own (here ▸ malicious)).1
    · rw [aside.client p here]
      exact shy.client p malicious
  fifo := by
    intro p malicious
    by_cases here : p = q
    · exact here ▸ (own (here ▸ malicious)).2
    · rw [aside.fifo p here]
      exact shy.fifo p malicious
  server := by
    rw [aside.server]
    exact shy.server

/-- A client that goes on to a call that is not about its FIFO. -/
theorem setClient {q : Nat} {c : Client} (shy : Shy P s) (still : c.pc.shy = true) :
    Shy P (s.setClient q c) := by
  refine shy.of_aside (System.Aside.setClient c) fun malicious => ⟨?_, shy.fifo q malicious⟩
  rw [System.setClient_same]
  exact still

theorem move {q : Nat} {pc : ClientPc} (shy : Shy P s) (still : pc.shy = true) :
    Shy P (s.move q pc) := shy.setClient still

theorem die (shy : Shy P s) (q : Nat) : Shy P (s.die q) := by
  refine shy.of_aside (System.Aside.die s q) fun malicious => ⟨?_, ?_⟩
  · rw [System.die, System.setClient_same]
    rfl
  · rw [System.readOpens_die]
    exact shy.fifo q malicious

theorem setServerFifo (shy : Shy P s) (fifo : NamedPipe Request) : Shy P (s.setServerFifo fifo) :=
  ⟨shy.client, shy.fifo, shy.server⟩

theorem setFifo {q : Nat} {fifo : NamedPipe CInt} (shy : Shy P s)
    (same : fifo.readOpens = (s.clientFifo q).readOpens) : Shy P (s.setFifo q fifo) := by
  refine shy.of_aside (System.Aside.setFifo fifo) fun malicious => ⟨shy.client q malicious, ?_⟩
  rw [System.setFifo_same, same]
  exact shy.fifo q malicious

/-- A `fifo_client_malicious` calls no `open` of its FIFO, and what the others do is not about
it. -/
theorem stepClient {q : Nat} (shy : Shy P s) (taken : s.stepClient P q = some t) : Shy P t := by
  by_cases malicious : P.kind q = .malicious
  · have hides := shy.client q malicious
    unfold System.stepClient at taken
    split at taken
    · cases taken
      exact Shy.move (Shy.setFifo shy rfl) rfl
    · split at taken
      · cases taken
        exact shy.move rfl
      · cases taken
        exact (shy.setServerFifo _).setClient rfl
      · cases taken
        exact (shy.setServerFifo _).setClient rfl
    · split at taken
      · cases taken
      · cases taken
        exact shy.move rfl
    · split at taken
      · cases taken
        exact shy.die q
      · cases taken
        rw [if_pos malicious]
        exact (shy.setServerFifo _).move rfl
    · rename_i pc
      rw [pc] at hides
      cases hides
    · rename_i pc
      rw [pc] at hides
      cases hides
    · rename_i pc
      rw [pc] at hides
      cases hides
    · rename_i pc
      rw [pc] at hides
      cases hides
    · cases taken
      exact Shy.move (Shy.setFifo shy rfl) rfl
    · cases taken
      exact shy.die q
    · cases taken
  · exact shy.of_aside (System.Aside.stepClient taken) fun yes => absurd yes malicious

theorem stepServer {mode : Mode} (shy : Shy P s) (taken : s.stepServer mode = some t) :
    Shy P t where
  client := by
    rw [System.client_stepServer taken]
    exact shy.client
  fifo := fun p malicious => (System.readOpens_stepServer taken p).trans (shy.fifo p malicious)
  server := fun _ _ waits malicious =>
    (System.seen_stepServer taken waits).trans (shy.fifo _ malicious)

theorem failServer (shy : Shy P s) (taken : s.failServer = some t) : Shy P t where
  client := by
    rw [System.client_failServer taken]
    exact shy.client
  fifo := fun p malicious => (System.readOpens_failServer taken p).trans (shy.fifo p malicious)
  server := fun _ _ waits _ => absurd waits (System.pc_failServer taken)

theorem failClient {q : Nat} (shy : Shy P s) (taken : s.failClient q = some t) : Shy P t := by
  unfold System.failClient at taken
  split at taken
  · cases taken
    exact shy.die q
  · cases taken
  · cases taken
  · cases taken
    exact shy.move rfl
  · cases taken
  · cases taken
  · cases taken
    exact shy.move rfl

theorem step {mode : Mode} {a : Action} (shy : Shy P s)
    (taken : FifoServer.step P mode s a = some t) : Shy P t := by
  cases a with
  | server => exact shy.stepServer taken
  | serverFails => exact shy.failServer taken
  | client q =>
      rw [FifoServer.step] at taken
      split at taken
      · exact shy.stepClient taken
      · cases taken
  | clientFails q =>
      rw [FifoServer.step] at taken
      split at taken
      · exact shy.failClient taken
      · cases taken
  | kill q =>
      rw [FifoServer.step] at taken
      split at taken
      · cases taken
        exact shy.die q
      · cases taken

theorem of_run {mode : Mode} {actions : List Action}
    (ran : run (FifoServer.step P mode) FifoServer.start actions = some s) : Shy P s :=
  run_invariant Shy.step (Shy.start P) ran

end Shy

/-- The server waits for a reader that does not come, and no answer is under way that was not under
way in `s`. -/
structure Hung (P : Clients) (s t : System) : Prop where
  shy : Shy P t
  server : t.server = s.server
  handled : t.handled = s.handled
  underWay : ∀ p n, t.UnderWay p n → s.UnderWay p n

namespace Hung

variable {P : Clients} {s t u : System} {req : Request} {seen : Nat}

/-- No call of a client brings up an answer. -/
theorem underWay_stepClient {q : Nat} (taken : s.stepClient P q = some t) (p : Nat) (n : CInt)
    (underWay : t.UnderWay p n) : s.UnderWay p n := by
  by_cases pc : (s.client q).pc = .request
  · rw [System.stepClient, pc] at taken
    dsimp only at taken
    split at taken
    · cases taken
      exact (System.Quiet.die s q).underWay p n underWay
    · cases taken
      have moved : System.Quiet s (s.move q (if P.kind q = .malicious then .exit else .openFifo)) :=
        System.Quiet.proceed (by split <;> rfl) (by split <;> simp)
      exact moved.underWay p n underWay
  · cases sent : (s.client q).pc.sent with
    | false => exact (System.Quiet.begin sent pc taken).underWay p n underWay
    | true => exact (System.Quiet.finish sent taken).underWay p n underWay

/-- Without an error the server does not come out of its open. -/
theorem step {a : Action} (waits : s.server.pc = .waitFifo req seen)
    (malicious : P.kind req.pid = .malicious) (calls : a ≠ .serverFails) (hung : Hung P s t)
    (taken : FifoServer.step P .block t a = some u) : Hung P s u := by
  have shy := hung.shy.step taken
  have still : t.server.pc = .waitFifo req seen := by rw [hung.server, waits]
  cases a with
  | server =>
      have unread := hung.shy.fifo req.pid malicious
      have before := hung.shy.server req seen still malicious
      rw [FifoServer.step, System.stepServer, still] at taken
      dsimp only at taken
      rw [if_pos (unread.trans before.symm)] at taken
      cases taken
  | serverFails => exact absurd rfl calls
  | client q =>
      rw [FifoServer.step] at taken
      split at taken
      · have aside := System.Aside.stepClient taken
        exact ⟨shy, aside.server.trans hung.server, aside.handled.trans hung.handled,
          fun p n later => hung.underWay p n (underWay_stepClient taken p n later)⟩
      · cases taken
  | clientFails q =>
      rw [FifoServer.step] at taken
      split at taken
      · have aside := System.Aside.failClient taken
        exact ⟨shy, aside.server.trans hung.server, aside.handled.trans hung.handled,
          fun p n later => hung.underWay p n ((System.Quiet.failClient taken).underWay p n later)⟩
      · cases taken
  | kill q =>
      rw [FifoServer.step] at taken
      split at taken
      · cases taken
        have aside := System.Aside.die t q
        exact ⟨shy, aside.server.trans hung.server, aside.handled.trans hung.handled,
          fun p n later => hung.underWay p n ((System.Quiet.die t q).underWay p n later)⟩
      · cases taken

end Hung

/-- **One client that does not read keeps all others waiting.** Once a server that was started with
`block` is in its open of the FIFO of a `fifo_client_malicious`, it deals with no further request,
and whoever prints a number later was already answered then. Nothing the clients do changes
that, their ends included. -/
theorem starved_of_waitFifo {P : Clients} {before after : List Action} {s t : System}
    {req : Request} {seen : Nat} (ran : run (step P .block) start before = some s)
    (waits : s.server.pc = .waitFifo req seen) (malicious : P.kind req.pid = .malicious)
    (calls : ∀ a ∈ after, a ≠ .serverFails) (later : run (step P .block) s after = some t) :
    t.server = s.server ∧ t.handled = s.handled ∧
      ∀ p n, (p, n) ∈ t.printed → s.UnderWay p n := by
  have hung := run_invariant_of (Hung.step waits malicious) calls
    ⟨Shy.of_run ran, rfl, rfl, fun _ _ => id⟩ later
  exact ⟨hung.server, hung.handled, fun p n printed => hung.underWay p n (.inr (.inr printed))⟩

/-- A `fifo_client_malicious` and a `fifo_client`. -/
def oneShy : Clients where
  pids := {2, 3}
  kind := fun p => if p = 2 then .malicious else .client
  seqLen := fun _ => 1

/-- The server reads the request of the first and comes to the open of its FIFO. -/
def oneCaught : List Action :=
  [.server, .server, .client 2, .client 2, .server, .server, .server, .client 2, .server, .server]

/-- The first leaves, and the second sends its request and waits. -/
def oneLeft : List Action :=
  [.client 2, .client 2, .client 3, .client 3, .client 3, .client 3]

theorem starved_of_waitFifo_one :
    ∃ s t, run (step oneShy .block) start oneCaught = some s ∧
      run (step oneShy .block) s oneLeft = some t ∧ t.printed = [] ∧
      (t.client 3).pc = .waitFifo 0 ∧ t.server = s.server ∧
      ∀ p n, (p, n) ∈ t.printed → s.UnderWay p n := by
  have catches : (run (step oneShy .block) start oneCaught).map (fun s => s.server.pc) =
      some (.waitFifo (oneShy.request 2) 0) := by decide +kernel
  obtain ⟨s, ran, waits⟩ := Option.map_eq_some_iff.mp catches
  have leaves : ((run (step oneShy .block) start oneCaught).bind fun s =>
      (run (step oneShy .block) s oneLeft).map fun t => (t.printed, (t.client 3).pc)) =
        some ([], .waitFifo 0) := by decide +kernel
  rw [ran, Option.bind_some] at leaves
  obtain ⟨t, later, left⟩ := Option.map_eq_some_iff.mp leaves
  obtain ⟨nothing, pc⟩ := Prod.mk.inj left
  have starved := starved_of_waitFifo ran waits rfl (by decide) later
  exact ⟨s, t, ran, later, nothing, pc, starved.1, starved.2.2⟩

/-! ## The server that does not write -/

namespace System

/-- The next call of `fifo_server_nowrite`, which comes to its loop as the other server does. -/
def stepNowrite (s : System) : Option System :=
  match s.server.pc with
  | .read =>
      match s.serverFifo.take with
      | .eof => some s
      | .empty => none
      | .got _ fifo => some (s.setServerFifo fifo)
  | pc => if pc.starting then s.stepServer .block else none

/-- The next call of `fifo_server_nowrite` fails. -/
def failNowrite (s : System) : Option System :=
  match s.server.pc with
  | .read => some s
  | pc => if pc.starting then some s.stop else none

variable {s t : System}

/-- Before the loop the server stays before it or comes to it, and prints nothing. -/
theorem startUp_elsewhere {mode : Mode} (starting : s.server.pc.starting = true)
    (taken : s.stepServer mode = some t) :
    t.server.pc.elsewhere = true ∧ t.printed = s.printed := by
  cases pc : s.server.pc with
  | makeFifo =>
      rw [stepServer, pc] at taken
      cases taken
      exact ⟨rfl, rfl⟩
  | ignoreSigpipe =>
      rw [stepServer, pc] at taken
      cases taken
      exact ⟨rfl, rfl⟩
  | openServerFd =>
      rw [stepServer, pc] at taken
      dsimp only at taken
      split at taken <;> cases taken <;> exact ⟨rfl, rfl⟩
  | waitServerFd seen =>
      rw [stepServer, pc] at taken
      dsimp only at taken
      split at taken <;> cases taken
      exact ⟨rfl, rfl⟩
  | openDummyFd =>
      rw [stepServer, pc] at taken
      dsimp only at taken
      split at taken <;> cases taken <;> exact ⟨rfl, rfl⟩
  | waitDummyFd seen =>
      rw [stepServer, pc] at taken
      dsimp only at taken
      split at taken <;> cases taken
      exact ⟨rfl, rfl⟩
  | _ =>
      rw [pc] at starting
      cases starting

end System

/-- The step of an action beside `fifo_server_nowrite`. -/
def stepNowrite (P : Clients) (s : System) : Action → Option System
  | .server => s.stepNowrite
  | .serverFails => s.failNowrite
  | .client p => if p ∈ P.pids then s.stepClient P p else none
  | .clientFails p => if p ∈ P.pids then s.failClient p else none
  | .kill p => if p ∈ P.pids then some (s.die p) else none

/-- Nobody has written into the FIFO of the client or opened it for writing, and the client has not
got past its read. -/
structure Dry (kind : Kind) (c : Client) (fifo : NamedPipe CInt) : Prop where
  data : fifo.data = []
  writers : fifo.writers = 0
  writeOpens : fifo.writeOpens = 0
  prints : ∀ n, c.pc ≠ .print n
  waits : ∀ seen, c.pc = .waitFifo seen → seen = 0 ∧ kind ≠ .nonblock

/-- The server is at none of the calls that answer, and no client has an answer. -/
structure Mute (P : Clients) (s : System) : Prop where
  server : s.server.pc.elsewhere = true
  dry : ∀ p, Dry (P.kind p) (s.client p) (s.clientFifo p)
  printed : s.printed = []

section Nowrite

variable {P : Clients} {s t : System} {q : Nat}

/-- Where a client can go that is neither in its open nor has an answer. -/
def ClientPc.quiet : ClientPc → Bool
  | .waitFifo _ => false
  | .print _ => false
  | _ => true

theorem Dry.go {kind : Kind} {c c' : Client} {fifo fifo' : NamedPipe CInt} (dry : Dry kind c fifo)
    (data : fifo'.data = fifo.data) (writers : fifo'.writers = fifo.writers)
    (writeOpens : fifo'.writeOpens = fifo.writeOpens) (goes : c'.pc.quiet = true) :
    Dry kind c' fifo' where
  data := data.trans dry.data
  writers := writers.trans dry.writers
  writeOpens := writeOpens.trans dry.writeOpens
  prints := by
    intro n pc
    rw [pc] at goes
    cases goes
  waits := by
    intro seen pc
    rw [pc] at goes
    cases goes

theorem Dry.closeRead {fifo : NamedPipe CInt} (data : fifo.data = []) :
    fifo.closeRead.data = fifo.data ∧ fifo.closeRead.writers = fifo.writers ∧
      fifo.closeRead.writeOpens = fifo.writeOpens := by
  rw [NamedPipe.closeRead, NamedPipe.settle]
  split
  · exact ⟨data.symm, rfl, rfl⟩
  · exact ⟨rfl, rfl, rfl⟩

namespace Mute

theorem start (P : Clients) : Mute P start where
  server := rfl
  dry := by
    intro p
    refine ⟨rfl, rfl, rfl, fun n pc => ?_, fun seen pc => ?_⟩
    · cases pc
    · cases pc
  printed := rfl

/-- A step of a client that prints nothing. -/
theorem of_aside (mute : Mute P s) (aside : s.Aside q t) (printed : t.printed = s.printed)
    (own : Dry (P.kind q) (t.client q) (t.clientFifo q)) : Mute P t where
  server := by
    rw [aside.server]
    exact mute.server
  dry := by
    intro p
    by_cases here : p = q
    · exact here ▸ own
    · rw [aside.client p here, aside.fifo p here]
      exact mute.dry p
  printed := printed.trans mute.printed

/-- A client goes on and leaves its FIFO alone. -/
theorem setClient {c : Client} (mute : Mute P s) (goes : c.pc.quiet = true) :
    Mute P (s.setClient q c) := by
  refine mute.of_aside (System.Aside.setClient c) rfl ?_
  rw [System.setClient_same]
  exact (mute.dry q).go rfl rfl rfl goes

theorem move {pc : ClientPc} (mute : Mute P s) (goes : pc.quiet = true) : Mute P (s.move q pc) :=
  mute.setClient goes

theorem setServerFifo (mute : Mute P s) (fifo : NamedPipe Request) :
    Mute P (s.setServerFifo fifo) :=
  ⟨mute.server, mute.dry, mute.printed⟩

theorem setFifo {fifo : NamedPipe CInt} (mute : Mute P s)
    (data : fifo.data = (s.clientFifo q).data) (writers : fifo.writers = (s.clientFifo q).writers)
    (writeOpens : fifo.writeOpens = (s.clientFifo q).writeOpens) : Mute P (s.setFifo q fifo) := by
  refine mute.of_aside (System.Aside.setFifo fifo) rfl ?_
  have dry := mute.dry q
  rw [System.setFifo_same]
  exact ⟨data.trans dry.data, writers.trans dry.writers, writeOpens.trans dry.writeOpens,
    dry.prints, dry.waits⟩

theorem die (mute : Mute P s) (q : Nat) : Mute P (s.die q) := by
  have own : Mute P (s.setFifo q
      (if (s.client q).clientFd then (s.clientFifo q).closeRead else s.clientFifo q)) := by
    obtain ⟨data, writers, writeOpens⟩ := Dry.closeRead (mute.dry q).data
    refine mute.setFifo ?_ ?_ ?_
    · split
      · exact data
      · rfl
    · split
      · exact writers
      · rfl
    · split
      · exact writeOpens
      · rfl
  exact (own.setServerFifo _).setClient rfl

/-- The read of a client that nobody answers comes to the end of the FIFO. -/
theorem take_eof (mute : Mute P s) : (s.clientFifo q).take = .eof := by
  have dry := mute.dry q
  rw [NamedPipe.take, dry.data, dry.writers]
  rfl

theorem stepClient (mute : Mute P s) (taken : s.stepClient P q = some t) : Mute P t := by
  have dry := mute.dry q
  cases pc : (s.client q).pc with
  | makeFifo =>
      rw [System.stepClient, pc] at taken
      cases taken
      exact Mute.move (Mute.setFifo mute rfl rfl rfl) rfl
  | openServer =>
      rw [System.stepClient, pc] at taken
      dsimp only at taken
      split at taken
      · cases taken
        exact mute.move rfl
      · cases taken
        exact (mute.setServerFifo _).setClient rfl
      · cases taken
        exact (mute.setServerFifo _).setClient rfl
  | waitServer seen =>
      rw [System.stepClient, pc] at taken
      dsimp only at taken
      split at taken
      · cases taken
      · cases taken
        exact mute.move rfl
  | request =>
      rw [System.stepClient, pc] at taken
      dsimp only at taken
      split at taken
      · cases taken
        exact mute.die q
      · cases taken
        exact (mute.setServerFifo _).move (by split <;> rfl)
  | openFifo =>
      rw [System.stepClient, pc] at taken
      dsimp only at taken
      unfold NamedPipe.openRead at taken
      dsimp only at taken
      split at taken
      · rename_i opening
        split at opening
        · cases taken
          exact mute.move rfl
        · split at opening <;> cases opening
      · rename_i seen fifo opening
        split at opening
        · cases opening
        · split at opening
          · rename_i blocks
            cases opening
            cases taken
            have set : Mute P (s.setFifo q { s.clientFifo q with
                readers := (s.clientFifo q).readers + 1
                readOpens := (s.clientFifo q).readOpens + 1 }) :=
              mute.setFifo rfl rfl rfl
            refine set.of_aside (System.Aside.setClient _) rfl ?_
            rw [System.setClient_same]
            refine ⟨(set.dry q).data, (set.dry q).writers, (set.dry q).writeOpens, ?_, ?_⟩
            · intro n pc
              cases pc
            · intro seen pc
              cases pc
              refine ⟨dry.writeOpens, fun nonblock => ?_⟩
              simp [nonblock] at blocks
          · cases opening
      · rename_i fifo opening
        split at opening
        · cases opening
        · split at opening
          · cases opening
          · cases opening
            cases taken
            exact Mute.setClient (Mute.setFifo mute rfl rfl rfl) rfl
  | waitFifo seen =>
      rw [System.stepClient, pc] at taken
      dsimp only at taken
      rw [if_pos (dry.writeOpens.trans (dry.waits seen pc).1.symm)] at taken
      cases taken
  | read =>
      rw [System.stepClient, pc, mute.take_eof] at taken
      cases taken
      exact mute.move rfl
  | print n => exact absurd pc (dry.prints n)
  | exit =>
      rw [System.stepClient, pc] at taken
      cases taken
      exact Mute.move (Mute.setFifo mute rfl rfl rfl) rfl
  | close =>
      rw [System.stepClient, pc] at taken
      cases taken
      exact mute.die q
  | gone =>
      rw [System.stepClient, pc] at taken
      cases taken

theorem failClient (mute : Mute P s) (taken : s.failClient q = some t) : Mute P t := by
  unfold System.failClient at taken
  split at taken
  · cases taken
    exact mute.die q
  · cases taken
  · cases taken
  · cases taken
    exact mute.move rfl
  · cases taken
  · cases taken
  · cases taken
    exact mute.move rfl

/-- A step of the server, which touches its own FIFO only. -/
theorem of_server (mute : Mute P s) (elsewhere : t.server.pc.elsewhere = true)
    (client : t.client = s.client) (fifo : t.clientFifo = s.clientFifo)
    (printed : t.printed = s.printed) : Mute P t where
  server := elsewhere
  dry := by
    rw [client, fifo]
    exact mute.dry
  printed := printed.trans mute.printed

theorem stepNowrite (mute : Mute P s) (taken : s.stepNowrite = some t) :
    Mute P t ∧ t.client = s.client ∧ t.clientFifo = s.clientFifo := by
  unfold System.stepNowrite at taken
  split at taken
  · rename_i pc
    split at taken
    · cases taken
      exact ⟨mute, rfl, rfl⟩
    · cases taken
    · cases taken
      exact ⟨mute.setServerFifo _, rfl, rfl⟩
  · split at taken
    · rename_i starting
      have unread := System.startUp_elsewhere starting taken
      obtain ⟨client, fifo, -, -⟩ := System.stepServer_elsewhere mute.server taken
      exact ⟨mute.of_server unread.1 client fifo unread.2, client, fifo⟩
    · cases taken

theorem failNowrite (mute : Mute P s) (taken : s.failNowrite = some t) :
    Mute P t ∧ t.client = s.client ∧ t.clientFifo = s.clientFifo := by
  unfold System.failNowrite at taken
  split at taken
  · cases taken
    exact ⟨mute, rfl, rfl⟩
  · split at taken
    · cases taken
      exact ⟨mute.of_server rfl rfl rfl rfl, rfl, rfl⟩
    · cases taken

/-- **The step lemma.** Nobody is answered. -/
theorem step {a : Action} (mute : Mute P s) (taken : FifoServer.stepNowrite P s a = some t) :
    Mute P t := by
  cases a with
  | server => exact (mute.stepNowrite taken).1
  | serverFails => exact (mute.failNowrite taken).1
  | client q =>
      rw [FifoServer.stepNowrite] at taken
      split at taken
      · exact mute.stepClient taken
      · cases taken
  | clientFails q =>
      rw [FifoServer.stepNowrite] at taken
      split at taken
      · exact mute.failClient taken
      · cases taken
  | kill q =>
      rw [FifoServer.stepNowrite] at taken
      split at taken
      · cases taken
        exact mute.die q
      · cases taken

theorem of_run {actions : List Action}
    (ran : run (FifoServer.stepNowrite P) FifoServer.start actions = some s) : Mute P s :=
  run_invariant Mute.step (Mute.start P) ran

/-- Who is in the open of its FIFO stays there. -/
theorem waits_step {seen : Nat} {a : Action} (alive : a ≠ .kill q)
    (waits : Mute P s ∧ (s.client q).pc = .waitFifo seen)
    (taken : FifoServer.stepNowrite P s a = some t) :
    Mute P t ∧ (t.client q).pc = .waitFifo seen := by
  obtain ⟨mute, pc⟩ := waits
  refine ⟨mute.step taken, ?_⟩
  have dry := mute.dry q
  have elsewhere : ∀ {r : Nat}, q ≠ r → s.Aside r t → (t.client q).pc = .waitFifo seen :=
    fun other aside => by rw [aside.client q other, pc]
  cases a with
  | server => rw [(mute.stepNowrite taken).2.1, pc]
  | serverFails => rw [(mute.failNowrite taken).2.1, pc]
  | client r =>
      rw [FifoServer.stepNowrite] at taken
      split at taken
      · by_cases here : q = r
        · subst here
          rw [System.stepClient, pc] at taken
          dsimp only at taken
          rw [if_pos (dry.writeOpens.trans (dry.waits seen pc).1.symm)] at taken
          cases taken
        · exact elsewhere here (System.Aside.stepClient taken)
      · cases taken
  | clientFails r =>
      rw [FifoServer.stepNowrite] at taken
      split at taken
      · by_cases here : q = r
        · subst here
          rw [System.failClient, pc] at taken
          cases taken
        · exact elsewhere here (System.Aside.failClient taken)
      · cases taken
  | kill r =>
      rw [FifoServer.stepNowrite] at taken
      split at taken
      · cases taken
        refine elsewhere (fun here => alive (here ▸ rfl)) (System.Aside.die s r)
      · cases taken

/-! ### Clients that do not wait -/

/-- Client `q` comes to its end by at most `n` calls of its own. -/
def Leaves (P : Clients) (q : Nat) (s : System) (n : Nat) : Prop :=
  ∃ k ≤ n, ∃ t, run (FifoServer.stepNowrite P) s (List.replicate k (.client q)) = some t ∧
    (t.client q).pc = .gone

variable {n : Nat}

theorem Leaves.step (among : q ∈ P.pids) (taken : s.stepClient P q = some t)
    (leaves : Leaves P q t n) : Leaves P q s (n + 1) := by
  obtain ⟨k, few, u, ran, gone⟩ := leaves
  refine ⟨k + 1, Nat.succ_le_succ few, u, run_step (t := t) ?_ ran, gone⟩
  rw [FifoServer.stepNowrite, if_pos among, taken]

theorem Leaves.mono {m : Nat} (few : n ≤ m) (leaves : Leaves P q s n) : Leaves P q s m := by
  obtain ⟨k, fewer, rest⟩ := leaves
  exact ⟨k, fewer.trans few, rest⟩

theorem leaves_gone (pc : (s.client q).pc = .gone) : Leaves P q s 0 :=
  ⟨0, le_rfl, s, rfl, pc⟩

theorem leaves_close (among : q ∈ P.pids) (pc : (s.client q).pc = .close) : Leaves P q s 1 := by
  refine Leaves.step (t := s.die q) among (by rw [System.stepClient, pc]) (leaves_gone ?_)
  rw [System.die, System.setClient_same]

theorem leaves_exit (among : q ∈ P.pids) (pc : (s.client q).pc = .exit) : Leaves P q s 2 := by
  refine Leaves.step (t := (s.setFifo q (s.clientFifo q).unlink).move q .close) among
    (by rw [System.stepClient, pc]) (leaves_close among ?_)
  rw [System.move, System.setClient_same]

theorem leaves_move (among : q ∈ P.pids) : Leaves P q (s.move q .exit) 2 := by
  refine leaves_exit among ?_
  rw [System.move, System.setClient_same]

/-- The read of a client comes to the end of the FIFO, and it leaves. -/
theorem leaves_read (mute : Mute P s) (among : q ∈ P.pids) (pc : (s.client q).pc = .read) :
    Leaves P q s 3 :=
  Leaves.step among (by rw [System.stepClient, pc, mute.take_eof]) (leaves_move among)

theorem leaves_openFifo (mute : Mute P s) (among : q ∈ P.pids) (nonblock : P.kind q = .nonblock)
    (pc : (s.client q).pc = .openFifo) : Leaves P q s 4 := by
  cases taken : s.stepClient P q with
  | none =>
      rw [System.stepClient, pc] at taken
      dsimp only at taken
      split at taken <;> cases taken
  | some t =>
      refine Leaves.step among taken ?_
      have mute' := mute.stepClient taken
      rw [System.stepClient, pc] at taken
      dsimp only at taken
      split at taken
      · cases taken
        exact (leaves_move among).mono (by decide)
      · cases taken
        have waits := (mute'.dry q).waits
        rw [System.setClient_same] at waits
        exact absurd nonblock (waits _ rfl).2
      · cases taken
        refine leaves_read mute' among ?_
        rw [System.setClient_same]

/-- A `fifo_client_nonblock` that has sent its request does not depend on anybody. -/
theorem leaves_sent (mute : Mute P s) (among : q ∈ P.pids) (nonblock : P.kind q = .nonblock)
    (sent : (s.client q).pc.sent = true) : Leaves P q s 4 := by
  have dry := mute.dry q
  cases pc : (s.client q).pc with
  | openFifo => exact leaves_openFifo mute among nonblock pc
  | waitFifo seen => exact absurd nonblock (dry.waits seen pc).2
  | read => exact (leaves_read mute among pc).mono (by decide)
  | print n => exact absurd pc (dry.prints n)
  | exit => exact (leaves_exit among pc).mono (by decide)
  | close => exact (leaves_close among pc).mono (by decide)
  | gone => exact (leaves_gone pc).mono (by decide)
  | _ =>
      rw [pc] at sent
      cases sent

end Mute

/-- **`fifo_server_nowrite` answers nobody.** In every run beside it no client prints a number; a
`fifo_client` that has come to the open of its FIFO does not come out of it as long as it lives;
and a `fifo_client_nonblock` that has sent its request is at its end after at most four calls
of its own. -/
theorem nobody_answered {actions : List Action} (ran : run (stepNowrite P) start actions = some s) :
    s.printed = [] ∧
      (∀ p seen, (s.client p).pc = .waitFifo seen → ∀ later t, (∀ a ∈ later, a ≠ .kill p) →
        run (stepNowrite P) s later = some t → (t.client p).pc = .waitFifo seen) ∧
      ∀ p ∈ P.pids, P.kind p = .nonblock → (s.client p).pc.sent = true → Mute.Leaves P p s 4 := by
  have mute := Mute.of_run ran
  refine ⟨mute.printed, fun p seen pc later t alive ran => ?_, fun p among nonblock sent => ?_⟩
  · exact (run_invariant_of Mute.waits_step alive ⟨mute, pc⟩ ran).2
  · exact mute.leaves_sent among nonblock sent

/-- The client sends its request and comes to the open of its FIFO, and the server reads the
request. -/
theorem nobody_answered_one :
    ∃ s, run (stepNowrite one) start (oneRequest ++ [.server, .client 2]) = some s ∧
      s.printed = [] ∧ (s.client 2).pc = .waitFifo 0 := by
  have reads : (run (stepNowrite one) start (oneRequest ++ [.server, .client 2])).map
      (fun s => (s.client 2).pc) = some (.waitFifo 0) := by decide +kernel
  obtain ⟨s, ran, pc⟩ := Option.map_eq_some_iff.mp reads
  exact ⟨s, ran, (nobody_answered ran).1, pc⟩

end Nowrite

end LinuxExercises.FifoServer
