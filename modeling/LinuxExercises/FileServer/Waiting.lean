import LinuxExercises.FileServer.Delivery
import Mathlib.Algebra.BigOperators.Group.Finset.Basic

/-!
# Who waits forever

Every client that waits has a request or a reply under way, and nothing else is under way
(`Balanced`). A client that is done unlinks the name of the reply queue, and what is still in the
queue then is out of the reach of those who open the name later. So when the processes have come to
rest, as many clients wait forever as requests and replies are left behind (`left_of_run`).

Nobody is left waiting when a client unlinks the name only while nobody waits: every run ends, and
at its end every client has received a reply and is gone (`served_of_run`).
-/

set_option autoImplicit false

namespace LinuxExercises.FileServer

open Foundations

variable {P : Clients} {capacity : Nat} {s t : System}

/-! ## Steps -/

/-- Everything that a step can do. -/
inductive Stepped (P : Clients) (capacity : Nat) (s : System) : Action → System → Prop
  | started (pc : s.server = .start) :
      Stepped P capacity s .server { s with
        server := .receive
        serverMqd := s.serverName.descriptor
        serverName := s.serverName.create }
  | accepted {path : Path} {name : QueueName Path} (pc : s.server = .receive)
      (received : s.serverName.receive s.serverMqd = some (path, name)) :
      Stepped P capacity s .server { s with server := .openFile path, serverName := name }
  | fileRead {path : Path} (pc : s.server = .openFile path) (writable : P.writable path = true) :
      Stepped P capacity s .server { s with server := .openQueue (P.read path) }
  | refused {path : Path} (pc : s.server = .openFile path) (writable : P.writable path = false) :
      Stepped P capacity s .server s.stop
  | queueOpened {fileRead : List Byte} (pc : s.server = .openQueue fileRead) :
      Stepped P capacity s .server { s with
        server := .send s.clientName.descriptor fileRead
        clientName := s.clientName.create }
  | replied {clientMqd : Nat} {fileRead : List Byte} {name : QueueName (List Byte)}
      (pc : s.server = .send clientMqd fileRead)
      (sent : s.clientName.send capacity clientMqd fileRead = some name) :
      Stepped P capacity s .server { s with server := .receive, clientName := name }
  | came {c : Nat} (among : c ∈ P.ids) (pc : s.client c = .start) :
      Stepped P capacity s (.client c)
        { s.move c (.send s.serverName.descriptor) with serverName := s.serverName.create }
  | requested {c serverMqd : Nat} {name : QueueName Path} (among : c ∈ P.ids)
      (pc : s.client c = .send serverMqd)
      (sent : s.serverName.send capacity serverMqd (P.path c) = some name) :
      Stepped P capacity s (.client c) { s.move c .openQueue with serverName := name }
  | opened {c : Nat} (among : c ∈ P.ids) (pc : s.client c = .openQueue) :
      Stepped P capacity s (.client c)
        { s.move c (.receive s.clientName.descriptor) with clientName := s.clientName.create }
  | received {c clientMqd : Nat} {buf : List Byte} {name : QueueName (List Byte)}
      (among : c ∈ P.ids) (pc : s.client c = .receive clientMqd)
      (taken : s.clientName.receive clientMqd = some (buf, name)) :
      Stepped P capacity s (.client c)
        { s.move c .unlink with clientName := name, received := s.received ++ [(c, buf)] }
  | unlinked {c : Nat} (among : c ∈ P.ids) (pc : s.client c = .unlink) :
      Stepped P capacity s (.client c) { s.move c .gone with clientName := s.clientName.unlink }

theorem stepped_server (taken : s.stepServer P capacity = some t) :
    Stepped P capacity s .server t := by
  rw [System.stepServer] at taken
  cases pc : s.server with
  | start =>
      rw [pc] at taken
      cases taken
      exact .started pc
  | receive =>
      rw [pc] at taken
      obtain ⟨⟨path, name⟩, received, rfl⟩ := Option.map_eq_some_iff.mp taken
      exact .accepted pc received
  | openFile path =>
      rw [pc] at taken
      dsimp only at taken
      split at taken <;> cases taken
      next writable => exact .fileRead pc writable
      next refused => exact .refused pc (Bool.eq_false_iff.mpr refused)
  | openQueue fileRead =>
      rw [pc] at taken
      cases taken
      exact .queueOpened pc
  | send clientMqd fileRead =>
      rw [pc] at taken
      obtain ⟨name, sent, rfl⟩ := Option.map_eq_some_iff.mp taken
      exact .replied pc sent
  | stopped =>
      rw [pc] at taken
      cases taken

theorem stepped_client {c : Nat} (among : c ∈ P.ids)
    (taken : s.stepClient P capacity c = some t) : Stepped P capacity s (.client c) t := by
  rw [System.stepClient] at taken
  cases pc : s.client c with
  | start =>
      rw [pc] at taken
      cases taken
      exact .came among pc
  | send serverMqd =>
      rw [pc] at taken
      obtain ⟨name, sent, rfl⟩ := Option.map_eq_some_iff.mp taken
      exact .requested among pc sent
  | openQueue =>
      rw [pc] at taken
      cases taken
      exact .opened among pc
  | receive clientMqd =>
      rw [pc] at taken
      obtain ⟨⟨buf, name⟩, received, rfl⟩ := Option.map_eq_some_iff.mp taken
      exact .received among pc received
  | unlink =>
      rw [pc] at taken
      cases taken
      exact .unlinked among pc
  | gone =>
      rw [pc] at taken
      cases taken

theorem stepped {a : Action} (taken : step P capacity s a = some t) :
    Stepped P capacity s a t := by
  cases a with
  | server => exact stepped_server taken
  | client c =>
      rw [step] at taken
      split at taken
      next among => exact stepped_client among taken
      next => cases taken

/-! ## The balance -/

/-- The server can read every file that is named. -/
abbrev Clients.Writable (P : Clients) : Prop := ∀ c ∈ P.ids, P.writable (P.path c) = true

/-- As much is under way as clients wait, and the server goes on. -/
structure Balanced (P : Clients) (s : System) : Prop where
  count : (s.inFlight P).length = (s.outstanding P).card
  requests : ∀ path ∈ s.serverName.messages, P.writable path = true
  opening : ∀ path, s.server = .openFile path → P.writable path = true
  serving : s.server ≠ .stopped

theorem balanced_start (P : Clients) : Balanced P start where
  count := by
    have nobody : start.outstanding P = ∅ := Finset.filter_eq_empty_iff.mpr fun _ _ => nofun
    rw [nobody]
    rfl
  requests := nofun
  opening := nofun
  serving := nofun

theorem length_inFlight (P : Clients) (s : System) :
    (s.inFlight P).length =
      s.serverName.messages.length + (s.server.held P).length + s.clientName.messages.length := by
  rw [System.inFlight, List.length_append, List.length_append, List.length_map, Nat.add_assoc]

/-- What has been counted stays, when as much is under way as before and as many wait. -/
theorem Balanced.keep (balanced : Balanced P s) (outstanding : t.outstanding P = s.outstanding P)
    (length : t.serverName.messages.length + (t.server.held P).length +
      t.clientName.messages.length =
        s.serverName.messages.length + (s.server.held P).length + s.clientName.messages.length) :
    (t.inFlight P).length = (t.outstanding P).card := by
  rw [length_inFlight, length, ← length_inFlight, balanced.count, outstanding]

theorem Balanced.server (balanced : Balanced P s) (taken : Stepped P capacity s .server t) :
    Balanced P t := by
  cases taken with
  | started pc =>
      refine ⟨balanced.keep rfl ?_, ?_, nofun, nofun⟩
      · rw [QueueName.create_messages, pc]
        rfl
      · rw [QueueName.create_messages]
        exact balanced.requests
  | @accepted path name pc received =>
      have messages := QueueName.receive_messages received
      have fewer := messages.length_eq
      refine ⟨balanced.keep rfl ?_, ?_, ?_, nofun⟩
      · simp only [pc, ServerPc.held, List.length_cons, List.length_nil, fewer, Nat.add_zero]
      · exact fun other member =>
          balanced.requests other (messages.mem_iff.mpr (List.mem_cons_of_mem _ member))
      · intro other same
        cases same
        exact balanced.requests path (messages.mem_iff.mpr (List.mem_cons_self ..))
  | fileRead pc =>
      refine ⟨balanced.keep rfl ?_, balanced.requests, nofun, nofun⟩
      rw [pc]
      rfl
  | refused pc refused =>
      have writable := balanced.opening _ pc
      rw [refused] at writable
      cases writable
  | queueOpened pc =>
      refine ⟨balanced.keep rfl ?_, balanced.requests, nofun, nofun⟩
      rw [QueueName.create_messages, pc]
      rfl
  | @replied clientMqd fileRead name pc sent =>
      have more := (QueueName.send_messages sent).length_eq
      refine ⟨balanced.keep rfl ?_, balanced.requests, nofun, nofun⟩
      simp only [pc, ServerPc.held, List.length_nil, more, List.length_cons]
      omega

theorem Balanced.client (writable : P.Writable) (balanced : Balanced P s) {c : Nat}
    (taken : Stepped P capacity s (.client c) t) : Balanced P t := by
  cases taken with
  | came among pc =>
      refine { balanced with count := ?_, requests := ?_ }
      · refine balanced.keep (outstanding_move (by rw [pc]; rfl)) ?_
        rw [QueueName.create_messages]
        rfl
      · rw [QueueName.create_messages]
        exact balanced.requests
  | @requested _ serverMqd name among pc sent =>
      have messages := QueueName.send_messages sent
      have fresh : c ∉ s.outstanding P := by
        rw [mem_outstanding, pc]
        exact fun waits => Bool.noConfusion waits.2
      have outstanding : System.outstanding P { s.move c .openQueue with serverName := name } =
          insert c (s.outstanding P) := outstanding_begin among rfl
      refine { balanced with count := ?_, requests := ?_ }
      · have count := balanced.count
        have more := messages.length_eq
        rw [length_inFlight] at count
        rw [length_inFlight, outstanding, Finset.card_insert_of_notMem fresh, ← count]
        simp only [System.move, more, List.length_cons]
        omega
      · intro path member
        rcases List.mem_cons.mp (messages.mem_iff.mp member) with rfl | old
        · exact writable c among
        · exact balanced.requests path old
  | opened among pc =>
      refine { balanced with count := ?_ }
      refine balanced.keep (outstanding_move (by rw [pc]; rfl)) ?_
      rw [QueueName.create_messages]
      rfl
  | @received _ clientMqd buf name among pc taken =>
      have fewer := (QueueName.receive_messages taken).length_eq
      have waits : c ∈ s.outstanding P := mem_outstanding.mpr ⟨among, by rw [pc]; rfl⟩
      have outstanding : System.outstanding P { s.move c .unlink with
          clientName := name, received := s.received ++ [(c, buf)] } =
            (s.outstanding P).erase c := outstanding_end rfl
      have count := balanced.count
      rw [length_inFlight] at count
      refine { balanced with count := ?_ }
      rw [length_inFlight, outstanding, Finset.card_erase_of_mem waits, ← count]
      simp only [System.move, fewer, List.length_cons]
      omega
  | unlinked among pc =>
      refine { balanced with count := ?_ }
      exact balanced.keep (outstanding_move (by rw [pc]; rfl)) rfl

theorem Balanced.step (writable : P.Writable) (balanced : Balanced P s) {a : Action}
    (taken : step P capacity s a = some t) : Balanced P t := by
  cases a with
  | server => exact balanced.server (stepped taken)
  | client c => exact balanced.client writable (stepped taken)

/-! ## At rest -/

/-- No process can go on. -/
def System.AtRest (P : Clients) (capacity : Nat) (s : System) : Prop :=
  ∀ a, step P capacity s a = none

theorem System.AtRest.server (rest : s.AtRest P capacity) : s.stepServer P capacity = none :=
  rest .server

theorem System.AtRest.client (rest : s.AtRest P capacity) {c : Nat} (among : c ∈ P.ids) :
    s.stepClient P capacity c = none := by
  have none := rest (.client c)
  rwa [step, if_pos among] at none

/-- A client that waits has the reply queue open and finds nothing in it. -/
theorem System.AtRest.waits (rest : s.AtRest P capacity) {c : Nat} (waits : c ∈ s.outstanding P) :
    ∃ clientMqd, s.client c = .receive clientMqd ∧ s.clientName.receive clientMqd = none := by
  obtain ⟨among, isWaiting⟩ := mem_outstanding.mp waits
  have none := rest.client among
  rw [System.stepClient] at none
  cases pc : s.client c with
  | openQueue =>
      rw [pc] at none
      cases none
  | receive clientMqd =>
      rw [pc] at none
      exact ⟨clientMqd, rfl, Option.map_eq_none_iff.mp none⟩
  | start => rw [pc] at isWaiting; cases isWaiting
  | send => rw [pc] at isWaiting; cases isWaiting
  | unlink => rw [pc] at isWaiting; cases isWaiting
  | gone => rw [pc] at isWaiting; cases isWaiting

/-- **Who waits forever.** Whatever the order of the steps, when the processes have come to rest, as
many clients wait as requests and replies are left, and no reply is left in a queue that one of them
has open. -/
theorem left_of_run {actions : List Action} (writable : P.Writable)
    (ran : run (step P capacity) start actions = some s) (rest : s.AtRest P capacity) :
    (s.outstanding P).card = (s.inFlight P).length ∧
      ∀ c ∈ s.outstanding P, ∃ clientMqd, s.client c = .receive clientMqd ∧
        s.clientName.receive clientMqd = none :=
  ⟨(run_invariant (fun balanced taken => Balanced.step writable balanced taken)
    (balanced_start P) ran).count.symm, fun _ waits => rest.waits waits⟩

theorem atRest_pair (serverRests : s.stepServer pair 10 = none)
    (first : s.stepClient pair 10 0 = none) (second : s.stepClient pair 10 1 = none) :
    s.AtRest pair 10 := by
  intro a
  cases a with
  | server => exact serverRests
  | client c =>
      rw [step]
      split
      next among =>
        rcases Finset.mem_insert.mp among with rfl | other
        · exact first
        · rwa [Finset.mem_singleton.mp other]
      next => rfl

/-- Both have sent their requests. The first one is done before the second one opens the reply
queue, in which both replies have been. -/
def pairApart : List Action :=
  [.server, .client 0, .client 0, .client 1, .client 1, .server, .server, .server, .server,
    .client 0, .client 0, .server, .server, .server, .server, .client 0, .client 1]

theorem left_pair :
    ∃ s, run (step pair 10) start pairApart = some s ∧ s.outstanding pair = {1} ∧
      (s.outstanding pair).card = (s.inFlight pair).length ∧
      ∀ c ∈ s.outstanding pair, ∃ clientMqd, s.client c = .receive clientMqd ∧
        s.clientName.receive clientMqd = none := by
  have rests : (run (step pair 10) start pairApart).map (fun s =>
      ((s.stepServer pair 10).isNone, (s.stepClient pair 10 0).isNone,
        (s.stepClient pair 10 1).isNone, s.outstanding pair)) = some (true, true, true, {1}) := by
    decide +kernel
  obtain ⟨s, ran, places⟩ := Option.map_eq_some_iff.mp rests
  simp only [Prod.mk.injEq, Option.isNone_iff_eq_none] at places
  obtain ⟨server, first, second, waits⟩ := places
  exact ⟨s, ran, waits, left_of_run (by decide) ran (atRest_pair server first second)⟩

/-! ## Nobody is left -/

/-- A client that is done unlinks the name of the reply queue only while nobody waits. -/
def System.Considerate (P : Clients) (s : System) : Action → Prop
  | .server => True
  | .client c => s.client c = .unlink → s.outstanding P = ∅

instance (P : Clients) (s : System) : DecidablePred (s.Considerate P)
  | .server => .isTrue trivial
  | .client c => inferInstanceAs (Decidable (s.client c = .unlink → s.outstanding P = ∅))

/-- Whoever has a queue open has the one that its name leads to, and nothing waits in others. -/
structure Together (P : Clients) (s : System) : Prop where
  serverName : s.serverName.Tidy
  clientName : s.clientName.Tidy
  server : s.server ≠ .start → s.serverName.linked = some s.serverMqd
  sending : ∀ c q, s.client c = .send q → s.serverName.linked = some q
  replying : ∀ q fileRead, s.server = .send q fileRead → s.clientName.linked = some q
  receiving : ∀ c ∈ P.ids, ∀ q, s.client c = .receive q → s.clientName.linked = some q

theorem together_start (P : Clients) : Together P start where
  serverName := QueueName.tidy_absent
  clientName := QueueName.tidy_absent
  server := fun other => absurd rfl other
  sending := nofun
  replying := nofun
  receiving := nofun

theorem Together.server_step (balanced : Balanced P s) (together : Together P s)
    (taken : Stepped P capacity s .server t) : Together P t := by
  cases taken with
  | started pc =>
      exact { together with
        serverName := together.serverName.create
        server := fun _ => QueueName.create_linked _
        sending := fun c q same => QueueName.create_linked_of (together.sending c q same)
        replying := nofun }
  | accepted pc received =>
      have linked := together.server (by rw [pc]; exact nofun)
      obtain ⟨tidy, same⟩ := together.serverName.receive linked received
      exact { together with
        serverName := tidy
        server := fun _ => same.trans linked
        sending := fun c q sends => same.trans (together.sending c q sends)
        replying := nofun }
  | fileRead pc =>
      exact { together with
        server := fun _ => together.server (by rw [pc]; exact nofun)
        replying := nofun }
  | refused pc refused =>
      have writable := balanced.opening _ pc
      rw [refused] at writable
      cases writable
  | queueOpened pc =>
      exact { together with
        clientName := together.clientName.create
        server := fun _ => together.server (by rw [pc]; exact nofun)
        replying := by
          rintro q fileRead ⟨⟩
          exact QueueName.create_linked _
        receiving := fun c among q receives =>
          QueueName.create_linked_of (together.receiving c among q receives) }
  | replied pc sent =>
      have linked := together.replying _ _ pc
      obtain ⟨tidy, same⟩ := together.clientName.send linked sent
      exact { together with
        clientName := tidy
        server := fun _ => together.server (by rw [pc]; exact nofun)
        replying := nofun
        receiving := fun c among q receives =>
          same.trans (together.receiving c among q receives) }

/-- Where the clients are when one of them has gone on. -/
theorem client_move {c d : Nat} {pc pc' : ClientPc} (here : (s.move c pc).client d = pc') :
    pc = pc' ∨ s.client d = pc' := by
  by_cases same : d = c
  · subst same
    rw [System.move_same] at here
    exact .inl here
  · rw [System.move_other s pc same] at here
    exact .inr here

/-- A client that is somewhere else than the one that has gone on has been there before. -/
theorem of_client_move {c d : Nat} {pc pc' : ClientPc} (here : (s.move c pc).client d = pc')
    (elsewhere : pc ≠ pc') : s.client d = pc' :=
  (client_move here).resolve_left elsewhere

/-- With nobody waiting, nothing is under way. -/
theorem Balanced.nothing (balanced : Balanced P s) (nobody : s.outstanding P = ∅) :
    s.serverName.messages = [] ∧ s.server.held P = [] ∧ s.clientName.messages = [] := by
  have count := balanced.count
  rw [length_inFlight, nobody, Finset.card_empty] at count
  refine ⟨List.eq_nil_of_length_eq_zero ?_, List.eq_nil_of_length_eq_zero ?_,
    List.eq_nil_of_length_eq_zero ?_⟩ <;> omega

theorem Together.client_step (balanced : Balanced P s) (together : Together P s) {c : Nat}
    (considerate : s.Considerate P (.client c)) (taken : Stepped P capacity s (.client c) t) :
    Together P t := by
  cases taken with
  | came among pc =>
      refine { together with serverName := together.serverName.create, server := ?_,
                             sending := ?_, receiving := ?_ }
      · exact fun other => QueueName.create_linked_of (together.server other)
      · intro d q sends
        rcases client_move sends with same | before
        · cases same
          exact QueueName.create_linked _
        · exact QueueName.create_linked_of (together.sending d q before)
      · exact fun d member q receives =>
          together.receiving d member q (of_client_move receives (by simp))
  | requested among pc sent =>
      have linked := together.sending _ _ pc
      obtain ⟨tidy, same⟩ := together.serverName.send linked sent
      refine { together with serverName := tidy, server := ?_, sending := ?_, receiving := ?_ }
      · exact fun other => same.trans (together.server other)
      · exact fun d q sends => same.trans (together.sending d q (of_client_move sends (by simp)))
      · exact fun d member q receives =>
          together.receiving d member q (of_client_move receives (by simp))
  | opened among pc =>
      refine { together with clientName := together.clientName.create, sending := ?_,
                             replying := ?_, receiving := ?_ }
      · exact fun d q sends => together.sending d q (of_client_move sends (by simp))
      · exact fun q fileRead sends =>
          QueueName.create_linked_of (together.replying q fileRead sends)
      · intro d member q receives
        rcases client_move receives with same | before
        · cases same
          exact QueueName.create_linked _
        · exact QueueName.create_linked_of (together.receiving d member q before)
  | received among pc taken =>
      have linked := together.receiving _ among _ pc
      obtain ⟨tidy, same⟩ := together.clientName.receive linked taken
      refine { together with clientName := tidy, sending := ?_, replying := ?_, receiving := ?_ }
      · exact fun d q sends => together.sending d q (of_client_move sends (by simp))
      · exact fun q fileRead sends => same.trans (together.replying q fileRead sends)
      · exact fun d member q receives =>
          same.trans (together.receiving d member q (of_client_move receives (by simp)))
  | unlinked among pc =>
      have nobody := considerate pc
      obtain ⟨-, held, messages⟩ := balanced.nothing nobody
      refine { together with clientName := QueueName.tidy_unlink messages, sending := ?_,
                             replying := ?_, receiving := ?_ }
      · exact fun d q sends => together.sending d q (of_client_move sends (by simp))
      · intro q fileRead sends
        rw [show s.server = .send q fileRead from sends] at held
        cases held
      · intro d member q receives
        have before := of_client_move receives (by simp)
        have waits : d ∈ s.outstanding P := mem_outstanding.mpr ⟨member, by rw [before]; rfl⟩
        rw [nobody] at waits
        cases waits

theorem Together.step (writable : P.Writable) {a : Action} (considerate : s.Considerate P a)
    (inv : Balanced P s ∧ Together P s) (taken : step P capacity s a = some t) :
    Balanced P t ∧ Together P t := by
  refine ⟨inv.1.step writable taken, ?_⟩
  cases a with
  | server => exact inv.2.server_step inv.1 (stepped taken)
  | client c => exact inv.2.client_step inv.1 considerate (stepped taken)

/-- At rest nobody waits. -/
theorem Together.nobody (together : Together P s) (balanced : Balanced P s) (room : 0 < capacity)
    (rest : s.AtRest P capacity) : s.outstanding P = ∅ := by
  refine Finset.eq_empty_of_forall_notMem fun c waits => ?_
  obtain ⟨q, pc, nothing⟩ := rest.waits waits
  have linked := together.receiving c (mem_outstanding.mp waits).1 q pc
  have noReply := together.clientName.messages_eq_nil linked nothing
  have none := rest.server
  rw [System.stepServer] at none
  cases server : s.server with
  | receive =>
      rw [server] at none
      have noRequest := together.serverName.messages_eq_nil
        (together.server (by simp [server])) (Option.map_eq_none_iff.mp none)
      have count := balanced.count
      rw [length_inFlight, noRequest, noReply, server] at count
      exact absurd (Finset.card_pos.mpr ⟨c, waits⟩) (by rw [← count]; exact Nat.lt_irrefl 0)
  | send q' fileRead =>
      rw [server] at none
      exact together.clientName.messages_ne_nil (together.replying q' fileRead server) room
        (Option.map_eq_none_iff.mp none) noReply
  | openFile path =>
      rw [server] at none
      dsimp only at none
      split at none <;> cases none
  | start => rw [server] at none; cases none
  | openQueue => rw [server] at none; cases none
  | stopped => exact balanced.serving server

theorem Together.gone (together : Together P s) (balanced : Balanced P s) (room : 0 < capacity)
    (rest : s.AtRest P capacity) {c : Nat} (among : c ∈ P.ids) : s.client c = .gone := by
  have nobody := together.nobody balanced room rest
  have none := rest.client among
  rw [System.stepClient] at none
  have idle : (s.client c).waits = false := by
    by_contra waits
    have member := mem_outstanding.mpr ⟨among, Bool.eq_true_of_not_eq_false waits⟩
    rw [nobody] at member
    cases member
  cases pc : s.client c with
  | gone => rfl
  | send q =>
      rw [pc] at none
      have more := together.serverName.messages_ne_nil (together.sending c q pc) room
        (Option.map_eq_none_iff.mp none)
      exact absurd (balanced.nothing nobody).1 more
  | start => rw [pc] at none; cases none
  | unlink => rw [pc] at none; cases none
  | openQueue => rw [pc] at idle; cases idle
  | receive => rw [pc] at idle; cases idle

/-! ## What was received, and the end -/

/-- The client has received a reply. -/
def ClientPc.served : ClientPc → Bool
  | .unlink => true
  | .gone => true
  | _ => false

/-- The clients that have received a reply have received one. -/
structure Recorded (s : System) : Prop where
  once : (s.received.map Prod.fst).Nodup
  mem_iff : ∀ c, c ∈ s.received.map Prod.fst ↔ (s.client c).served = true

theorem recorded_start : Recorded start where
  once := List.nodup_nil
  mem_iff := fun _ => ⟨nofun, nofun⟩

/-- A client goes on without having received anything. -/
theorem Recorded.move (recorded : Recorded s) {c : Nat} {pc : ClientPc}
    (same : pc.served = (s.client c).served) {name : QueueName Path}
    {clientName : QueueName (List Byte)} :
    Recorded { s.move c pc with serverName := name, clientName := clientName } where
  once := recorded.once
  mem_iff d := by
    by_cases here : d = c
    · subst here
      refine (recorded.mem_iff d).trans ?_
      rw [← same]
      exact iff_of_eq (congrArg (·.served = true) (System.move_same s d pc).symm)
    · refine (recorded.mem_iff d).trans ?_
      exact iff_of_eq (congrArg (·.served = true) (System.move_other s pc here).symm)

theorem Recorded.step {a : Action} (recorded : Recorded s)
    (taken : step P capacity s a = some t) : Recorded t := by
  cases stepped taken with
  | started => exact { recorded with }
  | accepted => exact { recorded with }
  | fileRead => exact { recorded with }
  | refused => exact { recorded with }
  | queueOpened => exact { recorded with }
  | replied => exact { recorded with }
  | came among pc => exact recorded.move (by rw [pc]; rfl)
  | requested among pc => exact recorded.move (by rw [pc]; rfl)
  | opened among pc => exact recorded.move (by rw [pc]; rfl)
  | unlinked among pc => exact recorded.move (by rw [pc]; rfl)
  | @received c clientMqd buf name among pc =>
      have fresh : c ∉ s.received.map Prod.fst := by
        rw [recorded.mem_iff, pc]
        exact Bool.false_ne_true
      refine ⟨?_, fun d => ?_⟩
      · rw [List.map_append]
        exact List.nodup_append_comm.mp (List.nodup_cons.mpr ⟨fresh, recorded.once⟩)
      · rw [List.map_append, List.mem_append, List.map_singleton, List.mem_singleton]
        by_cases here : d = c
        · subst here
          refine iff_of_true (.inr rfl) ?_
          exact congrArg ClientPc.served (System.move_same s d .unlink)
        · refine (or_iff_left here).trans ((recorded.mem_iff d).trans ?_)
          exact iff_of_eq (congrArg (·.served = true) (System.move_other s .unlink here).symm)

/-- How much a client has still to do. Its request costs the server four steps. -/
def ClientPc.left : ClientPc → Nat
  | .start => 9
  | .send _ => 8
  | .openQueue => 3
  | .receive _ => 2
  | .unlink => 1
  | .gone => 0

def ServerPc.left : ServerPc → Nat
  | .start => 1
  | .receive => 0
  | .openFile _ => 3
  | .openQueue _ => 2
  | .send _ _ => 1
  | .stopped => 0

def System.left (P : Clients) (s : System) : Nat :=
  ∑ c ∈ P.ids, (s.client c).left + 4 * s.serverName.messages.length + s.server.left

theorem sum_move (s : System) {c : Nat} (among : c ∈ P.ids) (pc : ClientPc) :
    ∑ d ∈ P.ids, ((s.move c pc).client d).left + (s.client c).left =
      ∑ d ∈ P.ids, (s.client d).left + pc.left := by
  have others : ∑ d ∈ P.ids.erase c, ((s.move c pc).client d).left =
      ∑ d ∈ P.ids.erase c, (s.client d).left :=
    Finset.sum_congr rfl fun d member => by
      rw [System.move_other s pc (Finset.ne_of_mem_erase member)]
  rw [← Finset.add_sum_erase _ _ among, ← Finset.add_sum_erase P.ids (fun d => (s.client d).left)
    among, others, System.move_same]
  omega

/-- Every step leaves less to do. -/
theorem left_step {a : Action} (taken : step P capacity s a = some t) : t.left P < s.left P := by
  cases stepped taken with
  | started pc =>
      simp only [System.left, QueueName.create_messages, pc, ServerPc.left]
      omega
  | accepted pc received =>
      have fewer := (QueueName.receive_messages received).length_eq
      simp only [System.left, pc, ServerPc.left, fewer, List.length_cons]
      omega
  | fileRead pc =>
      simp only [System.left, pc, ServerPc.left]
      omega
  | refused pc =>
      have messages : s.stop.serverName.messages = s.serverName.messages := rfl
      simp only [System.left, messages, pc, ServerPc.left]
      simp only [System.stop]
      omega
  | queueOpened pc =>
      simp only [System.left, pc, ServerPc.left]
      omega
  | replied pc =>
      simp only [System.left, pc, ServerPc.left]
      omega
  | came among pc =>
      have sum := sum_move s among (.send s.serverName.descriptor)
      rw [pc] at sum
      simp only [System.left, QueueName.create_messages]
      simp only [ClientPc.left, System.move] at sum ⊢
      omega
  | requested among pc sent =>
      have sum := sum_move s among .openQueue
      have more := (QueueName.send_messages sent).length_eq
      rw [pc] at sum
      simp only [System.left, more, List.length_cons]
      simp only [ClientPc.left, System.move] at sum ⊢
      omega
  | opened among pc =>
      have sum := sum_move s among (.receive s.clientName.descriptor)
      rw [pc] at sum
      simp only [System.left]
      simp only [ClientPc.left, System.move] at sum ⊢
      omega
  | received among pc =>
      have sum := sum_move s among .unlink
      rw [pc] at sum
      simp only [System.left]
      simp only [ClientPc.left, System.move] at sum ⊢
      omega
  | unlinked among pc =>
      have sum := sum_move s among .gone
      rw [pc] at sum
      simp only [System.left]
      simp only [ClientPc.left, System.move] at sum ⊢
      omega

/-- **Everybody is served.** Every run has at most nine steps for each client and one more. When
the queues have room, the server may write, and a client that is done unlinks the reply queue
only while nobody waits, at the end of the run all clients are gone, and each has received one
reply. -/
theorem served_of_run {actions : List Action}
    (ran : run (step P capacity) start actions = some s) :
    actions.length ≤ 9 * P.ids.card + 1 ∧
      (P.Writable → 0 < capacity →
        Along (step P capacity) (fun s a => s.Considerate P a) start actions →
        s.AtRest P capacity → ∀ c ∈ P.ids, s.client c = .gone ∧
        (s.received.map Prod.fst).count c = 1) := by
  constructor
  · have short := @run_length_le _ _ (step P capacity) (fun _ => True) (fun _ => True)
      (System.left P) (fun _ _ taken => ⟨trivial, left_step taken⟩) _ _ _ (fun _ _ => trivial)
      trivial ran
    have first : System.left P start = 9 * P.ids.card + 1 := by
      simp [System.left, start, ClientPc.left, ServerPc.left, QueueName.absent,
        QueueName.messages, Nat.mul_comm]
    rwa [first] at short
  · intro writable room considerate rest c among
    obtain ⟨balanced, together⟩ := run_invariant_along
      (fun considerate inv taken => Together.step writable considerate inv taken) considerate
      ⟨balanced_start P, together_start P⟩ ran
    have recorded := run_invariant (fun recorded taken => Recorded.step recorded taken)
      recorded_start ran
    have gone := together.gone balanced room rest among
    refine ⟨gone, List.count_eq_one_of_mem recorded.once ((recorded.mem_iff c).mpr ?_)⟩
    rw [gone]
    rfl

theorem served_pair :
    ∃ s, run (step pair 10) start (pairInTurn ++ [.client 1]) = some s ∧
      ∀ c ∈ pair.ids, s.client c = .gone ∧ (s.received.map Prod.fst).count c = 1 := by
  have rests : (run (step pair 10) start (pairInTurn ++ [.client 1])).map (fun s =>
      ((s.stepServer pair 10).isNone, (s.stepClient pair 10 0).isNone,
        (s.stepClient pair 10 1).isNone)) = some (true, true, true) := by
    decide +kernel
  obtain ⟨s, ran, places⟩ := Option.map_eq_some_iff.mp rests
  simp only [Prod.mk.injEq, Option.isNone_iff_eq_none] at places
  obtain ⟨server, first, second⟩ := places
  exact ⟨s, ran, (served_of_run ran).2 (by decide) (by decide) (by decide +kernel)
    (atRest_pair server first second)⟩

end LinuxExercises.FileServer
