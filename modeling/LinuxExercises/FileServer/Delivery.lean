import Mathlib.Data.Finset.Card
import Mathlib.Data.List.Perm.Subperm
import LinuxExercises.FileServer.System

/-!
# What the clients receive

Nothing in a reply says which client it is for. While two clients wait, either may take
the reply to the other (`swapped_pair`).

No client takes a wrong file in the runs in which a client sends its request only while
all who still wait have named a file with the same contents (`delivered_of_run`): there
are never more replies under way than clients that wait (`Inv.fewer`), and each is right
for all of them (`Inv.same`).
-/

set_option autoImplicit false

namespace LinuxExercises.FileServer

open Foundations

/-- Every client that has received something has received the file it has named. -/
def Delivered (P : Clients) (s : System) : Prop :=
  ∀ c buf, (c, buf) ∈ s.received → buf = P.file c

/-- The client has sent its request and has not received a reply. -/
def ClientPc.waits : ClientPc → Bool
  | .openQueue => true
  | .receive _ => true
  | _ => false

/-- What the server has in its hands. -/
def ServerPc.held (P : Clients) : ServerPc → List (List Byte)
  | .openFile path => [P.read path]
  | .openQueue fileRead => [fileRead]
  | .send _ fileRead => [fileRead]
  | _ => []

namespace System

/-- The clients that wait for a reply. -/
def outstanding (P : Clients) (s : System) : Finset Nat :=
  P.ids.filter fun c => (s.client c).waits

/-- The replies under way, with those the server has still to read. -/
def inFlight (P : Clients) (s : System) : List (List Byte) :=
  s.serverName.messages.map P.read ++ (s.server.held P ++ s.clientName.messages)

/-- A client sends its request while all who wait have named a file with the same
contents. -/
def Agrees (P : Clients) (s : System) : Action → Prop
  | .server => True
  | .client c =>
      match s.client c with
      | .send _ => ∀ d ∈ s.outstanding P, P.file d = P.file c
      | _ => True

instance (P : Clients) (s : System) : DecidablePred (s.Agrees P)
  | .server => .isTrue trivial
  | .client c =>
      match pc : s.client c with
      | .send _ =>
          decidable_of_iff (∀ d ∈ s.outstanding P, P.file d = P.file c) (by simp [Agrees, pc])
      | .start | .openQueue | .receive _ | .unlink | .gone => .isTrue (by simp [Agrees, pc])

end System

/-- The invariant. -/
structure Inv (P : Clients) (s : System) : Prop where
  fewer : (s.inFlight P).length ≤ (s.outstanding P).card
  same : ∀ buf ∈ s.inFlight P, ∀ c ∈ s.outstanding P, buf = P.file c
  received : Delivered P s

theorem inv_start (P : Clients) : Inv P start where
  fewer := Nat.zero_le _
  same := fun _ member => (List.not_mem_nil member).elim
  received := fun _ _ member => (List.not_mem_nil member).elim

variable {P : Clients} {capacity : Nat} {s t : System} {c : Nat}

/-- Nothing new is under way, and the same clients wait. -/
theorem Inv.keep (inv : Inv P s) (fewer : (t.inFlight P).Subperm (s.inFlight P))
    (outstanding : t.outstanding P = s.outstanding P) (received : t.received = s.received) :
    Inv P t where
  fewer := outstanding ▸ fewer.length_le.trans inv.fewer
  same := fun buf member => outstanding ▸ inv.same buf (fewer.subset member)
  received := fun c buf member => inv.received c buf (received ▸ member)

/-! ## Who waits -/

theorem mem_outstanding : c ∈ s.outstanding P ↔ c ∈ P.ids ∧ (s.client c).waits = true :=
  Finset.mem_filter

/-- A client goes on without beginning to wait or ceasing to. -/
theorem outstanding_move {pc : ClientPc} (same : pc.waits = (s.client c).waits) :
    (s.move c pc).outstanding P = s.outstanding P := by
  refine Finset.filter_congr fun d _ => ?_
  by_cases here : d = c
  · rw [here, System.move_same, same]
  · rw [System.move_other s pc here]

theorem outstanding_begin {pc : ClientPc} (among : c ∈ P.ids) (waits : pc.waits = true) :
    (s.move c pc).outstanding P = insert c (s.outstanding P) := by
  ext d
  rw [Finset.mem_insert, mem_outstanding, mem_outstanding]
  by_cases here : d = c
  · rw [here, System.move_same]
    exact ⟨fun _ => Or.inl rfl, fun _ => ⟨among, waits⟩⟩
  · rw [System.move_other s pc here]
    exact ⟨Or.inr, fun member => member.resolve_left here⟩

theorem outstanding_end {pc : ClientPc} (done : pc.waits = false) :
    (s.move c pc).outstanding P = (s.outstanding P).erase c := by
  ext d
  rw [Finset.mem_erase, mem_outstanding, mem_outstanding]
  by_cases here : d = c
  · rw [here, System.move_same, done]
    exact ⟨fun waits => (nomatch waits.2), fun other => absurd rfl other.1⟩
  · rw [System.move_other s pc here]
    exact ⟨fun member => ⟨here, member⟩, fun member => member.2⟩

/-! ## Steps -/

/-- A client that comes while all who wait agree with it. -/
theorem Inv.send {name : QueueName Path} {serverMqd : Nat} (inv : Inv P s) (among : c ∈ P.ids)
    (pc : s.client c = .send serverMqd)
    (agrees : ∀ d ∈ s.outstanding P, P.file d = P.file c)
    (sent : s.serverName.send capacity serverMqd (P.path c) = some name) :
    Inv P { s.move c .openQueue with serverName := name } := by
  have fresh : c ∉ s.outstanding P := by
    rw [mem_outstanding, pc]
    exact fun waits => nomatch waits.2
  have outstanding : System.outstanding P { s.move c .openQueue with serverName := name } =
      insert c (s.outstanding P) := outstanding_begin among rfl
  have flight : (System.inFlight P { s.move c .openQueue with serverName := name }).Perm
      (P.file c :: s.inFlight P) := by
    have added := (QueueName.send_messages sent).map P.read
    rw [List.map_cons, P.read_path among] at added
    exact added.append_right _
  refine ⟨?_, ?_, inv.received⟩
  · rw [flight.length_eq, outstanding, Finset.card_insert_of_notMem fresh]
    exact Nat.succ_le_succ inv.fewer
  · intro buf member d waits
    rw [outstanding, Finset.mem_insert] at waits
    rcases List.mem_cons.mp (flight.mem_iff.mp member) with new | old
    · rcases waits with rfl | earlier
      · exact new
      · exact new.trans (agrees d earlier).symm
    · rcases waits with rfl | earlier
      · -- somebody else waits for what is under way, and agrees with the newcomer
        obtain ⟨d, first⟩ : (s.outstanding P).Nonempty := by
          rw [← Finset.card_pos]
          exact (List.length_pos_of_mem old).trans_le inv.fewer
        exact (inv.same buf old d first).trans (agrees d first)
      · exact inv.same buf old d earlier

/-- A client receives a reply, which is right for all who wait. -/
theorem Inv.receive {name : QueueName (List Byte)} {clientMqd : Nat} {buf : List Byte}
    (inv : Inv P s) (among : c ∈ P.ids) (pc : s.client c = .receive clientMqd)
    (received : s.clientName.receive clientMqd = some (buf, name)) :
    Inv P { s.move c .unlink with clientName := name, received := s.received ++ [(c, buf)] } := by
  have waits : c ∈ s.outstanding P := mem_outstanding.mpr ⟨among, by rw [pc]; rfl⟩
  have flight : (s.inFlight P).Perm (buf :: System.inFlight P
      { s.move c .unlink with clientName := name, received := s.received ++ [(c, buf)] }) := by
    have taken := (QueueName.receive_messages received).append_left (s.server.held P)
    exact ((taken.trans List.perm_middle).append_left _).trans List.perm_middle
  have outstanding : System.outstanding P
      { s.move c .unlink with clientName := name, received := s.received ++ [(c, buf)] } =
        (s.outstanding P).erase c := outstanding_end rfl
  refine ⟨?_, ?_, ?_⟩
  · have fewer := inv.fewer
    rw [flight.length_eq, List.length_cons] at fewer
    rw [outstanding, Finset.card_erase_of_mem waits]
    exact Nat.le_sub_one_of_lt fewer
  · intro other member d still
    rw [outstanding] at still
    exact inv.same other (flight.mem_iff.mpr (List.mem_cons_of_mem _ member)) d
      (Finset.mem_of_mem_erase still)
  · intro d other member
    rcases List.mem_append.mp member with old | new
    · exact inv.received d other old
    · obtain ⟨rfl, rfl⟩ := Prod.mk.inj (List.mem_singleton.mp new)
      exact inv.same _ (flight.mem_iff.mpr (List.mem_cons_self ..)) _ waits

theorem inv_stepClient (inv : Inv P s) (among : c ∈ P.ids) (agrees : s.Agrees P (.client c))
    (taken : s.stepClient P capacity c = some t) : Inv P t := by
  cases pc : s.client c with
  | start =>
      rw [System.stepClient, pc] at taken
      obtain rfl := Option.some.inj taken
      refine inv.keep ?_ (outstanding_move (by rw [pc]; rfl)) rfl
      rw [System.inFlight, System.inFlight, QueueName.create_messages]
      exact List.Subperm.refl _
  | send serverMqd =>
      rw [System.stepClient, pc] at taken
      rw [System.Agrees, pc] at agrees
      obtain ⟨name, sent, rfl⟩ := Option.map_eq_some_iff.mp taken
      exact inv.send among pc agrees sent
  | openQueue =>
      rw [System.stepClient, pc] at taken
      obtain rfl := Option.some.inj taken
      refine inv.keep ?_ (outstanding_move (by rw [pc]; rfl)) rfl
      rw [System.inFlight, System.inFlight, QueueName.create_messages]
      exact List.Subperm.refl _
  | receive clientMqd =>
      rw [System.stepClient, pc] at taken
      obtain ⟨⟨buf, name⟩, received, rfl⟩ := Option.map_eq_some_iff.mp taken
      exact inv.receive among pc received
  | unlink =>
      rw [System.stepClient, pc] at taken
      obtain rfl := Option.some.inj taken
      exact inv.keep (List.Subperm.refl _) (outstanding_move (by rw [pc]; rfl)) rfl
  | gone =>
      rw [System.stepClient, pc] at taken
      cases taken

theorem inv_stepServer (inv : Inv P s) (taken : s.stepServer P capacity = some t) : Inv P t := by
  cases pc : s.server with
  | start =>
      rw [System.stepServer, pc] at taken
      obtain rfl := Option.some.inj taken
      refine inv.keep ?_ rfl rfl
      rw [System.inFlight, System.inFlight, QueueName.create_messages, pc]
      exact List.Subperm.refl _
  | receive =>
      rw [System.stepServer, pc] at taken
      obtain ⟨⟨path, name⟩, received, rfl⟩ := Option.map_eq_some_iff.mp taken
      refine inv.keep (List.Perm.subperm ?_) rfl rfl
      rw [System.inFlight, System.inFlight, pc]
      refine List.Perm.symm ((((QueueName.receive_messages received).map P.read).append_right
        _).trans ?_)
      rw [List.map_cons]
      exact List.perm_middle.symm
  | openFile path =>
      rw [System.stepServer, pc] at taken
      dsimp only at taken
      split at taken
      · obtain rfl := Option.some.inj taken
        refine inv.keep ?_ rfl rfl
        rw [System.inFlight, System.inFlight, pc]
        exact List.Subperm.refl _
      · obtain rfl := Option.some.inj taken
        refine inv.keep (List.Sublist.subperm ?_) rfl rfl
        exact (List.Sublist.refl _).append ((List.nil_sublist _).append (List.Sublist.refl _))
  | openQueue fileRead =>
      rw [System.stepServer, pc] at taken
      obtain rfl := Option.some.inj taken
      refine inv.keep ?_ rfl rfl
      rw [System.inFlight, System.inFlight, QueueName.create_messages, pc]
      exact List.Subperm.refl _
  | send clientMqd fileRead =>
      rw [System.stepServer, pc] at taken
      obtain ⟨name, sent, rfl⟩ := Option.map_eq_some_iff.mp taken
      refine inv.keep (List.Perm.subperm ?_) rfl rfl
      rw [System.inFlight, System.inFlight, pc]
      exact (QueueName.send_messages sent).append_left _
  | stopped =>
      rw [System.stepServer, pc] at taken
      cases taken

theorem inv_step {a : Action} (agrees : s.Agrees P a) (inv : Inv P s)
    (taken : step P capacity s a = some t) : Inv P t := by
  cases a with
  | server => exact inv_stepServer inv taken
  | client c =>
      rw [step] at taken
      split at taken
      · rename_i among
        exact inv_stepClient inv among agrees taken
      · cases taken

/-- **Every client gets its file** in a run in which a client sends its request only while
all who still wait have named a file with the same contents. -/
theorem delivered_of_run {actions : List Action} {s : System}
    (agree : Along (step P capacity) (fun s a => s.Agrees P a) start actions)
    (ran : run (step P capacity) start actions = some s) : Delivered P s :=
  (run_invariant_along inv_step agree (inv_start P) ran).received

/-- Two clients that name different files of one byte. -/
def pair : Clients where
  ids := {0, 1}
  path := fun c => [c.toUInt8]
  contents := fun path => path
  writable := fun _ => true
  small := by decide

/-- The second client sends its request when the first one is done. -/
def pairInTurn : List Action :=
  [.server, .client 0, .client 0, .server, .server, .server, .server, .client 0, .client 0,
    .client 0, .client 1, .client 1, .client 1, .server, .server, .server, .server, .client 1]

theorem delivered_pair :
    ∃ s, run (step pair 10) start pairInTurn = some s ∧ s.received = [(0, [0]), (1, [1])] ∧
      Delivered pair s := by
  have receives : (run (step pair 10) start pairInTurn).map System.received =
      some [(0, [0]), (1, [1])] := by decide +kernel
  obtain ⟨s, ran, received⟩ := Option.map_eq_some_iff.mp receives
  exact ⟨s, ran, received, delivered_of_run (by decide +kernel) ran⟩

/-- Both have sent their requests, and the second client takes the first reply. -/
def pairAtOnce : List Action :=
  [.server, .client 0, .client 0, .client 1, .client 1, .server, .server, .server, .server,
    .client 1, .client 1]

theorem swapped_pair :
    ∃ s, run (step pair 10) start pairAtOnce = some s ∧ s.received = [(1, [0])] ∧
      pair.file 1 = [1] ∧ ¬ Delivered pair s := by
  have receives : (run (step pair 10) start pairAtOnce).map System.received =
      some [(1, [0])] := by decide +kernel
  obtain ⟨s, ran, received⟩ := Option.map_eq_some_iff.mp receives
  refine ⟨s, ran, received, rfl, fun delivered => ?_⟩
  exact nomatch delivered 1 [0] (received ▸ List.mem_cons_self ..)

end LinuxExercises.FileServer
