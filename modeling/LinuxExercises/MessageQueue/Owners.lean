import LinuxExercises.MessageQueue.System

/-!
# Whose message it is

Requests and responses share the queue, and only the type keeps them apart. When no client
has pid 1, every message belongs to one client: a request to its sender, a response to the
client it is for. A client owns exactly one message while it waits for its response, in
the queue or in the hands of the server, and none at any other time (`Inv.waiting`). So
the server takes only requests, and a client receives only what the server has answered
to its own request.
-/

set_option autoImplicit false

namespace LinuxExercises.MessageQueue

open Foundations

/-- The client that sent the message, or that it is for. -/
def Message.owner (m : Message) : CInt :=
  if m.mtype = 1 then m.first else BitVec.ofInt 32 m.mtype

/-- The request in the hands of the server. -/
def ServerPc.held : ServerPc → List Message
  | .send req => [req]
  | _ => []

namespace System

/-- The clients whose request or response is under way. -/
def owners (s : System) : List CInt := (s.server.held ++ s.queue).map Message.owner

end System

/-- A message of the queue: a request, or the response to a request. -/
inductive Meant (P : Clients) (answered : List Answer) : Message → Prop
  | request {p : CInt} (among : p ∈ P.pids) : Meant P answered (P.request p)
  | response {p seqNum padding : CInt} (among : p ∈ P.pids)
      (sent : ⟨P.request p, seqNum⟩ ∈ answered) :
      Meant P answered ((P.request p).response seqNum padding)

variable {P : Clients} {capacity : Nat} {s t : System} {p : CInt}

@[simp] theorem owner_request (P : Clients) (p : CInt) : (P.request p).owner = p := if_pos rfl

theorem owner_response {seqNum padding : CInt} (above : p.toInt ≠ 1) :
    ((P.request p).response seqNum padding).owner = p :=
  (if_neg above).trans (BitVec.ofInt_toInt (x := p))

namespace Meant

variable {answered : List Answer} {m : Message}

theorem append (meant : Meant P answered m) (later : List Answer) :
    Meant P (answered ++ later) m := by
  cases meant with
  | request among => exact .request among
  | response among member => exact .response among (List.mem_append_left _ member)

/-- A message of type 1 is a request. -/
theorem of_one (above : ∀ p ∈ P.pids, 1 < p.toInt) (meant : Meant P answered m)
    (one : m.mtype = 1) : ∃ p ∈ P.pids, m = P.request p := by
  cases meant with
  | @request p among => exact ⟨p, among, rfl⟩
  | response among member => exact absurd one (above _ among).ne'

/-- A message whose type is a client's pid is the response to its request. -/
theorem of_pid (above : ∀ p ∈ P.pids, 1 < p.toInt) (meant : Meant P answered m)
    (among : p ∈ P.pids) (type : m.mtype = p.toInt) :
    m.owner = p ∧ ⟨P.request p, m.first⟩ ∈ answered := by
  cases meant with
  | request _ => exact absurd type (above p among).ne
  | @response q seqNum padding _ member =>
      obtain rfl : q = p := BitVec.eq_of_toInt_eq type
      exact ⟨owner_response (above q among).ne', member⟩

end Meant

/-- The invariant when no client has pid 1. -/
structure Inv (P : Clients) (s : System) : Prop where
  running : s.server ≠ .stopped
  distinct : s.owners.Nodup
  waiting : ∀ p, p ∈ s.owners ↔ p ∈ P.pids ∧ s.client p = .receive
  fresh : s.linked = false → s.owners = []
  meant : ∀ m ∈ s.queue, Meant P s.answered m
  held : ∀ req, s.server = .send req → ∃ p ∈ P.pids, req = P.request p
  taken : ∀ m ∈ s.taken, ∃ p ∈ P.pids, m = P.request p
  answered : ∀ a ∈ s.answered, ∃ p ∈ P.pids, a.req = P.request p
  received : ∀ p n, (p, n) ∈ s.received → ⟨P.request p, n⟩ ∈ s.answered

theorem inv_start (P : Clients) : Inv P start where
  running := fun stopped => nomatch stopped
  distinct := List.nodup_nil
  waiting := fun _ =>
    ⟨fun member => (List.not_mem_nil member).elim, fun waits => nomatch waits.2⟩
  fresh := fun _ => rfl
  meant := fun _ member => (List.not_mem_nil member).elim
  held := fun _ pc => nomatch pc
  taken := fun _ member => (List.not_mem_nil member).elim
  answered := fun _ member => (List.not_mem_nil member).elim
  received := fun _ _ member => (List.not_mem_nil member).elim

/-- A client that owns nothing goes on, and still waits for nothing. -/
theorem Inv.move (inv : Inv P s) {pc : ClientPc} (before : p ∉ s.owners)
    (after : pc ≠ .receive) : Inv P (s.move p pc) where
  running := inv.running
  distinct := inv.distinct
  waiting := by
    intro q
    by_cases here : q = p
    · subst here
      rw [System.move_same]
      exact ⟨fun member => absurd member before, fun waits => absurd waits.2 after⟩
    · rw [System.move_other s pc here]
      exact inv.waiting q
  fresh := inv.fresh
  meant := inv.meant
  held := inv.held
  taken := inv.taken
  answered := inv.answered
  received := inv.received

theorem Inv.create (inv : Inv P s) (pc : s.server = .get) : Inv P s.create := by
  have owners : s.create.owners = s.owners := by
    rw [System.owners, System.owners, pc]
    rfl
  exact {
    running := fun stopped => nomatch stopped
    distinct := owners ▸ inv.distinct
    waiting := owners ▸ inv.waiting
    fresh := fun unlinked => nomatch unlinked
    meant := inv.meant
    held := fun _ pc => nomatch pc
    taken := inv.taken
    answered := inv.answered
    received := inv.received }

/-- The server takes a request out of the queue. -/
theorem Inv.take (above : ∀ p ∈ P.pids, 1 < p.toInt) (inv : Inv P s) {req : Message}
    {rest : List Message} (pc : s.server = .receive)
    (received : TypedQueue.receive Message.mtype 1 s.queue = some (req, rest)) :
    Inv P (s.take req rest) := by
  have perm := TypedQueue.receive_perm received
  have owners : s.owners.Perm (s.take req rest).owners := by
    rw [System.owners, pc]
    exact perm.map _
  have request : ∃ p ∈ P.pids, req = P.request p :=
    (inv.meant req (perm.mem_iff.mpr (List.mem_cons_self ..))).of_one above
      (TypedQueue.receive_kind received)
  exact {
    running := fun stopped => nomatch stopped
    distinct := owners.nodup_iff.mp inv.distinct
    waiting := fun p => owners.mem_iff.symm.trans (inv.waiting p)
    fresh := fun unlinked => List.nil_perm.mp (inv.fresh unlinked ▸ owners)
    meant := fun m member => inv.meant m (perm.mem_iff.mpr (List.mem_cons_of_mem _ member))
    held := fun other same => ServerPc.send.inj same ▸ request
    taken := by
      intro m member
      rcases List.mem_append.mp member with old | new
      · exact inv.taken m old
      · exact List.mem_singleton.mp new ▸ request
    answered := inv.answered
    received := inv.received }

/-- The server answers the request that it holds. -/
theorem Inv.respond (above : ∀ p ∈ P.pids, 1 < p.toInt) (inv : Inv P s) {req : Message}
    (padding : CInt) (pc : s.server = .send req) : Inv P (s.respond req padding) := by
  obtain ⟨p, among, rfl⟩ := inv.held req pc
  have owners : s.owners.Perm (s.respond (P.request p) padding).owners := by
    show List.Perm _ ((s.queue ++ [(P.request p).response s.seqNum padding]).map Message.owner)
    rw [System.owners, pc, List.map_append, List.map_append, List.map_singleton,
      owner_response (above p among).ne']
    exact List.perm_append_comm
  exact {
    running := fun stopped => nomatch stopped
    distinct := owners.nodup_iff.mp inv.distinct
    waiting := fun p => owners.mem_iff.symm.trans (inv.waiting p)
    fresh := fun unlinked => List.nil_perm.mp (inv.fresh unlinked ▸ owners)
    meant := by
      intro m member
      rcases List.mem_append.mp member with old | new
      · exact (inv.meant m old).append _
      · rw [List.mem_singleton.mp new]
        exact .response among (List.mem_append_right _ (List.mem_singleton_self _))
    held := fun _ pc => nomatch pc
    taken := inv.taken
    answered := by
      intro a member
      rcases List.mem_append.mp member with old | new
      · exact inv.answered a old
      · exact ⟨p, among, by rw [List.mem_singleton.mp new]⟩
    received := fun p n member => List.mem_append_left _ (inv.received p n member) }

/-- A client sends its request and waits. -/
theorem Inv.request (inv : Inv P s) (among : p ∈ P.pids) (pc : s.client p = .send)
    (linked : s.linked = true) : Inv P (s.request P p) := by
  have owners : (s.request P p).owners.Perm (p :: s.owners) := by
    show List.Perm ((s.server.held ++ (s.queue ++ [P.request p])).map Message.owner) _
    rw [← List.append_assoc, List.map_append, List.map_singleton, owner_request]
    exact List.perm_append_comm
  have before : p ∉ s.owners := fun member =>
    nomatch pc.symm.trans ((inv.waiting p).mp member).2
  exact {
    running := inv.running
    distinct := owners.nodup_iff.mpr (List.nodup_cons.mpr ⟨before, inv.distinct⟩)
    waiting := by
      intro q
      rw [owners.mem_iff, List.mem_cons]
      by_cases here : q = p
      · subst here
        exact ⟨fun _ => ⟨among, System.move_same ..⟩, fun _ => Or.inl rfl⟩
      · have same : (s.request P p).client q = s.client q := System.move_other s _ here
        rw [same, ← inv.waiting q]
        exact ⟨fun member => member.resolve_left here, Or.inr⟩
    fresh := fun unlinked => nomatch linked.symm.trans unlinked
    meant := by
      intro m member
      rcases List.mem_append.mp member with old | new
      · exact inv.meant m old
      · exact List.mem_singleton.mp new ▸ .request among
    held := inv.held
    taken := inv.taken
    answered := inv.answered
    received := inv.received }

/-- A client receives its response. -/
theorem Inv.finish (above : ∀ p ∈ P.pids, 1 < p.toInt) (inv : Inv P s) (among : p ∈ P.pids)
    {resp : Message} {rest : List Message} (linked : s.linked = true)
    (received : TypedQueue.receive Message.mtype p.toInt s.queue = some (resp, rest)) :
    Inv P (s.finish p resp rest) := by
  have perm := TypedQueue.receive_perm received
  obtain ⟨owner, answered⟩ :=
    (inv.meant resp (perm.mem_iff.mpr (List.mem_cons_self ..))).of_pid above among
      (TypedQueue.receive_kind received)
  have owners : s.owners.Perm (p :: (s.finish p resp rest).owners) := by
    show List.Perm ((s.server.held ++ s.queue).map Message.owner)
      (p :: (s.server.held ++ rest).map Message.owner)
    rw [← owner, ← List.map_cons]
    exact ((perm.append_left _).trans List.perm_middle).map _
  obtain ⟨after, distinct⟩ := List.nodup_cons.mp (owners.nodup_iff.mp inv.distinct)
  exact {
    running := inv.running
    distinct := distinct
    waiting := by
      intro q
      by_cases here : q = p
      · subst here
        have gone : (s.finish q resp rest).client q = .gone := System.move_same ..
        rw [gone]
        exact ⟨fun member => absurd member after, fun waits => nomatch waits.2⟩
      · have same : (s.finish p resp rest).client q = s.client q := System.move_other s _ here
        rw [same, ← inv.waiting q, owners.mem_iff, List.mem_cons]
        exact ⟨Or.inr, fun member => member.resolve_left here⟩
    fresh := fun unlinked => nomatch linked.symm.trans unlinked
    meant := fun m member => inv.meant m (perm.mem_iff.mpr (List.mem_cons_of_mem _ member))
    held := inv.held
    taken := inv.taken
    answered := inv.answered
    received := by
      intro q n member
      rcases List.mem_append.mp member with old | new
      · exact inv.received q n old
      · obtain ⟨rfl, rfl⟩ := Prod.mk.inj (List.mem_singleton.mp new)
        exact answered }

theorem inv_stepped (above : ∀ p ∈ P.pids, 1 < p.toInt) (inv : Inv P s)
    (stepped : Stepped P capacity s t) : Inv P t := by
  cases stepped with
  | create pc => exact inv.create pc
  | take pc received => exact inv.take above pc received
  | stop pc invalid =>
      obtain ⟨p, among, rfl⟩ := inv.held _ pc
      exact absurd invalid (Int.not_lt.mpr (above p among).le)
  | respond padding pc valid room => exact inv.respond above padding pc
  | enter among pc linked =>
      refine inv.move (fun member => ?_) (fun same => nomatch same)
      exact nomatch pc.symm.trans ((inv.waiting _).mp member).2
  | leave among removed =>
      refine inv.move (fun member => ?_) (fun same => nomatch same)
      rw [inv.fresh removed] at member
      exact List.not_mem_nil member
  | request among pc linked room => exact inv.request among pc linked
  | finish among pc linked received => exact inv.finish above among linked received

theorem inv_run (above : ∀ p ∈ P.pids, 1 < p.toInt) {actions : List Action}
    (ran : run (step P capacity) start actions = some s) : Inv P s :=
  run_invariant (fun inv taken => inv_stepped above inv (stepped taken)) (inv_start P) ran

end LinuxExercises.MessageQueue
