import Mathlib
import LinuxExercises.Foundations.Allocation
import LinuxExercises.MessageQueue.Owners

/-!
# The ranges of the clients

The server answers every client at most once and counts what it has granted
(`Granting`). When no client has pid 1, it takes only requests, every client receives the
answer to its own request, and the ranges of the clients are disjoint
(`sequences_of_run`). To a client with pid 1 the response has the type of a request, and
the server may take it for one (`own_response_one`).
-/

set_option autoImplicit false

namespace LinuxExercises.MessageQueue

open Foundations

/-- What the server should have taken, and the clients received. -/
structure Sequences (P : Clients) (s : System) : Prop where
  taken : ∀ m ∈ s.taken, ∃ p ∈ P.pids, m = P.request p
  response : ∀ p n, (p, n) ∈ s.received → ⟨P.request p, n⟩ ∈ s.answered
  disjoint : ∀ p q m n, (p, m) ∈ s.received → (q, n) ∈ s.received → p ≠ q →
    Disjoint (Set.Ico m.toInt (m.toInt + P.seqLen p)) (Set.Ico n.toInt (n.toInt + P.seqLen q))

/-! ## The counter -/

/-- By how much an answer moves the counter. -/
def Answer.length (a : Answer) : Nat := a.req.second.toNat

/-- The requests in the queue. -/
def requests (queue : List Message) : List Message := queue.filter fun m => m.mtype = 1

/-- All requests so far: those the server has answered, the one that it holds, and those in
the queue. -/
def System.asked (s : System) : List Message :=
  s.answered.map Answer.req ++ (s.server.held ++ requests s.queue)

/-- Every client asks once, and the counter is what has been granted. -/
structure Granting (s : System) : Prop where
  once : (s.asked.map Message.first).Nodup
  sent : ∀ m ∈ s.asked, s.client m.first = .receive ∨ s.client m.first = .gone
  counted : s.seqNum = BitVec.ofNat 32 (total Answer.length s.answered)
  granted : ∀ a ∈ s.answered, ∃ begin,
    GrantedAt Answer.length s.answered a begin ∧ a.seqNum = BitVec.ofNat 32 begin

theorem granting_start : Granting start where
  once := List.nodup_nil
  sent := fun _ member => (List.not_mem_nil member).elim
  counted := rfl
  granted := fun _ member => (List.not_mem_nil member).elim

variable {P : Clients} {capacity : Nat} {s t : System} {p : CInt}

/-- No request is new, and the answers are the same. -/
theorem Granting.keep (granting : Granting s) (asked : t.asked.Sublist s.asked ∨
      s.asked.Perm t.asked)
    (sent : ∀ q, s.client q = .receive ∨ s.client q = .gone →
      t.client q = .receive ∨ t.client q = .gone)
    (answered : t.answered = s.answered) (seqNum : t.seqNum = s.seqNum) : Granting t where
  once := by
    rcases asked with fewer | same
    · exact granting.once.sublist (fewer.map _)
    · exact (same.map _).nodup_iff.mp granting.once
  sent := by
    intro m member
    rcases asked with fewer | same
    · exact sent _ (granting.sent m (fewer.subset member))
    · exact sent _ (granting.sent m (same.mem_iff.mpr member))
  counted := by rw [answered, seqNum, granting.counted]
  granted := answered ▸ granting.granted

theorem requests_take {req : Message} {rest : List Message}
    (received : TypedQueue.receive Message.mtype 1 s.queue = some (req, rest)) :
    (requests s.queue).Perm (req :: requests rest) := by
  have kept : requests (req :: rest) = req :: requests rest :=
    List.filter_cons_of_pos (decide_eq_true (TypedQueue.receive_kind received))
  exact kept ▸ (TypedQueue.receive_perm received).filter _

theorem requests_finish {resp : Message} {rest : List Message} {type : Int} (other : type ≠ 1)
    (received : TypedQueue.receive Message.mtype type s.queue = some (resp, rest)) :
    (requests s.queue).Perm (requests rest) := by
  have dropped : requests (resp :: rest) = requests rest :=
    List.filter_cons_of_neg fun one =>
      other ((TypedQueue.receive_kind received).symm.trans (of_decide_eq_true one))
  exact dropped ▸ (TypedQueue.receive_perm received).filter _

/-- The server answers the request that it holds, and the counter moves on. -/
theorem Granting.respond (granting : Granting s) {req : Message} (padding : CInt)
    (pc : s.server = .send req) (above : req.first.toInt ≠ 1) :
    Granting (s.respond req padding) := by
  have none : requests [req.response s.seqNum padding] = [] :=
    List.filter_eq_nil_iff.mpr fun m member => by
      rw [List.mem_singleton.mp member]
      exact fun one => above (of_decide_eq_true one)
  have asked : (s.respond req padding).asked = s.asked := by
    show (s.answered ++ [(⟨req, s.seqNum⟩ : Answer)]).map Answer.req ++
      ([] ++ requests (s.queue ++ [req.response s.seqNum padding])) = _
    rw [System.asked, pc, requests, List.filter_append]
    change _ ++ ([] ++ (requests s.queue ++ requests [req.response s.seqNum padding])) = _
    rw [none, List.map_append, List.append_nil, List.nil_append, List.append_assoc]
    rfl
  refine ⟨asked ▸ granting.once, asked ▸ granting.sent, ?_, ?_⟩
  · show s.seqNum + req.second =
      BitVec.ofNat 32 (total Answer.length (s.answered ++ [⟨req, s.seqNum⟩]))
    have length : total Answer.length [⟨req, s.seqNum⟩] = req.second.toNat := rfl
    rw [total_append, length, BitVec.ofNat_add, BitVec.ofNat_toNat, BitVec.setWidth_eq,
      ← granting.counted]
  · intro a member
    rcases List.mem_append.mp member with old | new
    · obtain ⟨begin, granted, value⟩ := granting.granted a old
      exact ⟨begin, granted.append _, value⟩
    · rw [List.mem_singleton.mp new]
      exact ⟨_, GrantedAt.last .., granting.counted⟩

/-- A client asks for the first time. -/
theorem Granting.request (granting : Granting s) (pc : s.client p = .send) :
    Granting (s.request P p) := by
  have asked : (s.request P p).asked = s.asked ++ [P.request p] := by
    show _ ++ (_ ++ requests (s.queue ++ [P.request p])) = _
    rw [System.asked, requests, List.filter_append, List.append_assoc, List.append_assoc]
    rfl
  have fresh : p ∉ s.asked.map Message.first := by
    intro member
    obtain ⟨m, inside, rfl⟩ := List.mem_map.mp member
    rcases granting.sent m inside with waits | gone
    · exact nomatch pc.symm.trans waits
    · exact nomatch pc.symm.trans gone
  refine ⟨?_, ?_, granting.counted, granting.granted⟩
  · rw [asked, List.map_append]
    exact List.Nodup.append granting.once (List.nodup_singleton _)
      (List.disjoint_singleton.mpr fresh)
  · intro m member
    by_cases here : m.first = p
    · rw [here]
      exact Or.inl (System.move_same ..)
    · have same : (s.request P p).client m.first = s.client m.first := System.move_other s _ here
      rw [same]
      rw [asked] at member
      rcases List.mem_append.mp member with old | new
      · exact granting.sent m old
      · exact absurd (congrArg Message.first (List.mem_singleton.mp new)) here

/-- A client that goes on has not taken its request back. -/
theorem sent_move {pc : ClientPc} (before : s.client p ≠ .receive ∧ s.client p ≠ .gone ∨ pc = .gone)
    (q : CInt) (sent : s.client q = .receive ∨ s.client q = .gone) :
    (s.move p pc).client q = .receive ∨ (s.move p pc).client q = .gone := by
  by_cases here : q = p
  · subst here
    rw [System.move_same]
    rcases before with ⟨notReceive, notGone⟩ | gone
    · exact sent.elim (fun same => absurd same notReceive) (fun same => absurd same notGone)
    · exact Or.inr gone
  · rwa [System.move_other s pc here]

theorem granting_stepped (above : ∀ p ∈ P.pids, 1 < p.toInt) (inv : Inv P s)
    (granting : Granting s) (stepped : Stepped P capacity s t) : Granting t := by
  cases stepped with
  | create pc =>
      refine granting.keep (Or.inl ?_) (fun _ sent => sent) rfl rfl
      rw [System.asked, System.asked, pc]
      exact List.Sublist.refl _
  | take pc received =>
      refine granting.keep (Or.inr ?_) (fun _ sent => sent) rfl rfl
      rw [System.asked, System.asked, pc]
      exact (requests_take received).append_left _
  | stop pc invalid =>
      refine granting.keep (Or.inl ?_) (fun _ sent => sent) rfl rfl
      exact (List.Sublist.refl _).append (List.nil_sublist _)
  | @respond req padding pc valid room =>
      obtain ⟨p, among, rfl⟩ := inv.held req pc
      exact granting.respond padding pc (above p among).ne'
  | enter among pc linked =>
      refine granting.keep (Or.inl (List.Sublist.refl _)) (sent_move (Or.inl ?_)) rfl rfl
      rw [pc]
      decide
  | leave among removed =>
      exact granting.keep (Or.inl (List.Sublist.refl _)) (sent_move (Or.inr rfl)) rfl rfl
  | request among pc linked room => exact granting.request pc
  | finish among pc linked received =>
      refine granting.keep (Or.inr ?_) (sent_move (Or.inr rfl)) rfl rfl
      exact ((requests_finish (above _ among).ne' received).append_left _).append_left _

/-! ## What the clients receive -/

variable {P : Population}

theorem seqLen_lt (among : p ∈ P.pids) : P.seqLen p < 2 ^ 31 :=
  lt_of_le_of_lt (Finset.single_le_sum (fun _ _ => Nat.zero_le _) among) P.bounded

theorem length_request {n : CInt} (among : p ∈ P.pids) :
    Answer.length ⟨P.request p, n⟩ = P.seqLen p :=
  (toInt_ofNat_of_lt (seqLen_lt among)).1

/-- **The counter never overflows.** -/
theorem Granting.total_lt (granting : Granting s) (inv : Inv P s) :
    total Answer.length s.answered < 2 ^ 31 := by
  have once : (s.answered.map fun a => a.req.first).Nodup := by
    have all := granting.once
    rw [System.asked, List.map_append, List.map_map] at all
    exact all.of_append_left
  refine lt_of_le_of_lt (total_le_sum _ once ?_ ?_) P.bounded
  · intro a member
    obtain ⟨p, among, same⟩ := inv.answered a member
    rwa [same]
  · intro a member
    obtain ⟨p, among, same⟩ := inv.answered a member
    rw [Answer.length, same]
    exact (toInt_ofNat_of_lt (seqLen_lt among)).1.le

/-- The ranges of two answers are disjoint. -/
theorem Granting.disjoint (granting : Granting s) (inv : Inv P s) {q m n : CInt}
    (first : ⟨P.request p, m⟩ ∈ s.answered) (second : ⟨P.request q, n⟩ ∈ s.answered)
    (different : p ≠ q) :
    Disjoint (Set.Ico m.toInt (m.toInt + P.seqLen p))
      (Set.Ico n.toInt (n.toInt + P.seqLen q)) := by
  obtain ⟨begin, granted, value⟩ := granting.granted _ first
  obtain ⟨begin', granted', value'⟩ := granting.granted _ second
  have apart := granted.disjoint_int (granting.total_lt inv) granted' fun same =>
    different (congrArg (fun a : Answer => a.req.first) same)
  have known (r k : CInt) (member : ⟨P.request r, k⟩ ∈ s.answered) : r ∈ P.pids := by
    obtain ⟨r', among, same⟩ := inv.answered _ member
    have pid : r = r' := congrArg Message.first same
    rwa [pid]
  rw [length_request (known p m first), length_request (known q n second)] at apart
  dsimp only at value value'
  rwa [value, value']

/-- The invariants together hold after every run. -/
theorem granting_run (above : ∀ p ∈ P.pids, 1 < p.toInt) {actions : List Action}
    (ran : run (step P capacity) start actions = some s) : Inv P s ∧ Granting s :=
  @run_invariant _ _ _ (fun s => Inv P s ∧ Granting s)
    (fun kept taken => ⟨inv_stepped above kept.1 (stepped taken),
      granting_stepped above kept.1 kept.2 (stepped taken)⟩)
    _ _ _ ⟨inv_start P, granting_start⟩ ran

/-- **The clients' ranges.** When no client has pid 1, the server takes only requests, every
client that receives gets the answer to its own request, and the ranges of two clients are
disjoint. -/
theorem sequences_of_run (above : ∀ p ∈ P.pids, 1 < p.toInt) {actions : List Action}
    {s : System} (ran : run (step P capacity) start actions = some s) : Sequences P s := by
  obtain ⟨inv, granting⟩ := granting_run above ran
  exact {
    taken := inv.taken
    response := inv.received
    disjoint := fun p q m n first second different =>
      granting.disjoint inv (inv.received p m first) (inv.received q n second) different }

/-- Two clients. -/
def two : Population where
  pids := {2, 3}
  seqLen := fun p => p.toNat
  positive := by simp
  lengths := by simp
  bounded := by decide +kernel

/-- Both requests and both responses wait in the queue together. -/
def twoActions : List Action :=
  [.server 0, .client 2, .client 3, .client 2, .client 3, .server 0, .server 7, .server 0,
    .server 7, .client 3, .client 2]

theorem sequences_of_run_two :
    ∃ s, run (step two 2) start twoActions = some s ∧ s.received = [(3, 2), (2, 0)] ∧
      Sequences two s := by
  have receives : (run (step two 2) start twoActions).map System.received =
      some [(3, 2), (2, 0)] := by decide +kernel
  obtain ⟨s, ran, received⟩ := Option.map_eq_some_iff.mp receives
  exact ⟨s, ran, received, sequences_of_run (by simp [two]) ran⟩

/-- A client with pid 1. -/
def init : Population where
  pids := {1}
  seqLen := fun _ => 5
  positive := by simp
  lengths := by simp
  bounded := by decide +kernel

/-- The server answers the request and takes its own response for the next one. -/
def initActions : List Action :=
  [.server 0, .client 1, .client 1, .server 0, .server 7, .server 0]

theorem own_response_one :
    ∃ s, run (step init 1) start initActions = some s ∧ ⟨1, 0, 7⟩ ∈ s.taken ∧
      ¬ Sequences init s := by
  have takes : (run (step init 1) start initActions).map System.taken =
      some [init.request 1, ⟨1, 0, 7⟩] := by decide +kernel
  obtain ⟨s, ran, taken⟩ := Option.map_eq_some_iff.mp takes
  have member : ⟨1, 0, 7⟩ ∈ s.taken := taken ▸ List.mem_cons_of_mem _ (List.mem_cons_self ..)
  refine ⟨s, ran, member, fun sequences => ?_⟩
  obtain ⟨p, among, same⟩ := sequences.taken _ member
  have own : (0 : CInt) = p := congrArg Message.first same
  rw [← own] at among
  exact absurd among (by decide +kernel)

end LinuxExercises.MessageQueue
