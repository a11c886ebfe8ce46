import LinuxExercises.FifoServer.Grants

/-!
# The ranges of the clients

Every number that a client prints is the start of its grant, and grants are disjoint. The
lengths of all clients add up to less than `2 ^ 31`, so the counter never overflows
(`Inv.total_lt`) and a grant can be read off the printed `int`.

In every run the printed ranges are disjoint, and each begins at the sum of the lengths of
the requests before it whose FIFO the server could open (`ranges_of_run`).
-/

set_option autoImplicit false

namespace LinuxExercises.FifoServer

open Foundations

namespace System

variable {P : Population} {s : System}

/-! ## The counter -/

theorem seqLen_lt {p : Nat} (among : p ∈ P.pids) : P.seqLen p < 2 ^ 31 :=
  lt_of_le_of_lt (Finset.single_le_sum (fun _ _ => Nat.zero_le _) among) P.bounded

theorem length_request {p : Nat} (among : p ∈ P.pids) :
    Handled.length ⟨P.request p, true⟩ = P.seqLen p :=
  (toInt_ofNat_of_lt (seqLen_lt among)).1

theorem Inv.known_handled (inv : Inv P s) {h : Handled} (member : h ∈ s.handled) :
    h.req.pid ∈ P.pids ∧ h.req = P.request h.req.pid := by
  have inside : h.req ∈ s.requests :=
    List.mem_append_left _ (List.mem_map_of_mem member)
  exact ⟨(inv.known _ inside).1, (inv.known _ inside).2.1⟩

theorem Inv.handled_distinct (inv : Inv P s) :
    (s.handled.map fun h => h.req.pid).Nodup := by
  have all := inv.distinct
  rw [System.requests, List.map_append, List.map_map] at all
  exact all.of_append_left

/-- **The counter never overflows.** -/
theorem Inv.total_lt (inv : Inv P s) : total Handled.length s.handled < 2 ^ 31 := by
  refine lt_of_le_of_lt (total_le_sum _ inv.handled_distinct ?_ ?_) P.bounded
  · exact fun h member => (inv.known_handled member).1
  · intro h member
    obtain ⟨among, same⟩ := inv.known_handled member
    rw [Handled.length]
    split
    · rw [same]
      exact (toInt_ofNat_of_lt (seqLen_lt among)).1.le
    · exact Nat.zero_le _

/-! ## The printed ranges -/

/-- The requests dealt with before that of client `p`. -/
def earlier (s : System) (p : Nat) : List Handled :=
  s.handled.takeWhile fun h => h.req.pid ≠ p

/-- The sum of `seqLen` over the requests whose FIFO the server could open. -/
def openedSum (handled : List Handled) : Int :=
  ((handled.filter Handled.opened).map fun h => h.req.seqLen.toInt).sum

/-- What the clients have printed. -/
structure Ranges (P : Population) (s : System) : Prop where
  disjoint : ∀ p q m n, (p, m) ∈ s.printed → (q, n) ∈ s.printed → p ≠ q →
    Disjoint (Set.Ico m.toInt (m.toInt + P.seqLen p)) (Set.Ico n.toInt (n.toInt + P.seqLen q))
  value : ∀ p n, (p, n) ∈ s.printed →
    ⟨P.request p, true⟩ ∈ s.handled ∧ n.toInt = openedSum (s.earlier p)

/-- What is granted to opened requests is the sum of their lengths. -/
theorem openedSum_eq {handled : List Handled}
    (signed : ∀ h ∈ handled, h.req.seqLen.toInt = h.req.seqLen.toNat) :
    openedSum handled = (total Handled.length handled : Nat) := by
  induction handled with
  | nil => rfl
  | cons h rest ih =>
      have tail := ih fun g member => signed g (List.mem_cons_of_mem _ member)
      have head := signed h (List.mem_cons_self ..)
      rw [total_cons, Nat.cast_add, ← tail, Handled.length, openedSum, openedSum]
      cases opened : h.opened with
      | false => rw [List.filter_cons_of_neg (by rw [opened]; decide), if_neg (by decide)]; simp
      | true =>
          rw [List.filter_cons_of_pos opened, List.map_cons, List.sum_cons, head, if_pos rfl]

/-- The requests before that of a client are those before its grant. -/
theorem Inv.earlier_eq (inv : Inv P s) {p : Nat} {before after : List Handled}
    (split : s.handled = before ++ ⟨P.request p, true⟩ :: after) : s.earlier p = before := by
  have distinct := inv.handled_distinct
  rw [split, List.map_append, List.map_cons] at distinct
  have others : ∀ h ∈ before, decide (h.req.pid ≠ p) = true := by
    intro h member
    refine decide_eq_true fun same => ?_
    exact (List.disjoint_of_nodup_append distinct) (List.mem_map_of_mem member)
      (same ▸ List.mem_cons_self ..)
  rw [earlier, split, List.takeWhile_append_of_pos others,
    List.takeWhile_cons_of_neg (by simp [Clients.request]), List.append_nil]

/-- A number under way to a client is the sum of the lengths opened before. -/
theorem Inv.value (inv : Inv P s) {p : Nat} {n : CInt} (underWay : s.UnderWay p n) :
    ⟨P.request p, true⟩ ∈ s.handled ∧ n.toInt = openedSum (s.earlier p) := by
  obtain ⟨begin, granted, rfl⟩ := inv.granted p n underWay
  have small : begin < 2 ^ 31 := by
    have within := granted.end_le_total
    have total := inv.total_lt
    omega
  refine ⟨granted.mem, ?_⟩
  obtain ⟨before, after, split, rfl⟩ := granted
  rw [inv.earlier_eq split, (toInt_ofNat_of_lt small).2, openedSum_eq]
  intro h member
  obtain ⟨among, same⟩ := inv.known_handled (split ▸ List.mem_append_left _ member)
  rw [same]
  have bounds := toInt_ofNat_of_lt (seqLen_lt among)
  exact bounds.2.trans (congrArg Int.ofNat bounds.1).symm

/-- Numbers under way to different clients begin disjoint ranges. -/
theorem Inv.disjoint (inv : Inv P s) {p q : Nat} {m n : CInt} (first : s.UnderWay p m)
    (second : s.UnderWay q n) (different : p ≠ q) :
    Disjoint (Set.Ico m.toInt (m.toInt + P.seqLen p))
      (Set.Ico n.toInt (n.toInt + P.seqLen q)) := by
  obtain ⟨begin, granted, rfl⟩ := inv.granted p m first
  obtain ⟨begin', granted', rfl⟩ := inv.granted q n second
  have apart := granted.disjoint_int inv.total_lt granted' fun same =>
    different (congrArg (fun h : Handled => h.req.pid) same)
  have among : p ∈ P.pids := (inv.known_handled granted.mem).1
  have among' : q ∈ P.pids := (inv.known_handled granted'.mem).1
  rwa [length_request among, length_request among'] at apart

/-- **Disjoint ranges.** However the server, its failures and the clients interleave, the
ranges of the clients that print are disjoint, and each begins at the sum of the lengths
of the earlier requests whose FIFO the server could open. -/
theorem ranges_of_run {mode : Mode} {actions : List Action} {s : System}
    (ran : run (step P mode) start actions = some s) : Ranges P s where
  disjoint := fun _ _ _ _ first second different =>
    (inv_run ran).disjoint (Or.inr (Or.inr first)) (Or.inr (Or.inr second)) different
  value := fun _ _ printed => (inv_run ran).value (Or.inr (Or.inr printed))

/-- Two clients that print, and one that the server gives up. -/
def three : Population where
  pids := {2, 3, 4}
  kind := fun p => if p = 4 then .malicious else .client
  seqLen := fun p => p
  positive := by decide
  bounded := by decide

/-- Client 2 is answered, the FIFO of client 4 cannot be opened, and client 3 is answered. -/
def threeActions : List Action :=
  [.server, .server, .client 2, .client 2, .server, .server, .server, .client 2, .client 2,
    .server, .server, .server, .server, .client 2, .client 2, .client 2,
    .client 4, .client 4, .client 4, .server, .serverFails,
    .client 3, .client 3, .client 3, .client 3, .server, .server, .server, .server,
    .client 3, .client 3, .client 3]

theorem ranges_of_run_three :
    ∃ s, run (step three .block) start threeActions = some s ∧
      s.printed = [(2, 0), (3, 2)] ∧ Ranges three s := by
  have prints : (run (step three .block) start threeActions).map System.printed =
      some [(2, 0), (3, 2)] := by decide +kernel
  obtain ⟨s, ran, printed⟩ := Option.map_eq_some_iff.mp prints
  exact ⟨s, ran, printed, ranges_of_run ran⟩

end System

end LinuxExercises.FifoServer
