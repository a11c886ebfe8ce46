import LinuxExercises.MessageQueue.Owners

/-!
# The full queue

The server answers into the queue from which it takes its requests. While it holds one
request, the clients may fill the queue with others. Then it waits for room in the queue,
which only it could make, and the clients wait for their responses or for room as well.

This needs one request in the hands of the server and a queue full of others, hence more
clients than the queue holds messages. With so many clients it does happen, with fewer it
never does (`neverStuck_iff`).
-/

set_option autoImplicit false

namespace LinuxExercises.MessageQueue

open Foundations

/-- A client waits in `msgsnd` or in `msgrcv`. -/
def System.Waits (P : Clients) (s : System) : Prop :=
  ∃ p ∈ P.pids, s.client p = .send ∨ s.client p = .receive

/-- No state that can be reached is stuck while a client waits. -/
def NeverStuck (P : Clients) (capacity : Nat) : Prop :=
  ∀ actions s, run (step P capacity) start actions = some s → s.Waits P →
    ∃ a t, step P capacity s a = some t

variable {P : Clients} {capacity : Nat} {s : System} {p : CInt}

/-! ## Few clients -/

/-- Every message under way belongs to another client. -/
theorem Inv.owners_le (inv : Inv P s) : s.owners.length ≤ P.pids.card := by
  rw [← List.toFinset_card_of_nodup inv.distinct]
  refine Finset.card_le_card fun p member => ?_
  exact ((inv.waiting p).mp (List.mem_toFinset.mp member)).1

/-- A client that waits goes on when there is room, or when its response is there. -/
theorem client_steps (among : p ∈ P.pids)
    (ready : s.linked = false ∧ (s.client p = .send ∨ s.client p = .receive) ∨
      s.client p = .send ∧ s.queue.length < capacity ∨
      s.client p = .receive ∧ ∃ m ∈ s.queue, m.mtype = p.toInt) :
    ∃ t, step P capacity s (.client p) = some t := by
  refine Option.isSome_iff_exists.mp ?_
  rw [step, if_pos among, System.stepClient]
  cases linked : s.linked with
  | false =>
      rcases ready with ⟨-, pc | pc⟩ | ⟨pc, -⟩ | ⟨pc, -⟩ <;> rw [pc] <;> rfl
  | true =>
      rcases ready with ⟨unlinked, -⟩ | ⟨pc, room⟩ | ⟨pc, m, member, type⟩
      · cases linked.symm.trans unlinked
      · rw [pc]
        dsimp only
        rw [if_pos rfl, TypedQueue.send_of_lt room]
        rfl
      · rw [pc]
        dsimp only
        rw [if_pos rfl, Option.isSome_map]
        exact TypedQueue.receive_isSome member type

/-- Someone can go on while there are no more clients than messages fit into the queue. -/
theorem Inv.progress (above : ∀ p ∈ P.pids, 1 < p.toInt) (inv : Inv P s) (room : 1 ≤ capacity)
    (few : P.pids.card ≤ capacity) (waits : s.Waits P) : ∃ a t, step P capacity s a = some t := by
  obtain ⟨p, among, pc⟩ := waits
  cases linked : s.linked with
  | false => exact ⟨_, client_steps among (Or.inl ⟨linked, pc⟩)⟩
  | true =>
      cases server : s.server with
      | get => exact ⟨.server 0, s.create, by rw [step, System.stepServer, server]⟩
      | stopped => exact absurd server inv.running
      | send req =>
          obtain ⟨q, known, rfl⟩ := inv.held req server
          have free : s.queue.length < capacity := by
            have owned := inv.owners_le
            rw [System.owners, server, ServerPc.held, List.length_map, List.length_append,
              List.length_singleton] at owned
            omega
          have valid : ¬ q.toInt < 1 := Int.not_lt.mpr (above q known).le
          refine ⟨.server 0, s.respond (P.request q) 0, ?_⟩
          rw [step, System.stepServer, server]
          dsimp only
          rw [if_neg (show ¬ ((P.request q).response s.seqNum 0).mtype < 1 from valid),
            TypedQueue.send_of_lt free]
          rfl
      | receive =>
          by_cases asked : ∃ m ∈ s.queue, m.mtype = 1
          · obtain ⟨m, member, one⟩ := asked
            refine ⟨.server 0, Option.isSome_iff_exists.mp ?_⟩
            rw [step, System.stepServer, server, Option.isSome_map]
            exact TypedQueue.receive_isSome member one
          · have owners : s.owners = s.queue.map Message.owner := by
              rw [System.owners, server]
              rfl
            cases queue : s.queue with
            | nil =>
                -- nothing is under way, so nobody waits for a response
                have idle : p ∉ s.owners := by
                  rw [owners, queue]
                  exact List.not_mem_nil
                rcases pc with sends | receives
                · refine ⟨_, client_steps among (Or.inr (Or.inl ⟨sends, ?_⟩))⟩
                  rw [queue]
                  exact room
                · exact absurd ((inv.waiting p).mpr ⟨among, receives⟩) idle
            | cons m rest =>
                have member : m ∈ s.queue := queue ▸ List.mem_cons_self ..
                cases inv.meant m member with
                | request _ => exact absurd ⟨_, member, rfl⟩ asked
                | @response q seqNum padding known _ =>
                    have owned : q ∈ s.owners := by
                      rw [owners, ← owner_response (above q known).ne']
                      exact List.mem_map_of_mem member
                    refine ⟨_, client_steps known (Or.inr (Or.inr ⟨?_, _, member, rfl⟩))⟩
                    exact ((inv.waiting q).mp owned).2

/-! ## Many clients -/

/-- A full queue of requests, with the server holding one more. -/
theorem stuck_of_full (above : ∀ p ∈ P.pids, 1 < p.toInt) {req : Message}
    (pc : s.server = .send req) (valid : 1 ≤ req.first.toInt) (linked : s.linked = true)
    (full : capacity ≤ s.queue.length) (requests : ∀ m ∈ s.queue, m.mtype = 1)
    (clients : ∀ p ∈ P.pids, s.client p = .send ∨ s.client p = .receive) (a : Action) :
    step P capacity s a = none := by
  cases a with
  | server padding =>
      rw [step, System.stepServer, pc]
      dsimp only
      rw [if_neg (show ¬ (req.response s.seqNum padding).mtype < 1 from Int.not_lt.mpr valid),
        TypedQueue.send_of_le full]
      rfl
  | client p =>
      rw [step]
      split
      · rename_i among
        rw [System.stepClient]
        rcases clients p among with sends | receives
        · rw [sends]
          dsimp only
          rw [if_pos linked, TypedQueue.send_of_le full]
          rfl
        · rw [receives]
          dsimp only
          rw [if_pos linked, TypedQueue.receive_eq_none]
          · rfl
          · exact fun m member same => (above p among).ne ((requests m member).symm.trans same)
      · rfl

/-- Clients that find the queue come to their `msgsnd`. -/
theorem enter_all {ps : List CInt} (distinct : ps.Nodup) (among : ∀ p ∈ ps, p ∈ P.pids)
    (pc : ∀ p ∈ ps, s.client p = .get) (linked : s.linked = true) :
    ∃ t, run (step P capacity) s (ps.map Action.client) = some t ∧ t.server = s.server ∧
      t.linked = true ∧ t.queue = s.queue ∧ (∀ p ∈ ps, t.client p = .send) ∧
      ∀ q ∉ ps, t.client q = s.client q := by
  induction ps generalizing s with
  | nil => exact ⟨s, rfl, rfl, linked, rfl, fun _ member => (List.not_mem_nil member).elim,
      fun _ _ => rfl⟩
  | cons p rest ih =>
      obtain ⟨apart, distinct⟩ := List.nodup_cons.mp distinct
      have first : step P capacity s (.client p) = some (s.move p .send) := by
        rw [step, if_pos (among p (List.mem_cons_self ..)), System.stepClient,
          pc p (List.mem_cons_self ..), linked]
        rfl
      have still : ∀ q ∈ rest, (s.move p .send).client q = .get := by
        intro q member
        rw [System.move_other s _ fun same : q = p => apart (same ▸ member)]
        exact pc q (List.mem_cons_of_mem _ member)
      obtain ⟨t, ran, server, made, queue, sends, others⟩ :=
        ih distinct (fun q member => among q (List.mem_cons_of_mem _ member)) still linked
      refine ⟨t, run_step first ran, server, made, queue, ?_, ?_⟩
      · intro q member
        rcases List.mem_cons.mp member with rfl | later
        · rw [others q apart, System.move_same]
        · exact sends q later
      · intro q outside
        obtain ⟨other, later⟩ := List.ne_and_not_mem_of_not_mem_cons outside
        rw [others q later, System.move_other s _ other]

/-- Clients send their requests while there is room. -/
theorem request_all {ps : List CInt} (distinct : ps.Nodup) (among : ∀ p ∈ ps, p ∈ P.pids)
    (pc : ∀ p ∈ ps, s.client p = .send) (linked : s.linked = true)
    (room : s.queue.length + ps.length ≤ capacity) :
    ∃ t, run (step P capacity) s (ps.map Action.client) = some t ∧ t.server = s.server ∧
      t.linked = true ∧ t.queue = s.queue ++ ps.map P.request ∧
      (∀ p ∈ ps, t.client p = .receive) ∧ ∀ q ∉ ps, t.client q = s.client q := by
  induction ps generalizing s with
  | nil => exact ⟨s, rfl, rfl, linked, (List.append_nil _).symm,
      fun _ member => (List.not_mem_nil member).elim, fun _ _ => rfl⟩
  | cons p rest ih =>
      obtain ⟨apart, distinct⟩ := List.nodup_cons.mp distinct
      rw [List.length_cons] at room
      have first : step P capacity s (.client p) = some (s.request P p) := by
        rw [step, if_pos (among p (List.mem_cons_self ..)), System.stepClient,
          pc p (List.mem_cons_self ..)]
        dsimp only
        rw [if_pos linked, TypedQueue.send_of_lt (by omega)]
        rfl
      have still : ∀ q ∈ rest, (s.request P p).client q = .send := by
        intro q member
        have same : (s.request P p).client q = s.client q :=
          System.move_other s _ fun same : q = p => apart (same ▸ member)
        exact same.trans (pc q (List.mem_cons_of_mem _ member))
      have fits : (s.request P p).queue.length + rest.length ≤ capacity := by
        show (s.queue ++ [P.request p]).length + rest.length ≤ capacity
        rw [List.length_append, List.length_singleton]
        omega
      obtain ⟨t, ran, server, made, queue, receives, others⟩ :=
        ih distinct (fun q member => among q (List.mem_cons_of_mem _ member)) still linked fits
      refine ⟨t, run_step first ran, server, made, ?_, ?_, ?_⟩
      · rw [queue, List.map_cons, List.append_cons]
        rfl
      · intro q member
        rcases List.mem_cons.mp member with rfl | later
        · exact (others q apart).trans (System.move_same ..)
        · exact receives q later
      · intro q outside
        obtain ⟨other, later⟩ := List.ne_and_not_mem_of_not_mem_cons outside
        exact (others q later).trans (System.move_other s _ other)

/-- One client asks, the server takes the request, and the others fill the queue. -/
theorem stuck_of_many (above : ∀ p ∈ P.pids, 1 < p.toInt) (room : 1 ≤ capacity)
    (many : capacity < P.pids.card) :
    ∃ actions s, run (step P capacity) start actions = some s ∧ s.Waits P ∧
      ∀ a, step P capacity s a = none := by
  obtain ⟨p, others, pids⟩ : ∃ p others, P.pids.toList = p :: others := by
    refine List.exists_cons_of_ne_nil fun empty => ?_
    rw [← Finset.length_toList, empty] at many
    exact absurd many (Nat.not_lt_zero _)
  have distinct : (p :: others).Nodup := pids ▸ P.pids.nodup_toList
  have known : ∀ q ∈ p :: others, q ∈ P.pids := fun q member =>
    Finset.mem_toList.mp (pids ▸ member)
  have enough : capacity ≤ others.length := by
    rw [← Finset.length_toList, pids, List.length_cons] at many
    omega
  obtain ⟨apart, distinctOthers⟩ := List.nodup_cons.mp distinct
  have created : run (step P capacity) start [.server 0] = some start.create := rfl
  obtain ⟨s₁, ran₁, server₁, linked₁, queue₁, sends₁, -⟩ :=
    @enter_all P capacity start.create _ distinct known (fun _ _ => rfl) rfl
  obtain ⟨s₂, ran₂, server₂, linked₂, queue₂, receives₂, others₂⟩ :=
    @request_all P capacity s₁ [p] (List.nodup_singleton p)
      (fun q member => known q (List.mem_singleton.mp member ▸ List.mem_cons_self ..))
      (fun q member => sends₁ q (List.mem_singleton.mp member ▸ List.mem_cons_self ..)) linked₁
      (by rw [queue₁]; exact room)
  have queued : s₂.queue = [P.request p] := by
    rw [queue₂, queue₁]
    rfl
  have takes : run (step P capacity) s₂ [.server 0] = some (s₂.take (P.request p) []) := by
    have pc : s₂.server = .receive := server₂.trans server₁
    rw [run_cons, step, System.stepServer, pc, queued]
    rfl
  have inside : ∀ q ∈ others.take capacity, q ∈ others := fun q => List.mem_of_mem_take
  have still : ∀ q ∈ others, s₂.client q = .send := by
    intro q member
    have other : q ∉ [p] := fun same => apart (List.mem_singleton.mp same ▸ member)
    rw [others₂ q other]
    exact sends₁ q (List.mem_cons_of_mem _ member)
  obtain ⟨s₃, ran₃, server₃, linked₃, queue₃, receives₃, others₃⟩ :=
    @request_all P capacity (s₂.take (P.request p) []) (others.take capacity)
      (distinctOthers.sublist (List.take_sublist ..))
      (fun q member => known q (List.mem_cons_of_mem _ (inside q member)))
      (fun q member => still q (inside q member)) linked₂
      (by rw [List.length_take]; exact (Nat.zero_add _).trans_le (min_le_left _ _))
  have first : s₃.client p = .receive := by
    rw [others₃ p fun member => apart (inside p member)]
    exact receives₂ p (List.mem_singleton_self p)
  have among : p ∈ P.pids := known p (List.mem_cons_self ..)
  refine ⟨_, s₃, run_append created (run_append ran₁ (run_append ran₂ (run_append takes ran₃))),
    ⟨p, among, Or.inr first⟩, ?_⟩
  refine stuck_of_full above server₃ (above p among).le linked₃ ?_ ?_ ?_
  · rw [queue₃, List.length_append, List.length_map, List.length_take]
    exact (le_min le_rfl enough).trans (Nat.le_add_left ..)
  · rw [queue₃]
    intro m member
    obtain ⟨q, -, rfl⟩ := List.mem_map.mp member
    rfl
  · intro q member
    rcases List.mem_cons.mp (pids ▸ Finset.mem_toList.mpr member : q ∈ p :: others) with rfl | rest
    · exact Or.inr first
    · by_cases chosen : q ∈ others.take capacity
      · exact Or.inr (receives₃ q chosen)
      · rw [others₃ q chosen]
        exact Or.inl (still q rest)

/-- **When the queue cannot deadlock.** The server and its clients never get stuck exactly
when there are no more clients than messages fit into the queue. -/
theorem neverStuck_iff (above : ∀ p ∈ P.pids, 1 < p.toInt) (room : 1 ≤ capacity) :
    NeverStuck P capacity ↔ P.pids.card ≤ capacity := by
  constructor
  · intro never
    refine Nat.not_lt.mp fun many => ?_
    obtain ⟨actions, s, ran, waits, stuck⟩ := stuck_of_many above room many
    obtain ⟨a, t, taken⟩ := never actions s ran waits
    exact nomatch (stuck a).symm.trans taken
  · exact fun few actions s ran waits => (inv_run above ran).progress above room few waits

theorem positive_pair : ∀ p ∈ ({2, 3} : Finset CInt), 0 < p.toInt := by simp

/-- Two clients. -/
def pair : Clients where
  pids := {2, 3}
  seqLen := fun _ => 1
  positive := positive_pair

theorem neverStuck_pair : NeverStuck pair 2 :=
  (neverStuck_iff (by simp [pair]) (by decide)).mpr (by decide)

/-- The server has taken the request of client 2 when client 3 sends its own. -/
def pairActions : List Action :=
  [.server 0, .client 2, .client 3, .client 2, .server 0, .client 3]

theorem stuck_pair :
    ∃ s, run (step pair 1) start pairActions = some s ∧ s.Waits pair ∧
      (∀ a, step pair 1 s a = none) ∧ ¬ NeverStuck pair 1 := by
  have reaches : (run (step pair 1) start pairActions).map
      (fun s => (s.server, s.linked, s.queue, s.client 2, s.client 3)) =
        some (.send (pair.request 2), true, [pair.request 3], .receive, .receive) := by
    decide +kernel
  obtain ⟨s, ran, same⟩ := Option.map_eq_some_iff.mp reaches
  obtain ⟨server, linked, queue, second, third⟩ := by simpa only [Prod.mk.injEq] using same
  have waits : s.Waits pair := ⟨2, by decide, Or.inr second⟩
  have stuck : ∀ a, step pair 1 s a = none := by
    refine stuck_of_full (by simp [pair]) server (by decide) linked (by rw [queue]; rfl) ?_ ?_
    · rw [queue]
      exact fun m member => by rw [List.mem_singleton.mp member]; rfl
    · intro p member
      rcases Finset.mem_insert.mp member with rfl | member
      · exact Or.inr second
      · exact Or.inr (Finset.mem_singleton.mp member ▸ third)
  refine ⟨s, ran, waits, stuck, fun never => ?_⟩
  obtain ⟨a, t, taken⟩ := never _ s ran waits
  exact nomatch (stuck a).symm.trans taken

end LinuxExercises.MessageQueue
