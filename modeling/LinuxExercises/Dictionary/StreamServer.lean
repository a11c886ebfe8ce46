import LinuxExercises.Dictionary.StreamProtocol

/-!
# The stream server and all its clients

The server of the dictionary accepts a connection, forks a child that has the dialogue with this
client, and accepts the next one. Clients connect at any time; a connection waits until it is
accepted, and its client may already write.

A child has nothing to do with the others: what happens on its connection is a run of this
connection alone, and requests and replies pair up on it as soon as its own reads are whole,
whatever happens on the other connections (`isolated_of_run`).

The parent never waits for a child, so that a child that has ended still counts as a process of the
user. When there are as many children as the user may have, alive or not, the next `fork` fails,
and this ends the server. So the server accepts so many connections and one more, ever, even when
all its clients have long gone (`stopped_iff_of_run`).
-/

set_option autoImplicit false

namespace LinuxExercises.Dictionary

open Foundations

/-! ## The system -/

/-- Where the parent is: in `accept`, before `fork` with a connection, or at its end. -/
inductive Parent where
  | accepting
  | forking
  | stopped
deriving Repr, DecidableEq

/-- The connections that clients have made, in their order. The first ones have been accepted, and
the first of these have a child. -/
structure StreamServer where
  parent : Parent
  connections : List Connection
  accepted : Nat
  children : Nat

/-- A step that the server's side of a connection takes. -/
def Connection.Action.ofServer : Connection.Action → Bool
  | .serverRead _ => true
  | .serverEnd => true
  | .answer _ _ => true
  | .abandon => true
  | _ => false

namespace StreamServer

/-- Behind `listen`. -/
def start : StreamServer where
  parent := .accepting
  connections := []
  accepted := 0
  children := 0

/-- What happens next. -/
inductive Action where
  /-- A client connects. -/
  | connect
  /-- `accept` returns the connection that has waited longest. -/
  | accept
  | acceptFails
  /-- The parent calls `fork`, and closes the connection when it succeeds. -/
  | fork
  /-- Something happens on a connection. -/
  | talk (i : Nat) (a : Connection.Action)
deriving DecidableEq

/-- The parent exits. This closes the connections that have no child. -/
def stop (s : StreamServer) : StreamServer :=
  { s with
    parent := .stopped
    connections := s.connections.mapIdx fun i c =>
      if i < s.children then c else { c with server := .gone } }

/-- One step, when the user may have so many children. The record of the server is not initialised
when a child gets it. -/
def step (limit : Nat) (uninitialised : Dictrec) (s : StreamServer) :
    Action → Option StreamServer
  | .connect =>
    if s.parent = .stopped then none
    else some { s with connections := s.connections ++ [.start uninitialised] }
  | .accept =>
    if s.parent = .accepting ∧ s.accepted < s.connections.length then
      some { s with parent := .forking, accepted := s.accepted + 1 }
    else none
  | .acceptFails => if s.parent = .accepting then some s.stop else none
  | .fork =>
    if s.parent = .forking then
      if s.children < limit then
        some { s with parent := .accepting, children := s.children + 1 }
      else some s.stop
    else none
  | .talk i a =>
    if a.ofServer = true ∧ s.children ≤ i then none
    else
      match s.connections[i]? with
      | none => none
      | some c => (c.step a).map fun c => { s with connections := s.connections.set i c }

/-- Everything that a step can do. -/
inductive Stepped (limit : Nat) (uninitialised : Dictrec) (s : StreamServer) :
    Action → StreamServer → Prop
  | connect (going : s.parent ≠ .stopped) :
      Stepped limit uninitialised s .connect
        { s with connections := s.connections ++ [.start uninitialised] }
  | accept (accepting : s.parent = .accepting) (waiting : s.accepted < s.connections.length) :
      Stepped limit uninitialised s .accept
        { s with parent := .forking, accepted := s.accepted + 1 }
  | acceptFails (accepting : s.parent = .accepting) :
      Stepped limit uninitialised s .acceptFails s.stop
  | forked (forking : s.parent = .forking) (few : s.children < limit) :
      Stepped limit uninitialised s .fork
        { s with parent := .accepting, children := s.children + 1 }
  | forkFails (forking : s.parent = .forking) (many : limit ≤ s.children) :
      Stepped limit uninitialised s .fork s.stop
  | talk {i : Nat} {a : Connection.Action} {c d : Connection}
      (child : a.ofServer = true → i < s.children) (found : s.connections[i]? = some c)
      (taken : c.step a = some d) :
      Stepped limit uninitialised s (.talk i a)
        { s with connections := s.connections.set i d }

variable {limit : Nat} {uninitialised : Dictrec} {s t : StreamServer}

theorem stepped {a : Action} (taken : step limit uninitialised s a = some t) :
    Stepped limit uninitialised s a t := by
  cases a with
  | connect =>
      rw [step] at taken
      split at taken <;> cases taken
      next going => exact .connect going
  | accept =>
      rw [step] at taken
      split at taken <;> cases taken
      next enabled => exact .accept enabled.1 enabled.2
  | acceptFails =>
      rw [step] at taken
      split at taken <;> cases taken
      next accepting => exact .acceptFails accepting
  | fork =>
      rw [step] at taken
      split at taken
      next forking =>
        split at taken <;> cases taken
        next few => exact .forked forking few
        next many => exact .forkFails forking (Nat.le_of_not_lt many)
      next => cases taken
  | talk i a =>
      rw [step] at taken
      split at taken
      next => cases taken
      next allowed =>
        split at taken
        next => cases taken
        next c found =>
          obtain ⟨d, moved, rfl⟩ := Option.map_eq_some_iff.mp taken
          exact .talk (fun ofServer => Nat.lt_of_not_le fun early => allowed ⟨ofServer, early⟩)
            found moved

/-! ## The parent -/

/-- How the numbers of connections agree with where the parent is. -/
structure Counted (limit : Nat) (s : StreamServer) : Prop where
  few : s.children ≤ limit
  accepting : s.parent = .accepting → s.accepted = s.children
  forking : s.parent = .forking → s.accepted = s.children + 1
  stopped : s.parent = .stopped → s.accepted = limit + 1

theorem counted_start (limit : Nat) : Counted limit start where
  few := Nat.zero_le limit
  accepting := fun _ => rfl
  forking := nofun
  stopped := nofun

theorem Counted.step {a : Action} (accepts : a ≠ .acceptFails) (counted : Counted limit s)
    (taken : step limit uninitialised s a = some t) : Counted limit t := by
  cases stepped taken with
  | connect => exact { counted with }
  | accept accepting =>
      exact ⟨counted.few, nofun, fun _ => congrArg (· + 1) (counted.accepting accepting), nofun⟩
  | acceptFails => exact absurd rfl accepts
  | forked forking few => exact ⟨few, fun _ => counted.forking forking, nofun, nofun⟩
  | forkFails forking many =>
      have accepted := counted.forking forking
      have few := counted.few
      refine ⟨few, nofun, nofun, fun _ => ?_⟩
      change s.accepted = limit + 1
      omega
  | talk => exact { counted with }

/-- Nothing has been looked up for the clients that have no child. -/
def Unserved (s : StreamServer) : Prop :=
  ∀ i c, s.children ≤ i → s.connections[i]? = some c → c.served = []

/-- The client's steps add nothing to what has been looked up. -/
theorem served_of_client {a : Connection.Action} {c d : Connection} (client : a.ofServer = false)
    (taken : c.step a = some d) : d.served = c.served := by
  cases Connection.stepped taken with
  | send => rfl
  | receive => rfl
  | receiveEnd => rfl
  | quit => rfl
  | serverRead => cases client
  | serverEnd => cases client
  | answer => cases client
  | abandon => cases client

/-- A list and one element more at a place. -/
theorem getElem?_concat {α : Type} {all : List α} {last x : α} {i : Nat}
    (found : (all ++ [last])[i]? = some x) :
    all[i]? = some x ∨ i = all.length ∧ x = last := by
  rcases Nat.lt_trichotomy i all.length with inside | rfl | beyond
  · rw [List.getElem?_append_left inside] at found
    exact .inl found
  · rw [List.getElem?_concat_length] at found
    exact .inr ⟨rfl, (Option.some.inj found).symm⟩
  · rw [List.getElem?_eq_none (by rw [List.length_append, List.length_singleton]; omega)] at found
    cases found

theorem getElem?_stop (s : StreamServer) (i : Nat) :
    s.stop.connections[i]? = s.connections[i]?.map fun c =>
      if i < s.children then c else { c with server := .gone } :=
  List.getElem?_mapIdx ..

theorem Unserved.stop (unserved : Unserved s) : Unserved s.stop := by
  intro i c behind found
  rw [getElem?_stop] at found
  obtain ⟨before, was, rfl⟩ := Option.map_eq_some_iff.mp found
  have none := unserved i before behind was
  split
  · exact none
  · exact none

theorem Unserved.step {a : Action} (unserved : Unserved s)
    (taken : step limit uninitialised s a = some t) : Unserved t := by
  cases stepped taken with
  | connect =>
      intro i c behind found
      rcases getElem?_concat found with old | ⟨-, rfl⟩
      · exact unserved i c behind old
      · rfl
  | accept => exact unserved
  | acceptFails => exact unserved.stop
  | forked => exact fun i c behind found => unserved i c (Nat.le_of_succ_le behind) found
  | forkFails => exact unserved.stop
  | @talk j b c d child found moved =>
      intro i e behind here
      by_cases same : j = i
      · subst same
        have inside := (List.getElem?_eq_some_iff.mp found).1
        rw [List.getElem?_set_self inside] at here
        cases here
        have client : b.ofServer = false :=
          Bool.eq_false_iff.mpr fun server => Nat.not_lt_of_le behind (child server)
        rw [served_of_client client moved]
        exact unserved j c behind found
      · rw [List.getElem?_set_ne same] at here
        exact unserved i e behind here

/-- **The last connection.** Whatever the clients do and whether they are gone, when `accept` does
not fail, no more clients are served than the user may have children, and the server has stopped
once it has accepted one more. -/
theorem stopped_iff_of_run {actions : List Action} (accepts : ∀ a ∈ actions, a ≠ .acceptFails)
    (ran : run (step limit uninitialised) start actions = some s) :
    s.children ≤ limit ∧ Unserved s ∧
      (s.parent ≠ .forking → (s.parent = .stopped ↔ s.accepted = limit + 1)) := by
  have counted := run_invariant_of (fun accepts counted taken => Counted.step accepts counted taken)
    accepts (counted_start limit) ran
  have unserved := run_invariant (fun unserved taken => Unserved.step unserved taken)
    (show Unserved start from fun i c _ found => by cases found) ran
  refine ⟨counted.few, unserved, fun atCall => ⟨counted.stopped, fun accepted => ?_⟩⟩
  have few := counted.few
  cases parent : s.parent with
  | accepting =>
      have equal := counted.accepting parent
      omega
  | forking => exact absurd parent atCall
  | stopped => rfl

/-- The user may have one child. The first client is served and gone when the second one comes. -/
def oneAfterTheOther : List Action :=
  [.connect, .accept, .fork, .talk 0 .quit, .talk 0 .serverEnd, .connect, .accept, .fork]

theorem stopped_iff_oneAfterTheOther :
    ∃ s, run (step 1 (.ofString _ [])) start oneAfterTheOther = some s ∧
      s.parent = .stopped ∧ s.children ≤ 1 ∧ Unserved s ∧
      (s.parent ≠ .forking → (s.parent = .stopped ↔ s.accepted = 1 + 1)) := by
  have ends : (run (step 1 (.ofString _ [])) start oneAfterTheOther).map StreamServer.parent =
      some .stopped := by decide +kernel
  obtain ⟨s, ran, stopped⟩ := Option.map_eq_some_iff.mp ends
  exact ⟨s, ran, stopped, stopped_iff_of_run (by decide) ran⟩

/-! ## The connections -/

/-- What happens on a connection. -/
def Action.on (i : Nat) : Action → List Connection.Action
  | .talk j a => if j = i then [a] else []
  | _ => []

/-- The connections with a child have been accepted, and those that have been accepted are there. -/
structure Placed (s : StreamServer) : Prop where
  children : s.children ≤ s.accepted
  forking : s.parent = .forking → s.children < s.accepted
  accepted : s.accepted ≤ s.connections.length

theorem placed_start : Placed start where
  children := Nat.le_refl 0
  forking := nofun
  accepted := Nat.le_refl 0

theorem Placed.stop (placed : Placed s) : Placed s.stop where
  children := placed.children
  forking := nofun
  accepted := by
    rw [StreamServer.stop, List.length_mapIdx]
    exact placed.accepted

theorem Placed.step {a : Action} (placed : Placed s)
    (taken : step limit uninitialised s a = some t) : Placed t := by
  cases stepped taken with
  | connect =>
      refine { placed with accepted := ?_ }
      rw [List.length_append]
      exact Nat.le_add_right_of_le placed.accepted
  | accept _ waiting =>
      exact ⟨Nat.le_succ_of_le placed.children, fun _ => Nat.lt_succ_of_le placed.children, waiting⟩
  | acceptFails => exact placed.stop
  | forked forking => exact ⟨placed.forking forking, nofun, placed.accepted⟩
  | forkFails => exact placed.stop
  | talk =>
      refine { placed with accepted := ?_ }
      rw [List.length_set]
      exact placed.accepted

/-- A connection has come to where it is by what happened on it. -/
structure Alone (uninitialised : Dictrec) (i : Nat) (history : List Connection.Action)
    (s : StreamServer) : Prop where
  early : s.connections.length ≤ i → history = []
  ran : ∀ c, s.connections[i]? = some c → i < s.children ∨ s.parent ≠ .stopped →
    run Connection.step (.start uninitialised) history = some c

variable {i : Nat} {history : List Connection.Action}

theorem alone_start (uninitialised : Dictrec) (i : Nat) : Alone uninitialised i [] start where
  early := fun _ => rfl
  ran := nofun

theorem Alone.stop (alone : Alone uninitialised i history s) (going : s.parent ≠ .stopped) :
    Alone uninitialised i history s.stop where
  early := by
    intro late
    rw [StreamServer.stop, List.length_mapIdx] at late
    exact alone.early late
  ran := by
    intro c found served
    rw [getElem?_stop] at found
    obtain ⟨before, was, rfl⟩ := Option.map_eq_some_iff.mp found
    rcases served with child | alive
    · have child : i < s.children := child
      rw [if_pos child]
      exact alone.ran before was (.inr going)
    · exact absurd rfl alive

/-- A client connects. -/
theorem Alone.connect (alone : Alone uninitialised i history s) (going : s.parent ≠ .stopped) :
    Alone uninitialised i history
      { s with connections := s.connections ++ [.start uninitialised] } where
  early := by
    intro late
    rw [List.length_append] at late
    exact alone.early (Nat.le_of_add_right_le late)
  ran := by
    intro c found _
    rcases getElem?_concat found with old | ⟨rfl, rfl⟩
    · exact alone.ran c old (.inr going)
    · rw [alone.early (Nat.le_refl _)]
      rfl

/-- Something happens on a connection. -/
theorem Alone.talk (alone : Alone uninitialised i history s) {j : Nat} {a : Connection.Action}
    {c d : Connection} (found : s.connections[j]? = some c) (moved : c.step a = some d) :
    Alone uninitialised i (history ++ Action.on i (.talk j a))
      { s with connections := s.connections.set j d } := by
  have inside := (List.getElem?_eq_some_iff.mp found).1
  by_cases same : j = i
  · subst same
    rw [Action.on, if_pos rfl]
    refine ⟨fun late => ?_, fun e here served => ?_⟩
    · rw [List.length_set] at late
      exact absurd inside (Nat.not_lt_of_le late)
    · rw [List.getElem?_set_self inside] at here
      cases here
      exact run_append (alone.ran c found served) (run_step moved (run_nil _ _))
  · rw [Action.on, if_neg same, List.append_nil]
    refine ⟨fun late => ?_, fun e here served => ?_⟩
    · rw [List.length_set] at late
      exact alone.early late
    · rw [List.getElem?_set_ne same] at here
      exact alone.ran e here served

theorem Alone.step {a : Action} (alone : Alone uninitialised i history s ∧ Placed s)
    (taken : step limit uninitialised s a = some t) :
    Alone uninitialised i (history ++ a.on i) t ∧ Placed t := by
  refine ⟨?_, alone.2.step taken⟩
  have quiet : ∀ {b : Action}, b.on i = [] → Alone uninitialised i history t →
      Alone uninitialised i (history ++ b.on i) t := by
    intro b none holds
    rw [none, List.append_nil]
    exact holds
  cases stepped taken with
  | connect going => exact quiet rfl (alone.1.connect going)
  | accept accepting =>
      refine quiet rfl ⟨alone.1.early, fun c found _ => alone.1.ran c found (.inr ?_)⟩
      rw [accepting]
      exact nofun
  | acceptFails accepting => exact quiet rfl (alone.1.stop (by rw [accepting]; exact nofun))
  | forked forking =>
      refine quiet rfl ⟨alone.1.early, fun c found _ => alone.1.ran c found (.inr ?_)⟩
      rw [forking]
      exact nofun
  | forkFails forking => exact quiet rfl (alone.1.stop (by rw [forking]; exact nofun))
  | talk _ found moved => exact alone.1.talk found moved

/-- **Each client for itself.** In every run a connection that has a child is where it would be if
only what happened on it had happened. When the reads on it are whole, its requests, lookups,
replies and results pair up, whatever happens on the others. -/
theorem isolated_of_run {actions : List Action}
    (ran : run (step limit uninitialised) start actions = some s) (served : i < s.children) :
    ∃ c, s.connections[i]? = some c ∧
      run Connection.step (.start uninitialised) (actions.flatMap (Action.on i)) = some c ∧
      ((∀ a ∈ actions.flatMap (Action.on i), Connection.Whole a) → c.Paired) := by
  obtain ⟨alone, placed⟩ : Alone uninitialised i ([] ++ actions.flatMap (Action.on i)) s ∧
      Placed s :=
    @run_history _ _ (step limit uninitialised) _
      (fun history s => Alone uninitialised i history s ∧ Placed s) (Action.on i) (fun _ => True)
      (fun _ alone taken => Alone.step alone taken) _ _ _ _ (fun _ _ => trivial)
      ⟨alone_start uninitialised i, placed_start⟩ ran
  have inside : i < s.connections.length :=
    Nat.lt_of_lt_of_le served (Nat.le_trans placed.children placed.accepted)
  have own := alone.ran _ (List.getElem?_eq_getElem inside) (.inl served)
  refine ⟨_, List.getElem?_eq_getElem inside, own, fun whole => ?_⟩
  obtain ⟨turn, stage⟩ := run_invariant_of Connection.atTurn_step whole
    ⟨.idle, Connection.atTurn_start uninitialised⟩ own
  exact stage.paired

/-- Two clients. The request of the first one is read in pieces, that of the second one is not. -/
def twoAtOnce : List Action :=
  [.connect, .connect, .talk 1 (.send (.ofString _ [97])), .accept, .fork,
    .talk 0 (.send (.ofString _ [98])), .talk 0 (.serverRead 1), .accept,
    .talk 0 (.answer .notFound (.ofString _ [98])), .fork, .talk 1 (.serverRead 512),
    .talk 0 (.serverRead 511), .talk 1 (.answer .notFound (.ofString _ [97])),
    .talk 1 (.receive 512)]

theorem isolated_twoAtOnce :
    ∃ s, run (step 2 (.ofString _ [])) start twoAtOnce = some s ∧
      ∃ c, s.connections[1]? = some c ∧
        run Connection.step (.start (.ofString _ [])) (twoAtOnce.flatMap (Action.on 1)) = some c ∧
        ((∀ a ∈ twoAtOnce.flatMap (Action.on 1), Connection.Whole a) → c.Paired) := by
  have serves : (run (step 2 (.ofString _ [])) start twoAtOnce).map StreamServer.children =
      some 2 := by decide +kernel
  obtain ⟨s, ran, children⟩ := Option.map_eq_some_iff.mp serves
  exact ⟨s, ran, isolated_of_run ran (by rw [children]; decide)⟩

end StreamServer

end LinuxExercises.Dictionary
