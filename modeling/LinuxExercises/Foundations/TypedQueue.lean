import Mathlib.Data.List.Perm.Basic

/-!
# Queues of typed messages

A System V message queue holds messages of a type each, in the order they were sent. The
room in it is bounded: a sender waits when the queue is full. A receiver asks for a type
and takes the oldest message of that type, or waits while there is none.

What waits in the queue is followed up to its order, in which a message that is received
is no longer there (`receive_perm`).
-/

set_option autoImplicit false

namespace LinuxExercises.Foundations.TypedQueue

variable {Message Kind : Type*} [DecidableEq Kind] (type : Message → Kind)

/-- `msgsnd`, when there is room. -/
def send (capacity : Nat) (queue : List Message) (message : Message) : Option (List Message) :=
  if queue.length < capacity then some (queue ++ [message]) else none

/-- `msgrcv` of a type, when there is a message of it. -/
def receive (kind : Kind) (queue : List Message) : Option (Message × List Message) :=
  (queue.find? fun message => type message = kind).map fun message =>
    (message, queue.eraseP fun message => type message = kind)

variable {type} {capacity : Nat} {kind : Kind} {queue rest : List Message} {message : Message}

theorem send_eq_some (sent : send capacity queue message = some rest) :
    queue.length < capacity ∧ rest = queue ++ [message] := by
  rw [send] at sent
  split at sent
  · rename_i room
    exact ⟨room, (Option.some.inj sent).symm⟩
  · exact nomatch sent

theorem send_of_lt (room : queue.length < capacity) :
    send capacity queue message = some (queue ++ [message]) := if_pos room

theorem send_of_le (full : capacity ≤ queue.length) : send capacity queue message = none :=
  if_neg (Nat.not_lt.mpr full)

/-- Nobody receives a type of which there is no message. -/
theorem receive_eq_none (others : ∀ m ∈ queue, type m ≠ kind) : receive type kind queue = none := by
  rw [receive, List.find?_eq_none.mpr fun m member => by simpa using others m member]
  rfl

/-- Where there is a message of the type, one is received. -/
theorem receive_isSome (member : message ∈ queue) (kinds : type message = kind) :
    (receive type kind queue).isSome := by
  rw [receive, Option.isSome_map, List.find?_isSome]
  exact ⟨message, member, decide_eq_true kinds⟩

/-- A message that is received has the type asked for and is the oldest of it. -/
theorem receive_eq_some (received : receive type kind queue = some (message, rest)) :
    type message = kind ∧ ∃ older newer, queue = older ++ message :: newer ∧
      rest = older ++ newer ∧ ∀ m ∈ older, type m ≠ kind := by
  obtain ⟨found, oldest, same⟩ := Option.map_eq_some_iff.mp received
  obtain ⟨rfl, rfl⟩ := Prod.mk.inj same
  obtain ⟨kinds, older, newer, split, others⟩ := List.find?_eq_some_iff_append.mp oldest
  have apart : ∀ m ∈ older, type m ≠ kind := fun m member => by simpa using others m member
  refine ⟨of_decide_eq_true kinds, older, newer, split, ?_, apart⟩
  rw [split, List.eraseP_append_right _ (by simpa using apart)]
  exact congrArg (older ++ ·) (List.eraseP_cons_of_pos kinds)

theorem receive_kind (received : receive type kind queue = some (message, rest)) :
    type message = kind :=
  (receive_eq_some received).1

/-- **What is received is no longer in the queue.** -/
theorem receive_perm (received : receive type kind queue = some (message, rest)) :
    queue.Perm (message :: rest) := by
  obtain ⟨-, older, newer, rfl, rfl, -⟩ := receive_eq_some received
  exact List.perm_middle

end LinuxExercises.Foundations.TypedQueue
