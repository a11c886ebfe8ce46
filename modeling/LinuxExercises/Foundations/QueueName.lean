import Mathlib.Data.List.Perm.Basic

/-!
# Queues behind a name

The name of a POSIX message queue leads to a queue. Opening the name with `O_CREAT` gives
the queue it leads to, or a new one when it leads nowhere. Unlinking the name leaves the
queue to those who have it open, so that later openers of the name get another one. Queues
are numbered in the order in which they are created.

All messages have the same priority, so a queue is first in, first out. Over all queues
that have been behind the name, a send adds its message to those that wait and a receive
takes its message away (`send_messages`, `receive_messages`).

A name is tidy when nothing waits in the queues it has led to before. It stays tidy when only the
queue it leads to is used, and when it is unlinked while nothing waits (`Tidy`).
-/

set_option autoImplicit false

namespace LinuxExercises.Foundations

/-- The queue that a name leads to, and all queues it has led to. -/
structure QueueName (Message : Type*) where
  linked : Option Nat
  queues : List (List Message)

namespace QueueName

variable {Message : Type*}

/-- The name leads nowhere and never has. -/
def absent : QueueName Message where
  linked := none
  queues := []

/-- The queue behind `mq_open(.., O_CREAT | O_RDWR)`. -/
def descriptor (name : QueueName Message) : Nat := name.linked.getD name.queues.length

/-- What `mq_open(.., O_CREAT | O_RDWR)` leaves. -/
def create (name : QueueName Message) : QueueName Message :=
  match name.linked with
  | some _ => name
  | none => { linked := some name.queues.length, queues := name.queues ++ [[]] }

/-- `mq_unlink`. -/
def unlink (name : QueueName Message) : QueueName Message := { name with linked := none }

/-- `mq_send`, when there is room in the queue. -/
def send (capacity : Nat) (name : QueueName Message) (q : Nat) (message : Message) :
    Option (QueueName Message) :=
  match name.queues[q]? with
  | none => none
  | some waiting =>
      if waiting.length < capacity then
        some { name with queues := name.queues.set q (waiting ++ [message]) }
      else none

/-- `mq_receive`, when there is a message in the queue. -/
def receive (name : QueueName Message) (q : Nat) : Option (Message × QueueName Message) :=
  match name.queues[q]? with
  | some (message :: rest) => some (message, { name with queues := name.queues.set q rest })
  | _ => none

/-- All messages that wait. -/
def messages (name : QueueName Message) : List Message := name.queues.flatten

variable {name after : QueueName Message} {message : Message} {q capacity : Nat}

@[simp] theorem create_messages (name : QueueName Message) :
    name.create.messages = name.messages := by
  unfold create
  split
  · rfl
  · rw [messages, List.flatten_append]
    exact List.append_nil _

/-- An opened name leads to the queue that has been opened. -/
theorem create_linked (name : QueueName Message) : name.create.linked = some name.descriptor := by
  rw [create, descriptor]
  split
  · rename_i linked
    rw [linked]
    rfl
  · rename_i linked
    rw [linked]
    rfl

theorem create_linked_of (linked : name.linked = some q) : name.create.linked = some q := by
  rw [create_linked, descriptor, linked]
  rfl

/-- A queue among its neighbours. -/
theorem split_queues {waiting : List Message} (found : name.queues[q]? = some waiting) :
    ∃ before others, name.queues = before ++ waiting :: others ∧
      ∀ later, name.queues.set q later = before ++ later :: others := by
  obtain ⟨inside, same⟩ := List.getElem?_eq_some_iff.mp found
  refine ⟨name.queues.take q, name.queues.drop (q + 1), ?_, ?_⟩
  · rw [← same, ← List.drop_eq_getElem_cons inside, List.take_append_drop]
  · exact fun later => by rw [List.set_eq_take_append_cons_drop, if_pos inside]

/-- **A send adds its message.** -/
theorem send_messages (sent : name.send capacity q message = some after) :
    after.messages.Perm (message :: name.messages) := by
  unfold send at sent
  split at sent
  · exact nomatch sent
  · rename_i waiting found
    split at sent
    · obtain rfl := Option.some.inj sent
      obtain ⟨before, others, queues, set⟩ := split_queues found
      rw [messages, messages, set, queues, List.flatten_append, List.flatten_append,
        List.flatten_cons, List.flatten_cons, List.append_assoc]
      refine (List.Perm.append_left _ ?_).trans List.perm_middle
      exact List.perm_middle
    · exact nomatch sent

/-- **A receive takes its message away.** -/
theorem receive_messages (received : name.receive q = some (message, after)) :
    name.messages.Perm (message :: after.messages) := by
  unfold receive at received
  split at received
  · rename_i first rest found
    obtain ⟨rfl, rfl⟩ := Prod.mk.inj (Option.some.inj received)
    obtain ⟨before, others, queues, set⟩ := split_queues found
    rw [messages, messages, set, queues, List.flatten_append, List.flatten_append,
      List.flatten_cons, List.flatten_cons, List.cons_append]
    exact List.perm_middle
  · exact nomatch received

/-! ## Tidy names -/

/-- Nothing waits in the queues that the name does not lead to. -/
structure Tidy (name : QueueName Message) : Prop where
  inside : ∀ q, name.linked = some q → q < name.queues.length
  others : ∀ q waiting, name.linked ≠ some q → name.queues[q]? = some waiting → waiting = []

theorem tidy_absent : (absent : QueueName Message).Tidy where
  inside := by
    intro q linked
    cases linked
  others := by
    intro q waiting _ found
    cases found

theorem Tidy.create (tidy : name.Tidy) : name.create.Tidy := by
  rw [QueueName.create]
  split
  · exact tidy
  · rename_i linked
    refine ⟨?_, ?_⟩
    · intro q same
      cases same
      rw [List.length_append, List.length_singleton]
      exact Nat.lt_succ_self _
    · intro q waiting other found
      rcases Nat.lt_trichotomy q name.queues.length with old | new | beyond
      · rw [List.getElem?_append_left old] at found
        exact tidy.others q waiting (by rw [linked]; exact nofun) found
      · exact absurd (congrArg some new.symm) other
      · rw [List.getElem?_eq_none (by rw [List.length_append, List.length_singleton]; omega)]
          at found
        cases found

/-- Unlinking a name whose queues are empty. -/
theorem tidy_unlink (empty : name.messages = []) : name.unlink.Tidy where
  inside := by
    intro q linked
    cases linked
  others := fun _ _ _ found =>
    List.flatten_eq_nil_iff.mp empty _ (List.mem_of_getElem? found)

/-- The queue that the name leads to changes. -/
theorem Tidy.set (tidy : name.Tidy) (linked : name.linked = some q) (waiting : List Message) :
    Tidy { name with queues := name.queues.set q waiting } where
  inside := by
    intro r linked
    rw [List.length_set]
    exact tidy.inside r linked
  others := by
    intro r waiting' other found
    have apart : q ≠ r := by
      rintro rfl
      exact other linked
    rw [List.getElem?_set_ne apart] at found
    exact tidy.others r waiting' other found

theorem Tidy.send (tidy : name.Tidy) (linked : name.linked = some q)
    (sent : name.send capacity q message = some after) :
    after.Tidy ∧ after.linked = name.linked := by
  rw [QueueName.send] at sent
  split at sent
  · cases sent
  · split at sent
    · cases sent
      exact ⟨tidy.set linked _, rfl⟩
    · cases sent

theorem Tidy.receive (tidy : name.Tidy) (linked : name.linked = some q)
    (received : name.receive q = some (message, after)) :
    after.Tidy ∧ after.linked = name.linked := by
  rw [QueueName.receive] at received
  split at received
  · cases received
    exact ⟨tidy.set linked _, rfl⟩
  · cases received

/-- Who has the queue of a tidy name open and gets nothing is told that there is nothing. -/
theorem Tidy.messages_eq_nil (tidy : name.Tidy) (linked : name.linked = some q)
    (nothing : name.receive q = none) : name.messages = [] := by
  refine List.flatten_eq_nil_iff.mpr fun waiting member => ?_
  obtain ⟨r, found⟩ := List.getElem?_of_mem member
  by_cases same : name.linked = some r
  · obtain rfl : q = r := Option.some.inj (linked.symm.trans same)
    rw [QueueName.receive, found] at nothing
    cases waiting with
    | nil => rfl
    | cons message rest => cases nothing
  · exact tidy.others r waiting same found

/-- A queue into which nothing can be sent is not empty. -/
theorem Tidy.messages_ne_nil (tidy : name.Tidy) (linked : name.linked = some q)
    (room : 0 < capacity) (blocked : name.send capacity q message = none) :
    name.messages ≠ [] := by
  intro empty
  have found := List.getElem?_eq_getElem (tidy.inside q linked)
  have none := List.flatten_eq_nil_iff.mp empty _ (List.mem_of_getElem? found)
  rw [QueueName.send, found, none] at blocked
  simp only [List.length_nil, if_pos room] at blocked
  cases blocked

end QueueName

end LinuxExercises.Foundations
