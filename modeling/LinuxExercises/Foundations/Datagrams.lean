import Mathlib.Data.List.Perm.Basic
import LinuxExercises.Foundations.Buffer

/-!
# Datagrams

A datagram carries its source, its destination and its bytes. The network holds the
datagrams under way in no order that matters: any of them may be the next to arrive, at
any time or never (`arrive`). A receiver gets as many bytes as its buffer has room for,
and keeps the rest of its buffer.
-/

set_option autoImplicit false

namespace LinuxExercises.Foundations

/-- A datagram. -/
structure Datagram (Address : Type*) where
  source : Address
  destination : Address
  payload : List Byte
deriving DecidableEq

variable {Address : Type*} [DecidableEq Address]

/-- The datagram at a position arrives at its destination. -/
def arrive (inFlight : List (Datagram Address)) (i : Nat) (destination : Address) :
    Option (Datagram Address × List (Datagram Address)) :=
  match inFlight[i]? with
  | some d => if d.destination = destination then some (d, inFlight.eraseIdx i) else none
  | none => none

/-- What `recvfrom` leaves in the buffer. -/
def recvfrom {size : Nat} (payload : List Byte) (buffer : Buffer size) : Buffer size where
  bytes := payload.take size ++ buffer.bytes.drop (payload.take size).length
  size_eq := by
    have := buffer.size_eq
    simp only [List.length_append, List.length_drop, List.length_take]
    omega

/-- A datagram as long as the buffer fills it. -/
theorem recvfrom_whole {size : Nat} (message buffer : Buffer size) :
    recvfrom message.bytes buffer = message := by
  have all : message.bytes.take size = message.bytes :=
    List.take_of_length_le (Nat.le_of_eq message.size_eq)
  refine Buffer.ext ?_
  show message.bytes.take size ++ buffer.bytes.drop (message.bytes.take size).length = _
  rw [all, message.size_eq, List.drop_eq_nil_of_le (Nat.le_of_eq buffer.size_eq),
    List.append_nil]

variable {inFlight rest : List (Datagram Address)} {i : Nat} {destination : Address}
  {d : Datagram Address}

/-- **A datagram that arrives is no longer under way.** -/
theorem arrive_perm (arrived : arrive inFlight i destination = some (d, rest)) :
    d.destination = destination ∧ inFlight.Perm (d :: rest) := by
  unfold arrive at arrived
  split at arrived
  · rename_i found at_i
    split at arrived
    · rename_i there
      obtain ⟨rfl, rfl⟩ := Prod.mk.inj (Option.some.inj arrived)
      obtain ⟨inside, rfl⟩ := List.getElem?_eq_some_iff.mp at_i
      exact ⟨there, (List.getElem_cons_eraseIdx_perm inside).symm⟩
    · exact nomatch arrived
  · exact nomatch arrived

end LinuxExercises.Foundations
