/-!
# Standard signals

What a process knows of one standard signal: whether it blocks the signal, whether it has a handler
for it that does nothing, and whether the signal is pending. A signal that is sent while it is
blocked stays pending until the process takes it, and it is pending once, however often it has been
sent. So of two signals that are sent without one being taken in between the second is lost.
-/

set_option autoImplicit false

namespace LinuxExercises.Foundations

/-- The state of a process with regard to one signal. The default action of the signal is to end
the process. -/
structure SignalState where
  blocked : Bool
  caught : Bool
  pending : Bool
deriving Repr, DecidableEq

namespace SignalState

/-- Neither blocked, nor caught, nor pending. -/
def initial : SignalState where
  blocked := false
  caught := false
  pending := false

/-- The signal arrives: it stays pending, or it is handled at once, or the process is killed. -/
def receive (s : SignalState) : Option SignalState :=
  if s.blocked then some { s with pending := true }
  else if s.caught then some s
  else none

/-- The signal is pending no more: it has been taken, or this is a child, which inherits the mask
and the handlers only. -/
def clear (s : SignalState) : SignalState := { s with pending := false }

/-- What a call that waits for the signal comes to: it sleeps, it returns, or the process is
killed. -/
inductive Waiting where
  | sleeps
  | returns (s : SignalState)
  | kills
deriving Repr, DecidableEq

/-- `sigwaitinfo` for the blocked signal. No handler is called. -/
def sigwaitinfo (s : SignalState) : Waiting :=
  if s.pending then .returns s.clear else .sleeps

/-- `sigsuspend` with the empty mask. A pending signal is delivered, and the call returns behind the
handler, with the old mask. -/
def sigsuspend (s : SignalState) : Waiting :=
  if s.pending && !s.caught then .kills else s.sigwaitinfo

theorem receive_of_blocked {s : SignalState} (blocked : s.blocked = true) :
    s.receive = some { s with pending := true } := if_pos blocked

/-- With a handler the two calls come to the same. -/
theorem sigsuspend_of_caught {s : SignalState} (caught : s.caught = true) :
    s.sigsuspend = s.sigwaitinfo := by
  rw [sigsuspend, caught, Bool.not_true, Bool.and_false]
  exact if_neg Bool.false_ne_true

end SignalState

end LinuxExercises.Foundations
