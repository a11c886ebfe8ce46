import Mathlib.Logic.Function.Basic

/-!
# Signal handlers and the signal mask

What a process and the system know of the signals of the process: what is to be done with each
(its disposition), which are blocked, which are pending, and which masks the handlers that are being
executed have to restore. A handler is executed with its own signal blocked, and when it returns the
mask is again what it was before (`sigreturn`). A process that waits in `sigsuspend` has another
mask for as long as it waits, and the handler that ends the wait restores the first one.

Some signals can be neither blocked nor caught. The system leaves them out of every mask without
an error.
-/

set_option autoImplicit false

namespace LinuxExercises.Foundations

/-- A value of type `sighandler_t`. -/
inductive Disposition (Handler : Type) where
  | default
  | ignore
  | hold
  | handler (h : Handler)
deriving Repr, DecidableEq

/-- What is fixed about signals: which numbers are signals, which of these a process can neither
block nor catch, and which end a process by default. -/
structure SignalKinds (Signal : Type) where
  valid : Signal → Bool
  fixed : Signal → Bool
  ends : Signal → Bool

/-- A `sigset_t`. -/
abbrev SignalSet (Signal : Type) := Signal → Bool

namespace SignalSet

variable {Signal : Type} [DecidableEq Signal] (kinds : SignalKinds Signal)

def sigemptyset : SignalSet Signal := fun _ => false

/-- `sigaddset`, which leaves the set as it is when there is no such signal. -/
def sigaddset (set : SignalSet Signal) (sig : Signal) : SignalSet Signal :=
  if kinds.valid sig then Function.update set sig true else set

def sigdelset (set : SignalSet Signal) (sig : Signal) : SignalSet Signal :=
  if kinds.valid sig then Function.update set sig false else set

end SignalSet

variable {Signal : Type}

/-- The mask of a process. It has no signal that cannot be blocked. -/
@[ext] structure SignalMask (kinds : SignalKinds Signal) where
  set : SignalSet Signal
  free : ∀ sig, kinds.fixed sig = true → set sig = false

namespace SignalMask

variable {kinds : SignalKinds Signal}

/-- What the system makes of a set. -/
def ofSet (set : SignalSet Signal) : SignalMask kinds where
  set := fun sig => set sig && !kinds.fixed sig
  free := fun sig isFixed => by simp [isFixed]

def add (mask : SignalMask kinds) (set : SignalSet Signal) : SignalMask kinds :=
  ofSet fun sig => mask.set sig || set sig

def remove (mask : SignalMask kinds) (set : SignalSet Signal) : SignalMask kinds :=
  ofSet fun sig => mask.set sig && !set sig

theorem ofSet_set (mask : SignalMask kinds) : ofSet mask.set = mask := by
  refine SignalMask.ext (funext fun sig => ?_)
  cases isFixed : kinds.fixed sig with
  | false => simp [ofSet, isFixed]
  | true => simp [ofSet, isFixed, mask.free sig isFixed]

variable [DecidableEq Signal]

def hold (mask : SignalMask kinds) (sig : Signal) : SignalMask kinds :=
  ofSet (Function.update mask.set sig true)

def release (mask : SignalMask kinds) (sig : Signal) : SignalMask kinds :=
  ofSet (Function.update mask.set sig false)

theorem release_of_not_mem {mask : SignalMask kinds} {sig : Signal} (out : mask.set sig = false) :
    mask.release sig = mask := by
  rw [release, ← out, Function.update_eq_self, ofSet_set]

theorem release_set_self (mask : SignalMask kinds) (sig : Signal) :
    (mask.release sig).set sig = false := by
  simp [release, ofSet]

theorem add_single (mask : SignalMask kinds) {sig : Signal} (valid : kinds.valid sig = true) :
    mask.add (.sigaddset kinds .sigemptyset sig) = mask.hold sig := by
  refine congrArg ofSet (funext fun other => ?_)
  rw [SignalSet.sigaddset, if_pos valid]
  by_cases same : other = sig
  · simp [same]
  · simp [same, SignalSet.sigemptyset]

theorem remove_single (mask : SignalMask kinds) {sig : Signal} (valid : kinds.valid sig = true) :
    mask.remove (.sigaddset kinds .sigemptyset sig) = mask.release sig := by
  refine congrArg ofSet (funext fun other => ?_)
  rw [SignalSet.sigaddset, if_pos valid]
  by_cases same : other = sig
  · simp [same]
  · simp [same, SignalSet.sigemptyset]

end SignalMask

/-! ## Processes -/

section Process

variable {kinds : SignalKinds Signal}

/-- A handler that is being executed: the mask to be restored, and whether it ends a wait. -/
structure HandlerFrame (kinds : SignalKinds Signal) where
  saved : SignalMask kinds
  ofPause : Bool

/-- The signals of a process. The handlers that are being executed stand innermost first; while the
process waits in `sigsuspend`, `suspended` is the mask to be restored. -/
structure SignalProcess (kinds : SignalKinds Signal) (Handler : Type) where
  disposition : Signal → Disposition Handler
  mask : SignalMask kinds
  pending : SignalSet Signal
  frames : List (HandlerFrame kinds)
  suspended : Option (SignalMask kinds)

variable {Handler : Type}

namespace SignalProcess

/-- A process that has been started with signals that are ignored, blocked and pending. -/
def inherited (ignored : SignalSet Signal) (mask : SignalMask kinds) (pending : SignalSet Signal) :
    SignalProcess kinds Handler where
  disposition := fun sig => if ignored sig then .ignore else .default
  mask := mask
  pending := pending
  frames := []
  suspended := none

/-- Signals with this disposition have no effect. -/
def discards (kinds : SignalKinds Signal) (sig : Signal) : Disposition Handler → Bool
  | .default => !kinds.ends sig
  | .ignore => true
  | .hold => false
  | .handler _ => false

variable [DecidableEq Signal] (p : SignalProcess kinds Handler)

/-- The new disposition of a signal. A pending signal that is to have no effect is dropped. -/
def setDisposition (sig : Signal) (d : Disposition Handler) : SignalProcess kinds Handler :=
  { p with
    disposition := Function.update p.disposition sig d
    pending := if discards kinds sig d then Function.update p.pending sig false else p.pending }

/-- `sigaction`, which returns the old disposition unless it fails. -/
def sigaction (sig : Signal) (d : Disposition Handler) :
    Option (Disposition Handler × SignalProcess kinds Handler) :=
  if kinds.valid sig && !kinds.fixed sig then some (p.disposition sig, p.setDisposition sig d)
  else none

/-- The process begins to wait in `sigsuspend`. -/
def sigsuspend (set : SignalSet Signal) : SignalProcess kinds Handler :=
  { p with mask := .ofSet set, suspended := some p.mask }

/-- A signal is generated. It is dropped at once only if it is not blocked. -/
def generate (sig : Signal) : SignalProcess kinds Handler :=
  if !p.mask.set sig && discards kinds sig (p.disposition sig) then p
  else { p with pending := Function.update p.pending sig true }

/-- A handler begins, with its signal blocked. -/
def invoke (sig : Signal) : SignalProcess kinds Handler :=
  { p with
    mask := p.mask.hold sig
    pending := Function.update p.pending sig false
    frames := ⟨p.suspended.getD p.mask, p.suspended.isSome⟩ :: p.frames
    suspended := none }

/-- A signal is delivered, when it is pending and not blocked. The process ends by the default
action, and when the disposition is no address of a function. -/
def deliver (sig : Signal) : Option (Option (SignalProcess kinds Handler)) :=
  if p.pending sig && !p.mask.set sig then
    if discards kinds sig (p.disposition sig) then
      some (some { p with pending := Function.update p.pending sig false })
    else
      match p.disposition sig with
      | .handler _ => some (some (p.invoke sig))
      | _ => some none
  else none

/-- A handler returns. The second component is whether a wait ends with it. -/
def sigreturn : Option (SignalProcess kinds Handler × Bool) :=
  match p.suspended, p.frames with
  | none, frame :: frames => some ({ p with mask := frame.saved, frames := frames }, frame.ofPause)
  | _, _ => none

/-- The mask of the program itself: what will be the mask when all handlers have returned. -/
def ownMask : SignalMask kinds :=
  match p.frames.getLast? with
  | some frame => frame.saved
  | none => p.suspended.getD p.mask

end SignalProcess

end Process

end LinuxExercises.Foundations
