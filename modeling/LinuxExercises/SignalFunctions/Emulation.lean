import LinuxExercises.Foundations.Handlers
import LinuxExercises.Foundations.Runs

/-!
# The System V signal functions

The exercise writes `sigset`, `sighold`, `sigrelse`, `sigignore` and `sigpause` with the calls of
POSIX. Both sets of functions are implementations of one interface, and a program that calls them is
a system whose other actions are those of the world around it: signals are generated and delivered,
handlers return.

The functions of the exercise behave like those of System V as long as a program keeps away from
three things (`emulates_iff`). `my_sigset` does not unblock the signal and does not know `SIG_HOLD`;
and where a System V function returns an error, those of the exercise end the process or go on as
if nothing were wrong.

`my_sigset` leaves the mask alone, and so the mask of a program depends on its own calls of
`my_sighold` and `my_sigrelse` only: neither the handlers that interrupt it, whatever they call, nor
its waits in `my_sigpause` leave anything behind (`ownMask_of_run`).
-/

set_option autoImplicit false

namespace LinuxExercises.SignalFunctions

open Foundations SignalSet

variable {Signal Handler : Type} {kinds : SignalKinds Signal}

/-! ## The interface -/

/-- What one of the functions returns. -/
inductive Value (Handler : Type) where
  | disposition (d : Disposition Handler)
  | sigErr
  | status (n : Int)
deriving Repr, DecidableEq

/-- What a call comes to. -/
inductive Reply (kinds : SignalKinds Signal) (Handler : Type) where
  | exits
  | waits (p : SignalProcess kinds Handler)
  | returns (value : Value Handler) (p : SignalProcess kinds Handler)

/-- A call of one of the five functions. -/
inductive Call (Signal Handler : Type) where
  | sigset (sig : Signal) (disp : Disposition Handler)
  | sighold (sig : Signal)
  | sigrelse (sig : Signal)
  | sigignore (sig : Signal)
  | sigpause (sig : Signal)
deriving Repr, DecidableEq

/-- An implementation of the functions. -/
abbrev Functions (kinds : SignalKinds Signal) (Handler : Type) :=
  Call Signal Handler → SignalProcess kinds Handler → Reply kinds Handler

variable [DecidableEq Signal]

/-! ## The code -/

section Code

variable (p : SignalProcess kinds Handler) (sig : Signal)

def mySigset (handler : Disposition Handler) : Reply kinds Handler :=
  match p.sigaction sig handler with
  | none => .exits
  | some (olddisp, p) => .returns (.disposition olddisp) p

def mySighold : Reply kinds Handler :=
  let mask := sigaddset kinds sigemptyset sig
  .returns (.status 0) { p with mask := p.mask.add mask }

def mySigrelse : Reply kinds Handler :=
  let mask := sigaddset kinds sigemptyset sig
  .returns (.status 0) { p with mask := p.mask.remove mask }

def mySigignore : Reply kinds Handler :=
  match p.sigaction sig .ignore with
  | none => .exits
  | some (_, p) => .returns (.status 0) p

def mySigpause : Reply kinds Handler :=
  let currentMask := sigdelset kinds p.mask.set sig
  .waits (p.sigsuspend currentMask)

end Code

/-- The functions of the exercise. -/
def exercise : Functions kinds Handler := fun call p =>
  match call with
  | .sigset sig handler => mySigset p sig handler
  | .sighold sig => mySighold p sig
  | .sigrelse sig => mySigrelse p sig
  | .sigignore sig => mySigignore p sig
  | .sigpause sig => mySigpause p sig

/-! ## System V -/

section SystemV

variable (p : SignalProcess kinds Handler) (sig : Signal)

/-- `sigset` makes the disposition that of the signal and releases the signal, or holds it for
`SIG_HOLD`. It returns `SIG_HOLD` when the signal was held and the old disposition otherwise. -/
def sigset (disp : Disposition Handler) : Reply kinds Handler :=
  if kinds.valid sig && !kinds.fixed sig then
    let previous := if p.mask.set sig then .hold else p.disposition sig
    match disp with
    | .hold => .returns (.disposition previous) { p with mask := p.mask.hold sig }
    | disp =>
      .returns (.disposition previous)
        { p.setDisposition sig disp with mask := p.mask.release sig }
  else .returns .sigErr p

def sighold : Reply kinds Handler :=
  if kinds.valid sig then .returns (.status 0) { p with mask := p.mask.hold sig }
  else .returns (.status (-1)) p

def sigrelse : Reply kinds Handler :=
  if kinds.valid sig then .returns (.status 0) { p with mask := p.mask.release sig }
  else .returns (.status (-1)) p

def sigignore : Reply kinds Handler :=
  if kinds.valid sig && !kinds.fixed sig then
    .returns (.status 0) (p.setDisposition sig .ignore)
  else .returns (.status (-1)) p

/-- `sigpause` waits with the signal released and all others as they are. -/
def sigpause : Reply kinds Handler :=
  if kinds.valid sig then .waits { p with mask := p.mask.release sig, suspended := some p.mask }
  else .returns (.status (-1)) p

end SystemV

/-- The functions of System V. -/
def systemV : Functions kinds Handler := fun call p =>
  match call with
  | .sigset sig disp => sigset p sig disp
  | .sighold sig => sighold p sig
  | .sigrelse sig => sigrelse p sig
  | .sigignore sig => sigignore p sig
  | .sigpause sig => sigpause p sig

/-! ## Programs -/

/-- A program that uses the functions: its signals, the value that the last call returned, and
whether it has ended. -/
structure Program (kinds : SignalKinds Signal) (Handler : Type) where
  process : SignalProcess kinds Handler
  returned : Value Handler
  ended : Bool

/-- The program or one of its handlers makes a call, or a handler returns. A signal is generated, or
one that is pending is delivered. -/
inductive Action (Signal Handler : Type) where
  | call (c : Call Signal Handler)
  | send (sig : Signal)
  | deliver (sig : Signal)
  | handlerReturns
deriving Repr, DecidableEq

namespace Program

/-- The program begins. -/
def start (ignored : SignalSet Signal) (mask : SignalMask kinds) (pending : SignalSet Signal) :
    Program kinds Handler where
  process := .inherited ignored mask pending
  returned := .status 0
  ended := false

def take (s : Program kinds Handler) : Reply kinds Handler → Program kinds Handler
  | .exits => { s with ended := true }
  | .waits p => { s with process := p }
  | .returns value p => { s with process := p, returned := value }

/-- The program can make a call: it has not ended, and it does not wait. -/
def calls (s : Program kinds Handler) : Bool := !s.ended && s.process.suspended.isNone

/-- One step. A function that has waited returns -1. -/
def step (f : Functions kinds Handler) (s : Program kinds Handler) :
    Action Signal Handler → Option (Program kinds Handler)
  | .call c => if s.calls then some (s.take (f c s.process)) else none
  | .send sig => if s.ended then none else some { s with process := s.process.generate sig }
  | .deliver sig =>
    if s.ended then none
    else
      (s.process.deliver sig).map fun
        | some p => { s with process := p }
        | none => { s with ended := true }
  | .handlerReturns =>
    if s.ended then none
    else
      s.process.sigreturn.map fun (p, waited) =>
        { s with process := p, returned := if waited then .status (-1) else s.returned }

end Program

/-! ## Where they agree -/

/-- A call that does not touch the differences: `sigset` of a signal that is not held, and no
signal for which the call is an error. -/
def Call.Ordinary (p : SignalProcess kinds Handler) : Call Signal Handler → Prop
  | .sigset sig disp =>
    (kinds.valid sig && !kinds.fixed sig) = true ∧ disp ≠ .hold ∧ p.mask.set sig = false
  | .sighold sig => kinds.valid sig = true
  | .sigrelse sig => kinds.valid sig = true
  | .sigignore sig => (kinds.valid sig && !kinds.fixed sig) = true
  | .sigpause sig => kinds.valid sig = true

/-- The action is no call, or an ordinary one. -/
def Ordinary (s : Program kinds Handler) (a : Action Signal Handler) : Prop :=
  s.calls = true → ∀ c, a = .call c → c.Ordinary s.process

/-- `SIG_HOLD` is the disposition of no signal. -/
def NoHold (p : SignalProcess kinds Handler) : Prop := ∀ sig, p.disposition sig ≠ .hold

theorem noHold_setDisposition {p : SignalProcess kinds Handler} {sig : Signal}
    {disp : Disposition Handler} (noHold : NoHold p) (other : disp ≠ .hold) :
    NoHold (p.setDisposition sig disp) := by
  intro sig'
  by_cases same : sig' = sig
  · subst same
    simpa [SignalProcess.setDisposition] using other
  · simpa [SignalProcess.setDisposition, same] using noHold sig'

theorem sigset_of_ne {p : SignalProcess kinds Handler} {sig : Signal} {disp : Disposition Handler}
    (possible : (kinds.valid sig && !kinds.fixed sig) = true) (other : disp ≠ .hold) :
    sigset p sig disp =
      .returns (.disposition (if p.mask.set sig then .hold else p.disposition sig))
        { p.setDisposition sig disp with mask := p.mask.release sig } := by
  rw [sigset, if_pos possible]
  cases disp with
  | hold => exact absurd rfl other
  | default => rfl
  | ignore => rfl
  | handler h => rfl

namespace Program

variable {s t : Program kinds Handler}

omit [DecidableEq Signal] in
theorem take_returns_inj {value value' : Value Handler} {p q : SignalProcess kinds Handler}
    (same : s.take (.returns value p) = s.take (.returns value' q)) : value = value' ∧ p = q := by
  obtain ⟨process, returned, -⟩ := Program.mk.inj same
  exact ⟨returned, process⟩

/-- `my_sigset` does what `sigset` does for a disposition other than `SIG_HOLD` and a signal that is
not held. -/
theorem take_sigset_iff (runs : s.ended = false) (noHold : NoHold s.process) (sig : Signal)
    (disp : Disposition Handler) :
    s.take (mySigset s.process sig disp) = s.take (sigset s.process sig disp) ↔
      (Call.sigset sig disp).Ordinary s.process := by
  rw [Call.Ordinary]
  by_cases possible : (kinds.valid sig && !kinds.fixed sig) = true
  · rw [mySigset, SignalProcess.sigaction, if_pos possible]
    rcases eq_or_ne disp .hold with rfl | other
    · refine ⟨fun same => ?_, fun ordinary => absurd rfl ordinary.2.1⟩
      rw [sigset, if_pos possible] at same
      obtain ⟨-, process⟩ := take_returns_inj same
      have disposition := congrFun (congrArg SignalProcess.disposition process) sig
      simp only [SignalProcess.setDisposition, Function.update_self] at disposition
      exact absurd disposition.symm (noHold sig)
    · rw [sigset_of_ne possible other]
      cases held : s.process.mask.set sig with
      | false =>
          rw [SignalMask.release_of_not_mem held]
          exact ⟨fun _ => ⟨possible, other, rfl⟩, fun _ => rfl⟩
      | true =>
          refine ⟨fun same => ?_, fun ordinary => Bool.noConfusion ordinary.2.2⟩
          obtain ⟨-, process⟩ := take_returns_inj same
          have mask := congrArg (fun p => p.mask.set sig) process
          simp only [SignalMask.release_set_self] at mask
          exact absurd (held.symm.trans mask) Bool.noConfusion
  · refine ⟨fun same => ?_, fun ordinary => absurd ordinary.1 possible⟩
    rw [mySigset, SignalProcess.sigaction, if_neg possible, sigset, if_neg possible] at same
    have ended : true = s.ended := congrArg Program.ended same
    rw [runs] at ended
    cases ended

theorem take_sigignore_iff (runs : s.ended = false) (sig : Signal) :
    s.take (mySigignore s.process sig) = s.take (sigignore s.process sig) ↔
      (kinds.valid sig && !kinds.fixed sig) = true := by
  by_cases possible : (kinds.valid sig && !kinds.fixed sig) = true
  · rw [mySigignore, SignalProcess.sigaction, if_pos possible, sigignore, if_pos possible]
    exact ⟨fun _ => possible, fun _ => rfl⟩
  · refine ⟨fun same => ?_, fun ordinary => absurd ordinary possible⟩
    rw [mySigignore, SignalProcess.sigaction, if_neg possible, sigignore, if_neg possible] at same
    have ended : true = s.ended := congrArg Program.ended same
    rw [runs] at ended
    cases ended

theorem take_sighold_iff (sig : Signal) :
    s.take (mySighold s.process sig) = s.take (sighold s.process sig) ↔
      kinds.valid sig = true := by
  by_cases valid : kinds.valid sig = true
  · rw [mySighold, sighold, if_pos valid, SignalMask.add_single _ valid]
    exact ⟨fun _ => valid, fun _ => rfl⟩
  · refine ⟨fun same => ?_, fun ordinary => absurd ordinary valid⟩
    rw [mySighold, sighold, if_neg valid] at same
    obtain ⟨value, -⟩ := take_returns_inj same
    cases value

theorem take_sigrelse_iff (sig : Signal) :
    s.take (mySigrelse s.process sig) = s.take (sigrelse s.process sig) ↔
      kinds.valid sig = true := by
  by_cases valid : kinds.valid sig = true
  · rw [mySigrelse, sigrelse, if_pos valid, SignalMask.remove_single _ valid]
    exact ⟨fun _ => valid, fun _ => rfl⟩
  · refine ⟨fun same => ?_, fun ordinary => absurd ordinary valid⟩
    rw [mySigrelse, sigrelse, if_neg valid] at same
    obtain ⟨value, -⟩ := take_returns_inj same
    cases value

/-- Without an error `my_sigpause` waits as `sigpause` does. -/
theorem take_sigpause_iff (calls : s.calls = true) (sig : Signal) :
    s.take (mySigpause s.process sig) = s.take (sigpause s.process sig) ↔
      kinds.valid sig = true := by
  by_cases valid : kinds.valid sig = true
  · rw [mySigpause, sigdelset, if_pos valid, sigpause, if_pos valid]
    exact ⟨fun _ => valid, fun _ => rfl⟩
  · refine ⟨fun same => ?_, fun ordinary => absurd ordinary valid⟩
    rw [mySigpause, sigdelset, if_neg valid, sigpause, if_neg valid] at same
    have waits : some s.process.mask = s.process.suspended :=
      congrArg (fun s => s.process.suspended) same
    rw [Program.calls, ← waits, Option.isNone_some, Bool.and_false] at calls
    cases calls

/-- **One call.** -/
theorem take_eq_iff (calls : s.calls = true) (noHold : NoHold s.process) (c : Call Signal Handler) :
    s.take (exercise c s.process) = s.take (systemV c s.process) ↔ c.Ordinary s.process := by
  have runs : s.ended = false := by
    rw [Program.calls, Bool.and_eq_true, Bool.not_eq_true'] at calls
    exact calls.1
  cases c with
  | sigset sig disp => exact take_sigset_iff runs noHold sig disp
  | sighold sig => exact take_sighold_iff sig
  | sigrelse sig => exact take_sigrelse_iff sig
  | sigignore sig => exact take_sigignore_iff runs sig
  | sigpause sig => exact take_sigpause_iff calls sig

/-- **One step.** -/
theorem step_eq_iff (noHold : NoHold s.process) (a : Action Signal Handler) :
    step exercise s a = step systemV s a ↔ Ordinary s a := by
  cases a with
  | call c =>
      rw [step, step]
      cases calls : s.calls with
      | false => exact ⟨fun _ calls' => Bool.noConfusion (calls.symm.trans calls'), fun _ => rfl⟩
      | true =>
          rw [if_pos rfl, if_pos rfl, Option.some.injEq, take_eq_iff calls noHold]
          constructor
          · rintro ordinary - c' ⟨⟩
            exact ordinary
          · exact fun ordinary => ordinary calls c rfl
  | send sig =>
      refine ⟨fun _ _ c same => ?_, fun _ => rfl⟩
      cases same
  | deliver sig =>
      refine ⟨fun _ _ c same => ?_, fun _ => rfl⟩
      cases same
  | handlerReturns =>
      refine ⟨fun _ _ c same => ?_, fun _ => rfl⟩
      cases same

/-! ## Whole runs -/

theorem noHold_take_sigset (noHold : NoHold s.process) (sig : Signal)
    (disp : Disposition Handler) : NoHold (s.take (sigset s.process sig disp)).process := by
  by_cases possible : (kinds.valid sig && !kinds.fixed sig) = true
  · rcases eq_or_ne disp .hold with rfl | other
    · rw [sigset, if_pos possible]
      exact noHold
    · rw [sigset_of_ne possible other]
      exact noHold_setDisposition noHold other
  · rw [sigset, if_neg possible]
    exact noHold

theorem noHold_take (noHold : NoHold s.process) (c : Call Signal Handler) :
    NoHold (s.take (systemV c s.process)).process := by
  cases c with
  | sigset sig disp => exact noHold_take_sigset noHold sig disp
  | sighold sig =>
      rw [systemV, sighold]
      split <;> exact noHold
  | sigrelse sig =>
      rw [systemV, sigrelse]
      split <;> exact noHold
  | sigignore sig =>
      rw [systemV, sigignore]
      split
      · exact noHold_setDisposition noHold (by simp)
      · exact noHold
  | sigpause sig =>
      rw [systemV, sigpause]
      split <;> exact noHold

/-- The world around a program. No implementation of the functions has a part in it, and no
disposition changes. -/
theorem disposition_step {f : Functions kinds Handler} {a : Action Signal Handler}
    (world : ∀ c, a ≠ .call c) (taken : step f s a = some t) :
    t.process.disposition = s.process.disposition := by
  cases a with
  | call c => exact absurd rfl (world c)
  | send sig =>
      rw [step] at taken
      split at taken
      · cases taken
      · obtain rfl := Option.some.inj taken
        simp only [SignalProcess.generate]
        split <;> rfl
  | deliver sig =>
      rw [step] at taken
      split at taken
      · cases taken
      · obtain ⟨outcome, delivered, rfl⟩ := Option.map_eq_some_iff.mp taken
        cases outcome with
        | none => rfl
        | some p =>
            rw [SignalProcess.deliver] at delivered
            split at delivered
            · split at delivered
              · cases delivered
                rfl
              · split at delivered
                · cases delivered
                  rfl
                · cases delivered
            · cases delivered
  | handlerReturns =>
      rw [step] at taken
      split at taken
      · cases taken
      · obtain ⟨⟨p, waited⟩, returned, rfl⟩ := Option.map_eq_some_iff.mp taken
        rw [SignalProcess.sigreturn] at returned
        split at returned
        · cases returned
          rfl
        · cases returned

theorem noHold_step {a : Action Signal Handler} (noHold : NoHold s.process)
    (taken : step systemV s a = some t) : NoHold t.process := by
  by_cases called : ∃ c, a = .call c
  · obtain ⟨c, rfl⟩ := called
    rw [step] at taken
    split at taken
    · obtain rfl := Option.some.inj taken
      exact noHold_take noHold c
    · cases taken
  · rw [NoHold, disposition_step (fun c same => called ⟨c, same⟩) taken]
    exact noHold

variable (ignored : SignalSet Signal) (mask : SignalMask kinds) (pending : SignalSet Signal)

omit [DecidableEq Signal] in
theorem noHold_start :
    NoHold (start ignored mask pending : Program kinds Handler).process := by
  intro sig
  change (if ignored sig then _ else _ : Disposition Handler) ≠ _
  split <;> simp

/-- **Main.** A program that runs on the functions of the exercise goes through the same states, and
gets the same values from its calls, as on those of System V, exactly when each of its calls is
ordinary: no `sigset` of a signal that is held, none with `SIG_HOLD`, and no call that is an
error. -/
theorem emulates_iff (actions : List (Action Signal Handler)) :
    (∀ n, run (step exercise) (start ignored mask pending) (actions.take n) =
      run (step systemV) (start ignored mask pending) (actions.take n)) ↔
      Along (step systemV) Ordinary (start ignored mask pending) actions :=
  @run_take_eq_iff _ _ (step exercise) (step systemV) (fun s => NoHold s.process) Ordinary
    noHold_step (fun noHold => step_eq_iff noHold _) _ actions (noHold_start ignored mask pending)

/-! ## The mask of a program -/

/-- What a call does to the mask: `my_sighold` and `my_sigrelse` change it. -/
def adjust (mask : SignalMask kinds) : Call Signal Handler → SignalMask kinds
  | .sighold sig => mask.add (sigaddset kinds sigemptyset sig)
  | .sigrelse sig => mask.remove (sigaddset kinds sigemptyset sig)
  | _ => mask

/-- The call that the program itself makes, and none of its handlers. -/
def ownCall (s : Program kinds Handler) : Action Signal Handler → List (Call Signal Handler)
  | .call c => if s.process.frames = [] then [c] else []
  | _ => []

/-- The calls that the program itself makes in a run. -/
def ownCalls (f : Functions kinds Handler) (s : Program kinds Handler) :
    List (Action Signal Handler) → List (Call Signal Handler)
  | [] => []
  | a :: rest => ownCall s a ++ (step f s a).elim [] fun t => ownCalls f t rest

omit [DecidableEq Signal] in
/-- A call within a handler leaves the frames, and with them the mask of the program. -/
theorem ownMask_of_frames {p q : SignalProcess kinds Handler} (inHandler : p.frames ≠ [])
    (same : q.frames = p.frames) : q.ownMask = p.ownMask := by
  obtain ⟨frame, last⟩ :=
    Option.ne_none_iff_exists'.mp (List.getLast?_eq_none_iff.not.mpr inHandler)
  rw [SignalProcess.ownMask, SignalProcess.ownMask, same, last]

theorem frames_take (c : Call Signal Handler) :
    (s.take (exercise c s.process)).process.frames = s.process.frames := by
  cases c with
  | sigset sig disp =>
      rw [exercise, mySigset, SignalProcess.sigaction]
      split <;> rename_i moved
      · rfl
      · split at moved
        · cases moved
          rfl
        · cases moved
  | sigignore sig =>
      rw [exercise, mySigignore, SignalProcess.sigaction]
      split <;> rename_i moved
      · rfl
      · split at moved
        · cases moved
          rfl
        · cases moved
  | sighold sig => rfl
  | sigrelse sig => rfl
  | sigpause sig => rfl

/-- The mask behind a call of the program itself. -/
theorem ownMask_take (outside : s.process.frames = []) (calls : s.calls = true)
    (c : Call Signal Handler) :
    (s.take (exercise c s.process)).process.ownMask = adjust s.process.ownMask c := by
  have frames : (s.take (exercise c s.process)).process.frames.getLast? = none := by
    rw [frames_take, outside]
    rfl
  have awake : s.process.suspended = none := by
    rw [Program.calls, Bool.and_eq_true, Option.isNone_iff_eq_none] at calls
    exact calls.2
  have own : s.process.ownMask = s.process.mask := by
    rw [SignalProcess.ownMask, outside, awake]
    rfl
  rw [own, SignalProcess.ownMask, frames]
  cases c with
  | sigset sig disp =>
      rw [exercise, mySigset, SignalProcess.sigaction]
      by_cases possible : (kinds.valid sig && !kinds.fixed sig) = true
      · rw [if_pos possible]
        exact congrArg (Option.getD · _) awake
      · rw [if_neg possible]
        exact congrArg (Option.getD · _) awake
  | sigignore sig =>
      rw [exercise, mySigignore, SignalProcess.sigaction]
      by_cases possible : (kinds.valid sig && !kinds.fixed sig) = true
      · rw [if_pos possible]
        exact congrArg (Option.getD · _) awake
      · rw [if_neg possible]
        exact congrArg (Option.getD · _) awake
  | sighold sig => exact congrArg (Option.getD · _) awake
  | sigrelse sig => exact congrArg (Option.getD · _) awake
  | sigpause sig => rfl

/-- A handler that begins saves the mask that it interrupts. -/
theorem ownMask_invoke (p : SignalProcess kinds Handler) (sig : Signal) :
    (p.invoke sig).ownMask = p.ownMask := by
  rw [SignalProcess.ownMask, SignalProcess.ownMask, SignalProcess.invoke]
  cases p.frames with
  | nil => rfl
  | cons frame frames =>
      rw [List.getLast?_cons_cons]
      rfl

omit [DecidableEq Signal] in
/-- A handler that returns restores it. -/
theorem ownMask_sigreturn {p q : SignalProcess kinds Handler} {waited : Bool}
    (returned : p.sigreturn = some (q, waited)) : q.ownMask = p.ownMask := by
  rw [SignalProcess.sigreturn] at returned
  split at returned
  · rename_i frame frames awake handlers
    cases returned
    rw [SignalProcess.ownMask, SignalProcess.ownMask, handlers]
    cases frames with
    | nil =>
        rw [awake]
        rfl
    | cons next others =>
        rw [List.getLast?_cons_cons]
        rfl
  · cases returned

theorem ownMask_deliver {p q : SignalProcess kinds Handler} {sig : Signal}
    (delivered : p.deliver sig = some (some q)) : q.ownMask = p.ownMask := by
  rw [SignalProcess.deliver] at delivered
  split at delivered
  · split at delivered
    · cases delivered
      rfl
    · split at delivered
      · cases delivered
        exact ownMask_invoke p sig
      · cases delivered
  · cases delivered

/-- **The step lemma.** -/
theorem ownMask_step {a : Action Signal Handler} (taken : step exercise s a = some t) :
    t.process.ownMask = (ownCall s a).foldl adjust s.process.ownMask := by
  cases a with
  | call c =>
      rw [step] at taken
      split at taken <;> rename_i calls
      · obtain rfl := Option.some.inj taken
        rw [ownCall]
        split <;> rename_i outside
        · exact ownMask_take outside calls c
        · exact ownMask_of_frames outside (frames_take c)
      · cases taken
  | send sig =>
      rw [step] at taken
      split at taken
      · cases taken
      · obtain rfl := Option.some.inj taken
        simp only [SignalProcess.generate]
        split <;> rfl
  | deliver sig =>
      rw [step] at taken
      split at taken
      · cases taken
      · obtain ⟨outcome, delivered, rfl⟩ := Option.map_eq_some_iff.mp taken
        cases outcome with
        | none => rfl
        | some p => exact ownMask_deliver delivered
  | handlerReturns =>
      rw [step] at taken
      split at taken
      · cases taken
      · obtain ⟨⟨p, waited⟩, returned, rfl⟩ := Option.map_eq_some_iff.mp taken
        exact ownMask_sigreturn returned

theorem ownMask_run {actions : List (Action Signal Handler)}
    (ran : run (step exercise) s actions = some t) :
    t.process.ownMask = (ownCalls exercise s actions).foldl adjust s.process.ownMask := by
  induction actions generalizing s with
  | nil =>
      obtain rfl := Option.some.inj ran
      rfl
  | cons a rest ih =>
      obtain ⟨middle, taken, ran⟩ := run_cons_cases ran
      rw [ownCalls, taken, List.foldl_append, ← ownMask_step taken]
      exact ih ran

/-- **Handlers and waits leave the mask alone.** Whatever signals arrive, whatever their handlers
call and however they interrupt each other, the mask of a program is what its own calls of
`my_sighold` and `my_sigrelse` have made of the mask that it was started with. -/
theorem ownMask_of_run {actions : List (Action Signal Handler)}
    (ran : run (step exercise) (start ignored mask pending) actions = some t) :
    t.process.ownMask =
      (ownCalls exercise (start ignored mask pending) actions).foldl adjust mask :=
  ownMask_run ran

/-- Signals with numbers, of which 9 can be neither blocked nor caught. -/
def numbered : SignalKinds Nat where
  valid := fun sig => 0 < sig
  fixed := fun sig => sig == 9
  ends := fun _ => true

/-- A program holds signal 1, and a handler for signal 2 that releases it interrupts the program. -/
def interrupted : List (Action Nat Unit) :=
  [.call (.sigset 2 (.handler ())), .call (.sighold 1), .send 2, .deliver 2, .call (.sigrelse 1),
    .handlerReturns]

theorem ownMask_of_run_interrupted :
    ∃ t : Program numbered Unit,
      run (step exercise) (start sigemptyset (.ofSet sigemptyset) sigemptyset) interrupted =
        some t ∧
      t.process.ownMask = adjust (.ofSet sigemptyset) (.sighold 1 : Call Nat Unit) := by
  obtain ⟨t, ran⟩ : ∃ t : Program numbered Unit,
      run (step exercise) (start sigemptyset (.ofSet sigemptyset) sigemptyset) interrupted =
        some t := Option.isSome_iff_exists.mp (by decide)
  exact ⟨t, ran, ownMask_of_run _ _ _ ran⟩

end Program

end LinuxExercises.SignalFunctions
