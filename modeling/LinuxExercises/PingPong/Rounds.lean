import LinuxExercises.PingPong.Diagram

/-!
# The rounds with the braces

With the braces in their place the diagram holds for every number of rounds. No signal is lost,
though one is pending only once: the sends of a process are the waits of the other one and what is
pending there (`Answered`), and a process sends only when it has taken what it waits for, so that
then nothing is pending on the other side (`clear_at_kill`).

A round is three steps of each process, and the steps that are left bound the run.
-/

set_option autoImplicit false

namespace LinuxExercises.PingPong

open Foundations
open Process (Role)

variable {program : Program} {argv : List (List Byte)} {n : Nat} {role : Role}

/-! ## A process in its rounds -/

namespace Process

/-- Where a process is in its rounds, the counts of its calls are those of its loop. The parent
waits first, and the child sends first. -/
def InRound (n : Nat) (role : Role) (p : Process) : Prop :=
  match p.point, role with
  | .loop, _ => p.sends = p.scnt ∧ p.waits = p.scnt ∧ p.scnt ≤ n
  | .wait, .parent | .kill, .child => p.sends = p.scnt ∧ p.waits = p.scnt ∧ p.scnt < n
  | .kill, .parent => p.sends = p.scnt ∧ p.waits = p.scnt + 1 ∧ p.scnt < n
  | .wait, .child => p.sends = p.scnt + 1 ∧ p.waits = p.scnt ∧ p.scnt < n
  | .ended _, _ => p.sends = p.scnt ∧ p.waits = p.scnt ∧ p.scnt = n
  | _, _ => False

/-- The signal is blocked, and it has a handler where the process waits with `sigsuspend`. -/
structure Ready (program : Program) (p : Process) : Prop where
  blocked : p.signal.blocked = true
  caught : program.suspends = true → p.signal.caught = true

/-- All that the other process has sent has been taken or is pending. -/
def Answered (p other : Process) : Prop := other.sends = p.waits + p.signal.pending.toNat

/-- The steps that are left to a process. -/
def left (n : Nat) (role : Role) (p : Process) : Nat :=
  match p.point, role with
  | .loop, _ => 3 * (n - p.scnt) + 1
  | .wait, .parent | .kill, .child => 3 * (n - p.scnt)
  | .kill, .parent | .wait, .child => 3 * (n - p.scnt) - 1
  | _, _ => 0

/-- The parent is never behind with its waits, and the child never with its sends. Neither is ahead
with its sends by more than one. -/
theorem InRound.order {p : Process} (inRound : p.InRound n role) :
    p.scnt ≤ p.waits ∧ p.sends ≤ p.waits + 1 ∧
      match role with
      | .parent => p.sends ≤ p.waits
      | .child => p.waits ≤ p.sends := by
  obtain ⟨point, scnt, signal, sends, waits⟩ := p
  cases role <;> cases point <;> simp only [InRound] at inRound <;> dsimp only <;> omega

/-- What a step of a process in its rounds does to the two processes. -/
inductive Move (p other : Process) : Process → Process → Prop where
  | passes {p' : Process} : p'.signal = p.signal → p'.sends = p.sends → p'.waits = p.waits →
      Move p other p' other
  | sends {p' : Process} : p.point = .kill → p'.signal = p.signal → p'.sends = p.sends + 1 →
      p'.waits = p.waits → Move p other p' other.receive
  | takes {p' : Process} : p.point = .wait → p.signal.pending = true →
      p'.signal = p.signal.clear → p'.sends = p.sends → p'.waits = p.waits + 1 →
      Move p other p' other

/-- No step changes the mask or the handler. -/
theorem Move.ready {p other p' other' : Process} (move : Move p other p' other')
    (ready : p.Ready program) : p'.Ready program := by
  cases move with
  | passes signal _ _ => exact ⟨signal ▸ ready.blocked, signal ▸ ready.caught⟩
  | sends _ signal _ _ => exact ⟨signal ▸ ready.blocked, signal ▸ ready.caught⟩
  | takes _ _ signal _ _ => exact ⟨signal ▸ ready.blocked, signal ▸ ready.caught⟩

theorem check_of_braces (braces : program.braces = true) (next : Process) :
    program.check false next = next := by
  rw [Program.check, braces]
  exact if_neg Bool.false_ne_true

theorem waiting_of_ready {p : Process} (ready : p.Ready program) :
    program.waiting p.signal = p.signal.sigwaitinfo := by
  rw [Program.waiting]
  split
  case isTrue suspends => exact SignalState.sigsuspend_of_caught (ready.caught suspends)
  case isFalse => rfl

theorem step_at_loop {p other : Process} (atLoop : p.point = .loop) :
    p.step program n role false other =
      some (if p.scnt < n then p.enter role else { p with point := .ended .success }, other) := by
  rw [step, atLoop]
  simp only [Int.ofNat_lt]
  exact (apply_ite (fun next => some (next, other)) _ _ _).symm

theorem step_at_kill {p other : Process} (braces : program.braces = true)
    (atKill : p.point = .kill) :
    p.step program n role false other = some (p.sent role, other.receive) := by
  rw [step, atKill]
  exact congrArg (fun next => some (next, other.receive)) (check_of_braces braces _)

theorem step_at_wait {p other : Process} (braces : program.braces = true)
    (ready : p.Ready program) (atWait : p.point = .wait) :
    p.step program n role false other =
      if p.signal.pending then some (p.waited role p.signal.clear, other) else none := by
  rw [step, atWait]
  simp only [Bool.false_eq_true, if_false, waiting_of_ready ready, SignalState.sigwaitinfo]
  cases p.signal.pending with
  | false => rfl
  | true => exact congrArg (fun next => some (next, other)) (check_of_braces braces _)

/-- **The step lemma of a process.** -/
theorem move_of_step {p other p' other' : Process} (braces : program.braces = true)
    (ready : p.Ready program) (inRound : p.InRound n role)
    (taken : p.step program n role false other = some (p', other')) :
    Move p other p' other' ∧ p'.InRound n role ∧ p'.left n role < p.left n role := by
  cases point : p.point with
  | loop =>
      rw [step_at_loop point, Option.some.injEq, Prod.mk.injEq] at taken
      obtain ⟨rfl, rfl⟩ := taken
      simp only [InRound, point] at inRound
      split
      case isTrue more =>
        cases role <;> refine ⟨.passes rfl rfl rfl, ?_, ?_⟩ <;>
          simp only [enter, InRound, left, point] <;> omega
      case isFalse done =>
        refine ⟨.passes rfl rfl rfl, ?_, ?_⟩ <;> simp only [InRound, left, point] <;> omega
  | kill =>
      rw [step_at_kill braces point, Option.some.injEq, Prod.mk.injEq] at taken
      obtain ⟨rfl, rfl⟩ := taken
      cases role <;> simp only [InRound, point] at inRound <;>
        refine ⟨.sends point rfl rfl rfl, ?_, ?_⟩ <;>
        simp only [sent, again, InRound, left, point] <;> omega
  | wait =>
      rw [step_at_wait braces ready point] at taken
      split at taken
      case isFalse => cases taken
      case isTrue pending =>
        rw [Option.some.injEq, Prod.mk.injEq] at taken
        obtain ⟨rfl, rfl⟩ := taken
        cases role <;> simp only [InRound, point] at inRound <;>
          refine ⟨.takes point pending rfl rfl rfl, ?_, ?_⟩ <;>
          simp only [waited, again, InRound, left, point] <;> omega
  | ended status =>
      rw [step, point] at taken
      cases taken
  | _ =>
      simp only [InRound, point] at inRound

/-- A process in its rounds can make a step, unless it has left its loop or is asleep. -/
theorem stuck_cases {p other : Process} (braces : program.braces = true)
    (ready : p.Ready program) (inRound : p.InRound n role)
    (stuck : p.step program n role false other = none) :
    (∃ status, p.point = .ended status) ∨ p.Asleep := by
  cases point : p.point with
  | loop =>
      rw [step_at_loop point] at stuck
      cases stuck
  | kill =>
      rw [step_at_kill braces point] at stuck
      cases stuck
  | wait =>
      rw [step_at_wait braces ready point] at stuck
      split at stuck
      case isTrue => cases stuck
      case isFalse empty => exact .inr ⟨point, Bool.eq_false_iff.mpr empty⟩
  | ended status => exact .inl ⟨status, rfl⟩
  | _ => simp only [InRound, point] at inRound

/-- The signal becomes pending for a process in its rounds, unless it has left its loop. -/
theorem receive_of_ready {p : Process} (ready : p.Ready program) (inRound : p.InRound n role)
    (inLoop : p.scnt < n) :
    p.receive = { p with signal := { p.signal with pending := true } } := by
  rw [receive, SignalState.receive_of_blocked ready.blocked]
  cases point : p.point with
  | ended status =>
      simp only [InRound, point] at inRound
      omega
  | killed => simp only [InRound, point] at inRound
  | _ => rfl

def Role.other : Role → Role
  | .parent => .child
  | .child => .parent

end Process

/-! ## The two processes -/

/-- The invariant behind `fork`. It says the same of both sides. -/
structure Linked (program : Program) (n : Nat) (role : Role) (p other : Process) : Prop where
  ready : p.Ready program
  readyOther : other.Ready program
  inRound : p.InRound n role
  inRoundOther : other.InRound n role.other
  answered : p.Answered other
  answeredOther : other.Answered p

namespace Linked

variable {p other p' other' : Process}

theorem symm (linked : Linked program n role p other) :
    Linked program n role.other other p where
  ready := linked.readyOther
  readyOther := linked.ready
  inRound := linked.inRoundOther
  inRoundOther := by
    cases role <;> exact linked.inRound
  answered := linked.answeredOther
  answeredOther := linked.answered

/-- A process that is about to send has taken all that was sent to it, and the other one too. So
nothing is pending there that the signal could fall together with. -/
theorem clear_at_kill (linked : Linked program n role p other) (atKill : p.point = .kill) :
    other.signal.pending = false ∧ other.scnt < n := by
  obtain ⟨-, -, inRound, inRoundOther, answered, answeredOther⟩ := linked
  have order := inRoundOther.order
  rw [Process.Answered] at answered answeredOther
  have counted : other.signal.pending.toNat = 0 ∧ other.scnt < n := by
    cases role <;> simp only [Process.InRound, atKill] at inRound <;>
      simp only [Role.other] at order <;> omega
  exact ⟨Bool.toNat_eq_zero.mp counted.1, counted.2⟩

/-- **The step lemma.** A step of one side keeps the invariant and leaves fewer steps. -/
theorem step (braces : program.braces = true) (linked : Linked program n role p other)
    (taken : p.step program n role false other = some (p', other')) :
    Linked program n role p' other' ∧
      p'.left n role + other'.left n role.other < p.left n role + other.left n role.other := by
  obtain ⟨move, inRound, fewer⟩ := Process.move_of_step braces linked.ready linked.inRound taken
  have ready := move.ready linked.ready
  have answered := linked.answered
  have answeredOther := linked.answeredOther
  rw [Process.Answered] at answered answeredOther
  cases move with
  | passes signal sends waits =>
      refine ⟨⟨ready, linked.readyOther, inRound, linked.inRoundOther, ?_, ?_⟩, by omega⟩
      · rw [Process.Answered, signal, waits, answered]
      · rw [Process.Answered, sends, answeredOther]
  | sends atKill signal sends waits =>
      obtain ⟨clear, inLoop⟩ := linked.clear_at_kill atKill
      rw [clear, Bool.toNat_false] at answeredOther
      rw [Process.receive_of_ready linked.readyOther linked.inRoundOther inLoop]
      have readyOther := linked.readyOther
      refine ⟨⟨ready, ⟨readyOther.blocked, readyOther.caught⟩, inRound, linked.inRoundOther,
        ?_, ?_⟩, Nat.add_lt_add_right fewer _⟩
      · rw [Process.Answered, signal, waits, answered]
      · rw [Process.Answered, sends, answeredOther]
        rfl
  | takes atWait pending signal sends waits =>
      rw [pending, Bool.toNat_true] at answered
      refine ⟨⟨ready, linked.readyOther, inRound, linked.inRoundOther, ?_, ?_⟩, by omega⟩
      · rw [Process.Answered, signal, waits, answered]
        rfl
      · rw [Process.Answered, sends, answeredOther]

/-- One of the two can always go on: what one waits for the other has sent. -/
theorem not_asleep (linked : Linked program n role p other) : ¬ (p.Asleep ∧ other.Asleep) := by
  rintro ⟨⟨atWait, clear⟩, ⟨atWaitOther, clearOther⟩⟩
  obtain ⟨-, -, inRound, inRoundOther, answered, answeredOther⟩ := linked
  rw [Process.Answered, clear, Bool.toNat_false] at answered
  rw [Process.Answered, clearOther, Bool.toNat_false] at answeredOther
  cases role <;> simp only [Process.InRound, Role.other, atWait, atWaitOther] at * <;> omega

/-- Nor is one asleep when the other has left its loop. -/
theorem not_asleep_of_ended (linked : Linked program n role p other) {status : Status}
    (ended : other.point = .ended status) : ¬ p.Asleep := by
  rintro ⟨atWait, clear⟩
  obtain ⟨-, -, inRound, inRoundOther, answered, -⟩ := linked
  rw [Process.Answered, clear, Bool.toNat_false] at answered
  cases role <;> simp only [Process.InRound, Role.other, atWait, ended] at * <;> omega

end Linked

theorem Process.done_of_ended {p : Process} (inRound : p.InRound n role) {status : Status}
    (ended : p.point = .ended status) : p.Done n := by
  simp only [InRound, ended] at inRound
  exact ⟨⟨status, ended⟩, by omega, by omega⟩

/-- When neither side can make a step both have done all rounds. -/
theorem Linked.done_of_stuck (braces : program.braces = true) {p other : Process}
    (linked : Linked program n role p other)
    (stuck : p.step program n role false other = none)
    (stuckOther : other.step program n role.other false p = none) : p.Done n ∧ other.Done n := by
  rcases Process.stuck_cases braces linked.ready linked.inRound stuck with
    ⟨status, ended⟩ | asleep <;>
  rcases Process.stuck_cases braces linked.readyOther linked.inRoundOther stuckOther with
    ⟨statusOther, endedOther⟩ | asleepOther
  · exact ⟨Process.done_of_ended linked.inRound ended,
      Process.done_of_ended linked.inRoundOther endedOther⟩
  · exact absurd asleepOther (linked.symm.not_asleep_of_ended ended)
  · exact absurd asleep (linked.not_asleep_of_ended endedOther)
  · exact absurd ⟨asleep, asleepOther⟩ linked.not_asleep

/-! ## Whole runs -/

/-- What holds of the parent before `fork`: the signal has its handler and is blocked when the
steps for it have been made. -/
structure Process.Fresh (program : Program) (p : Process) : Prop where
  counts : p.scnt = 0 ∧ p.sends = 0 ∧ p.waits = 0
  clear : p.signal.pending = false
  setUp :
    match p.point with
    | .usage | .sigaction => True
    | .sigprocmask => program.suspends = true → p.signal.caught = true
    | .fork => p.Ready program
    | _ => False

/-- The invariant of the whole run. -/
def System.Inv (program : Program) (n : Nat) (s : System) : Prop :=
  match s.child with
  | none => s.parent.Fresh program
  | some child => Linked program n .parent s.parent child

/-- The steps that are left: those of the set-up, and those of the two loops. -/
def System.left (n : Nat) (s : System) : Nat :=
  match s.child with
  | some child => s.parent.left n .parent + child.left n .child
  | none =>
    match s.parent.point with
    | .usage => 6 * n + 6
    | .sigaction => 6 * n + 5
    | .sigprocmask => 6 * n + 4
    | .fork => 6 * n + 3
    | _ => 0

theorem inv_start : System.Inv program n System.start := ⟨⟨rfl, rfl, rfl⟩, rfl, trivial⟩

/-- Behind `fork` nothing has been sent, and the child has the mask and the handler. -/
theorem linked_forked {p : Process} (fresh : p.Fresh program) (atFork : p.point = .fork) :
    System.Inv program n (System.forked p) := by
  obtain ⟨⟨scnt, sends, waits⟩, clear, setUp⟩ := fresh
  rw [atFork] at setUp
  have entered : p.sends = p.scnt ∧ p.waits = p.scnt ∧ p.scnt ≤ n := by omega
  refine ⟨⟨setUp.blocked, setUp.caught⟩, ⟨setUp.blocked, setUp.caught⟩, entered, entered, ?_, ?_⟩
  · change p.sends = p.waits + p.signal.pending.toNat
    rw [clear, sends, waits, Bool.toNat_false]
  · exact sends.trans waits.symm

/-- A step of the set-up. -/
theorem setUp_step (braces : program.braces = true) (accepted : usageWrong argv = false)
    {p : Process} {t : System} (fresh : p.Fresh program)
    (taken : System.setUp program argv false p = some t) :
    System.Inv program n t ∧ t.left n < System.left n ⟨p, none⟩ := by
  have accept (next : Process) : program.check (usageWrong argv) next = next :=
    accepted ▸ Process.check_of_braces braces next
  cases point : p.point with
  | usage =>
      obtain ⟨counts, clear, -⟩ := fresh
      rw [System.setUp, point] at taken
      dsimp only at taken
      rw [accept, Option.some.injEq] at taken
      subst taken
      cases suspends : program.suspends with
      | true => exact ⟨⟨counts, clear, trivial⟩, by simp [System.left, point]⟩
      | false =>
          refine ⟨⟨counts, clear, fun handled => ?_⟩, by simp [System.left, point]⟩
          rw [suspends] at handled
          cases handled
  | sigaction =>
      obtain ⟨counts, clear, -⟩ := fresh
      rw [System.setUp, point] at taken
      dsimp only at taken
      rw [Process.check_of_braces braces, Option.some.injEq] at taken
      subst taken
      exact ⟨⟨counts, clear, fun _ => rfl⟩, by simp [System.left, point]⟩
  | sigprocmask =>
      obtain ⟨counts, clear, handled⟩ := fresh
      rw [System.setUp, point] at taken
      rw [point] at handled
      dsimp only at taken
      rw [Process.check_of_braces braces, Option.some.injEq] at taken
      subst taken
      exact ⟨⟨counts, clear, ⟨rfl, handled⟩⟩, by simp [System.left, point]⟩
  | fork =>
      have linked := linked_forked (n := n) fresh point
      obtain ⟨⟨scnt, -, -⟩, -, -⟩ := fresh
      rw [System.setUp, point] at taken
      obtain rfl : System.forked p = t := Option.some.inj taken
      refine ⟨linked, ?_⟩
      simp only [System.left, System.forked, Process.left, point, scnt]
      omega
  | _ =>
      rw [System.setUp, point] at taken
      cases taken

/-- **The step lemma of the run.** -/
theorem inv_step (braces : program.braces = true) (accepted : usageWrong argv = false)
    (rounds : numSigs argv = n) {s t : System} {a : Action} (succeeds : a.Succeeds)
    (inv : s.Inv program n) (taken : System.step program argv s a = some t) :
    t.Inv program n ∧ t.left n < s.left n := by
  obtain ⟨role, fails⟩ := a
  obtain rfl : fails = false := succeeds
  obtain ⟨parent, _ | child⟩ := s
  · cases role with
    | child => cases taken
    | parent => exact setUp_step braces accepted inv taken
  · cases role with
    | parent =>
        rw [System.step, rounds] at taken
        obtain ⟨⟨p, c⟩, moved, rfl⟩ := Option.map_eq_some_iff.mp taken
        exact Linked.step braces inv moved
    | child =>
        rw [System.step, rounds] at taken
        obtain ⟨⟨c, p⟩, moved, rfl⟩ := Option.map_eq_some_iff.mp taken
        obtain ⟨linked, fewer⟩ := Linked.step braces (Linked.symm inv) moved
        refine ⟨linked.symm, ?_⟩
        simp only [System.left]
        simp only [Role.other] at fewer
        omega

/-- The set-up can always go on. -/
theorem setUp_ne_none {p : Process} (fresh : p.Fresh program) :
    System.setUp program argv false p ≠ none := by
  have setUp := fresh.setUp
  rw [System.setUp]
  cases point : p.point <;> rw [point] at setUp <;> first | exact setUp.elim | simp

theorem inv_of_reached (braces : program.braces = true) (accepted : usageWrong argv = false)
    (rounds : numSigs argv = n) {t : System} (reached : Reached program argv t) :
    t.Inv program n := by
  obtain ⟨actions, succeed, ran⟩ := reached
  exact run_invariant_of (fun succeeds inv taken =>
    (inv_step braces accepted rounds succeeds inv taken).1) succeed inv_start ran

/-- **Main.** With the braces the diagram holds for every number of rounds, however the steps of the
two processes are interleaved. -/
theorem alternates_of_braces (braces : program.braces = true)
    (accepted : usageWrong argv = false) (rounds : 0 ≤ numSigs argv) :
    Alternates program argv := by
  obtain ⟨n, rounds⟩ := Int.eq_ofNat_of_zero_le rounds
  have inv {t : System} (reached : Reached program argv t) : t.Inv program n :=
    inv_of_reached braces accepted rounds reached
  refine ⟨⟨System.start.left n, fun actions t succeed ran => ?_⟩, ?_, ?_, ?_⟩
  · exact run_length_le (System.left n) (inv_step braces accepted rounds) succeed inv_start ran
  · rintro ⟨parent, _ | child⟩ reached stuck
    · exact absurd (stuck ⟨.parent, false⟩ rfl) (setUp_ne_none (inv reached))
    · have stuckParent := stuck ⟨.parent, false⟩ rfl
      have stuckChild := stuck ⟨.child, false⟩ rfl
      rw [System.step, rounds] at stuckParent stuckChild
      rw [rounds]
      exact ⟨child, rfl, Linked.done_of_stuck braces (inv reached)
        (Option.map_eq_none_iff.mp stuckParent) (Option.map_eq_none_iff.mp stuckChild)⟩
  · rintro ⟨parent, _⟩ child reached rfl
    have linked : Linked program n .parent parent child := inv reached
    have answered := linked.answered
    have answeredOther := linked.answeredOther
    rw [Process.Answered] at answered answeredOther
    exact ⟨answeredOther ▸ Nat.le_add_right _ _, answered ▸ Nat.le_add_right _ _⟩
  · rintro ⟨parent, _⟩ child reached rfl
    exact Linked.not_asleep (inv reached)

/-- So the braces are all that the programs lack. -/
theorem alternates_iff (accepted : usageWrong argv = false) (rounds : 0 ≤ numSigs argv) :
    Alternates program argv ↔ program.braces = true := by
  refine ⟨fun alternates => ?_, fun braces => alternates_of_braces braces accepted rounds⟩
  by_contra missing
  exact not_alternates_of_noBraces (Bool.eq_false_iff.mpr missing) alternates

end LinuxExercises.PingPong
