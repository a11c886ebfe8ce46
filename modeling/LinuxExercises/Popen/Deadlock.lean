import LinuxExercises.Popen.Bookkeeping

/-!
# The child that never sees the end of its input

A child that reads from a stream of type `"w"` gets to the end of its input when the last
write end of its pipe is closed. The parent closes its own behind the `waitpid` of
`my_pclose`, and the child keeps the one that it inherited: the branch for `"w"` has no
`close(pd[1])`, where the branch for `"r"` closes the end that it does not use. So a parent
that calls `my_pclose` on such a stream waits for a child that waits for input.

A child of a stream of type `"r"` has no read end in its program: it closes its own, and the
loop over `pid_list` closes those of the other streams (`Child.Sealed`). No run in which
`my_pclose` is called on a stream of type `"w"` only when its child has ended gets to a
deadlock (`not_deadlocked_of_run`).
-/

set_option autoImplicit false

namespace LinuxExercises.Popen

open Foundations

/-- The stream that is closed is of type `"r"`, or its child has ended. -/
def ChildEnded (s : State) : Action → Prop
  | .myPclose fd => ∀ stream ∈ s.streams.file fd, ∀ c ∈ s.children[stream.child]?,
      c.mode = .r ∨ c.phase = .zombie
  | _ => True

instance : ∀ (s : State) (a : Action), Decidable (ChildEnded s a)
  | s, .myPclose fd => inferInstanceAs (Decidable (∀ stream ∈ s.streams.file fd,
      ∀ c ∈ s.children[stream.child]?, c.mode = .r ∨ c.phase = .zombie))
  | _, .myPopen _ _ => .isTrue trivial
  | _, .fwrite _ _ => .isTrue trivial
  | _, .fflush _ _ => .isTrue trivial
  | _, .fread _ _ => .isTrue trivial
  | _, .waitpid => .isTrue trivial
  | _, .fails => .isTrue trivial
  | _, .child _ _ => .isTrue trivial

/-! ## The children that write -/

namespace Child

/-- The loop will close this descriptor. -/
def Listed (c : Child) (fd : Nat) : Prop := ∃ pid ∈ c.pidList[fd]?, 0 < pid

/-- The read ends that a child still has are the one of its own pipe and those of streams that
the loop has not come to. -/
def Sealed (c : Child) : Prop :=
  match c.phase with
  | .forked => (∃ pipe, c.fds.file c.writeFd = some (.writeEnd pipe)) ∧
      ∀ fd pipe, c.fds.file fd = some (.readEnd pipe) → fd = c.readFd ∨ c.Listed fd
  | .closing i => ∀ fd pipe, c.fds.file fd = some (.readEnd pipe) → i ≤ fd ∧ c.Listed fd
  | _ => ∀ fd pipe, c.fds.file fd ≠ some (.readEnd pipe)

variable {c c' : Child}

theorem sealed_exit (c : Child) : c.exit.Sealed := by
  intro fd pipe has
  cases has

theorem sealed_redirect (isSealed : c.Sealed) (forked : c.phase = .forked) (mode : c.mode = .r) :
    c.redirect.Sealed := by
  rw [Sealed, forked] at isSealed
  obtain ⟨⟨pipe, write⟩, others⟩ := isSealed
  rw [redirect, mode]
  intro fd pipe' has
  simp only [Descriptors.dup2, Descriptors.close, Descriptors.file_put] at has
  refine ⟨Nat.zero_le fd, ?_⟩
  split at has
  · split at has
    · cases has
    · rw [write] at has
      cases has
  · split at has
    · cases has
    · rename_i notRead
      exact (others fd pipe' has).resolve_left notRead

theorem Listed.lt {fd : Nat} (listed : c.Listed fd) : fd < 100 := by
  obtain ⟨pid, member, -⟩ := listed
  exact (Vector.getElem?_eq_some_iff.mp member).1

/-- What is open behind a round of the loop was open before it, and is not at the index of the
round when that is listed. -/
theorem file_of_round {i pid : Nat} (entry : c.pidList[i]? = some pid) {fd : Nat}
    {file : OpenFile}
    (isOpen : (if 0 < pid then c.fds.close i else c.fds).file fd = some file) :
    c.fds.file fd = some file ∧ (c.Listed fd → fd ≠ i) := by
  by_cases positive : 0 < pid
  · rw [if_pos positive, Descriptors.close, Descriptors.file_put] at isOpen
    split at isOpen
    · cases isOpen
    · rename_i elsewhere
      exact ⟨isOpen, fun _ => elsewhere⟩
  · rw [if_neg positive] at isOpen
    refine ⟨isOpen, ?_⟩
    rintro ⟨pid', member, positive'⟩ rfl
    cases entry.symm.trans member
    exact positive positive'

theorem sealed_closeNext (isSealed : c.Sealed) {i : Nat} (closing : c.phase = .closing i) :
    (c.closeNext i).Sealed := by
  rw [Sealed, closing] at isSealed
  rw [closeNext]
  split
  · rename_i pid entry
    intro fd pipe has
    obtain ⟨isOpen, elsewhere⟩ := file_of_round entry has
    obtain ⟨above, listed⟩ := isSealed fd pipe isOpen
    exact ⟨Nat.lt_of_le_of_ne above (Ne.symm (elsewhere listed)), listed⟩
  · rename_i past
    intro fd pipe has
    obtain ⟨above, listed⟩ := isSealed fd pipe has
    have behind : 100 ≤ i := Vector.getElem?_eq_none_iff.mp past
    exact absurd listed.lt (Nat.not_lt_of_le (Nat.le_trans behind above))

theorem sealed_of_program (isSealed : c.Sealed) (before : c.phase.InProgram) {phase : Phase}
    (after : phase.InProgram) : Sealed { c with phase := phase } := by
  have none : ∀ fd pipe, c.fds.file fd ≠ some (.readEnd pipe) := by
    rw [Sealed] at isSealed
    cases here : c.phase with
    | running | reading fd =>
        rw [here] at isSealed
        exact isSealed
    | forked | closing i | zombie | reaped =>
        rw [here] at before
        exact absurd before id
  cases phase with
  | running | reading fd => exact none
  | forked | closing i | zombie | reaped => exact absurd after id

/-- A child keeps its read ends closed. -/
theorem sealed_of_moved (isSealed : c.Sealed) (mode : c.mode = .r) (moved : c.Moved c') :
    c'.Sealed := by
  cases moved with
  | redirect forked => exact sealed_redirect isSealed forked mode
  | closeNext closing => exact sealed_closeNext isSealed closing
  | program before after => exact sealed_of_program isSealed before after
  | exit _ _ => exact sealed_exit c

/-- A child in a `read` from a pipe has a read end. -/
theorem not_sealed_of_input {pipe : Nat} (reads : pipe ∈ c.input) :
    (∃ fd, c.phase = .reading fd) ∧ ¬ c.Sealed := by
  rw [input] at reads
  split at reads
  · rename_i fd reading
    split at reads
    · rename_i pipe' has
      refine ⟨⟨fd, reading⟩, fun isSealed => ?_⟩
      rw [Sealed, reading] at isSealed
      exact isSealed fd pipe' has
    · cases reads
  · cases reads

end Child

/-! ## The parent -/

/-- What holds while `my_pclose` is called as it should be. -/
structure Calm (s : State) : Prop where
  registered : Registered s
  ends : ∀ {fd pipe : Nat}, s.fds.file fd = some (.readEnd pipe) → ∃ child, s.owner fd = some child
  isSealed : ∀ c ∈ s.children, c.mode = .r → c.Sealed
  awaited : ∀ {fd child : Nat} {c : Child}, s.pc = .waiting fd child →
    s.children[child]? = some c → c.mode = .r ∨ c.phase = .zombie

variable {s t : State} {a : Action}

theorem file_inherited (inherited : List (Option Nat)) (fd pipe : Nat) :
    (State.start inherited).fds.file fd ≠ some (.readEnd pipe) := by
  rw [State.start]
  induction inherited generalizing fd with
  | nil => simp [Descriptors.file]
  | cons entry inherited ih =>
      cases fd with
      | zero => cases entry <;> simp [Descriptors.file]
      | succ fd => exact ih fd

theorem calm_start (inherited : List (Option Nat)) : Calm (.start inherited) where
  registered := registered_start inherited
  ends := fun has => absurd has (file_inherited inherited _ _)
  isSealed := by simp [State.start]
  awaited := by simp [State.start]

/-- A parent that is no more has nothing open. -/
theorem calm_leave (numbered : Numbered s.children)
    (isSealed : ∀ c ∈ s.children, c.mode = .r → c.Sealed) {pc : Pc}
    (idle : ∀ fd child, pc ≠ .waiting fd child) : Calm (s.leave pc) where
  registered := registered_leave numbered idle
  ends := by simp [State.leave, Descriptors.file]
  isSealed := isSealed
  awaited := by
    intro fd child c waits
    exact absurd waits (idle fd child)

theorem calm_register {fd child pid : Nat} (registered : Registered (s.register fd child pid))
    (numbered : Numbered s.children) (ready : s.pc = .ready)
    (ends : ∀ {other pipe : Nat}, s.fds.file other = some (.readEnd pipe) →
      other = fd ∨ ∃ k, s.owner other = some k)
    (isSealed : ∀ c ∈ s.children, c.mode = .r → c.Sealed) : Calm (s.register fd child pid) := by
  by_cases within : fd < 100
  · rw [State.register, dif_pos within] at registered ⊢
    refine ⟨registered, ?_, isSealed, ?_⟩
    · intro other pipe has
      by_cases here : other = fd
      · refine ⟨child, ?_⟩
        rw [State.owner, here, Descriptors.file_put_self, Option.map_some]
      · obtain ⟨k, owned⟩ := (ends has).resolve_left here
        refine ⟨k, ?_⟩
        rw [State.owner, Descriptors.file_put_of_ne _ here]
        exact owned
    · intro other k c waits
      rw [ready] at waits
      cases waits
  · rw [State.register, dif_neg within]
    exact calm_leave numbered isSealed (by simp)

namespace Calm

/-- The child of a stream of type `"r"` when it is forked. -/
theorem sealed_forked (calm : Calm s) (mode : Mode) (pid : Nat) :
    Child.Sealed ⟨mode, pid,
      (s.fds.pipe (.readEnd s.children.length) (.writeEnd s.children.length)).1,
      (s.fds.pipe (.readEnd s.children.length) (.writeEnd s.children.length)).2.1, s.pidList,
      (s.fds.pipe (.readEnd s.children.length) (.writeEnd s.children.length)).2.2, .forked⟩ := by
  refine ⟨⟨s.children.length, ?_⟩, ?_⟩
  · rw [Descriptors.file_pipe, if_pos rfl]
  · intro fd pipe has
    simp only [Descriptors.file_pipe] at has
    split at has
    · cases has
    · split at has
      · rename_i isRead
        exact .inl isRead
      · obtain ⟨child, owned⟩ := calm.ends has
        obtain ⟨-, c, among, -, entry⟩ := calm.registered.listed owned
        exact .inr ⟨c.pid, entry, calm.registered.numbered.pos among⟩

theorem of_popen (calm : Calm s) (ready : s.pc = .ready) {mode : Mode} {pid : Nat}
    (positive : 0 < pid) (fresh : ∀ c ∈ s.children, c.phase ≠ .reaped → c.pid ≠ pid) :
    Calm (s.myPopen mode pid) := by
  have registered := @Registered.of_popen _ calm.registered ready mode pid positive fresh
  have numbered := fun c positive fresh =>
    @Numbered.fork s.children calm.registered.numbered c positive fresh
  have forked := calm.sealed_forked mode pid
  -- The only read end that is new is at the lower of the two descriptors.
  have ends : ∀ {unused other pipe : Nat},
      ((s.fds.pipe (.readEnd s.children.length) (.writeEnd s.children.length)).2.2.close
        unused).file other = some (.readEnd pipe) →
      other ≠ unused ∧
        (other = (s.fds.pipe (.readEnd s.children.length) (.writeEnd s.children.length)).1 ∨
          ∃ child, s.owner other = some child) := by
    intro unused other pipe has
    rw [Descriptors.close, Descriptors.file_put] at has
    split at has
    · cases has
    · rename_i used
      refine ⟨used, ?_⟩
      rw [Descriptors.file_pipe] at has
      split at has
      · cases has
      · split at has
        · rename_i isRead
          exact .inl isRead
        · exact .inr (calm.ends has)
  cases mode with
  | r =>
      refine calm_register registered (numbered _ positive fresh) ready (fun has => (ends has).2) ?_
      intro c member _
      rcases List.mem_append.mp member with old | new
      · exact calm.isSealed c old ‹_›
      · rw [List.mem_singleton.mp new]
        exact forked
  | w =>
      refine calm_register registered (numbered _ positive fresh) ready ?_ ?_
      · intro other pipe has
        obtain ⟨used, owned⟩ := ends has
        exact .inr (owned.resolve_left used)
      · intro c member mode
        rcases List.mem_append.mp member with old | new
        · exact calm.isSealed c old mode
        · rw [List.mem_singleton.mp new] at mode
          cases mode
  | other =>
      refine calm_leave (numbered _ positive fresh) ?_ (by simp)
      intro c member mode
      rcases List.mem_append.mp member with old | new
      · exact calm.isSealed c old mode
      · rw [List.mem_singleton.mp new] at mode
        cases mode

/-- **Every step** that meets the condition keeps the system calm. -/
theorem of_step (calm : Calm s) (ended : ChildEnded s a) (taken : step s a = some t) :
    Calm t := by
  have registered := registered_step calm.registered taken
  cases stepped taken with
  | @child k a c c' pipes among moved =>
      have kept := moved.kept
      have inside : k < s.children.length := (List.getElem?_eq_some_iff.mp among).1
      refine ⟨registered, calm.ends, ?_, ?_⟩
      · intro d member mode
        rcases List.mem_or_eq_of_mem_set member with old | rfl
        · exact calm.isSealed d old mode
        · rw [kept.mode] at mode
          exact Child.sealed_of_moved (calm.isSealed c (List.mem_of_getElem? among) mode) mode moved
      · intro fd child d waits found
        by_cases here : k = child
        · subst here
          rw [List.getElem?_set_self inside] at found
          cases found
          rw [kept.mode]
          exact .inl ((calm.awaited waits among).resolve_right kept.alive.1)
        · rw [List.getElem?_set_ne here] at found
          exact calm.awaited waits found
  | popen ready positive fresh => exact calm.of_popen ready positive fresh
  | data _ _ same =>
      refine ⟨registered, ?_, calm.isSealed, calm.awaited⟩
      intro fd pipe has
      obtain ⟨child, owned⟩ := calm.ends has
      exact ⟨child, (same fd).trans owned⟩
  | @pclose fd stream _ found =>
      rw [calm.registered.myPclose_eq found] at registered ⊢
      refine ⟨registered, calm.ends, calm.isSealed, ?_⟩
      intro fd' child c waits among
      cases waits
      exact ended stream found c among
  | @waited fd child c stream waits among phase found =>
      have isSealed : ∀ d ∈ s.children.set child { c with phase := .reaped },
          d.mode = .r → d.Sealed := by
        intro d member mode
        rcases List.mem_or_eq_of_mem_set member with old | rfl
        · exact calm.isSealed d old mode
        · have before := calm.isSealed c (List.mem_of_getElem? among) mode
          rw [Child.Sealed, phase] at before
          exact before
      have numbered : Numbered (s.children.set child { c with phase := .reaped }) :=
        calm.registered.numbered.set among rfl (by rw [phase]; decide)
      by_cases within : fd < 100
      · by_cases killed : 0 < stream.unflushed ∧ ¬ State.Holds
            { s with
              children := s.children.set child { c with phase := .reaped }
              pidList := s.pidList.set fd 0 } (.readEnd stream.child)
        · rw [State.finishPclose, dif_pos within, State.fclose, if_pos killed]
          exact calm_leave numbered isSealed (by simp)
        · rw [State.finishPclose, dif_pos within, State.fclose, if_neg killed] at registered ⊢
          refine ⟨registered, ?_, isSealed, ?_⟩
          · intro other pipe has
            rw [Descriptors.close, Descriptors.file_put] at has
            split at has
            · cases has
            · rename_i elsewhere
              obtain ⟨k, owned⟩ := calm.ends has
              refine ⟨k, ?_⟩
              rw [State.owner, Descriptors.file_put_of_ne _ elsewhere]
              exact owned
          · intro other k d waits'
            cases waits'
      · rw [State.finishPclose, dif_neg within]
        exact calm_leave calm.registered.numbered calm.isSealed (by simp)
  | left _ => exact calm_leave calm.registered.numbered calm.isSealed (by simp)

/-- Nobody waits for a child that waits for input from the parent or itself. -/
theorem not_deadlocked (calm : Calm s) : ¬ s.Deadlocked := by
  rintro ⟨k, waits, c, among, pipe, reads, -⟩
  obtain ⟨⟨fd, reading⟩, unsealed⟩ := Child.not_sealed_of_input reads
  have awaited : ∃ fd, s.pc = .waiting fd k := by
    cases pc : s.pc with
    | waiting fd child =>
        rw [pc] at waits
        cases waits
        exact ⟨fd, rfl⟩
    | ready | exited | lost | overrun =>
        rw [pc] at waits
        cases waits
  obtain ⟨fd', awaited⟩ := awaited
  rcases calm.awaited awaited among with mode | ended
  · exact unsealed (calm.isSealed c (List.mem_of_getElem? among) mode)
  · rw [ended] at reading
    cases reading

end Calm

/-- **No deadlock.** In every run in which `my_pclose` is called on a stream of type `"w"`
only when its child has ended, the parent never waits for a child that waits for input which
only the parent or the child itself could still write. -/
theorem not_deadlocked_of_run {inherited : List (Option Nat)} {actions : List Action}
    (ran : run step (.start inherited) actions = some s)
    (ended : Along step ChildEnded (.start inherited) actions) : ¬ s.Deadlocked :=
  Calm.not_deadlocked
    (run_invariant_along (fun ended calm taken => Calm.of_step calm ended taken) ended
      (calm_start inherited) ran)

/-- A stream whose child has been killed. -/
theorem not_deadlocked_of_run_killed :
    ∃ s, run step .standard [.myPopen .w 7, .child 0 .exit, .myPclose 4] = some s ∧
      ¬ s.Deadlocked :=
  ⟨_, rfl, @not_deadlocked_of_run _ [some 0, some 1, some 2]
    [.myPopen .w 7, .child 0 .exit, .myPclose 4] rfl (by decide)⟩

/-- The child reads its standard input, and the parent writes six bytes and calls
`my_pclose`. -/
theorem deadlocked_reader :
    ∃ s, run step .standard ([.myPopen .w 7, .child 0 .redirect] ++
      List.replicate 101 (.child 0 .closeNext) ++
        [.child 0 (.read 0), .fwrite 4 6, .myPclose 4]) = some s ∧ s.Deadlocked := by
  have stuck : (run step .standard ([.myPopen .w 7, .child 0 .redirect] ++
      List.replicate 101 (.child 0 .closeNext) ++
        [.child 0 (.read 0), .fwrite 4 6, .myPclose 4])).any
          (fun s => decide s.Deadlocked) = true := by
    decide +kernel
  obtain ⟨s, ran, deadlocked⟩ := (Option.any_eq_true _ _).mp stuck
  exact ⟨s, ran, of_decide_eq_true deadlocked⟩

end LinuxExercises.Popen
