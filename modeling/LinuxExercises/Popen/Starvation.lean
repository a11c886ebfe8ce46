import LinuxExercises.Popen.Deadlock

/-!
# Every early `my_pclose` can end in a deadlock

A child of a stream of type `"w"` that has not ended has the read end of its pipe, and the
parent has the write end at the descriptor of the stream (`Fed`). When the parent calls
`my_pclose` on the stream, the child can come to its program, read what is in the pipe, and
wait for more: the two are in a deadlock (`deadlocks_of_early_pclose`). So a call that does
not wait for the end of the child is never safe.
-/

set_option autoImplicit false

namespace LinuxExercises.Popen

open Foundations

/-! ## A child that reads -/

namespace Child

/-- The child has the read end of the pipe, which its loop will not close, and of the other
read ends only those that the loop will close. -/
structure Feeds (c : Child) (pipe : Nat) : Prop where
  has : c.fds.file c.readFd = some (.readEnd pipe)
  unlisted : ¬ c.Listed c.readFd
  others : ∀ fd other, c.fds.file fd = some (.readEnd other) → other ≠ pipe →
    c.Listed fd ∧ ¬ c.phase.InProgram ∧ ∀ i, c.phase = .closing i → i ≤ fd

variable {c c' : Child} {pipe : Nat}

theorem feeds_redirect (feeds : c.Feeds pipe) (mode : c.mode = .w) : c.redirect.Feeds pipe := by
  rw [redirect, mode]
  refine ⟨?_, feeds.unlisted, ?_⟩
  · simp only [Descriptors.dup2, Descriptors.file_put]
    split
    · exact feeds.has
    · exact feeds.has
  · intro fd other has different
    simp only [Descriptors.dup2, Descriptors.file_put] at has
    split at has
    · rw [feeds.has] at has
      cases has
      exact absurd rfl different
    · obtain ⟨listed, -, -⟩ := feeds.others fd other has different
      refine ⟨listed, id, ?_⟩
      intro i closing
      cases closing
      exact Nat.zero_le fd

theorem feeds_closeNext (feeds : c.Feeds pipe) {i : Nat} (closing : c.phase = .closing i) :
    (c.closeNext i).Feeds pipe := by
  rw [closeNext]
  split
  · rename_i pid entry
    have unlisted : 0 < pid → c.readFd ≠ i := by
      rintro positive same
      exact feeds.unlisted ⟨pid, same ▸ entry, positive⟩
    refine ⟨?_, feeds.unlisted, ?_⟩
    · by_cases positive : 0 < pid
      · simp only [if_pos positive, Descriptors.close]
        rw [Descriptors.file_put_of_ne _ (unlisted positive)]
        exact feeds.has
      · simp only [if_neg positive]
        exact feeds.has
    · intro fd other has different
      obtain ⟨isOpen, elsewhere⟩ := file_of_round entry has
      obtain ⟨listed, -, above⟩ := feeds.others fd other isOpen different
      refine ⟨listed, id, ?_⟩
      intro j next
      cases next
      exact Nat.lt_of_le_of_ne (above i closing) (Ne.symm (elsewhere listed))
  · rename_i past
    refine ⟨feeds.has, feeds.unlisted, ?_⟩
    intro fd other has different
    obtain ⟨listed, -, above⟩ := feeds.others fd other has different
    have behind : 100 ≤ i := Vector.getElem?_eq_none_iff.mp past
    exact absurd listed.lt (Nat.not_lt_of_le (Nat.le_trans behind (above i closing)))

theorem feeds_of_moved (feeds : c.Feeds pipe) (mode : c.mode = .w) (moved : c.Moved c') :
    c'.phase = .zombie ∨ c'.Feeds pipe := by
  cases moved with
  | redirect _ => exact .inr (feeds_redirect feeds mode)
  | closeNext closing => exact .inr (feeds_closeNext feeds closing)
  | program before _ =>
      refine .inr ⟨feeds.has, feeds.unlisted, ?_⟩
      intro fd other has different
      exact absurd before (feeds.others fd other has different).2.1
  | exit _ _ => exact .inl rfl

/-- In its program the child can read from no other pipe. -/
theorem Feeds.input_eq (feeds : c.Feeds pipe) {other : Nat} (reads : other ∈ c.input) :
    other = pipe := by
  rw [input] at reads
  split at reads
  · rename_i fd reading
    split at reads
    · rename_i has
      cases reads
      by_contra different
      have outside := (feeds.others fd other has different).2.1
      rw [reading] at outside
      exact outside trivial
    · cases reads
  · cases reads

end Child

/-! ## The parent -/

/-- The parent can still make calls. -/
def Pc.Live : Pc → Prop
  | .ready | .waiting _ _ => True
  | _ => False

/-- The entries of `pid_list` that are not zero are those of the streams, and the child of a
stream of type `"w"` has the read end of its pipe until it ends. -/
structure Fed (s : State) : Prop where
  calm : Calm s
  entered : ∀ {fd pid : Nat}, s.pc.Live → s.pidList[fd]? = some pid → 0 < pid →
    ∃ child, s.owner fd = some child
  feeds : ∀ {fd child : Nat} {c : Child}, s.owner fd = some child →
    s.children[child]? = some c → c.mode = .w → c.phase ≠ .zombie →
      c.Feeds child ∧ s.fds.file fd = some (.writeEnd child)

variable {s t : State} {a : Action}

theorem fed_start (inherited : List (Option Nat)) : Fed (.start inherited) where
  calm := calm_start inherited
  entered := by
    intro fd pid _ entry positive
    obtain ⟨_, zero⟩ := Vector.getElem?_eq_some_iff.mp entry
    simp only [State.start, Vector.getElem_replicate] at zero
    omega
  feeds := by simp [State.start]

/-- A parent that is no more has no streams. -/
theorem fed_leave {pc : Pc} (calm : Calm (s.leave pc)) (ended : ¬ pc.Live) : Fed (s.leave pc) where
  calm := calm
  entered := fun live => absurd live ended
  feeds := by simp [State.leave, State.owner, Descriptors.file]

namespace Fed

/-- The child of a stream of type `"w"` when it is forked. -/
theorem feeds_forked (fed : Fed s) (ready : s.pc = .ready) (pid : Nat) :
    Child.Feeds ⟨.w, pid,
      (s.fds.pipe (.readEnd s.children.length) (.writeEnd s.children.length)).1,
      (s.fds.pipe (.readEnd s.children.length) (.writeEnd s.children.length)).2.1, s.pidList,
      (s.fds.pipe (.readEnd s.children.length) (.writeEnd s.children.length)).2.2, .forked⟩
      s.children.length := by
  have different := s.fds.pipe_write_ne_read (.readEnd s.children.length)
    (.writeEnd s.children.length)
  refine ⟨?_, ?_, ?_⟩
  · rw [Descriptors.file_pipe, if_neg different.symm, if_pos rfl]
  · rintro ⟨entry, member, positive⟩
    obtain ⟨child, owned⟩ := fed.entered (by rw [ready]; trivial) member positive
    have isOpen := (fed.calm.registered.listed owned).1
    rw [s.fds.pipe_read_free] at isOpen
    cases isOpen
  · intro fd other has notOwn
    refine ⟨?_, id, by simp⟩
    simp only [Descriptors.file_pipe] at has
    split at has
    · cases has
    · split at has
      · cases has
        exact absurd rfl notOwn
      · obtain ⟨child, owned⟩ := fed.calm.ends has
        obtain ⟨-, c, among, -, entry⟩ := fed.calm.registered.listed owned
        exact ⟨c.pid, entry, fed.calm.registered.numbered.pos among⟩

/-- A stream is entered, and a child forked for it. -/
theorem of_register (fed : Fed s) {fds : Descriptors OpenFile} {pipes : List Nat} {c : Child}
    {fd : Nat} (calm : Calm (State.register
      { s with fds := fds, children := s.children ++ [c], pipes := pipes }
      fd s.children.length c.pid))
    (ready : s.pc = .ready) (kept : ∀ other, (s.fds.file other).isSome →
      fds.file other = s.fds.file other)
    (new : c.mode = .w → c.Feeds s.children.length ∧
      fds.file fd = some (.writeEnd s.children.length)) :
    Fed (State.register
      { s with fds := fds, children := s.children ++ [c], pipes := pipes }
      fd s.children.length c.pid) := by
  have live : s.pc.Live := by
    rw [ready]
    trivial
  by_cases within : fd < 100
  · rw [State.register, dif_pos within] at calm ⊢
    refine ⟨calm, ?_, ?_⟩
    · intro other pid _ entry positive
      by_cases here : other = fd
      · refine ⟨s.children.length, ?_⟩
        rw [State.owner, here, Descriptors.file_put_self, Option.map_some]
      · rw [Vector.getElem?_set_ne within (Ne.symm here)] at entry
        obtain ⟨child, owned⟩ := fed.entered live entry positive
        refine ⟨child, ?_⟩
        rw [State.owner, Descriptors.file_put_of_ne _ here]
        exact owned
    · intro other child d owned among mode alive
      rw [State.owner, Descriptors.file_put] at owned
      split at owned
      · rename_i here
        cases owned
        rw [List.getElem?_concat_length] at among
        cases among
        rw [here]
        exact new mode
      · obtain ⟨isOpen, e, found, -⟩ := fed.calm.registered.listed owned
        have old := (List.getElem?_eq_some_iff.mp found).1
        rw [List.getElem?_append_left old] at among
        obtain ⟨feeds, file⟩ := fed.feeds owned among mode alive
        exact ⟨feeds, (kept other isOpen).trans file⟩
  · rw [State.register, dif_neg within] at calm ⊢
    exact fed_leave calm id

theorem of_popen (fed : Fed s) (ready : s.pc = .ready) {mode : Mode} {pid : Nat}
    (calm : Calm (s.myPopen mode pid)) : Fed (s.myPopen mode pid) := by
  have kept : ∀ {unused : Nat},
      unused = (s.fds.pipe (.readEnd s.children.length) (.writeEnd s.children.length)).1 ∨
        unused = (s.fds.pipe (.readEnd s.children.length) (.writeEnd s.children.length)).2.1 →
      ∀ other, (s.fds.file other).isSome →
        ((s.fds.pipe (.readEnd s.children.length) (.writeEnd s.children.length)).2.2.close
          unused).file other = s.fds.file other := by
    intro unused isEnd other isOpen
    obtain ⟨notRead, notWrite, same⟩ := s.fds.file_pipe_of_isSome (.readEnd s.children.length)
      (.writeEnd s.children.length) isOpen
    have notUnused : other ≠ unused := by
      rcases isEnd with rfl | rfl
      · exact notRead
      · exact notWrite
    rw [Descriptors.close, Descriptors.file_put_of_ne _ notUnused, same]
  cases mode with
  | r => exact fed.of_register calm ready (kept (.inr rfl)) (by simp)
  | w =>
      have file := s.fds.file_pipe_write (.readEnd s.children.length)
        (.writeEnd s.children.length)
      exact fed.of_register calm ready (kept (.inl rfl)) fun _ => ⟨fed.feeds_forked ready pid, file⟩
  | other => exact fed_leave calm id

/-- A stream is closed. -/
theorem of_waited (fed : Fed s) {fd child : Nat} {c : Child} {stream : OpenStream}
    (waits : s.pc = .waiting fd child) (calm : Calm (s.finishPclose fd child c stream)) :
    Fed (s.finishPclose fd child c stream) := by
  have live : s.pc.Live := by
    rw [waits]
    trivial
  have owned := fed.calm.registered.awaited waits
  by_cases within : fd < 100
  · by_cases killed : 0 < stream.unflushed ∧ ¬ State.Holds
        { s with
          children := s.children.set child { c with phase := .reaped }
          pidList := s.pidList.set fd 0 } (.readEnd stream.child)
    · rw [State.finishPclose, dif_pos within, State.fclose, if_pos killed] at calm ⊢
      exact fed_leave calm id
    · rw [State.finishPclose, dif_pos within, State.fclose, if_neg killed] at calm ⊢
      refine ⟨calm, ?_, ?_⟩
      · intro other pid _ entry positive
        by_cases here : other = fd
        · subst here
          rw [Vector.getElem?_set_self within] at entry
          cases entry
          exact absurd positive (Nat.lt_irrefl 0)
        · rw [Vector.getElem?_set_ne within (Ne.symm here)] at entry
          obtain ⟨k, ownedK⟩ := fed.entered live entry positive
          refine ⟨k, ?_⟩
          rw [State.owner, Descriptors.file_put_of_ne _ here]
          exact ownedK
      · intro other k d ownedK among mode alive
        obtain ⟨elsewhere, old⟩ := owner_put_none _ _ _ _ _ fd ownedK
        have different : child ≠ k := by
          rintro rfl
          exact elsewhere (fed.calm.registered.own owned old)
        rw [List.getElem?_set_ne different] at among
        obtain ⟨feeds, file⟩ := fed.feeds old among mode alive
        refine ⟨feeds, ?_⟩
        rw [Descriptors.close, Descriptors.file_put_of_ne _ elsewhere.symm]
        exact file
  · rw [State.finishPclose, dif_neg within] at calm ⊢
    exact fed_leave calm id

/-- A child takes a step. -/
theorem of_child (fed : Fed s) {k : Nat} {c c' : Child} {pipes : List Nat}
    (among : s.children[k]? = some c) (moved : c.Moved c')
    (calm : Calm { s with children := s.children.set k c', pipes := pipes }) :
    Fed { s with children := s.children.set k c', pipes := pipes } := by
  have inside : k < s.children.length := (List.getElem?_eq_some_iff.mp among).1
  refine ⟨calm, fed.entered, ?_⟩
  intro fd child d owned found mode alive
  by_cases here : k = child
  · subst here
    rw [List.getElem?_set_self inside] at found
    cases found
    rw [moved.kept.mode] at mode
    obtain ⟨feeds, file⟩ := fed.feeds owned among mode moved.kept.alive.1
    exact ⟨(Child.feeds_of_moved feeds mode moved).resolve_left alive, file⟩
  · rw [List.getElem?_set_ne here] at found
    exact fed.feeds owned found mode alive

theorem of_step (fed : Fed s) (ended : ChildEnded s a) (taken : step s a = some t) : Fed t := by
  have calm := fed.calm.of_step ended taken
  cases stepped taken with
  | child among moved => exact fed.of_child among moved calm
  | popen ready _ _ => exact fed.of_popen ready calm
  | data _ _ same =>
      exact ⟨calm, fun live entry positive =>
          (fed.entered live entry positive).imp fun child owned => (same _).trans owned,
        fun owned => fed.feeds ((same _).symm.trans owned)⟩
  | @pclose fd stream ready found =>
      rw [fed.calm.registered.myPclose_eq found] at calm ⊢
      exact ⟨calm, fun _ => fed.entered (by rw [ready]; trivial), fed.feeds⟩
  | waited waits _ _ _ => exact fed.of_waited waits calm
  | left _ => exact fed_leave calm id

end Fed

/-! ## The way to the deadlock -/

/-- How far a child is from its wait for input, when its pipe holds this much. -/
def Child.distance (c : Child) (buffered : Nat) : Nat :=
  match c.phase with
  | .forked => 200
  | .closing i => 20 + (100 - i)
  | .running => 2 + if buffered = 0 then 0 else 10
  | .reading _ => (if c.input = none then 3 else 1) + if buffered = 0 then 0 else 10
  | _ => 0

/-- A child that has not ended, and has the read end of the pipe. -/
structure Child.Reader (c : Child) (pipe : Nat) : Prop where
  mode : c.mode = .w
  zombie : c.phase ≠ .zombie
  reaped : c.phase ≠ .reaped
  feeds : c.Feeds pipe

/-- The parent waits for such a child, and has the write end of its pipe. -/
structure Early (k : Nat) (c : Child) (s : State) : Prop where
  awaited : s.pc.awaited = some k
  among : s.children[k]? = some c
  reader : c.Reader k
  write : some (.writeEnd k) ∈ s.fds

variable {k : Nat} {c c' : Child}

/-- The child makes a step in which it does not end. -/
theorem Early.advance (early : Early k c s) {a : ChildAction} {pipes : List Nat}
    (stepped : c.step s a = some (c', pipes)) (alive : c'.phase ≠ .zombie) :
    ∃ t, step s (.child k a) = some t ∧ Early k c' t ∧ t.pipes = pipes := by
  have inside : k < s.children.length := (List.getElem?_eq_some_iff.mp early.among).1
  have moved := Child.moved stepped
  refine ⟨{ s with children := s.children.set k c', pipes := pipes }, ?_, ⟨early.awaited,
    List.getElem?_set_self inside, ⟨?_, alive, moved.kept.unreaped, ?_⟩, early.write⟩, rfl⟩
  · have running : s.pc ≠ .overrun := by
      intro overrun
      have awaited := early.awaited
      rw [overrun] at awaited
      cases awaited
    cases pc : s.pc with
    | overrun => exact absurd pc running
    | ready | waiting fd child | exited | lost =>
        simp [step, pc, early.among, stepped]
  · rw [moved.kept.mode]
    exact early.reader.mode
  · exact (Child.feeds_of_moved early.reader.feeds early.reader.mode moved).resolve_left alive

/-- A child that waits for input is in a deadlock with the parent. -/
theorem Early.deadlocked (early : Early k c s) (waits : c.input = some k)
    (empty : s.pipes.getD k 0 = 0) : s.Deadlocked :=
  ⟨k, early.awaited, c, early.among, k, waits, empty, .inl early.write⟩

/-- The child gets nearer to its wait for input. -/
theorem Early.progress (early : Early k c s) (free : ¬ s.Deadlocked) :
    ∃ a c' t, step s (.child k a) = some t ∧ Early k c' t ∧
      c'.distance (t.pipes.getD k 0) < c.distance (s.pipes.getD k 0) := by
  cases phase : c.phase with
  | forked =>
      have stepped : c.step s .redirect = some (c.redirect, s.pipes) := if_pos phase
      have next : c.redirect.phase = .closing 0 := by
        rw [Child.redirect, early.reader.mode]
      obtain ⟨t, taken, early', -⟩ := early.advance stepped (by simp [next])
      refine ⟨.redirect, _, t, taken, early', ?_⟩
      simp [Child.distance, phase, next]
  | closing i =>
      have stepped : c.step s .closeNext = some (c.closeNext i, s.pipes) := by
        simp only [Child.step, phase]
      cases entry : c.pidList[i]? with
      | some pid =>
          have next : (c.closeNext i).phase = .closing (i + 1) := by
            simp [Child.closeNext, entry]
          have within : i < 100 := (Vector.getElem?_eq_some_iff.mp entry).1
          obtain ⟨t, taken, early', -⟩ := early.advance stepped (by simp [next])
          refine ⟨.closeNext, _, t, taken, early', ?_⟩
          simp only [Child.distance, phase, next]
          omega
      | none =>
          have next : (c.closeNext i).phase = .running := by
            simp [Child.closeNext, entry]
          obtain ⟨t, taken, early', -⟩ := early.advance stepped (by simp [next])
          refine ⟨.closeNext, _, t, taken, early', ?_⟩
          simp only [Child.distance, phase, next]
          split <;> omega
  | running =>
      have stepped : c.step s (.read c.readFd) =
          some ({ c with phase := .reading c.readFd }, s.pipes) := if_pos phase
      have reads : Child.input { c with phase := .reading c.readFd } = some k := by
        simp only [Child.input, early.reader.feeds.has]
      obtain ⟨t, taken, early', same⟩ := early.advance stepped (by simp)
      refine ⟨.read c.readFd, _, t, taken, early', ?_⟩
      rw [same]
      simp [Child.distance, phase, reads]
  | reading fd =>
      cases input : c.input with
      | none =>
          have stepped : c.step s (.readDone 0) =
              some ({ c with phase := .running }, s.pipes) := by
            simp only [Child.step, phase, input]
          obtain ⟨t, taken, early', same⟩ := early.advance stepped (by simp)
          refine ⟨.readDone 0, _, t, taken, early', ?_⟩
          rw [same]
          simp [Child.distance, phase, input]
      | some pipe =>
          obtain rfl := early.reader.feeds.input_eq input
          have there : s.pipes.getD pipe 0 ≠ 0 := fun empty => free (early.deadlocked input empty)
          have stepped : c.step s (.readDone (s.pipes.getD pipe 0)) =
              some ({ c with phase := .running },
                s.pipes.modify pipe (· - s.pipes.getD pipe 0)) := by
            simp only [Child.step, phase, input]
            rw [if_pos ⟨Nat.le_refl _, .inl (Nat.pos_of_ne_zero there)⟩]
          have drained : (s.pipes.modify pipe (· - s.pipes.getD pipe 0)).getD pipe 0 = 0 := by
            rw [List.getD_eq_getElem?_getD, List.getElem?_modify_eq]
            cases entry : s.pipes[pipe]? with
            | none => rfl
            | some buffered => simp [List.getD_eq_getElem?_getD, entry]
          obtain ⟨t, taken, early', same⟩ := early.advance stepped (by simp)
          refine ⟨.readDone _, _, t, taken, early', ?_⟩
          rw [same, drained]
          simp only [Child.distance, phase, input, if_neg there]
          simp
  | zombie => exact absurd phase early.reader.zombie
  | reaped => exact absurd phase early.reader.reaped

/-- **The condition is needed.** When the parent calls `my_pclose` on a stream of type `"w"`
whose child has not ended, the two can get to a deadlock. -/
theorem deadlocks_of_early_pclose {inherited : List (Option Nat)} {actions : List Action}
    (ran : run step (.start inherited) actions = some s)
    (ended : Along step ChildEnded (.start inherited) actions) (ready : s.pc = .ready)
    {fd : Nat} {stream : OpenStream} (opened : s.streams.file fd = some stream)
    (among : s.children[stream.child]? = some c) (mode : c.mode = .w)
    (alive : c.phase ≠ .zombie) :
    ∃ more t, run step s (.myPclose fd :: more) = some t ∧ t.Deadlocked := by
  have fed : Fed s := run_invariant_along
    (fun ended fed taken => Fed.of_step fed ended taken) ended (fed_start inherited) ran
  have owned : s.owner fd = some stream.child := by rw [State.owner, opened, Option.map_some]
  obtain ⟨feeds, write⟩ := fed.feeds owned among mode alive
  obtain ⟨-, d, found, unreaped, -⟩ := fed.calm.registered.listed owned
  cases among.symm.trans found
  have early : Early stream.child c { s with pc := .waiting fd stream.child } :=
    ⟨rfl, among, ⟨mode, alive, unreaped, feeds⟩, Descriptors.mem_of_file write⟩
  have first : step s (.myPclose fd) = some { s with pc := .waiting fd stream.child } := by
    rw [← fed.calm.registered.myPclose_eq opened]
    simp [step, ready, opened]
  have progress : ∀ s, (∃ c, Early stream.child c s) → ¬ s.Deadlocked →
      ∃ a t, True ∧ step s a = some t ∧ (∃ c, Early stream.child c t) ∧
        (t.children[stream.child]?.elim 0 (·.distance (t.pipes.getD stream.child 0))) <
          s.children[stream.child]?.elim 0 (·.distance (s.pipes.getD stream.child 0)) := by
    rintro s ⟨c, early⟩ free
    obtain ⟨a, c', t, taken, early', nearer⟩ := early.progress free
    refine ⟨_, t, trivial, taken, ⟨c', early'⟩, ?_⟩
    rw [early.among, early'.among]
    exact nearer
  obtain ⟨more, t, -, later, -, deadlocked⟩ :=
    @run_reaches _ _ step _ State.Deadlocked (fun _ => True) _ progress _ ⟨c, early⟩
  exact ⟨more, t, run_step first later, deadlocked⟩

end LinuxExercises.Popen
