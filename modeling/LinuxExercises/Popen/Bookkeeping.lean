import LinuxExercises.Popen.System

/-!
# Which child a stream belongs to

`pid_list` has an entry for each of the descriptors 0 to 99, and a stream is entered at
its own descriptor. While every stream has such a descriptor, the entry of an open stream is
the number of a child that has not been waited for, which no other child has, so `my_pclose`
waits for the child that was forked for the stream (`Registered`).

A stream whose descriptor is 100 or more is entered outside of the array. The bookkeeping is
right along a run exactly when at every call of `my_popen` enough descriptors below 100 are
free (`bookkept_iff`).
-/

set_option autoImplicit false

namespace LinuxExercises.Popen

open Foundations

/-- The children have numbers, and those that have not been waited for have different ones. -/
structure Numbered (children : List Child) : Prop where
  pos : ∀ {k : Nat} {c : Child}, children[k]? = some c → 0 < c.pid
  inj : ∀ {k k' : Nat} {c c' : Child}, children[k]? = some c → children[k']? = some c' →
    c.phase ≠ .reaped → c'.phase ≠ .reaped → c.pid = c'.pid → k = k'

/-- The entry of an open stream is the number of its child, which has not been waited for. -/
structure Registered (s : State) : Prop where
  numbered : Numbered s.children
  listed : ∀ {fd child : Nat}, s.owner fd = some child → (s.fds.file fd).isSome ∧
    ∃ c : Child, s.children[child]? = some c ∧ c.phase ≠ .reaped ∧ s.pidList[fd]? = some c.pid
  own : ∀ {fd fd' child : Nat}, s.owner fd = some child → s.owner fd' = some child → fd = fd'
  awaited : ∀ {fd child : Nat}, s.pc = .waiting fd child → s.owner fd = some child

/-- Enough descriptors below 100 are free: one for a stream of type `"r"`, whose read end
comes first, and two for one of type `"w"`. -/
def Room (s : State) : Action → Prop
  | .myPopen .r _ => ∃ fd, fd < 100 ∧ s.fds.file fd = none
  | .myPopen .w _ =>
      ∃ fd fd', fd < 100 ∧ fd' < 100 ∧ fd ≠ fd' ∧ s.fds.file fd = none ∧ s.fds.file fd' = none
  | _ => True

variable {s t : State} {a : Action}

/-! ## The children -/

namespace Numbered

variable {children : List Child}

theorem set (numbered : Numbered children) {k : Nat} {c c' : Child} (among : children[k]? = some c)
    (pid : c'.pid = c.pid) (alive : c.phase ≠ .reaped) : Numbered (children.set k c') := by
  have inside : k < children.length := (List.getElem?_eq_some_iff.mp among).1
  -- What stands at an index has the number that stood there before.
  have before : ∀ {j : Nat} {d : Child}, (children.set k c')[j]? = some d →
      ∃ d', children[j]? = some d' ∧ d.pid = d'.pid ∧
        (d.phase ≠ .reaped → d'.phase ≠ .reaped) := by
    intro j d found
    by_cases here : k = j
    · subst here
      rw [List.getElem?_set_self inside] at found
      cases found
      exact ⟨c, among, pid, fun _ => alive⟩
    · rw [List.getElem?_set_ne here] at found
      exact ⟨d, found, rfl, id⟩
  constructor
  · intro j d found
    obtain ⟨d', found', same, -⟩ := before found
    rw [same]
    exact numbered.pos found'
  · intro j j' d d' found found' unreaped unreaped' same
    obtain ⟨e, atJ, pid, alive⟩ := before found
    obtain ⟨e', atJ', pid', alive'⟩ := before found'
    exact numbered.inj atJ atJ' (alive unreaped) (alive' unreaped')
      (pid.symm.trans (same.trans pid'))

/-- What stands in a longer list of children. -/
theorem getElem?_forked {k : Nat} {c d : Child}
    (found : (children ++ [c])[k]? = some d) :
    children[k]? = some d ∨ k = children.length ∧ d = c := by
  by_cases old : k < children.length
  · rw [List.getElem?_append_left old] at found
    exact .inl found
  · rw [List.getElem?_append_right (Nat.le_of_not_lt old)] at found
    obtain ⟨first, same⟩ := List.getElem?_eq_some_iff.mp found
    rw [List.length_singleton] at first
    refine .inr ⟨by omega, ?_⟩
    rw [← same, List.getElem_singleton]

theorem fork (numbered : Numbered children) {c : Child} (positive : 0 < c.pid)
    (fresh : ∀ d ∈ children, d.phase ≠ .reaped → d.pid ≠ c.pid) : Numbered (children ++ [c]) := by
  constructor
  · intro k d found
    rcases getElem?_forked found with old | ⟨-, rfl⟩
    · exact numbered.pos old
    · exact positive
  · intro k k' d d' found found' unreaped unreaped' same
    rcases getElem?_forked found with old | ⟨last, rfl⟩
    · rcases getElem?_forked found' with old' | ⟨-, rfl⟩
      · exact numbered.inj old old' unreaped unreaped' same
      · exact absurd same (fresh d (List.mem_of_getElem? old) unreaped)
    · rcases getElem?_forked found' with old' | ⟨last', -⟩
      · exact absurd same.symm (fresh d' (List.mem_of_getElem? old') unreaped')
      · rw [last, last']

end Numbered

/-! ## Every step keeps the entries -/

theorem registered_start (inherited : List (Option Nat)) : Registered (.start inherited) where
  numbered := ⟨by simp [State.start], by simp [State.start]⟩
  listed := by simp [State.start, State.owner, Descriptors.file]
  own := by simp [State.start, State.owner, Descriptors.file]
  awaited := by simp [State.start]

/-- Without streams the children alone matter. -/
theorem registered_leave (numbered : Numbered s.children) {pc : Pc}
    (idle : ∀ fd child, pc ≠ .waiting fd child) : Registered (s.leave pc) where
  numbered := numbered
  listed := by simp [State.leave, State.owner, Descriptors.file]
  own := by simp [State.leave, State.owner, Descriptors.file]
  awaited := by
    intro fd child waits
    exact absurd waits (idle fd child)

theorem owner_put_none (fds : Descriptors OpenFile) (pidList : PidList) (children : List Child)
    (pipes : List Nat) (pc : Pc) (fd : Nat) {fd' child : Nat}
    (owned : State.owner ⟨fds, pidList, s.streams.put fd none, children, pipes, pc⟩ fd' =
      some child) :
    fd ≠ fd' ∧ s.owner fd' = some child := by
  rw [State.owner, Descriptors.file_put] at owned
  split at owned
  · cases owned
  · rename_i other
    exact ⟨Ne.symm other, owned⟩

namespace Registered

/-- A child takes a step. -/
theorem of_child (registered : Registered s) {k : Nat} {c c' : Child} (pipes : List Nat)
    (among : s.children[k]? = some c) (kept : c.Kept c') :
    Registered { s with children := s.children.set k c', pipes := pipes } := by
  have inside : k < s.children.length := (List.getElem?_eq_some_iff.mp among).1
  refine ⟨registered.numbered.set among kept.pid kept.alive.2, ?_, registered.own,
    registered.awaited⟩
  intro fd child owned
  obtain ⟨isOpen, d, found, unreaped, entry⟩ := registered.listed owned
  refine ⟨isOpen, ?_⟩
  by_cases here : k = child
  · subst here
    cases among.symm.trans found
    exact ⟨c', List.getElem?_set_self inside, kept.unreaped, kept.pid.symm ▸ entry⟩
  · exact ⟨d, (List.getElem?_set_ne here).trans found, unreaped, entry⟩

/-- Data moves. -/
theorem of_data (registered : Registered s) {streams : Descriptors OpenStream} (pipes : List Nat)
    (same : ∀ fd, (streams.file fd).map OpenStream.child = s.owner fd) :
    Registered { s with streams := streams, pipes := pipes } where
  numbered := registered.numbered
  listed := fun owned => registered.listed ((same _).symm.trans owned)
  own := fun owned owned' =>
    registered.own ((same _).symm.trans owned) ((same _).symm.trans owned')
  awaited := fun waits => (same _).trans (registered.awaited waits)

/-- A child is forked, and files are opened. -/
theorem of_fork (registered : Registered s) {fds : Descriptors OpenFile} {c : Child}
    (pipes : List Nat) (opened : ∀ fd, (s.fds.file fd).isSome → (fds.file fd).isSome)
    (positive : 0 < c.pid) (fresh : ∀ d ∈ s.children, d.phase ≠ .reaped → d.pid ≠ c.pid) :
    Registered { s with fds := fds, children := s.children ++ [c], pipes := pipes } where
  numbered := registered.numbered.fork positive fresh
  listed := by
    intro fd child owned
    obtain ⟨isOpen, d, found, unreaped, entry⟩ := registered.listed owned
    have old := (List.getElem?_eq_some_iff.mp found).1
    exact ⟨opened fd isOpen, d, (List.getElem?_append_left old).trans found, unreaped, entry⟩
  own := registered.own
  awaited := registered.awaited

/-- A stream is entered. -/
theorem of_register (registered : Registered s) {fd child : Nat} {c : Child}
    (isOpen : (s.fds.file fd).isSome) (among : s.children[child]? = some c)
    (unreaped : c.phase ≠ .reaped) (unowned : ∀ fd, s.owner fd ≠ some child)
    (ready : s.pc = .ready) : Registered (s.register fd child c.pid) := by
  rw [State.register]
  split
  · rename_i within
    have owner : ∀ {other k : Nat},
        State.owner { s with pidList := s.pidList.set fd c.pid
                             streams := s.streams.put fd (some ⟨child, 0⟩) } other = some k →
          other = fd ∧ k = child ∨ other ≠ fd ∧ s.owner other = some k := by
      intro other k owned
      rw [State.owner, Descriptors.file_put] at owned
      split at owned
      · rename_i here
        cases owned
        exact .inl ⟨here, rfl⟩
      · rename_i elsewhere
        exact .inr ⟨elsewhere, owned⟩
    refine ⟨registered.numbered, ?_, ?_, ?_⟩
    · intro other k owned
      rcases owner owned with ⟨rfl, rfl⟩ | ⟨elsewhere, owned⟩
      · exact ⟨isOpen, c, among, unreaped, Vector.getElem?_set_self within⟩
      · obtain ⟨isOpen, d, found, unreaped, entry⟩ := registered.listed owned
        exact ⟨isOpen, d, found, unreaped,
          (Vector.getElem?_set_ne within elsewhere.symm).trans entry⟩
    · intro other other' k owned owned'
      rcases owner owned with ⟨rfl, rfl⟩ | ⟨-, old⟩
      · rcases owner owned' with ⟨rfl, -⟩ | ⟨-, old'⟩
        · rfl
        · exact absurd old' (unowned other')
      · rcases owner owned' with ⟨rfl, rfl⟩ | ⟨-, old'⟩
        · exact absurd old (unowned other)
        · exact registered.own old old'
    · intro other k waits
      rw [ready] at waits
      cases waits
  · exact registered_leave registered.numbered (by simp)

/-- `my_pclose` waits for the child of its stream. -/
theorem myPclose_eq (registered : Registered s) {fd : Nat} {stream : OpenStream}
    (found : s.streams.file fd = some stream) :
    s.myPclose fd = { s with pc := .waiting fd stream.child } := by
  have owned : s.owner fd = some stream.child := by rw [State.owner, found, Option.map_some]
  obtain ⟨-, c, among, unreaped, entry⟩ := registered.listed owned
  have positive := registered.numbered.pos among
  obtain ⟨inside, here⟩ := List.getElem?_eq_some_iff.mp among
  have search : s.children.findIdx? (fun d => d.pid = c.pid ∧ d.phase ≠ .reaped) =
      some stream.child := by
    rw [List.findIdx?_eq_some_iff_getElem]
    refine ⟨inside, by simp [here, unreaped], ?_⟩
    intro j earlier matched
    have bound : j < s.children.length := Nat.lt_trans earlier inside
    obtain ⟨same, alive⟩ := of_decide_eq_true matched
    have first := registered.numbered.inj (List.getElem?_eq_getElem bound) among alive unreaped same
    omega
  rw [State.myPclose, entry]
  simp only [if_neg (Nat.ne_of_gt positive), search]

/-- The child has ended, and its stream is closed. -/
theorem of_waited (registered : Registered s) {fd child : Nat} {c : Child} {stream : OpenStream}
    (waits : s.pc = .waiting fd child) (among : s.children[child]? = some c)
    (ended : c.phase = .zombie) :
    Registered (s.finishPclose fd child c stream) ∧
      (s.finishPclose fd child c stream).pc ≠ .overrun ∧
        (s.finishPclose fd child c stream).pc ≠ .lost := by
  have owned := registered.awaited waits
  obtain ⟨-, d, found', -, entry⟩ := registered.listed owned
  have within : fd < 100 := by
    by_contra outside
    rw [Vector.getElem?_eq_none (Nat.le_of_not_lt outside)] at entry
    cases entry
  have numbered : Numbered (s.children.set child { c with phase := .reaped }) :=
    registered.numbered.set among rfl (by rw [ended]; decide)
  rw [State.finishPclose, dif_pos within, State.fclose]
  split
  · exact ⟨registered_leave numbered (by simp), by simp [State.leave], by simp [State.leave]⟩
  · refine ⟨⟨numbered, ?_, ?_, ?_⟩, by simp, by simp⟩
    · intro fd' child' owned'
      obtain ⟨elsewhere, old⟩ := owner_put_none _ _ _ _ _ fd owned'
      obtain ⟨isOpen, e, foundE, unreaped, entryE⟩ := registered.listed old
      have other : child ≠ child' := by
        rintro rfl
        exact elsewhere (registered.own owned old)
      refine ⟨?_, e, (List.getElem?_set_ne other).trans foundE, unreaped,
        (Vector.getElem?_set_ne within elsewhere).trans entryE⟩
      rw [Descriptors.close, Descriptors.file_put_of_ne _ elsewhere.symm]
      exact isOpen
    · intro fd₁ fd₂ child' owned₁ owned₂
      exact registered.own (owner_put_none _ _ _ _ _ fd owned₁).2
        (owner_put_none _ _ _ _ _ fd owned₂).2
    · intro fd' child' waits'
      cases waits'

/-- A child is forked for a stream that takes one of the two descriptors of its pipe, and the
parent closes the other one. -/
theorem of_popen_stream (registered : Registered s) (ready : s.pc = .ready) {c : Child}
    (pipes : List Nat) (readEnd writeEnd : OpenFile) {fd unused : Nat}
    (ends : fd = (s.fds.pipe readEnd writeEnd).1 ∧ unused = (s.fds.pipe readEnd writeEnd).2.1 ∨
      fd = (s.fds.pipe readEnd writeEnd).2.1 ∧ unused = (s.fds.pipe readEnd writeEnd).1)
    (positive : 0 < c.pid) (fresh : ∀ d ∈ s.children, d.phase ≠ .reaped → d.pid ≠ c.pid)
    (unreaped : c.phase ≠ .reaped) :
    Registered (State.register
      { s with
        fds := (s.fds.pipe readEnd writeEnd).2.2.close unused
        children := s.children ++ [c]
        pipes := pipes } fd s.children.length c.pid) := by
  have opened : ∀ other, (s.fds.file other).isSome →
      (((s.fds.pipe readEnd writeEnd).2.2.close unused).file other).isSome := by
    intro other isOpen
    obtain ⟨notRead, notWrite, same⟩ := s.fds.file_pipe_of_isSome readEnd writeEnd isOpen
    have notUnused : other ≠ unused := by
      rcases ends with ⟨-, rfl⟩ | ⟨-, rfl⟩
      · exact notWrite
      · exact notRead
    rw [Descriptors.close, Descriptors.file_put_of_ne _ notUnused, same]
    exact isOpen
  have isOpen : (((s.fds.pipe readEnd writeEnd).2.2.close unused).file fd).isSome := by
    rcases ends with ⟨rfl, rfl⟩ | ⟨rfl, rfl⟩
    · rw [Descriptors.file_pipe_read]
      rfl
    · rw [Descriptors.file_pipe_write]
      rfl
  have unowned : ∀ other, s.owner other ≠ some s.children.length := by
    intro other owned
    obtain ⟨-, d, found, -⟩ := registered.listed owned
    rw [List.getElem?_eq_none (Nat.le_refl _)] at found
    cases found
  have forked := registered.of_fork pipes opened positive fresh
  exact forked.of_register isOpen List.getElem?_concat_length unreaped unowned ready

theorem of_popen (registered : Registered s) (ready : s.pc = .ready) {mode : Mode} {pid : Nat}
    (positive : 0 < pid) (fresh : ∀ c ∈ s.children, c.phase ≠ .reaped → c.pid ≠ pid) :
    Registered (s.myPopen mode pid) := by
  cases mode with
  | r => exact registered.of_popen_stream ready _ _ _ (.inl ⟨rfl, rfl⟩) positive fresh (by simp)
  | w => exact registered.of_popen_stream ready _ _ _ (.inr ⟨rfl, rfl⟩) positive fresh (by simp)
  | other => exact registered_leave (registered.numbered.fork positive fresh) (by simp)

end Registered

/-- **Every step keeps the entries.** -/
theorem registered_step (registered : Registered s) (taken : step s a = some t) :
    Registered t := by
  cases stepped taken with
  | child among moved => exact registered.of_child _ among moved.kept
  | popen ready positive fresh => exact registered.of_popen ready positive fresh
  | data _ _ same => exact registered.of_data _ same
  | @pclose fd stream _ found =>
      rw [registered.myPclose_eq found]
      refine ⟨registered.numbered, registered.listed, registered.own, ?_⟩
      intro fd' child waits
      cases waits
      rw [State.owner, found, Option.map_some]
  | waited waits among ended _ => exact (registered.of_waited waits among ended).1
  | left _ => exact registered_leave registered.numbered (by simp)

/-! ## Stores outside of the array -/

theorem register_pc (s : State) (fd child pid : Nat) :
    (s.register fd child pid).pc = if fd < 100 then s.pc else .overrun := by
  rw [State.register]
  split
  · rfl
  · rfl

/-- A call of `my_popen` stores inside of the array when there is room, and only then. -/
theorem myPopen_pc (ready : s.pc = .ready) (mode : Mode) (pid : Nat) :
    (Room s (.myPopen mode pid) → (s.myPopen mode pid).pc = .ready ∨
      (s.myPopen mode pid).pc = .exited) ∧
    (¬ Room s (.myPopen mode pid) → (s.myPopen mode pid).pc = .overrun) := by
  cases mode with
  | r =>
      have within := s.fds.pipe_read_lt_iff (.readEnd s.children.length)
        (.writeEnd s.children.length) 100
      rw [State.myPopen, register_pc, Room, ← within]
      exact ⟨fun room => .inl ((if_pos room).trans ready), fun full => if_neg full⟩
  | w =>
      have within := s.fds.pipe_write_lt_iff (.readEnd s.children.length)
        (.writeEnd s.children.length) 100
      rw [State.myPopen, register_pc, Room, ← within]
      exact ⟨fun room => .inl ((if_pos room).trans ready), fun full => if_neg full⟩
  | other => exact ⟨fun _ => .inr rfl, fun full => absurd trivial full⟩

/-- **One step.** The parent goes on with its bookkeeping in order, or it stores outside of
the array because there was no room. -/
theorem pc_of_step (registered : Registered s) (taken : step s a = some t)
    (kept : s.pc ≠ .overrun ∧ s.pc ≠ .lost) :
    (Room s a → t.pc ≠ .overrun ∧ t.pc ≠ .lost) ∧ (¬ Room s a → t.pc = .overrun) := by
  cases stepped taken with
  | child among moved => exact ⟨fun _ => kept, fun full => absurd trivial full⟩
  | @popen mode pid ready _ _ =>
      obtain ⟨within, outside⟩ := myPopen_pc ready mode pid
      refine ⟨fun room => ?_, outside⟩
      rcases within room with here | here
      · rw [here]
        simp
      · rw [here]
        simp
  | data ready noPopen _ =>
      refine ⟨fun _ => kept, fun full => ?_⟩
      cases a <;> first | exact absurd rfl (noPopen _ _) | exact absurd trivial full
  | @pclose fd stream _ found =>
      rw [registered.myPclose_eq found]
      exact ⟨fun _ => by simp, fun full => absurd trivial full⟩
  | waited waits among ended _ =>
      exact ⟨fun _ => (registered.of_waited waits among ended).2, fun full => absurd trivial full⟩
  | left noPopen =>
      refine ⟨fun _ => by simp [State.leave], fun full => ?_⟩
      cases a <;> first | exact absurd rfl (noPopen _ _) | exact absurd trivial full

/-- Nothing happens behind a store outside of the array. -/
theorem run_overrun {actions : List Action} (overrun : s.pc = .overrun)
    (ran : run step s actions = some t) : t = s := by
  cases actions with
  | nil => exact (Option.some.inj ran).symm
  | cons a rest =>
      obtain ⟨middle, taken, -⟩ := run_cons_cases ran
      simp [step, overrun] at taken

/-- From any state in which the entries are right. -/
theorem bookkept_iff_of (registered : Registered s) (kept : s.pc ≠ .overrun ∧ s.pc ≠ .lost)
    {actions : List Action} (ran : run step s actions = some t) :
    t.Bookkept ↔ Along step Room s actions := by
  induction actions generalizing s with
  | nil =>
      rw [run_nil, Option.some.injEq] at ran
      subst ran
      exact iff_of_true ⟨kept.1, kept.2, fun fd child => registered.awaited⟩ trivial
  | cons a rest ih =>
      obtain ⟨middle, taken, ran⟩ := run_cons_cases ran
      obtain ⟨within, outside⟩ := pc_of_step registered taken kept
      have along : Along step Room s (a :: rest) ↔ Room s a ∧ Along step Room middle rest := by
        rw [Along, taken]
        rfl
      rw [along]
      by_cases room : Room s a
      · rw [ih (registered_step registered taken) (within room) ran]
        exact (and_iff_right room).symm
      · obtain rfl := run_overrun (outside room) ran
        exact iff_of_false (fun bookkept => bookkept.1 (outside room)) (fun both => room both.1)

/-- **Bookkeeping.** Whatever streams are opened and closed, and however the children move,
every store was inside of `pid_list` and `my_pclose` waits for the child of its stream
exactly when every call of `my_popen` found enough descriptors below 100 free. -/
theorem bookkept_iff {inherited : List (Option Nat)} {actions : List Action}
    (ran : run step (.start inherited) actions = some s) :
    s.Bookkept ↔ Along step Room (.start inherited) actions :=
  bookkept_iff_of (registered_start inherited) (by simp [State.start]) ran

/-- A stream of each type, and `my_pclose` on the first. -/
theorem bookkept_iff_twoStreams :
    ∃ s, run step .standard [.myPopen .r 7, .myPopen .w 8, .myPclose 3] = some s ∧
      (s.Bookkept ↔
        Along step Room .standard [.myPopen .r 7, .myPopen .w 8, .myPclose 3]) :=
  ⟨_, rfl, bookkept_iff rfl⟩

/-- The streams of 98 calls with type `"r"` take the descriptors 3 to 100. -/
theorem not_bookkept :
    ∃ s, run step .standard ((List.range 98).map fun i => .myPopen .r (i + 1)) = some s ∧
      ¬ s.Bookkept := by
  have overrun : (run step .standard ((List.range 98).map fun i => .myPopen .r (i + 1))).map
      State.pc = some .overrun := by
    decide +kernel
  obtain ⟨s, ran, pc⟩ := Option.map_eq_some_iff.mp overrun
  exact ⟨s, ran, fun bookkept => bookkept.1 pc⟩

end LinuxExercises.Popen
