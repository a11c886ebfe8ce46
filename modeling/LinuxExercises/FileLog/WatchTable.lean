import LinuxExercises.FileLog.System

/-!
# The table of paths

The kernel numbers new watches and the logger counts the calls that have returned. The two
agree until `inotify_add_watch` returns the number of a watch that is there already: for a
directory that is made while the walk goes on, and is found by the walk and by its event,
or for a symbolic link to a watched directory. From then on `dir_list` is off by one
(`misplaced_twice`).

In every run in which each path that the logger adds leads to something unwatched, and
the walk finds a directory at its root that it may read, the table has for every number a
path under which the number was returned (`indexed_of_run`).
-/

set_option autoImplicit false

namespace LinuxExercises.FileLog

open Foundations

/-- In the event loop, the table has for every number that was returned a path under which
it was returned. -/
def System.Indexed (s : System) : Prop :=
  s.pc.InLoop → ∀ r ∈ s.returned, ∃ path, s.dirList[r.1 - 1]? = some (some path) ∧
    (r.1, path) ∈ s.returned

/-- At its root the walk finds a directory that it may read, and a path that is added leads to
an inode that is not watched. -/
def Pc.AddsNew (P : Setup) (s : System) : Pc → Prop
  | .walkRoot => ∀ i ∈ s.tree.resolve P.cwd P.path false, s.tree.isDir i = true
  | .openRoot => s.Readable (s.tree.resolve P.cwd P.path true)
  | .report _ fpath =>
      s.frames ≠ [] → ∀ i ∈ s.tree.resolve P.cwd fpath true, ¬ s.inotify.Watched i
  | .addWatch _ _ path => ∀ i ∈ s.tree.resolve P.cwd path true, ¬ s.inotify.Watched i
  | _ => True

instance (P : Setup) (s : System) : DecidablePred (Pc.AddsNew P s)
  | .walkRoot => inferInstanceAs (Decidable (∀ i ∈ s.tree.resolve P.cwd P.path false, _))
  | .openRoot => inferInstanceAs (Decidable (s.Readable _))
  | .report _ fpath =>
      inferInstanceAs (Decidable (s.frames ≠ [] → ∀ i ∈ s.tree.resolve P.cwd fpath true, _))
  | .addWatch _ _ path => inferInstanceAs (Decidable (∀ i ∈ s.tree.resolve P.cwd path true, _))
  | .watchRoot | .openEntry _ _ _ | .walk | .loop _ | .exited => .isTrue trivial

/-- The step adds no watch that is there already. -/
def System.AddsNew (P : Setup) (s : System) : Action → Prop
  | .logger _ => s.pc.AddsNew P s
  | _ => True

instance (P : Setup) (s : System) : DecidablePred (s.AddsNew P)
  | .logger _ => inferInstanceAs (Decidable (s.pc.AddsNew P s))
  | .change _ | .chmod _ _ | .entry _ | .read _ | .fails => .isTrue trivial

/-! ## Counting -/

/-- The count of the logger, the numbers of the kernel, the table and the returned numbers
agree. -/
structure Agree (wdNum nextWd : Nat) (dirList : List (Option PathName))
    (returned : List (Nat × PathName)) : Prop where
  length : dirList.length = wdNum
  next : nextWd = wdNum + 1
  stored : ∀ r ∈ returned, 1 ≤ r.1 ∧ dirList[r.1 - 1]? = some (some r.2)

theorem realloc_succ (list : List (Option PathName)) :
    realloc (list.length + 1) list = list ++ [none] := by
  rw [realloc, List.take_of_length_le (Nat.le_succ _), Nat.add_sub_cancel_left]
  rfl

/-- A new watch is counted, and its path is stored at its number. -/
theorem Agree.store {s : System} {i : Inode}
    (agree : Agree s.wdNum s.inotify.nextWd s.dirList s.returned)
    (new : ¬ s.inotify.Watched i) (path : PathName) :
    Agree (s.wdNum + 1) (s.inotify.add i).nextWd ((s.added path i).store path).dirList
      (s.added path i).returned := by
  have dirList : ((s.added path i).store path).dirList = s.dirList ++ [some path] := by
    unfold System.store System.added
    dsimp only
    rw [← agree.length, realloc_succ, List.set_append_right _ _ le_rfl, Nat.sub_self]
    rfl
  rw [dirList]
  refine ⟨?_, ?_, ?_⟩
  · rw [List.length_append, agree.length]
    rfl
  · rw [Inotify.nextWd_add_of_not_watched new, agree.next]
  · intro r member
    rcases List.mem_append.mp member with before | last
    · obtain ⟨positive, found⟩ := agree.stored r before
      refine ⟨positive, ?_⟩
      rw [List.getElem?_append_left (List.getElem?_eq_some_iff.mp found).1]
      exact found
    · rw [List.mem_singleton.mp last, Inotify.descriptor_of_not_watched new, agree.next]
      refine ⟨Nat.le_add_left .., ?_⟩
      rw [Nat.add_sub_cancel, ← agree.length, List.getElem?_concat_length]

/-! ## The invariant -/

/-- The first watch has been added, and the walk has not reported its root. -/
structure Unread (P : Setup) (s : System) : Prop where
  pc : s.pc = .walkRoot ∨ s.pc = .openRoot ∨ ∃ dir, s.pc = .report dir P.path
  frames : s.frames = []
  wdNum : s.wdNum = 1
  nextWd : s.inotify.nextWd = 2
  returned : s.returned = [(1, P.path)]

/-- The walk has reported its root. -/
structure Counted (s : System) : Prop where
  agree : Agree s.wdNum s.inotify.nextWd s.dirList s.returned
  started : s.pc ≠ .watchRoot ∧ s.pc ≠ .walkRoot ∧ s.pc ≠ .openRoot
  entry : ∀ {dir name fpath}, s.pc = .openEntry dir name fpath → s.frames ≠ []
  report : ∀ {dir fpath}, s.pc = .report dir fpath → s.frames ≠ []

/-- The invariant. -/
inductive TableInv (P : Setup) (s : System) : Prop where
  | exited (pc : s.pc = .exited)
  | first (pc : s.pc = .watchRoot) (frames : s.frames = []) (wdNum : s.wdNum = 0)
      (nextWd : s.inotify.nextWd = 1) (returned : s.returned = [])
      (unwatched : ∀ i, ¬ s.inotify.Watched i)
  | unread (unread : Unread P s)
  | counted (counted : Counted s)

theorem tableInv_start (P : Setup) (tree : FileTree) : TableInv P (start tree) :=
  .first rfl rfl rfl rfl rfl fun _ watched => nomatch watched

variable {P : Setup} {s t : System}

/-- The logger goes on in the event loop. -/
theorem Counted.inLoop (counted : Counted s) {pc : Pc} (inLoop : pc.InLoop) :
    Counted { s with pc := pc } where
  agree := counted.agree
  started := by cases pc <;> first | exact inLoop.elim | simp
  entry := by
    intro dir name fpath same
    cases same
    exact inLoop.elim
  report := by
    intro dir fpath same
    cases same
    exact inLoop.elim

/-- The walk goes on in a directory. -/
theorem Counted.walk {wdNum : Nat} {inotify : Inotify} {dirList : List (Option PathName)}
    {returned : List (Nat × PathName)} (agree : Agree wdNum inotify.nextWd dirList returned)
    (frames : List Frame) :
    Counted { s with wdNum, inotify, dirList, returned, frames, pc := .walk } where
  agree := agree
  started := by simp
  entry := nofun
  report := nofun

/-- The first call for an event adds no watch. -/
theorem Counted.inotifyEvent (counted : Counted s) (garbage : Bool) (e : Event)
    (rest : List Event) : TableInv P (s.inotifyEvent P garbage e rest) := by
  unfold System.inotifyEvent
  split
  · split
    · exact .exited rfl
    · split
      · exact .counted (counted.inLoop trivial)
      · exact .counted (counted.inLoop trivial)
  · exact .counted (counted.inLoop trivial)

/-- A change leaves the logger where it is. -/
theorem TableInv.change (inv : TableInv P s) {change : FileTree.Change}
    (taken : s.stepChange P change = some t) : TableInv P t := by
  obtain ⟨tree, -, rfl⟩ := Option.map_eq_some_iff.mp taken
  cases inv with
  | exited pc => exact .exited pc
  | first pc frames wdNum nextWd returned unwatched =>
      refine .first pc (by rw [frames]; rfl) wdNum (Inotify.nextWd_changed.trans nextWd) returned ?_
      exact fun i watched => unwatched i (Inotify.watched_changed.mp watched).1
  | unread unread =>
      exact .unread ⟨unread.pc, by rw [unread.frames]; rfl, unread.wdNum,
        Inotify.nextWd_changed.trans unread.nextWd, unread.returned⟩
  | counted counted =>
      refine .counted ⟨?_, counted.started, ?_, ?_⟩
      · rw [Inotify.nextWd_changed]
        exact counted.agree
      · exact fun same => (List.map_eq_nil_iff.not).mpr (counted.entry same)
      · exact fun same => (List.map_eq_nil_iff.not).mpr (counted.report same)

theorem TableInv.chmod (inv : TableInv P s) (denied : Inode → Bool) :
    TableInv P { s with denied := denied } := by
  cases inv with
  | exited pc => exact .exited pc
  | first pc frames wdNum nextWd returned unwatched =>
      exact .first pc frames wdNum nextWd returned unwatched
  | unread unread =>
      exact .unread ⟨unread.pc, unread.frames, unread.wdNum, unread.nextWd, unread.returned⟩
  | counted counted =>
      exact .counted ⟨counted.agree, counted.started, counted.entry, counted.report⟩

theorem TableInv.entry (inv : TableInv P s) {x : FileName} (taken : s.stepEntry x = some t) :
    TableInv P t := by
  unfold System.stepEntry at taken
  split at taken
  next f rest pc frames =>
    split at taken
    · cases taken
    · cases taken
      cases inv with
      | exited same => exact nomatch pc.symm.trans same
      | first same => exact nomatch pc.symm.trans same
      | unread unread => exact nomatch frames.symm.trans unread.frames
      | counted counted =>
          refine .counted ⟨counted.agree, ?_, fun _ => List.cons_ne_nil _ _, ?_⟩
          · dsimp only
            split <;> simp
          · exact fun _ => List.cons_ne_nil _ _
  next => cases taken

theorem TableInv.read (inv : TableInv P s) {n : Nat} (taken : s.stepRead n = some t) :
    TableInv P t := by
  unfold System.stepRead at taken
  split at taken
  next pc =>
    split at taken
    · cases taken
    · cases taken
      cases inv with
      | exited same => exact nomatch pc.symm.trans same
      | first same => exact nomatch pc.symm.trans same
      | unread unread =>
          rcases unread.pc with same | same | ⟨dir, same⟩ <;> exact nomatch pc.symm.trans same
      | counted counted => exact .counted ⟨counted.agree, by simp, nofun, nofun⟩
  next => cases taken

/-- The call that the logger makes while the table is not set up. -/
theorem Unread.logger (unread : Unread P s) {garbage : Bool}
    (new : s.AddsNew P (.logger garbage)) (taken : s.stepLogger P garbage = some t) :
    TableInv P t := by
  change s.pc.AddsNew P s at new
  have early := unread.pc
  cases called taken with
  | exits => exact .exited rfl
  | walkRoot pc found =>
      rw [pc] at new
      refine .unread ⟨.inr (.inl ?_), unread.frames, unread.wdNum, unread.nextWd, unread.returned⟩
      exact if_pos (new _ found)
  | openRoot pc =>
      exact .unread ⟨.inr (.inr ⟨_, rfl⟩), unread.frames, unread.wdNum, unread.nextWd,
        unread.returned⟩
  | unreadRoot pc found isDir denied =>
      rw [pc] at new
      exact absurd ((new _ found isDir).symm.trans denied) Bool.false_ne_true
  | reportRoot pc frames =>
      rcases early with same | same | ⟨dir, same⟩ <;> cases pc.symm.trans same
      rw [unread.wdNum]
      refine .counted (@Counted.walk s 1 _ _ _ ⟨rfl, unread.nextWd, ?_⟩ _)
      intro r member
      rw [unread.returned] at member
      rw [List.mem_singleton.mp member]
      exact ⟨le_rfl, rfl⟩
  | reportEntry pc frames => exact absurd unread.frames frames
  | watchRoot pc | openEntry pc | unreadEntry pc | walked pc | pop pc | event pc | addWatch pc =>
      rw [pc] at early
      simp at early

/-- The call that the logger makes once the table is set up. -/
theorem Counted.logger (counted : Counted s) {garbage : Bool}
    (new : s.AddsNew P (.logger garbage)) (taken : s.stepLogger P garbage = some t) :
    TableInv P t := by
  change s.pc.AddsNew P s at new
  obtain ⟨notWatchRoot, notWalkRoot, notOpenRoot⟩ := counted.started
  cases called taken with
  | exits => exact .exited rfl
  | watchRoot pc => exact absurd pc notWatchRoot
  | walkRoot pc => exact absurd pc notWalkRoot
  | openRoot pc | unreadRoot pc => exact absurd pc notOpenRoot
  | unreadEntry => exact .counted ⟨counted.agree, by simp, nofun, nofun⟩
  | openEntry pc =>
      exact .counted ⟨counted.agree, by simp, by simp, fun _ => counted.entry pc⟩
  | reportRoot pc frames => exact absurd frames (counted.report pc)
  | reportEntry pc frames found =>
      rw [pc] at new
      exact .counted (Counted.walk (counted.agree.store (new frames _ found) _) _)
  | walked => exact .counted (counted.inLoop trivial)
  | pop => exact .counted (Counted.walk counted.agree _)
  | event => exact counted.inotifyEvent garbage _ _
  | addWatch pc found =>
      rw [pc] at new
      have added := new _ (System.resolve_of_reach found)
      exact .counted ⟨counted.agree.store added _, by simp, nofun, nofun⟩

/-- Every step keeps the invariant. -/
theorem TableInv.step {a : Action} (new : s.AddsNew P a) (inv : TableInv P s)
    (taken : step P s a = some t) : TableInv P t := by
  cases a with
  | change change => exact inv.change taken
  | chmod i denied =>
      cases taken
      exact inv.chmod _
  | logger garbage =>
      cases inv with
      | exited pc => exact .exited (exited_step pc taken)
      | first pc frames wdNum nextWd returned unwatched =>
          cases called taken with
          | exits => exact .exited rfl
          | @watchRoot i =>
              refine .unread ⟨.inl rfl, frames, congrArg (· + 1) wdNum, ?_, ?_⟩
              · exact (Inotify.nextWd_add_of_not_watched (unwatched i)).trans
                  (congrArg (· + 1) nextWd)
              · unfold System.added
                dsimp only
                rw [returned, Inotify.descriptor_of_not_watched (unwatched i), nextWd]
                rfl
          | walkRoot other | openRoot other | unreadRoot other | openEntry other
          | unreadEntry other | reportRoot other | reportEntry other | walked other | pop other
          | event other | addWatch other =>
              cases pc.symm.trans other
      | unread unread => exact unread.logger new taken
      | counted counted => exact counted.logger new taken
  | entry x => exact inv.entry taken
  | read n => exact inv.read taken
  | fails =>
      rw [FileLog.step] at taken
      split at taken
      · cases taken
      · cases taken
        exact .exited rfl

/-- **The table of paths.** In every run in which the walk finds a directory at its root that it
may read and each path that the logger adds leads to an inode that is not watched, the table has for
every number that was returned a path under which it was returned. -/
theorem indexed_of_run {tree : FileTree} {actions : List Action}
    (new : Along (step P) (System.AddsNew P) (start tree) actions)
    (ran : run (step P) (start tree) actions = some s) : s.Indexed := by
  intro inLoop r member
  have inv := run_invariant_along (fun new inv taken => TableInv.step new inv taken) new
    (tableInv_start P tree) ran
  cases inv with
  | exited pc =>
      rw [pc] at inLoop
      exact inLoop.elim
  | first pc =>
      rw [pc] at inLoop
      exact inLoop.elim
  | unread unread =>
      rcases unread.pc with pc | pc | ⟨dir, pc⟩ <;>
        · rw [pc] at inLoop
          exact inLoop.elim
  | counted counted => exact ⟨r.2, (counted.agree.stored r member).2, member⟩

/-- The walk ends, then `r/a` is made and watched. -/
def onceActions : List Action :=
  [.logger false, .logger false, .logger false, .logger false, .logger false, .logger false,
    .change (.create 1 [97] .directory), .read 1, .logger false, .logger false]

theorem indexed_once :
    ∃ s, run (step smallSetup) (start smallTree) onceActions = some s ∧ s.pc = .loop [] ∧
      s.dirList.length = 2 ∧ s.Indexed := by
  have reaches : (run (step smallSetup) (start smallTree) onceActions).map
      (fun s => (s.pc, s.dirList.length)) = some (.loop [], 2) := by
    decide +kernel
  obtain ⟨s, ran, same⟩ := Option.map_eq_some_iff.mp reaches
  obtain ⟨pc, length⟩ := Prod.mk.inj same
  exact ⟨s, ran, pc, length, indexed_of_run (by decide +kernel) ran⟩

/-- The directory `r/a` is made before the walk reads `r`, so both the walk and its event add
it. Then `r/b` is made. -/
def twiceActions : List Action :=
  [.logger false, .logger false, .logger false, .change (.create 1 [97] .directory),
    .logger false, .entry [97], .logger false, .logger false, .logger false, .logger false,
    .logger false, .read 1, .logger false, .logger false,
    .change (.create 1 [98] .directory), .read 1, .logger false, .logger false]

/-- The number 3 was returned for `r/b`, and the table has `r/a` there. -/
theorem misplaced_twice :
    ∃ s, run (step smallSetup) (start smallTree) twiceActions = some s ∧ ¬ s.Indexed := by
  have reaches : (run (step smallSetup) (start smallTree) twiceActions).map
      (fun s => (s.pc, s.dirList, s.returned)) =
        some (.loop [],
          [some [114], some [114, 47, 97], some [114, 47, 97], some [114, 47, 98]],
          [(1, [114]), (2, [114, 47, 97]), (2, [114, 47, 97]), (3, [114, 47, 98])]) := by
    decide +kernel
  obtain ⟨s, ran, same⟩ := Option.map_eq_some_iff.mp reaches
  obtain ⟨pc, dirList, returned⟩ := by simpa only [Prod.mk.injEq] using same
  refine ⟨s, ran, fun indexed => ?_⟩
  obtain ⟨path, stored, member⟩ := indexed (by rw [pc]; trivial) (3, [114, 47, 98])
    (by rw [returned]; decide)
  rw [dirList] at stored
  cases stored
  rw [returned] at member
  exact absurd member (by decide)

end LinuxExercises.FileLog
