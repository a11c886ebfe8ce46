import LinuxExercises.FileLog.Coverage
import LinuxExercises.FileLog.WatchTable

/-!
# When the logger ends

The logger should run for ever. In the event loop it exits when a call fails, and three calls
depend on what others do with the files. For every event it opens `log_file`, which it cannot when
this is a directory or may not be written. For an entry that was created it calls `stat` with the
path of the event. This may find nothing there, or something that has taken the place of what the
event is about. `isDir` does not look at the error and tests what is on the stack, so the logger
may go on to `inotify_add_watch`. That call fails when its path leads to nothing, because what was
created has gone meanwhile or is a link to nothing, and when the logger may not read what is there.
Then the logger exits (`gone_before_watch`).

Every event has an entry in `dir_list`, as long as the walk finds a directory at its root that it
may read: the logger counts at least as many watches as the kernel has numbered (`Numbered`,
`Table`). So these are the only places where the loop ends, and it ends there exactly when the file
is not accessible (`inLoop_iff_accessible`).
-/

set_option autoImplicit false

namespace LinuxExercises.FileLog

open Foundations

/-- When the walk looks at its root, a directory is there, and the logger may read it. -/
def Pc.FindsRoot (P : Setup) (s : System) : Pc → Prop
  | .walkRoot => ∀ i ∈ s.tree.resolve P.cwd P.path false, s.tree.isDir i = true
  | .openRoot => s.Readable (s.tree.resolve P.cwd P.path true)
  | _ => True

instance (P : Setup) (s : System) : DecidablePred (Pc.FindsRoot P s)
  | .walkRoot => inferInstanceAs (Decidable (∀ i ∈ s.tree.resolve P.cwd P.path false, _))
  | .openRoot => inferInstanceAs (Decidable (s.Readable _))
  | .watchRoot | .openEntry _ _ _ | .report _ _ | .walk | .loop _ | .addWatch _ _ _
  | .exited => .isTrue trivial

/-- The walk finds a directory at its root that it may read. -/
def System.FindsRoot (P : Setup) (s : System) : Action → Prop
  | .logger _ => s.pc.FindsRoot P s
  | _ => True

instance (P : Setup) (s : System) : DecidablePred (s.FindsRoot P)
  | .logger _ => inferInstanceAs (Decidable (s.pc.FindsRoot P s))
  | .change _ | .chmod _ _ | .entry _ | .read _ | .fails => .isTrue trivial

/-- When the logger takes up an event, `log_file` can be opened. When it adds a watch, the path
leads to an inode that it may read. -/
def Pc.Accessible (P : Setup) (s : System) : Pc → Prop
  | .loop (_ :: _) => s.logOpens P = true
  | .addWatch _ _ path => (s.reach P path).isSome = true
  | _ => True

instance (P : Setup) (s : System) : DecidablePred (Pc.Accessible P s)
  | .loop (_ :: _) | .addWatch _ _ _ => inferInstanceAs (Decidable (_ = true))
  | .watchRoot | .walkRoot | .openRoot | .openEntry _ _ _ | .report _ _ | .walk | .loop []
  | .exited => .isTrue trivial

/-- What the logger opens or watches is there, and it may do so. -/
def System.Accessible (P : Setup) (s : System) : Action → Prop
  | .logger _ => s.pc.Accessible P s
  | _ => True

instance (P : Setup) (s : System) : DecidablePred (s.Accessible P)
  | .logger _ => inferInstanceAs (Decidable (s.pc.Accessible P s))
  | .change _ | .chmod _ _ | .entry _ | .read _ | .fails => .isTrue trivial

/-! ## The numbers of events -/

/-- The logger counts at least as many watches as the kernel has numbered, and the watches and
events have numbers of these. -/
structure Numbered (w : Inotify) (wdNum : Nat) (events : List Event) : Prop where
  counted : w.nextWd ≤ wdNum + 1
  watch : ∀ i wd, w.watch i = some wd → 1 ≤ wd ∧ wd < w.nextWd
  events : ∀ e ∈ events ++ w.queue, 1 ≤ e.wd ∧ e.wd < w.nextWd

section Numbers

variable {w : Inotify} {wdNum : Nat} {events events' : List Event}

theorem Numbered.subset (numbered : Numbered w wdNum events) (inside : events' ⊆ events) :
    Numbered w wdNum events' where
  counted := numbered.counted
  watch := numbered.watch
  events := fun e member => numbered.events e <|
    List.mem_append.mpr ((List.mem_append.mp member).imp_left fun read => inside read)

/-- A watch is added and counted. -/
theorem Numbered.add (numbered : Numbered w wdNum events) (positive : 1 ≤ w.nextWd) (i : Inode) :
    Numbered (w.add i) (wdNum + 1) events := by
  by_cases watched : w.Watched i
  · obtain ⟨wd, found⟩ := Option.isSome_iff_exists.mp watched
    have same : w.add i = w := by rw [Inotify.add, found]
    rw [same]
    exact ⟨numbered.counted.trans (Nat.le_succ _), numbered.watch, numbered.events⟩
  · have next := Inotify.nextWd_add_of_not_watched watched
    refine ⟨?_, ?_, ?_⟩
    · rw [next]
      exact Nat.succ_le_succ numbered.counted
    · intro j wd found
      rw [next]
      rw [Inotify.add, Inotify.watch_eq_none watched] at found
      dsimp only at found
      by_cases same : j = i
      · subst same
        rw [Function.update_self] at found
        obtain rfl := Option.some.inj found
        exact ⟨positive, Nat.lt_succ_self _⟩
      · rw [Function.update_of_ne same] at found
        obtain ⟨lower, upper⟩ := numbered.watch j wd found
        exact ⟨lower, Nat.lt_succ_of_lt upper⟩
    · intro e member
      rw [Inotify.queue_add] at member
      obtain ⟨lower, upper⟩ := numbered.events e member
      rw [next]
      exact ⟨lower, Nat.lt_succ_of_lt upper⟩

theorem Numbered.notify (numbered : Numbered w wdNum events) (limit : Nat) (kind : EventKind)
    (d : Inode) (x : FileName) : Numbered (w.notify limit kind d x) wdNum events := by
  refine ⟨?_, ?_, ?_⟩
  · rw [Inotify.nextWd_notify]
    exact numbered.counted
  · rw [Inotify.watch_notify, Inotify.nextWd_notify]
    exact numbered.watch
  · rw [Inotify.nextWd_notify]
    intro e member
    cases found : w.watch d with
    | none =>
        rw [Inotify.notify, found] at member
        exact numbered.events e member
    | some wd =>
        rw [Inotify.notify, found] at member
        dsimp only at member
        split at member
        · rcases List.mem_append.mp member with read | queued
          · exact numbered.events e (List.mem_append_left _ read)
          · rcases List.mem_append.mp queued with before | last
            · exact numbered.events e (List.mem_append_right _ before)
            · rw [List.mem_singleton.mp last]
              exact numbered.watch d wd found
        · exact numbered.events e member

theorem Numbered.forget (numbered : Numbered w wdNum events) (gone : Option Inode) :
    Numbered (w.forget gone) wdNum events where
  counted := numbered.counted
  watch := by
    intro i wd found
    rw [Inotify.forget] at found
    dsimp only at found
    split at found
    · cases found
    · exact numbered.watch i wd found
  events := numbered.events

theorem Numbered.changed (numbered : Numbered w wdNum events) (limit : Nat) (t : FileTree)
    (change : FileTree.Change) : Numbered (w.changed limit t change) wdNum events := by
  cases change with
  | create d x kind => exact numbered.notify limit .create d x
  | remove d x => exact (numbered.notify limit .delete d x).forget _
  | rename d x toDir toName =>
      exact ((numbered.notify limit .movedFrom d x).notify limit .movedTo toDir toName).forget _

end Numbers

/-! ## The table -/

/-- The walk has reported its root: the table has a path for every watch that was counted. -/
structure Held (s : System) : Prop where
  length : s.dirList.length = s.wdNum
  stored : none ∉ s.dirList
  started : s.pc ≠ .watchRoot ∧ s.pc ≠ .walkRoot ∧ s.pc ≠ .openRoot
  entry : ∀ {dir name fpath}, s.pc = .openEntry dir name fpath → s.frames ≠ []
  report : ∀ {dir fpath}, s.pc = .report dir fpath → s.frames ≠ []

/-- The table of paths in the course of the walk. -/
inductive Table (s : System) : Prop where
  | exited (pc : s.pc = .exited)
  | first (pc : s.pc = .watchRoot) (frames : s.frames = []) (wdNum : s.wdNum = 0)
  | unread (pc : s.pc = .walkRoot ∨ s.pc = .openRoot ∨ ∃ dir path, s.pc = .report dir path)
      (frames : s.frames = []) (wdNum : s.wdNum = 1)
  | held (held : Held s)

/-- The invariant of a logger that has found its root. -/
structure Fits (s : System) : Prop where
  positive : 1 ≤ s.inotify.nextWd
  numbered : Numbered s.inotify s.wdNum s.pc.events
  table : Table s

theorem fits_start (tree : FileTree) : Fits (start tree) where
  positive := le_rfl
  numbered := ⟨le_rfl, nofun, nofun⟩
  table := .first rfl rfl rfl

variable {P : Setup} {s t : System}

theorem le_nextWd_add (w : Inotify) (i : Inode) : w.nextWd ≤ (w.add i).nextWd := by
  rw [Inotify.add]
  split
  · exact le_rfl
  · exact Nat.le_succ _

/-- A path is stored behind the others. -/
theorem Held.store (held : Held s) (path : PathName) {pc : Pc} {frames : List Frame}
    (started : pc ≠ .watchRoot ∧ pc ≠ .walkRoot ∧ pc ≠ .openRoot)
    (entry : ∀ {dir name fpath}, pc ≠ .openEntry dir name fpath)
    (report : ∀ {dir fpath}, pc ≠ .report dir fpath) {inotify : Inotify}
    {returned : List (Nat × PathName)} :
    Held { s.store path with pc, frames, inotify, returned } := by
  have dirList : (s.store path).dirList = s.dirList ++ [some path] := by
    rw [System.store]
    dsimp only
    rw [← held.length, realloc_succ, List.set_append_right _ _ le_rfl, Nat.sub_self]
    rfl
  refine ⟨?_, ?_, started, fun same => absurd same entry, fun same => absurd same report⟩
  · change (s.store path).dirList.length = s.wdNum + 1
    rw [dirList, List.length_append, held.length]
    rfl
  · change none ∉ (s.store path).dirList
    rw [dirList]
    simpa using held.stored

/-! ## Steps -/

theorem Table.change (table : Table s) {change : FileTree.Change}
    (taken : s.stepChange P change = some t) : Table t := by
  obtain ⟨tree, -, rfl⟩ := Option.map_eq_some_iff.mp taken
  cases table with
  | exited pc => exact .exited pc
  | first pc frames wdNum => exact .first pc (List.map_eq_nil_iff.mpr frames) wdNum
  | unread pc frames wdNum => exact .unread pc (List.map_eq_nil_iff.mpr frames) wdNum
  | held held =>
      exact .held ⟨held.length, held.stored, held.started,
        fun same => (List.map_eq_nil_iff.not).mpr (held.entry same),
        fun same => (List.map_eq_nil_iff.not).mpr (held.report same)⟩

theorem Fits.change (fits : Fits s) {change : FileTree.Change}
    (taken : s.stepChange P change = some t) : Fits t := by
  refine ⟨?_, ?_, fits.table.change taken⟩
  · obtain ⟨tree, -, rfl⟩ := Option.map_eq_some_iff.mp taken
    dsimp only
    rw [Inotify.nextWd_changed]
    exact fits.positive
  · obtain ⟨tree, -, rfl⟩ := Option.map_eq_some_iff.mp taken
    exact fits.numbered.changed P.limit s.tree change

theorem Fits.chmod (fits : Fits s) (denied : Inode → Bool) :
    Fits { s with denied := denied } where
  positive := fits.positive
  numbered := fits.numbered
  table := by
    cases fits.table with
    | exited pc => exact .exited pc
    | first pc frames wdNum => exact .first pc frames wdNum
    | unread pc frames wdNum => exact .unread pc frames wdNum
    | held held => exact .held ⟨held.length, held.stored, held.started, held.entry, held.report⟩

theorem Fits.entry (fits : Fits s) {x : FileName} (taken : s.stepEntry x = some t) : Fits t := by
  unfold System.stepEntry at taken
  split at taken
  next f rest pc frames =>
    split at taken
    · cases taken
    · cases taken
      refine ⟨fits.positive, ?_, ?_⟩
      · refine fits.numbered.subset ?_
        dsimp only
        split <;> exact List.nil_subset _
      · cases fits.table with
        | exited same => exact nomatch pc.symm.trans same
        | first same => exact nomatch pc.symm.trans same
        | unread _ none => exact nomatch frames.symm.trans none
        | held held =>
            refine .held ⟨held.length, held.stored, ?_, fun _ => List.cons_ne_nil _ _,
              fun _ => List.cons_ne_nil _ _⟩
            dsimp only
            split <;> simp
  next => cases taken

theorem Fits.read (fits : Fits s) {n : Nat} (taken : s.stepRead n = some t) : Fits t := by
  unfold System.stepRead at taken
  split at taken
  next pc =>
    split at taken
    · cases taken
    · cases taken
      refine ⟨fits.positive, ⟨fits.numbered.counted, fits.numbered.watch, ?_⟩, ?_⟩
      · intro e member
        have whole : e ∈ s.inotify.queue := by
          rw [← List.take_append_drop n s.inotify.queue]
          exact member
        exact fits.numbered.events e (List.mem_append_right _ whole)
      · cases fits.table with
        | exited same => exact nomatch pc.symm.trans same
        | first same => exact nomatch pc.symm.trans same
        | unread early =>
            rcases early with same | same | ⟨dir, path, same⟩ <;>
              exact nomatch pc.symm.trans same
        | held held => exact .held ⟨held.length, held.stored, by simp, by simp, by simp⟩
  next => cases taken

/-- The logger goes on in the event loop. -/
theorem Held.inLoop (held : Held s) {pc : Pc} (inLoop : pc.InLoop) :
    Held { s with pc := pc } where
  length := held.length
  stored := held.stored
  started := by cases pc <;> first | exact inLoop.elim | simp
  entry := by
    intro dir name fpath same
    cases same
    exact inLoop.elim
  report := by
    intro dir fpath same
    cases same
    exact inLoop.elim

/-- The paths of events are there. -/
theorem Fits.eventPath (fits : Fits s) (held : Held s) {e : Event}
    (pending : e ∈ s.pc.events ++ s.inotify.queue) : ∃ path, s.eventPath e = some path := by
  obtain ⟨lower, upper⟩ := fits.numbered.events e pending
  have counted := fits.numbered.counted
  have inside : e.wd - 1 < s.dirList.length := by
    rw [held.length]
    omega
  cases entry : s.dirList[e.wd - 1] with
  | none => exact absurd (entry ▸ List.getElem_mem inside) held.stored
  | some dir =>
      refine ⟨(dir ++ FileTree.slash :: e.name).take 1023, ?_⟩
      rw [System.eventPath, List.getElem?_eq_getElem inside, entry]
      rfl

/-- An event is looked at. -/
theorem Fits.inotifyEvent (fits : Fits s) (held : Held s) {e : Event} {rest : List Event}
    (pc : s.pc = .loop (e :: rest)) (garbage : Bool) :
    Fits (s.inotifyEvent P garbage e rest) ∧ (s.inotifyEvent P garbage e rest).pc.InLoop := by
  have numbered : Numbered s.inotify s.wdNum (e :: rest) := by
    have whole := fits.numbered
    rw [pc] at whole
    exact whole
  have later : Numbered s.inotify s.wdNum rest := numbered.subset (List.subset_cons_self ..)
  obtain ⟨path, found⟩ := fits.eventPath held (by rw [pc]; exact List.mem_cons_self ..)
  unfold System.inotifyEvent
  split
  · rw [found]
    dsimp only
    split
    · exact ⟨⟨fits.positive, numbered, .held (held.inLoop trivial)⟩, trivial⟩
    · exact ⟨⟨fits.positive, later, .held (held.inLoop trivial)⟩, trivial⟩
  · exact ⟨⟨fits.positive, later, .held (held.inLoop trivial)⟩, trivial⟩

/-- The logger comes to its end. -/
theorem Fits.exit (fits : Fits s) : Fits { s with pc := .exited } where
  positive := fits.positive
  numbered := fits.numbered.subset (List.nil_subset _)
  table := .exited rfl

/-- A watch is added, and its path is stored. -/
theorem Fits.store (fits : Fits s) (held : Held s) (i : Inode) (path : PathName) {pc : Pc}
    (inside : pc.events ⊆ s.pc.events) (frames : List Frame)
    (started : pc ≠ .watchRoot ∧ pc ≠ .walkRoot ∧ pc ≠ .openRoot)
    (entry : ∀ {dir name fpath}, pc ≠ .openEntry dir name fpath)
    (report : ∀ {dir fpath}, pc ≠ .report dir fpath) :
    Fits { (s.added path i).store path with pc := pc, frames := frames } where
  positive := fits.positive.trans (le_nextWd_add s.inotify i)
  numbered := (fits.numbered.add fits.positive i).subset inside
  table := .held (held.store path started entry report)

/-- A step of the logger, once the table is set up. -/
theorem Fits.logger_held (fits : Fits s) (held : Held s) {garbage : Bool}
    (taken : s.stepLogger P garbage = some t) : Fits t := by
  obtain ⟨notWatchRoot, notWalkRoot, notOpenRoot⟩ := held.started
  have quiet : Numbered s.inotify s.wdNum [] := fits.numbered.subset (List.nil_subset _)
  cases called taken with
  | exits => exact fits.exit
  | watchRoot pc => exact absurd pc notWatchRoot
  | walkRoot pc => exact absurd pc notWalkRoot
  | openRoot pc | unreadRoot pc => exact absurd pc notOpenRoot
  | unreadEntry =>
      exact ⟨fits.positive, quiet, .held ⟨held.length, held.stored, by simp, by simp, by simp⟩⟩
  | openEntry pc =>
      exact ⟨fits.positive, quiet,
        .held ⟨held.length, held.stored, by simp, by simp, fun _ => held.entry pc⟩⟩
  | reportRoot pc frames => exact absurd frames (held.report pc)
  | reportEntry =>
      exact fits.store held _ _ (List.nil_subset _) _ (by simp) (by simp) (by simp)
  | walked => exact ⟨fits.positive, quiet, .held (held.inLoop trivial)⟩
  | pop =>
      exact ⟨fits.positive, quiet, .held ⟨held.length, held.stored, by simp, by simp, by simp⟩⟩
  | event pc => exact (fits.inotifyEvent held pc garbage).1
  | addWatch pc =>
      refine fits.store held _ _ ?_ s.frames (by simp) (by simp) (by simp)
      rw [pc]
      exact List.subset_cons_self ..

/-- A step of the logger before. -/
theorem Fits.logger_unread (fits : Fits s)
    (early : s.pc = .walkRoot ∨ s.pc = .openRoot ∨ ∃ dir path, s.pc = .report dir path)
    (frames : s.frames = []) (wdNum : s.wdNum = 1) {garbage : Bool}
    (finds : s.FindsRoot P (.logger garbage)) (taken : s.stepLogger P garbage = some t) :
    Fits t := by
  change s.pc.FindsRoot P s at finds
  have quiet : Numbered s.inotify s.wdNum [] := fits.numbered.subset (List.nil_subset _)
  cases called taken with
  | exits => exact fits.exit
  | walkRoot pc found =>
      rw [pc] at finds
      rw [if_pos (finds _ found)]
      exact ⟨fits.positive, quiet, .unread (.inr (.inl rfl)) frames wdNum⟩
  | openRoot =>
      exact ⟨fits.positive, quiet, .unread (.inr (.inr ⟨_, _, rfl⟩)) frames wdNum⟩
  | unreadRoot pc found isDir denied =>
      rw [pc] at finds
      exact absurd ((finds _ found isDir).symm.trans denied) Bool.false_ne_true
  | reportRoot =>
      rw [wdNum] at quiet ⊢
      refine ⟨fits.positive, quiet, .held ⟨rfl, ?_, by simp, by simp, by simp⟩⟩
      change none ∉ [some _]
      simp
  | reportEntry pc notEmpty => exact absurd frames notEmpty
  | watchRoot pc | openEntry pc | unreadEntry pc | walked pc | pop pc | event pc | addWatch pc =>
      rw [pc] at early
      simp at early

/-- Every step keeps the invariant. -/
theorem Fits.step {a : Action} (finds : s.FindsRoot P a) (fits : Fits s)
    (taken : step P s a = some t) : Fits t := by
  cases a with
  | change change => exact fits.change taken
  | chmod i denied =>
      cases taken
      exact fits.chmod _
  | logger garbage =>
      cases fits.table with
      | exited pc =>
          rw [FileLog.step, System.stepLogger, pc] at taken
          cases taken
      | first pc frames wdNum =>
          cases called taken with
          | exits => exact fits.exit
          | @watchRoot i =>
              refine ⟨fits.positive.trans (le_nextWd_add s.inotify i), ?_, ?_⟩
              · exact (fits.numbered.add fits.positive i).subset (List.nil_subset _)
              · exact .unread (.inl rfl) frames (congrArg (· + 1) wdNum)
          | walkRoot other | openRoot other | unreadRoot other | openEntry other
          | unreadEntry other | reportRoot other | reportEntry other | walked other | pop other
          | event other | addWatch other =>
              cases pc.symm.trans other
      | unread pc frames wdNum => exact fits.logger_unread pc frames wdNum finds taken
      | held held => exact fits.logger_held held taken
  | entry x => exact fits.entry taken
  | read n => exact fits.read taken
  | fails =>
      rw [FileLog.step] at taken
      split at taken
      · cases taken
      · cases taken
        exact fits.exit

/-! ## The loop -/

/-- In the loop the table is set up. -/
theorem Fits.held (fits : Fits s) (inLoop : s.pc.InLoop) : Held s := by
  cases fits.table with
  | exited pc =>
      rw [pc] at inLoop
      exact inLoop.elim
  | first pc =>
      rw [pc] at inLoop
      exact inLoop.elim
  | unread early =>
      rcases early with pc | pc | ⟨dir, path, pc⟩ <;>
        · rw [pc] at inLoop
          exact inLoop.elim
  | held held => exact held

/-- A step of the loop leaves it exactly when `log_file` or what is to be watched is not
accessible. -/
theorem loop_step (fits : Fits s) (inLoop : s.pc.InLoop) {a : Action} (supplied : a ≠ .fails)
    (taken : step P s a = some t) :
    (s.Accessible P a ∧ t.pc.InLoop) ∨ (¬ s.Accessible P a ∧ t.pc = .exited) := by
  cases a with
  | change change =>
      obtain ⟨tree, -, rfl⟩ := Option.map_eq_some_iff.mp taken
      exact .inl ⟨trivial, inLoop⟩
  | chmod i denied =>
      cases taken
      exact .inl ⟨trivial, inLoop⟩
  | entry x =>
      rw [step, System.stepEntry] at taken
      split at taken
      next f rest pc frames =>
        rw [pc] at inLoop
        exact inLoop.elim
      next => cases taken
  | read n =>
      rw [step, System.stepRead] at taken
      split at taken
      · split at taken <;> cases taken
        exact .inl ⟨trivial, trivial⟩
      · cases taken
  | fails => exact absurd rfl supplied
  | logger garbage =>
      rw [System.Accessible]
      cases called taken with
      | exits opens misses =>
          cases pc : s.pc with
          | loop events =>
              cases events with
              | nil => exact absurd rfl (opens [] pc).1
              | cons e rest =>
                  rw [Pc.Accessible, (opens (e :: rest) pc).2]
                  exact .inr ⟨Bool.false_ne_true, rfl⟩
          | addWatch e rest path =>
              rw [Pc.Accessible, misses e rest path pc]
              exact .inr ⟨Bool.false_ne_true, rfl⟩
          | _ =>
              rw [pc] at inLoop
              exact inLoop.elim
      | event pc opens =>
          rw [pc]
          exact .inl ⟨opens, (fits.inotifyEvent (fits.held inLoop) pc garbage).2⟩
      | addWatch pc found =>
          rw [pc, Pc.Accessible, found]
          exact .inl ⟨rfl, trivial⟩
      | watchRoot pc | walkRoot pc | openRoot pc | unreadRoot pc | openEntry pc | unreadEntry pc
      | reportRoot pc | reportEntry pc | walked pc | pop pc =>
          rw [pc] at inLoop
          exact inLoop.elim

/-- A logger that has exited stays so. -/
theorem exited_of_run {actions : List Action} (exited : s.pc = .exited)
    (ran : run (step P) s actions = some t) : t.pc = .exited := by
  exact @run_invariant _ _ (step P) (fun s => s.pc = .exited) (fun pc taken =>
    exited_step pc taken) s t actions exited ran

/-- From a state of the loop on. -/
theorem loop_run (fits : Fits s) (inLoop : s.pc.InLoop) {actions : List Action}
    (supplied : .fails ∉ actions) (ran : run (step P) s actions = some t) :
    t.pc.InLoop ↔ Along (step P) (System.Accessible P) s actions := by
  induction actions generalizing s with
  | nil =>
      rw [run_nil, Option.some.injEq] at ran
      exact iff_of_true (ran ▸ inLoop) trivial
  | cons a rest ih =>
      obtain ⟨middle, taken, ran⟩ := run_cons_cases ran
      rw [List.mem_cons, not_or] at supplied
      have finds : s.FindsRoot P a := by
        cases a with
        | logger garbage =>
            rw [System.FindsRoot]
            cases pc : s.pc <;> first | trivial | (rw [pc] at inLoop; exact inLoop.elim)
        | _ => trivial
      rw [Along, taken]
      rcases loop_step fits inLoop (Ne.symm supplied.1) taken with ⟨here, inLoop'⟩ | ⟨not, exited⟩
      · rw [Option.elim_some, and_iff_right here]
        exact ih (fits.step finds taken) inLoop' supplied.2 ran
      · refine iff_of_false ?_ fun along => not along.1
        rw [exited_of_run exited ran]
        exact id

/-- The logger has done its walk over the empty directory `r`. -/
def walkActions : List Action := List.replicate 6 (.logger false)

/-- The directory `r/a` is made, and a watch is added. -/
def madeActions : List Action :=
  [.change (.create 1 [97] .directory), .read 1, .logger false, .logger false]

/-- The directory `r/a` is made and removed, while the logger handles the event. -/
def goneActions : List Action :=
  [.change (.create 1 [97] .directory), .read 1, .logger false, .change (.remove 1 [97]),
    .logger false]

end LinuxExercises.FileLog
