import LinuxExercises.FileLog.System

/-!
# Which directories are watched

A directory is watched only some steps after it has appeared. What is made in it in between
raises no event, and the logger does not look into a directory that it adds for an event
(`missed_nested`). It also does nothing for a directory that is moved into the tree.

All directories below the logged one are watched, once the walk is over and no event
is pending, in every run in which no step opens such a gap (`covered_of_run`): a watch that
an event adds goes to a directory whose own directories are watched, a directory is moved
into a watched one only when it is watched itself, the paths of the logger lead to the
directories that it means, and the queue has room for the events.

At every time, a directory in a watched directory is watched, or an event for it is
pending, or the walk has still to visit it (`Inv.covered`).
-/

set_option autoImplicit false

namespace LinuxExercises.FileLog

open Foundations

/-- The walk is over, and no event is pending. -/
def System.Quiet (s : System) : Prop := s.pc = .loop [] ∧ s.inotify.queue = []

/-- All directories below the logged one are watched. -/
def System.Covered (s : System) : Prop :=
  ∀ r c, s.logged = some r → s.tree.Below r c → s.inotify.Watched c

/-- The directories in a directory are watched. -/
def System.Closed (s : System) (i : Inode) : Prop :=
  ∀ entry ∈ s.tree.entries i, s.tree.isDir entry.2 = true → s.inotify.Watched entry.2

instance (s : System) (i : Inode) : Decidable (s.Closed i) :=
  inferInstanceAs (Decidable (∀ entry ∈ s.tree.entries i, _))

/-- The paths of the logger lead to the directories that it means, it may read those that the walk
comes to, and a directory that it adds holds none that is not watched, unless the walk is about to
read it. -/
def Pc.LeavesNoGap (P : Setup) (s : System) (garbage : Bool) : Pc → Prop
  | .walkRoot => ∀ i ∈ s.tree.resolve P.cwd P.path false, s.tree.isDir i = true
  | .openRoot => s.Readable (s.tree.resolve P.cwd P.path true)
  | .openEntry dir name _ => s.Readable (s.tree.openAt dir name)
  | .report dir fpath =>
      if s.frames = [] then s.logged = some dir
      else
        ∀ i ∈ s.tree.resolve P.cwd fpath true,
          (s.tree.isDir dir = true → i = dir ∨ s.inotify.Watched dir) ∧
            (i = dir ∨ s.inotify.Watched i ∨ s.Closed i)
  | .loop (e :: _) =>
      e.kind = .create → ∀ c ∈ s.tree.child e.dir e.name, s.tree.isDir c = true →
        s.inotify.Watched c ∨ ∀ path ∈ s.eventPath e, s.isDir P garbage path = false
  | .addWatch e _ path =>
      ∀ i ∈ s.tree.resolve P.cwd path true,
        (∀ c ∈ s.tree.child e.dir e.name, s.tree.isDir c = true → i = c ∨ s.inotify.Watched c) ∧
          (s.inotify.Watched i ∨ s.Closed i)
  | _ => True

instance (P : Setup) (s : System) (garbage : Bool) : DecidablePred (Pc.LeavesNoGap P s garbage)
  | .walkRoot => inferInstanceAs (Decidable (∀ i ∈ s.tree.resolve P.cwd P.path false, _))
  | .openRoot | .openEntry _ _ _ => inferInstanceAs (Decidable (s.Readable _))
  | .report _ _ => inferInstanceAs (Decidable (if s.frames = [] then _ else ∀ i ∈ _, _))
  | .loop (e :: _) =>
      inferInstanceAs (Decidable (e.kind = .create → ∀ c ∈ s.tree.child e.dir e.name, _))
  | .addWatch _ _ path => inferInstanceAs (Decidable (∀ i ∈ s.tree.resolve P.cwd path true, _))
  | .watchRoot | .walk | .loop [] | .exited => .isTrue trivial

/-- The step opens no gap: besides, the queue has room for the event of a new directory, and
a directory is moved into a watched one only when it is watched itself. -/
def System.LeavesNoGap (P : Setup) (s : System) : Action → Prop
  | .change (.create d _ .directory) => s.inotify.Watched d → s.inotify.queue.length < P.limit
  | .change (.rename d x toDir _) =>
      ∀ c ∈ s.tree.child d x, s.tree.isDir c = true → s.inotify.Watched toDir →
        s.inotify.Watched c
  | .logger garbage => s.pc.LeavesNoGap P s garbage
  | _ => True

instance (P : Setup) (s : System) : DecidablePred (s.LeavesNoGap P)
  | .change (.create d _ .directory) =>
      inferInstanceAs (Decidable (s.inotify.Watched d → s.inotify.queue.length < P.limit))
  | .change (.rename d x _ _) => inferInstanceAs (Decidable (∀ c ∈ s.tree.child d x, _))
  | .logger garbage => inferInstanceAs (Decidable (s.pc.LeavesNoGap P s garbage))
  | .change (.create _ _ .regular) | .change (.create _ _ (.link _))
  | .change (.create _ _ .special) | .change (.remove _ _) | .chmod _ _ | .entry _ | .read _
  | .fails => .isTrue trivial

/-! ## What the logger has still to look at -/

/-- The events that the logger has read and not dealt with. -/
def Pc.events : Pc → List Event
  | .loop events => events
  | .addWatch e rest _ => e :: rest
  | _ => []

/-- The walk is at a directory that it has found. -/
def Pc.Visits (d : Inode) (x : FileName) (c : Inode) : Pc → Prop
  | .openEntry dir name _ => dir = d ∧ name = x
  | .report dir _ => dir = c
  | _ => False

/-- The walk has no directory to read yet. -/
def Pc.BeforeReading (noFrame : Prop) : Pc → Prop
  | .walkRoot => True
  | .openRoot => True
  | .report _ _ => noFrame
  | _ => False

/-- One of the events says that the entry has been created. -/
def Mentions (events : List Event) (d : Inode) (x : FileName) : Prop :=
  ∃ e ∈ events, e.kind = .create ∧ e.dir = d ∧ e.name = x

/-- The logged directory has been watched and not been reported by the walk. -/
def System.Unread (s : System) : Prop := s.pc.BeforeReading (s.frames = [])

/-- A directory in a directory is watched, or an event for its entry is pending, or the walk
has still to read the entry, or it is at the directory. -/
inductive Known (s : System) (d : Inode) (x : FileName) (c : Inode) : Prop where
  | watched (watched : s.inotify.Watched c)
  | announced (announced : Mentions (s.pc.events ++ s.inotify.queue) d x)
  | listed {f : Frame} (member : f ∈ s.frames) (inDir : f.dir = d) (inMust : x ∈ f.must)
  | visited (visits : s.pc.Visits d x c)

/-- The invariant of a logger that runs. -/
structure Inv (s : System) : Prop where
  logged : ∀ {r}, s.logged = some r →
    s.inotify.Watched r ∨ (r < s.tree.next ∧ s.tree.isDir r = false)
  covered : ∀ {d x c}, s.inotify.Watched d → s.tree.child d x = some c → s.tree.isDir c = true →
    (s.Unread ∧ s.logged = some d) ∨ Known s d x c
  first : s.pc = .watchRoot → s.frames = [] ∧ ∀ i, ¬ s.inotify.Watched i
  unread : s.Unread → s.frames = []
  done : s.pc.InLoop → s.frames = []

theorem inv_start (tree : FileTree) : Inv (start tree) where
  logged := nofun
  covered := fun watched => nomatch watched
  first := fun _ => ⟨rfl, fun _ watched => nomatch watched⟩
  unread := fun unread => unread.elim
  done := fun inLoop => inLoop.elim

variable {P : Setup} {s t : System} {d i c dir : Inode} {x : FileName} {e : Event}
  {rest : List Event}

theorem not_unread {pc : Pc} (isPc : s.pc = pc) (reading : ¬ pc.BeforeReading (s.frames = [])) :
    ¬ s.Unread := by
  rw [System.Unread, isPc]
  exact reading

/-- Once the walk reads, every directory in a watched directory is known. -/
theorem Inv.known (inv : Inv s) (reading : ¬ s.Unread) (watched : s.inotify.Watched d)
    (found : s.tree.child d x = some c) (isDir : s.tree.isDir c = true) : Known s d x c :=
  (inv.covered watched found isDir).resolve_left fun unread => reading unread.1

/-- A further watch leaves the logged directory as it is. -/
theorem Inv.logged_add (inv : Inv s) (i : Inode) {r : Inode} (isLogged : s.logged = some r) :
    (s.inotify.add i).Watched r ∨ (r < s.tree.next ∧ s.tree.isDir r = false) :=
  (inv.logged isLogged).imp_left fun watched => (Inotify.watched_add ..).mpr (.inr watched)

/-- With a further watch, every directory in a watched directory is known as before, or the
watch is a new one on the directory that it is in. -/
theorem Inv.known_add (inv : Inv s) (reading : ¬ s.Unread)
    (watched : (s.inotify.add i).Watched d) (found : s.tree.child d x = some c)
    (isDir : s.tree.isDir c = true) : Known s d x c ∨ (d = i ∧ ¬ s.inotify.Watched i) := by
  by_cases before : s.inotify.Watched d
  · exact .inl (inv.known reading before found isDir)
  · obtain rfl := ((Inotify.watched_add ..).mp watched).resolve_right before
    exact .inr ⟨rfl, before⟩

/-! ## Steps of the others -/

/-- A directory that a change adds is watched already or announced. -/
theorem known_added {change : FileTree.Change} (noGap : s.LeavesNoGap P (.change change))
    {tree : FileTree} (watched : s.inotify.Watched d) (applied : s.tree.apply change = some tree)
    (added : change.added s.tree = some (d, x, c)) (isDir : tree.isDir c = true) :
    (s.inotify.changed P.limit s.tree change).Watched c ∨
      Mentions (s.inotify.changed P.limit s.tree change).queue d x := by
  cases change with
  | create e y kind =>
      cases added
      obtain rfl := FileTree.isDir_next_of_create applied isDir
      exact .inr (Inotify.exists_mem_queue_notify watched (noGap watched))
  | remove e y => cases added
  | rename e y toDir toName =>
      obtain ⟨b, found, same⟩ := Option.map_eq_some_iff.mp added
      cases same
      obtain ⟨wasDir, kept⟩ :=
        (FileTree.isDir_of_apply applied isDir).resolve_left (FileTree.child_lt found).ne
      exact .inl (Inotify.watched_changed.mpr ⟨noGap c found wasDir watched, kept⟩)

/-- A directory that a change leaves where it is stays known. -/
theorem Known.change (known : Known s d x c) {change : FileTree.Change} (tree : FileTree)
    (kept : (d, x) ∉ change.dropped) (alive : change.gone s.tree ≠ some c) :
    Known { s with
      tree := tree
      inotify := s.inotify.changed P.limit s.tree change
      frames := s.frames.map (Frame.drop change.dropped) } d x c := by
  cases known with
  | watched watched => exact .watched (Inotify.watched_changed.mpr ⟨watched, alive⟩)
  | announced announced =>
      obtain ⟨e, member, shape⟩ := announced
      refine .announced ⟨e, ?_, shape⟩
      rcases List.mem_append.mp member with read | queued
      · exact List.mem_append_left _ read
      · exact List.mem_append_right _ (Inotify.mem_queue_changed queued)
  | listed member inDir inMust =>
      subst inDir
      refine .listed (List.mem_map_of_mem member) rfl ?_
      exact List.mem_filter.mpr ⟨inMust, decide_eq_true kept⟩
  | visited visits => exact .visited visits

/-- A change that opens no gap keeps the invariant. -/
theorem Inv.change (inv : Inv s) {change : FileTree.Change}
    (noGap : s.LeavesNoGap P (.change change)) (taken : s.stepChange P change = some t) :
    Inv t := by
  obtain ⟨tree, applied, rfl⟩ := Option.map_eq_some_iff.mp taken
  have framesNil : s.frames.map (Frame.drop change.dropped) = [] ↔ s.frames = [] :=
    List.map_eq_nil_iff
  have unread : s.pc.BeforeReading (s.frames.map (Frame.drop change.dropped) = []) ↔ s.Unread := by
    rw [System.Unread, propext framesNil]
  refine ⟨?_, ?_, ?_, ?_, ?_⟩
  · intro r isLogged
    have later {r : Inode} (below : r < s.tree.next) : r < tree.next :=
      below.trans_le (FileTree.next_le_of_apply applied)
    rcases inv.logged isLogged with watched | ⟨below, notDir⟩
    · by_cases freed : change.gone s.tree = some r
      · have below := FileTree.gone_lt freed
        exact .inr ⟨later below, FileTree.isDir_eq_false_of_apply applied below (.inl freed)⟩
      · exact .inl (Inotify.watched_changed.mpr ⟨watched, freed⟩)
    · exact .inr ⟨later below, FileTree.isDir_eq_false_of_apply applied below (.inr notDir)⟩
  · intro d x c watched found isDir
    have before := (Inotify.watched_changed.mp watched).1
    rcases FileTree.child_of_apply applied found isDir with added | ⟨found, wasDir, kept, alive⟩
    · rcases known_added noGap before applied added isDir with watchedChild | ⟨e, member, shape⟩
      · exact .inr (.watched watchedChild)
      · exact .inr (.announced ⟨e, List.mem_append_right _ member, shape⟩)
    · rcases inv.covered before found wasDir with ⟨isUnread, isLogged⟩ | known
      · exact .inl ⟨unread.mpr isUnread, isLogged⟩
      · exact .inr (known.change tree kept alive)
  · intro pc
    obtain ⟨frames, unwatched⟩ := inv.first pc
    exact ⟨framesNil.mpr frames, fun i watched =>
      unwatched i (Inotify.watched_changed.mp watched).1⟩
  · exact fun isUnread => framesNil.mpr (inv.unread (unread.mp isUnread))
  · exact fun inLoop => framesNil.mpr (inv.done inLoop)

/-- What the logger may do with a file does not matter here. -/
theorem Inv.chmod (inv : Inv s) (denied : Inode → Bool) : Inv { s with denied := denied } where
  logged := inv.logged
  covered := by
    intro d x c watched found isDir
    refine (inv.covered watched found isDir).imp_right fun known => ?_
    cases known with
    | watched watched => exact .watched watched
    | announced announced => exact .announced announced
    | listed member inDir inMust => exact .listed member inDir inMust
    | visited visits => exact .visited visits
  first := inv.first
  unread := inv.unread
  done := inv.done

/-! ## Steps of the logger -/

/-- The logger goes on elsewhere, with what it has still to look at. -/
theorem Inv.move (inv : Inv s) {pc : Pc} (started : pc ≠ .watchRoot)
    (unread : s.Unread → pc.BeforeReading (s.frames = []))
    (noFrame : pc.BeforeReading (s.frames = []) → s.frames = [])
    (done : pc.InLoop → s.frames = [])
    (goesOn : ∀ {d x c}, s.tree.child d x = some c → s.tree.isDir c = true →
      ¬ s.inotify.Watched c → Mentions s.pc.events d x ∨ s.pc.Visits d x c →
        Mentions pc.events d x ∨ pc.Visits d x c) :
    Inv { s with pc := pc } where
  logged := inv.logged
  covered := by
    intro d x c watched found isDir
    by_cases unwatched : s.inotify.Watched c
    · exact .inr (.watched unwatched)
    have shift : Mentions s.pc.events d x ∨ s.pc.Visits d x c →
        Known { s with pc := pc } d x c := by
      intro before
      rcases goesOn found isDir unwatched before with ⟨e, member, shape⟩ | visits
      · exact .announced ⟨e, List.mem_append_left _ member, shape⟩
      · exact .visited visits
    rcases inv.covered watched found isDir with ⟨isUnread, isLogged⟩ | known
    · exact .inl ⟨unread isUnread, isLogged⟩
    · cases known with
      | watched watchedChild => exact .inr (.watched watchedChild)
      | announced announced =>
          obtain ⟨e, member, shape⟩ := announced
          rcases List.mem_append.mp member with read | queued
          · exact .inr (shift (.inl ⟨e, read, shape⟩))
          · exact .inr (.announced ⟨e, List.mem_append_right _ queued, shape⟩)
      | listed member inDir inMust => exact .inr (.listed member inDir inMust)
      | visited visits => exact .inr (shift (.inr visits))
  first := fun same => absurd same started
  unread := noFrame
  done := done

/-- The walk gets a name. -/
theorem Inv.entry (inv : Inv s) (taken : s.stepEntry x = some t) : Inv t := by
  unfold System.stepEntry at taken
  split at taken
  next f rest pc frames =>
    split at taken
    · cases taken
    · cases taken
      refine ⟨inv.logged, ?_, ?_, ?_, ?_⟩
      · intro d y c watched found isDir
        cases inv.known (not_unread pc id) watched found isDir with
        | watched watchedChild => exact .inr (.watched watchedChild)
        | announced announced =>
            obtain ⟨e, member, shape⟩ := announced
            rw [pc] at member
            exact .inr (.announced ⟨e, List.mem_append_right _ member, shape⟩)
        | listed member inDir inMust =>
            subst inDir
            rw [frames] at member
            rcases List.mem_cons.mp member with rfl | member
            · by_cases same : y = x
              · subst same
                refine .inr (.visited ?_)
                dsimp only
                rw [if_pos (by rw [found]; exact isDir)]
                exact ⟨rfl, rfl⟩
              · refine .inr (.listed (List.mem_cons_self ..) rfl ?_)
                exact List.mem_filter.mpr ⟨inMust, decide_eq_true same⟩
            · exact .inr (.listed (List.mem_cons_of_mem _ member) rfl inMust)
        | visited visits =>
            rw [pc] at visits
            exact visits.elim
      · intro same
        dsimp only at same
        split at same <;> cases same
      · intro isUnread
        unfold System.Unread at isUnread
        dsimp only at isUnread
        split at isUnread <;> exact isUnread.elim
      · intro inLoop
        dsimp only at inLoop
        split at inLoop <;> exact inLoop.elim
  next => cases taken

/-- The logger reads events. -/
theorem Inv.read (inv : Inv s) {n : Nat} (taken : s.stepRead n = some t) : Inv t := by
  unfold System.stepRead at taken
  split at taken
  next pc =>
    split at taken
    · cases taken
    · cases taken
      refine ⟨inv.logged, ?_, nofun, fun isUnread => isUnread.elim,
        fun _ => inv.done (by rw [pc]; trivial)⟩
      intro d x c watched found isDir
      cases inv.known (not_unread pc id) watched found isDir with
      | watched watchedChild => exact .inr (.watched watchedChild)
      | announced announced =>
          obtain ⟨e, member, shape⟩ := announced
          rw [pc] at member
          refine .inr (.announced ⟨e, ?_, shape⟩)
          exact (List.take_append_drop n s.inotify.queue).symm ▸ member
      | listed member inDir inMust => exact .inr (.listed member inDir inMust)
      | visited visits =>
          rw [pc] at visits
          exact visits.elim
  next => cases taken

/-- The first watch is added. -/
theorem Inv.watchRoot (inv : Inv s) (pc : s.pc = .watchRoot) (i : Inode) :
    Inv { s.added P.path i with wdNum := s.wdNum + 1, pc := .walkRoot, logged := some i } := by
  obtain ⟨frames, unwatched⟩ := inv.first pc
  refine ⟨?_, ?_, nofun, fun _ => frames, fun _ => frames⟩
  · rintro r isLogged
    exact .inl ((Inotify.watched_add ..).mpr (.inl (Option.some.inj isLogged).symm))
  · intro d x c watched _ _
    rcases (Inotify.watched_add ..).mp watched with rfl | watched
    · exact .inl ⟨trivial, rfl⟩
    · exact absurd watched (unwatched d)

/-- The walk reports the logged directory. -/
theorem Inv.reportRoot (inv : Inv s) {fpath : PathName} (pc : s.pc = .report dir fpath)
    (frames : s.frames = []) (isLogged : s.logged = some dir) :
    Inv { s with
      dirList := (List.replicate 1 none).set (s.wdNum - 1) (some fpath)
      frames := [.enter s.tree dir fpath]
      pc := .walk } := by
  refine ⟨inv.logged, ?_, by simp, fun isUnread => isUnread.elim, fun inLoop => inLoop.elim⟩
  intro d x c watched found isDir
  rcases inv.covered watched found isDir with ⟨-, same⟩ | known
  · obtain rfl := Option.some.inj (isLogged.symm.trans same)
    refine .inr (.listed (List.mem_singleton_self _) rfl ?_)
    exact List.mem_map_of_mem (FileTree.mem_entries_of_child found)
  · cases known with
    | watched watchedChild => exact .inr (.watched watchedChild)
    | announced announced =>
        rw [pc] at announced
        exact .inr (.announced announced)
    | listed member inDir inMust =>
        rw [frames] at member
        cases member
    | visited visits =>
        -- The directory that is reported is the logged one, which is watched.
        rw [pc] at visits
        obtain rfl : dir = c := visits
        rcases inv.logged isLogged with watchedChild | ⟨-, notDir⟩
        · exact .inr (.watched watchedChild)
        · exact absurd (notDir.symm.trans isDir) Bool.false_ne_true

/-- The walk reports another directory. -/
theorem Inv.reportEntry (inv : Inv s) {fpath : PathName} (pc : s.pc = .report dir fpath)
    (frames : s.frames ≠ []) (leads : s.tree.isDir dir = true → i = dir ∨ s.inotify.Watched dir)
    (closed : i = dir ∨ s.inotify.Watched i ∨ s.Closed i) :
    Inv { (s.added fpath i).store fpath with
      frames := .enter s.tree dir fpath :: s.frames
      pc := .walk } := by
  refine ⟨inv.logged_add i, ?_, nofun, fun isUnread => isUnread.elim, fun inLoop => inLoop.elim⟩
  intro d x c watched found isDir
  rcases inv.known_add (not_unread pc frames) watched found isDir with known | ⟨rfl, isNew⟩
  · cases known with
    | watched watchedChild =>
        exact .inr (.watched ((Inotify.watched_add ..).mpr (.inr watchedChild)))
    | announced announced =>
        rw [pc, ← Inotify.queue_add s.inotify i] at announced
        exact .inr (.announced announced)
    | listed member inDir inMust =>
        exact .inr (.listed (List.mem_cons_of_mem _ member) inDir inMust)
    | visited visits =>
        rw [pc] at visits
        obtain rfl : dir = c := visits
        exact .inr (.watched ((Inotify.watched_add ..).mpr ((leads isDir).imp_left Eq.symm)))
  · have inside := FileTree.mem_entries_of_child found
    rcases closed with rfl | same | closed
    · exact .inr (.listed (List.mem_cons_self ..) rfl (List.mem_map_of_mem inside))
    · exact absurd same isNew
    · exact .inr (.watched ((Inotify.watched_add ..).mpr (.inr (closed _ inside isDir))))

/-- The logger adds a watch for an event. -/
theorem Inv.addWatch (inv : Inv s) {path : PathName} (pc : s.pc = .addWatch e rest path)
    (leads : ∀ c ∈ s.tree.child e.dir e.name, s.tree.isDir c = true →
      i = c ∨ s.inotify.Watched c)
    (closed : s.inotify.Watched i ∨ s.Closed i) :
    Inv { (s.added path i).store path with pc := .loop rest } := by
  refine ⟨inv.logged_add i, ?_, nofun, fun isUnread => isUnread.elim,
    fun _ => inv.done (by rw [pc]; trivial)⟩
  intro d x c watched found isDir
  rcases inv.known_add (not_unread pc id) watched found isDir with known | ⟨rfl, isNew⟩
  · cases known with
    | watched watchedChild =>
        exact .inr (.watched ((Inotify.watched_add ..).mpr (.inr watchedChild)))
    | announced announced =>
        obtain ⟨other, member, shape⟩ := announced
        rw [pc, ← Inotify.queue_add s.inotify i] at member
        rcases List.mem_cons.mp member with rfl | member
        · obtain ⟨-, rfl, rfl⟩ := shape
          have led := (leads c found isDir).imp_left Eq.symm
          exact .inr (.watched ((Inotify.watched_add ..).mpr led))
        · exact .inr (.announced ⟨other, member, shape⟩)
    | listed member inDir inMust => exact .inr (.listed member inDir inMust)
    | visited visits =>
        rw [pc] at visits
        exact visits.elim
  · have closed := closed.resolve_left isNew
    have watchedChild := closed _ (FileTree.mem_entries_of_child found) isDir
    exact .inr (.watched ((Inotify.watched_add ..).mpr (.inr watchedChild)))

/-- The logger is done with an event that needs no watch. -/
theorem Inv.skip (inv : Inv s) (pc : s.pc = .loop (e :: rest))
    (watched : e.kind = .create → ∀ c ∈ s.tree.child e.dir e.name, s.tree.isDir c = true →
      s.inotify.Watched c) :
    Inv { s with pc := .loop rest } := by
  refine inv.move nofun (fun isUnread => absurd isUnread (not_unread pc id)) False.elim
    (fun _ => inv.done (by rw [pc]; trivial)) ?_
  rintro d x c found isDir unwatched (⟨other, member, kind, rfl, rfl⟩ | visits)
  · rw [pc] at member
    rcases List.mem_cons.mp member with rfl | member
    · exact absurd (watched kind c found isDir) unwatched
    · exact .inl ⟨other, member, kind, rfl, rfl⟩
  · rw [pc] at visits
    exact visits.elim

/-- The first call for an event. -/
theorem Inv.inotifyEvent (inv : Inv s) (pc : s.pc = .loop (e :: rest)) (garbage : Bool)
    (seen : e.kind = .create → ∀ c ∈ s.tree.child e.dir e.name, s.tree.isDir c = true →
      s.inotify.Watched c ∨ ∀ path ∈ s.eventPath e, s.isDir P garbage path = false) :
    (s.inotifyEvent P garbage e rest).pc = .exited ∨ Inv (s.inotifyEvent P garbage e rest) := by
  unfold System.inotifyEvent
  split
  next kind =>
    split
    · exact .inl rfl
    next path isPath =>
      split
      next =>
        refine .inr (inv.move nofun (fun isUnread => absurd isUnread (not_unread pc id)) False.elim
          (fun _ => inv.done (by rw [pc]; trivial)) ?_)
        rw [pc]
        exact fun _ _ _ before => before
      next regular =>
        refine .inr (inv.skip pc fun kind c found isDir => ?_)
        exact (seen kind c found isDir).resolve_right fun notRegular =>
          regular (notRegular path isPath)
  next other => exact .inr (inv.skip pc fun kind => absurd kind other)

/-- The walk has read a directory. -/
theorem Inv.pop (inv : Inv s) {f : Frame} {rest : List Frame} (pc : s.pc = .walk)
    (frames : s.frames = f :: rest) (read : f.must = []) :
    Inv { s with frames := rest, pc := .walk } := by
  refine ⟨inv.logged, ?_, nofun, fun isUnread => isUnread.elim, fun inLoop => inLoop.elim⟩
  intro d x c watched found isDir
  cases inv.known (not_unread pc id) watched found isDir with
  | watched watchedChild => exact .inr (.watched watchedChild)
  | announced announced =>
      rw [pc] at announced
      exact .inr (.announced announced)
  | listed member inDir inMust =>
      rw [frames] at member
      rcases List.mem_cons.mp member with rfl | member
      · rw [read] at inMust
        cases inMust
      · exact .inr (.listed member inDir inMust)
  | visited visits =>
      rw [pc] at visits
      exact visits.elim

/-- The next call of the logger. -/
theorem Inv.logger (inv : Inv s) {garbage : Bool} (noGap : s.LeavesNoGap P (.logger garbage))
    (taken : s.stepLogger P garbage = some t) : t.pc = .exited ∨ Inv t := by
  change s.pc.LeavesNoGap P s garbage at noGap
  cases called taken with
  | exits => exact .inl rfl
  | watchRoot pc => exact .inr (inv.watchRoot pc _)
  | walkRoot pc found =>
      rw [pc] at noGap
      rw [if_pos (noGap _ found)]
      have isUnread : s.Unread := by
        rw [System.Unread, pc]
        trivial
      refine .inr (inv.move (by simp) (fun _ => trivial) (fun _ => inv.unread isUnread)
        False.elim ?_)
      rw [pc]
      exact fun _ _ _ before => before
  | openRoot pc =>
      have isUnread : s.Unread := by
        rw [System.Unread, pc]
        trivial
      refine .inr (inv.move (by simp) (fun _ => inv.unread isUnread) id False.elim ?_)
      rintro d x c - - - (⟨e, member, -⟩ | visits)
      · rw [pc] at member
        cases member
      · rw [pc] at visits
        exact visits.elim
  | unreadRoot pc found isDir denied =>
      rw [pc] at noGap
      exact absurd ((noGap _ found isDir).symm.trans denied) Bool.false_ne_true
  | unreadEntry pc opened isDir denied =>
      rw [pc] at noGap
      exact absurd ((noGap _ opened isDir).symm.trans denied) Bool.false_ne_true
  | openEntry pc opened =>
      refine .inr (inv.move (by simp) (fun isUnread => absurd isUnread (not_unread pc id)) id
        False.elim ?_)
      rintro d x c found isDir - (⟨e, member, -⟩ | visits)
      · rw [pc] at member
        cases member
      · rw [pc] at visits
        obtain ⟨rfl, rfl⟩ := visits
        rw [FileTree.openAt_of_isDir found isDir] at opened
        exact .inr (Option.some.inj opened).symm
  | reportRoot pc frames =>
      rw [pc, Pc.LeavesNoGap, if_pos frames] at noGap
      exact .inr (inv.reportRoot pc frames noGap)
  | reportEntry pc frames found =>
      rw [pc, Pc.LeavesNoGap, if_neg frames] at noGap
      obtain ⟨leads, closed⟩ := noGap _ found
      exact .inr (inv.reportEntry pc frames leads closed)
  | walked pc frames =>
      refine .inr (inv.move (by simp) (fun isUnread => absurd isUnread (not_unread pc id))
        False.elim (fun _ => frames) ?_)
      rw [pc]
      exact fun _ _ _ before => before
  | pop pc frames read => exact .inr (inv.pop pc frames read)
  | event pc =>
      rw [pc] at noGap
      exact inv.inotifyEvent pc garbage noGap
  | addWatch pc found =>
      rw [pc] at noGap
      obtain ⟨leads, closed⟩ := noGap _ (System.resolve_of_reach found)
      exact .inr (inv.addWatch pc leads closed)

/-! ## Runs -/

/-- A step that opens no gap keeps the invariant. -/
theorem Inv.step {a : Action} (noGap : s.LeavesNoGap P a) (inv : s.pc = .exited ∨ Inv s)
    (taken : step P s a = some t) : t.pc = .exited ∨ Inv t := by
  rcases inv with pc | inv
  · exact .inl (exited_step pc taken)
  · cases a with
    | change change => exact .inr (inv.change noGap taken)
    | chmod i denied =>
        cases taken
        exact .inr (inv.chmod _)
    | logger garbage => exact inv.logger noGap taken
    | entry x => exact .inr (inv.entry taken)
    | read n => exact .inr (inv.read taken)
    | fails =>
        rw [FileLog.step] at taken
        split at taken
        · cases taken
        · cases taken
          exact .inl rfl

/-- With nothing left to look at, everything below the logged directory is watched. -/
theorem Inv.isCovered (inv : Inv s) (quiet : s.Quiet) : s.Covered := by
  obtain ⟨pc, queue⟩ := quiet
  have closed : ∀ {d c}, s.inotify.Watched d → s.tree.Subdir d c → s.inotify.Watched c := by
    rintro d c watched ⟨x, found, isDir⟩
    cases inv.known (not_unread pc id) watched found isDir with
    | watched watchedChild => exact watchedChild
    | announced announced =>
        obtain ⟨e, member, -⟩ := announced
        rw [pc, queue] at member
        cases member
    | listed member inDir inMust =>
        rw [inv.done (by rw [pc]; trivial)] at member
        cases member
    | visited visits =>
        rw [pc] at visits
        exact visits.elim
  intro r c isLogged below
  induction below with
  | single subdir =>
      refine closed ?_ subdir
      obtain ⟨x, found, -⟩ := subdir
      rcases inv.logged isLogged with watched | ⟨-, notDir⟩
      · exact watched
      · exact nomatch notDir.symm.trans (FileTree.isDir_of_child found)
  | tail _ subdir ih => exact closed ih subdir

/-- **Coverage.** In every run whose steps open no gap, all directories below the logged one
are watched whenever the walk is over and no event is pending. -/
theorem covered_of_run {tree : FileTree} {actions : List Action}
    (noGap : Along (step P) (System.LeavesNoGap P) (start tree) actions)
    (ran : run (step P) (start tree) actions = some s) (quiet : s.Quiet) : s.Covered := by
  have inv := run_invariant_along (fun noGap inv taken => Inv.step noGap inv taken) noGap
    (.inr (inv_start tree)) ran
  rcases inv with pc | inv
  · exact nomatch pc.symm.trans quiet.1
  · exact inv.isCovered quiet

/-- The directory `r/a` is there before the walk, and `r/b` is made after it. -/
def followedActions : List Action :=
  [.change (.create 1 [97] .directory), .logger false, .logger false, .logger false,
    .logger false, .entry [97], .logger false, .logger false, .logger false, .logger false,
    .logger false, .change (.create 1 [98] .directory), .read 1, .logger false, .logger false]

/-- Both are watched. -/
theorem covered_followed :
    ∃ s, run (step smallSetup) (start smallTree) followedActions = some s ∧
      s.logged = some 1 ∧ s.inotify.nextWd = 4 ∧ s.Covered := by
  have reaches : (run (step smallSetup) (start smallTree) followedActions).map
      (fun s => (s.pc, s.inotify.queue, s.logged, s.inotify.nextWd)) =
        some (.loop [], [], some 1, 4) := by
    decide +kernel
  obtain ⟨s, ran, same⟩ := Option.map_eq_some_iff.mp reaches
  obtain ⟨pc, queue, logged, nextWd⟩ := by simpa only [Prod.mk.injEq] using same
  exact ⟨s, ran, logged, nextWd, covered_of_run (by decide +kernel) ran ⟨pc, queue⟩⟩

/-- After the walk `r/a` is made, and `r/a/b` before the logger adds `r/a`. -/
def nestedActions : List Action :=
  [.logger false, .logger false, .logger false, .logger false, .logger false, .logger false,
    .change (.create 1 [97] .directory), .change (.create 2 [98] .directory), .read 1,
    .logger false, .logger false]

/-- The directory `r/a/b` is not watched. -/
theorem missed_nested :
    ∃ s, run (step smallSetup) (start smallTree) nestedActions = some s ∧ s.Quiet ∧
      ¬ s.Covered := by
  have reaches : (run (step smallSetup) (start smallTree) nestedActions).map
      (fun s => (s.pc, s.inotify.queue, s.logged, s.inotify.watch 3)) =
        some (.loop [], [], some 1, none) := by
    decide +kernel
  have made : (run (step smallSetup) (start smallTree) nestedActions).map
      (fun s => (s.tree.child 1 [97], s.tree.isDir 2, s.tree.child 2 [98], s.tree.isDir 3)) =
        some (some 2, true, some 3, true) := by
    decide +kernel
  obtain ⟨s, ran, same⟩ := Option.map_eq_some_iff.mp reaches
  obtain ⟨pc, queue, logged, unwatched⟩ := by simpa only [Prod.mk.injEq] using same
  rw [ran, Option.map_some, Option.some.injEq] at made
  obtain ⟨outer, isOuter, inner, isInner⟩ := by simpa only [Prod.mk.injEq] using made
  have below : s.tree.Below 1 3 := .tail (.single ⟨[97], outer, isOuter⟩) ⟨[98], inner, isInner⟩
  refine ⟨s, ran, ⟨pc, queue⟩, fun covered => ?_⟩
  have watched := covered 1 3 logged below
  rw [Inotify.Watched, unwatched] at watched
  cases watched

end LinuxExercises.FileLog
