import LinuxExercises.Foundations.Inotify
import LinuxExercises.Foundations.Runs

/-!
# The recursive file logger

The logger watches the directory of its command line, walks over the tree below it with
`nftw` and watches every directory it finds. Then it reads events for ever. When something
has been created that is not a regular file, it adds a watch for it. It writes all events
into a log file, which nothing here reads: all that matters of it is whether it can be opened.
It cannot where it is a directory, or where the logger may not write it.

The logger finds the path of an event in `dir_list`, at the number of the watch less one.
It stores a path there at the number of watches that it has counted itself, `wd_num`.

The walk reports a directory before it reads it. It reads names from the open directory
and goes on with the paths that it puts together from them. An entry that stays in the
directory from the report on until the directory has been read is returned once. Others
may be returned or not. A directory that the logger may not read is left out.

Other processes change the tree between any two calls of the logger, and with `chmod` the files
that it may read and write. It may search every directory.
-/

set_option autoImplicit false

namespace LinuxExercises.FileLog

open Foundations

/-- The working directory of the logger, the path on its command line and the length of
the kernel's queue. -/
structure Setup where
  cwd : Inode
  path : PathName
  limit : Nat

/-- A directory that the walk reads: its entries that `readdir` must still return, and
those that it does not return again. -/
structure Frame where
  dir : Inode
  path : PathName
  must : List FileName
  done : List FileName
deriving DecidableEq

namespace Frame

/-- A directory is about to be read. -/
def enter (t : FileTree) (dir : Inode) (path : PathName) : Frame where
  dir := dir
  path := path
  must := (t.entries dir).map Prod.fst
  done := []

/-- Entries are dropped from directories. -/
def drop (dropped : List (Inode × FileName)) (f : Frame) : Frame :=
  { f with
    must := f.must.filter fun x => (f.dir, x) ∉ dropped
    done := f.done.filter fun x => (f.dir, x) ∉ dropped }

/-- `readdir` returns a name. -/
def take (f : Frame) (x : FileName) : Frame :=
  { f with must := f.must.filter (· ≠ x), done := x :: f.done }

end Frame

/-- Where the logger is: in `main`, in the walk, and in `inotify_event` with the events that
it has read. -/
inductive Pc where
  | watchRoot
  | walkRoot
  | openRoot
  | openEntry (dir : Inode) (name : FileName) (fpath : PathName)
  | report (dir : Inode) (fpath : PathName)
  | walk
  | loop (events : List Event)
  | addWatch (event : Event) (rest : List Event) (path : PathName)
  | exited
deriving DecidableEq

/-- The tree with the files that the logger may neither read nor write, the kernel's watches, and
the logger. `returned` is what the calls of
`inotify_add_watch` have returned, with their paths, and `logged` the directory that was
watched first. No step reads these two. -/
structure System where
  tree : FileTree
  denied : Inode → Bool
  inotify : Inotify
  pc : Pc
  frames : List Frame
  wdNum : Nat
  dirList : List (Option PathName)
  returned : List (Nat × PathName)
  logged : Option Inode

/-- The logger has created its inotify instance. -/
def start (tree : FileTree) : System where
  tree := tree
  denied := fun _ => false
  inotify := .init
  pc := .watchRoot
  frames := []
  wdNum := 0
  dirList := []
  returned := []
  logged := none

/-- `realloc` of an array of pointers. -/
def realloc (n : Nat) (list : List (Option PathName)) : List (Option PathName) :=
  list.take n ++ List.replicate (n - list.length) none

/-- The path of an entry, as the walk puts it together. -/
def join (dir : PathName) (name : FileName) : PathName :=
  if dir.getLast? = some FileTree.slash then dir ++ name else dir ++ FileTree.slash :: name

/-- `log_file`. -/
def logFile : PathName := [108, 111, 103, 95, 102, 105, 108, 101]

namespace System

/-- The inode that a path leads to, when the logger may read it. -/
def reach (P : Setup) (s : System) (path : PathName) : Option Inode :=
  (s.tree.resolve P.cwd path true).filter fun i => !s.denied i

theorem resolve_of_reach {P : Setup} {s : System} {path : PathName} {i : Inode}
    (reached : s.reach P path = some i) : s.tree.resolve P.cwd path true = some i :=
  (Option.filter_eq_some_iff.mp reached).1

/-- `open` with `O_CREAT` and `O_WRONLY` opens `log_file`. -/
def logOpens (P : Setup) (s : System) : Bool :=
  match s.tree.resolve P.cwd logFile true with
  | some i => !s.tree.isDir i && !s.denied i
  | none => s.tree.isDir P.cwd && !s.denied P.cwd

/-- A directory is one that the logger may read. -/
def Readable (s : System) (found : Option Inode) : Prop :=
  ∀ i ∈ found, s.tree.isDir i = true → s.denied i = false

instance (s : System) (found : Option Inode) : Decidable (s.Readable found) :=
  inferInstanceAs (Decidable (∀ i ∈ found, _))

/-- `inotify_add_watch` with a path that leads to an inode. -/
def added (s : System) (path : PathName) (i : Inode) : System :=
  { s with
    inotify := s.inotify.add i
    returned := s.returned ++ [(s.inotify.descriptor i, path)] }

/-- `wd_num` is counted up, and the path is stored at the end of `dir_list`. -/
def store (s : System) (path : PathName) : System :=
  { s with
    wdNum := s.wdNum + 1
    dirList := (realloc (s.wdNum + 1) s.dirList).set s.wdNum (some path) }

/-- `snprintf(path, 1024, "%s/%s", dir_list[(i->wd)-1], i->name)`. -/
def eventPath (s : System) (e : Event) : Option PathName :=
  (s.dirList[e.wd - 1]?).join.map fun dir => (dir ++ FileTree.slash :: e.name).take 1023

/-- The walk reports a directory: `find_subdir`. At level 0 `dir_list` is set up. At the
others the directory is watched. -/
def findSubdir (P : Setup) (s : System) (dir : Inode) (fpath : PathName) : System :=
  if s.frames = [] then
    { s with
      dirList := (List.replicate 1 none).set (s.wdNum - 1) (some fpath)
      frames := [.enter s.tree dir fpath]
      pc := .walk }
  else
    match s.reach P fpath with
    | none => { s with pc := .exited }
    | some i =>
      { (s.added fpath i).store fpath with
        frames := .enter s.tree dir fpath :: s.frames
        pc := .walk }

/-- `isDir`: what `stat` says, tested for a regular file. When `stat` fails, this tests what
is on the stack. -/
def isDir (P : Setup) (s : System) (garbage : Bool) (path : PathName) : Bool :=
  ((s.tree.resolve P.cwd path true).map s.tree.isRegular).getD garbage

/-- The first call for an event: `stat` when something was created. -/
def inotifyEvent (P : Setup) (s : System) (garbage : Bool) (e : Event) (rest : List Event) :
    System :=
  if e.kind = .create then
    match s.eventPath e with
    | none => { s with pc := .exited }
    | some path =>
      if s.isDir P garbage path = false then { s with pc := .addWatch e rest path }
      else { s with pc := .loop rest }
  else { s with pc := .loop rest }

/-- The next call of the logger. A function that cannot open `log_file` exits. The walk passes a
directory that cannot be read on as `FTW_DNR`, and `find_subdir` does nothing with it. -/
def stepLogger (P : Setup) (s : System) (garbage : Bool) : Option System :=
  match s.pc with
  | .watchRoot =>
      match s.reach P P.path with
      | none => some { s with pc := .exited }
      | some i =>
          some { s.added P.path i with wdNum := s.wdNum + 1, pc := .walkRoot, logged := some i }
  | .walkRoot =>
      match s.tree.resolve P.cwd P.path false with
      | none => some { s with pc := .exited }
      | some i => some { s with pc := if s.tree.isDir i then .openRoot else .loop [] }
  | .openRoot =>
      match s.tree.resolve P.cwd P.path true with
      | none => some { s with pc := .exited }
      | some i =>
          some { s with
            pc :=
              if s.tree.isDir i then if s.denied i then .loop [] else .report i P.path
              else .exited }
  | .openEntry dir name fpath =>
      match s.tree.openAt dir name with
      | none => some { s with pc := .exited }
      | some i =>
          some { s with
            pc :=
              if s.tree.isDir i then if s.denied i then .walk else .report i fpath
              else .exited }
  | .report dir fpath =>
      some (if s.logOpens P then s.findSubdir P dir fpath else { s with pc := .exited })
  | .walk =>
      match s.frames with
      | [] => some { s with pc := .loop [] }
      | f :: rest => if f.must = [] then some { s with frames := rest } else none
  | .loop [] => none
  | .loop (e :: rest) =>
      some (if s.logOpens P then s.inotifyEvent P garbage e rest else { s with pc := .exited })
  | .addWatch _ rest path =>
      match s.reach P path with
      | none => some { s with pc := .exited }
      | some i => some { (s.added path i).store path with pc := .loop rest }
  | .exited => none

/-- `readdir` returns a name to the walk, which looks whether it is a directory. -/
def stepEntry (s : System) (x : FileName) : Option System :=
  match s.pc, s.frames with
  | .walk, f :: rest =>
      if x ∈ f.done then none
      else
        some { s with
          frames := f.take x :: rest
          pc :=
            if (s.tree.child f.dir x).any s.tree.isDir then .openEntry f.dir x (join f.path x)
            else .walk }
  | _, _ => none

/-- `read` returns the first events of the queue. -/
def stepRead (s : System) (n : Nat) : Option System :=
  match s.pc with
  | .loop [] =>
      if s.inotify.queue.take n = [] then none
      else
        some { s with
          pc := .loop (s.inotify.queue.take n)
          inotify := { s.inotify with queue := s.inotify.queue.drop n } }
  | _ => none

/-- Another process changes the tree. -/
def stepChange (P : Setup) (s : System) (change : FileTree.Change) : Option System :=
  (s.tree.apply change).map fun tree =>
    { s with
      tree := tree
      inotify := s.inotify.changed P.limit s.tree change
      frames := s.frames.map (Frame.drop change.dropped) }

end System

/-- What happens next: another process changes the tree or what the logger may do with a file,
the logger makes its next call, which may be a `readdir` or a `read` and what these return, or a
call fails for want of watches, of memory or of room on the disk, and the logger exits. -/
inductive Action where
  | change (change : FileTree.Change)
  | chmod (i : Inode) (denied : Bool)
  | logger (garbage : Bool)
  | entry (x : FileName)
  | read (n : Nat)
  | fails
deriving DecidableEq

/-- The step of an action, when it is enabled. -/
def step (P : Setup) (s : System) : Action → Option System
  | .change change => s.stepChange P change
  | .chmod i denied => some { s with denied := Function.update s.denied i denied }
  | .logger garbage => s.stepLogger P garbage
  | .entry x => s.stepEntry x
  | .read n => s.stepRead n
  | .fails => if s.pc = .exited then none else some { s with pc := .exited }

/-- Everything that a call of the logger can do. -/
inductive System.Called (P : Setup) (s : System) (garbage : Bool) : System → Prop
  | exits (opens : ∀ events, s.pc = .loop events → events ≠ [] ∧ s.logOpens P = false)
      (misses : ∀ e rest path, s.pc = .addWatch e rest path → s.reach P path = none) :
      s.Called P garbage { s with pc := .exited }
  | watchRoot {i : Inode} (pc : s.pc = .watchRoot) :
      s.Called P garbage
        { s.added P.path i with wdNum := s.wdNum + 1, pc := .walkRoot, logged := some i }
  | walkRoot {i : Inode} (pc : s.pc = .walkRoot)
      (found : s.tree.resolve P.cwd P.path false = some i) :
      s.Called P garbage { s with pc := if s.tree.isDir i then .openRoot else .loop [] }
  | openRoot {i : Inode} (pc : s.pc = .openRoot) :
      s.Called P garbage { s with pc := .report i P.path }
  | unreadRoot {i : Inode} (pc : s.pc = .openRoot)
      (found : s.tree.resolve P.cwd P.path true = some i) (isDir : s.tree.isDir i = true)
      (denied : s.denied i = true) :
      s.Called P garbage { s with pc := .loop [] }
  | openEntry {dir i : Inode} {name : FileName} {fpath : PathName}
      (pc : s.pc = .openEntry dir name fpath) (opened : s.tree.openAt dir name = some i) :
      s.Called P garbage { s with pc := .report i fpath }
  | unreadEntry {dir i : Inode} {name : FileName} {fpath : PathName}
      (pc : s.pc = .openEntry dir name fpath) (opened : s.tree.openAt dir name = some i)
      (isDir : s.tree.isDir i = true) (denied : s.denied i = true) :
      s.Called P garbage { s with pc := .walk }
  | reportRoot {dir : Inode} {fpath : PathName} (pc : s.pc = .report dir fpath)
      (frames : s.frames = []) :
      s.Called P garbage { s with
        dirList := (List.replicate 1 none).set (s.wdNum - 1) (some fpath)
        frames := [.enter s.tree dir fpath]
        pc := .walk }
  | reportEntry {dir i : Inode} {fpath : PathName} (pc : s.pc = .report dir fpath)
      (frames : s.frames ≠ []) (found : s.tree.resolve P.cwd fpath true = some i) :
      s.Called P garbage { (s.added fpath i).store fpath with
        frames := .enter s.tree dir fpath :: s.frames
        pc := .walk }
  | walked (pc : s.pc = .walk) (frames : s.frames = []) :
      s.Called P garbage { s with pc := .loop [] }
  | pop {f : Frame} {rest : List Frame} (pc : s.pc = .walk) (frames : s.frames = f :: rest)
      (read : f.must = []) :
      s.Called P garbage { s with frames := rest, pc := .walk }
  | event {e : Event} {rest : List Event} (pc : s.pc = .loop (e :: rest))
      (opens : s.logOpens P = true) :
      s.Called P garbage (s.inotifyEvent P garbage e rest)
  | addWatch {e : Event} {rest : List Event} {path : PathName} {i : Inode}
      (pc : s.pc = .addWatch e rest path) (found : s.reach P path = some i) :
      s.Called P garbage { (s.added path i).store path with pc := .loop rest }

theorem called {P : Setup} {s t : System} {garbage : Bool}
    (taken : s.stepLogger P garbage = some t) : s.Called P garbage t := by
  unfold System.stepLogger at taken
  cases pc : s.pc with
  | watchRoot =>
      rw [pc] at taken
      dsimp only at taken
      split at taken <;> cases taken
      · exact .exits (by simp [pc]) (by simp [pc])
      · exact .watchRoot pc
  | walkRoot =>
      rw [pc] at taken
      dsimp only at taken
      split at taken <;> cases taken
      · exact .exits (by simp [pc]) (by simp [pc])
      next i found => exact .walkRoot pc found
  | openRoot =>
      rw [pc] at taken
      dsimp only at taken
      split at taken <;> cases taken
      · exact .exits (by simp [pc]) (by simp [pc])
      next i found =>
        split
        next isDir =>
          split
          next denied => exact .unreadRoot pc found isDir denied
          next => exact .openRoot pc
        next => exact .exits (by simp [pc]) (by simp [pc])
  | openEntry dir name fpath =>
      rw [pc] at taken
      dsimp only at taken
      split at taken <;> cases taken
      · exact .exits (by simp [pc]) (by simp [pc])
      next i opened =>
        split
        next isDir =>
          split
          next denied => exact .unreadEntry pc opened isDir denied
          next => exact .openEntry pc opened
        next => exact .exits (by simp [pc]) (by simp [pc])
  | report dir fpath =>
      rw [pc] at taken
      cases taken
      split
      next =>
        rw [System.findSubdir]
        split
        next frames => exact .reportRoot pc frames
        next frames =>
          split
          · exact .exits (by simp [pc]) (by simp [pc])
          next i found => exact .reportEntry pc frames (System.resolve_of_reach found)
      next => exact .exits (by simp [pc]) (by simp [pc])
  | walk =>
      rw [pc] at taken
      dsimp only at taken
      split at taken
      next frames =>
        cases taken
        exact .walked pc frames
      next f rest frames =>
        split at taken <;> cases taken
        next read => exact .pop pc frames read
  | loop events =>
      rw [pc] at taken
      cases events with
      | nil => cases taken
      | cons e rest =>
          cases taken
          split
          next opens => exact .event pc opens
          next shut =>
            refine .exits (fun events pc' => ?_) (by simp [pc])
            cases pc.symm.trans pc'
            exact ⟨List.cons_ne_nil _ _, Bool.eq_false_iff.mpr shut⟩
  | addWatch e rest path =>
      rw [pc] at taken
      dsimp only at taken
      split at taken <;> cases taken
      next none =>
        refine .exits (by simp [pc]) fun e' rest' path' pc' => ?_
        cases pc.symm.trans pc'
        exact none
      next i found => exact .addWatch pc found
  | exited =>
      rw [pc] at taken
      cases taken

/-- A logger that has exited makes no further step. -/
theorem exited_step {P : Setup} {s t : System} {a : Action} (pc : s.pc = .exited)
    (taken : step P s a = some t) : t.pc = .exited := by
  cases a with
  | change change =>
      obtain ⟨tree, -, rfl⟩ := Option.map_eq_some_iff.mp taken
      exact pc
  | chmod i denied =>
      cases taken
      exact pc
  | logger garbage =>
      rw [step, System.stepLogger, pc] at taken
      cases taken
  | entry x =>
      rw [step, System.stepEntry, pc] at taken
      cases taken
  | read n =>
      rw [step, System.stepRead, pc] at taken
      cases taken
  | fails =>
      rw [step, if_pos pc] at taken
      cases taken

/-- The logger has done its walk and waits for events or handles one. -/
def Pc.InLoop : Pc → Prop
  | .loop _ => True
  | .addWatch _ _ _ => True
  | _ => False

/-- An empty directory `r`, in the working directory of the logger. -/
def smallTree : FileTree where
  node
    | 0 => some (.directory 0 [([114], 1)])
    | 1 => some (.directory 0 [])
    | _ => none
  root := 0
  next := 2
  fresh := by
    intro i above
    rcases i with _ | _ | i
    · cases above
    · cases above with
      | step below => cases below
    · rfl
  closed := by
    intro i n x c isNode member
    rcases i with _ | _ | i
    · cases isNode
      rw [(Prod.mk.inj (List.mem_singleton.mp member)).2]
      decide
    · cases isNode
      exact absurd member List.not_mem_nil
    · cases isNode

/-- The logger is started for `r`. -/
def smallSetup : Setup where
  cwd := 0
  path := [114]
  limit := 16384

end LinuxExercises.FileLog
