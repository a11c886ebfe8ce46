import Mathlib.Logic.Function.Basic
import LinuxExercises.Foundations.FileTree

/-!
# Watches

An inotify instance watches inodes. The first watch on an inode gets the next number, a
further one the number that the inode has. While a directory is watched, each change to
its entries is queued as an event with the number of the directory and the name, when there
is room in the queue. A watch is dropped with its inode, and its number is not used again.

An event also carries the directory itself. A reader of the queue does not see it.
-/

set_option autoImplicit false

namespace LinuxExercises.Foundations

/-- What happens to an entry of a watched directory. -/
inductive EventKind where
  | create
  | delete
  | movedFrom
  | movedTo
deriving DecidableEq

/-- An event in the queue. -/
structure Event where
  kind : EventKind
  wd : Nat
  dir : Inode
  name : FileName
deriving DecidableEq

/-- An inotify instance. -/
structure Inotify where
  watch : Inode → Option Nat
  nextWd : Nat
  queue : List Event

namespace Inotify

/-- `inotify_init`. -/
def init : Inotify where
  watch := fun _ => none
  nextWd := 1
  queue := []

def Watched (w : Inotify) (i : Inode) : Prop := (w.watch i).isSome = true

instance (w : Inotify) (i : Inode) : Decidable (w.Watched i) := inferInstanceAs (Decidable (_ = _))

/-- `inotify_add_watch` on an inode: the number of its watch. -/
def descriptor (w : Inotify) (i : Inode) : Nat := (w.watch i).getD w.nextWd

/-- What `inotify_add_watch` on an inode leaves. -/
def add (w : Inotify) (i : Inode) : Inotify :=
  match w.watch i with
  | some _ => w
  | none => { w with watch := Function.update w.watch i (some w.nextWd), nextWd := w.nextWd + 1 }

/-- An event in a directory. -/
def notify (limit : Nat) (w : Inotify) (kind : EventKind) (d : Inode) (x : FileName) : Inotify :=
  match w.watch d with
  | none => w
  | some wd =>
    if w.queue.length < limit then { w with queue := w.queue ++ [⟨kind, wd, d, x⟩] } else w

/-- An inode is freed. -/
def forget (w : Inotify) (gone : Option Inode) : Inotify :=
  { w with watch := fun i => if gone = some i then none else w.watch i }

/-- What a change in the tree leaves. -/
def changed (limit : Nat) (t : FileTree) (w : Inotify) (change : FileTree.Change) : Inotify :=
  match change with
  | .create d x _ => w.notify limit .create d x
  | .remove d x => (w.notify limit .delete d x).forget (change.gone t)
  | .rename d x toDir toName =>
    ((w.notify limit .movedFrom d x).notify limit .movedTo toDir toName).forget (change.gone t)

variable {w : Inotify} {i j d : Inode} {x : FileName} {limit : Nat} {kind : EventKind} {e : Event}

/-! ## Adding a watch -/

theorem watched_add (w : Inotify) (i j : Inode) : (w.add i).Watched j ↔ j = i ∨ w.Watched j := by
  unfold add Watched
  split
  next wd found =>
    constructor
    · exact .inr
    · rintro (rfl | watched)
      · rw [found]
        rfl
      · exact watched
  next found =>
    by_cases same : j = i
    · subst same
      simp
    · dsimp only
      rw [Function.update_of_ne same]
      exact (or_iff_right same).symm

@[simp] theorem queue_add (w : Inotify) (i : Inode) : (w.add i).queue = w.queue := by
  unfold add
  split <;> rfl

theorem watch_eq_none (unwatched : ¬ w.Watched i) : w.watch i = none := by
  cases found : w.watch i with
  | none => rfl
  | some wd => exact absurd (by rw [Watched, found]; rfl) unwatched

/-- A first watch on an inode gets the next number. -/
theorem descriptor_of_not_watched (unwatched : ¬ w.Watched i) : w.descriptor i = w.nextWd := by
  rw [descriptor, watch_eq_none unwatched, Option.getD_none]

theorem nextWd_add_of_not_watched (unwatched : ¬ w.Watched i) :
    (w.add i).nextWd = w.nextWd + 1 := by
  rw [add, watch_eq_none unwatched]

/-! ## Events -/

@[simp] theorem watch_notify : (w.notify limit kind d x).watch = w.watch := by
  unfold notify
  split
  · rfl
  · split <;> rfl

@[simp] theorem nextWd_notify : (w.notify limit kind d x).nextWd = w.nextWd := by
  unfold notify
  split
  · rfl
  · split <;> rfl

theorem mem_queue_notify (member : e ∈ w.queue) : e ∈ (w.notify limit kind d x).queue := by
  unfold notify
  split
  · exact member
  · split
    · exact List.mem_append_left _ member
    · exact member

/-- An event in a watched directory is queued when there is room. -/
theorem exists_mem_queue_notify (watched : w.Watched d) (room : w.queue.length < limit) :
    ∃ e ∈ (w.notify limit kind d x).queue, e.kind = kind ∧ e.dir = d ∧ e.name = x := by
  obtain ⟨wd, found⟩ := Option.isSome_iff_exists.mp watched
  refine ⟨⟨kind, wd, d, x⟩, ?_, rfl, rfl, rfl⟩
  rw [notify, found]
  dsimp only
  rw [if_pos room]
  exact List.mem_append_right _ (List.mem_singleton_self _)

/-! ## Changes -/

variable {t : FileTree} {change : FileTree.Change}

/-- The watches that a change leaves are those on other inodes than the one it frees. -/
theorem watched_changed :
    (w.changed limit t change).Watched i ↔ w.Watched i ∧ change.gone t ≠ some i := by
  have forgets : ∀ (w : Inotify) (gone : Option Inode),
      (w.forget gone).Watched i ↔ w.Watched i ∧ gone ≠ some i := by
    intro w gone
    unfold Watched forget
    dsimp only
    split
    next same => simp [same]
    next other => exact (and_iff_left other).symm
  cases change with
  | create d x kind =>
      rw [changed, Watched, watch_notify]
      exact (and_iff_left nofun).symm
  | remove d x => rw [changed, forgets, Watched, watch_notify, Watched]
  | rename d x toDir toName => rw [changed, forgets, Watched, watch_notify, watch_notify, Watched]

@[simp] theorem nextWd_changed : (w.changed limit t change).nextWd = w.nextWd := by
  cases change with
  | create d x kind => rw [changed, nextWd_notify]
  | remove d x => rw [changed, forget, nextWd_notify]
  | rename d x toDir toName => rw [changed, forget, nextWd_notify, nextWd_notify]

/-- A change takes no event out of the queue. -/
theorem mem_queue_changed (member : e ∈ w.queue) : e ∈ (w.changed limit t change).queue := by
  cases change with
  | create d x kind => exact mem_queue_notify member
  | remove d x => exact mem_queue_notify member
  | rename d x toDir toName => exact mem_queue_notify (mem_queue_notify member)

end Inotify

end LinuxExercises.Foundations
