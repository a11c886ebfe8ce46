import Mathlib.Logic.Basic

/-!
# Descriptor tables

The descriptor table of a process maps small numbers to open files. It is kept as a
list, so that the lowest free descriptor, the one that every call that opens a file
returns, can be computed. What the files are is left open.

A table is seen through `file`, and each operation has one lemma that says what it
changes. Allocation never reuses a descriptor that is open (`file_lowestFree`), and when
the three standard descriptors are open it returns another one (`le_lowestFree`).
-/

set_option autoImplicit false

namespace LinuxExercises.Foundations

/-- A table of open files, by descriptor. -/
abbrev Descriptors (F : Type) := List (Option F)

namespace Descriptors

variable {F : Type}

/-- The file behind a descriptor. -/
def file : Descriptors F → Nat → Option F
  | [], _ => none
  | entry :: _, 0 => entry
  | _ :: fds, fd + 1 => file fds fd

/-- The table with another entry at a descriptor. -/
def put : Descriptors F → Nat → Option F → Descriptors F
  | [], 0, entry => [entry]
  | [], fd + 1, entry => none :: put [] fd entry
  | _ :: fds, 0, entry => entry :: fds
  | other :: fds, fd + 1, entry => other :: put fds fd entry

/-- The lowest descriptor that is not open. -/
def lowestFree : Descriptors F → Nat
  | [] => 0
  | none :: _ => 0
  | some _ :: fds => lowestFree fds + 1

/-- Open a file at the lowest free descriptor. -/
def allocate (fds : Descriptors F) (f : F) : Nat × Descriptors F :=
  (fds.lowestFree, fds.put fds.lowestFree (some f))

/-- `pipe`: the read end and the write end take the two lowest free descriptors. -/
def pipe (fds : Descriptors F) (readEnd writeEnd : F) : Nat × Nat × Descriptors F :=
  let (readFd, fds) := fds.allocate readEnd
  let (writeFd, fds) := fds.allocate writeEnd
  (readFd, writeFd, fds)

def close (fds : Descriptors F) (fd : Nat) : Descriptors F := fds.put fd none

/-- `dup2`, for a descriptor that is open. -/
def dup2 (fds : Descriptors F) (old new : Nat) : Descriptors F := fds.put new (fds.file old)

/-- Open a file, move it to a descriptor with `dup2` and close the one it was opened at. -/
def redirect (fds : Descriptors F) (f : F) (target : Nat) : Descriptors F :=
  let (fd, fds) := fds.allocate f
  (fds.dup2 fd target).close fd

/-- Descriptors 0, 1 and 2 are open. -/
def Standard (fds : Descriptors F) : Prop := ∀ fd, fd < 3 → (fds.file fd).isSome

theorem file_put (fds : Descriptors F) (fd other : Nat) (entry : Option F) :
    (fds.put fd entry).file other = if other = fd then entry else fds.file other := by
  induction fd generalizing fds other with
  | zero =>
      cases fds <;> cases other <;> rfl
  | succ fd ih =>
      cases fds with
      | nil =>
          cases other with
          | zero => rfl
          | succ other =>
              rw [show (put ([] : Descriptors F) (fd + 1) entry).file (other + 1) =
                (put [] fd entry).file other from rfl, ih]
              simp [file]
      | cons first fds =>
          cases other with
          | zero => rfl
          | succ other =>
              rw [show (put (first :: fds) (fd + 1) entry).file (other + 1) =
                (put fds fd entry).file other from rfl, ih]
              simp [file]

@[simp] theorem file_put_self (fds : Descriptors F) (fd : Nat) (entry : Option F) :
    (fds.put fd entry).file fd = entry := by
  rw [file_put, if_pos rfl]

theorem file_put_of_ne {fds : Descriptors F} {fd other : Nat} (entry : Option F)
    (different : other ≠ fd) : (fds.put fd entry).file other = fds.file other := by
  rw [file_put, if_neg different]

/-- A file behind a descriptor is in the table. -/
theorem mem_of_file {fds : Descriptors F} {fd : Nat} {f : F} (has : fds.file fd = some f) :
    some f ∈ fds := by
  induction fds generalizing fd with
  | nil => cases has
  | cons entry fds ih =>
      cases fd with
      | zero => exact List.mem_cons.mpr (.inl has.symm)
      | succ fd => exact List.mem_cons_of_mem _ (ih has)

/-- A file in the table is behind a descriptor. -/
theorem file_of_mem {fds : Descriptors F} {f : F} (has : some f ∈ fds) :
    ∃ fd, fds.file fd = some f := by
  induction fds with
  | nil => cases has
  | cons entry fds ih =>
      rcases List.mem_cons.mp has with rfl | later
      · exact ⟨0, rfl⟩
      · obtain ⟨fd, found⟩ := ih later
        exact ⟨fd + 1, found⟩

/-- The descriptor that is allocated was free. -/
theorem file_lowestFree (fds : Descriptors F) : fds.file fds.lowestFree = none := by
  induction fds with
  | nil => rfl
  | cons entry fds ih =>
      cases entry with
      | none => rfl
      | some f => exact ih

/-- A descriptor that is open is not the one that is allocated. -/
theorem ne_lowestFree {fds : Descriptors F} {fd : Nat} (isOpen : (fds.file fd).isSome) :
    fd ≠ fds.lowestFree := by
  rintro rfl
  rw [file_lowestFree] at isOpen
  cases isOpen

/-- Nothing below it was free. -/
theorem lowestFree_le {fds : Descriptors F} {fd : Nat} (free : fds.file fd = none) :
    fds.lowestFree ≤ fd := by
  induction fds generalizing fd with
  | nil => exact Nat.zero_le fd
  | cons entry fds ih =>
      cases entry with
      | none => exact Nat.zero_le fd
      | some f =>
          cases fd with
          | zero => cases free
          | succ fd => exact Nat.succ_le_succ (ih free)

/-- With the standard descriptors open, allocation returns another descriptor. -/
theorem le_lowestFree {fds : Descriptors F} (standard : fds.Standard) : 3 ≤ fds.lowestFree := by
  refine Nat.le_of_not_lt fun small => ?_
  exact ne_lowestFree (standard _ small) rfl

/-- Opening a file at any descriptor keeps the standard ones open. -/
theorem Standard.put_some {fds : Descriptors F} (standard : fds.Standard) (fd : Nat) (f : F) :
    (fds.put fd (some f)).Standard := by
  intro other small
  rw [file_put]
  split
  · rfl
  · exact standard other small

/-! ## Pipes -/

section Pipe

variable (fds : Descriptors F) (readEnd writeEnd : F)

theorem file_pipe (fd : Nat) :
    (fds.pipe readEnd writeEnd).2.2.file fd =
      if fd = (fds.pipe readEnd writeEnd).2.1 then some writeEnd
      else if fd = (fds.pipe readEnd writeEnd).1 then some readEnd else fds.file fd := by
  let opened := fds.put fds.lowestFree (some readEnd)
  change (opened.put opened.lowestFree (some writeEnd)).file fd = _
  rw [file_put, file_put]
  rfl

theorem pipe_read_free : fds.file (fds.pipe readEnd writeEnd).1 = none := file_lowestFree fds

theorem pipe_write_ne_read : (fds.pipe readEnd writeEnd).2.1 ≠ (fds.pipe readEnd writeEnd).1 := by
  apply Ne.symm
  apply ne_lowestFree
  simp only [pipe, allocate, file_put_self, Option.isSome_some]

theorem pipe_write_free : fds.file (fds.pipe readEnd writeEnd).2.1 = none := by
  have different : fds.lowestFree ≠ (fds.put fds.lowestFree (some readEnd)).lowestFree :=
    ne_lowestFree (by rw [file_put_self]; rfl)
  have free := file_lowestFree (fds.put fds.lowestFree (some readEnd))
  rw [file_put_of_ne _ different.symm] at free
  exact free

/-- Who closes the write end keeps the read end. -/
theorem file_pipe_read :
    ((fds.pipe readEnd writeEnd).2.2.close (fds.pipe readEnd writeEnd).2.1).file
      (fds.pipe readEnd writeEnd).1 = some readEnd := by
  have different := fds.pipe_write_ne_read readEnd writeEnd
  rw [close, file_put_of_ne _ different.symm, file_pipe, if_neg different.symm, if_pos rfl]

theorem file_pipe_write :
    ((fds.pipe readEnd writeEnd).2.2.close (fds.pipe readEnd writeEnd).1).file
      (fds.pipe readEnd writeEnd).2.1 = some writeEnd := by
  have different := fds.pipe_write_ne_read readEnd writeEnd
  rw [close, file_put_of_ne _ different, file_pipe, if_pos rfl]

/-- A descriptor that was open is none of the two, and stays as it is. -/
theorem file_pipe_of_isSome {fd : Nat} (isOpen : (fds.file fd).isSome) :
    fd ≠ (fds.pipe readEnd writeEnd).1 ∧ fd ≠ (fds.pipe readEnd writeEnd).2.1 ∧
      (fds.pipe readEnd writeEnd).2.2.file fd = fds.file fd := by
  have notRead : fd ≠ (fds.pipe readEnd writeEnd).1 := by
    rintro rfl
    rw [fds.pipe_read_free] at isOpen
    cases isOpen
  have notWrite : fd ≠ (fds.pipe readEnd writeEnd).2.1 := by
    rintro rfl
    rw [fds.pipe_write_free] at isOpen
    cases isOpen
  refine ⟨notRead, notWrite, ?_⟩
  rw [file_pipe, if_neg notWrite, if_neg notRead]

/-- The read end takes a descriptor below a bound exactly when one is free. -/
theorem pipe_read_lt_iff (bound : Nat) :
    (fds.pipe readEnd writeEnd).1 < bound ↔ ∃ fd, fd < bound ∧ fds.file fd = none := by
  constructor
  · intro below
    exact ⟨_, below, fds.pipe_read_free readEnd writeEnd⟩
  · rintro ⟨fd, below, free⟩
    exact Nat.lt_of_le_of_lt (lowestFree_le free) below

/-- The write end takes one exactly when two are free. -/
theorem pipe_write_lt_iff (bound : Nat) :
    (fds.pipe readEnd writeEnd).2.1 < bound ↔
      ∃ fd fd', fd < bound ∧ fd' < bound ∧ fd ≠ fd' ∧ fds.file fd = none ∧
        fds.file fd' = none := by
  have readFree := fds.pipe_read_free readEnd writeEnd
  have writeFree := fds.pipe_write_free readEnd writeEnd
  have different := fds.pipe_write_ne_read readEnd writeEnd
  constructor
  · intro below
    have first : (fds.pipe readEnd writeEnd).1 ≤ (fds.pipe readEnd writeEnd).2.1 :=
      lowestFree_le writeFree
    exact ⟨_, _, Nat.lt_of_le_of_lt first below, below, different.symm, readFree, writeFree⟩
  · rintro ⟨fd, fd', below, below', ne, free, free'⟩
    -- One of the two is still free behind the read end.
    have other : ∃ fd, fd < bound ∧ fds.file fd = none ∧ fd ≠ fds.lowestFree := by
      by_cases same : fd = fds.lowestFree
      · exact ⟨fd', below', free', fun same' => ne (same.trans same'.symm)⟩
      · exact ⟨fd, below, free, same⟩
    obtain ⟨fd, below, free, ne⟩ := other
    have still : (fds.put fds.lowestFree (some readEnd)).file fd = none := by
      rw [file_put_of_ne _ ne]
      exact free
    exact Nat.lt_of_le_of_lt (lowestFree_le still) below

end Pipe

/-! ## Redirections -/

/-- A redirection of a standard descriptor changes that descriptor alone. -/
theorem file_redirect {fds : Descriptors F} (standard : fds.Standard) (f : F) {target : Nat}
    (small : target < 3) (fd : Nat) :
    (fds.redirect f target).file fd = if fd = target then some f else fds.file fd := by
  have free := file_lowestFree fds
  have above := le_lowestFree standard
  simp only [redirect, allocate, dup2, close]
  by_cases opened : fd = fds.lowestFree
  · rw [opened, file_put_self, if_neg (by omega), free]
  · rw [file_put_of_ne _ opened, file_put, file_put_self, file_put_of_ne _ opened]

theorem Standard.redirect {fds : Descriptors F} (standard : fds.Standard) (f : F) {target : Nat}
    (small : target < 3) : (fds.redirect f target).Standard := by
  intro fd within
  rw [file_redirect standard f small]
  split
  · rfl
  · exact standard fd within

end Descriptors

end LinuxExercises.Foundations
