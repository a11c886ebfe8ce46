import LinuxExercises.Foundations.FileSystem
import LinuxExercises.Foundations.Formatting

/-!
# Copying a file with `read` and `write`

`copy` opens the old file, opens the new one with `O_TRUNC`, and writes what it reads until
`read` returns 0. It exits with success only when every write has stored all of its bytes, so
then the new file has what was read.

What is read is the old file as it was, unless the two paths name one file: this is empty when
the first `read` comes to it, and `copy` exits with success and has lost it. For every pair of
paths, the new file is a copy in every run that ends with success exactly when the two name
different files, or an empty one (`copies_iff`).
-/

set_option autoImplicit false

namespace LinuxExercises.FileTools

open Foundations FileSystem

namespace Copy

/-- Size of the buffer. -/
abbrev SIZE : Nat := 1024

/-- What `read` and `write` return in a round of the loop. A call that fails returns -1. -/
structure Round where
  nread : Option Nat
  nwrite : Option Nat
deriving Repr, DecidableEq

/-- What all calls return. -/
structure Script where
  opensOld : Bool
  opensNew : Bool
  rounds : List Round
  closesOld : Bool
  closesNew : Bool

/-- The files, and the offsets of the two descriptors. -/
structure Copying where
  files : FileSystem
  inOffset : Nat
  outOffset : Nat

/-- `read` may return so many bytes, and 0 only at the end of the file. -/
def CanRead (left nread : Nat) : Prop := nread ≤ SIZE ∧ nread ≤ left ∧ (nread = 0 → left = 0)

instance (left nread : Nat) : Decidable (CanRead left nread) :=
  inferInstanceAs (Decidable (_ ∧ _))

/-- The loop. A run has a round for each of its calls of `read`. -/
def loop (inFile outFile : Nat) : List Round → Copying → Option (Exit × FileSystem)
  | [], _ => none
  | r :: rest, s =>
    match r.nread with
    | none => if rest = [] then some (.failure, s.files) else none
    | some nread =>
      if CanRead ((s.files.content inFile).length - s.inOffset) nread then
        if nread = 0 then if rest = [] then some (.success, s.files) else none
        else
          let buf := ((s.files.content inFile).drop s.inOffset).take nread
          match r.nwrite with
          | none => if rest = [] then some (.failure, s.files) else none
          | some nwrite =>
            let files := s.files.store outFile
              (writeAt (s.files.content outFile) s.outOffset (buf.take nwrite))
            if nwrite = nread then
              loop inFile outFile rest
                { files := files
                  inOffset := s.inOffset + nread
                  outOffset := s.outOffset + nwrite }
            else if rest = [] ∧ nwrite < nread then some (.failure, files)
            else none
      else none

/-- `main` with two arguments: how it exits, and the files that it leaves. -/
def copy (t : FileSystem) (oldFile newFile : List Byte) (s : Script) :
    Option (Exit × FileSystem) :=
  if oldFile = literal "--help" then some (.failure, t)
  else
    match t.inode oldFile, s.opensOld with
    | some inFile, true =>
      if s.opensNew then
        match loop inFile (t.create newFile).2 s.rounds ⟨(t.create newFile).1, 0, 0⟩ with
        | some (.success, files) =>
          some (if s.closesOld && s.closesNew then .success else .failure, files)
        | other => other
      else some (.failure, t)
    | _, _ => some (.failure, t)

/-- Whatever the calls return, when `copy` exits with success the new file has what the old one
had. -/
def Copies (t : FileSystem) (oldFile newFile : List Byte) : Prop :=
  ∀ s files, copy t oldFile newFile s = some (.success, files) →
    files.contents newFile = t.contents oldFile

/-! ## The loop -/

section Loop

variable {inFile outFile : Nat} {s : Copying} {rounds : List Round} {bytes : List Byte}

/-- The new file has what has been read of the old one. -/
structure Copied (inFile outFile : Nat) (bytes : List Byte) (s : Copying) : Prop where
  different : inFile ≠ outFile
  source : s.files.content inFile = bytes
  target : s.files.content outFile = bytes.take s.inOffset
  offset : s.outOffset = s.inOffset
  within : s.inOffset ≤ bytes.length

/-- One round. -/
theorem Copied.round (copied : Copied inFile outFile bytes s) {nread : Nat}
    (can : CanRead (bytes.length - s.inOffset) nread) :
    Copied inFile outFile bytes
      { files := s.files.store outFile
          (writeAt (s.files.content outFile) s.outOffset ((bytes.drop s.inOffset).take nread))
        inOffset := s.inOffset + nread
        outOffset := s.outOffset + nread } := by
  obtain ⟨-, few, -⟩ := can
  have within := copied.within
  have size : s.outOffset = (s.files.content outFile).length := by
    rw [copied.offset, copied.target, List.length_take, Nat.min_eq_left within]
  refine ⟨copied.different, ?_, ?_, congrArg (· + nread) copied.offset, ?_⟩
  · dsimp only
    rw [content_store_of_ne _ _ copied.different, copied.source]
  · dsimp only
    rw [content_store_self, size, writeAt_end, copied.target, List.take_add]
  · dsimp only
    omega

/-- On the way to success a round is at the end of the old file, or writes all that it has
read. -/
theorem loop_round {r : Round} {rest : List Round} {files : FileSystem}
    (ran : loop inFile outFile (r :: rest) s = some (.success, files)) :
    (CanRead ((s.files.content inFile).length - s.inOffset) 0 ∧ files = s.files) ∨
    ∃ nread ≠ 0, CanRead ((s.files.content inFile).length - s.inOffset) nread ∧
      loop inFile outFile rest
        { files := s.files.store outFile (writeAt (s.files.content outFile) s.outOffset
            (((s.files.content inFile).drop s.inOffset).take nread))
          inOffset := s.inOffset + nread
          outOffset := s.outOffset + nread } = some (.success, files) := by
  rw [loop] at ran
  split at ran
  · split at ran <;> cases ran
  next nread _ =>
    split at ran
    next can =>
      split at ran
      next zero =>
        split at ran <;> cases ran
        exact .inl ⟨zero ▸ can, rfl⟩
      next nonzero =>
        dsimp only at ran
        split at ran
        · split at ran <;> cases ran
        next nwrite _ =>
          split at ran
          next whole =>
            subst whole
            rw [List.take_take, Nat.min_self] at ran
            exact .inr ⟨nwrite, nonzero, can, ran⟩
          next => split at ran <;> cases ran
    next => cases ran

/-- A loop that has come to the end of the old file has copied it. -/
theorem Copied.loop (copied : Copied inFile outFile bytes s) {files : FileSystem}
    (ran : Copy.loop inFile outFile rounds s = some (.success, files)) :
    files.content outFile = bytes ∧ files.inode = s.files.inode := by
  induction rounds generalizing s with
  | nil => cases ran
  | cons r rest ih =>
      rcases loop_round ran with ⟨can, rfl⟩ | ⟨nread, -, can, later⟩
      · rw [copied.source] at can
        have done : bytes.length ≤ s.inOffset := Nat.sub_eq_zero_iff_le.mp (can.2.2 rfl)
        exact ⟨copied.target.trans (List.take_of_length_le done), rfl⟩
      · rw [copied.source] at can later
        have copied := ih (copied.round can) later
        exact ⟨copied.1, copied.2⟩

/-- Every file can be copied, a byte in each round. -/
theorem Copied.succeeds (copied : Copied inFile outFile bytes s) :
    ∃ rounds files, Copy.loop inFile outFile rounds s = some (.success, files) := by
  induction left : bytes.length - s.inOffset generalizing s with
  | zero =>
      refine ⟨[⟨some 0, none⟩], s.files, ?_⟩
      have can : CanRead ((s.files.content inFile).length - s.inOffset) 0 := by
        rw [copied.source, left]
        decide
      rw [Copy.loop]
      dsimp only
      rw [if_pos can]
      rfl
  | succ left' ih =>
      have can : CanRead (bytes.length - s.inOffset) 1 :=
        ⟨by decide, by omega, fun zero => nomatch zero⟩
      obtain ⟨rounds, files, ran⟩ := ih (copied.round can) (by dsimp only; omega)
      refine ⟨⟨some 1, some 1⟩ :: rounds, files, ?_⟩
      rw [Copy.loop]
      dsimp only
      rw [copied.source, if_pos can, if_neg Nat.one_ne_zero, if_pos rfl, List.take_take,
        Nat.min_self]
      exact ran

end Loop

/-! ## Copies -/

section Runs

variable {t : FileSystem} {oldFile newFile : List Byte} {i : Nat}

/-- Before the loop nothing has been read, and the new file is empty. -/
theorem copied_create (named : t.inode oldFile = some i) (different : t.inode newFile ≠ some i) :
    Copied i (t.create newFile).2 (t.content i) ⟨(t.create newFile).1, 0, 0⟩ where
  different := ne_create named different
  source := content_create_of_ne (ne_create named different)
  target := by rw [content_create, List.take_zero]
  offset := rfl
  within := Nat.zero_le _

/-- A run with success has opened both files and gone through the loop. -/
theorem copy_success {s : Script} {files : FileSystem}
    (ran : copy t oldFile newFile s = some (.success, files)) :
    oldFile ≠ literal "--help" ∧ ∃ inFile, t.inode oldFile = some inFile ∧
      loop inFile (t.create newFile).2 s.rounds ⟨(t.create newFile).1, 0, 0⟩ =
        some (.success, files) := by
  rw [copy] at ran
  split at ran
  · cases ran
  next notHelp =>
    refine ⟨notHelp, ?_⟩
    split at ran
    next inFile named _ =>
      split at ran
      · split at ran
        next looped =>
          obtain ⟨-, rfl⟩ := Prod.mk.inj (Option.some.inj ran)
          exact ⟨inFile, named, looped⟩
        next other => exact absurd ran (other files)
      · cases ran
    · cases ran

/-- A run in which all calls succeed. -/
theorem copy_of_loop (notHelp : oldFile ≠ literal "--help") (named : t.inode oldFile = some i)
    {rounds : List Round} {files : FileSystem}
    (looped : loop i (t.create newFile).2 rounds ⟨(t.create newFile).1, 0, 0⟩ =
      some (.success, files)) :
    copy t oldFile newFile ⟨true, true, rounds, true, true⟩ = some (.success, files) := by
  rw [copy, if_neg notHelp, named]
  dsimp only
  rw [if_pos rfl, looped]
  rfl

/-- With two names of different files, success means a copy. -/
theorem contents_copy {s : Script} {files : FileSystem} (named : t.inode oldFile = some i)
    (different : t.inode newFile ≠ some i)
    (ran : copy t oldFile newFile s = some (.success, files)) :
    files.contents newFile = some (t.content i) := by
  obtain ⟨-, inFile, named', looped⟩ := copy_success ran
  obtain rfl := Option.some.inj (named.symm.trans named')
  obtain ⟨content, inode⟩ := (copied_create named different).loop looped
  have named' : files.inode newFile = some (t.create newFile).2 := by
    rw [inode]
    exact inode_create t newFile
  rw [contents_of_inode named', content]

/-- An emptied file is read to its end at once. -/
theorem loop_empty (inFile outFile : Nat) (files : FileSystem)
    (empty : files.content inFile = []) :
    loop inFile outFile [⟨some 0, none⟩] ⟨files, 0, 0⟩ = some (.success, files) := by
  have can : CanRead ((files.content inFile).length - 0) 0 := by
    rw [empty]
    decide
  rw [loop]
  dsimp only
  rw [if_pos can]
  rfl

/-- Nothing is written then. -/
theorem files_of_loop_empty {inFile outFile : Nat} {files files' : FileSystem}
    {rounds : List Round} (empty : files.content inFile = [])
    (ran : loop inFile outFile rounds ⟨files, 0, 0⟩ = some (.success, files')) :
    files' = files := by
  cases rounds with
  | nil => cases ran
  | cons r rest =>
      rcases loop_round ran with ⟨-, same⟩ | ⟨nread, nonzero, can, -⟩
      · exact same
      · dsimp only at can
        rw [empty] at can
        exact absurd (Nat.le_zero.mp can.2.1) nonzero

/-- **Copies.** What `copy` leaves when it exits with success is a copy, for every way in which
its calls may return, exactly when the paths do not name one file with something in it. -/
theorem copies_iff (t : FileSystem) (oldFile newFile : List Byte) :
    Copies t oldFile newFile ↔ oldFile = literal "--help" ∨
      ∀ i, t.inode oldFile = some i → t.inode newFile = some i → t.content i = [] := by
  constructor
  · intro copies
    by_cases help : oldFile = literal "--help"
    · exact .inl help
    refine .inr fun i named same => ?_
    have created := create_of_some same
    have emptied : (t.create newFile).1.content i = [] := by
      rw [created, content_store_self]
    have ran := copy_of_loop help named (loop_empty i (t.create newFile).2 _ emptied)
    have lost := copies _ _ ran
    have named' : (t.create newFile).1.inode newFile = some i := by
      rw [created]
      exact same
    rw [contents_of_inode named', contents_of_inode named, emptied] at lost
    exact (Option.some.inj lost).symm
  · intro condition s files ran
    obtain ⟨notHelp, i, named, looped⟩ := copy_success ran
    rw [contents_of_inode named]
    by_cases same : t.inode newFile = some i
    · have empty := (condition.resolve_left notHelp) i named same
      have created := create_of_some same
      have emptied : (t.create newFile).1.content i = [] := by
        rw [created, content_store_self]
      have unchanged := files_of_loop_empty emptied looped
      have named' : files.inode newFile = some i := by
        rw [unchanged, created]
        exact same
      rw [contents_of_inode named', unchanged, emptied, empty]
    · exact contents_copy named same ran

end Runs

/-- Two files, `a` with one byte and `b` with none. `c` is another name of the first. -/
def twoFiles : FileSystem where
  inode path :=
    if path = literal "a" ∨ path = literal "c" then some 0
    else if path = literal "b" then some 1
    else none
  content
    | 0 => [7]
    | _ => []
  next := 2
  fresh := by
    intro path i named
    split_ifs at named <;> cases named <;> decide

/-- The file `a` is copied to its other name, and is lost. -/
theorem not_copies : ¬ ∀ t oldFile newFile, Copies t oldFile newFile := by
  intro copies
  have lost := copies twoFiles (literal "a") (literal "c")
    ⟨true, true, [⟨some 0, none⟩], true, true⟩ _ rfl
  exact absurd lost (by decide)

end Copy

end LinuxExercises.FileTools
