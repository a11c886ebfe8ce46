import LinuxExercises.FileTools.Copy

/-!
# Copying a file through mappings

The `copy` with `mmap` should do what the one with `read` and `write` does. It opens
`argv[1]` in both places, so it truncates the file that it has just mapped, and fills it with
zeros up to its old size. Its `memcpy` is given the addresses of the two pointer variables: it
copies one into the other, and what is in memory behind them when the file is longer than a
pointer. No mapping is read or written, and `argv[2]` is not looked at.

A run that ends with success has therefore replaced the bytes of the source by zeros, and has
left the destination alone. It agrees with the other program only when nothing was to be
done: the source has only zeros, and the destination is a copy of it already (`agrees_iff`).
-/

set_option autoImplicit false

namespace LinuxExercises.FileTools

open Foundations FileSystem

namespace MappedCopy

/-- Size of a pointer. -/
abbrev POINTER : Nat := 8

/-- Whether the calls succeed, and whether the process survives a `memcpy` of more bytes than a
pointer has. -/
structure Script where
  opensOld : Bool
  stats : Bool
  mapsOld : Bool
  opensNew : Bool
  truncates : Bool
  mapsNew : Bool
  survives : Bool
  closesOld : Bool
  closesNew : Bool

/-- `memcpy(&addr_new, &addr_old, size)`. It stays in the two variables, or goes on behind them
in the memory of the process, where no file is mapped. -/
def memcpy (s : Script) (size : Nat) : Bool := size ≤ POINTER || s.survives

/-- `main` with two arguments: how it exits, when it is not killed, and the files that it
leaves. An empty file cannot be mapped. -/
def copy (t : FileSystem) (oldFile _newFile : List Byte) (s : Script) :
    Option Exit × FileSystem :=
  match t.inode oldFile, s.opensOld with
  | some fdOld, true =>
    let size := (t.content fdOld).length
    if s.stats = false ∨ s.mapsOld = false ∨ size = 0 then (some .failure, t)
    else if s.opensNew = false then (some .failure, t)
    else
      let (t, fdNew) := t.create oldFile
      if s.truncates = false then (some .failure, t)
      else
        let t := t.store fdNew (resize (t.content fdNew) size)
        if s.mapsNew = false then (some .failure, t)
        else if memcpy s size = false then (none, t)
        else (some (if s.closesOld && s.closesNew then .success else .failure), t)
  | _, _ => (some .failure, t)

/-- A run with success leaves the source as it was, and the destination as the other program
does in a run with success. -/
def Agrees (t : FileSystem) (oldFile newFile : List Byte) : Prop :=
  ∀ s files, copy t oldFile newFile s = (some .success, files) →
    files.contents oldFile = t.contents oldFile ∧
      ∀ s' files', Copy.copy t oldFile newFile s' = some (.success, files') →
        files.contents newFile = files'.contents newFile

variable {t : FileSystem} {oldFile newFile : List Byte} {i : Nat}

/-- The file system with zeros in the place of the source. -/
def zeroed (t : FileSystem) (i : Nat) : FileSystem :=
  t.store i (List.replicate (t.content i).length 0)

/-- What a run with success leaves. -/
theorem copy_success {s : Script} {files : FileSystem} (named : t.inode oldFile = some i)
    (ran : copy t oldFile newFile s = (some .success, files)) : files = zeroed t i := by
  rw [copy, named] at ran
  split at ran
  next fdOld opens same _ =>
    cases same
    dsimp only at ran
    rw [create_of_some named] at ran
    split at ran
    · cases ran
    · split at ran
      · cases ran
      · dsimp only at ran
        rw [content_store_self, resize_nil] at ran
        split at ran
        · cases ran
        · split at ran
          · cases ran
          · split at ran
            · cases ran
            · rw [← (Prod.mk.inj ran).2, zeroed, store, store, store, Function.update_idem]
  · cases ran

/-- There is such a run. -/
theorem copy_succeeds (newFile : List Byte) (named : t.inode oldFile = some i)
    (nonempty : t.content i ≠ []) :
    copy t oldFile newFile ⟨true, true, true, true, true, true, true, true, true⟩ =
      (some .success, zeroed t i) := by
  have size : ¬ (t.content i).length = 0 := mt List.eq_nil_of_length_eq_zero nonempty
  rw [copy, named]
  dsimp only
  rw [create_of_some named, if_neg (by simp [size]), if_neg Bool.noConfusion,
    if_neg Bool.noConfusion, if_neg Bool.noConfusion, content_store_self, resize_nil,
    if_neg (by simp [memcpy])]
  dsimp only
  rw [zeroed, store, store, store, Function.update_idem]
  rfl

/-- Nothing but the source is changed. -/
theorem contents_zeroed (different : t.inode newFile ≠ some i) :
    (zeroed t i).contents newFile = t.contents newFile := by
  rw [contents, contents, zeroed, inode_store]
  cases at_path : t.inode newFile with
  | none => rfl
  | some j =>
      have other : j ≠ i := by
        rintro rfl
        exact different at_path
      rw [Option.map_some, Option.map_some, content_store_of_ne _ _ other]

/-- **Agreement.** For a source with something in it and a destination that is another file or
none, the two programs agree exactly when the source has only zeros and the destination is
already a copy of it. (The other program takes the name `--help` for a question.) -/
theorem agrees_iff (named : t.inode oldFile = some i) (nonempty : t.content i ≠ [])
    (different : t.inode newFile ≠ some i) :
    Agrees t oldFile newFile ↔
      t.content i = List.replicate (t.content i).length 0 ∧
        (oldFile = literal "--help" ∨ t.contents newFile = t.contents oldFile) := by
  have named' : (zeroed t i).inode oldFile = some i := named
  have kept : (zeroed t i).contents oldFile = t.contents oldFile ↔
      t.content i = List.replicate (t.content i).length 0 := by
    rw [contents_of_inode named', contents_of_inode named, zeroed, content_store_self]
    exact ⟨fun same => (Option.some.inj same).symm, fun zeros => congrArg some zeros.symm⟩
  have left := contents_zeroed different
  constructor
  · intro agrees
    obtain ⟨source, destination⟩ := agrees _ _ (copy_succeeds newFile named nonempty)
    refine ⟨kept.mp source, ?_⟩
    by_cases help : oldFile = literal "--help"
    · exact .inl help
    · obtain ⟨rounds, files, looped⟩ := (Copy.copied_create named different).succeeds
      have ran := Copy.copy_of_loop help named looped
      rw [left] at destination
      rw [destination _ _ ran, Copy.contents_copy named different ran, contents_of_inode named]
      exact .inr rfl
  · rintro ⟨zeros, same⟩ s files ran
    obtain rfl := copy_success named ran
    refine ⟨kept.mpr zeros, fun s' files' ran' => ?_⟩
    have notHelp := (Copy.copy_success ran').1
    rw [left, Copy.contents_copy named different ran', same.resolve_left notHelp,
      contents_of_inode named]

/-- The file `a` to the file `b`. -/
theorem agrees_iff_twoFiles : Agrees Copy.twoFiles (literal "a") (literal "b") ↔
    Copy.twoFiles.content 0 = List.replicate (Copy.twoFiles.content 0).length 0 ∧
      (literal "a" = literal "--help" ∨
        Copy.twoFiles.contents (literal "b") = Copy.twoFiles.contents (literal "a")) :=
  agrees_iff (by decide) (by decide) (by decide)

/-- The byte of `a` is lost, and `b` stays empty. -/
theorem not_agrees : ¬ ∀ t oldFile newFile i, t.inode oldFile = some i → t.content i ≠ [] →
    t.inode newFile ≠ some i → Agrees t oldFile newFile := by
  intro agrees
  have source := (agrees Copy.twoFiles (literal "a") (literal "b") 0 (by decide) (by decide)
    (by decide) ⟨true, true, true, true, true, true, true, true, true⟩ _ rfl).1
  exact absurd source (by decide)

end MappedCopy

end LinuxExercises.FileTools
