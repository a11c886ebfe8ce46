import Mathlib.Logic.Function.Basic
import LinuxExercises.Foundations.Buffer

/-!
# Files and their names

A path names a file or nothing, and a file may have several names. What a program does with an
open file goes to the file itself, so it is seen under all of its names.

Opening with `O_CREAT` and `O_TRUNC` empties the file that a path names, or makes a new one
(`inode_create`, `content_create`). It leaves other files as they are (`content_create_of_ne`).
-/

set_option autoImplicit false

namespace LinuxExercises.Foundations

/-- The names of files, and their contents. Numbers from `next` on are no files. -/
structure FileSystem where
  inode : List Byte → Option Nat
  content : Nat → List Byte
  next : Nat
  fresh : ∀ {path i}, inode path = some i → i < next

namespace FileSystem

/-- The bytes of the file that a path names. -/
def contents (t : FileSystem) (path : List Byte) : Option (List Byte) :=
  (t.inode path).map t.content

/-- A file gets other bytes. -/
def store (t : FileSystem) (i : Nat) (bytes : List Byte) : FileSystem :=
  { t with content := Function.update t.content i bytes }

/-- `open` with `O_CREAT` and `O_TRUNC`. -/
def create (t : FileSystem) (path : List Byte) : FileSystem × Nat :=
  match t.inode path with
  | some i => (t.store i [], i)
  | none =>
    ({ inode := Function.update t.inode path (some t.next)
       content := Function.update t.content t.next []
       next := t.next + 1
       fresh := by
         intro other i named
         by_cases same : other = path
         · subst same
           rw [Function.update_self] at named
           exact Nat.lt_succ_of_le (Option.some.inj named).ge
         · rw [Function.update_of_ne same] at named
           exact Nat.lt_succ_of_lt (t.fresh named) },
      t.next)

/-- What a write at an offset makes of the bytes of a file. -/
def writeAt (bytes : List Byte) (offset : Nat) (new : List Byte) : List Byte :=
  bytes.take offset ++ List.replicate (offset - bytes.length) 0 ++ new ++
    bytes.drop (offset + new.length)

/-- `ftruncate`. -/
def resize (bytes : List Byte) (size : Nat) : List Byte :=
  bytes.take size ++ List.replicate (size - bytes.length) 0

variable {t : FileSystem} {path other : List Byte} {i j : Nat}

theorem writeAt_end (bytes new : List Byte) : writeAt bytes bytes.length new = bytes ++ new := by
  rw [writeAt, List.take_length, Nat.sub_self, List.replicate_zero, List.append_nil,
    List.drop_of_length_le (Nat.le_add_right ..), List.append_nil]

theorem resize_nil (size : Nat) : resize [] size = List.replicate size 0 := by
  rw [resize, List.take_nil, List.nil_append, List.length_nil, Nat.sub_zero]

@[simp] theorem inode_store (t : FileSystem) (i : Nat) (bytes : List Byte) :
    (t.store i bytes).inode = t.inode := rfl

@[simp] theorem content_store_self (t : FileSystem) (i : Nat) (bytes : List Byte) :
    (t.store i bytes).content i = bytes := Function.update_self ..

theorem content_store_of_ne (t : FileSystem) (bytes : List Byte) (other : j ≠ i) :
    (t.store i bytes).content j = t.content j := Function.update_of_ne other ..

theorem contents_of_inode (named : t.inode path = some i) :
    t.contents path = some (t.content i) := by
  rw [contents, named, Option.map_some]

/-- A file that is there is emptied. -/
theorem create_of_some (named : t.inode path = some i) : t.create path = (t.store i [], i) := by
  rw [create, named]

/-- The path names the file that was opened. -/
theorem inode_create (t : FileSystem) (path : List Byte) :
    (t.create path).1.inode path = some (t.create path).2 := by
  rw [create]
  cases named : t.inode path with
  | some i => exact named
  | none => exact Function.update_self ..

/-- The file that was opened is empty. -/
theorem content_create (t : FileSystem) (path : List Byte) :
    (t.create path).1.content (t.create path).2 = [] := by
  rw [create]
  cases t.inode path with
  | some i => exact Function.update_self ..
  | none => exact Function.update_self ..

/-- A file that the path does not name is another one. -/
theorem ne_create (named : t.inode other = some i) (different : t.inode path ≠ some i) :
    i ≠ (t.create path).2 := by
  rw [create]
  cases at_path : t.inode path with
  | some j =>
      rintro rfl
      exact different at_path
  | none => exact (t.fresh named).ne

/-- Other files stay as they are. -/
theorem content_create_of_ne (different : i ≠ (t.create path).2) :
    (t.create path).1.content i = t.content i := by
  rw [create] at different ⊢
  cases named : t.inode path with
  | some j =>
      rw [named] at different
      exact Function.update_of_ne different ..
  | none =>
      rw [named] at different
      exact Function.update_of_ne different ..

end FileSystem

end LinuxExercises.Foundations
