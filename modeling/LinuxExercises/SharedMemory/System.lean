import Mathlib.Data.BitVec
import LinuxExercises.Foundations.LittleEndian
import LinuxExercises.Foundations.Runs

/-!
# Transfer through a shared segment

A writer copies its standard input in blocks into a shared segment, and a reader copies
the blocks from there to its standard output. Two semaphores pass the segment to and
fro: the writer reserves `WRITE_SEM` and releases `READ_SEM`, the reader the other way
round. A block of length 0 is the end of the transfer; the writer then waits for the
segment once more and removes the semaphores.

Both processes advance in single steps, each with at most one access to the segment or
one operation on a semaphore. The environment chooses what the writer's `read` and the
reader's `write` return, and which bytes lie behind the reader's mapping, when `write` can
read them at all. The segment may be an old one with any contents, since the writer opens
it without `O_TRUNC`. What the writer reads lies in its mapping. Each program declares its
own structure over the segment: the count is an `int` for the writer and a `size_t` for the
reader, and the data begin at offset 4 for the writer and at offset 8 for the reader.
-/

set_option autoImplicit false

namespace LinuxExercises.SharedMemory

open Foundations

/-- A C `int`. -/
abbrev CInt := BitVec 32

/-- The size of the mapping. -/
abbrev SHM_SIZE : Nat := 4096

/-- The mapped bytes. -/
abbrev Segment := Buffer SHM_SIZE

namespace Segment

/-- `shmp->cnt` of the writer. -/
def cnt (segment : Segment) : CInt :=
  BitVec.ofNat 32 (LittleEndian.decode (segment.bytes.take 4))

/-- `shmp->cnt` of the reader. -/
def wideCnt (segment : Segment) : BitVec 64 :=
  BitVec.ofNat 64 (LittleEndian.decode (segment.bytes.take 8))

/-- `shmp->cnt = n` of the writer. -/
def storeCnt (segment : Segment) (n : Nat) : Except Fault Segment :=
  segment.store 0 (LittleEndian.encode 4 n)

/-- What `read` stores into the `buf` of the writer. -/
def fill (segment : Segment) (block : List Byte) : Except Fault Segment :=
  segment.store 4 block

/-- What `write` finds in the `buf` of the reader, and behind the mapping. -/
def data (segment : Segment) (n : Nat) (behind : List Byte) : List Byte :=
  (segment.bytes.drop 8 ++ behind).take n

end Segment

/-! ## Semaphores -/

/-- `WRITE_SEM` and `READ_SEM`. -/
inductive SemNum where
  | write
  | read
deriving DecidableEq

/-- The semaphore set. -/
structure Sems where
  write : Nat
  read : Nat
  removed : Bool
deriving DecidableEq

/-- The set as `initSemAvailable` and `initSemInUse` leave it. -/
def Sems.initial : Sems where
  write := 1
  read := 0
  removed := false

/-- The outcome of `semop`: the caller blocks, the set no longer exists, or the operation
is done. -/
inductive Semop where
  | blocks
  | fails
  | done (sems : Sems)
deriving DecidableEq

/-- Reserve a semaphore: decrement it by 1. -/
def reserveSem (sems : Sems) (num : SemNum) : Semop :=
  if sems.removed then .fails
  else
    match num with
    | .write => if sems.write = 0 then .blocks else .done { sems with write := sems.write - 1 }
    | .read => if sems.read = 0 then .blocks else .done { sems with read := sems.read - 1 }

/-- Release a semaphore: increment it by 1. -/
def releaseSem (sems : Sems) (num : SemNum) : Semop :=
  if sems.removed then .fails
  else
    match num with
    | .write => .done { sems with write := sems.write + 1 }
    | .read => .done { sems with read := sems.read + 1 }

/-! ## The two processes -/

/-- Where the writer is. Behind `storeCnt` the code compares the count with -1, which no
block length is. -/
inductive WriterPc where
  | reserve
  | fill
  | storeCnt (n : Nat)
  | release
  | test
  | advance
  | lastReserve
  | remove
  | unlink
  | done
  | failed
deriving DecidableEq

/-- Where the reader is. -/
inductive ReaderPc where
  | reserve
  | take
  | add
  | write
  | release
  | lastRelease
  | done
  | failed
deriving DecidableEq

/-- The writer's variables. Its last line prints `bytes` and `xfrs`. -/
structure Writer where
  pc : WriterPc
  xfrs : CInt
  bytes : CInt
deriving DecidableEq

/-- The reader's variables. Its last line prints `bytes` and `xfrs`. -/
structure Reader where
  pc : ReaderPc
  writeN : CInt
  xfrs : CInt
  bytes : CInt
deriving DecidableEq

/-- Both processes and what they share. The last four fields record the blocks that the
writer has read, the counts that it has stored, the counts that the reader has taken and
the bytes that the reader has written. -/
structure System where
  writer : Writer
  reader : Reader
  segment : Segment
  sems : Sems
  blocks : List (List Byte)
  stored : List CInt
  taken : List CInt
  stdout : List Byte
deriving DecidableEq

namespace System

/-- The semaphores are initialised and both loops are about to begin. The variables of
the reader that are not initialised get their first value before they are read. -/
def start (segment : Segment) : System where
  writer := ⟨.reserve, 0, 0⟩
  reader := ⟨.reserve, 0, 0, 0⟩
  segment := segment
  sems := .initial
  blocks := []
  stored := []
  taken := []
  stdout := []

/-- Go on after `semop`, or leave through the error branch. -/
def afterSemop (outcome : Semop) (next : Sems → System) (failed : System) : Option System :=
  match outcome with
  | .blocks => none
  | .fails => some failed
  | .done sems => some (next sems)

/-- A step of the writer that does not read from its standard input. -/
def stepWriter (s : System) : Option System :=
  match s.writer.pc with
  | .reserve =>
    afterSemop (reserveSem s.sems .write)
      (fun sems => { s with sems := sems, writer.pc := .fill }) { s with writer.pc := .failed }
  | .fill => none
  | .storeCnt n =>
    match s.segment.storeCnt n with
    | .ok segment =>
      some { s with
        segment := segment
        stored := s.stored ++ [BitVec.ofNat 32 n]
        writer.pc := .release }
    | .error _ => none
  | .release =>
    afterSemop (releaseSem s.sems .read)
      (fun sems => { s with sems := sems, writer.pc := .test }) { s with writer.pc := .failed }
  | .test =>
    if s.segment.cnt = 0 then some { s with writer.pc := .lastReserve }
    else some { s with writer.pc := .advance }
  | .advance =>
    some { s with
      writer := ⟨.reserve, s.writer.xfrs + 1, s.writer.bytes + s.segment.cnt⟩ }
  | .lastReserve =>
    afterSemop (reserveSem s.sems .write)
      (fun sems => { s with sems := sems, writer.pc := .remove }) { s with writer.pc := .failed }
  | .remove => some { s with sems.removed := true, writer.pc := .unlink }
  | .unlink => some { s with writer.pc := .done }
  | .done => none
  | .failed => none

/-- The writer's `read` returns a block, which must lie in the mapping. -/
def stepInput (s : System) (block : List Byte) : Option System :=
  match s.writer.pc with
  | .fill =>
    match s.segment.fill block with
    | .ok segment =>
      some { s with
        segment := segment
        blocks := s.blocks ++ [block]
        writer.pc := .storeCnt block.length }
    | .error _ => none
  | _ => none

/-- A step of the reader that does not write to its standard output. The count is
converted from `size_t` to `int`, and added to an `int` as a `size_t`. -/
def stepReader (s : System) : Option System :=
  match s.reader.pc with
  | .reserve =>
    afterSemop (reserveSem s.sems .read)
      (fun sems => { s with sems := sems, reader.pc := .take }) { s with reader.pc := .failed }
  | .take =>
    let writeN := s.segment.wideCnt.setWidth 32
    some { s with
      reader.writeN := writeN
      reader.pc := if writeN = 0 then .lastRelease else .add
      taken := s.taken ++ [writeN] }
  | .add =>
    some { s with
      reader.bytes := (s.reader.bytes.signExtend 64 + s.segment.wideCnt).setWidth 32
      reader.pc := .write }
  | .write => none
  | .release =>
    afterSemop (releaseSem s.sems .write)
      (fun sems =>
        { s with sems := sems, reader.pc := .reserve, reader.xfrs := s.reader.xfrs + 1 })
      { s with reader.pc := .failed }
  | .lastRelease =>
    afterSemop (releaseSem s.sems .write)
      (fun sems => { s with sems := sems, reader.pc := .done }) { s with reader.pc := .failed }
  | .done => none
  | .failed => none

/-- The reader's `write` writes `n` bytes, at most as many as it was given and as there are in
the mapping and readable behind it. Unless it writes all, the reader leaves through the error
branch. -/
def stepOutput (s : System) (n : Nat) (behind : List Byte) : Option System :=
  match s.reader.pc with
  | .write =>
    if n ≤ s.reader.writeN.toNat ∧ 8 + n ≤ SHM_SIZE + behind.length then
      some { s with
        stdout := s.stdout ++ s.segment.data n behind
        reader.pc := if n = s.reader.writeN.toNat then .release else .failed }
    else none
  | _ => none

/-- A step of one of the processes, with what the environment decides. -/
inductive Action where
  | writer
  | input (block : List Byte)
  | reader
  | output (n : Nat) (behind : List Byte)
deriving DecidableEq

def step (s : System) : Action → Option System
  | .writer => s.stepWriter
  | .input block => s.stepInput block
  | .reader => s.stepReader
  | .output n behind => s.stepOutput n behind

/-- The standard input as far as it has been read. -/
def stdin (s : System) : List Byte := s.blocks.flatten

end System

/-! ## The two views of the count -/

namespace Segment

/-- The `int` that the reader gets is the one that the writer sees. -/
theorem setWidth_wideCnt (segment : Segment) : segment.wideCnt.setWidth 32 = segment.cnt := by
  have split : segment.bytes.take 8 = segment.bytes.take 4 ++ (segment.bytes.take 8).drop 4 := by
    rw [show segment.bytes.take 4 = (segment.bytes.take 8).take 4 by rw [List.take_take]; rfl,
      List.take_append_drop]
  have length : (segment.bytes.take 4).length = 4 := by
    rw [List.length_take, segment.size_eq]
    rfl
  refine BitVec.eq_of_toNat_eq ?_
  rw [wideCnt, cnt, BitVec.toNat_setWidth, BitVec.toNat_ofNat, BitVec.toNat_ofNat, split,
    LittleEndian.decode_append, length]
  omega

/-- Adding the count as a `size_t` and converting is adding the count. -/
theorem add_wideCnt (bytes : CInt) (segment : Segment) :
    (bytes.signExtend 64 + segment.wideCnt).setWidth 32 = bytes + segment.cnt := by
  have truncated : (bytes.signExtend 64).setWidth 32 = bytes := by
    refine BitVec.eq_of_getElem_eq fun i small => ?_
    rw [BitVec.getElem_setWidth, BitVec.getLsbD_signExtend, if_pos small,
      decide_eq_true (Nat.lt_trans small (by decide)), Bool.true_and,
      BitVec.getLsbD_eq_getElem]
  rw [BitVec.setWidth_add _ _ (by decide), truncated, setWidth_wideCnt]

/-- Storing a count. -/
theorem storeCnt_spec (segment : Segment) (n : Nat) :
    ∃ result : Segment, segment.storeCnt n = .ok result ∧ result.cnt = BitVec.ofNat 32 n ∧
      result.bytes.drop 4 = segment.bytes.drop 4 := by
  have size := segment.size_eq
  have layout : segment.bytes = [] ++ segment.bytes.take 4 ++ segment.bytes.drop 4 := by
    rw [List.nil_append, List.take_append_drop]
  obtain ⟨result, stored, bytes⟩ := Buffer.store_eq layout (LittleEndian.encode 4 n)
    (by rw [List.length_take, size, LittleEndian.length_encode]; rfl) 0 rfl
  have length : ([] ++ LittleEndian.encode 4 n).length = 4 := by
    rw [List.nil_append, LittleEndian.length_encode]
  refine ⟨result, stored, ?_, ?_⟩
  · refine BitVec.eq_of_toNat_eq ?_
    rw [cnt, bytes, List.take_left' length, List.nil_append, LittleEndian.decode_encode,
      BitVec.toNat_ofNat, BitVec.toNat_ofNat]
    omega
  · rw [bytes, List.drop_left' length]

/-- Storing a block replaces the first bytes behind the count. -/
theorem fill_spec {segment result : Segment} {block : List Byte}
    (filled : segment.fill block = .ok result) :
    result.bytes.drop 4 = block ++ (segment.bytes.drop 4).drop block.length := by
  have size := segment.size_eq
  have length : (segment.bytes.take 4).length = 4 := by
    rw [List.length_take, size]
    rfl
  rw [Buffer.store_bytes filled, List.append_assoc, List.drop_left' length, List.drop_drop]

/-- A block fits when it lies in the mapping. -/
theorem exists_fill (segment : Segment) {block : List Byte} (fits : 4 + block.length ≤ SHM_SIZE) :
    ∃ result : Segment, segment.fill block = .ok result :=
  ⟨_, dif_pos fits⟩

end Segment

/-! ## Operations on the semaphores -/

section Semop

variable {sems : Sems} {next : Sems → System} {failed t : System}

/-- While the set exists, reserving waits for the semaphore and decrements it. -/
theorem reserve_write (alive : sems.removed = false)
    (taken : System.afterSemop (reserveSem sems .write) next failed = some t) :
    0 < sems.write ∧ t = next { sems with write := sems.write - 1 } := by
  rw [reserveSem, if_neg (by rw [alive]; decide)] at taken
  split at taken
  · cases taken
  · exact ⟨by omega, (Option.some.inj taken).symm⟩

theorem reserve_read (alive : sems.removed = false)
    (taken : System.afterSemop (reserveSem sems .read) next failed = some t) :
    0 < sems.read ∧ t = next { sems with read := sems.read - 1 } := by
  rw [reserveSem, if_neg (by rw [alive]; decide)] at taken
  split at taken
  · cases taken
  · exact ⟨by omega, (Option.some.inj taken).symm⟩

/-- While the set exists, releasing increments the semaphore. -/
theorem release_write (alive : sems.removed = false)
    (taken : System.afterSemop (releaseSem sems .write) next failed = some t) :
    t = next { sems with write := sems.write + 1 } := by
  rw [releaseSem, if_neg (by rw [alive]; decide)] at taken
  exact (Option.some.inj taken).symm

theorem release_read (alive : sems.removed = false)
    (taken : System.afterSemop (releaseSem sems .read) next failed = some t) :
    t = next { sems with read := sems.read + 1 } := by
  rw [releaseSem, if_neg (by rw [alive]; decide)] at taken
  exact (Option.some.inj taken).symm

end Semop

end LinuxExercises.SharedMemory
