import LinuxExercises.SharedMemory.System

/-!
# The semaphore handshake

One token goes round between the two semaphores and the two processes, so at most one
process is between its reserve and its release (`Inv.token`). What the writer has stored
is what the reader has taken, followed by the count in the segment while that count has
not been taken yet (`Inv.channel`). Each process has counted the blocks it has dealt
with, and the writer gets past its loop only with a count of 0 stored (`WriterAt`,
`ReaderAt`).

From these, in every run: the writer does not store while the reader has the segment, the
reader takes the counts in the order they were stored and each exactly once, the
semaphores are removed when the reader is done with them, and both processes print the
same totals (`handshake_of_run`).
-/

set_option autoImplicit false

namespace LinuxExercises.SharedMemory

open Foundations

/-! ## Totals -/

/-- The totals of a process that has counted these blocks. -/
structure Ledger (counts : List CInt) (xfrs bytes : CInt) : Prop where
  nonzero : ∀ c ∈ counts, c ≠ 0
  xfrs_eq : xfrs = BitVec.ofNat 32 counts.length
  bytes_eq : bytes = counts.sum

namespace Ledger

theorem nil : Ledger [] 0 0 where
  nonzero := fun _ member => (List.not_mem_nil member).elim
  xfrs_eq := rfl
  bytes_eq := rfl

theorem snoc {counts : List CInt} {xfrs bytes c : CInt} (ledger : Ledger counts xfrs bytes)
    (nonzero : c ≠ 0) : Ledger (counts ++ [c]) (xfrs + 1) (bytes + c) where
  nonzero := by
    intro d member
    rcases List.mem_append.mp member with inside | last
    · exact ledger.nonzero d inside
    · rw [List.mem_singleton.mp last]
      exact nonzero
  xfrs_eq := by
    rw [ledger.xfrs_eq, List.length_append, BitVec.ofNat_add]
    rfl
  bytes_eq := by rw [ledger.bytes_eq, List.sum_append, List.sum_singleton]

/-- The blocks determine the totals. -/
theorem unique {counts : List CInt} {xfrs bytes xfrs' bytes' : CInt}
    (one : Ledger counts xfrs bytes) (other : Ledger counts xfrs' bytes') :
    xfrs = xfrs' ∧ bytes = bytes' :=
  ⟨one.xfrs_eq.trans other.xfrs_eq.symm, one.bytes_eq.trans other.bytes_eq.symm⟩

end Ledger

/-! ## The invariant -/

/-- The writer is between its reserve of `WRITE_SEM` and its release of `READ_SEM`, or has
reserved `WRITE_SEM` for good. -/
def WriterPc.holds : WriterPc → Bool
  | .fill => true
  | .storeCnt _ => true
  | .release => true
  | .remove => true
  | .unlink => true
  | .done => true
  | _ => false

/-- The reader is between its reserve of `READ_SEM` and its release of `WRITE_SEM`, or has
left in between. -/
def ReaderPc.holds : ReaderPc → Bool
  | .take => true
  | .add => true
  | .write => true
  | .release => true
  | .lastRelease => true
  | .failed => true
  | _ => false

/-- The writer has removed the semaphores. -/
def WriterPc.removed : WriterPc → Bool
  | .unlink => true
  | .done => true
  | _ => false

namespace System

/-- The writer has stored one count more than it has added to its totals. -/
def Uncounted (s : System) : Prop :=
  ∃ before, s.stored = before ++ [s.segment.cnt] ∧
    Ledger before s.writer.xfrs s.writer.bytes

/-- What the writer has done when it is at a place. -/
def WriterAt (s : System) : Prop :=
  match s.writer.pc with
  | .reserve | .fill | .storeCnt _ => Ledger s.stored s.writer.xfrs s.writer.bytes
  | .release | .test => s.Uncounted
  | .advance => s.Uncounted ∧ s.segment.cnt ≠ 0
  | .lastReserve | .remove | .unlink | .done => s.Uncounted ∧ s.segment.cnt = 0
  | .failed => False

/-- What the reader has done when it is at a place. -/
def ReaderAt (s : System) : Prop :=
  match s.reader.pc with
  | .reserve | .take => Ledger s.taken s.reader.xfrs s.reader.bytes
  | .add =>
    ∃ before, s.taken = before ++ [s.reader.writeN] ∧
      Ledger before s.reader.xfrs s.reader.bytes ∧ s.reader.writeN ≠ 0 ∧
      s.segment.cnt = s.reader.writeN
  | .write | .release | .failed =>
    s.taken.getLast? = some s.reader.writeN ∧
      Ledger s.taken (s.reader.xfrs + 1) s.reader.bytes
  | .lastRelease | .done =>
    ∃ before, s.taken = before ++ [0] ∧ Ledger before s.reader.xfrs s.reader.bytes

/-- A count is stored and not yet taken. -/
def Untaken (s : System) : Prop :=
  s.sems.read = 1 ∨ s.reader.pc = .take ∨ s.writer.pc = .release

instance (s : System) : Decidable s.Untaken := inferInstanceAs (Decidable (_ ∨ _ ∨ _))

/-- The invariant of the two processes. -/
structure Inv (s : System) : Prop where
  writer : s.WriterAt
  reader : s.ReaderAt
  alive : s.sems.removed = s.writer.pc.removed
  token : s.sems.write + s.sems.read + s.writer.pc.holds.toNat + s.reader.pc.holds.toNat = 1
  channel : s.stored = s.taken ++ if s.Untaken then [s.segment.cnt] else []

theorem inv_start (segment : Segment) : Inv (start segment) where
  writer := Ledger.nil
  reader := Ledger.nil
  alive := rfl
  token := rfl
  channel := rfl

/-- What the reader has done does not depend on the segment while it does not hold it. -/
theorem ReaderAt.frame {s t : System} (at_s : s.ReaderAt) (reader : t.reader = s.reader)
    (taken : t.taken = s.taken) (segment : s.reader.pc.holds = true → t.segment = s.segment) :
    t.ReaderAt := by
  rw [ReaderAt] at at_s ⊢
  rw [reader, taken]
  cases pc : s.reader.pc with
  | add =>
      rw [pc] at at_s segment
      rw [segment rfl]
      exact at_s
  | _ =>
      rw [pc] at at_s
      exact at_s

theorem WriterAt.frame {s t : System} (at_s : s.WriterAt) (writer : t.writer = s.writer)
    (stored : t.stored = s.stored) (segment : t.segment = s.segment) : t.WriterAt := by
  rw [WriterAt, Uncounted] at at_s ⊢
  rw [writer, stored, segment]
  exact at_s

namespace Inv

variable {s t : System}

/-- While the writer has the segment, the token is nowhere else. -/
theorem of_writer_holds (inv : Inv s) (holds : s.writer.pc.holds = true) :
    s.sems.write = 0 ∧ s.sems.read = 0 ∧ s.reader.pc.holds = false := by
  have token := inv.token
  rw [holds, Bool.toNat_true] at token
  refine ⟨by omega, by omega, Bool.toNat_eq_zero.mp (by omega)⟩

/-- While the reader has the segment, the token is nowhere else. -/
theorem of_reader_holds (inv : Inv s) (holds : s.reader.pc.holds = true) :
    s.sems.write = 0 ∧ s.sems.read = 0 ∧ s.writer.pc.holds = false := by
  have token := inv.token
  rw [holds, Bool.toNat_true] at token
  refine ⟨by omega, by omega, Bool.toNat_eq_zero.mp (by omega)⟩

theorem stored_of_untaken (inv : Inv s) (untaken : s.Untaken) :
    s.stored = s.taken ++ [s.segment.cnt] := by
  rw [inv.channel, if_pos untaken]

theorem stored_of_not_untaken (inv : Inv s) (none : ¬ s.Untaken) : s.stored = s.taken := by
  rw [inv.channel, if_neg none, List.append_nil]

/-- Nothing is untaken while the writer has the segment and has not stored its count. -/
theorem not_untaken_of_writer (inv : Inv s) (holds : s.writer.pc.holds = true)
    (before : s.writer.pc ≠ .release) : ¬ s.Untaken := by
  obtain ⟨-, read, idle⟩ := inv.of_writer_holds holds
  rintro (full | atTake | atRelease)
  · omega
  · rw [atTake] at idle
    cases idle
  · exact before atRelease

/-- Nothing is untaken while the reader has the segment and has taken its count. -/
theorem not_untaken_of_reader (inv : Inv s) (holds : s.reader.pc.holds = true)
    (behind : s.reader.pc ≠ .take) : ¬ s.Untaken := by
  obtain ⟨-, read, idle⟩ := inv.of_reader_holds holds
  rintro (full | atTake | atRelease)
  · omega
  · exact behind atTake
  · rw [atRelease] at idle
    cases idle

/-- A step that neither stores nor takes a count. -/
theorem channel_frame (inv : Inv s) (stored : t.stored = s.stored) (taken : t.taken = s.taken)
    (segment : t.segment = s.segment) (untaken : t.Untaken ↔ s.Untaken) :
    t.stored = t.taken ++ if t.Untaken then [t.segment.cnt] else [] := by
  rw [stored, taken, segment, inv.channel]
  simp only [untaken]

end Inv

/-! ## Steps of the writer -/

section Writer

variable {s t : System}

/-- Reserving `WRITE_SEM`, for a block or for the end. -/
theorem inv_reserve (inv : Inv s) (pc : s.writer.pc = .reserve ∨ s.writer.pc = .lastReserve)
    (taken : s.stepWriter = some t) : Inv t := by
  have at_s := inv.writer
  have alive := inv.alive
  have token := inv.token
  rw [WriterAt] at at_s
  rcases pc with pc | pc
  all_goals
    rw [pc] at at_s alive token
    rw [stepWriter, pc] at taken
    obtain ⟨positive, rfl⟩ := reserve_write alive taken
    refine ⟨at_s, inv.reader.frame rfl rfl fun _ => rfl, alive, ?_, ?_⟩
    · simp only [WriterPc.holds, Bool.toNat_true, Bool.toNat_false] at token ⊢
      omega
    · exact inv.channel_frame rfl rfl rfl (by simp [Untaken, pc])

theorem inv_input {block : List Byte} (inv : Inv s) (taken : s.stepInput block = some t) :
    Inv t := by
  rw [stepInput] at taken
  split at taken
  next pc =>
    split at taken
    next segment filled =>
      cases taken
      have at_s := inv.writer
      have alive := inv.alive
      have token := inv.token
      have holds : s.writer.pc.holds = true := by rw [pc]; rfl
      have idle := (inv.of_writer_holds holds).2.2
      have nothing := inv.not_untaken_of_writer holds (by rw [pc]; simp)
      rw [WriterAt, pc] at at_s
      rw [pc] at alive token
      refine ⟨at_s, inv.reader.frame rfl rfl fun busy => ?_, alive, token, ?_⟩
      · rw [idle] at busy
        cases busy
      · rw [if_neg (fun untaken => nothing ?_), List.append_nil]
        · exact inv.stored_of_not_untaken nothing
        · simpa [Untaken, pc] using untaken
    next => cases taken
  next => cases taken

theorem inv_storeCnt {n : Nat} (inv : Inv s) (pc : s.writer.pc = .storeCnt n)
    (taken : s.stepWriter = some t) : Inv t := by
  obtain ⟨segment, stored, cnt, -⟩ := s.segment.storeCnt_spec n
  rw [stepWriter, pc] at taken
  simp only [stored] at taken
  cases taken
  have at_s := inv.writer
  have alive := inv.alive
  have token := inv.token
  have holds : s.writer.pc.holds = true := by rw [pc]; rfl
  have idle := (inv.of_writer_holds holds).2.2
  have nothing := inv.not_untaken_of_writer holds (by rw [pc]; simp)
  rw [WriterAt, pc] at at_s
  rw [pc] at alive token
  refine ⟨⟨s.stored, by rw [cnt], at_s⟩, inv.reader.frame rfl rfl fun busy => ?_, alive,
    token, ?_⟩
  · rw [idle] at busy
    cases busy
  · rw [if_pos (.inr (.inr rfl)), inv.stored_of_not_untaken nothing, cnt]

theorem inv_release (inv : Inv s) (pc : s.writer.pc = .release)
    (taken : s.stepWriter = some t) : Inv t := by
  have at_s := inv.writer
  have alive := inv.alive
  have token := inv.token
  have holds : s.writer.pc.holds = true := by rw [pc]; rfl
  have empty := (inv.of_writer_holds holds).2.1
  rw [WriterAt, pc] at at_s
  rw [pc] at alive token
  rw [stepWriter, pc] at taken
  cases release_read alive taken
  refine ⟨at_s, inv.reader.frame rfl rfl fun _ => rfl, alive, ?_, ?_⟩
  · simp only [WriterPc.holds, Bool.toNat_true, Bool.toNat_false] at token ⊢
    omega
  · exact inv.channel_frame rfl rfl rfl (by simp [Untaken, pc, empty])

theorem inv_test (inv : Inv s) (pc : s.writer.pc = .test) (taken : s.stepWriter = some t) :
    Inv t := by
  have at_s := inv.writer
  have alive := inv.alive
  have token := inv.token
  rw [WriterAt, pc] at at_s
  rw [pc] at alive token
  rw [stepWriter, pc] at taken
  simp only at taken
  split at taken
  next zero =>
    cases taken
    exact ⟨⟨at_s, zero⟩, inv.reader.frame rfl rfl fun _ => rfl, alive, token,
      inv.channel_frame rfl rfl rfl (by simp [Untaken, pc])⟩
  next nonzero =>
    cases taken
    exact ⟨⟨at_s, nonzero⟩, inv.reader.frame rfl rfl fun _ => rfl, alive, token,
      inv.channel_frame rfl rfl rfl (by simp [Untaken, pc])⟩

theorem inv_advance (inv : Inv s) (pc : s.writer.pc = .advance)
    (taken : s.stepWriter = some t) : Inv t := by
  have at_s := inv.writer
  have alive := inv.alive
  have token := inv.token
  rw [WriterAt, pc] at at_s
  rw [pc] at alive token
  rw [stepWriter, pc] at taken
  cases taken
  obtain ⟨⟨before, stored, ledger⟩, nonzero⟩ := at_s
  refine ⟨?_, inv.reader.frame rfl rfl fun _ => rfl, alive, token,
    inv.channel_frame rfl rfl rfl (by simp [Untaken, pc])⟩
  have counted := ledger.snoc nonzero
  rw [← stored] at counted
  exact counted

/-- Removing the set and the segment, and the last line. -/
theorem inv_end (inv : Inv s) (pc : s.writer.pc = .remove ∨ s.writer.pc = .unlink)
    (taken : s.stepWriter = some t) : Inv t := by
  have at_s := inv.writer
  have token := inv.token
  rw [WriterAt] at at_s
  rcases pc with pc | pc
  all_goals
    rw [pc] at at_s token
    rw [stepWriter, pc] at taken
    cases taken
  · exact ⟨at_s, inv.reader.frame rfl rfl fun _ => rfl, rfl, token,
      inv.channel_frame rfl rfl rfl (by simp [Untaken, pc])⟩
  · have alive := inv.alive
    rw [pc] at alive
    exact ⟨at_s, inv.reader.frame rfl rfl fun _ => rfl, alive, token,
      inv.channel_frame rfl rfl rfl (by simp [Untaken, pc])⟩

theorem inv_writer (inv : Inv s) (taken : s.stepWriter = some t) : Inv t := by
  cases pc : s.writer.pc with
  | reserve => exact inv_reserve inv (.inl pc) taken
  | storeCnt n => exact inv_storeCnt inv pc taken
  | release => exact inv_release inv pc taken
  | test => exact inv_test inv pc taken
  | advance => exact inv_advance inv pc taken
  | lastReserve => exact inv_reserve inv (.inr pc) taken
  | remove => exact inv_end inv (.inl pc) taken
  | unlink => exact inv_end inv (.inr pc) taken
  | fill =>
      rw [stepWriter, pc] at taken
      cases taken
  | done =>
      rw [stepWriter, pc] at taken
      cases taken
  | failed =>
      rw [stepWriter, pc] at taken
      cases taken

end Writer

/-! ## Steps of the reader -/

section Reader

variable {s t : System}

/-- The semaphores exist as long as the reader may still use them. -/
theorem Inv.done_of_removed (inv : Inv s) (removed : s.sems.removed = true) :
    s.reader.pc = .done := by
  have past : s.writer.pc.removed = true := inv.alive.symm.trans removed
  have at_s := inv.writer
  have read := inv.reader
  have facts : s.writer.pc.holds = true ∧ s.writer.pc ≠ .release ∧
      (s.Uncounted ∧ s.segment.cnt = 0) := by
    cases pc : s.writer.pc <;> rw [pc] at past <;> cases past
    all_goals
      rw [WriterAt, pc] at at_s
      exact ⟨rfl, by simp, at_s⟩
  obtain ⟨holds, notRelease, ⟨before, stored, -⟩, zero⟩ := facts
  have idle := (inv.of_writer_holds holds).2.2
  have same := inv.stored_of_not_untaken (inv.not_untaken_of_writer holds notRelease)
  cases pc : s.reader.pc with
  | done => rfl
  | reserve =>
      -- Between two rounds the reader has taken no 0, but the last count stored is one.
      rw [ReaderAt, pc] at read
      refine absurd zero (read.nonzero _ ?_)
      rw [← same, stored]
      exact List.mem_append_right _ (List.mem_singleton.mpr rfl)
  | _ =>
      rw [pc] at idle
      cases idle

theorem Inv.alive_of_not_done (inv : Inv s) (notDone : s.reader.pc ≠ .done) :
    s.sems.removed = false := by
  by_contra removed
  rw [Bool.not_eq_false] at removed
  exact notDone (inv.done_of_removed removed)

theorem inv_readerReserve (inv : Inv s) (pc : s.reader.pc = .reserve)
    (taken : s.stepReader = some t) : Inv t := by
  have alive := inv.alive_of_not_done (by rw [pc]; simp)
  have read := inv.reader
  have token := inv.token
  rw [ReaderAt, pc] at read
  rw [pc] at token
  rw [stepReader, pc] at taken
  obtain ⟨positive, rfl⟩ := reserve_read alive taken
  refine ⟨inv.writer.frame rfl rfl rfl, read, inv.alive, ?_, ?_⟩
  · simp only [ReaderPc.holds, Bool.toNat_true, Bool.toNat_false] at token ⊢
    omega
  · have one : s.sems.read = 1 := by omega
    exact inv.channel_frame rfl rfl rfl (by simp [Untaken, one])

theorem inv_take (inv : Inv s) (pc : s.reader.pc = .take) (taken : s.stepReader = some t) :
    Inv t := by
  have read := inv.reader
  have token := inv.token
  have holds : s.reader.pc.holds = true := by rw [pc]; rfl
  obtain ⟨-, empty, idle⟩ := inv.of_reader_holds holds
  have stored := inv.stored_of_untaken (.inr (.inl pc))
  have notRelease : s.writer.pc ≠ .release := by
    intro release
    rw [release] at idle
    cases idle
  rw [ReaderAt, pc] at read
  rw [pc] at token
  rw [stepReader, pc] at taken
  simp only [Segment.setWidth_wideCnt] at taken
  cases taken
  by_cases zero : s.segment.cnt = 0
  · simp only [if_pos zero]
    refine ⟨inv.writer.frame rfl rfl rfl, ⟨s.taken, by rw [zero], read⟩, inv.alive, token, ?_⟩
    rw [if_neg (by simp [Untaken, empty, notRelease]), List.append_nil]
    exact stored
  · simp only [if_neg zero]
    refine ⟨inv.writer.frame rfl rfl rfl, ⟨s.taken, rfl, read, zero, rfl⟩, inv.alive, token, ?_⟩
    rw [if_neg (by simp [Untaken, empty, notRelease]), List.append_nil]
    exact stored

theorem inv_add (inv : Inv s) (pc : s.reader.pc = .add) (taken : s.stepReader = some t) :
    Inv t := by
  have read := inv.reader
  have token := inv.token
  rw [ReaderAt, pc] at read
  rw [pc] at token
  rw [stepReader, pc] at taken
  cases taken
  obtain ⟨before, isTaken, ledger, nonzero, cnt⟩ := read
  refine ⟨inv.writer.frame rfl rfl rfl, ⟨?_, ?_⟩, inv.alive, token,
    inv.channel_frame rfl rfl rfl (by simp [Untaken, pc])⟩
  · simp only [isTaken, List.getLast?_concat]
  · have counted := ledger.snoc nonzero
    rw [← isTaken, ← cnt] at counted
    simpa only [Segment.add_wideCnt] using counted

theorem inv_output {n : Nat} {behind : List Byte} (inv : Inv s)
    (taken : s.stepOutput n behind = some t) : Inv t := by
  rw [stepOutput] at taken
  split at taken
  next pc =>
    have read := inv.reader
    have token := inv.token
    rw [ReaderAt, pc] at read
    rw [pc] at token
    split at taken
    · cases taken
      by_cases all : n = s.reader.writeN.toNat
      · simp only [if_pos all]
        exact ⟨inv.writer.frame rfl rfl rfl, read, inv.alive, token,
          inv.channel_frame rfl rfl rfl (by simp [Untaken, pc])⟩
      · simp only [if_neg all]
        exact ⟨inv.writer.frame rfl rfl rfl, read, inv.alive, token,
          inv.channel_frame rfl rfl rfl (by simp [Untaken, pc])⟩
    · cases taken
  next => cases taken

theorem inv_readerRelease (inv : Inv s) (pc : s.reader.pc = .release)
    (taken : s.stepReader = some t) : Inv t := by
  have alive := inv.alive_of_not_done (by rw [pc]; simp)
  have read := inv.reader
  have token := inv.token
  rw [ReaderAt, pc] at read
  rw [pc] at token
  rw [stepReader, pc] at taken
  cases release_write alive taken
  refine ⟨inv.writer.frame rfl rfl rfl, read.2, inv.alive, ?_,
    inv.channel_frame rfl rfl rfl (by simp [Untaken, pc])⟩
  simp only [ReaderPc.holds, Bool.toNat_true, Bool.toNat_false] at token ⊢
  omega

theorem inv_lastRelease (inv : Inv s) (pc : s.reader.pc = .lastRelease)
    (taken : s.stepReader = some t) : Inv t := by
  have alive := inv.alive_of_not_done (by rw [pc]; simp)
  have read := inv.reader
  have token := inv.token
  rw [ReaderAt, pc] at read
  rw [pc] at token
  rw [stepReader, pc] at taken
  cases release_write alive taken
  refine ⟨inv.writer.frame rfl rfl rfl, read, inv.alive, ?_,
    inv.channel_frame rfl rfl rfl (by simp [Untaken, pc])⟩
  simp only [ReaderPc.holds, Bool.toNat_true, Bool.toNat_false] at token ⊢
  omega

theorem inv_reader (inv : Inv s) (taken : s.stepReader = some t) : Inv t := by
  cases pc : s.reader.pc with
  | reserve => exact inv_readerReserve inv pc taken
  | take => exact inv_take inv pc taken
  | add => exact inv_add inv pc taken
  | release => exact inv_readerRelease inv pc taken
  | lastRelease => exact inv_lastRelease inv pc taken
  | write =>
      rw [stepReader, pc] at taken
      cases taken
  | done =>
      rw [stepReader, pc] at taken
      cases taken
  | failed =>
      rw [stepReader, pc] at taken
      cases taken

end Reader

/-! ## Runs -/

theorem inv_step {s t : System} {a : Action} (inv : Inv s) (taken : step s a = some t) :
    Inv t := by
  cases a with
  | writer => exact inv_writer inv taken
  | input block => exact inv_input inv taken
  | reader => exact inv_reader inv taken
  | output n behind => exact inv_output inv taken

theorem inv_run {segment : Segment} {actions : List Action} {s : System}
    (ran : run step (start segment) actions = some s) : Inv s :=
  run_invariant inv_step (inv_start segment) ran

/-- The writer is about to store into the segment. -/
def WriterStores (s : System) : Prop :=
  s.writer.pc = .fill ∨ ∃ n, s.writer.pc = .storeCnt n

/-- The reader is between its reserve of `READ_SEM` and its release of `WRITE_SEM`. -/
def ReaderInside (s : System) : Prop :=
  s.reader.pc = .take ∨ s.reader.pc = .add ∨ s.reader.pc = .write ∨ s.reader.pc = .release ∨
    s.reader.pc = .lastRelease

/-- What the handshake guarantees in a state. -/
structure Handshake (s : System) : Prop where
  exclusive : s.WriterStores → ¬ s.ReaderInside
  inOrder : s.taken <+: s.stored
  noneSkipped : s.stored.length ≤ s.taken.length + 1
  complete : s.reader.pc = .done → s.taken = s.stored
  removedLast : s.sems.removed = true → s.reader.pc = .done
  totals : s.writer.pc = .done → s.reader.pc = .done →
    s.writer.bytes = s.reader.bytes ∧ s.writer.xfrs = s.reader.xfrs

namespace Inv

variable {s : System}

/-- Only the last count that the writer has stored may be 0. -/
theorem nonzero_dropLast (inv : Inv s) : ∀ c ∈ s.stored.dropLast, c ≠ 0 := by
  have at_s := inv.writer
  have ofLedger : Ledger s.stored s.writer.xfrs s.writer.bytes →
      ∀ c ∈ s.stored.dropLast, c ≠ 0 :=
    fun ledger c member => ledger.nonzero c (List.mem_of_mem_dropLast member)
  have ofUncounted : s.Uncounted → ∀ c ∈ s.stored.dropLast, c ≠ 0 := by
    rintro ⟨before, stored, ledger⟩ c member
    rw [stored, List.dropLast_concat] at member
    exact ledger.nonzero c member
  rw [WriterAt] at at_s
  cases pc : s.writer.pc <;> rw [pc] at at_s
  case reserve | fill | storeCnt => exact ofLedger at_s
  case release | test => exact ofUncounted at_s
  case advance | lastReserve | remove | unlink | done => exact ofUncounted at_s.1
  case failed => exact at_s.elim

/-- The reader is done when it has taken all counts. -/
theorem taken_eq_stored (inv : Inv s) (done : s.reader.pc = .done) : s.taken = s.stored := by
  have read := inv.reader
  rw [ReaderAt, done] at read
  obtain ⟨before, taken, -⟩ := read
  by_cases untaken : s.Untaken
  · -- A count behind the 0 that the reader has taken.
    have stored := inv.stored_of_untaken untaken
    refine absurd rfl (inv.nonzero_dropLast 0 ?_)
    rw [stored, List.dropLast_concat, taken]
    exact List.mem_append_right _ (List.mem_singleton.mpr rfl)
  · exact (inv.stored_of_not_untaken untaken).symm

theorem exclusive (inv : Inv s) (stores : s.WriterStores) : ¬ s.ReaderInside := by
  have holds : s.writer.pc.holds = true := by
    rcases stores with pc | ⟨n, pc⟩ <;> rw [pc] <;> rfl
  have idle := (inv.of_writer_holds holds).2.2
  rintro (pc | pc | pc | pc | pc) <;> rw [pc] at idle <;> cases idle

theorem totals (inv : Inv s) (writerDone : s.writer.pc = .done)
    (readerDone : s.reader.pc = .done) :
    s.writer.bytes = s.reader.bytes ∧ s.writer.xfrs = s.reader.xfrs := by
  have at_s := inv.writer
  have read := inv.reader
  rw [WriterAt, writerDone] at at_s
  rw [ReaderAt, readerDone] at read
  obtain ⟨⟨before, stored, written⟩, zero⟩ := at_s
  obtain ⟨before', taken, received⟩ := read
  have same := inv.taken_eq_stored readerDone
  rw [stored, taken, zero] at same
  cases List.append_cancel_right same
  exact ⟨(written.unique received).2, (written.unique received).1⟩

theorem handshake (inv : Inv s) : Handshake s where
  exclusive := inv.exclusive
  inOrder := by
    rw [inv.channel]
    exact List.prefix_append _ _
  noneSkipped := by
    rw [inv.channel, List.length_append]
    split
    · exact Nat.le_refl _
    · exact Nat.le_succ _
  complete := inv.taken_eq_stored
  removedLast := inv.done_of_removed
  totals := inv.totals

end Inv

/-- **The handshake.** In every state that the two processes reach, the writer does not
store while the reader has the segment, the reader has taken the counts in the order they
were stored, the semaphores are removed only when the reader is done, and the totals of
both processes agree at the end. -/
theorem handshake_of_run {segment : Segment} {actions : List Action} {s : System}
    (ran : run step (start segment) actions = some s) : Handshake s :=
  (inv_run ran).handshake

/-- The zeroed segment that `ftruncate` makes. -/
def zeroSegment : Segment where
  bytes := List.replicate SHM_SIZE 0
  size_eq := List.length_replicate

/-- The transfer of a block, up to the end of both processes. -/
def transferOf (block : List Byte) : List Action :=
  [.writer, .input block, .writer, .writer, .reader, .reader, .reader, .output block.length [],
    .reader, .writer, .writer, .writer, .input [], .writer, .writer, .reader, .reader, .writer,
    .reader, .writer, .writer, .writer]

/-- Both processes print that they have transferred one byte in one block. -/
theorem handshake_of_run_tiny :
    ∃ s, run step (start zeroSegment) (transferOf [7]) = some s ∧
      s.writer = ⟨.done, 1, 1⟩ ∧ s.reader.pc = .done ∧ s.sems.removed = true ∧ Handshake s := by
  have ends : (run step (start zeroSegment) (transferOf [7])).map
      (fun s => (s.writer, s.reader.pc, s.sems.removed)) =
        some (⟨.done, 1, 1⟩, .done, true) := by decide +kernel
  obtain ⟨s, ran, reached⟩ := Option.map_eq_some_iff.mp ends
  simp only [Prod.mk.injEq] at reached
  exact ⟨s, ran, reached.1, reached.2.1, reached.2.2, handshake_of_run ran⟩

end System

end LinuxExercises.SharedMemory
