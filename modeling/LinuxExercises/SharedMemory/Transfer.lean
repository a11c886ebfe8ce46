import Mathlib.Data.List.GetD
import LinuxExercises.SharedMemory.Handshake

/-!
# The bytes that come through

The writer stores a block at offset 4 of the segment and the reader reads it at offset 8,
so the reader misses the first four bytes of a block and gets the four bytes behind it
instead. `received` is what it gets for one block, `outputs` for a sequence of blocks,
and every run writes exactly that (`Data`).

A block comes through unchanged if each of its bytes equals the one four places further on. So
it repeats the four bytes behind it, which are those that were behind the longest block so far
before the transfer began (`outputs_eq_iff`). A transfer is faithful exactly when all its blocks
repeat such bytes (`transfer_iff`). In a new segment these bytes are 0, and only an input of zeros
comes through (`continues_zeros_iff`).
-/

set_option autoImplicit false

namespace LinuxExercises.SharedMemory

open Foundations

/-! ## Blocks and what is received -/

/-- The segment behind the count, with a block stored over its first bytes. -/
def overlay (data block : List Byte) : List Byte := block ++ data.drop block.length

/-- What the reader writes for a block. -/
def received (data block : List Byte) : List Byte :=
  ((overlay data block).drop 4).take block.length

/-- What the reader writes for a sequence of blocks. -/
def outputs : List Byte → List (List Byte) → List Byte
  | _, [] => []
  | data, block :: blocks => received data block ++ outputs (overlay data block) blocks

theorem outputs_concat (data : List Byte) (blocks : List (List Byte)) (block : List Byte) :
    outputs data (blocks ++ [block]) =
      outputs data blocks ++ received (blocks.foldl overlay data) block := by
  induction blocks generalizing data with
  | nil => simp [outputs]
  | cons first blocks ih =>
      rw [List.cons_append, outputs, ih, outputs, List.foldl_cons, List.append_assoc]

theorem length_overlay {data block : List Byte} (fits : block.length ≤ data.length) :
    (overlay data block).length = data.length := by
  rw [overlay, List.length_append, List.length_drop]
  omega

theorem length_received {data block : List Byte} (fits : block.length + 4 ≤ data.length) :
    (received data block).length = block.length := by
  rw [received, List.length_take, List.length_drop, length_overlay (by omega)]
  omega

/-- Of the four places from `m` on, the one that leaves the remainder of `j`. -/
def placeBehind (m j : Nat) : Nat := m + (j + 3 * m) % 4

/-- A place `m` or one of the three behind it stands for itself. -/
theorem placeBehind_self {m k : Nat} (from_m : m ≤ k) (near : k < m + 4) : placeBehind m k = k := by
  rw [placeBehind]
  omega

theorem placeBehind_add (m j : Nat) : placeBehind m (j + 4) = placeBehind m j := by
  rw [placeBehind, placeBehind]
  omega

/-- Each block repeats, from its end backwards, the four bytes that were behind the longest block so
far. The longest one before has length `m`. -/
def Continues (data : List Byte) : Nat → List (List Byte) → Prop
  | _, [] => True
  | m, block :: blocks =>
    (∀ j < block.length, block.getD j 0 = data.getD (placeBehind (max m block.length) j) 0) ∧
      Continues data (max m block.length) blocks

/-- What the segment holds when the longest block so far has length `m`: up to the fourth place
behind it the repeated bytes, and further on what it held before. -/
structure Continued (data : List Byte) (m : Nat) (now : List Byte) : Prop where
  length : now.length = data.length
  repeated : ∀ k < m + 4, now.getD k 0 = data.getD (placeBehind m k) 0
  rest : ∀ k ≥ m, now.getD k 0 = data.getD k 0

theorem continued_start (data : List Byte) : Continued data 0 data where
  length := rfl
  repeated k near := by rw [placeBehind_self (Nat.zero_le k) near]
  rest _ _ := rfl

section Received

variable {data now block : List Byte} {m : Nat}

theorem getD_overlay_of_lt {j : Nat} (inside : j < block.length) :
    (overlay now block).getD j 0 = block.getD j 0 := by
  rw [overlay, List.getD_append _ _ _ _ inside]

theorem getD_overlay_of_le {k : Nat} (outside : block.length ≤ k) :
    (overlay now block).getD k 0 = now.getD k 0 := by
  rw [overlay, List.getD_append_right _ _ _ _ outside, List.getD_eq_getElem?_getD,
    List.getElem?_drop, Nat.add_sub_cancel' outside, List.getD_eq_getElem?_getD]

/-- The four places behind a block hold bytes that were there before the transfer. -/
theorem Continued.behind (continued : Continued data m now) {k : Nat} (outside : block.length ≤ k)
    (near : k < block.length + 4) :
    (overlay now block).getD k 0 = data.getD (placeBehind (max m block.length) k) 0 := by
  rw [getD_overlay_of_le outside]
  by_cases longer : m ≤ block.length
  · rw [Nat.max_eq_right longer, placeBehind_self outside near]
    exact continued.rest k (Nat.le_trans longer outside)
  · rw [Nat.max_eq_left (by omega)]
    exact continued.repeated k (by omega)

/-- A received byte is the one four places further on. -/
theorem getD_received {j : Nat} (within : j < block.length) :
    (received now block).getD j 0 = (overlay now block).getD (j + 4) 0 := by
  rw [received, List.getD_eq_getElem?_getD, List.getElem?_take_of_lt within, List.getElem?_drop,
    Nat.add_comm 4 j, List.getD_eq_getElem?_getD]

/-- **One block.** It is received as it was stored exactly when it repeats the bytes behind the
longest block. -/
theorem received_eq_iff (continued : Continued data m now)
    (fits : block.length + 4 ≤ data.length) :
    received now block = block ↔
      ∀ j < block.length, block.getD j 0 = data.getD (placeBehind (max m block.length) j) 0 := by
  have fitsNow : block.length + 4 ≤ now.length := continued.length ▸ fits
  constructor
  · intro same
    -- Going back from the end of the block in steps of four.
    have back : ∀ (n k : Nat), k < block.length + 4 → block.length ≤ k + n →
        (overlay now block).getD k 0 = data.getD (placeBehind (max m block.length) k) 0 := by
      intro n
      induction n with
      | zero => exact fun k near outside => continued.behind outside near
      | succ n ih =>
          intro k near outside
          by_cases within : k < block.length
          · have here : (received now block).getD k 0 = block.getD k 0 := by rw [same]
            rw [getD_overlay_of_lt within, ← here, getD_received within,
              ih (k + 4) (by omega) (by omega), placeBehind_add]
          · exact continued.behind (by omega) near
    intro j within
    rw [← @getD_overlay_of_lt now _ _ within]
    exact back block.length j (by omega) (by omega)
  · intro repeats
    have all : ∀ k < block.length + 4,
        (overlay now block).getD k 0 = data.getD (placeBehind (max m block.length) k) 0 := by
      intro k near
      by_cases within : k < block.length
      · rw [getD_overlay_of_lt within, repeats k within]
      · exact continued.behind (by omega) near
    refine List.ext_getElem (length_received fitsNow) fun j small within => ?_
    rw [← List.getD_eq_getElem _ 0 small, ← List.getD_eq_getElem _ 0 within,
      getD_received within, all (j + 4) (by omega), placeBehind_add, ← repeats j within]

/-- A block that repeats these bytes leaves the segment as the next block needs it. -/
theorem Continued.overlay (continued : Continued data m now) (fits : block.length ≤ data.length)
    (repeats : ∀ j < block.length,
      block.getD j 0 = data.getD (placeBehind (max m block.length) j) 0) :
    Continued data (max m block.length) (overlay now block) where
  length := (length_overlay (continued.length ▸ fits)).trans continued.length
  repeated k near := by
    by_cases within : k < block.length
    · rw [getD_overlay_of_lt within, repeats k within]
    · by_cases close : k < block.length + 4
      · exact continued.behind (by omega) close
      · have longer : block.length ≤ m := by omega
        rw [getD_overlay_of_le (by omega), Nat.max_eq_left longer]
        exact continued.repeated k (by omega)
  rest k beyond := by
    rw [getD_overlay_of_le (by omega)]
    exact continued.rest k (by omega)

end Received

/-- **Which blocks come through.** -/
theorem outputs_eq_iff {data : List Byte} {blocks : List (List Byte)}
    (fits : ∀ block ∈ blocks, block.length + 4 ≤ data.length) {m : Nat} {now : List Byte}
    (continued : Continued data m now) :
    outputs now blocks = blocks.flatten ↔ Continues data m blocks := by
  induction blocks generalizing m now with
  | nil => simp [outputs, Continues]
  | cons block blocks ih =>
      rw [List.forall_mem_cons] at fits
      have fitsNow : block.length + 4 ≤ now.length := continued.length ▸ fits.1
      have split : outputs now (block :: blocks) = (block :: blocks).flatten ↔
          received now block = block ∧
            outputs (overlay now block) blocks = blocks.flatten := by
        rw [outputs, List.flatten_cons]
        refine ⟨fun same => List.append_inj same (length_received fitsNow), fun same => ?_⟩
        rw [same.1, same.2]
      rw [split, received_eq_iff continued fits.1, Continues]
      exact and_congr_right fun repeats =>
        ih fits.2 (continued.overlay (by omega) repeats)

/-- A byte of a zeroed segment, or 0 behind its end. -/
theorem getD_eq_zero {data : List Byte} (zeros : ∀ b ∈ data, b = 0) (i : Nat) :
    data.getD i 0 = 0 := by
  by_cases within : i < data.length
  · rw [List.getD_eq_getElem _ _ within]
    exact zeros _ (List.getElem_mem within)
  · rw [List.getD_eq_default _ _ (by omega)]

/-- **A new segment.** The bytes behind a block are 0, and so only zeros come through. -/
theorem continues_zeros_iff {data : List Byte} (zeros : ∀ b ∈ data, b = 0) {m : Nat}
    {blocks : List (List Byte)} : Continues data m blocks ↔ ∀ b ∈ blocks.flatten, b = 0 := by
  induction blocks generalizing m with
  | nil => simp [Continues]
  | cons block blocks ih =>
      rw [Continues, ih, List.flatten_cons, List.forall_mem_append]
      refine and_congr_left fun _ => ⟨fun repeats b member => ?_, fun blank j _ => ?_⟩
      · obtain ⟨j, within, rfl⟩ := List.getElem_of_mem member
        rw [← List.getD_eq_getElem block 0 within, repeats j within, getD_eq_zero zeros]
      · rw [getD_eq_zero blank, getD_eq_zero zeros]

/-! ## What every run writes -/

/-- The count that is stored for a block. -/
def cntOf (block : List Byte) : CInt := BitVec.ofNat 32 block.length

namespace System

/-- Which of the blocks have their counts stored. -/
def BlocksAt (s : System) : Prop :=
  match s.writer.pc with
  | .storeCnt n =>
    ∃ before block, s.blocks = before ++ [block] ∧ n = block.length ∧
      s.stored = before.map cntOf
  | _ => s.stored = s.blocks.map cntOf

/-- How many blocks the reader has dealt with. -/
def written (s : System) : Nat :=
  match s.reader.pc with
  | .reserve | .take | .release => s.taken.length
  | _ => s.taken.length - 1

/-- The segment and the standard output, in terms of the blocks. -/
structure Data (data : List Byte) (s : System) : Prop where
  segment : s.segment.bytes.drop 4 = s.blocks.foldl overlay data
  blocks : s.BlocksAt
  short : ∀ block ∈ s.blocks, block.length ≤ SHM_SIZE
  stdout : s.reader.pc ≠ .failed → (∀ block ∈ s.blocks, 8 + block.length ≤ SHM_SIZE) →
    s.stdout = outputs data (s.blocks.take s.written)

theorem data_start (segment : Segment) : Data (segment.bytes.drop 4) (start segment) where
  segment := rfl
  blocks := rfl
  short := fun _ member => (List.not_mem_nil member).elim
  stdout := fun _ _ => rfl

theorem afterSemop_cases {outcome : Semop} {next : Sems → System} {failed t : System}
    (taken : afterSemop outcome next failed = some t) : t = failed ∨ ∃ sems, t = next sems := by
  cases outcome with
  | blocks => cases taken
  | fails => exact .inl (Option.some.inj taken).symm
  | done sems => exact .inr ⟨sems, (Option.some.inj taken).symm⟩

section Data

variable {s t : System} {data : List Byte}

/-- Apart from its stores, the writer leaves the data as they are. -/
theorem stepWriter_frame (taken : s.stepWriter = some t)
    (noStore : ∀ n, s.writer.pc ≠ .storeCnt n) :
    t.segment = s.segment ∧ t.blocks = s.blocks ∧ t.stored = s.stored ∧ t.reader = s.reader ∧
      t.taken = s.taken ∧ t.stdout = s.stdout ∧ ∀ n, t.writer.pc ≠ .storeCnt n := by
  rw [stepWriter] at taken
  cases pc : s.writer.pc <;> rw [pc] at taken
  case reserve | release | lastReserve =>
    rcases afterSemop_cases taken with rfl | ⟨sems, rfl⟩
    · exact ⟨rfl, rfl, rfl, rfl, rfl, rfl, by simp⟩
    · exact ⟨rfl, rfl, rfl, rfl, rfl, rfl, by simp⟩
  case test =>
    simp only at taken
    split at taken
    · cases taken
      exact ⟨rfl, rfl, rfl, rfl, rfl, rfl, by simp⟩
    · cases taken
      exact ⟨rfl, rfl, rfl, rfl, rfl, rfl, by simp⟩
  case advance | remove | unlink =>
    cases taken
    exact ⟨rfl, rfl, rfl, rfl, rfl, rfl, by simp⟩
  case storeCnt n => exact absurd pc (noStore n)
  case fill | done | failed => cases taken

/-- Apart from its output, the reader leaves the data as they are. -/
theorem stepReader_frame (taken : s.stepReader = some t) :
    t.segment = s.segment ∧ t.blocks = s.blocks ∧ t.stored = s.stored ∧ t.writer = s.writer ∧
      t.stdout = s.stdout ∧
      (t.reader.pc ≠ .failed → s.reader.pc ≠ .failed ∧ t.written = s.written) := by
  rw [stepReader] at taken
  cases pc : s.reader.pc <;> rw [pc] at taken
  case reserve | release | lastRelease =>
    rcases afterSemop_cases taken with rfl | ⟨sems, rfl⟩
    · exact ⟨rfl, rfl, rfl, rfl, rfl, fun notFailed => absurd rfl notFailed⟩
    · exact ⟨rfl, rfl, rfl, rfl, rfl, fun _ => ⟨by simp, by simp [written, pc]⟩⟩
  case take =>
    cases taken
    refine ⟨rfl, rfl, rfl, rfl, rfl, fun _ => ⟨by simp, ?_⟩⟩
    rw [written, written, pc]
    by_cases zero : s.segment.wideCnt.setWidth 32 = 0
    · simp only [if_pos zero, List.length_append, List.length_singleton, Nat.add_sub_cancel]
    · simp only [if_neg zero, List.length_append, List.length_singleton, Nat.add_sub_cancel]
  case add =>
    cases taken
    exact ⟨rfl, rfl, rfl, rfl, rfl, fun _ => ⟨by simp, by simp [written, pc]⟩⟩
  case write | done | failed => cases taken

theorem stored_eq_of_noStore (at_s : s.BlocksAt) (noStore : ∀ n, s.writer.pc ≠ .storeCnt n) :
    s.stored = s.blocks.map cntOf := by
  rw [BlocksAt] at at_s
  cases pc : s.writer.pc <;> rw [pc] at at_s
  case storeCnt n => exact absurd pc (noStore n)
  all_goals exact at_s

theorem blocksAt_of_noStore (stored : s.stored = s.blocks.map cntOf)
    (noStore : ∀ n, s.writer.pc ≠ .storeCnt n) : s.BlocksAt := by
  rw [BlocksAt]
  cases pc : s.writer.pc
  case storeCnt n => exact absurd pc (noStore n)
  all_goals exact stored

theorem data_writer (at_s : Data data s) (taken : s.stepWriter = some t) : Data data t := by
  by_cases store : ∃ n, s.writer.pc = .storeCnt n
  · obtain ⟨n, pc⟩ := store
    obtain ⟨segment, stored, -, drop⟩ := s.segment.storeCnt_spec n
    have blocks := at_s.blocks
    rw [BlocksAt, pc] at blocks
    rw [stepWriter, pc] at taken
    simp only [stored] at taken
    cases taken
    obtain ⟨before, block, split, length, counts⟩ := blocks
    refine ⟨drop.trans at_s.segment, ?_, at_s.short, at_s.stdout⟩
    change s.stored ++ [BitVec.ofNat 32 n] = s.blocks.map cntOf
    rw [split, counts, length, List.map_append]
    rfl
  · have noStore : ∀ n, s.writer.pc ≠ .storeCnt n := fun n pc => store ⟨n, pc⟩
    obtain ⟨segment, blocks, stored, reader, taken', stdout, noStore'⟩ :=
      stepWriter_frame taken noStore
    have counts := stored_eq_of_noStore at_s.blocks noStore
    refine ⟨by rw [segment, blocks, at_s.segment], ?_, by rw [blocks]; exact at_s.short, ?_⟩
    · exact blocksAt_of_noStore (by rw [stored, blocks, counts]) noStore'
    · rw [written, reader, stdout, blocks, taken']
      exact at_s.stdout

theorem data_input {block : List Byte} (inv : Inv s) (at_s : Data data s)
    (taken : s.stepInput block = some t) : Data data t := by
  rw [stepInput] at taken
  split at taken
  next pc =>
    split at taken
    next segment filled =>
      cases taken
      have counts := stored_eq_of_noStore at_s.blocks (by rw [pc]; simp)
      have within : s.written ≤ s.blocks.length := by
        have atMost := inv.handshake.inOrder.length_le
        rw [counts, List.length_map] at atMost
        rw [written]
        split <;> omega
      refine ⟨?_, ⟨s.blocks, block, rfl, rfl, counts⟩, ?_, fun notFailed small => ?_⟩
      · rw [Segment.fill_spec filled, at_s.segment, List.foldl_append]
        rfl
      · intro other member
        rcases List.mem_append.mp member with inBlocks | last
        · exact at_s.short other inBlocks
        · rw [List.mem_singleton.mp last]
          exact Nat.le_of_add_left_le (Buffer.store_within filled)
      · have smaller : ∀ other ∈ s.blocks, 8 + other.length ≤ SHM_SIZE :=
          fun other member => small other (List.mem_append_left _ member)
        rw [at_s.stdout notFailed smaller, ← List.take_append_of_le_length within]
        rfl
    next => cases taken
  next => cases taken

/-- The count of a block is its length. -/
theorem toNat_cntOf {block : List Byte} (short : block.length ≤ SHM_SIZE) :
    (cntOf block).toNat = block.length := by
  rw [cntOf, BitVec.toNat_ofNat]
  exact Nat.mod_eq_of_lt (Nat.lt_of_le_of_lt short (by decide))

/-- While the reader has taken the last count, the segment holds that block. -/
theorem exists_last (inv : Inv s) (at_s : Data data s) (holds : s.reader.pc.holds = true)
    (behind : s.reader.pc ≠ .take) (last : s.taken.getLast? = some s.reader.writeN) :
    ∃ before block, s.blocks = before ++ [block] ∧ s.taken.length = before.length + 1 ∧
      s.reader.writeN.toNat = block.length := by
  have idle := (inv.of_reader_holds holds).2.2
  have noStore : ∀ n, s.writer.pc ≠ .storeCnt n := by
    intro n pc
    rw [pc] at idle
    cases idle
  have same := inv.stored_of_not_untaken (inv.not_untaken_of_reader holds behind)
  rw [stored_eq_of_noStore at_s.blocks noStore] at same
  rw [← same, List.getLast?_map, Option.map_eq_some_iff] at last
  obtain ⟨block, isLast, cnt⟩ := last
  obtain ⟨before, split⟩ := List.getLast?_eq_some_iff.mp isLast
  refine ⟨before, block, split, ?_, ?_⟩
  · rw [← same, split]
    simp
  · rw [← cnt]
    exact toNat_cntOf (at_s.short block (by rw [split]; simp))

theorem data_output {n : Nat} {behind : List Byte} (inv : Inv s) (at_s : Data data s)
    (taken : s.stepOutput n behind = some t) : Data data t := by
  rw [stepOutput] at taken
  split at taken
  next pc =>
    have read := inv.reader
    rw [ReaderAt, pc] at read
    split at taken
    · cases taken
      by_cases all : n = s.reader.writeN.toNat
      · obtain ⟨before, block, split, length, size⟩ :=
          exists_last inv at_s (by rw [pc]; rfl) (by rw [pc]; simp) read.1
        refine ⟨at_s.segment, at_s.blocks, at_s.short, fun _ small => ?_⟩
        have sofar := at_s.stdout (by rw [pc]; simp) small
        rw [written, pc] at sofar
        simp only [written, if_pos all]
        rw [sofar, split, length, Nat.add_sub_cancel, List.take_left]
        have whole : (before ++ [block]).take (before.length + 1) = before ++ [block] :=
          List.take_of_length_le (by simp)
        have shown : s.segment.data n behind = received (before.foldl overlay data) block := by
          have fits : 8 + block.length ≤ SHM_SIZE := small block (split ▸ by simp)
          have inside : n ≤ (s.segment.bytes.drop 8).length := by
            rw [List.length_drop, s.segment.size_eq]
            omega
          have fourth : s.segment.bytes.drop 8 = (s.segment.bytes.drop 4).drop 4 := by
            rw [List.drop_drop]
          rw [Segment.data, List.take_append_of_le_length inside, received, all, size, fourth,
            at_s.segment, split, List.foldl_append]
          rfl
        rw [whole, outputs_concat, shown]
      · refine ⟨at_s.segment, at_s.blocks, at_s.short, fun notFailed _ => ?_⟩
        exact absurd (if_neg all) notFailed
    · cases taken
  next => cases taken

theorem data_reader (at_s : Data data s) (taken : s.stepReader = some t) : Data data t := by
  obtain ⟨segment, blocks, stored, writer, stdout, later⟩ := stepReader_frame taken
  refine ⟨by rw [segment, blocks, at_s.segment], ?_, by rw [blocks]; exact at_s.short, ?_⟩
  · have before := at_s.blocks
    rw [BlocksAt] at before ⊢
    rw [writer, blocks, stored]
    exact before
  · intro notFailed
    obtain ⟨wasNotFailed, same⟩ := later notFailed
    rw [stdout, blocks, same]
    exact at_s.stdout wasNotFailed

theorem data_step {a : Action} (both : Inv s ∧ Data data s) (taken : step s a = some t) :
    Inv t ∧ Data data t := by
  obtain ⟨inv, at_s⟩ := both
  refine ⟨inv_step inv taken, ?_⟩
  cases a with
  | writer => exact data_writer at_s taken
  | input block => exact data_input inv at_s taken
  | reader => exact data_reader at_s taken
  | output n behind => exact data_output inv at_s taken

/-- The writer stores no count after the one of the empty block. -/
theorem noStore_of_done (inv : Inv s) (done : s.reader.pc = .done) :
    ∀ n, s.writer.pc ≠ .storeCnt n := by
  intro n pc
  have at_s := inv.writer
  have read := inv.reader
  rw [WriterAt, pc] at at_s
  rw [ReaderAt, done] at read
  obtain ⟨before, taken, -⟩ := read
  refine absurd rfl (at_s.nonzero 0 ?_)
  rw [← inv.taken_eq_stored done, taken]
  exact List.mem_append_right _ (List.mem_singleton.mpr rfl)

/-- What the reader has written when it is done. -/
theorem stdout_of_done {segment : Segment} {actions : List Action} {blocks : List (List Byte)}
    (sizes : ∀ block ∈ blocks, 1 ≤ block.length ∧ block.length ≤ 4088)
    (ran : run step (start segment) actions = some s) (done : s.reader.pc = .done)
    (read : s.blocks = blocks ++ [[]]) :
    s.stdout = outputs (segment.bytes.drop 4) blocks := by
  obtain ⟨inv, at_s⟩ := run_invariant data_step
    (⟨inv_start segment, data_start segment⟩ : Inv _ ∧ Data (segment.bytes.drop 4) _) ran
  have all : s.taken.length - 1 = blocks.length := by
    rw [inv.taken_eq_stored done, stored_eq_of_noStore at_s.blocks (noStore_of_done inv done),
      read, List.length_map, List.length_append]
    rfl
  have small : ∀ block ∈ s.blocks, 8 + block.length ≤ SHM_SIZE := by
    intro block member
    rw [read] at member
    rcases List.mem_append.mp member with inBlocks | last
    · exact Nat.add_le_add_left (sizes block inBlocks).2 8
    · rw [List.mem_singleton.mp last]
      decide
  rw [at_s.stdout (by rw [done]; simp) small, written, done, read]
  simp only
  rw [all, List.take_left]

end Data

/-! ## Complete runs -/

/-- Both processes are at the start of a round, and the segment is free. -/
structure Idle (s : System) : Prop where
  writer : s.writer.pc = .reserve
  reader : s.reader.pc = .reserve
  sems : s.sems = .initial

/-- The segment is full: the writer has handed over a block, and the reader is at the start
of a round. -/
structure Full (s : System) (block : List Byte) : Prop where
  writer : s.writer.pc = .test
  reader : s.reader.pc = .reserve
  sems : s.sems = ⟨0, 1, false⟩
  cnt : s.segment.cnt = cntOf block

/-- The writer reads a block and hands it over. -/
def handOver (block : List Byte) : List Action := [.writer, .input block, .writer, .writer]

theorem run_handOver {s : System} (idle : Idle s) {block : List Byte}
    (fits : block.length ≤ 4088) :
    ∃ t, run step s (handOver block) = some t ∧ Full t block ∧
      t.blocks = s.blocks ++ [block] := by
  obtain ⟨⟨pc, xfrs, bytes⟩, reader, segment, sems, blocks, stored, taken, stdout⟩ := s
  obtain ⟨rfl, atReserve, rfl⟩ := idle
  obtain ⟨filled, fill⟩ := segment.exists_fill (show 4 + block.length ≤ 4096 by omega)
  obtain ⟨counted, store, cnt, -⟩ := filled.storeCnt_spec block.length
  have read : step ⟨⟨.fill, xfrs, bytes⟩, reader, segment, ⟨0, 0, false⟩, blocks, stored, taken,
      stdout⟩ (.input block) = some ⟨⟨.storeCnt block.length, xfrs, bytes⟩, reader, filled,
        ⟨0, 0, false⟩, blocks ++ [block], stored, taken, stdout⟩ := by
    simp only [step, stepInput, fill]
  have written : step ⟨⟨.storeCnt block.length, xfrs, bytes⟩, reader, filled, ⟨0, 0, false⟩,
      blocks ++ [block], stored, taken, stdout⟩ .writer = some ⟨⟨.release, xfrs, bytes⟩, reader,
        counted, ⟨0, 0, false⟩, blocks ++ [block], stored ++ [cntOf block], taken, stdout⟩ := by
    simp only [step, stepWriter, store, cntOf]
  exact ⟨_, run_step rfl (run_step read (run_step written (run_step rfl (run_nil _ _)))),
    ⟨rfl, atReserve, rfl, cnt⟩, rfl⟩

/-- The reader takes a block, writes it and gives the segment back, and the writer counts
the block. -/
def giveBack (block : List Byte) : List Action :=
  [.reader, .reader, .reader, .output block.length [], .reader, .writer, .writer]

theorem run_giveBack {s : System} {block : List Byte} (full : Full s block)
    (nonempty : 1 ≤ block.length) (fits : block.length ≤ 4088) :
    ∃ t, run step s (giveBack block) = some t ∧ Idle t ∧ t.blocks = s.blocks := by
  obtain ⟨⟨pc, xfrs, bytes⟩, ⟨readerPc, writeN, received, total⟩, segment, sems, blocks, stored,
    taken, stdout⟩ := s
  obtain ⟨rfl, rfl, rfl, cnt⟩ := full
  have size : (cntOf block).toNat = block.length :=
    toNat_cntOf (show block.length ≤ 4096 by omega)
  have nonzero : cntOf block ≠ 0 := by
    intro zero
    rw [zero] at size
    change 0 = block.length at size
    omega
  have took : ∀ writer sems, step ⟨writer, ⟨.take, writeN, received, total⟩, segment, sems, blocks,
      stored, taken, stdout⟩ .reader = some ⟨writer, ⟨.add, cntOf block, received, total⟩, segment,
        sems, blocks, stored, taken ++ [cntOf block], stdout⟩ := by
    intro writer sems
    simp only [step, stepReader, Segment.setWidth_wideCnt]
    rw [show segment.cnt = cntOf block from cnt, if_neg nonzero]
  have wrote : ∀ writer sems total taken, step ⟨writer, ⟨.write, cntOf block, received, total⟩,
      segment, sems, blocks, stored, taken, stdout⟩ (.output block.length []) =
        some ⟨writer, ⟨.release, cntOf block, received, total⟩, segment, sems, blocks, stored,
          taken, stdout ++ segment.data block.length []⟩ := by
    intro writer sems total taken
    simp only [step, stepOutput, size]
    rw [if_pos ⟨Nat.le_refl _, show 8 + block.length ≤ 4096 + 0 by omega⟩]
    simp only [if_true]
  have tested : ∀ reader sems taken stdout, step ⟨⟨.test, xfrs, bytes⟩, reader, segment, sems,
      blocks, stored, taken, stdout⟩ .writer = some ⟨⟨.advance, xfrs, bytes⟩, reader, segment, sems,
        blocks, stored, taken, stdout⟩ := by
    intro reader sems taken stdout
    simp only [step, stepWriter]
    rw [show segment.cnt = cntOf block from cnt, if_neg nonzero]
  exact ⟨_, run_step rfl (run_step (took _ _) (run_step rfl (run_step (wrote _ _ _ _)
    (run_step rfl (run_step (tested _ _ _ _) (run_step rfl (run_nil _ _))))))),
    ⟨rfl, rfl, rfl⟩, rfl⟩

/-- The empty block: the reader leaves its loop and gives the segment back once more. -/
theorem run_leave {s : System} (full : Full s []) :
    ∃ t, run step s [.reader, .reader, .reader] = some t ∧ t.reader.pc = .done ∧
      t.blocks = s.blocks := by
  obtain ⟨writer, ⟨readerPc, writeN, xfrs, bytes⟩, segment, sems, blocks, stored, taken,
    stdout⟩ := s
  obtain ⟨-, rfl, rfl, cnt⟩ := full
  have took : step ⟨writer, ⟨.take, writeN, xfrs, bytes⟩, segment, ⟨0, 0, false⟩, blocks, stored,
      taken, stdout⟩ .reader = some ⟨writer, ⟨.lastRelease, 0, xfrs, bytes⟩, segment,
        ⟨0, 0, false⟩, blocks, stored, taken ++ [0], stdout⟩ := by
    simp only [step, stepReader, Segment.setWidth_wideCnt]
    rw [show segment.cnt = 0 from cnt, if_pos rfl]
  exact ⟨_, run_step rfl (run_step took (run_step rfl (run_nil _ _))), rfl, rfl⟩

theorem run_complete {blocks : List (List Byte)}
    (sizes : ∀ block ∈ blocks, 1 ≤ block.length ∧ block.length ≤ 4088) :
    ∀ {s : System}, Idle s → ∃ actions t, run step s actions = some t ∧ t.reader.pc = .done ∧
      t.blocks = s.blocks ++ (blocks ++ [[]]) := by
  induction blocks with
  | nil =>
      intro s idle
      obtain ⟨full, handed, isFull, read⟩ := @run_handOver s idle [] (Nat.zero_le _)
      obtain ⟨t, left, done, same⟩ := run_leave isFull
      exact ⟨_, t, run_append handed left, done, by rw [same, read, List.nil_append]⟩
  | cons block blocks ih =>
      intro s idle
      rw [List.forall_mem_cons] at sizes
      obtain ⟨full, handed, isFull, read⟩ := run_handOver idle sizes.1.2
      obtain ⟨next, given, isIdle, same⟩ := run_giveBack isFull sizes.1.1 sizes.1.2
      obtain ⟨actions, t, ran, done, later⟩ := ih sizes.2 isIdle
      refine ⟨_, t, run_append handed (run_append given ran), done, ?_⟩
      rw [later, same, read, List.append_assoc, List.singleton_append, List.cons_append]

/-- Every input, split into blocks in any way, has a run to its end. -/
theorem exists_complete (segment : Segment) {blocks : List (List Byte)}
    (sizes : ∀ block ∈ blocks, 1 ≤ block.length ∧ block.length ≤ 4088) :
    ∃ actions s, run step (start segment) actions = some s ∧ s.reader.pc = .done ∧
      s.blocks = blocks ++ [[]] := by
  have idle : Idle (start segment) := ⟨rfl, rfl, rfl⟩
  obtain ⟨actions, s, ran, done, read⟩ := run_complete sizes idle
  exact ⟨actions, s, ran, done, by rw [read]; rfl⟩

/-- The reader's output is the writer's input, however the two processes take turns, when the
segment has these contents at the start. -/
def Faithful (segment : Segment) (blocks : List (List Byte)) : Prop :=
  ∀ {actions : List Action} {s : System}, run step (start segment) actions = some s →
    s.reader.pc = .done → s.blocks = blocks ++ [[]] → s.stdout = s.stdin

/-- The output is determined by the blocks and the first contents of the segment. -/
theorem faithful_iff_outputs {segment : Segment} {blocks : List (List Byte)}
    (sizes : ∀ block ∈ blocks, 1 ≤ block.length ∧ block.length ≤ 4088) :
    Faithful segment blocks ↔ outputs (segment.bytes.drop 4) blocks = blocks.flatten := by
  have input : ∀ {s : System}, s.blocks = blocks ++ [[]] → s.stdin = blocks.flatten := by
    intro s read
    rw [stdin, read, List.flatten_append]
    exact List.append_nil _
  constructor
  · intro faithful
    obtain ⟨actions, s, ran, done, read⟩ := exists_complete segment sizes
    rw [← stdout_of_done sizes ran done read, ← input read]
    exact faithful ran done read
  · intro same actions s ran done read
    rw [stdout_of_done sizes ran done read, same, input read]

theorem zeros_zeroSegment : ∀ b ∈ zeroSegment.bytes.drop 4, b = 0 :=
  fun _ member => List.eq_of_mem_replicate (List.mem_of_mem_drop member)

/-- **The transfer** of an input in blocks of at most 4088 bytes is faithful exactly when each block
repeats the four bytes that were behind the longest block so far before the transfer. Through a new
segment, this is an input of zeros. -/
theorem transfer_iff {blocks : List (List Byte)}
    (sizes : ∀ block ∈ blocks, 1 ≤ block.length ∧ block.length ≤ 4088) (segment : Segment) :
    (Faithful segment blocks ↔ Continues (segment.bytes.drop 4) 0 blocks) ∧
      ((∀ b ∈ segment.bytes.drop 4, b = 0) →
        (Faithful segment blocks ↔ ∀ b ∈ blocks.flatten, b = 0)) := by
  have length : (segment.bytes.drop 4).length = 4092 := by
    rw [List.length_drop, segment.size_eq]
    rfl
  have repeats : Faithful segment blocks ↔ Continues (segment.bytes.drop 4) 0 blocks := by
    rw [faithful_iff_outputs sizes]
    refine outputs_eq_iff (fun block member => ?_) (continued_start _)
    have fits := (sizes block member).2
    omega
  exact ⟨repeats, fun zeros => repeats.trans (continues_zeros_iff zeros)⟩

/-- The input `abc` in one block, through a new segment. -/
theorem transfer_iff_tiny :
    Faithful zeroSegment [[97, 98, 99]] ↔
      ∀ b ∈ ([[97, 98, 99]] : List (List Byte)).flatten, b = 0 :=
  (@transfer_iff [[97, 98, 99]] (by decide) zeroSegment).2 zeros_zeroSegment

/-- The input `abc` does not come through a new segment. -/
theorem not_faithful : ¬ Faithful zeroSegment [[97, 98, 99]] := by
  rw [faithful_iff_outputs (by decide)]
  decide +kernel

end System

end LinuxExercises.SharedMemory
