import LinuxExercises.SharedMemory.Readers

/-!
# How a transfer ends

Each block that the writer reads costs the processes a bounded number of steps, so they come to a
state in which none of them can go on (`Group.size_step`). If every write of a reader writes all
that it is given, that state is the end: the writer and one reader have ended with success, and the
other readers have found the semaphores removed.

A reader whose write is cut short leaves through its error branch with the segment, and nobody gets
the segment again (`Group.Broken`). A block that fills the writer's part of the segment is longer
than the reader's, so that `write` has to read behind the mapping, which may fail. So a transfer
ends exactly when all writes are whole (`Group.ends_iff`).
-/

set_option autoImplicit false

namespace LinuxExercises.SharedMemory

open Foundations

/-! ## A bound on the steps -/

/-- How many steps the writer makes at most before it needs a block, a semaphore that it raises
counting for those that take it. -/
def WriterPc.rank : WriterPc → Nat
  | .reserve => 1
  | .fill => 0
  | .storeCnt _ => 11
  | .release => 10
  | .test => 4
  | .advance => 2
  | .lastReserve => 3
  | .remove => 2
  | .unlink => 1
  | .done => 0
  | .failed => 0

/-- How many steps a reader makes at most before it needs the semaphore again, and the one in which
it finds that the semaphore is gone. -/
def ReaderPc.rank : ReaderPc → Nat
  | .reserve => 1
  | .take => 5
  | .add => 4
  | .write => 3
  | .release => 2
  | .lastRelease => 1
  | .done => 0
  | .failed => 0

section Ranks

variable {s t : System}

/-- `READ_SEM` counts for the five steps of the reader that takes it. -/
theorem rank_stepWriter (taken : s.stepWriter = some t) :
    t.reader = s.reader ∧
      t.writer.pc.rank + 5 * t.sems.read + 1 ≤ s.writer.pc.rank + 5 * s.sems.read := by
  rw [System.stepWriter] at taken
  cases pc : s.writer.pc <;> rw [pc] at taken
  case reserve | lastReserve =>
    dsimp only at taken
    rw [reserveSem] at taken
    split_ifs at taken
    · cases taken
      refine ⟨rfl, ?_⟩
      simp only [WriterPc.rank]
      omega
    · cases taken
    · cases taken
      refine ⟨rfl, ?_⟩
      simp only [WriterPc.rank]
      omega
  case release =>
    dsimp only at taken
    rw [releaseSem] at taken
    split_ifs at taken
    all_goals
      cases taken
      refine ⟨rfl, ?_⟩
      simp only [WriterPc.rank]
      omega
  case storeCnt m =>
    dsimp only at taken
    split at taken
    · cases taken
      refine ⟨rfl, ?_⟩
      simp only [WriterPc.rank]
      omega
    · cases taken
  case test =>
    dsimp only at taken
    split at taken
    all_goals
      cases taken
      refine ⟨rfl, ?_⟩
      simp only [WriterPc.rank]
      omega
  case advance | remove | unlink =>
    cases taken
    refine ⟨rfl, ?_⟩
    simp only [WriterPc.rank]
    omega
  case fill | done | failed => cases taken

theorem rank_stepReader (taken : s.stepReader = some t) :
    t.writer = s.writer ∧
      t.reader.pc.rank + 5 * t.sems.read + 1 ≤ s.reader.pc.rank + 5 * s.sems.read := by
  rw [System.stepReader] at taken
  cases pc : s.reader.pc <;> rw [pc] at taken
  case reserve =>
    dsimp only at taken
    rw [reserveSem] at taken
    split_ifs at taken
    · cases taken
      refine ⟨rfl, ?_⟩
      simp only [ReaderPc.rank]
      omega
    · cases taken
    · cases taken
      refine ⟨rfl, ?_⟩
      simp only [ReaderPc.rank]
      omega
  case release | lastRelease =>
    dsimp only at taken
    rw [releaseSem] at taken
    split_ifs at taken
    all_goals
      cases taken
      refine ⟨rfl, ?_⟩
      simp only [ReaderPc.rank]
      omega
  case take =>
    cases taken
    refine ⟨rfl, ?_⟩
    dsimp only
    split
    all_goals
      simp only [ReaderPc.rank]
      omega
  case add =>
    cases taken
    refine ⟨rfl, ?_⟩
    simp only [ReaderPc.rank]
    omega
  case write | done | failed => cases taken

theorem rank_stepOutput {count : Nat} {behind : List Byte}
    (taken : s.stepOutput count behind = some t) :
    t.writer = s.writer ∧ t.sems = s.sems ∧ t.reader.pc.rank + 1 ≤ s.reader.pc.rank := by
  rw [System.stepOutput] at taken
  split at taken
  · rename_i pc
    split at taken
    · cases taken
      refine ⟨rfl, rfl, ?_⟩
      rw [pc]
      dsimp only
      split
      all_goals
        simp only [ReaderPc.rank]
        omega
    · cases taken
  · cases taken

end Ranks

namespace Group

variable {n : Nat} {segment : Segment} {g g' : Group n} {i : Fin (n + 1)}

/-- How many steps the processes make at most without another block. -/
def size (g : Group n) : Nat :=
  g.system.writer.pc.rank + 5 * g.system.sems.read + ∑ j, (g.readers j).pc.rank

/-- The writer reads a block. -/
def Action.isInput : Action n → Bool
  | .input _ => true
  | _ => false

theorem size_start (n : Nat) (segment : Segment) : (start n segment).size = n + 2 := by
  simp [size, start, System.start, WriterPc.rank, ReaderPc.rank, Sems.initial]
  omega

/-- The ranks when one reader has moved. -/
theorem sum_rank_moved (g : Group n) (i : Fin (n + 1)) (s : System) :
    (∑ j, ((g.moved i s).readers j).pc.rank) + (g.readers i).pc.rank =
      (∑ j, (g.readers j).pc.rank) + s.reader.pc.rank := by
  have others : ∑ j ∈ Finset.univ.erase i, ((g.moved i s).readers j).pc.rank =
      ∑ j ∈ Finset.univ.erase i, (g.readers j).pc.rank :=
    Finset.sum_congr rfl fun j member => by
      rw [readers_moved_other g s (Finset.ne_of_mem_erase member)]
  rw [← Finset.add_sum_erase _ (fun j => ((g.moved i s).readers j).pc.rank) (Finset.mem_univ i),
    ← Finset.add_sum_erase _ (fun j => (g.readers j).pc.rank) (Finset.mem_univ i), others,
    readers_moved]
  omega

/-- **A step costs something.** Only a block adds to what is left to do. -/
theorem size_step {a : Action n} (taken : g.step a = some g') :
    g'.size + 1 ≤ g.size + if a.isInput then 12 else 0 := by
  cases a with
  | writer =>
      obtain ⟨t, stepped, rfl⟩ := Option.map_eq_some_iff.mp taken
      have less := (rank_stepWriter stepped).2
      simp only [size, Action.isInput]
      omega
  | input block =>
      obtain ⟨t, stepped, rfl⟩ := Option.map_eq_some_iff.mp taken
      rw [System.stepInput] at stepped
      split at stepped
      · rename_i pc
        split at stepped
        · cases stepped
          simp only [size, pc, WriterPc.rank, Action.isInput, if_true]
          omega
        · cases stepped
      · cases stepped
  | reader j =>
      obtain ⟨t, stepped, rfl⟩ := Option.map_eq_some_iff.mp taken
      obtain ⟨writer, less⟩ := rank_stepReader stepped
      have sum := sum_rank_moved g j t
      have before : (g.view j).reader = g.readers j := rfl
      rw [before] at less
      change t.writer = g.system.writer at writer
      change _ ≤ _ + 5 * g.system.sems.read at less
      have same : (g.moved j t).system = t := rfl
      simp only [size, Action.isInput, same, writer]
      omega
  | output j count behind =>
      obtain ⟨t, stepped, rfl⟩ := Option.map_eq_some_iff.mp taken
      obtain ⟨writer, sems, less⟩ := rank_stepOutput stepped
      have sum := sum_rank_moved g j t
      have before : (g.view j).reader = g.readers j := rfl
      rw [before] at less
      change t.writer = g.system.writer at writer
      change t.sems = g.system.sems at sems
      have same : (g.moved j t).system = t := rfl
      simp only [size, Action.isInput, same, writer, sems]
      omega

/-- The run lemma for the bound. -/
theorem length_add_size_le {actions : List (Action n)} (ran : run step g actions = some g') :
    actions.length + g'.size ≤ g.size + 12 * actions.countP Action.isInput := by
  induction actions generalizing g with
  | nil =>
      obtain rfl := Option.some.inj ran
      simp
  | cons a rest ih =>
      obtain ⟨middle, taken, ran⟩ := run_cons_cases ran
      have one := size_step taken
      have later := ih ran
      rw [List.length_cons, List.countP_cons]
      split at one
      · rename_i input
        rw [if_pos input]
        omega
      · rename_i other
        rw [if_neg other]
        omega

end Group

/-! ## The end of a transfer -/

namespace Group

variable {n : Nat} {segment : Segment} {g g' : Group n} {i : Fin (n + 1)}

/-- A write of a reader writes all that it is given. -/
def Whole (g : Group n) : Action n → Prop
  | .output j count _ => count = (g.readers j).writeN.toNat
  | _ => True

instance (g : Group n) : ∀ a, Decidable (g.Whole a)
  | .output j count _ => inferInstanceAs (Decidable (count = (g.readers j).writeN.toNat))
  | .writer => .isTrue trivial
  | .input _ => .isTrue trivial
  | .reader _ => .isTrue trivial

/-- A reader that has failed has found the semaphores removed. -/
def Excused (g : Group n) : Prop :=
  ∀ j, (g.readers j).pc = .failed → g.system.sems.removed = true

/-- Only the reader that has its turn writes. -/
theorem Tracks.turn_of_write {j : Fin (n + 1)} (tracks : Tracks segment g i)
    (pc : (g.readers j).pc = .write) : j = i :=
  tracks.turn (by rw [pc]; simp) (by rw [pc]; simp)

/-- A reader fails at a semaphore only when it is gone. -/
theorem removed_of_failed {s t : System} (taken : s.stepReader = some t)
    (failed : t.reader.pc = .failed) : s.sems.removed = true := by
  rw [System.stepReader] at taken
  cases pc : s.reader.pc <;> rw [pc] at taken
  case reserve =>
    dsimp only at taken
    rw [reserveSem] at taken
    split_ifs at taken with gone
    · exact gone
    · cases taken
    · cases taken
      cases failed
  case release | lastRelease =>
    dsimp only at taken
    rw [releaseSem] at taken
    split_ifs at taken with gone
    · exact gone
    · cases taken
      cases failed
  case take =>
    cases taken
    dsimp only at failed
    split at failed <;> cases failed
  case add =>
    cases taken
    cases failed
  case write | done | failed => cases taken

/-- **The step lemma.** -/
theorem excused_step {a : Action n} (whole : g.Whole a)
    (both : (∃ i, Tracks segment g i) ∧ g.Excused) (taken : g.step a = some g') :
    (∃ i, Tracks segment g' i) ∧ g'.Excused := by
  obtain ⟨tracked, excused⟩ := both
  refine ⟨tracks_step tracked taken, ?_⟩
  cases a with
  | writer =>
      obtain ⟨t, stepped, rfl⟩ := Option.map_eq_some_iff.mp taken
      exact fun j failed => removed_stepWriter stepped (excused j failed)
  | input block =>
      obtain ⟨t, stepped, rfl⟩ := Option.map_eq_some_iff.mp taken
      have sems : t.sems = g.system.sems := (stepInput_setReader g.system.reader stepped).2.2
      intro j failed
      change t.sems.removed = true
      rw [sems]
      exact excused j failed
  | reader j =>
      obtain ⟨t, stepped, rfl⟩ := Option.map_eq_some_iff.mp taken
      intro k failed
      by_cases same : k = j
      · subst same
        rw [readers_moved] at failed
        exact removed_stepReader stepped (removed_of_failed stepped failed)
      · rw [readers_moved_other g t same] at failed
        exact removed_stepReader stepped (excused k failed)
  | output j count behind =>
      obtain ⟨t, stepped, rfl⟩ := Option.map_eq_some_iff.mp taken
      rw [System.stepOutput] at stepped
      split at stepped
      · split at stepped
        · cases stepped
          intro k failed
          by_cases same : k = j
          · subst same
            rw [readers_moved] at failed
            rw [if_pos (show count = (g.view k).reader.writeN.toNat from whole)] at failed
            cases failed
          · rw [readers_moved_other g _ same] at failed
            exact excused k failed
        · cases stepped
      · cases stepped

/-! ## A write that is cut short -/

/-- A reader has failed with the segment. -/
def Broken (segment : Segment) (g : Group n) : Prop :=
  ∃ i, Tracks segment g i ∧ (g.readers i).pc = .failed ∧ g.system.sems.removed = false

theorem broken_of_cut {a : Action n} (tracked : ∃ i, Tracks segment g i) (cut : ¬ g.Whole a)
    (taken : g.step a = some g') : Broken segment g' := by
  obtain ⟨i, tracks⟩ := tracked
  cases a with
  | output j count behind =>
      obtain ⟨t, stepped, rfl⟩ := Option.map_eq_some_iff.mp taken
      have kept := tracks.anyOutput stepped
      rw [System.stepOutput] at stepped
      split at stepped
      · rename_i pc
        have turn := tracks.turn_of_write (show (g.readers j).pc = .write from pc)
        subst turn
        have there : g.system.sems.removed = false :=
          tracks.inv.alive_of_not_done (by
            rw [show (g.fused j).reader.pc = .write from pc]
            simp)
        split at stepped
        · cases stepped
          refine ⟨j, kept, ?_, there⟩
          rw [readers_moved]
          exact if_neg cut
        · cases stepped
      · cases stepped
  | _ => exact absurd trivial cut

/-- A writer that does not have the segment, and cannot get it, does not remove the semaphores. -/
theorem there_of_stepWriter {s t : System} (idle : s.writer.pc.holds = false)
    (there : s.sems.removed = false) (down : s.sems.write = 0) (taken : s.stepWriter = some t) :
    t.sems.removed = false := by
  rw [System.stepWriter] at taken
  cases pc : s.writer.pc <;> rw [pc] at taken idle
  case reserve | lastReserve =>
    dsimp only at taken
    rw [reserveSem, if_neg (by rw [there]; decide), if_pos down] at taken
    cases taken
  case test =>
    dsimp only at taken
    split at taken <;> cases taken <;> exact there
  case advance =>
    cases taken
    exact there
  case failed => cases taken
  case fill | storeCnt | release | remove | unlink | done => cases idle

/-- The reader that has failed has the token, so that nobody but the writer can go on, and the
writer does not come far. -/
theorem broken_step {a : Action n} (broken : Broken segment g) (taken : g.step a = some g') :
    Broken segment g' := by
  obtain ⟨i, tracks, failed, there⟩ := broken
  obtain ⟨down, low, idle⟩ := tracks.inv.of_reader_holds
    (show (g.readers i).pc.holds = true by rw [failed]; rfl)
  cases a with
  | writer =>
      obtain ⟨t, stepped, rfl⟩ := Option.map_eq_some_iff.mp taken
      obtain ⟨moves, same⟩ := stepWriter_setReader (g.fused i).reader stepped
      exact ⟨i, tracks.of_writer (a := .writer) moves same (removed_stepWriter stepped), failed,
        there_of_stepWriter (s := g.system) idle there down stepped⟩
  | input block =>
      obtain ⟨t, stepped, rfl⟩ := Option.map_eq_some_iff.mp taken
      rw [System.stepInput] at stepped
      split at stepped
      · rename_i pc
        rw [show (g.fused i).writer.pc = .fill from pc] at idle
        cases idle
      · cases stepped
  | reader j =>
      obtain ⟨t, stepped, rfl⟩ := Option.map_eq_some_iff.mp taken
      have failedOrWaits : (g.readers j).pc = .failed ∨ (g.readers j).pc = .reserve := by
        by_cases turn : j = i
        · exact .inl (turn ▸ failed)
        · exact (tracks.others j turn).symm.imp_left And.left
      rw [System.stepReader] at stepped
      rcases failedOrWaits with pc | pc
      · rw [show (g.view j).reader.pc = .failed from pc] at stepped
        cases stepped
      · rw [show (g.view j).reader.pc = .reserve from pc] at stepped
        dsimp only at stepped
        have blocked : reserveSem (g.view j).sems .read = .blocks := by
          rw [reserveSem, if_neg (by rw [show (g.view j).sems.removed = false from there]; decide)]
          exact if_pos low
        rw [blocked] at stepped
        cases stepped
  | output j count behind =>
      obtain ⟨t, stepped, rfl⟩ := Option.map_eq_some_iff.mp taken
      rw [System.stepOutput] at stepped
      split at stepped
      · rename_i pc
        have turn := tracks.turn_of_write (show (g.readers j).pc = .write from pc)
        subst turn
        rw [show (g.view j).reader.pc = .failed from failed] at pc
        cases pc
      · cases stepped

/-! ## Processes that cannot go on -/

/-- A writer that cannot go on, even at the end of its input, waits for `WRITE_SEM` or is done. -/
theorem waits_of_stepWriter {s : System} (inv : System.Inv s) (halts : s.stepWriter = none)
    (halts' : s.stepInput [] = none) :
    s.writer.pc = .done ∨ s.writer.pc.holds = false ∧ s.sems.removed = false ∧
      s.sems.write = 0 := by
  have alive := inv.alive
  rw [System.stepWriter] at halts
  cases pc : s.writer.pc <;> rw [pc] at halts alive
  case reserve | lastReserve =>
    dsimp only at halts
    rw [reserveSem, if_neg (by rw [alive]; decide)] at halts
    split_ifs at halts with down
    · exact .inr ⟨rfl, alive, down⟩
    · cases halts
  case fill =>
    obtain ⟨segment, filled⟩ := @Segment.exists_fill s.segment [] (by decide)
    rw [System.stepInput, pc] at halts'
    dsimp only at halts'
    rw [filled] at halts'
    cases halts'
  case storeCnt m =>
    obtain ⟨segment, stored, -, -⟩ := s.segment.storeCnt_spec m
    dsimp only at halts
    rw [stored] at halts
    cases halts
  case release =>
    dsimp only at halts
    rw [releaseSem, if_neg (by rw [alive]; decide)] at halts
    cases halts
  case test =>
    dsimp only at halts
    split at halts <;> cases halts
  case advance | remove | unlink => cases halts
  case done => exact .inl rfl
  case failed =>
    have at_s := inv.writer
    rw [System.WriterAt, pc] at at_s
    exact at_s.elim

/-- A reader that cannot go on. -/
theorem waits_of_stepReader {s : System} (halts : s.stepReader = none) :
    s.reader.pc = .reserve ∧ s.sems.removed = false ∧ s.sems.read = 0 ∨ s.reader.pc = .write ∨
      s.reader.pc = .done ∨ s.reader.pc = .failed := by
  rw [System.stepReader] at halts
  cases pc : s.reader.pc <;> rw [pc] at halts
  case reserve =>
    dsimp only at halts
    rw [reserveSem] at halts
    split_ifs at halts with gone down
    · cases halts
    · exact .inl ⟨rfl, by simpa using gone, down⟩
    · cases halts
  case release | lastRelease =>
    dsimp only at halts
    rw [releaseSem] at halts
    split_ifs at halts
    · cases halts
    · cases halts
  case take | add => cases halts
  case write => exact .inr (.inl rfl)
  case done => exact .inr (.inr (.inl rfl))
  case failed => exact .inr (.inr (.inr rfl))

/-- A reader with a number can write. -/
theorem stepOutput_isSome {s : System} (pc : s.reader.pc = .write) :
    s.stepOutput 0 [] ≠ none := by
  rw [System.stepOutput, pc]
  dsimp only
  rw [if_pos ⟨Nat.zero_le _, by decide⟩]
  simp

/-- The writer and one reader have ended with success, and the others have failed. -/
def Finished (g : Group n) : Prop :=
  g.system.writer.pc = .done ∧
    ∃ i, (g.readers i).pc = .done ∧ ∀ j ≠ i, (g.readers j).pc = .failed

/-- None of the processes can go on. -/
def Stuck (g : Group n) : Prop := ∀ a, g.step a = none

theorem Stuck.writer (stuck : g.Stuck) :
    g.system.stepWriter = none ∧ g.system.stepInput [] = none :=
  ⟨Option.map_eq_none_iff.mp (stuck .writer),
    Option.map_eq_none_iff.mp (stuck (.input []))⟩

theorem Stuck.reader (stuck : g.Stuck) (j : Fin (n + 1)) :
    (g.readers j).pc = .reserve ∧ g.system.sems.removed = false ∧ g.system.sems.read = 0 ∨
      (g.readers j).pc = .done ∨ (g.readers j).pc = .failed := by
  rcases waits_of_stepReader (Option.map_eq_none_iff.mp (stuck (.reader j))) with
    waits | writes | ended
  · exact .inl waits
  · exact absurd (Option.map_eq_none_iff.mp (stuck (.output j 0 []))) (stepOutput_isSome writes)
  · exact .inr ended

/-- The writer of a stuck group, which does not look at the readers. -/
theorem Tracks.writer_of_stuck (tracks : Tracks segment g i) (stuck : g.Stuck) :
    g.system.writer.pc = .done ∨ g.system.writer.pc.holds = false ∧
      g.system.sems.removed = false ∧ g.system.sems.write = 0 := by
  refine @waits_of_stepWriter (g.fused i) tracks.inv ?_ ?_
  · refine Option.eq_none_iff_forall_ne_some.mpr fun t taken => ?_
    have moves : g.system.stepWriter = some { t with reader := g.system.reader } :=
      (stepWriter_setReader g.system.reader taken).1
    rw [stuck.writer.1] at moves
    cases moves
  · refine Option.eq_none_iff_forall_ne_some.mpr fun t taken => ?_
    have moves : g.system.stepInput [] = some { t with reader := g.system.reader } :=
      (stepInput_setReader g.system.reader taken).1
    rw [stuck.writer.2] at moves
    cases moves

/-- When the semaphores are gone and nobody can go on, all have ended. -/
theorem Tracks.finished_of_removed (tracks : Tracks segment g i) (stuck : g.Stuck)
    (gone : g.system.sems.removed = true) : g.Finished := by
  have up : g.system.sems.removed ≠ false := by rw [gone]; simp
  have done : (g.readers i).pc = .done := tracks.inv.done_of_removed gone
  refine ⟨?_, i, done, fun j other => ?_⟩
  · rcases tracks.writer_of_stuck stuck with ended | ⟨-, still, -⟩
    · exact ended
    · exact absurd still up
  · rcases tracks.others j other with waits | ⟨failed, -⟩
    · rcases stuck.reader j with ⟨-, still, -⟩ | ended | failed
      · exact absurd still up
      · rw [waits] at ended
        cases ended
      · exact failed
    · exact failed

/-- **Nobody waits for nothing.** While the semaphores are there, the token is with a process that
can go on, unless a reader has failed with it. -/
theorem Tracks.failed_of_stuck (tracks : Tracks segment g i) (stuck : g.Stuck)
    (there : g.system.sems.removed = false) : (g.readers i).pc = .failed := by
  have inv := tracks.inv
  have alive : g.system.sems.removed = g.system.writer.pc.removed := inv.alive
  have token : g.system.sems.write + g.system.sems.read + g.system.writer.pc.holds.toNat +
      (g.readers i).pc.holds.toNat = 1 := inv.token
  rcases tracks.writer_of_stuck stuck with ended | ⟨idle, -, down⟩
  · rw [ended, there] at alive
    cases alive
  rw [idle, down] at token
  rcases stuck.reader i with ⟨pc, -, low⟩ | done | failed
  · rw [pc, low] at token
    cases token
  · -- A reader that is done has given the segment back, and another count is up.
    rw [done] at token
    have up : 0 < g.system.sems.read := by
      simp only [ReaderPc.holds, Bool.toNat_false] at token
      omega
    rw [tracks.waits up] at done
    cases done
  · exact failed

/-- **Main.** Beside any number of readers each block costs at most 12 steps, so the processes come
to a state in which none of them can go on. In that state the transfer has come to its end exactly
when every write of a reader has written all that it was given. -/
theorem ends_iff {actions : List (Action n)}
    (ran : run step (start n segment) actions = some g) :
    actions.length ≤ 12 * actions.countP Action.isInput + (n + 2) ∧
      (g.Stuck → (g.Finished ↔ Along step Whole (start n segment) actions)) := by
  have tracked : ∃ i, Tracks segment (start n segment) i := ⟨0, tracks_start segment⟩
  refine ⟨?_, fun stuck => ⟨fun finished => ?_, fun whole => ?_⟩⟩
  · have bound := length_add_size_le ran
    rw [size_start] at bound
    omega
  · obtain ⟨-, j, done, -⟩ := finished
    refine (along_or_of_run tracks_step broken_of_cut broken_step tracked ran).resolve_right ?_
    rintro ⟨i, tracks, failed, -⟩
    have turn := tracks.turn (j := j) (by rw [done]; simp) (by rw [done]; simp)
    rw [← turn, done] at failed
    cases failed
  · obtain ⟨⟨i, tracks⟩, excused⟩ := run_invariant_along excused_step whole
      (⟨tracked, nofun⟩ :
        (∃ i, Tracks segment (start n segment) i) ∧ (start n segment).Excused) ran
    cases there : g.system.sems.removed with
    | true => exact tracks.finished_of_removed stuck there
    | false =>
        have gone := excused i (tracks.failed_of_stuck stuck there)
        rw [there] at gone
        cases gone

/-- The transfer of a byte to one of two readers. The other comes too late. -/
def oneByte (early late : Fin 2) : List (Action 1) :=
  [.writer, .input [7], .writer, .writer, .reader early, .reader early, .reader early,
    .output early 1 [], .reader early, .writer, .writer, .writer, .input [], .writer, .writer,
    .reader late, .reader late, .reader late, .writer, .writer, .writer, .writer, .reader early]

theorem ends_iff_oneByte :
    ∃ g, run step (start 1 System.zeroSegment) (oneByte 0 1) = some g ∧ g.Stuck ∧
      (g.Finished ↔ Along step Whole (start 1 System.zeroSegment) (oneByte 0 1)) := by
  have reads : (run step (start 1 System.zeroSegment) (oneByte 0 1)).map
      (fun g => (g.system.writer.pc, (g.readers 0).pc, (g.readers 1).pc)) =
        some (.done, .failed, .done) := by decide +kernel
  obtain ⟨g, ran, places⟩ := Option.map_eq_some_iff.mp reads
  simp only [Prod.mk.injEq] at places
  obtain ⟨writer, first, second⟩ := places
  have ended : ∀ j : Fin 2, (g.readers j).pc = .done ∨ (g.readers j).pc = .failed := by
    intro j
    match j with
    | 0 => exact .inr first
    | 1 => exact .inl second
  have stuck : g.Stuck := by
    intro a
    cases a with
    | writer => rw [step, System.stepWriter, writer]; rfl
    | input block => rw [step, System.stepInput, writer]; rfl
    | reader j =>
        rcases ended j with pc | pc
        all_goals
          rw [step, System.stepReader, show (g.view j).reader.pc = _ from pc]
          rfl
    | output j count behind =>
        rcases ended j with pc | pc
        all_goals
          rw [step, System.stepOutput, show (g.view j).reader.pc = _ from pc]
          rfl
  exact ⟨g, ran, stuck, (ends_iff ran).2 stuck⟩

end Group

end LinuxExercises.SharedMemory
