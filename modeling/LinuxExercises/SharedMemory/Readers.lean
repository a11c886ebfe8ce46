import Mathlib.Algebra.BigOperators.Fin
import Mathlib.Data.BitVec
import LinuxExercises.SharedMemory.Transfer

/-!
# Several readers

Nothing keeps a user from starting the reader more than once. The semaphores let one reader at a
time into the segment, and what a reader leaves behind when it waits for `READ_SEM` again is only
its two totals. So the readers together do what a single one can do: it is wherever the reader is
that has taken its turn last, its totals are the sums of theirs, and it writes what they write
(`Tracks`).

Whatever has been shown of the two processes therefore holds of the writer and the readers. In
particular no count is taken twice and none is left out, exactly one of them gets the 0 that
ends the transfer and ends with success, and the others find the semaphores removed and fail
(`joint_of_run`).
-/

set_option autoImplicit false

namespace LinuxExercises.SharedMemory

open Foundations

/-! ## The writer and `n + 1` readers -/

/-- The readers, and what they share with the writer. The field `reader` of the system is that of
the reader that has moved last; no step reads it. -/
structure Group (n : Nat) where
  system : System
  readers : Fin (n + 1) → Reader

/-- The number that was taken last. -/
def lastTaken (s : System) : CInt := s.taken.getLast?.getD 0

/-- A reader has its number, or is about to take one. -/
def Current (r : Reader) (last : CInt) : Prop :=
  r.pc = .reserve ∨ r.pc = .take ∨ r.writeN = last

theorem Current.writeN {r : Reader} {last : CInt} (current : Current r last)
    (past : r.pc ≠ .reserve) (behind : r.pc ≠ .take) : r.writeN = last := by
  rcases current with pc | pc | same
  · exact absurd pc past
  · exact absurd pc behind
  · exact same

namespace Group

variable {n : Nat}

/-- All are at the beginning of their loops. -/
def start (n : Nat) (segment : Segment) : Group n where
  system := .start segment
  readers := fun _ => ⟨.reserve, 0, 0, 0⟩

/-- The system as one of the readers sees it. -/
def view (g : Group n) (i : Fin (n + 1)) : System := { g.system with reader := g.readers i }

/-- A reader has moved. -/
def moved (g : Group n) (i : Fin (n + 1)) (s : System) : Group n where
  system := s
  readers := Function.update g.readers i s.reader

@[simp] theorem readers_moved (g : Group n) (i : Fin (n + 1)) (s : System) :
    (g.moved i s).readers i = s.reader := Function.update_self ..

@[simp] theorem readers_moved_other (g : Group n) {i j : Fin (n + 1)} (s : System)
    (other : j ≠ i) : (g.moved i s).readers j = g.readers j := Function.update_of_ne other ..

/-- A step of one of the processes. -/
inductive Action (n : Nat) where
  | writer
  | input (block : List Byte)
  | reader (i : Fin (n + 1))
  | output (i : Fin (n + 1)) (count : Nat) (behind : List Byte)

def step (g : Group n) : Action n → Option (Group n)
  | .writer => g.system.stepWriter.map fun s => { g with system := s }
  | .input block => (g.system.stepInput block).map fun s => { g with system := s }
  | .reader i => (g.view i).stepReader.map (g.moved i)
  | .output i count behind => ((g.view i).stepOutput count behind).map (g.moved i)

/-! ## One reader instead of all -/

/-- The readers as one, which is where reader `i` is. -/
def fused (g : Group n) (i : Fin (n + 1)) : System :=
  { g.system with
    reader := {
      pc := (g.readers i).pc
      writeN := lastTaken g.system
      xfrs := ∑ j, (g.readers j).xfrs
      bytes := ∑ j, (g.readers j).bytes } }

end Group

/-! ## The steps of the one reader -/

section Steps

variable {s t : System}

/-- The writer does not look at the reader. -/
theorem stepWriter_setReader (r : Reader) (taken : s.stepWriter = some t) :
    ({ s with reader := r } : System).stepWriter = some { t with reader := r } ∧
      t.taken = s.taken := by
  cases pc : s.writer.pc with
  | reserve =>
      rw [System.stepWriter, pc] at taken ⊢
      cases outcome : reserveSem s.sems .write <;> rw [outcome] at taken <;> cases taken
      all_goals exact ⟨rfl, rfl⟩
  | release =>
      rw [System.stepWriter, pc] at taken ⊢
      cases outcome : releaseSem s.sems .read <;> rw [outcome] at taken <;> cases taken
      all_goals exact ⟨rfl, rfl⟩
  | lastReserve =>
      rw [System.stepWriter, pc] at taken ⊢
      cases outcome : reserveSem s.sems .write <;> rw [outcome] at taken <;> cases taken
      all_goals exact ⟨rfl, rfl⟩
  | storeCnt m =>
      rw [System.stepWriter, pc] at taken ⊢
      dsimp only at taken ⊢
      split at taken
      · cases taken
        exact ⟨rfl, rfl⟩
      · cases taken
  | test =>
      rw [System.stepWriter, pc] at taken ⊢
      dsimp only at taken ⊢
      split at taken
      · rename_i zero
        cases taken
        exact ⟨if_pos zero, rfl⟩
      · rename_i more
        cases taken
        exact ⟨if_neg more, rfl⟩
  | advance =>
      rw [System.stepWriter, pc] at taken ⊢
      cases taken
      exact ⟨rfl, rfl⟩
  | remove =>
      rw [System.stepWriter, pc] at taken ⊢
      cases taken
      exact ⟨rfl, rfl⟩
  | unlink =>
      rw [System.stepWriter, pc] at taken ⊢
      cases taken
      exact ⟨rfl, rfl⟩
  | fill =>
      rw [System.stepWriter, pc] at taken
      cases taken
  | done =>
      rw [System.stepWriter, pc] at taken
      cases taken
  | failed =>
      rw [System.stepWriter, pc] at taken
      cases taken

theorem reserveSem_removed {sems : Sems} (removed : sems.removed = true) (num : SemNum) :
    reserveSem sems num = .fails := if_pos removed

theorem releaseSem_removed {sems : Sems} (removed : sems.removed = true) (num : SemNum) :
    releaseSem sems num = .fails := if_pos removed

/-- Semaphores that have been removed stay so. -/
theorem removed_stepWriter (taken : s.stepWriter = some t) (removed : s.sems.removed = true) :
    t.sems.removed = true := by
  unfold System.stepWriter at taken
  rw [reserveSem_removed removed, releaseSem_removed removed] at taken
  split at taken
  case h_3 | h_5 =>
    split at taken <;> cases taken <;> exact removed
  all_goals cases taken
  all_goals first
    | exact removed
    | rfl

theorem removed_stepReader (taken : s.stepReader = some t) (removed : s.sems.removed = true) :
    t.sems.removed = true := by
  unfold System.stepReader at taken
  rw [reserveSem_removed removed, releaseSem_removed removed] at taken
  split at taken <;> cases taken <;> exact removed

theorem stepInput_setReader {block : List Byte} (r : Reader) (taken : s.stepInput block = some t) :
    ({ s with reader := r } : System).stepInput block = some { t with reader := r } ∧
      t.taken = s.taken ∧ t.sems = s.sems := by
  unfold System.stepInput at taken
  split at taken
  · rename_i pc
    split at taken
    · rename_i filled
      cases taken
      refine ⟨?_, rfl, rfl⟩
      rw [System.stepInput, pc]
      dsimp only
      rw [filled]
    · cases taken
  · cases taken

/-- A reader that counts from other totals. -/
theorem reader_eq {single : Reader} {last x b xfrs bytes : CInt} (same : single.writeN = last)
    (pc : ReaderPc) (more : x = single.xfrs + xfrs) (longer : b = single.bytes + bytes) :
    (⟨pc, single.writeN, x, b⟩ : Reader) =
      ⟨pc, last, single.xfrs + xfrs, single.bytes + bytes⟩ := by
  rw [same, more, longer]

/-- **The readers' totals do not decide what they do.** A reader that is where another one is does
the same, and adds the same to its totals. -/
theorem stepReader_setReader {single : Reader} (taken : s.stepReader = some t)
    (alive : s.reader.pc = .reserve → s.sems.removed = false)
    (current : Current s.reader (lastTaken s)) (same : single.pc = s.reader.pc)
    (last : single.writeN = lastTaken s) :
    Current t.reader (lastTaken t) ∧ ∃ xfrs bytes, t.reader.xfrs = s.reader.xfrs + xfrs ∧
      t.reader.bytes = s.reader.bytes + bytes ∧
      ({ s with reader := single } : System).stepReader = some { t with
        reader := ⟨t.reader.pc, lastTaken t, single.xfrs + xfrs, single.bytes + bytes⟩ } := by
  cases pc : s.reader.pc with
  | reserve =>
      rw [System.stepReader, pc] at taken
      rw [System.stepReader, same, pc]
      cases outcome : reserveSem s.sems .read with
      | blocks =>
          rw [outcome] at taken
          cases taken
      | fails =>
          rw [reserveSem, if_neg (by rw [alive pc]; decide)] at outcome
          split at outcome <;> cases outcome
      | done sems =>
          rw [outcome] at taken
          cases taken
          refine ⟨.inr (.inl rfl), 0, 0, (add_zero _).symm, (add_zero _).symm, ?_⟩
          exact congrArg (fun r => some ({ s with sems := sems, reader := r } : System))
            (reader_eq last .take (add_zero _).symm (add_zero _).symm)
  | take =>
      rw [System.stepReader, pc] at taken
      rw [System.stepReader, same, pc]
      cases taken
      have new : ((s.taken ++ [s.segment.wideCnt.setWidth 32]).getLast?.getD 0 : CInt) =
          s.segment.wideCnt.setWidth 32 := by
        rw [List.getLast?_concat, Option.getD_some]
      refine ⟨.inr (.inr new.symm), 0, 0, (add_zero _).symm, (add_zero _).symm, ?_⟩
      dsimp only
      rw [lastTaken, new, add_zero, add_zero]
  | add =>
      rw [System.stepReader, pc] at taken
      rw [System.stepReader, same, pc]
      cases taken
      have writeN : s.reader.writeN = lastTaken s := current.writeN (by simp [pc]) (by simp [pc])
      refine ⟨.inr (.inr writeN), 0, s.segment.cnt, (add_zero _).symm,
        Segment.add_wideCnt .., ?_⟩
      exact congrArg (fun r => some ({ s with reader := r } : System))
        (reader_eq last .write (add_zero _).symm (Segment.add_wideCnt ..))
  | release =>
      rw [System.stepReader, pc] at taken
      rw [System.stepReader, same, pc]
      have writeN : s.reader.writeN = lastTaken s := current.writeN (by simp [pc]) (by simp [pc])
      cases outcome : releaseSem s.sems .write with
      | blocks =>
          rw [outcome] at taken
          cases taken
      | fails =>
          rw [outcome] at taken
          cases taken
          refine ⟨.inr (.inr writeN), 0, 0, (add_zero _).symm, (add_zero _).symm, ?_⟩
          exact congrArg (fun r => some ({ s with reader := r } : System))
            (reader_eq last .failed (add_zero _).symm (add_zero _).symm)
      | done sems =>
          rw [outcome] at taken
          cases taken
          refine ⟨.inl rfl, 1, 0, rfl, (add_zero _).symm, ?_⟩
          exact congrArg (fun r => some ({ s with sems := sems, reader := r } : System))
            (reader_eq last .reserve rfl (add_zero _).symm)
  | lastRelease =>
      rw [System.stepReader, pc] at taken
      rw [System.stepReader, same, pc]
      have writeN : s.reader.writeN = lastTaken s := current.writeN (by simp [pc]) (by simp [pc])
      cases outcome : releaseSem s.sems .write with
      | blocks =>
          rw [outcome] at taken
          cases taken
      | fails =>
          rw [outcome] at taken
          cases taken
          refine ⟨.inr (.inr writeN), 0, 0, (add_zero _).symm, (add_zero _).symm, ?_⟩
          exact congrArg (fun r => some ({ s with reader := r } : System))
            (reader_eq last .failed (add_zero _).symm (add_zero _).symm)
      | done sems =>
          rw [outcome] at taken
          cases taken
          refine ⟨.inr (.inr writeN), 0, 0, (add_zero _).symm, (add_zero _).symm, ?_⟩
          exact congrArg (fun r => some ({ s with sems := sems, reader := r } : System))
            (reader_eq last .done (add_zero _).symm (add_zero _).symm)
  | write =>
      rw [System.stepReader, pc] at taken
      cases taken
  | done =>
      rw [System.stepReader, pc] at taken
      cases taken
  | failed =>
      rw [System.stepReader, pc] at taken
      cases taken

end Steps

namespace Group

variable {n : Nat} {segment : Segment} {g : Group n} {i : Fin (n + 1)}

/-- The readers are where a single reader can be that is where reader `i` is. The others wait for
`READ_SEM`, or have found that it is gone. -/
structure Tracks (segment : Segment) (g : Group n) (i : Fin (n + 1)) : Prop where
  reach : ∃ actions, run System.step (.start segment) actions = some (g.fused i)
  current : Current (g.readers i) (lastTaken g.system)
  others : ∀ j ≠ i, (g.readers j).pc = .reserve ∨
    ((g.readers j).pc = .failed ∧ g.system.sems.removed = true)

theorem Tracks.inv (tracks : Tracks segment g i) : System.Inv (g.fused i) := by
  obtain ⟨actions, ran⟩ := tracks.reach
  exact System.inv_run ran

/-- One more step of the single reader. -/
theorem reach_step {s t : System} {a : System.Action}
    (reach : ∃ actions, run System.step (.start segment) actions = some s)
    (taken : s.step a = some t) :
    ∃ actions, run System.step (.start segment) actions = some t := by
  obtain ⟨actions, ran⟩ := reach
  exact ⟨actions ++ [a], run_append ran (run_step taken rfl)⟩

theorem tracks_start (segment : Segment) : Tracks segment (start n segment) 0 where
  reach := by
    refine ⟨[], congrArg some ?_⟩
    simp [fused, start, System.start, lastTaken]
  current := .inl rfl
  others := fun _ _ => .inl rfl

/-- Where the readers are does not change in a step of the writer. -/
theorem Tracks.of_writer {t : System} {a : System.Action} (tracks : Tracks segment g i)
    (moves : (g.fused i).step a = some { t with reader := (g.fused i).reader })
    (same : t.taken = g.system.taken)
    (removed : g.system.sems.removed = true → t.sems.removed = true) :
    Tracks segment { g with system := t } i where
  reach := by
    have fused : ({ g with system := t } : Group n).fused i =
        { t with reader := (g.fused i).reader } := by
      rw [Group.fused, Group.fused, lastTaken, lastTaken, same]
    rw [fused]
    exact reach_step tracks.reach moves
  current := by
    rw [lastTaken, same]
    exact tracks.current
  others := by
    intro j other
    rcases tracks.others j other with waits | ⟨failed, gone⟩
    · exact .inl waits
    · exact .inr ⟨failed, removed gone⟩

/-- The sums when one reader has counted more. -/
theorem sum_update (f : Reader → CInt) {r : Reader} {more : CInt}
    (grows : f r = f (g.readers i) + more) :
    ∑ j, f (Function.update g.readers i r j) = (∑ j, f (g.readers j)) + more := by
  have others : ∑ j ∈ Finset.univ.erase i, f (Function.update g.readers i r j) =
      ∑ j ∈ Finset.univ.erase i, f (g.readers j) :=
    Finset.sum_congr rfl fun j member => by
      rw [Function.update_of_ne (Finset.ne_of_mem_erase member)]
  rw [← Finset.add_sum_erase _ _ (Finset.mem_univ i), Function.update_self, others, grows,
    ← Finset.add_sum_erase Finset.univ (fun j => f (g.readers j)) (Finset.mem_univ i),
    add_right_comm]

theorem fused_moved {t : System} {xfrs bytes : CInt}
    (xfrs_eq : t.reader.xfrs = (g.readers i).xfrs + xfrs)
    (bytes_eq : t.reader.bytes = (g.readers i).bytes + bytes) :
    (g.moved i t).fused i = { t with
      reader := ⟨t.reader.pc, lastTaken t, (g.fused i).reader.xfrs + xfrs,
        (g.fused i).reader.bytes + bytes⟩ } := by
  rw [fused, readers_moved]
  exact congrArg₂ (fun x b => ({ t with reader := ⟨t.reader.pc, lastTaken t, x, b⟩ } : System))
    (sum_update Reader.xfrs xfrs_eq) (sum_update Reader.bytes bytes_eq)

/-- The others do not move. -/
theorem Tracks.others_moved {t : System} (tracks : Tracks segment g i)
    (removed : g.system.sems.removed = true → t.sems.removed = true) :
    ∀ j ≠ i, ((g.moved i t).readers j).pc = .reserve ∨
      (((g.moved i t).readers j).pc = .failed ∧ (g.moved i t).system.sems.removed = true) := by
  intro j other
  rw [readers_moved_other g t other]
  rcases tracks.others j other with waits | ⟨failed, gone⟩
  · exact .inl waits
  · exact .inr ⟨failed, removed gone⟩

/-- A step of the reader whose turn it is is a step of the single one. -/
theorem Tracks.reader {t : System} (tracks : Tracks segment g i)
    (taken : (g.view i).stepReader = some t) : Tracks segment (g.moved i t) i := by
  have alive : (g.readers i).pc = .reserve → g.system.sems.removed = false := fun pc =>
    tracks.inv.alive_of_not_done (by rw [fused, pc]; simp)
  obtain ⟨current, xfrs, bytes, xfrs_eq, bytes_eq, moves⟩ :=
    @stepReader_setReader _ _ (g.fused i).reader taken alive tracks.current rfl rfl
  refine ⟨?_, ?_, tracks.others_moved fun gone => removed_stepReader taken gone⟩
  · rw [fused_moved xfrs_eq bytes_eq]
    exact reach_step (a := .reader) tracks.reach moves
  · rw [readers_moved]
    exact current

theorem Tracks.output {t : System} {count : Nat} {behind : List Byte} (tracks : Tracks segment g i)
    (taken : (g.view i).stepOutput count behind = some t) : Tracks segment (g.moved i t) i := by
  unfold System.stepOutput at taken
  split at taken
  · rename_i pc
    have writeN : (g.readers i).writeN = lastTaken g.system :=
      tracks.current.writeN (by rw [show (g.readers i).pc = .write from pc]; simp)
        (by rw [show (g.readers i).pc = .write from pc]; simp)
    split at taken
    · rename_i fits
      cases taken
      refine ⟨?_, ?_, tracks.others_moved id⟩
      · rw [@fused_moved _ _ _ _ 0 0 (add_zero _).symm (add_zero _).symm]
        refine reach_step (a := .output count behind) tracks.reach ?_
        have single : (g.fused i).reader.pc = .write := pc
        have fits : count ≤ (g.fused i).reader.writeN.toNat ∧
            8 + count ≤ SHM_SIZE + behind.length := by
          change count ≤ (g.readers i).writeN.toNat ∧ _ at fits
          rwa [writeN] at fits
        rw [System.step, System.stepOutput, single]
        dsimp only
        rw [if_pos fits, add_zero, add_zero]
        change some _ = some ({ g.system with
          stdout := _
          reader := ⟨if count = (g.readers i).writeN.toNat then .release else .failed, _, _, _⟩ } :
            System)
        rw [writeN]
        rfl
      · rw [readers_moved]
        exact .inr (.inr writeN)
    · cases taken
  · cases taken

/-- The turn passes from one waiting reader to another. -/
theorem Tracks.switch {j : Fin (n + 1)} (tracks : Tracks segment g i)
    (here : (g.readers i).pc = .reserve) (there : (g.readers j).pc = .reserve) :
    Tracks segment g j where
  reach := by
    have same : g.fused j = g.fused i := by rw [fused, fused, here, there]
    rw [same]
    exact tracks.reach
  current := .inl there
  others := by
    intro k _
    by_cases isI : k = i
    · exact .inl (isI ▸ here)
    · exact tracks.others k isI

/-- While `READ_SEM` is up no reader has its turn. -/
theorem Tracks.waits (tracks : Tracks segment g i) (up : 0 < g.system.sems.read) :
    (g.readers i).pc = .reserve := by
  have inv := tracks.inv
  have token := inv.token
  have one : (g.fused i).sems.read = 1 := by
    change g.system.sems.write + g.system.sems.read + _ + _ = 1 at token
    exact Nat.le_antisymm (by change g.system.sems.read ≤ 1; omega) up
  have idle : (g.readers i).pc.holds.toNat = 0 := by
    change g.system.sems.write + g.system.sems.read + _ + (g.readers i).pc.holds.toNat = 1 at token
    omega
  cases pc : (g.readers i).pc with
  | reserve => rfl
  | done =>
      -- A reader that is done has taken all that was stored, and another count is up.
      have all := inv.taken_eq_stored (show (g.fused i).reader.pc = .done from pc)
      have more := inv.stored_of_untaken (.inl one)
      rw [all] at more
      exact absurd more (by simp)
  | _ =>
      rw [pc] at idle
      cases idle

/-- A reader finds that the semaphores are gone. -/
theorem Tracks.fails {j : Fin (n + 1)} {t : System} (tracks : Tracks segment g i) (other : j ≠ i)
    (gone : g.system.sems.removed = true)
    (same : t = { g.view j with reader.pc := .failed }) : Tracks segment (g.moved j t) i := by
  subst same
  have xfrs := @sum_update _ g j Reader.xfrs { g.readers j with pc := .failed } 0 (add_zero _).symm
  have bytes := @sum_update _ g j Reader.bytes { g.readers j with pc := .failed } 0
    (add_zero _).symm
  rw [add_zero] at xfrs bytes
  refine ⟨?_, ?_, ?_⟩
  · have fused : (g.moved j { g.view j with reader.pc := .failed }).fused i = g.fused i := by
      rw [Group.fused, readers_moved_other _ _ other.symm]
      exact congrArg₂ (fun x b => ({ g.system with
        reader := ⟨(g.readers i).pc, lastTaken g.system, x, b⟩ } : System)) xfrs bytes
    rw [fused]
    exact tracks.reach
  · rw [readers_moved_other _ _ other.symm]
    exact tracks.current
  · intro k notI
    by_cases isJ : k = j
    · subst isJ
      rw [readers_moved]
      exact .inr ⟨rfl, gone⟩
    · rw [readers_moved_other _ _ isJ]
      exact tracks.others k notI

/-- **A step of any reader.** -/
theorem Tracks.anyReader {j : Fin (n + 1)} {t : System} (tracks : Tracks segment g i)
    (taken : (g.view j).stepReader = some t) : ∃ k, Tracks segment (g.moved j t) k := by
  by_cases turn : j = i
  · exact ⟨i, turn ▸ tracks.reader (turn ▸ taken)⟩
  rcases tracks.others j turn with waits | ⟨failed, -⟩
  · cases gone : g.system.sems.removed with
    | true =>
        refine ⟨i, tracks.fails turn gone ?_⟩
        rw [System.stepReader, show (g.view j).reader.pc = .reserve from waits] at taken
        dsimp only at taken
        rw [reserveSem_removed (show (g.view j).sems.removed = true from gone)] at taken
        exact (Option.some.inj taken).symm
    | false =>
        have reserves := taken
        rw [System.stepReader, show (g.view j).reader.pc = .reserve from waits] at reserves
        have up := (reserve_read (show (g.view j).sems.removed = false from gone) reserves).1
        exact ⟨j, (tracks.switch (tracks.waits up) waits).reader taken⟩
  · rw [System.stepReader, show (g.view j).reader.pc = .failed from failed] at taken
    cases taken

theorem Tracks.anyOutput {j : Fin (n + 1)} {count : Nat} {behind : List Byte} {t : System}
    (tracks : Tracks segment g i) (taken : (g.view j).stepOutput count behind = some t) :
    Tracks segment (g.moved j t) i := by
  have turn : j = i := by
    by_contra turn
    have notWriting : (g.view j).reader.pc ≠ .write := by
      change (g.readers j).pc ≠ .write
      rcases tracks.others j turn with waits | ⟨failed, -⟩
      · rw [waits]
        simp
      · rw [failed]
        simp
    unfold System.stepOutput at taken
    split at taken
    · rename_i pc
      exact notWriting pc
    · cases taken
  exact turn ▸ tracks.output (turn ▸ taken)

/-- **The step lemma.** -/
theorem tracks_step {g' : Group n} {a : Action n} (tracks : ∃ i, Tracks segment g i)
    (taken : g.step a = some g') : ∃ i, Tracks segment g' i := by
  obtain ⟨i, tracks⟩ := tracks
  cases a with
  | writer =>
      obtain ⟨t, stepped, rfl⟩ := Option.map_eq_some_iff.mp taken
      obtain ⟨moves, same⟩ := stepWriter_setReader (g.fused i).reader stepped
      exact ⟨i, tracks.of_writer (a := .writer) moves same (removed_stepWriter stepped)⟩
  | input block =>
      obtain ⟨t, stepped, rfl⟩ := Option.map_eq_some_iff.mp taken
      obtain ⟨moves, same, sems⟩ := stepInput_setReader (g.fused i).reader stepped
      exact ⟨i, tracks.of_writer (a := .input block) moves same fun gone => by rw [sems, gone]⟩
  | reader j =>
      obtain ⟨t, stepped, rfl⟩ := Option.map_eq_some_iff.mp taken
      exact tracks.anyReader stepped
  | output j count behind =>
      obtain ⟨t, stepped, rfl⟩ := Option.map_eq_some_iff.mp taken
      exact ⟨i, tracks.anyOutput stepped⟩

/-- A reader is between its reserve of `READ_SEM` and its release of `WRITE_SEM`. -/
def Inside (g : Group n) (i : Fin (n + 1)) : Prop := (g.view i).ReaderInside

/-- What the readers and the writer guarantee together. -/
structure Joint (segment : Segment) (g : Group n) : Prop where
  refines : ∃ i actions, run System.step (.start segment) actions = some (g.fused i)
  alone : ∀ i j, g.Inside i → g.Inside j → i = j
  exclusive : g.system.WriterStores → ∀ i, ¬ g.Inside i
  inOrder : g.system.taken <+: g.system.stored
  noneSkipped : g.system.stored.length ≤ g.system.taken.length + 1
  complete : ∀ i, (g.readers i).pc = .done → g.system.taken = g.system.stored
  oneEnds : ∀ i j, (g.readers i).pc = .done → (g.readers j).pc = .done → i = j
  removedLast : g.system.sems.removed = true → ∃ i, (g.readers i).pc = .done
  totals : ∀ i, g.system.writer.pc = .done → (g.readers i).pc = .done →
    g.system.writer.bytes = ∑ j, (g.readers j).bytes ∧
      g.system.writer.xfrs = ∑ j, (g.readers j).xfrs

theorem Tracks.turn {j : Fin (n + 1)} (tracks : Tracks segment g i)
    (busy : (g.readers j).pc ≠ .reserve) (well : (g.readers j).pc ≠ .failed) : j = i := by
  by_contra other
  rcases tracks.others j other with waits | ⟨failed, -⟩
  · exact busy waits
  · exact well failed

theorem Inside.busy {j : Fin (n + 1)} (inside : g.Inside j) :
    (g.readers j).pc ≠ .reserve ∧ (g.readers j).pc ≠ .failed := by
  rcases inside with pc | pc | pc | pc | pc
  all_goals
    rw [show (g.readers j).pc = _ from pc]
    simp

theorem Tracks.joint (tracks : Tracks segment g i) : Joint segment g := by
  have handshake := tracks.inv.handshake
  have turn : ∀ {j}, g.Inside j → j = i := fun inside =>
    tracks.turn inside.busy.1 inside.busy.2
  have ended : ∀ {j}, (g.readers j).pc = .done → j = i := fun pc =>
    tracks.turn (by rw [pc]; simp) (by rw [pc]; simp)
  refine ⟨⟨i, tracks.reach⟩, ?_, ?_, handshake.inOrder, handshake.noneSkipped, ?_, ?_, ?_, ?_⟩
  · exact fun j k one two => (turn one).trans (turn two).symm
  · intro stores j inside
    exact handshake.exclusive stores (turn inside ▸ inside)
  · intro j pc
    exact handshake.complete (show (g.readers i).pc = .done from ended pc ▸ pc)
  · exact fun j k one two => (ended one).trans (ended two).symm
  · exact fun gone => ⟨i, handshake.removedLast gone⟩
  · intro j writer pc
    exact handshake.totals writer (show (g.readers i).pc = .done from ended pc ▸ pc)

/-- **Any number of readers.** In every state that the writer and the readers reach, what they
share is as a single reader can leave it. No two readers have the segment, and none while the writer
stores; every count is taken once and in the order they were stored; one reader gets the 0 and
ends, and the totals of all of them are then those of the writer. -/
theorem joint_of_run {actions : List (Action n)}
    (ran : run step (start n segment) actions = some g) : Joint segment g := by
  obtain ⟨i, tracks⟩ := run_invariant tracks_step
    (⟨0, tracks_start segment⟩ : ∃ i, Tracks segment (start n segment) i) ran
  exact tracks.joint

/-- Two readers take a byte each. -/
def twoBytes : List (Action 1) :=
  [.writer, .input [7], .writer, .writer, .reader 0, .reader 0, .reader 0, .output 0 1 [],
    .reader 0, .writer, .writer, .writer, .input [8], .writer, .writer, .reader 1, .reader 1,
    .reader 1, .output 1 1 [], .reader 1]

theorem joint_of_run_two :
    ∃ g, run step (start 1 System.zeroSegment) twoBytes = some g ∧
      (g.readers 0).bytes = 1 ∧ (g.readers 1).bytes = 1 ∧ Joint System.zeroSegment g := by
  have reads : (run step (start 1 System.zeroSegment) twoBytes).map
      (fun g => ((g.readers 0).bytes, (g.readers 1).bytes)) = some (1, 1) := by decide +kernel
  obtain ⟨g, ran, totals⟩ := Option.map_eq_some_iff.mp reads
  obtain ⟨first, second⟩ := Prod.mk.inj totals
  exact ⟨g, ran, first, second, joint_of_run ran⟩

end Group

end LinuxExercises.SharedMemory
