import Mathlib.Algebra.GroupWithZero.Nat
import LinuxExercises.Foundations.Buffer

/-!
# Writing the input twice

`tee` reads blocks and writes each of them to the standard output and to a file. Of these
writes it looks at one value only: that the write to the file has not failed. A write that
stores only part of a block, and a failing write to the standard output, lose bytes without a
trace.

The file is closed twice. The second `close` finds a closed descriptor and fails, so the
program exits with failure in every run (`exit_failure`). Its status therefore tells the truth
exactly in the runs in which a byte is lost (`tells_iff`).
-/

set_option autoImplicit false

namespace LinuxExercises.FileTools.Tee

open Foundations

/-- Size of the buffer. -/
abbrev SIZE : Nat := 100

/-- The flags that the file is opened with: `O_TRUNC`, or `O_APPEND` with the option `-a`. -/
inductive Mode where
  | overwrite
  | append
deriving Repr, DecidableEq

/-- What `read` and the two calls of `write` return in a round of the loop. A call that fails
returns -1. -/
structure Round where
  rn : Option Nat
  toStdout : Option Nat
  toFile : Option Nat
deriving Repr, DecidableEq

/-- What all calls return. -/
structure Script where
  opens : Bool
  rounds : List Round
  closes : Bool

/-- The calls of a round may return this: `read` returns 0 only at the end of the input, and
`write` stores no more than it is given. -/
def Round.Possible (r : Round) (left : Nat) : Prop :=
  ∀ rn ∈ r.rn, rn ≤ SIZE ∧ rn ≤ left ∧ (rn = 0 → left = 0) ∧
    (∀ n ∈ r.toStdout, n ≤ rn) ∧ ∀ n ∈ r.toFile, n ≤ rn

instance (r : Round) (left : Nat) : Decidable (r.Possible left) :=
  inferInstanceAs (Decidable (∀ rn ∈ r.rn, _))

/-- What has been written. -/
structure Written where
  stdout : List Byte
  file : List Byte
deriving Repr, DecidableEq

/-- The loop. A run has a round for each of its calls of `read`. Without an exit it leaves the
loop with success. -/
def loop : List Round → List Byte → Written → Option (Exit × Written)
  | [], _, _ => none
  | r :: rest, input, w =>
    if r.Possible input.length then
      match r.rn with
      | none => if rest = [] then some (.failure, w) else none
      | some rn =>
        if rn = 0 then if rest = [] then some (.success, w) else none
        else
          let buffer := input.take rn
          let stdout := w.stdout ++ buffer.take (r.toStdout.getD 0)
          match r.toFile with
          | none => if rest = [] then some (.failure, { w with stdout := stdout }) else none
          | some written =>
            loop rest (input.drop rn) { stdout := stdout, file := w.file ++ buffer.take written }
    else none

/-- `close` of a descriptor that may be open, when the call itself succeeds or not. It leaves
the descriptor closed. -/
def close (opened closes : Bool) : Bool × Bool := (opened && closes, false)

/-- What the file has when it has been opened. -/
def opened (mode : Mode) (previous : List Byte) : List Byte :=
  match mode with
  | .overwrite => []
  | .append => previous

/-- `main` behind `getopt`: how it exits, what it has written to the standard output, and what
the file has, when it was opened. -/
def tee (mode : Mode) (previous input : List Byte) (s : Script) :
    Option (Exit × List Byte × Option (List Byte)) :=
  if s.opens = false then some (.failure, [], none)
  else
    match loop s.rounds input { stdout := [], file := opened mode previous } with
    | none => none
    | some (.failure, w) => some (.failure, w.stdout, some w.file)
    | some (.success, w) =>
      let (_, fd) := close true s.closes
      let (closed, _) := close fd s.closes
      some (if closed then .success else .failure, w.stdout, some w.file)

/-- Every byte of the input has been written, in order, to the standard output and to the file,
there behind what it had. -/
def Complete (mode : Mode) (previous input : List Byte)
    (result : Exit × List Byte × Option (List Byte)) : Prop :=
  result.2.1 = input ∧ result.2.2 = some (opened mode previous ++ input)

/-- Each block is written as a whole to both, and all of the input is read. -/
def Whole (rounds : List Round) (input : List Byte) : Prop :=
  (∀ r ∈ rounds, ∀ rn ∈ r.rn, rn ≠ 0 → r.toStdout = some rn ∧ r.toFile = some rn) ∧
    (rounds.map fun r => r.rn.getD 0).sum = input.length

/-- The file is opened, and no byte is lost. -/
def Script.Lossless (s : Script) (input : List Byte) : Prop :=
  s.opens = true ∧ Whole s.rounds input

/-! ## The loop -/

/-- A part of a block in front of the rest is the input only when it is the block. -/
theorem take_append_eq_iff {input rest : List Byte} {rn n : Nat} (few : rn ≤ input.length)
    (part : n ≤ rn) (short : rest.length ≤ (input.drop rn).length) :
    (input.take rn).take n ++ rest = input ↔ n = rn ∧ rest = input.drop rn := by
  rw [List.length_drop] at short
  constructor
  · intro whole
    have size := congrArg List.length whole
    rw [List.length_append, List.length_take, List.length_take] at size
    obtain rfl : n = rn := by omega
    rw [List.take_take, Nat.min_self] at whole
    exact ⟨rfl, List.append_cancel_left (whole.trans (List.take_append_drop n input).symm)⟩
  · rintro ⟨rfl, rfl⟩
    rw [List.take_take, Nat.min_self, List.take_append_drop]

theorem getD_eq_iff {n : Option Nat} {rn : Nat} (positive : rn ≠ 0) :
    n.getD 0 = rn ↔ n = some rn := by
  cases n with
  | none => exact ⟨fun zero => absurd zero.symm positive, nofun⟩
  | some n => exact ⟨congrArg some, Option.some.inj⟩

/-- No byte of a block is lost, and none of the blocks behind it. -/
theorem whole_cons {r : Round} {rest : List Round} {input : List Byte} {rn : Nat}
    (read : r.rn = some rn) (positive : rn ≠ 0) (few : rn ≤ input.length) :
    Whole (r :: rest) input ↔
      (r.toStdout = some rn ∧ r.toFile = some rn) ∧ Whole rest (input.drop rn) := by
  have first : (∀ rn' ∈ r.rn, rn' ≠ 0 → r.toStdout = some rn' ∧ r.toFile = some rn') ↔
      r.toStdout = some rn ∧ r.toFile = some rn := by
    rw [read]
    constructor
    · exact fun all => all rn rfl positive
    · rintro both _ ⟨⟩ -
      exact both
  have sum : ((r :: rest).map fun r => r.rn.getD 0).sum = input.length ↔
      (rest.map fun r => r.rn.getD 0).sum = (input.drop rn).length := by
    rw [List.map_cons, List.sum_cons, read, Option.getD_some, List.length_drop]
    omega
  rw [Whole, Whole, List.forall_mem_cons, first, sum, and_assoc]

section Loop

variable {r : Round} {rest : List Round} {input : List Byte} {w w' : Written} {exit : Exit}

/-- A round ends the loop with an error or at the end of the input, or it writes a block and
may fail to write it to the file. -/
theorem loop_round (ran : loop (r :: rest) input w = some (exit, w')) :
    (rest = [] ∧ w' = w ∧ (r.rn = none ∨ r.rn = some 0 ∧ input = [])) ∨
    ∃ rn, r.rn = some rn ∧ rn ≠ 0 ∧ rn ≤ input.length ∧ r.toStdout.getD 0 ≤ rn ∧
      ((rest = [] ∧ r.toFile = none ∧
          w' = ⟨w.stdout ++ (input.take rn).take (r.toStdout.getD 0), w.file⟩) ∨
        ∃ written ≤ rn, r.toFile = some written ∧
          loop rest (input.drop rn)
            ⟨w.stdout ++ (input.take rn).take (r.toStdout.getD 0),
              w.file ++ (input.take rn).take written⟩ = some (exit, w')) := by
  rw [loop] at ran
  split at ran
  next possible =>
    cases read : r.rn with
    | none =>
        rw [read] at ran
        dsimp only at ran
        split at ran <;> cases ran
        next last => exact .inl ⟨last, rfl, .inl rfl⟩
    | some rn =>
        obtain ⟨-, few, atEnd, outPart, filePart⟩ := possible rn read
        rw [read] at ran
        dsimp only at ran
        split at ran
        next zero =>
          split at ran <;> cases ran
          next last =>
            exact .inl ⟨last, rfl, .inr ⟨congrArg some zero,
              List.eq_nil_of_length_eq_zero (atEnd zero)⟩⟩
        next nonzero =>
          have outPart : r.toStdout.getD 0 ≤ rn := by
            cases toStdout : r.toStdout with
            | none => exact Nat.zero_le _
            | some n => exact outPart n toStdout
          refine .inr ⟨rn, rfl, nonzero, few, outPart, ?_⟩
          split at ran
          next failed =>
            split at ran <;> cases ran
            next last => exact .inl ⟨last, failed, rfl⟩
          next written wrote => exact .inr ⟨written, filePart written wrote, wrote, ran⟩
  next => cases ran

/-- What the loop writes is the input exactly when no byte is lost. -/
theorem loop_written {rounds : List Round} (ran : loop rounds input w = some (exit, w')) :
    ∃ stdout file, w'.stdout = w.stdout ++ stdout ∧ w'.file = w.file ++ file ∧
      stdout.length ≤ input.length ∧ file.length ≤ input.length ∧
      (stdout = input ∧ file = input ↔ Whole rounds input) := by
  induction rounds generalizing input w with
  | nil => cases ran
  | cons r rest ih =>
      rcases loop_round ran with ⟨rfl, rfl, last⟩ | ⟨rn, read, nonzero, few, outPart, wrote⟩
      · refine ⟨[], [], (List.append_nil _).symm, (List.append_nil _).symm, Nat.zero_le _,
          Nat.zero_le _, ?_⟩
        rcases last with read | ⟨read, rfl⟩
        · simp [Whole, read, eq_comm]
        · simp [Whole, read]
      · rcases wrote with ⟨rfl, failed, rfl⟩ | ⟨written, filePart, wrote, later⟩
        · refine ⟨(input.take rn).take (r.toStdout.getD 0), [], rfl, (List.append_nil _).symm,
            (List.length_take_le' ..).trans (List.length_take_le' ..), Nat.zero_le _, ?_⟩
          refine iff_of_false ?_ fun whole => ?_
          · rintro ⟨-, rfl⟩
            exact nonzero (Nat.le_zero.mp few)
          · have toFile := (whole.1 r (List.mem_cons_self ..) rn read nonzero).2
            rw [failed] at toFile
            cases toFile
        · obtain ⟨stdout, file, sameOut, sameFile, outShort, fileShort, iff⟩ := ih later
          refine ⟨(input.take rn).take (r.toStdout.getD 0) ++ stdout,
            (input.take rn).take written ++ file, ?_, ?_, ?_, ?_, ?_⟩
          · rw [sameOut, List.append_assoc]
          · rw [sameFile, List.append_assoc]
          · rw [List.length_append, List.length_take, List.length_take]
            rw [List.length_drop] at outShort
            omega
          · rw [List.length_append, List.length_take, List.length_take]
            rw [List.length_drop] at fileShort
            omega
          · rw [take_append_eq_iff few outPart outShort, take_append_eq_iff few filePart fileShort,
              getD_eq_iff nonzero, whole_cons read nonzero few, wrote, Option.some.injEq, ← iff]
            exact and_and_and_comm

end Loop

/-! ## The program -/

section Runs

variable {mode : Mode} {previous input : List Byte} {s : Script}
  {result : Exit × List Byte × Option (List Byte)}

/-- **Every run fails**, because the descriptor is closed twice. -/
theorem exit_failure (ran : tee mode previous input s = some result) : result.1 = .failure := by
  rw [tee] at ran
  split at ran
  · cases ran
    rfl
  · split at ran
    · cases ran
    · cases ran
      rfl
    · cases ran
      rfl

/-- All of the input is written exactly when no byte is lost. -/
theorem complete_iff (ran : tee mode previous input s = some result) :
    Complete mode previous input result ↔ s.Lossless input := by
  have written : ∀ {exit w}, loop s.rounds input { stdout := [], file := opened mode previous } =
      some (exit, w) → (w.stdout = input ∧ some w.file = some (opened mode previous ++ input) ↔
        Whole s.rounds input) := by
    intro exit w looped
    obtain ⟨stdout, file, sameOut, sameFile, -, -, iff⟩ := loop_written looped
    rw [sameOut, sameFile, List.nil_append, Option.some.injEq, List.append_cancel_left_eq, iff]
  rw [tee] at ran
  split at ran
  next unopened =>
    cases ran
    refine iff_of_false (fun complete => nomatch complete.2) fun lossless => ?_
    exact nomatch lossless.1.symm.trans unopened
  next opens =>
    rw [Script.Lossless, and_iff_right (by simpa using opens)]
    split at ran
    · cases ran
    next looped =>
      cases ran
      exact written looped
    next looped =>
      cases ran
      exact written looped

/-- **The status** says whether all of the input has been written exactly in the runs in which
it has not. -/
theorem tells_iff (ran : tee mode previous input s = some result) :
    (result.1 = .success ↔ Complete mode previous input result) ↔ ¬ s.Lossless input := by
  have failure : ¬ result.1 = .success := by
    rw [exit_failure ran]
    exact nofun
  rw [← complete_iff ran]
  exact iff_false_left failure

end Runs

/-- One byte is read and written to both. -/
def oneByte : Script where
  opens := true
  rounds := [⟨some 1, some 1, some 1⟩, ⟨some 0, none, none⟩]
  closes := true

theorem tells_iff_oneByte :
    (Exit.failure = .success ↔ Complete .append [1] [7] (.failure, [7], some [1, 7])) ↔
      ¬ oneByte.Lossless [7] :=
  @tells_iff .append [1] [7] oneByte (.failure, [7], some [1, 7]) rfl

/-- The program fails, and has lost nothing. -/
theorem not_tells : ¬ ∀ mode previous input s result,
    tee mode previous input s = some result →
      (result.1 = .success ↔ Complete mode previous input result) := by
  intro tells
  have success := (tells .append [1] [7] oneByte (.failure, [7], some [1, 7]) rfl).mpr
    ⟨rfl, rfl⟩
  cases success

end LinuxExercises.FileTools.Tee
