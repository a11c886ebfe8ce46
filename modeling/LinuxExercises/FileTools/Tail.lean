import Mathlib.Data.List.Induction
import Mathlib.Data.PNat.Defs
import LinuxExercises.Foundations.Lines

/-!
# The last lines of a file

`tail` reads the file into a buffer and goes backwards from its last byte. The loop counts
newlines and stops behind the one in front of the last `n` lines. It has no other bound, so
a file without such a newline makes it read in front of the buffer (`scan_of_count_le`), and
it counts newlines where the last line may have none.

The buffer is an array on the stack, as long as the file and up to a page longer. A file that
is too long for the stack ends the program before it has read anything.

The program writes the last `n` lines exactly when the buffer fits, the file ends with a newline
and has more than `n` lines (`tail_iff`).
-/

set_option autoImplicit false

namespace LinuxExercises.FileTools

open Foundations

/-! ## The code -/

/-- The most that one `read` or `write` moves. -/
def MAX_RW_COUNT : Nat := 0x7ffff000

/-- What the program runs on: the size of a page, and the room on the stack, in which no buffer
is longer than what one `read` moves. -/
structure Machine where
  pageSize : ℕ+
  stack : Nat
  stack_le : stack ≤ MAX_RW_COUNT

/-- Size of the buffer: whole pages, and more than the file. -/
def bufferLength (pageSize : ℕ+) (fileSize : Nat) : Nat :=
  pageSize * (fileSize / pageSize + 1)

/-- The loop `while ((offset+1)>0)`, with one more than the index `i`. The index in front of
the buffer is `ULONG_MAX`. -/
def scan (buf : List Byte) : Nat → Int → Int → Except Fault Int
  | 0, offset, toWrite => if offset + 1 > 0 then .error .outOfBounds else .ok toWrite
  | i + 1, offset, toWrite =>
    if offset + 1 > 0 then
      match buf[i]? with
      | some b => scan buf i (if b = newline then offset - 1 else offset) (toWrite + 1)
      | none => .error .outOfBounds
    else .ok toWrite

/-- `main` behind `getopt`: what is written to the standard output, which takes all that it is
given. The number of pages is an `int`; a file for which it is not has no room on the stack. -/
def tail (m : Machine) (offset : Int) (contents : List Byte) : Except Fault (List Byte) := do
  let length := bufferLength m.pageSize contents.length
  if m.stack < length then .error .outOfBounds
  else
    let buf := contents.take (min length MAX_RW_COUNT)
    let toWrite ← scan buf buf.length offset (-1)
    -- A negative count, which only a negative `offset` gives, is no size.
    if toWrite < 0 then .error .outOfBounds
    -- `lseek` to before the start of the file fails.
    else if contents.length < toWrite then .error (.exited 1)
    else .ok ((contents.drop (contents.length - toWrite.toNat)).take
      (min toWrite.toNat MAX_RW_COUNT))

/-! ## The scan -/

theorem lt_bufferLength (pageSize : ℕ+) (fileSize : Nat) :
    fileSize < bufferLength pageSize fileSize := by
  rw [bufferLength, Nat.mul_add, Nat.mul_one]
  have whole := Nat.div_add_mod fileSize pageSize
  have part := Nat.mod_lt fileSize pageSize.pos
  omega

/-- One round over a byte. -/
theorem scan_byte (before : List Byte) (b : Byte) (after : List Byte) {offset toWrite : Int}
    (goesOn : 0 ≤ offset) :
    scan (before ++ b :: after) (before.length + 1) offset toWrite =
      scan (before ++ b :: after) before.length (if b = newline then offset - 1 else offset)
        (toWrite + 1) := by
  have here : (before ++ b :: after)[before.length]? = some b := by
    simp
  rw [scan, if_pos (Int.lt_add_one_of_le goesOn), here]

/-- The scan passes over a part with no more newlines than it has still to count. -/
theorem scan_append (before part rest : List Byte) {offset toWrite : Int}
    (few : (part.count newline : Int) ≤ offset) :
    scan (before ++ (part ++ rest)) (before.length + part.length) offset toWrite =
      scan (before ++ (part ++ rest)) before.length (offset - part.count newline)
        (toWrite + part.length) := by
  induction part using List.reverseRecOn generalizing rest offset toWrite with
  | nil => simp
  | append_singleton part b ih =>
      have outer : before ++ (part ++ [b] ++ rest) = before ++ part ++ b :: rest := by
        simp
      have inner : before ++ part ++ b :: rest = before ++ (part ++ b :: rest) := by
        simp
      have length : before.length + (part ++ [b]).length = (before ++ part).length + 1 := by
        simp [Nat.add_assoc]
      rw [List.count_append, List.count_singleton] at few ⊢
      rw [outer, length, scan_byte _ _ _ (by omega), inner, List.length_append, List.length_append,
        List.length_singleton]
      by_cases isNewline : b = newline
      · simp only [isNewline, beq_self_eq_true, if_true] at few ⊢
        rw [ih _ (by omega)]
        congr 1 <;> omega
      · have different : (b == newline) = false := by simpa using isNewline
        simp only [isNewline, different, Bool.false_eq_true, if_false] at few ⊢
        rw [ih _ (by omega)]
        congr 1
        omega

/-- Without a newline in front of the last lines, the scan leaves the buffer. -/
theorem scan_of_count_le {contents : List Byte} {n : Nat} (few : contents.count newline ≤ n)
    (toWrite : Int) : scan contents contents.length n toWrite = .error .outOfBounds := by
  have passed := @scan_append [] contents [] n toWrite (by omega)
  simp only [List.nil_append, List.append_nil, List.length_nil, Nat.zero_add] at passed
  rw [passed, scan, if_pos (by omega)]

theorem scan_done (buf : List Byte) (i : Nat) {offset : Int} (done : offset + 1 ≤ 0)
    (toWrite : Int) : scan buf i offset toWrite = .ok toWrite := by
  cases i with
  | zero => rw [scan, if_neg (by omega)]
  | succ i => rw [scan, if_neg (by omega)]

/-- With one, it stops there. -/
theorem scan_of_newline (before after : List Byte) :
    scan (before ++ newline :: after) (before ++ newline :: after).length (after.count newline) (-1)
      = .ok after.length := by
  have passed := @scan_append (before ++ [newline]) after [] (after.count newline) (-1) (by omega)
  have whole : before ++ [newline] ++ (after ++ []) = before ++ newline :: after := by
    simp
  have length : (before ++ [newline]).length + after.length =
      (before ++ newline :: after).length := by
    simp
    omega
  have front : (before ++ [newline]).length = before.length + 1 := by
    simp
  rw [whole, length, front, Int.sub_self] at passed
  rw [passed, scan_byte _ _ _ (Int.le_refl 0), if_pos rfl, scan_done _ _ (by omega)]
  congr 1
  omega

/-! ## The program -/

section

variable {m : Machine} {contents : List Byte} {n : Nat}

/-- A file whose buffer fits is short enough for one `read`. -/
theorem length_le_of_fits (fits : bufferLength m.pageSize contents.length ≤ m.stack) :
    contents.length ≤ MAX_RW_COUNT := by
  have longer := lt_bufferLength m.pageSize contents.length
  have most := m.stack_le
  omega

/-- The whole file is read. -/
theorem take_bufferLength (fits : bufferLength m.pageSize contents.length ≤ m.stack) :
    contents.take (min (bufferLength m.pageSize contents.length) MAX_RW_COUNT) = contents := by
  have longer := lt_bufferLength m.pageSize contents.length
  exact List.take_of_length_le (Nat.le_min.mpr ⟨Nat.le_of_lt longer, length_le_of_fits fits⟩)

theorem tail_of_stack_lt (long : m.stack < bufferLength m.pageSize contents.length)
    (offset : Int) : tail m offset contents = .error .outOfBounds :=
  if_pos long

theorem tail_of_count_le (few : contents.count newline ≤ n) :
    tail m n contents = .error .outOfBounds := by
  by_cases fits : bufferLength m.pageSize contents.length ≤ m.stack
  · rw [tail, if_neg (Nat.not_lt.mpr fits), take_bufferLength fits]
    dsimp only
    rw [scan_of_count_le few]
    rfl
  · exact tail_of_stack_lt (Nat.not_le.mp fits) n

/-- What stands behind the newline is written. -/
theorem tail_of_newline {before after : List Byte}
    (fits : bufferLength m.pageSize (before ++ newline :: after).length ≤ m.stack) :
    tail m (after.count newline) (before ++ newline :: after) = .ok after := by
  have short : ¬ ((before ++ newline :: after).length : Int) < after.length := by
    rw [List.length_append, List.length_cons]
    omega
  have start : (before ++ newline :: after).length - after.length = before.length + 1 := by
    rw [List.length_append, List.length_cons]
    omega
  have behind : (before ++ newline :: after).drop (before.length + 1) = after := by
    simp [← List.drop_drop]
  have whole : after.length ≤ min after.length MAX_RW_COUNT := by
    have most := length_le_of_fits fits
    rw [List.length_append, List.length_cons] at most
    omega
  rw [tail, if_neg (Nat.not_lt.mpr fits), take_bufferLength fits]
  dsimp only
  rw [scan_of_newline, ok_bind, if_neg (by omega), if_neg short, Int.toNat_natCast, start, behind,
    List.take_of_length_le whole]

end

/-- A text with more newlines has one in front of the last ones. -/
theorem exists_split_newline {contents : List Byte} {n : Nat}
    (more : n < contents.count newline) :
    ∃ before after, contents = before ++ newline :: after ∧ after.count newline = n := by
  induction contents with
  | nil => simp at more
  | cons b contents ih =>
      by_cases later : n < contents.count newline
      · obtain ⟨before, after, rfl, count⟩ := ih later
        exact ⟨b :: before, after, rfl, count⟩
      · rw [List.count_cons] at more
        have last : b = newline := by
          by_contra other
          have different : (b == newline) = false := by simpa using other
          simp only [different, Bool.false_eq_true, if_false] at more
          omega
        subst last
        refine ⟨[], contents, rfl, ?_⟩
        simp only [beq_self_eq_true, if_true] at more
        omega

theorem finished_append_iff {before after : List Byte} :
    Finished (before ++ newline :: after) ↔ Finished after := by
  by_cases last : after = []
  · simp [last, Finished]
  · simp [Finished, List.getLast?_append, List.getLast?_cons, List.getLast?_eq_some_getLast last]

/-- **The last lines.** For as many lines as the file has at most, `tail` writes exactly the
last `n` lines, and reads no byte outside its buffer, when the buffer fits on the stack and the
file ends with a newline and has more than `n` lines, and only then. -/
theorem tail_iff (m : Machine) {contents : List Byte} {n : Nat}
    (within : n ≤ (lines contents).length) :
    tail m n contents = .ok (lastLines n contents) ↔
      bufferLength m.pageSize contents.length ≤ m.stack ∧
        contents.getLast? = some newline ∧ n < (lines contents).length := by
  by_cases fits : bufferLength m.pageSize contents.length ≤ m.stack
  case neg =>
    rw [tail_of_stack_lt (Nat.not_le.mp fits)]
    exact iff_of_false (by simp) fun holds => fits holds.1
  rw [and_iff_right fits]
  by_cases more : n < contents.count newline
  · obtain ⟨before, after, rfl, rfl⟩ := exists_split_newline more
    rw [tail_of_newline fits, Except.ok.injEq]
    by_cases finished : Finished after
    · refine iff_of_true (lastLines_of_finished finished).symm ⟨?_, ?_⟩
      · have whole : Finished (before ++ newline :: after) := finished_append_iff.mpr finished
        have nonempty : before ++ newline :: after ≠ [] := by
          simp
        have last := List.getLast?_eq_some_getLast nonempty
        rw [last, whole _ last]
      · have whole : Finished (before ++ newline :: after) := finished_append_iff.mpr finished
        rw [length_lines_of_finished whole]
        exact more
    · refine iff_of_false (fun same => lastLines_of_unfinished finished same.symm) ?_
      rintro ⟨ends, -⟩
      apply finished
      have whole : Finished (before ++ newline :: after) := by
        intro b last
        exact Option.some.inj (last.symm.trans ends)
      exact finished_append_iff.mp whole
  · rw [tail_of_count_le (Nat.le_of_not_lt more)]
    refine iff_of_false (by simp) ?_
    rintro ⟨ends, fewer⟩
    have finished : Finished contents := fun b last => by
      rw [ends] at last
      exact (Option.some.inj last).symm
    rw [length_lines_of_finished finished] at fewer
    exact more fewer

/-- Pages of 4096 bytes, and a stack of 8 MiB. -/
def ordinary : Machine where
  pageSize := 4096
  stack := 8388608
  stack_le := by decide

/-- The file with the lines `a` and `b`. -/
def twoLines : List Byte := [97, newline, 98, newline]

theorem tail_iff_twoLines :
    tail ordinary (1 : Nat) twoLines = .ok (lastLines 1 twoLines) ↔
      bufferLength ordinary.pageSize twoLines.length ≤ ordinary.stack ∧
        twoLines.getLast? = some newline ∧ 1 < (lines twoLines).length :=
  tail_iff ordinary (by decide)

/-- For both lines of that file the scan leaves the buffer, and of a file whose last line is
unfinished even no lines are one too many. -/
theorem not_tail :
    2 ≤ (lines twoLines).length ∧ tail ordinary (2 : Nat) twoLines = .error .outOfBounds ∧
      tail ordinary (0 : Nat) [97, newline, 98] = .ok [98] ∧
      lastLines 0 [97, newline, 98] = [] := by
  refine ⟨by decide, tail_of_count_le (by decide), ?_, by decide⟩
  exact @tail_of_newline ordinary [97] [98] (by decide)

end LinuxExercises.FileTools
