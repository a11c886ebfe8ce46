import LinuxExercises.Foundations.Buffer
import LinuxExercises.Foundations.Tokens

/-!
# `strtok` in an array

`strtok` works in the array that holds the text. It returns a pointer to the token, stores a
NUL over the delimiter behind it, and looks at no bound: a text without a NUL leads it out of
the array (`strtok_outside`). Behind the pointer that it has saved the array is as it was, and
what stands in front of it is not touched again (`strtok_found`).

So a token, once it has been returned, is a string in the part of the array that is settled
(`Points`), whatever is tokenised behind it.
-/

set_option autoImplicit false

namespace LinuxExercises.Foundations

namespace Buffer

variable {size : Nat} {isDelim : Byte → Bool}

/-- `strtok`, from the pointer on that the last call has saved: the token, the array and the
pointer that is saved. -/
def strtok (isDelim : Byte → Bool) (buffer : Buffer size) (saved : Nat) :
    Except Fault (Option Nat × Buffer size × Nat) :=
  let start := saved + ((buffer.drop saved).takeWhile isDelim).length
  match buffer.drop start with
  | [] => .error .outOfBounds
  | first :: _ =>
    if first = 0 then .ok (none, buffer, start)
    else
      let behind := start + ((buffer.drop start).takeWhile fun b => !isDelim b && b != 0).length
      match buffer.drop behind with
      | [] => .error .outOfBounds
      | last :: _ =>
        if last = 0 then .ok (some start, buffer, behind)
        else do
          let buffer ← buffer.store behind [0]
          .ok (some start, buffer, behind + 1)

/-- A token that a delimiter ends is returned, and the delimiter overwritten. -/
theorem strtok_found {buffer : Buffer size} {settled delims run rest : List Byte} {b : Byte}
    (layout : buffer.bytes = settled ++ (delims ++ (run ++ b :: rest)))
    (areDelims : ∀ c ∈ delims, isDelim c = true) (nonempty : run ≠ [])
    (clean : ∀ c ∈ run, isDelim c = false) (noZero : ∀ c ∈ run, c ≠ 0)
    (delim : isDelim b = true) (notZero : b ≠ 0) :
    ∃ result : Buffer size,
      buffer.strtok isDelim settled.length =
        .ok (some (settled ++ delims).length, result,
          (settled ++ (delims ++ (run ++ [0]))).length) ∧
      result.bytes = settled ++ (delims ++ (run ++ [0])) ++ rest := by
  obtain ⟨first, more, rfl⟩ := List.exists_cons_of_ne_nil nonempty
  have firstClean := clean first (List.mem_cons_self ..)
  have skipped : (buffer.drop settled.length).takeWhile isDelim = delims := by
    rw [drop, layout, List.drop_left, List.takeWhile_append_of_pos areDelims, List.cons_append,
      List.takeWhile_cons_of_neg (by simp [firstClean]), List.append_nil]
  have start : settled.length + delims.length = (settled ++ delims).length := by
    rw [List.length_append]
  have atStart : buffer.drop (settled ++ delims).length = first :: (more ++ b :: rest) := by
    rw [drop, layout, ← List.append_assoc, List.drop_left, List.cons_append]
  have token : (first :: (more ++ b :: rest)).takeWhile (fun c => !isDelim c && c != 0) =
      first :: more := by
    rw [← List.cons_append, List.takeWhile_append_of_pos, List.takeWhile_cons_of_neg,
      List.append_nil]
    · simp [delim]
    · intro c member
      simp [clean c member, noZero c member]
  have behind : (settled ++ delims).length + (first :: more).length =
      (settled ++ delims ++ (first :: more)).length :=
    List.length_append.symm
  have atBehind : buffer.drop (settled ++ delims ++ (first :: more)).length = b :: rest := by
    rw [drop, layout, ← List.append_assoc, ← List.append_assoc, List.drop_left]
  have layout' : buffer.bytes = (settled ++ delims ++ (first :: more)) ++ [b] ++ rest := by
    rw [layout]
    simp only [List.append_assoc, List.singleton_append]
  obtain ⟨result, stored, bytes⟩ := store_eq layout' [0] rfl _ rfl
  refine ⟨result, ?_, ?_⟩
  · rw [strtok, skipped]
    dsimp only
    rw [start, atStart]
    dsimp only
    rw [if_neg (noZero first (List.mem_cons_self ..)), token, behind, atBehind]
    dsimp only
    rw [if_neg notZero, stored]
    simp [Nat.add_assoc]
  · rw [bytes]
    simp only [List.append_assoc]

/-- Without a delimiter behind it, the search for the end of the token leaves the array. -/
theorem strtok_outside {buffer : Buffer size} {settled delims run : List Byte}
    (layout : buffer.bytes = settled ++ (delims ++ run))
    (areDelims : ∀ c ∈ delims, isDelim c = true) (clean : ∀ c ∈ run, isDelim c = false)
    (noZero : ∀ c ∈ run, c ≠ 0) :
    buffer.strtok isDelim settled.length = .error .outOfBounds := by
  have atStart : buffer.drop (settled ++ delims).length = run := by
    rw [drop, layout, ← List.append_assoc, List.drop_left]
  have skipped : (buffer.drop settled.length).takeWhile isDelim = delims := by
    rw [drop, layout, List.drop_left, List.takeWhile_append_of_pos areDelims]
    cases run with
    | nil => simp
    | cons first more =>
        rw [List.takeWhile_cons_of_neg (by simp [clean first (List.mem_cons_self ..)]),
          List.append_nil]
  have start : settled.length + delims.length = (settled ++ delims).length := by
    rw [List.length_append]
  rw [strtok, skipped]
  dsimp only
  rw [start, atStart]
  cases run with
  | nil => rfl
  | cons first more =>
      have token : (first :: more).takeWhile (fun c => !isDelim c && c != 0) = first :: more := by
        rw [List.takeWhile_eq_self_iff]
        intro c member
        simp [clean c member, noZero c member]
      have behind : (settled ++ delims).length + (first :: more).length = buffer.bytes.length := by
        rw [layout]
        simp only [List.length_append, Nat.add_assoc]
      dsimp only
      rw [if_neg (noZero first (List.mem_cons_self ..)), token, behind, drop, List.drop_length]

end Buffer

/-- The pointer leads to a terminated string in the settled part of an array. -/
def Points (settled : List Byte) (pointer : Nat) (word : List Byte) : Prop :=
  ∃ front back, settled = front ++ (word ++ 0 :: back) ∧ pointer = front.length ∧
    ∀ b ∈ word, b ≠ 0

namespace Points

variable {settled word : List Byte} {pointer : Nat}

/-- What is settled stays. -/
theorem append (points : Points settled pointer word) (more : List Byte) :
    Points (settled ++ more) pointer word := by
  obtain ⟨front, back, rfl, start, noZero⟩ := points
  refine ⟨front, back ++ more, ?_, start, noZero⟩
  simp only [List.append_assoc, List.cons_append]

/-- The string behind the pointer. -/
theorem cstr_drop (points : Points settled pointer word) (rest : List Byte) :
    cstr ((settled ++ rest).drop pointer) = word := by
  obtain ⟨front, back, rfl, rfl, noZero⟩ := points
  rw [List.append_assoc, List.drop_left, List.append_assoc, List.cons_append]
  exact cstr_append_zero noZero

end Points

namespace Buffer

variable {size : Nat} {isDelim : Byte → Bool}

/-- A call of `strtok` in a text of which a token is ended, by the tokens of the text. -/
theorem strtok_ended {buffer : Buffer size} {settled text beyond word : List Byte}
    {words : List (List Byte)} (notZero : isDelim 0 = false)
    (layout : buffer.bytes = settled ++ (text ++ beyond)) (noZero : ∀ b ∈ text, b ≠ 0)
    (first : endedWords isDelim text = word :: words) :
    ∃ (token : Nat) (result : Buffer size) (more rest : List Byte),
      buffer.strtok isDelim settled.length = .ok (some token, result, (settled ++ more).length) ∧
      result.bytes = settled ++ more ++ (rest ++ beyond) ∧ Points (settled ++ more) token word ∧
      (∀ b ∈ rest, b ≠ 0) ∧ endedWords isDelim rest = words := by
  rcases @endedWords_cases _ isDelim text with
    ⟨delims, run, b, rest, rfl, areDelims, nonempty, clean, delim, ended⟩ | ⟨_, _, _, _, _, none⟩
  · obtain ⟨rfl, rfl⟩ := List.cons.inj (ended.symm.trans first)
    have noZeroRun : ∀ c ∈ run, c ≠ 0 := fun c member =>
      noZero c (List.mem_append_right _ (List.mem_append_left _ member))
    have whole : buffer.bytes = settled ++ (delims ++ (run ++ b :: (rest ++ beyond))) := by
      rw [layout]
      simp only [List.append_assoc, List.cons_append]
    have different : b ≠ 0 := by
      rintro rfl
      rw [notZero] at delim
      cases delim
    obtain ⟨result, found, bytes⟩ :=
      strtok_found whole areDelims nonempty clean noZeroRun delim different
    refine ⟨_, result, delims ++ (run ++ [0]), rest, found, bytes, ⟨settled ++ delims, [], ?_, rfl,
      noZeroRun⟩, fun c member => noZero c ?_, rfl⟩
    · simp only [List.append_assoc]
    · exact List.mem_append_right _ (List.mem_append_right _ (List.mem_cons_of_mem _ member))
  · rw [none] at first
    cases first

end Buffer

end LinuxExercises.Foundations
