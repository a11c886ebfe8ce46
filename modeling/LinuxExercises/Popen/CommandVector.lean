import LinuxExercises.Shell.Parse

/-!
# The command vector of the program that uses `my_popen`

`main` cuts its first argument into tokens and puts a copy of each in `cmd_list`, which it
grows by one slot in each round. The slot for a token is there when the token is stored, and
its block has room for it. But the array is grown in front of a token only, so when the last
one has been stored there is no slot left, and the NULL that ends the vector is stored behind
the end of the array. That is so for every command with a token (`terminator_outside`).

The allocator rounds sizes up, so that for most numbers of tokens nothing comes of it.
-/

set_option autoImplicit false

namespace LinuxExercises.Popen

open Foundations
open Shell (Misuse Block Slot setSlot copyToken reallocSlots tokenLength cleared)

/-! ## The code -/

/-- `delim`: the space. -/
def isDelim (b : Byte) : Bool := b = 32

section

-- What a block of this size holds when it is handed out.
variable (malloc : (size : Nat) → Buffer size)

/-- The loop `while (token != NULL)`, with what `strtok` has returned and saved. -/
def commandLoop (cmdList : List Slot) (cmdN : Nat) (token : Option (List Byte × List Byte)) :
    Except Misuse (List Slot × Nat) :=
  match token with
  | none => .ok (cmdList, cmdN)
  | some (token, rest) => do
      let cmdList := reallocSlots cmdList (cmdN + 1)
      let cmdList ← setSlot cmdList cmdN (.block ⟨_, malloc (token.length + 1)⟩)
      let cmdList ← copyToken cmdList cmdN token
      commandLoop cmdList (cmdN + 1) (strtok isDelim rest)
termination_by token.elim 0 fun (_, rest) => rest.length + 1
decreasing_by
  cases found : strtok isDelim rest with
  | none => exact Nat.succ_pos _
  | some pair => exact Nat.succ_lt_succ (length_of_strtok (found : _ = some (pair.1, pair.2)))

/-- `main` up to the end of the loop. The block that it allocates in front of the loop is
not used. -/
def fillCommand (command : List Byte) : Except Misuse (List Slot × Nat) := do
  let token := strtok isDelim (cstr command)
  let length ← tokenLength token
  let cmdList ← setSlot (reallocSlots [] 1) 0 (.block ⟨_, malloc (length + 1)⟩)
  commandLoop malloc cmdList 0 token

/-- `main` up to `cmd_list[cmd_n] = NULL`. -/
def commandVector (command : List Byte) : Except Misuse (List Slot) := do
  let (cmdList, cmdN) ← fillCommand malloc command
  setSlot cmdList cmdN .null

end

/-! ## The loop -/

/-- The tokens of the command. -/
def commandWords (command : List Byte) : List (List Byte) := wordsOf isDelim (cstr command)

section Loop

variable {malloc : (size : Nat) → Buffer size} {filled : List Slot} {token rest : List Byte}

/-- Growing a full array by one slot. -/
theorem reallocSlots_full (filled : List Slot) :
    reallocSlots filled (filled.length + 1) = filled ++ [.indeterminate] := by
  simp [reallocSlots, List.take_of_length_le]

theorem setSlot_last (filled : List Slot) (last slot : Slot) :
    setSlot (filled ++ [last]) filled.length slot = .ok (filled ++ [slot]) := by
  simp [setSlot]

/-- **One round.** When the array has grown to one slot behind the tokens that were stored,
the next token is stored there. -/
theorem commandLoop_some (clean : ∀ c ∈ token, c ≠ 0) {cmdList : List Slot} {last : Slot}
    (grown : reallocSlots cmdList (filled.length + 1) = filled ++ [last]) :
    ∃ b : Block, b.string = token ∧
      commandLoop malloc cmdList filled.length (some (token, rest)) =
        commandLoop malloc (filled ++ [.block b]) (filled.length + 1) (strtok isDelim rest) := by
  obtain ⟨b, string, copied⟩ := @Shell.copyToken_of_le filled
    ⟨token.length + 1, malloc (token.length + 1)⟩ token clean (Nat.le_refl _)
  refine ⟨b, string, ?_⟩
  rw [commandLoop, grown, setSlot_last]
  change (copyToken _ _ _ >>= _) = _
  rw [copied]
  rfl

/-- The loop stores the tokens that are still to come behind those that it has stored, and
leaves no slot behind them. -/
theorem commandLoop_full (text : List Byte) (clean : ∀ t ∈ wordsOf isDelim text, ∀ c ∈ t, c ≠ 0)
    (filled : List Slot) :
    ∃ blocks : List Block, blocks.map Block.string = wordsOf isDelim text ∧
      commandLoop malloc filled filled.length (strtok isDelim text) =
        .ok (filled ++ blocks.map .block, filled.length + blocks.length) := by
  induction length : text.length using Nat.strongRecOn generalizing text filled with
  | ind _ ih =>
      cases found : strtok isDelim text with
      | none =>
          have none := wordsOf_eq_nil_iff.mpr (strtok_eq_none_iff.mp found)
          exact ⟨[], none.symm, by simp [commandLoop]⟩
      | some pair =>
          obtain ⟨token, rest⟩ := pair
          have split := wordsOf_of_strtok found
          rw [split, List.forall_mem_cons] at clean
          obtain ⟨b, string, stored⟩ :=
            @commandLoop_some malloc filled token rest clean.1 _ _ (reallocSlots_full filled)
          have shorter := length_of_strtok found
          obtain ⟨blocks, strings, looped⟩ :=
            ih rest.length (length ▸ shorter) rest clean.2 (filled ++ [.block b]) rfl
          rw [List.length_append, List.length_singleton] at looped
          refine ⟨b :: blocks, by rw [List.map_cons, string, strings, split], ?_⟩
          rw [stored, looped]
          simp [Nat.add_assoc, Nat.add_comm 1]

end Loop

/-! ## The whole vector -/

/-- The vector holds exactly the tokens of the command and is ended by NULL. -/
def Vectorised (command : List Byte) (result : Except Misuse (List Slot)) : Prop :=
  ∃ blocks : List Block, result = .ok (blocks.map .block ++ [.null]) ∧
    blocks.map Block.string = commandWords command

/-- The loop stores all tokens inside the array and inside their blocks, and leaves an array
that has as many slots as there are tokens. -/
theorem fillCommand_full (malloc : (size : Nat) → Buffer size) {command : List Byte}
    (something : commandWords command ≠ []) :
    ∃ blocks : List Block, blocks.map Block.string = commandWords command ∧
      fillCommand malloc command = .ok (blocks.map .block, blocks.length) := by
  have clean : ∀ t ∈ commandWords command, ∀ c ∈ t, c ≠ 0 := fun t member c inside =>
    cstr_ne_zero ((mem_wordsOf member).2 c inside).1
  cases found : strtok isDelim (cstr command) with
  | none => exact absurd (wordsOf_eq_nil_iff.mpr (strtok_eq_none_iff.mp found)) something
  | some pair =>
      obtain ⟨token, rest⟩ := pair
      have split : commandWords command = token :: wordsOf isDelim rest := wordsOf_of_strtok found
      rw [split, List.forall_mem_cons] at clean
      -- The first round finds the block that was allocated in front of the loop.
      obtain ⟨b, string, stored⟩ := @commandLoop_some malloc [] token rest clean.1
        [.block ⟨_, malloc (token.length + 1)⟩] _ rfl
      obtain ⟨blocks, strings, looped⟩ := @commandLoop_full malloc rest clean.2 [.block b]
      refine ⟨b :: blocks, by rw [List.map_cons, string, strings, split], ?_⟩
      rw [fillCommand, found]
      refine (stored.trans looped).trans ?_
      simp [Nat.add_comm 1]

theorem commandVector_outside (malloc : (size : Nat) → Buffer size) {command : List Byte}
    (something : commandWords command ≠ []) :
    commandVector malloc command = .error .outOfBlock := by
  obtain ⟨blocks, -, filled⟩ := fillCommand_full malloc something
  have full : ¬ blocks.length < (blocks.map Slot.block).length := by simp
  rw [commandVector, filled]
  exact if_neg full

/-- A failed store gives no vector. -/
theorem not_vectorised_of_error {command : List Byte} {result : Except Misuse (List Slot)}
    {misuse : Misuse} (failed : result = .error misuse) : ¬ Vectorised command result := by
  rintro ⟨blocks, returned, -⟩
  rw [failed] at returned
  cases returned

/-- **The terminator.** For every command with a token, the tokens are stored as they should
be, and the NULL behind them is stored outside the array. -/
theorem terminator_outside (malloc : (size : Nat) → Buffer size) {command : List Byte}
    (something : commandWords command ≠ []) :
    (∃ blocks : List Block, blocks.map Block.string = commandWords command ∧
      fillCommand malloc command = .ok (blocks.map .block, blocks.length)) ∧
    commandVector malloc command = .error .outOfBlock ∧
    ¬ Vectorised command (commandVector malloc command) := by
  have outside := commandVector_outside malloc something
  exact ⟨fillCommand_full malloc something, outside, not_vectorised_of_error outside⟩

/-- The command `ls -l`. -/
def listing : List Byte := [108, 115, 32, 45, 108, 0]

theorem terminator_outside_listing :
    (∃ blocks : List Block, blocks.map Block.string = commandWords listing ∧
      fillCommand cleared listing = .ok (blocks.map .block, blocks.length)) ∧
    commandVector cleared listing = .error .outOfBlock ∧
    ¬ Vectorised listing (commandVector cleared listing) :=
  terminator_outside cleared (by decide)

/-- The vector of `ls -l` is not ended. -/
theorem not_vectorised : commandWords listing = [[108, 115], [45, 108]] ∧
    ¬ Vectorised listing (commandVector cleared listing) := by
  have something : commandWords listing ≠ [] := by decide
  exact ⟨by decide, not_vectorised_of_error (commandVector_outside cleared something)⟩

end LinuxExercises.Popen
