import Mathlib.Data.List.Chain
import LinuxExercises.Foundations.Stdio
import LinuxExercises.Foundations.Tokens

/-!
# The tokeniser of the shell

`parse` copies the tokens of a line into a vector of strings that it grows one entry at a
time. The block for a token is allocated before `strtok` has found it, with the length of
the token before it. So a token that is longer than its predecessor is copied over the end
of its block, and that is the only store that can go wrong (`storesInBounds_iff`).

`strlen` is called on the first token before it is known to be there. The shell of SP_HW5
returns NULL early for the line that is a single newline, and the one of SP_HW3 not even
then; for every other line without tokens both call `strlen(NULL)`. What `parse` returns
for the remaining lines are their tokens (`tokenises_iff`).

Both functions are described by one closed form (`tokenise_eq`).
-/

set_option autoImplicit false

namespace LinuxExercises.Shell

open Foundations

/-! ## The code -/

/-- `delim`: space, tab and newline. -/
def isDelim (b : Byte) : Bool := b = 32 || b = 9 || b = newline

/-- What goes wrong in `parse`: `strlen(NULL)`, or a store outside a block. -/
inductive Misuse where
  | nullToken
  | outOfBlock
deriving Repr, DecidableEq

/-- A block of `char`s. -/
structure Block where
  size : Nat
  buffer : Buffer size

/-- An entry of the vector. -/
inductive Slot where
  | indeterminate
  | null
  | block (b : Block)

namespace Block

/-- The string in a block. -/
def string (b : Block) : List Byte := cstr b.buffer.bytes

/-- `strcpy` of a token into a block. -/
def copy (b : Block) (token : List Byte) : Except Misuse Block :=
  match b.buffer.store 0 (token ++ [0]) with
  | .ok buffer => .ok ⟨b.size, buffer⟩
  | .error _ => .error .outOfBlock

end Block

/-- `newArgv[i] = slot`. The vector has as many entries as were allocated. -/
def setSlot (newArgv : List Slot) (i : Nat) (slot : Slot) : Except Misuse (List Slot) :=
  if i < newArgv.length then .ok (newArgv.set i slot) else .error .outOfBlock

/-- `strcpy(newArgv[i], token)`. -/
def copyToken (newArgv : List Slot) (i : Nat) (token : List Byte) : Except Misuse (List Slot) :=
  match newArgv[i]? with
  | some (.block b) => (b.copy token).bind fun b => setSlot newArgv i (.block b)
  | _ => .error .outOfBlock

/-- `realloc` of the vector to `n` entries. -/
def reallocSlots (newArgv : List Slot) (n : Nat) : List Slot :=
  newArgv.take n ++ List.replicate (n - newArgv.length) .indeterminate

/-- `strlen(token)`. -/
def tokenLength : Option (List Byte × List Byte) → Except Misuse Nat
  | none => .error .nullToken
  | some (token, _) => .ok token.length

section

-- What a block of this size holds when it is handed out.
variable (malloc : (size : Nat) → Buffer size)

/-- The loop `while (token != NULL)`, with what `strtok` has returned and saved. -/
def parseLoop (newArgv : List Slot) (count : Nat) (token : Option (List Byte × List Byte)) :
    Except Misuse (List Slot × Nat) :=
  match token with
  | none => .ok (newArgv, count)
  | some (token, rest) => do
      let newArgv ← copyToken newArgv count token
      let newArgv := reallocSlots newArgv (count + 1 + 1)
      let newArgv ← setSlot newArgv (count + 1) (.block ⟨_, malloc (token.length + 1)⟩)
      parseLoop newArgv (count + 1) (strtok isDelim rest)
termination_by token.elim 0 fun (_, rest) => rest.length + 1
decreasing_by
  cases found : strtok isDelim rest with
  | none => exact Nat.succ_pos _
  | some pair => exact Nat.succ_lt_succ (length_of_strtok (found : _ = some (pair.1, pair.2)))

/-- Both functions from the first call of `strtok` on. The first block is cleared. -/
def tokenise (line : List Byte) : Except Misuse (Option (List Slot)) := do
  let token := strtok isDelim (cstr line)
  let length ← tokenLength token
  let (newArgv, count) ← parseLoop malloc [.block ⟨length + 1, .ofString _ []⟩] 0 token
  let newArgv ← setSlot newArgv count .null
  .ok (some newArgv)

/-- `parse` of SP_HW5. -/
def parse (line : Option (List Byte)) : Except Misuse (Option (List Slot)) :=
  match line with
  | none => .ok none
  | some line => if cstr line = [newline] then .ok none else tokenise malloc line

/-- `parse` of SP_HW3. -/
def HW3.parse (line : Option (List Byte)) : Except Misuse (Option (List Slot)) :=
  match line with
  | none => .ok none
  | some line => tokenise malloc line

end

/-! ## Blocks and entries -/

namespace Block

/-- A token that fits becomes the string of the block. -/
theorem copy_of_le {b : Block} {token : List Byte} (clean : ∀ c ∈ token, c ≠ 0)
    (fits : token.length + 1 ≤ b.size) : ∃ c, b.copy token = .ok c ∧ c.string = token := by
  have within : 0 + (token ++ [0]).length ≤ b.size := by
    simpa using fits
  refine ⟨⟨b.size, _⟩, by rw [copy, Buffer.store, dif_pos within], ?_⟩
  simp only [string, List.take_zero, List.nil_append, List.append_assoc, List.cons_append]
  exact cstr_append_zero clean

/-- A longer one is copied over the end of the block. -/
theorem copy_of_lt {b : Block} {token : List Byte} (long : b.size < token.length + 1) :
    b.copy token = .error .outOfBlock := by
  have outside : ¬ 0 + (token ++ [0]).length ≤ b.size := by
    simpa using long
  rw [copy, Buffer.store, dif_neg outside]

end Block

section Entries

variable {filled : List Slot} {b : Block} {token : List Byte}

theorem copyToken_of_le (clean : ∀ c ∈ token, c ≠ 0) (fits : token.length + 1 ≤ b.size) :
    ∃ c : Block, c.string = token ∧
      copyToken (filled ++ [.block b]) filled.length token = .ok (filled ++ [.block c]) := by
  obtain ⟨c, copied, string⟩ := Block.copy_of_le clean fits
  refine ⟨c, string, ?_⟩
  simp [copyToken, copied, setSlot, Except.bind]

theorem copyToken_of_lt (long : b.size < token.length + 1) :
    copyToken (filled ++ [.block b]) filled.length token = .error .outOfBlock := by
  simp [copyToken, Block.copy_of_lt long, Except.bind]

/-- Growing the vector by one entry and storing a block in it. -/
theorem setSlot_realloc (last slot : Slot) :
    setSlot (reallocSlots (filled ++ [last]) (filled.length + 1 + 1)) (filled.length + 1) slot =
      .ok (filled ++ [last] ++ [slot]) := by
  simp [setSlot, reallocSlots, List.take_of_length_le]

end Entries

/-! ## The loop -/

/-- The tokens that are still to come. -/
def wordsFrom : Option (List Byte × List Byte) → List (List Byte)
  | none => []
  | some (token, rest) => token :: wordsOf isDelim rest

theorem wordsFrom_strtok (text : List Byte) :
    wordsFrom (strtok isDelim text) = wordsOf isDelim text := by
  cases found : strtok isDelim text with
  | none => exact (wordsOf_eq_nil_iff.mpr (strtok_eq_none_iff.mp found)).symm
  | some pair => exact (wordsOf_of_strtok (found : _ = some (pair.1, pair.2))).symm

/-- No token is longer than its block, when the first block has this size. -/
def Fit : Nat → List (List Byte) → Prop
  | _, [] => True
  | size, token :: later => token.length + 1 ≤ size ∧ Fit (token.length + 1) later

variable {malloc : (size : Nat) → Buffer size}

theorem parseLoop_of_fit {tokens : List (List Byte)} :
    ∀ {filled : List Slot} {b : Block} {token : Option (List Byte × List Byte)},
      wordsFrom token = tokens → (∀ t ∈ tokens, ∀ c ∈ t, c ≠ 0) → Fit b.size tokens →
      ∃ (blocks : List Block) (last : Block), blocks.map Block.string = tokens ∧
        parseLoop malloc (filled ++ [.block b]) filled.length token =
          .ok (filled ++ blocks.map .block ++ [.block last], filled.length + blocks.length) := by
  induction tokens with
  | nil =>
      intro filled b token words _ _
      cases token with
      | none => exact ⟨[], b, rfl, by simp [parseLoop]⟩
      | some pair => cases words
  | cons t later ih =>
      intro filled b token words clean fit
      cases token with
      | none => cases words
      | some pair =>
          obtain ⟨t', rest⟩ := pair
          obtain ⟨rfl, rfl⟩ := List.cons.inj words
          rw [List.forall_mem_cons] at clean
          obtain ⟨c, string, copied⟩ := @copyToken_of_le filled b _ clean.1 fit.1
          obtain ⟨blocks, last, strings, looped⟩ :=
            @ih (filled ++ [.block c]) ⟨_, malloc (t'.length + 1)⟩ _ (wordsFrom_strtok rest)
              clean.2 fit.2
          refine ⟨c :: blocks, last, by rw [List.map_cons, string, strings], ?_⟩
          have grown := @setSlot_realloc filled (.block c) (.block ⟨_, malloc (t'.length + 1)⟩)
          rw [List.length_append] at looped
          rw [parseLoop, copied]
          change (setSlot _ _ _ >>= _) = _
          rw [grown]
          refine looped.trans ?_
          simp [Nat.add_assoc, Nat.add_comm 1]

theorem parseLoop_of_not_fit {tokens : List (List Byte)} :
    ∀ {filled : List Slot} {b : Block} {token : Option (List Byte × List Byte)},
      wordsFrom token = tokens → (∀ t ∈ tokens, ∀ c ∈ t, c ≠ 0) → ¬ Fit b.size tokens →
      parseLoop malloc (filled ++ [.block b]) filled.length token = .error .outOfBlock := by
  induction tokens with
  | nil => exact fun _ _ tooLong => absurd trivial tooLong
  | cons t later ih =>
      intro filled b token words clean tooLong
      cases token with
      | none => cases words
      | some pair =>
          obtain ⟨t', rest⟩ := pair
          obtain ⟨rfl, rfl⟩ := List.cons.inj words
          rw [List.forall_mem_cons] at clean
          rw [parseLoop]
          by_cases fits : t'.length + 1 ≤ b.size
          · obtain ⟨c, -, copied⟩ := @copyToken_of_le filled b _ clean.1 fits
            have failed := @ih (filled ++ [.block c]) ⟨_, malloc (t'.length + 1)⟩ _
              (wordsFrom_strtok rest) clean.2 fun fit => tooLong ⟨fits, fit⟩
            have grown := @setSlot_realloc filled (.block c) (.block ⟨_, malloc (t'.length + 1)⟩)
            rw [List.length_append] at failed
            rw [copied]
            change (setSlot _ _ _ >>= _) = _
            rw [grown]
            exact failed
          · rw [copyToken_of_lt (Nat.lt_of_not_le fits)]
            rfl

/-! ## What `parse` returns -/

/-- The tokens of a line. -/
def words (line : List Byte) : List (List Byte) := wordsOf isDelim (cstr line)

/-- No token is longer than the one before it. -/
def Shrinking (tokens : List (List Byte)) : Prop :=
  tokens.IsChain fun token next => next.length ≤ token.length

instance (tokens : List (List Byte)) : Decidable (Shrinking tokens) :=
  inferInstanceAs (Decidable (tokens.IsChain _))

/-- The first block fits its token, and each other token the block of the one before. -/
theorem fit_iff_shrinking (t : List Byte) (later : List (List Byte)) :
    Fit (t.length + 1) (t :: later) ↔ Shrinking (t :: later) := by
  induction later generalizing t with
  | nil => simp [Fit, Shrinking]
  | cons next later ih =>
      have same := ih next
      simp only [Fit, Shrinking, List.isChain_cons_cons] at same ⊢
      simp only [Nat.le_refl, true_and, Nat.add_le_add_iff_right] at same ⊢
      rw [same]

/-- **The closed form of both functions.** -/
theorem tokenise_eq (malloc : (size : Nat) → Buffer size) (line : List Byte) :
    (words line = [] ∧ tokenise malloc line = .error .nullToken) ∨
    (words line ≠ [] ∧ ¬ Shrinking (words line) ∧
      tokenise malloc line = .error .outOfBlock) ∨
    (words line ≠ [] ∧ Shrinking (words line) ∧ ∃ blocks : List Block,
      blocks.map Block.string = words line ∧
        tokenise malloc line = .ok (some (blocks.map .block ++ [.null]))) := by
  have clean : ∀ t ∈ words line, ∀ c ∈ t, c ≠ 0 := fun t member c inside =>
    cstr_ne_zero ((mem_wordsOf member).2 c inside).1
  have start := wordsFrom_strtok (cstr line)
  rw [tokenise]
  cases found : strtok isDelim (cstr line) with
  | none =>
      rw [found] at start
      exact .inl ⟨start.symm, rfl⟩
  | some pair =>
      obtain ⟨t, rest⟩ := pair
      rw [found] at start
      have some : words line = t :: wordsOf isDelim rest := start.symm
      have nonempty : words line ≠ [] := by simp [some]
      have fit := fit_iff_shrinking t (wordsOf isDelim rest)
      rw [← some] at fit
      refine .inr ?_
      by_cases shrinking : Shrinking (words line)
      · obtain ⟨blocks, last, strings, looped⟩ := @parseLoop_of_fit malloc _ []
          ⟨t.length + 1, .ofString _ []⟩ (.some (t, rest)) start clean (fit.mpr shrinking)
        refine .inr ⟨nonempty, shrinking, blocks, strings, ?_⟩
        have ends : setSlot (blocks.map .block ++ [.block last]) blocks.length .null =
            .ok (blocks.map .block ++ [.null]) := by
          simp [setSlot]
        simp only [List.nil_append, List.length_nil, Nat.zero_add] at looped
        change (parseLoop malloc _ 0 _ >>= _) = _
        rw [looped]
        change (setSlot _ _ _ >>= _) = _
        rw [ends]
        rfl
      · have failed := @parseLoop_of_not_fit malloc _ []
          ⟨t.length + 1, .ofString _ []⟩ (.some (t, rest)) start clean (mt fit.mp shrinking)
        refine .inl ⟨nonempty, shrinking, ?_⟩
        simp only [List.nil_append, List.length_nil] at failed
        change (parseLoop malloc _ 0 _ >>= _) = _
        rw [failed]
        rfl

/-- Any other line than the single newline goes to `strtok`. -/
theorem parse_of_ne (malloc : (size : Nat) → Buffer size) {line : List Byte}
    (longer : cstr line ≠ [newline]) : parse malloc (some line) = tokenise malloc line :=
  if_neg longer

/-- The line that is returned early has no token. -/
theorem ne_newline {line : List Byte} (something : words line ≠ []) : cstr line ≠ [newline] := by
  intro single
  apply something
  rw [words, single]
  rfl

/-- No store is outside its block. -/
def StoresInBounds (result : Except Misuse (Option (List Slot))) : Prop :=
  result ≠ .error .outOfBlock

theorem storesInBounds_tokenise_iff (malloc : (size : Nat) → Buffer size) {line : List Byte}
    (something : words line ≠ []) :
    StoresInBounds (tokenise malloc line) ↔ Shrinking (words line) := by
  obtain ⟨nothing, -⟩ | ⟨-, growing, failed⟩ | ⟨-, shrinking, blocks, -, returned⟩ :=
    tokenise_eq malloc line
  · exact absurd nothing something
  · exact iff_of_false (fun within => within failed) growing
  · refine iff_of_true (fun failed => ?_) shrinking
    rw [returned] at failed
    cases failed

/-- **The stores of `parse`.** For a line with a token, all stores are inside their blocks
exactly when no token is longer than the one before it, in both shells. -/
theorem storesInBounds_iff (malloc : (size : Nat) → Buffer size) {line : List Byte}
    (something : words line ≠ []) :
    (StoresInBounds (parse malloc (some line)) ↔ Shrinking (words line)) ∧
      (StoresInBounds (HW3.parse malloc (some line)) ↔ Shrinking (words line)) := by
  rw [parse_of_ne malloc (ne_newline something)]
  exact ⟨storesInBounds_tokenise_iff malloc something, storesInBounds_tokenise_iff malloc something⟩

/-- The line `a b`. -/
def evenLine : List Byte := [97, 32, 98, newline, 0]

/-- Blocks that are handed out cleared. -/
def cleared (size : Nat) : Buffer size := .ofString size []

theorem storesInBounds_iff_evenLine :
    (StoresInBounds (parse cleared (some evenLine)) ↔ Shrinking (words evenLine)) ∧
      (StoresInBounds (HW3.parse cleared (some evenLine)) ↔ Shrinking (words evenLine)) :=
  storesInBounds_iff cleared (by decide)

/-- The line `a bc`: the block for `bc` has two bytes. -/
def growingLine : List Byte := [97, 32, 98, 99, newline, 0]

theorem not_storesInBounds :
    words growingLine ≠ [] ∧ ¬ StoresInBounds (parse cleared (some growingLine)) ∧
      ¬ StoresInBounds (HW3.parse cleared (some growingLine)) := by
  have something : words growingLine ≠ [] := by decide
  have growing : ¬ Shrinking (words growingLine) := by decide
  rw [parse_of_ne cleared (ne_newline something)]
  have tokenised := (storesInBounds_tokenise_iff cleared something).not.mpr growing
  exact ⟨something, tokenised, tokenised⟩

/-- `parse` as documented: NULL when there is no token, and else the tokens in a vector that
ends with NULL. `strlen(NULL)` returns nothing. -/
def Tokenises (line : List Byte) (result : Except Misuse (Option (List Slot))) : Prop :=
  ∃ vector, result = .ok vector ∧ (vector = none ↔ ∀ b ∈ cstr line, isDelim b = true) ∧
    ∀ argv, vector = some argv → ∃ blocks : List Block,
      argv = blocks.map .block ++ [.null] ∧ blocks.map Block.string = words line

/-- The part that the functions share tokenises lines with tokens that never grow. -/
theorem tokenises_tokenise_iff (malloc : (size : Nat) → Buffer size) (line : List Byte) :
    Tokenises line (tokenise malloc line) ↔ words line ≠ [] ∧ Shrinking (words line) := by
  obtain ⟨nothing, failed⟩ | ⟨-, growing, failed⟩ | ⟨something, shrinking, blocks, strings, done⟩ :=
    tokenise_eq malloc line
  · refine iff_of_false ?_ fun shown => shown.1 nothing
    rintro ⟨vector, returned, -⟩
    rw [failed] at returned
    cases returned
  · refine iff_of_false ?_ fun shown => growing shown.2
    rintro ⟨vector, returned, -⟩
    rw [failed] at returned
    cases returned
  · refine iff_of_true ⟨_, done, ?_, ?_⟩ ⟨something, shrinking⟩
    · exact iff_of_false (by simp) fun delims => something (wordsOf_eq_nil_iff.mpr delims)
    · rintro argv same
      cases same
      exact ⟨blocks, rfl, strings⟩

/-- **What `parse` returns.** It behaves as documented exactly for the line that is a single
newline, and for the lines that have a token and none that is longer than the one before
it. -/
theorem tokenises_iff (malloc : (size : Nat) → Buffer size) (line : List Byte) :
    Tokenises line (parse malloc (some line)) ↔
      cstr line = [newline] ∨ words line ≠ [] ∧ Shrinking (words line) := by
  by_cases single : cstr line = [newline]
  · refine iff_of_true ⟨none, if_pos single, ?_, fun argv same => ?_⟩ (.inl single)
    · rw [single]
      exact iff_of_true rfl (by simp [isDelim])
    · cases same
  · rw [parse_of_ne malloc single, tokenises_tokenise_iff, or_iff_right single]

/-- The shell of SP_HW3 does not treat the single newline apart. -/
theorem HW3.tokenises_parse_iff (malloc : (size : Nat) → Buffer size) (line : List Byte) :
    Tokenises line (HW3.parse malloc (some line)) ↔ words line ≠ [] ∧ Shrinking (words line) :=
  tokenises_tokenise_iff malloc line

/-- The line of one space: `strlen(NULL)` is called. -/
def blankLine : List Byte := [32, newline, 0]

theorem not_tokenises :
    parse cleared (some blankLine) = .error .nullToken ∧
      ¬ Tokenises blankLine (parse cleared (some blankLine)) := by
  have nothing : words blankLine = [] := by decide
  rw [parse_of_ne cleared (by decide)]
  obtain ⟨-, failed⟩ | ⟨something, -⟩ | ⟨something, -⟩ := tokenise_eq cleared blankLine
  · rw [failed]
    refine ⟨rfl, ?_⟩
    rintro ⟨vector, returned, -⟩
    cases returned
  · exact absurd nothing something
  · exact absurd nothing something

end LinuxExercises.Shell
