import LinuxExercises.Foundations.Heap
import LinuxExercises.Shell.Prompt

/-!
# What the shell does with its heap

The functions of the shell once more, this time with their vectors and strings in a heap. The
vector moves whenever `parse` makes it longer, and every pointer to the old one is dead then.
`free_argv` goes through a vector up to its first NULL.

Two things keep it from giving back what `parse` has allocated. The last `malloc` of `parse` is
for an entry over which it stores the NULL that ends the vector. And `is_background` stores NULL
over each `&`, in the vector of the shell itself, so that the `&` and all strings behind the first
one stay allocated; a command of the table is not looked through, and its `&` is freed with the
rest.

`parse` itself stores outside its block for a token that is longer than the one before it, and
takes NULL for a string when there is none. When it does so in no line that `main` comes to, and
no command moves the input, nothing else happens to the heap: no pointer to a freed block is
used, none is freed twice, the commands are those of the shell without a heap, and the blocks
that are left are exactly the two kinds above. Otherwise the session faults there
(`accounted_main`).
-/

set_option autoImplicit false

namespace LinuxExercises.Shell.Memory

open Foundations HeapProgram Prompt

/-! ## The code -/

/-- An entry of a vector in memory. -/
inductive Pointer where
  | indeterminate
  | null
  | to (address : Nat)
deriving DecidableEq

/-- A block that `malloc` or `realloc` has handed out: for a string, or for a vector. -/
inductive Cell where
  | chars (b : Block)
  | pointers (entries : List Pointer)

/-- What goes wrong: what goes wrong in `parse` anyhow, or a pointer that leads to no block of its
kind. -/
inductive Failure where
  | misuse (m : Misuse)
  | wild

/-- A function of the shell. -/
abbrev Code := HeapProgram Cell Failure

/-- The vector behind a pointer. -/
def loadEntries (a : Nat) : Code (List Pointer) := do
  match ← load .wild a with
  | .pointers entries => pure entries
  | .chars _ => fail .wild

/-- The block of characters behind a pointer. -/
def loadChars (a : Nat) : Code Block := do
  match ← load .wild a with
  | .chars b => pure b
  | .pointers _ => fail .wild

/-- `newArgv[i] = p`. -/
def setEntry (newArgv i : Nat) (p : Pointer) : Code Unit := do
  let entries ← loadEntries newArgv
  if i < entries.length then store .wild newArgv (.pointers (entries.set i p))
  else fail (.misuse .outOfBlock)

/-- `strcpy` into the block behind a pointer. -/
def strcpy (a : Nat) (token : List Byte) : Code Unit := do
  let b ← loadChars a
  match b.copy token with
  | .ok b => store .wild a (.chars b)
  | .error m => fail (.misuse m)

/-- `strcpy(newArgv[i], token)`. -/
def copyToken (newArgv i : Nat) (token : List Byte) : Code Unit := do
  let entries ← loadEntries newArgv
  match entries[i]? with
  | some (.to a) => strcpy a token
  | _ => fail (.misuse .outOfBlock)

/-- `realloc` of a vector to `n` entries, which hands out another block. -/
def reallocEntries (newArgv n : Nat) : Code Nat := do
  let entries ← loadEntries newArgv
  free .wild newArgv
  HeapProgram.malloc
    (.pointers (entries.take n ++ List.replicate (n - entries.length) .indeterminate))

/-- The vector gets another entry, and a block in it: `realloc`, and `malloc` into
`newArgv[count]` behind `count ++`. -/
def grow (newArgv count : Nat) (b : Block) : Code Nat := do
  let newArgv ← reallocEntries newArgv (count + 1 + 1)
  let a ← HeapProgram.malloc (.chars b)
  setEntry newArgv (count + 1) (.to a)
  pure newArgv

/-- `strlen(token)`. -/
def tokenLength : Option (List Byte × List Byte) → Code Nat
  | none => fail (.misuse .nullToken)
  | some (token, _) => pure token.length

section

-- What a block of this size holds when it is handed out.
variable (fresh : (size : Nat) → Buffer size)

/-- The loop of `parse`. -/
def parseLoop (newArgv count : Nat) (token : Option (List Byte × List Byte)) :
    Code (Nat × Nat) :=
  match token with
  | none => pure (newArgv, count)
  | some (token, rest) => do
      copyToken newArgv count token
      let newArgv ← grow newArgv count ⟨_, fresh (token.length + 1)⟩
      parseLoop newArgv (count + 1) (strtok isDelim rest)
termination_by token.elim 0 fun (_, rest) => rest.length + 1
decreasing_by
  cases found : strtok isDelim rest with
  | none => exact Nat.succ_pos _
  | some pair => exact Nat.succ_lt_succ (length_of_strtok (found : _ = some (pair.1, pair.2)))

/-- `parse` of both shells from the first call of `strtok` on. -/
def tokenise (line : List Byte) : Code (Option Nat) := do
  let token := strtok isDelim (cstr line)
  let newArgv ← HeapProgram.malloc (.pointers [.null])
  let length ← tokenLength token
  let a ← HeapProgram.malloc (.chars ⟨length + 1, .ofString _ []⟩)
  setEntry newArgv 0 (.to a)
  let (newArgv, count) ← parseLoop fresh newArgv 0 token
  setEntry newArgv count .null
  pure (some newArgv)

/-- `parse` of SP_HW5. -/
def parse (line : List Byte) : Code (Option Nat) :=
  if cstr line = [newline] then pure none else tokenise fresh line

end

/-- The loop of `free_argv`, with the entries of the vector that it has not come to. -/
def freeStrings : List Pointer → Code Unit
  | [] => fail .wild
  | .null :: _ => pure ()
  | .indeterminate :: _ => fail .wild
  | .to a :: entries => do
      free .wild a
      freeStrings entries

/-- `free_argv`. -/
def freeArgv (oldArgv : Nat) : Code Unit := do
  let entries ← loadEntries oldArgv
  freeStrings entries
  free .wild oldArgv

/-- The loop of `is_background` from the index `count` on. -/
def detectFrom (myArgv count : Nat) (detect : Bool) : List Pointer → Code Bool
  | [] => fail .wild
  | .null :: _ => pure detect
  | .indeterminate :: _ => fail .wild
  | .to a :: entries => do
      let b ← loadChars a
      if b.string = literal "&" then do
        setEntry myArgv count .null
        detectFrom myArgv (count + 1) true entries
      else detectFrom myArgv (count + 1) detect entries

/-- `is_background` of both shells. -/
def isBackground (myArgv : Nat) : Code Bool := do
  let entries ← loadEntries myArgv
  match entries with
  | .null :: _ => pure false
  | _ => detectFrom myArgv 0 false entries

/-- The strings of a vector up to its NULL, as the commands read them. -/
def readStrings : List Pointer → Code Argv
  | [] => fail .wild
  | .null :: _ => pure []
  | .indeterminate :: _ => fail .wild
  | .to a :: entries => do
      let b ← loadChars a
      let later ← readStrings entries
      pure (b.string :: later)

/-- The vector as the commands read it. -/
def readArgv (myArgv : Nat) : Code Argv := do
  let entries ← loadEntries myArgv
  readStrings entries

/-- `is_builtin`, which leaves the heap alone. -/
def inTable (argv : Argv) : Bool := (argv.head?.map keywords.contains).getD false

/-- What becomes of a vector before the command runs: `run_command` calls `is_background`, and
`do_builtin` does not. -/
def prepare (argv : Argv) (myArgv : Nat) : Code Unit :=
  if inTable argv then pure ()
  else do
    let _ ← isBackground myArgv
    pure ()

/-- A command of `main`, and `free_argv` when it comes back. -/
def serveCommand (world : World) (handed : List Argv) (stdin : Stream) (myArgv : Nat) :
    Code (List Argv × Option Stream) := do
  let argv ← readArgv myArgv
  prepare argv myArgv
  match world.carryOut (handed ++ [argv]) stdin with
  | some stdin => do
    freeArgv myArgv
    pure (handed ++ [argv], some stdin)
  | none => pure (handed ++ [argv], none)

section

variable (fresh : (size : Nat) → Buffer size) (world : World)

/-- The loop of `main`. -/
def mainLoop : Nat → Buffer longline → Stream → List Argv → Heap Cell →
    Except Fault (Session × Heap Cell)
  | 0, _, _, _, _ => .error .outOfFuel
  | fuel + 1, line, stdin, handed, heap => do
    let (more, line, stdin) ← stdin.fgets line 0 longline
    if more then
      match parse fresh line.bytes heap with
      | .error _ => .error .outOfBounds
      | .ok (none, heap) => mainLoop fuel line stdin handed heap
      | .ok (some myArgv, heap) =>
        match serveCommand world handed stdin myArgv heap with
        | .error _ => .error .outOfBounds
        | .ok ((handed, some stdin), heap) => mainLoop fuel line stdin handed heap
        | .ok ((handed, none), heap) => .ok (⟨handed, .inCommand⟩, heap)
    else .ok (⟨handed, .atEnd⟩, heap)

/-- `main`. -/
def main (line : Buffer longline) (input : List Byte) (fuel : Nat) :
    Except Fault (Session × Heap Cell) :=
  mainLoop fresh world fuel line (Stream.fopen input) [] .empty

end

/-! ## Vectors in memory -/

/-- The blocks of strings at these addresses. -/
def strings (blocks : List (Nat × Block)) : List (Nat × Cell) :=
  blocks.map fun p => (p.1, .chars p.2)

/-- The entries that point to them. -/
def pointersTo (blocks : List (Nat × Block)) : List Pointer := blocks.map fun p => .to p.1

/-- A vector with these strings, and with more entries behind them. -/
def vector (v : Nat) (blocks : List (Nat × Block)) (more : List Pointer) : List (Nat × Cell) :=
  (v, .pointers (pointersTo blocks ++ more)) :: strings blocks

/-- What a vector says. -/
def texts (blocks : List (Nat × Block)) : Argv := blocks.map fun p => p.2.string

section Accesses

variable {v a : Nat} {entries : List Pointer} {b : Block} (before : List (Nat × Cell))
  {after pre : List (Nat × Cell)}

theorem triple_loadEntries (member : (v, .pointers entries) ∈ pre) :
    Triple pre (loadEntries v) fun r mine => r = entries ∧ mine = pre := by
  refine (Triple.load_of_mem member).bind fun c mine same => ?_
  obtain ⟨rfl, rfl⟩ := same
  exact Triple.of_pure ⟨rfl, rfl⟩

theorem triple_loadChars (member : (a, .chars b) ∈ pre) :
    Triple pre (loadChars a) fun r mine => r = b ∧ mine = pre := by
  refine (Triple.load_of_mem member).bind fun c mine same => ?_
  obtain ⟨rfl, rfl⟩ := same
  exact Triple.of_pure ⟨rfl, rfl⟩

theorem triple_setEntry {i : Nat} (within : i < entries.length) (p : Pointer) :
    Triple (before ++ (v, .pointers entries) :: after) (setEntry v i p) fun _ mine =>
      mine = before ++ (v, .pointers (entries.set i p)) :: after := by
  have here : (v, Cell.pointers entries) ∈ before ++ (v, .pointers entries) :: after :=
    List.mem_append_right _ (List.mem_cons_self ..)
  refine (triple_loadEntries here).bind fun r mine same => ?_
  obtain ⟨rfl, rfl⟩ := same
  rw [if_pos within]
  exact Triple.store before

theorem triple_reallocEntries (n : Nat) :
    Triple ((v, .pointers entries) :: after) (reallocEntries v n) fun v' mine =>
      mine = (v', .pointers (entries.take n ++
        List.replicate (n - entries.length) .indeterminate)) :: after := by
  refine (triple_loadEntries (List.mem_cons_self ..)).bind fun r mine same => ?_
  obtain ⟨rfl, rfl⟩ := same
  refine (Triple.free []).bind fun _ mine same => ?_
  subst same
  exact Triple.malloc

theorem triple_strcpy {token : List Byte} (clean : ∀ c ∈ token, c ≠ 0)
    (fits : token.length + 1 ≤ b.size) :
    Triple (before ++ (a, .chars b) :: after) (strcpy a token) fun _ mine =>
      ∃ c, c.string = token ∧ mine = before ++ (a, .chars c) :: after := by
  obtain ⟨c, copied, string⟩ := Block.copy_of_le clean fits
  have here : (a, Cell.chars b) ∈ before ++ (a, .chars b) :: after :=
    List.mem_append_right _ (List.mem_cons_self ..)
  refine (triple_loadChars here).bind fun r mine same => ?_
  obtain ⟨rfl, rfl⟩ := same
  rw [copied]
  exact (Triple.store before).mono fun _ mine same => ⟨mine, .refl _, c, string, same⟩

theorem faults_strcpy {token : List Byte} (long : b.size < token.length + 1) :
    Faults (before ++ (a, .chars b) :: after) (strcpy a token) (.misuse .outOfBlock) := by
  have here : (a, Cell.chars b) ∈ before ++ (a, .chars b) :: after :=
    List.mem_append_right _ (List.mem_cons_self ..)
  refine Faults.bind_right (triple_loadChars here) fun r mine same => ?_
  obtain ⟨rfl, rfl⟩ := same
  rw [Block.copy_of_lt long]
  exact Faults.of_fail

end Accesses

/-! ## The tokeniser -/

section Parse

variable {v last : Nat} {filled : List (Nat × Block)} {b : Block} {token : List Byte}

/-- The strings of a vector, the last one apart. -/
theorem vector_last : vector v (filled ++ [(last, b)]) [] =
    ((v, .pointers (pointersTo (filled ++ [(last, b)]) ++ [])) :: strings filled) ++
      (last, .chars b) :: [] := by
  simp [vector, strings]

theorem entry_last : (pointersTo (filled ++ [(last, b)]) ++ [])[filled.length]? =
    some (.to last) := by
  simp [pointersTo]

theorem triple_copyToken (clean : ∀ c ∈ token, c ≠ 0) (fits : token.length + 1 ≤ b.size) :
    Triple (vector v (filled ++ [(last, b)]) []) (copyToken v filled.length token) fun _ mine =>
      ∃ c, c.string = token ∧ mine = vector v (filled ++ [(last, c)]) [] := by
  rw [vector_last]
  refine (triple_loadEntries (List.mem_cons_self ..)).bind fun r mine same => ?_
  obtain ⟨rfl, rfl⟩ := same
  rw [entry_last]
  change Triple (((v, _) :: strings filled) ++ (last, .chars b) :: []) (strcpy last token) _
  refine (triple_strcpy _ clean fits).mono fun _ mine copied => ⟨mine, .refl _, ?_⟩
  obtain ⟨c, string, rfl⟩ := copied
  exact ⟨c, string, by simp [vector, strings, pointersTo]⟩

theorem faults_copyToken (long : b.size < token.length + 1) :
    Faults (vector v (filled ++ [(last, b)]) []) (copyToken v filled.length token)
      (.misuse .outOfBlock) := by
  rw [vector_last]
  refine Faults.bind_right (triple_loadEntries (List.mem_cons_self ..)) fun r mine same => ?_
  obtain ⟨rfl, rfl⟩ := same
  rw [entry_last]
  exact faults_strcpy _ long

theorem triple_grow (b' : Block) :
    Triple (vector v (filled ++ [(last, b)]) []) (grow v filled.length b') fun v' mine =>
      ∃ a, mine = vector v' (filled ++ [(last, b)] ++ [(a, b')]) [] := by
  refine (triple_reallocEntries _).bind fun v' mine same => ?_
  subst same
  refine Triple.malloc.bind fun a mine same => ?_
  subst same
  have length : (pointersTo (filled ++ [(last, b)])).length = filled.length + 1 := by
    simp [pointersTo]
  rw [List.append_nil, List.take_of_length_le (by omega), length, Nat.add_sub_cancel_left]
  refine (triple_setEntry [_] (by simp [length]) (.to a)).bind fun _ mine same => ?_
  subst same
  have stored : (pointersTo (filled ++ [(last, b)]) ++ List.replicate 1 Pointer.indeterminate).set
      (filled.length + 1) (.to a) =
        pointersTo (filled ++ [(last, b)] ++ [(a, b')]) ++ [] := by
    rw [← length, List.set_append_right _ _ (Nat.le_refl _), Nat.sub_self]
    simp [pointersTo]
  refine Triple.of_pure_perm ?_ ⟨a, rfl⟩
  rw [stored, vector, strings, strings, List.map_append, List.map_append, List.map_append]
  exact (List.Perm.swap ..).trans ((List.perm_append_singleton ..).symm.cons _)

variable {fresh : (size : Nat) → Buffer size} {tokens : List (List Byte)}

/-- Tokens that fit become the strings of the vector, and the block for the next one is behind
them. The induction is on the tokens, with the strings copied so far in front. -/
theorem triple_parseLoop :
    ∀ {filled : List (Nat × Block)} {b : Block} {v last : Nat}
      {token : Option (List Byte × List Byte)},
      wordsFrom token = tokens → (∀ t ∈ tokens, ∀ c ∈ t, c ≠ 0) → Fit b.size tokens →
      Triple (vector v (filled ++ [(last, b)]) []) (parseLoop fresh v filled.length token)
        fun r mine => ∃ blocks last' b', r.2 = (filled ++ blocks).length ∧ texts blocks = tokens ∧
          mine = vector r.1 (filled ++ blocks ++ [(last', b')]) [] := by
  induction tokens with
  | nil =>
      intro filled b v last token words _ _
      cases token with
      | none =>
          rw [parseLoop]
          exact Triple.of_pure ⟨[], last, b, by simp, rfl, by simp⟩
      | some pair => cases words
  | cons t later ih =>
      intro filled b v last token words clean fit
      cases token with
      | none => cases words
      | some pair =>
          obtain ⟨t', rest⟩ := pair
          obtain ⟨rfl, rfl⟩ := List.cons.inj words
          rw [List.forall_mem_cons] at clean
          rw [parseLoop]
          refine (triple_copyToken clean.1 fit.1).bind fun _ mine copied => ?_
          obtain ⟨c, string, rfl⟩ := copied
          refine (triple_grow _).bind fun v' mine grown => ?_
          obtain ⟨a, rfl⟩ := grown
          have goesOn := @ih (filled ++ [(last, c)]) ⟨_, fresh (t'.length + 1)⟩ v' a _
            (wordsFrom_strtok rest) clean.2 fit.2
          rw [List.length_append, List.length_singleton] at goesOn
          refine goesOn.mono fun r mine done => ⟨mine, .refl _, ?_⟩
          obtain ⟨blocks, last', b', count, same, rfl⟩ := done
          refine ⟨(last, c) :: blocks, last', b', ?_, ?_, ?_⟩
          · rw [count, List.append_assoc, List.singleton_append]
          · rw [texts, List.map_cons, string]
            exact congrArg _ same
          · rw [List.append_assoc filled, List.singleton_append]

theorem faults_parseLoop :
    ∀ {filled : List (Nat × Block)} {b : Block} {v last : Nat}
      {token : Option (List Byte × List Byte)},
      wordsFrom token = tokens → (∀ t ∈ tokens, ∀ c ∈ t, c ≠ 0) → ¬ Fit b.size tokens →
      Faults (vector v (filled ++ [(last, b)]) []) (parseLoop fresh v filled.length token)
        (.misuse .outOfBlock) := by
  induction tokens with
  | nil => exact fun _ _ tooLong => absurd trivial tooLong
  | cons t later ih =>
      intro filled b v last token words clean tooLong
      cases token with
      | none => cases words
      | some pair =>
          obtain ⟨t', rest⟩ := pair
          obtain ⟨rfl, rfl⟩ := List.cons.inj words
          rw [List.forall_mem_cons] at clean
          rw [parseLoop]
          by_cases fits : t'.length + 1 ≤ b.size
          · refine Faults.bind_right (triple_copyToken clean.1 fits) fun _ mine copied => ?_
            obtain ⟨c, -, rfl⟩ := copied
            refine Faults.bind_right (triple_grow _) fun v' mine grown => ?_
            obtain ⟨a, rfl⟩ := grown
            have fails := @ih (filled ++ [(last, c)]) ⟨_, fresh (t'.length + 1)⟩ v' a _
              (wordsFrom_strtok rest) clean.2 fun fit => tooLong ⟨fits, fit⟩
            rwa [List.length_append, List.length_singleton] at fails
          · exact Faults.bind_left (faults_copyToken (Nat.lt_of_not_le fits))

/-- **`tokenise` in memory.** For a line that it handles there is a vector of its tokens, and one
more block, to which nothing points. -/
theorem triple_tokenise {line : List Byte} (something : words line ≠ [])
    (shrinking : Shrinking (words line)) :
    Triple [] (tokenise fresh line) fun r mine => ∃ v blocks last b, r = some v ∧
      texts blocks = words line ∧ mine = vector v blocks [.null] ++ [(last, .chars b)] := by
  have clean : ∀ t ∈ words line, ∀ c ∈ t, c ≠ 0 := fun t member c inside =>
    cstr_ne_zero ((mem_wordsOf member).2 c inside).1
  have start := wordsFrom_strtok (cstr line)
  rw [tokenise]
  cases found : strtok isDelim (cstr line) with
  | none =>
      rw [found] at start
      exact absurd start.symm something
  | some pair =>
      obtain ⟨t, rest⟩ := pair
      rw [found] at start
      have tokens : words line = t :: wordsOf isDelim rest := start.symm
      have fit := (fit_iff_shrinking t (wordsOf isDelim rest)).mpr (tokens ▸ shrinking)
      refine Triple.malloc.bind fun v mine same => ?_
      subst same
      change Triple _ (pure t.length >>= _) _
      rw [pure_bind]
      refine Triple.malloc.bind fun last mine same => ?_
      subst same
      refine (triple_setEntry [_] (Nat.zero_lt_one) (.to last)).bind fun _ mine same => ?_
      subst same
      refine Triple.of_perm (List.Perm.swap ..) ?_
      refine (@triple_parseLoop fresh _ [] ⟨t.length + 1, .ofString _ []⟩ v last _ start clean
        (show Fit (t.length + 1) (words line) from tokens ▸ fit)).bind fun r mine looped => ?_
      obtain ⟨blocks, last', b', count, same, rfl⟩ := looped
      obtain ⟨v', count'⟩ := r
      obtain rfl : count' = blocks.length := count
      refine (triple_setEntry [] (by simp [pointersTo]) .null).bind fun _ mine stored => ?_
      subst stored
      refine Triple.of_pure ⟨v', blocks, last', b', rfl, same, ?_⟩
      simp [vector, strings, pointersTo]

/-- In front of the stores that go wrong nothing else does. -/
theorem faults_tokenise {line : List Byte} :
    (words line = [] → Faults [] (tokenise fresh line) (.misuse .nullToken)) ∧
      (words line ≠ [] → ¬ Shrinking (words line) →
        Faults [] (tokenise fresh line) (.misuse .outOfBlock)) := by
  have clean : ∀ t ∈ words line, ∀ c ∈ t, c ≠ 0 := fun t member c inside =>
    cstr_ne_zero ((mem_wordsOf member).2 c inside).1
  have start := wordsFrom_strtok (cstr line)
  rw [tokenise]
  cases found : strtok isDelim (cstr line) with
  | none =>
      rw [found] at start
      refine ⟨fun _ => Faults.bind_right Triple.malloc fun _ _ _ => ?_, fun something =>
        absurd start.symm something⟩
      exact Faults.bind_left Faults.of_fail
  | some pair =>
      obtain ⟨t, rest⟩ := pair
      rw [found] at start
      have tokens : words line = t :: wordsOf isDelim rest := start.symm
      refine ⟨fun nothing => by simp [tokens] at nothing, fun _ growing => ?_⟩
      have unfit := mt (fit_iff_shrinking t (wordsOf isDelim rest)).mp (tokens ▸ growing)
      refine Faults.bind_right Triple.malloc fun v mine same => ?_
      subst same
      change Faults _ (pure t.length >>= _) _
      rw [pure_bind]
      refine Faults.bind_right Triple.malloc fun last mine same => ?_
      subst same
      refine Faults.bind_right (triple_setEntry [_] (Nat.zero_lt_one) (.to last))
        fun _ mine same => ?_
      subst same
      refine Faults.of_perm (List.Perm.swap ..) (Faults.bind_left ?_)
      exact @faults_parseLoop fresh _ [] ⟨t.length + 1, .ofString _ []⟩ v last _ start clean
        (show ¬ Fit (t.length + 1) (words line) from tokens ▸ unfit)

end Parse

/-! ## The vector of a command -/

section Command

variable {v : Nat} {blocks : List (Nat × Block)} {pre beside : List (Nat × Cell)}

theorem triple_readStrings (present : strings blocks ⊆ pre) (more : List Pointer) :
    Triple pre (readStrings (pointersTo blocks ++ .null :: more)) fun r mine =>
      r = texts blocks ∧ mine = pre := by
  induction blocks with
  | nil => exact Triple.of_pure ⟨rfl, rfl⟩
  | cons p blocks ih =>
      have rest := List.cons_subset.mp present
      refine (triple_loadChars rest.1).bind fun b mine same => ?_
      obtain ⟨rfl, rfl⟩ := same
      refine (ih rest.2).bind fun later mine same => ?_
      obtain ⟨rfl, rfl⟩ := same
      exact Triple.of_pure ⟨rfl, rfl⟩

/-- What `is_background` leaves of an entry. -/
def mark (p : Nat × Block) : Pointer := if p.2.string = literal "&" then .null else .to p.1

/-- The loop of `is_background` stores NULL over each `&`. The induction is on the strings that it
has not come to. -/
theorem triple_detectFrom {seen : List Pointer} {detect : Bool}
    (present : strings blocks ⊆ beside) :
    Triple ((v, .pointers (seen ++ (pointersTo blocks ++ [.null]))) :: beside)
      (detectFrom v seen.length detect (pointersTo blocks ++ [.null])) fun _ mine =>
        mine = (v, .pointers (seen ++ (blocks.map mark ++ [.null]))) :: beside := by
  induction blocks generalizing seen detect with
  | nil => exact Triple.of_pure rfl
  | cons p blocks ih =>
      have rest := List.cons_subset.mp present
      refine (triple_loadChars (List.mem_cons_of_mem _ rest.1)).bind fun b mine same => ?_
      obtain ⟨rfl, rfl⟩ := same
      by_cases isAnd : p.2.string = literal "&"
      · rw [if_pos isAnd]
        refine (triple_setEntry [] (by simp [pointersTo]) .null).bind fun _ mine stored => ?_
        subst stored
        have goesOn := @ih (seen ++ [.null]) true rest.2
        rw [List.length_append, List.length_singleton] at goesOn
        simpa [pointersTo, mark, isAnd] using goesOn
      · rw [if_neg isAnd]
        have goesOn := @ih (seen ++ [.to p.1]) detect rest.2
        rw [List.length_append, List.length_singleton] at goesOn
        simpa [pointersTo, mark, isAnd] using goesOn

theorem triple_isBackground :
    Triple (vector v blocks [.null] ++ beside) (isBackground v) fun _ mine =>
      mine = (v, .pointers (blocks.map mark ++ [.null])) :: (strings blocks ++ beside) := by
  refine (triple_loadEntries (List.mem_cons_self ..)).bind fun r mine same => ?_
  obtain ⟨rfl, rfl⟩ := same
  cases blocks with
  | nil => exact Triple.of_pure rfl
  | cons p blocks =>
      exact @triple_detectFrom v (p :: blocks) _ [] false (List.subset_append_left ..)

/-- `free_argv` frees the strings in front of the first NULL. -/
theorem triple_freeStrings (before : List (Nat × Cell)) (more : List Pointer) :
    Triple (before ++ (strings blocks ++ beside))
      (freeStrings (pointersTo blocks ++ .null :: more)) fun _ mine => mine = before ++ beside := by
  induction blocks with
  | nil => exact Triple.of_pure rfl
  | cons p blocks ih =>
      refine (Triple.free before).bind fun _ mine same => ?_
      subst same
      exact ih

theorem triple_freeArgv {more : List Pointer} :
    Triple ((v, .pointers (pointersTo blocks ++ .null :: more)) :: (strings blocks ++ beside))
      (freeArgv v) fun _ mine => mine = beside := by
  refine (triple_loadEntries (List.mem_cons_self ..)).bind fun r mine same => ?_
  obtain ⟨rfl, rfl⟩ := same
  refine (triple_freeStrings [_] more).bind fun _ mine same => ?_
  subst same
  exact (Triple.free []).mono fun _ mine same => ⟨mine, .refl _, same⟩

/-- The strings in front of the first `&`, and the others. -/
theorem map_mark (blocks : List (Nat × Block)) : ∃ kept lost more,
    blocks = kept ++ lost ∧ blocks.map mark ++ [.null] = pointersTo kept ++ .null :: more ∧
      texts lost = (texts blocks).dropWhile (· ≠ literal "&") := by
  induction blocks with
  | nil => exact ⟨[], [], [], rfl, rfl, rfl⟩
  | cons p blocks ih =>
      by_cases isAnd : p.2.string = literal "&"
      · refine ⟨[], p :: blocks, blocks.map mark ++ [.null], rfl, ?_, ?_⟩
        · simp [mark, isAnd, pointersTo]
        · rw [texts, List.map_cons, List.dropWhile_cons_of_neg (by simpa using isAnd)]
      · obtain ⟨kept, lost, more, rfl, marked, same⟩ := ih
        refine ⟨p :: kept, lost, more, rfl, ?_, ?_⟩
        · rw [List.map_cons, List.cons_append, marked, mark, if_neg isAnd]
          rfl
        · rw [same, texts, texts, List.map_cons, List.dropWhile_cons_of_pos (by simpa using isAnd)]

/-- How many blocks of a command are not given back: the block behind its last string, and when
it is not in the table those of the first `&` and of what is behind it. -/
def leaked (argv : Argv) : Nat :=
  1 + if inTable argv then 0 else (argv.dropWhile (· ≠ literal "&")).length

theorem triple_prepare : Triple (vector v blocks [.null] ++ beside) (prepare (texts blocks) v)
    fun _ mine => ∃ kept lost more, blocks = kept ++ lost ∧
      lost.length + 1 = leaked (texts blocks) ∧
      mine = (v, .pointers (pointersTo kept ++ .null :: more)) :: (strings blocks ++ beside) := by
  rw [prepare]
  by_cases inside : inTable (texts blocks) = true
  · rw [if_pos inside]
    refine Triple.of_pure ⟨blocks, [], [], by simp, ?_, rfl⟩
    rw [leaked, if_pos inside, List.length_nil]
  · rw [if_neg inside]
    refine triple_isBackground.bind fun _ mine same => ?_
    subst same
    obtain ⟨kept, lost, more, split, marked, same⟩ := map_mark blocks
    refine Triple.of_pure ⟨kept, lost, more, split, ?_, by rw [marked]⟩
    rw [leaked, if_neg inside, ← same, texts, List.length_map, Nat.add_comm]

theorem triple_readArgv : Triple (vector v blocks [.null] ++ beside) (readArgv v) fun r mine =>
    r = texts blocks ∧ mine = vector v blocks [.null] ++ beside := by
  refine (triple_loadEntries (List.mem_cons_self ..)).bind fun r mine same => ?_
  obtain ⟨rfl, rfl⟩ := same
  refine triple_readStrings (fun cell member => ?_) []
  exact List.mem_cons_of_mem _ (List.mem_append_left _ member)

/-- **The step lemma.** A command gives back its vector and all strings but the leaked ones, and one
that does not come back keeps all. -/
theorem triple_serveCommand {world : World} {handed : List Argv} {stdin : Stream} {last : Nat}
    {b : Block} :
    Triple (vector v blocks [.null] ++ [(last, .chars b)]) (serveCommand world handed stdin v)
      fun r mine =>
        r = (handed ++ [texts blocks], world.carryOut (handed ++ [texts blocks]) stdin) ∧
        mine.length = if r.2.isSome then leaked (texts blocks) else (texts blocks).length + 2 := by
  refine triple_readArgv.bind fun argv mine same => ?_
  obtain ⟨rfl, rfl⟩ := same
  refine triple_prepare.bind fun _ mine prepared => ?_
  obtain ⟨kept, lost, more, rfl, count, rfl⟩ := prepared
  cases back : world.carryOut (handed ++ [texts (kept ++ lost)]) stdin with
  | some stdin =>
      rw [strings, List.map_append, List.append_assoc]
      refine (@triple_freeArgv v kept _ more).bind fun _ mine same => ?_
      subst same
      refine Triple.of_pure ⟨rfl, ?_⟩
      simpa using count
  | none =>
      refine Triple.of_pure ⟨rfl, ?_⟩
      simp [strings, texts, Nat.add_assoc]

end Command

/-! ## Sessions -/

/-- How many blocks there are at the end of a session: those that the commands that came back have
not given back, and all of the vector of one that did not. -/
def kept (session : Session) : Nat :=
  match session.ending with
  | .inCommand => (session.handed.dropLast.map leaked).sum +
      (session.handed.getLast?.elim 0 fun argv => argv.length + 2)
  | _ => (session.handed.map leaked).sum

/-- How a session ends in memory: in a fault when `parse` has gone wrong, and otherwise with the
blocks that it keeps. -/
structure Accounted (session : Session) (program : Nat → Except Fault (Session × Heap Cell)) :
    Prop where
  kept : (∀ m, session.ending ≠ .misused m) →
    ∃ heap, Returns program (session, heap) ∧ heap.cells.length = kept session
  faults : ∀ m, session.ending = .misused m →
    ∃ bound, ∀ fuel, bound ≤ fuel → program fuel = .error .outOfBounds

/-- The last round of a session that ends well. -/
theorem accounted_of_last {session : Session} {heap : Heap Cell}
    {program : Nat → Except Fault (Session × Heap Cell)}
    (well : ∀ m, session.ending ≠ .misused m) (count : heap.cells.length = kept session)
    (last : ∀ fuel, program (fuel + 1) = .ok (session, heap)) : Accounted session program where
  kept := fun _ => ⟨heap, Returns.of_last last, count⟩
  faults := fun m misused => absurd misused (well m)

/-- The last round of one in which `parse` goes wrong. -/
theorem accounted_of_fault {session : Session} {m : Misuse}
    {program : Nat → Except Fault (Session × Heap Cell)} (misused : session.ending = .misused m)
    (last : ∀ fuel, program (fuel + 1) = .error .outOfBounds) : Accounted session program where
  kept := fun well => absurd misused (well m)
  faults := by
    refine fun _ _ => ⟨1, fun fuel enough => ?_⟩
    obtain ⟨fuel, rfl⟩ := Nat.exists_eq_add_one_of_ne_zero (Nat.ne_of_gt enough)
    exact last fuel

/-- A round in front of others. -/
theorem Accounted.of_round {session : Session}
    {program later : Nat → Except Fault (Session × Heap Cell)} (accounted : Accounted session later)
    (round : ∀ fuel, program (fuel + 1) = later fuel) : Accounted session program where
  kept := by
    intro well
    obtain ⟨heap, returned, count⟩ := accounted.kept well
    exact ⟨heap, Returns.of_round round returned, count⟩
  faults := by
    intro m misused
    obtain ⟨bound, faulted⟩ := accounted.faults m misused
    refine ⟨bound + 1, fun fuel enough => ?_⟩
    obtain ⟨fuel, rfl⟩ := Nat.exists_eq_add_of_le' enough
    exact (round (fuel + bound)).trans (faulted _ (Nat.le_add_left ..))

section Main

variable (fresh : (size : Nat) → Buffer size) {world : World}

/-- `parse` in memory finds what `parse` finds. -/
theorem parse_line (line : List Byte) (heap : Heap Cell) :
    (cstr line = [newline] ∧ parse fresh line heap = .ok (none, heap)) ∨
    (cstr line ≠ [newline] ∧ words line = [] ∧
      parse fresh line heap = .error (.misuse .nullToken)) ∨
    (cstr line ≠ [newline] ∧ words line ≠ [] ∧ ¬ Shrinking (words line) ∧
      parse fresh line heap = .error (.misuse .outOfBlock)) ∨
    (cstr line ≠ [newline] ∧ words line ≠ [] ∧ Shrinking (words line) ∧
      ∃ v blocks last b heap', parse fresh line heap = .ok (some v, heap') ∧
        texts blocks = words line ∧
        heap'.cells.Perm (vector v blocks [.null] ++ [(last, .chars b)] ++ heap.cells)) := by
  by_cases single : cstr line = [newline]
  · exact .inl ⟨single, by rw [parse, if_pos single]; rfl⟩
  refine .inr ?_
  rw [parse, if_neg single]
  by_cases something : words line = []
  · exact .inl ⟨single, something, faults_tokenise.1 something heap heap.cells (.refl _)⟩
  refine .inr ?_
  by_cases shrinking : Shrinking (words line)
  · obtain ⟨r, heap', mine, ran, ⟨v, blocks, last, b, rfl, same, rfl⟩, split⟩ :=
      @triple_tokenise fresh line something shrinking heap heap.cells (.refl _)
    exact .inr ⟨single, something, shrinking, v, blocks, last, b, heap', ran, same, split⟩
  · exact .inl ⟨single, something, shrinking,
      faults_tokenise.2 something shrinking heap heap.cells (.refl _)⟩

/-- **Every session.** The session is that of the pieces of the input, and at its end there are
the blocks that it keeps. The induction is on the input that is left. -/
theorem accounted_mainLoop (leaves : world.LeavesInput) (line : Buffer longline) (stdin : Stream)
    (handed : List Argv) (heap : Heap Cell)
    (sum : heap.cells.length = (handed.map leaked).sum) :
    Accounted (world.serve (pieces 253 stdin.rest) handed)
      fun fuel => mainLoop fresh world fuel line stdin handed heap := by
  induction length : stdin.rest.length using Nat.strongRecOn
    generalizing line stdin handed heap with
  | ind _ ih =>
      by_cases ended : stdin.rest = []
      · rw [ended, pieces_nil]
        refine accounted_of_last (by simp [World.serve]) sum fun fuel => ?_
        rw [mainLoop, Stream.fgets_at_end ended, ok_bind]
        rfl
      obtain ⟨line', stdin', read, holds, left⟩ := @Stream.fgets_piece longline 253 line stdin ended
        (Nat.le_refl _)
      have read : stdin.fgets line 0 longline = .ok (true, line', stdin') := read
      have shorter : stdin'.rest.length < stdin.rest.length := by
        have some : 0 < (Stream.takeLine (253 + 1) stdin.rest).length :=
          List.length_pos_iff.mpr (@Stream.takeLine_ne 253 _ ended)
        have all := List.length_pos_iff.mpr ended
        rw [left, List.length_drop]
        omega
      have goesOn := fun handed heap sum => ih _ (length ▸ shorter) line' stdin' handed heap sum rfl
      rw [left] at goesOn
      have same := words_of_cstr holds
      rw [pieces_of_ne ended, World.serve, ← same, ← holds]
      rcases parse_line fresh line'.bytes heap with ⟨single, parsed⟩ | ⟨longer, nothing, parsed⟩ |
        ⟨longer, something, growing, parsed⟩ | ⟨longer, something, shrinking, found⟩
      · rw [if_pos single]
        refine (goesOn handed heap sum).of_round fun fuel => ?_
        rw [mainLoop, read, ok_bind]
        dsimp only
        rw [if_pos rfl, parsed]
      · rw [if_neg longer, if_pos nothing]
        refine accounted_of_fault rfl fun fuel => ?_
        rw [mainLoop, read, ok_bind]
        dsimp only
        rw [if_pos rfl, parsed]
      · rw [if_neg longer, if_neg something, if_neg growing]
        refine accounted_of_fault rfl fun fuel => ?_
        rw [mainLoop, read, ok_bind]
        dsimp only
        rw [if_pos rfl, parsed]
      · obtain ⟨v, blocks, last, b, heap₁, parsed, tokens, split⟩ := found
        rw [if_neg longer, if_neg something, if_pos shrinking, ← tokens]
        obtain ⟨r, heap₂, mine, served, ⟨rfl, count⟩, split₂⟩ :=
          @triple_serveCommand v blocks world handed stdin' last b heap₁ heap.cells split
        have total := split₂.length_eq
        rw [List.length_append, sum, count] at total
        rw [leaves.carryOut_eq] at served total
        have round : ∀ fuel, mainLoop fresh world (fuel + 1) line stdin handed heap =
            match serveCommand world handed stdin' v heap₁ with
            | .error _ => .error .outOfBounds
            | .ok ((handed, some stdin), heap) => mainLoop fresh world fuel line' stdin handed heap
            | .ok ((handed, none), heap) => .ok (⟨handed, .inCommand⟩, heap) := by
          intro fuel
          rw [mainLoop, read, ok_bind]
          dsimp only
          rw [if_pos rfl, parsed]
        rw [served] at round
        cases back : world.comesBack (handed ++ [texts blocks]) with
        | true =>
            rw [back] at round total
            exact (goesOn (handed ++ [texts blocks]) heap₂
              (by simpa [Nat.add_comm] using total)).of_round round
        | false =>
            rw [back] at round total
            exact accounted_of_last (by simp) (by simpa [kept, Nat.add_comm] using total) round

/-- **The shell frees no block twice and uses none that it has freed**, and what it keeps is exactly
known. When no command moves the input, the session in memory has the vectors of the session
without a heap. When that one ends in `parse`, this one faults there; otherwise it comes to the same
end, with as many blocks as it keeps by then. -/
theorem accounted_main (leaves : world.LeavesInput) (line : Buffer longline)
    (input : List Byte) :
    ∃ session, Returns (Prompt.main fresh world line input) session ∧
      Accounted session (main fresh world line input) :=
  ⟨_, returns_serve fresh leaves line (Stream.fopen input) [],
    accounted_mainLoop fresh leaves line (Stream.fopen input) [] .empty rfl⟩

/-- The command `ls` gives back its vector and its string, and the block behind it stays. -/
theorem accounted_main_listInput :
    ∃ session, Returns (Prompt.main cleared plainWorld (cleared longline) listInput) session ∧
      Accounted session (main cleared plainWorld (cleared longline) listInput) :=
  accounted_main cleared plainWorld_leavesInput (cleared longline) listInput

end Main

end LinuxExercises.Shell.Memory
