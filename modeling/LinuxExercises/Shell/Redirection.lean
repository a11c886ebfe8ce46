import Mathlib.Data.List.TakeWhile
import LinuxExercises.Shell.Pipeline

/-!
# Redirections of the shell

Before `pipe_and_exec`, the child of `run_command` handles redirections in two passes
over its vector, `redirect_in` for `<` and then `redirect_out` for `>`. A pass that finds
its operator opens the file that follows, moves it to the standard descriptor and stores
NULL over the operator and the file name. These NULLs end the vector: what stands behind
them is still there, but neither the second pass nor `pipe_and_exec` looks past a NULL.

So a redirection hides every word and every `|` behind it, and `<` also hides a `>`
behind it. A command line is carried out exactly when nothing is hidden in this way, that
is when the redirections stand at its end, `>` before `<` (`meets_runChild_iff`).
-/

set_option autoImplicit false

namespace LinuxExercises.Shell

open Foundations

/-! ## The code -/

/-- The files that `open` succeeds on, for reading and for writing. -/
structure Files where
  readable : String → Bool
  writable : String → Bool

/-- The child of `run_command`: its vector with the NULLs in it, its descriptors, and the
files that its redirections have opened. -/
structure Child where
  argv : List (Option String)
  fds : Descriptors OpenFile
  opened : List OpenFile
deriving DecidableEq

/-- What `redirect_in` and `redirect_out` differ in. -/
structure Redirection where
  operator : String
  canOpen : String → Bool
  file : String → OpenFile
  target : Nat

namespace Redirection

/-- The pass at its operator, with the entries that follow it. It fails where the file
cannot be opened, also because there is no file name. -/
def apply (r : Redirection) (rest : List (Option String)) (fds : Descriptors OpenFile)
    (opened : List OpenFile) : Int × Child :=
  match rest with
  | some path :: after =>
    if r.canOpen path then
      (0, ⟨none :: none :: after, fds.redirect (r.file path) r.target, opened ++ [r.file path]⟩)
    else (-1, ⟨some r.operator :: rest, fds, opened⟩)
  | _ => (-1, ⟨some r.operator :: rest, fds, opened⟩)

/-- The loop of a pass from one entry of the vector on. Behind the two NULLs that it
stores, it meets the second of them and ends. -/
def scan (r : Redirection) :
    List (Option String) → Descriptors OpenFile → List OpenFile → Int × Child
  | some arg :: rest, fds, opened =>
    if arg = r.operator then r.apply rest fds opened
    else
      let (status, child) := scan r rest fds opened
      (status, { child with argv := some arg :: child.argv })
  | argv, fds, opened => (0, ⟨argv, fds, opened⟩)

/-- A pass over the vector of the child. -/
def pass (r : Redirection) (child : Child) : Int × Child :=
  match child.argv with
  | some _ :: _ => r.scan child.argv child.fds child.opened
  | _ => (-1, child)

end Redirection

/-- The pass for `<`: open for reading, move to standard input. -/
def Files.input (files : Files) : Redirection where
  operator := "<"
  canOpen := files.readable
  file := .input
  target := 0

/-- The pass for `>`: create or truncate, open for writing, move to standard output. -/
def Files.output (files : Files) : Redirection where
  operator := ">"
  canOpen := files.writable
  file := .output
  target := 1

/-- `redirect_in`. -/
def redirectIn (files : Files) (child : Child) : Int × Child := files.input.pass child

/-- `redirect_out`. -/
def redirectOut (files : Files) (child : Child) : Int × Child := files.output.pass child

/-- The vector as it is read: up to the first NULL. -/
def visible : List (Option String) → List String
  | some arg :: rest => arg :: visible rest
  | _ => []

/-- Both passes. The child prints a message when one fails, and goes on. -/
def redirectBoth (files : Files) (child : Child) : Child :=
  (redirectOut files (redirectIn files child).2).2

/-- The child branch of `run_command`, for a vector of strings and its NULL: the programs
that it starts. -/
def runChild (files : Files) (argv : List String) (fds : Descriptors OpenFile) : List Program :=
  let child := redirectBoth files ⟨argv.map some ++ [none], fds, []⟩
  pipeAndExec (visible child.argv) child.fds 0

/-! ## One pass -/

theorem visible_append (left : List String) (tail : List (Option String)) :
    visible (left.map some ++ none :: tail) = left := by
  induction left with
  | nil => rfl
  | cons arg left ih => rw [List.map_cons, List.cons_append, visible, ih]

namespace Redirection

variable (r : Redirection)

/-- The loop passes over strings that are not its operator. -/
theorem scan_append {left : List String} (absent : r.operator ∉ left)
    (rest : List (Option String)) (fds : Descriptors OpenFile) (opened : List OpenFile) :
    r.scan (left.map some ++ rest) fds opened =
      ((r.scan rest fds opened).1,
        { (r.scan rest fds opened).2 with
          argv := left.map some ++ (r.scan rest fds opened).2.argv }) := by
  induction left with
  | nil => rfl
  | cons arg left ih =>
      rw [List.mem_cons, not_or] at absent
      rw [List.map_cons, List.cons_append, scan, if_neg (Ne.symm absent.1), ih absent.2]
      rfl

/-- Guarding the loop against an empty vector changes the status only. -/
theorem pass_snd (child : Child) :
    (r.pass child).2 = (r.scan child.argv child.fds child.opened).2 := by
  obtain ⟨argv, fds, opened⟩ := child
  rcases argv with _ | ⟨_ | arg, rest⟩
  · rfl
  · rfl
  · rfl

/-- Without its operator, a pass changes nothing. -/
theorem pass_absent {left : List String} (absent : r.operator ∉ left)
    (tail : List (Option String)) (fds : Descriptors OpenFile) (opened : List OpenFile) :
    (r.pass ⟨left.map some ++ none :: tail, fds, opened⟩).2 =
      ⟨left.map some ++ none :: tail, fds, opened⟩ := by
  rw [pass_snd, scan_append r absent]
  rfl

/-- With its operator, a pass opens the file and cuts the vector there. -/
theorem pass_present {left : List String} (absent : r.operator ∉ left) {path : String}
    (succeeds : r.canOpen path = true) (tail : List (Option String))
    (fds : Descriptors OpenFile) (opened : List OpenFile) :
    (r.pass ⟨left.map some ++ some r.operator :: some path :: tail, fds, opened⟩).2 =
      ⟨left.map some ++ none :: none :: tail, fds.redirect (r.file path) r.target,
        opened ++ [r.file path]⟩ := by
  rw [pass_snd, scan_append r absent, scan, if_pos rfl]
  simp only [apply, if_pos succeeds]

end Redirection

/-! ## Command lines -/

/-- A part of a command line. -/
inductive Lexeme where
  | word (w : String)
  | bar
  | input (path : String)
  | output (path : String)
deriving Repr, DecidableEq

namespace Lexeme

/-- The strings of a part. -/
def tokens : Lexeme → List String
  | word w => [w]
  | bar => ["|"]
  | input path => ["<", path]
  | output path => [">", path]

/-- The string of a word or a `|`. -/
def plain : Lexeme → Option String
  | word w => some w
  | bar => some "|"
  | _ => none

/-- Words and file names are none of the operators. -/
def Proper : Lexeme → Prop
  | word w => Ordinary w
  | bar => True
  | input path => Ordinary path
  | output path => Ordinary path

/-- `<` belongs to the first command and `>` to the last, and each occurs once. -/
def MayPrecede : Lexeme → Lexeme → Prop
  | bar, input _ => False
  | input _, input _ => False
  | output _, bar => False
  | output _, output _ => False
  | _, _ => True

/-- A redirection hides the words, the `|` and, for `<`, the `>` behind it. -/
def Hides : Lexeme → Lexeme → Prop
  | input _, word _ => True
  | input _, bar => True
  | input _, output _ => True
  | output _, word _ => True
  | output _, bar => True
  | _, _ => False

instance : DecidablePred Proper := fun l => by
  cases l <;> simp only [Proper] <;> infer_instance

instance : DecidableRel MayPrecede := fun a b => by
  cases a <;> cases b <;> simp only [MayPrecede] <;> infer_instance

instance : DecidableRel Hides := fun a b => by
  cases a <;> cases b <;> simp only [Hides] <;> infer_instance

end Lexeme

/-- The strings of a command line. -/
def tokens (line : List Lexeme) : List String := line.flatMap Lexeme.tokens

/-- The words and the `|` of a command line. -/
def plain (line : List Lexeme) : List String := line.filterMap Lexeme.plain

/-- The commands of a command line. -/
def commands (line : List Lexeme) : List (List String) := (plain line).splitOn "|"

/-- A pipeline of commands with at most one `<` in the first and at most one `>` in the
last. -/
structure WellFormed (line : List Lexeme) : Prop where
  proper : ∀ l ∈ line, l.Proper
  commands_ne : ∀ c ∈ commands line, c ≠ []
  order : line.Pairwise Lexeme.MayPrecede

/-- The command line is carried out: its commands are started with their words, the first
reads the input file and the last writes the output file. -/
structure Meets (line : List Lexeme) (programs : List Program) : Prop where
  argv : programs.map Program.argv = commands line
  stdin : ∀ {path p}, .input path ∈ line → programs.head? = some p →
    p.stdin = some (.input path)
  stdout : ∀ {path p}, .output path ∈ line → programs.getLast? = some p →
    p.stdout = some (.output path)

/-! ## Both passes -/

/-- Words and `|`. -/
def Lexeme.isPlain (l : Lexeme) : Bool := l.plain.isSome

namespace Lexeme

/-- A redirection hides every word and every `|`. -/
theorem hides_of_isPlain {a b : Lexeme} (redirection : a.isPlain = false)
    (simple : b.isPlain = true) : a.Hides b := by
  cases a with
  | word w => cases redirection
  | bar => cases redirection
  | input path => cases b <;> trivial
  | output path =>
      cases b with
      | word w => trivial
      | bar => trivial
      | input other => cases simple
      | output other => cases simple

/-- What hides is a redirection, and what it hides is a word, a `|` or, for `<`, a `>`. -/
theorem Hides.cases {a b : Lexeme} (hides : a.Hides b) :
    a.isPlain = false ∧
      (b.isPlain = true ∨ ∃ path other, a = input path ∧ b = output other) := by
  cases a with
  | word w => cases hides
  | bar => cases hides
  | input path =>
      cases b with
      | word w => exact ⟨rfl, .inl rfl⟩
      | bar => exact ⟨rfl, .inl rfl⟩
      | input other => cases hides
      | output other => exact ⟨rfl, .inr ⟨path, other, rfl, rfl⟩⟩
  | output path =>
      cases b with
      | word w => exact ⟨rfl, .inl rfl⟩
      | bar => exact ⟨rfl, .inl rfl⟩
      | input other => cases hides
      | output other => cases hides

end Lexeme

theorem tokens_append (left right : List Lexeme) :
    tokens (left ++ right) = tokens left ++ tokens right := List.flatMap_append

/-- Without redirections, all strings are words or `|`. -/
theorem tokens_eq_plain {line : List Lexeme} (simple : ∀ l ∈ line, l.isPlain = true) :
    tokens line = plain line := by
  induction line with
  | nil => rfl
  | cons l line ih =>
      rw [List.forall_mem_cons] at simple
      rw [tokens, List.flatMap_cons, ← tokens, ih simple.2]
      cases l with
      | word w => rfl
      | bar => rfl
      | input path => cases simple.1
      | output path => cases simple.1

theorem plain_eq_nil_iff {line : List Lexeme} :
    plain line = [] ↔ ∀ l ∈ line, l.isPlain = false := by
  simp [plain, List.filterMap_eq_nil_iff, Lexeme.isPlain]

/-- The operator `<` stands for an input redirection only. -/
theorem less_notMem {line : List Lexeme} (proper : ∀ l ∈ line, l.Proper)
    (absent : ∀ path, .input path ∉ line) : "<" ∉ tokens line := by
  intro member
  obtain ⟨l, inLine, inTokens⟩ := List.mem_flatMap.mp member
  have shape := proper l inLine
  cases l with
  | word w => exact shape.2.1 (List.mem_singleton.mp inTokens).symm
  | bar => exact absurd inTokens (by decide)
  | input path => exact absent path inLine
  | output path =>
      rcases List.mem_cons.mp inTokens with same | same
      · exact absurd same (by decide)
      · exact shape.2.1 (List.mem_singleton.mp same).symm

/-- No word and no `|` is the operator `>`. -/
theorem greater_notMem {line : List Lexeme} (proper : ∀ l ∈ line, l.Proper)
    (simple : ∀ l ∈ line, l.isPlain = true) : ">" ∉ tokens line := by
  intro member
  obtain ⟨l, inLine, inTokens⟩ := List.mem_flatMap.mp member
  cases l with
  | word w => exact (proper _ inLine).2.2 (List.mem_singleton.mp inTokens).symm
  | bar => exact absurd inTokens (by decide)
  | input path => exact nomatch simple _ inLine
  | output path => exact nomatch simple _ inLine

/-- The child before its redirections. -/
def Child.start (line : List Lexeme) (fds : Descriptors OpenFile) : Child where
  argv := (tokens line).map some ++ [none]
  fds := fds
  opened := []

/-- The vector of a line, split at one of its parts. -/
theorem argv_start (before : List Lexeme) (l : Lexeme) (after : List Lexeme)
    (fds : Descriptors OpenFile) :
    Child.start (before ++ l :: after) fds =
      ⟨(tokens before).map some ++ (l.tokens.map some ++ ((tokens after).map some ++ [none])),
        fds, []⟩ := by
  have split : tokens (l :: after) = l.tokens ++ tokens after := List.flatMap_cons
  rw [Child.start, tokens_append, split, List.map_append, List.map_append, List.append_assoc,
    List.append_assoc]

section Passes

variable {files : Files} {before after : List Lexeme} {fds : Descriptors OpenFile}
  {path : String}

/-- No redirection: nothing changes. -/
theorem redirectBoth_plain (less : "<" ∉ tokens before) (greater : ">" ∉ tokens before) :
    redirectBoth files (Child.start before fds) = Child.start before fds := by
  have first : (redirectIn files (Child.start before fds)).2 = Child.start before fds :=
    files.input.pass_absent less [] fds []
  rw [redirectBoth, first]
  exact files.output.pass_absent greater [] fds []

/-- The first pass at the first `<`. -/
theorem redirectIn_input (less : "<" ∉ tokens before) (readable : files.readable path = true) :
    (redirectIn files (Child.start (before ++ .input path :: after) fds)).2 =
      ⟨(tokens before).map some ++ none :: none :: ((tokens after).map some ++ [none]),
        fds.redirect (.input path) 0, [.input path]⟩ := by
  rw [argv_start]
  exact files.input.pass_present less readable _ _ _

/-- `<` comes first: the second pass does not look behind it. -/
theorem redirectBoth_input (less : "<" ∉ tokens before) (greater : ">" ∉ tokens before)
    (readable : files.readable path = true) :
    redirectBoth files (Child.start (before ++ .input path :: after) fds) =
      ⟨(tokens before).map some ++ none :: none :: ((tokens after).map some ++ [none]),
        fds.redirect (.input path) 0, [.input path]⟩ := by
  rw [redirectBoth, redirectIn_input less readable]
  exact files.output.pass_absent greater _ _ _

/-- `>` without `<`. -/
theorem redirectBoth_output (less : "<" ∉ tokens (before ++ .output path :: after))
    (greater : ">" ∉ tokens before) (writable : files.writable path = true) :
    redirectBoth files (Child.start (before ++ .output path :: after) fds) =
      ⟨(tokens before).map some ++ none :: none :: ((tokens after).map some ++ [none]),
        fds.redirect (.output path) 1, [.output path]⟩ := by
  have first : (redirectIn files (Child.start (before ++ .output path :: after) fds)).2 =
      Child.start (before ++ .output path :: after) fds :=
    files.input.pass_absent less [] fds []
  rw [redirectBoth, first, redirectOut, argv_start]
  exact files.output.pass_present greater writable _ _ _

/-- `>` before `<`: the first pass cuts the vector behind the `>`. -/
theorem redirectBoth_both {between : List Lexeme} {inputPath : String}
    (less : "<" ∉ tokens (before ++ .output path :: between)) (greater : ">" ∉ tokens before)
    (readable : files.readable inputPath = true) (writable : files.writable path = true) :
    ∃ tail, redirectBoth files
        (Child.start (before ++ .output path :: (between ++ .input inputPath :: after)) fds) =
      ⟨(tokens before).map some ++ none :: none :: tail,
        (fds.redirect (.input inputPath) 0).redirect (.output path) 1,
        [.input inputPath, .output path]⟩ := by
  have shape : before ++ .output path :: (between ++ .input inputPath :: after) =
      (before ++ .output path :: between) ++ .input inputPath :: after := by
    rw [List.append_assoc, List.cons_append]
  refine ⟨(tokens between).map some ++ none :: none :: ((tokens after).map some ++ [none]), ?_⟩
  rw [redirectBoth, shape, redirectIn_input less readable, tokens_append, List.map_append,
    List.append_assoc]
  exact files.output.pass_present greater writable _ _ _

end Passes

/-- What the two passes leave of a command line: its words and `|` up to the first
redirection, the input file, and the output file if `>` comes first. -/
structure Redirected (before rest : List Lexeme) (fds : Descriptors OpenFile) (child : Child) :
    Prop where
  visible : visible child.argv = plain before
  standard : child.fds.Standard
  clean : NoWriteEnd child.fds
  stdin : ∀ {path}, .input path ∈ rest → child.fds.file 0 = some (.input path)
  stdout : ∀ {path}, rest.head? = some (.output path) →
    child.fds.file 1 = some (.output path)
  unchanged : (∀ path, rest.head? ≠ some (.output path)) → child.fds.file 1 = fds.file 1

/-- A redirection does not bring in the end of a pipe. -/
theorem NoWriteEnd.redirect {fds : Descriptors OpenFile} (clean : NoWriteEnd fds)
    (standard : fds.Standard) {f : OpenFile} (noEnd : ∀ id, f ≠ .writeEnd id) {target : Nat}
    (small : target < 3) : NoWriteEnd (fds.redirect f target) := by
  intro fd id held
  rw [Descriptors.file_redirect standard f small] at held
  split at held
  · exact noEnd id (Option.some.inj held)
  · exact clean fd id held

/-- A line in order has at most one input file. -/
theorem input_unique {line : List Lexeme} (order : line.Pairwise Lexeme.MayPrecede)
    {first second : String} (one : .input first ∈ line) (other : .input second ∈ line) :
    first = second := by
  have pairs : line.Pairwise fun a b => ∀ p q, a = .input p → b = .input q → p = q := by
    refine order.imp fun may p q isInput isOther => ?_
    subst isInput isOther
    exact absurd may id
  refine List.Pairwise.forall_of_forall_of_flip ?_ pairs
    (pairs.imp fun same p q isInput isOther => (same q p isOther isInput).symm)
    one other first second rfl rfl
  intro a _ p q isInput isOther
  rw [isInput] at isOther
  exact Lexeme.input.inj isOther

section Redirected

variable {files : Files} {before after : List Lexeme} {fds : Descriptors OpenFile}
  {path : String}

theorem redirected_input (simple : ∀ l ∈ before, l.isPlain = true) (less : "<" ∉ tokens before)
    (greater : ">" ∉ tokens before) (readable : files.readable path = true)
    (only : ∀ other, .input other ∈ Lexeme.input path :: after → path = other)
    (standard : fds.Standard) (clean : NoWriteEnd fds) :
    Redirected before (.input path :: after) fds
      (redirectBoth files (Child.start (before ++ .input path :: after) fds)) := by
  rw [redirectBoth_input less greater readable]
  refine ⟨?_, standard.redirect _ (by decide), clean.redirect standard (by simp) (by decide),
    ?_, ?_, ?_⟩
  · rw [visible_append, tokens_eq_plain simple]
  · intro other member
    rw [Descriptors.file_redirect standard _ (by decide), if_pos rfl, only other member]
  · intro other same
    cases same
  · intro _
    rw [Descriptors.file_redirect standard _ (by decide), if_neg (by decide)]

theorem redirected_output (simple : ∀ l ∈ before, l.isPlain = true)
    (less : "<" ∉ tokens (before ++ .output path :: after)) (greater : ">" ∉ tokens before)
    (writable : files.writable path = true)
    (none : ∀ other, .input other ∉ Lexeme.output path :: after)
    (standard : fds.Standard) (clean : NoWriteEnd fds) :
    Redirected before (.output path :: after) fds
      (redirectBoth files (Child.start (before ++ .output path :: after) fds)) := by
  rw [redirectBoth_output less greater writable]
  refine ⟨?_, standard.redirect _ (by decide), clean.redirect standard (by simp) (by decide),
    ?_, ?_, ?_⟩
  · rw [visible_append, tokens_eq_plain simple]
  · intro other member
    exact absurd member (none other)
  · intro other same
    cases same
    rw [Descriptors.file_redirect standard _ (by decide), if_pos rfl]
  · intro different
    exact absurd rfl (different path)

theorem redirected_both {between : List Lexeme} {inputPath : String}
    (simple : ∀ l ∈ before, l.isPlain = true)
    (less : "<" ∉ tokens (before ++ .output path :: between)) (greater : ">" ∉ tokens before)
    (readable : files.readable inputPath = true) (writable : files.writable path = true)
    (only : ∀ other, .input other ∈ .output path :: (between ++ .input inputPath :: after) →
      inputPath = other)
    (standard : fds.Standard) (clean : NoWriteEnd fds) :
    Redirected before (.output path :: (between ++ .input inputPath :: after)) fds
      (redirectBoth files
        (Child.start (before ++ .output path :: (between ++ .input inputPath :: after)) fds)) := by
  obtain ⟨tail, result⟩ :=
    @redirectBoth_both files before after fds path between inputPath less greater readable writable
  have standard' := standard.redirect (OpenFile.input inputPath) (by decide : 0 < 3)
  have clean' : NoWriteEnd (fds.redirect (OpenFile.input inputPath) 0) :=
    clean.redirect standard (by simp) (by decide)
  rw [result]
  refine ⟨?_, standard'.redirect _ (by decide),
    clean'.redirect standard' (by simp) (by decide), ?_, ?_, ?_⟩
  · rw [visible_append, tokens_eq_plain simple]
  · intro other member
    rw [Descriptors.file_redirect standard' _ (by decide), if_neg (by decide),
      Descriptors.file_redirect standard _ (by decide), if_pos rfl, only other member]
  · intro other same
    cases same
    rw [Descriptors.file_redirect standard' _ (by decide), if_pos rfl]
  · intro different
    exact absurd rfl (different path)

end Redirected

/-- **Both passes** over a line in order, split at its first redirection. -/
theorem redirected {files : Files} {before rest : List Lexeme} {fds : Descriptors OpenFile}
    (simple : ∀ l ∈ before, l.isPlain = true)
    (begins : ∀ l, rest.head? = some l → l.isPlain = false)
    (proper : ∀ l ∈ before ++ rest, l.Proper) (order : rest.Pairwise Lexeme.MayPrecede)
    (readable : ∀ path, .input path ∈ rest → files.readable path = true)
    (writable : ∀ path, .output path ∈ rest → files.writable path = true)
    (standard : fds.Standard) (clean : NoWriteEnd fds) :
    Redirected before rest fds (redirectBoth files (Child.start (before ++ rest) fds)) := by
  have properBefore : ∀ l ∈ before, l.Proper :=
    fun l member => proper l (List.mem_append_left _ member)
  have noInput : ∀ path, .input path ∉ before := fun path member => nomatch simple _ member
  have less : "<" ∉ tokens before := less_notMem properBefore noInput
  have greater : ">" ∉ tokens before := greater_notMem properBefore simple
  rcases rest with _ | ⟨l, after⟩
  · rw [List.append_nil, redirectBoth_plain less greater]
    refine ⟨?_, standard, clean, ?_, ?_, fun _ => rfl⟩
    · rw [Child.start, visible_append, tokens_eq_plain simple]
    · intro path member
      cases member
    · intro path same
      cases same
  have first : l ∈ l :: after := List.mem_cons_self ..
  cases l with
  | word w => cases begins _ rfl
  | bar => cases begins _ rfl
  | input path =>
      exact redirected_input simple less greater (readable path first)
        (fun other member => input_unique order first member) standard clean
  | output path =>
      by_cases reads : ∃ inputPath, .input inputPath ∈ after
      · obtain ⟨inputPath, member⟩ := reads
        obtain ⟨between, after', rfl, absent⟩ := List.eq_append_cons_of_mem member
        have only : ∀ other, .input other ∈ Lexeme.output path ::
            (between ++ .input inputPath :: after') → inputPath = other :=
          fun other => input_unique order (List.mem_cons_of_mem _ member)
        have lessBetween : "<" ∉ tokens (before ++ .output path :: between) := by
          refine less_notMem (fun l inside => proper l ?_) fun other inside => ?_
          · rw [← List.cons_append, ← List.append_assoc]
            exact List.mem_append_left _ inside
          · have inBetween : .input other ∈ between := by
              simpa [noInput other] using inside
            refine absent ?_
            rw [only other (List.mem_cons_of_mem _ (List.mem_append_left _ inBetween))]
            exact inBetween
        exact redirected_both simple lessBetween greater
          (readable inputPath (List.mem_cons_of_mem _ member)) (writable path first) only
          standard clean
      · have none : ∀ other, .input other ∉ Lexeme.output path :: after := by
          intro other member
          exact reads ⟨other, by simpa using member⟩
        refine redirected_output simple (less_notMem proper fun other inside => ?_) greater
          (writable path first) none standard clean
        rcases List.mem_append.mp inside with inBefore | inRest
        · exact noInput other inBefore
        · exact none other inRest

/-! ## The commands of a line -/

/-- Splitting drops one `|` between each two commands. -/
theorem length_splitOn (args : List String) :
    ((args.splitOn "|").map List.length).sum + (args.splitOn "|").length = args.length + 1 := by
  induction args with
  | nil => rfl
  | cons arg args ih =>
      rw [List.splitOn_cons_eq_if_modifyHead]
      split
      · simp only [List.map_cons, List.sum_cons, List.length_cons, List.length_nil]
        omega
      · obtain ⟨first, later, split⟩ := List.exists_cons_of_ne_nil (List.splitOn_ne_nil "|" args)
        rw [split] at ih ⊢
        simp only [List.modifyHead_cons, List.map_cons, List.sum_cons, List.length_cons] at ih ⊢
        omega

/-- The parts are made of the strings that are no `|`. -/
theorem mem_of_mem_splitOn {args c : List String} (member : c ∈ args.splitOn "|") :
    ∀ w ∈ c, w ∈ args ∧ w ≠ "|" := by
  induction args generalizing c with
  | nil =>
      intro w inside
      rw [List.mem_singleton.mp member] at inside
      cases inside
  | cons arg args ih =>
      intro w inside
      rw [List.splitOn_cons_eq_if_modifyHead] at member
      split at member
      · rcases List.mem_cons.mp member with rfl | member
        · cases inside
        · exact ⟨List.mem_cons_of_mem _ (ih member w inside).1, (ih member w inside).2⟩
      next notBar =>
        obtain ⟨first, later, split⟩ := List.exists_cons_of_ne_nil (List.splitOn_ne_nil "|" args)
        rw [split] at member ih
        rcases List.mem_cons.mp member with rfl | member
        · rcases List.mem_cons.mp inside with rfl | inside
          · exact ⟨List.mem_cons_self .., by simpa using notBar⟩
          · obtain ⟨inArgs, ordinary⟩ := ih (List.mem_cons_self ..) w inside
            exact ⟨List.mem_cons_of_mem _ inArgs, ordinary⟩
        · obtain ⟨inArgs, ordinary⟩ := ih (List.mem_cons_of_mem _ member) w inside
          exact ⟨List.mem_cons_of_mem _ inArgs, ordinary⟩

/-- Nonempty lists of ordinary words are commands. -/
theorem exists_commands {parts : List (List String)}
    (shape : ∀ c ∈ parts, c ≠ [] ∧ ∀ w ∈ c, Ordinary w) :
    ∃ commands : List Command, commands.map Command.words = parts := by
  induction parts with
  | nil => exact ⟨[], rfl⟩
  | cons c parts ih =>
      rw [List.forall_mem_cons] at shape
      obtain ⟨commands, same⟩ := ih shape.2
      exact ⟨⟨c, shape.1.1, shape.1.2⟩ :: commands, by rw [List.map_cons, same]⟩

/-- The commands of a well-formed line, and the vector that they make up. -/
theorem WellFormed.exists_commands {line : List Lexeme} (wellFormed : WellFormed line) :
    ∃ cs : List Command, cs ≠ [] ∧ cs.map Command.words = commands line ∧
      vector cs = plain line := by
  have shape : ∀ c ∈ commands line, c ≠ [] ∧ ∀ w ∈ c, Ordinary w := by
    intro c member
    refine ⟨wellFormed.commands_ne c member, fun w inside => ?_⟩
    obtain ⟨inPlain, notBar⟩ := mem_of_mem_splitOn member w inside
    obtain ⟨l, inLine, isPlain⟩ := List.mem_filterMap.mp inPlain
    have proper := wellFormed.proper l inLine
    cases l with
    | word v =>
        cases isPlain
        exact proper
    | bar =>
        cases isPlain
        exact absurd rfl notBar
    | input path => cases isPlain
    | output path => cases isPlain
  obtain ⟨cs, same⟩ := Shell.exists_commands shape
  refine ⟨cs, ?_, same, ?_⟩
  · rintro rfl
    exact List.splitOn_ne_nil "|" (plain line) same.symm
  · rw [vector, same, commands, List.intercalate_splitOn]

/-! ## What is hidden -/

section Hidden

variable {before rest : List Lexeme} {fds : Descriptors OpenFile} {child : Child}

theorem plain_append (left right : List Lexeme) :
    plain (left ++ right) = plain left ++ plain right := List.filterMap_append

/-- Nothing hidden: no word and no `|` is behind a redirection. -/
theorem plain_eq_nil_of_shown (begins : ∀ l, rest.head? = some l → l.isPlain = false)
    (shown : rest.Pairwise fun a b => ¬ a.Hides b) : plain rest = [] := by
  rw [plain_eq_nil_iff]
  intro l member
  rcases rest with _ | ⟨first, later⟩
  · cases member
  · have isFirst := begins first rfl
    rcases List.mem_cons.mp member with rfl | member
    · exact isFirst
    · by_contra simple
      rw [Bool.not_eq_false] at simple
      exact (List.pairwise_cons.mp shown).1 l member (Lexeme.hides_of_isPlain isFirst simple)

/-- Nothing hidden: an output redirection comes first. -/
theorem head?_eq_output (begins : ∀ l, rest.head? = some l → l.isPlain = false)
    (order : rest.Pairwise Lexeme.MayPrecede) (shown : rest.Pairwise fun a b => ¬ a.Hides b)
    {path : String} (member : .output path ∈ rest) : rest.head? = some (.output path) := by
  rcases rest with _ | ⟨first, later⟩
  · cases member
  · rcases List.mem_cons.mp member with rfl | behind
    · rfl
    · cases first with
      | word w => cases begins _ rfl
      | bar => cases begins _ rfl
      | input other => exact ((List.pairwise_cons.mp shown).1 _ behind trivial).elim
      | output other => exact ((List.pairwise_cons.mp order).1 _ behind).elim

/-- Nothing hidden: the line is carried out. -/
theorem Redirected.meets (left : Redirected before rest fds child)
    (wellFormed : WellFormed (before ++ rest)) (simple : ∀ l ∈ before, l.isPlain = true)
    (begins : ∀ l, rest.head? = some l → l.isPlain = false)
    (shown : rest.Pairwise fun a b => ¬ a.Hides b) :
    Meets (before ++ rest) (pipeAndExec (Shell.visible child.argv) child.fds 0) := by
  have words : plain (before ++ rest) = plain before := by
    rw [plain_append, plain_eq_nil_of_shown begins shown, List.append_nil]
  obtain ⟨cs, nonempty, same, joined⟩ := wellFormed.exists_commands
  have connected := (stages_pipeAndExec nonempty left.standard left.clean 0).connected
  rw [joined, words, ← left.visible] at connected
  refine ⟨connected.argv.trans same, ?_, ?_⟩
  · intro path p member first
    have inRest := (List.mem_append.mp member).resolve_left fun inBefore =>
      nomatch simple _ inBefore
    exact (connected.stdin first).trans (left.stdin inRest)
  · intro path p member last
    have inRest := (List.mem_append.mp member).resolve_left fun inBefore =>
      nomatch simple _ inBefore
    have order := (List.pairwise_append.mp wellFormed.order).2.1
    exact (connected.stdout last).trans
      (left.stdout (head?_eq_output begins order shown inRest))

/-- Words and `|` that a redirection hides are missing in the programs. -/
theorem Redirected.plain_eq_nil (left : Redirected before rest fds child)
    (meets : Meets (before ++ rest) (pipeAndExec (Shell.visible child.argv) child.fds 0)) :
    plain rest = [] := by
  have atMost := length_pipeAndExec (Shell.visible child.argv) child.fds 0
  have all := length_splitOn (plain (before ++ rest))
  have lengths : (pipeAndExec (Shell.visible child.argv) child.fds 0).map
      (fun p => p.argv.length) = (commands (before ++ rest)).map List.length := by
    rw [← meets.argv, List.map_map]
    rfl
  have count := congrArg List.length meets.argv
  rw [List.length_map] at count
  rw [lengths, count, commands, all, left.visible, plain_append, List.length_append] at atMost
  exact List.eq_nil_of_length_eq_zero (by omega)

/-- An output redirection behind an input redirection is missing in the last program. -/
theorem Redirected.not_meets (left : Redirected before rest fds child)
    (inherited : ∀ path, fds.file 1 ≠ some (.output path))
    (late : ∀ path, rest.head? ≠ some (.output path)) {path : String}
    (member : .output path ∈ before ++ rest) :
    ¬ Meets (before ++ rest) (pipeAndExec (Shell.visible child.argv) child.fds 0) := by
  intro meets
  have nonempty : pipeAndExec (Shell.visible child.argv) child.fds 0 ≠ [] := by
    intro empty
    have argv := meets.argv
    rw [empty] at argv
    exact List.splitOn_ne_nil "|" _ argv.symm
  have last := List.getLast?_eq_some_getLast nonempty
  have stdout := meets.stdout member last
  rcases stdout_pipeAndExec left.standard 0 _ (List.mem_of_getLast? last) with same | ⟨id, isEnd⟩
  · rw [same, left.unchanged late] at stdout
    exact inherited path stdout
  · rw [isEnd] at stdout
    cases stdout

/-- A line that is carried out hides nothing. -/
theorem Redirected.shown (left : Redirected before rest fds child)
    (wellFormed : WellFormed (before ++ rest)) (simple : ∀ l ∈ before, l.isPlain = true)
    (inherited : ∀ path, fds.file 1 ≠ some (.output path))
    (meets : Meets (before ++ rest) (pipeAndExec (Shell.visible child.argv) child.fds 0)) :
    (before ++ rest).Pairwise fun a b => ¬ a.Hides b := by
  have noPlain := plain_eq_nil_iff.mp (left.plain_eq_nil meets)
  have order := (List.pairwise_append.mp wellFormed.order).2.1
  have fromBefore : ∀ a ∈ before, ∀ b, ¬ a.Hides b := by
    intro a member b hides
    have redirection := hides.cases.1
    rw [simple a member] at redirection
    cases redirection
  refine List.pairwise_append.mpr ⟨?_, ?_, fun a member b _ => fromBefore a member b⟩
  · refine List.pairwise_of_forall_mem_list fun a member b _ => fromBefore a member b
  · rw [List.pairwise_iff_forall_sublist]
    intro a b pair hides
    have members := pair.subset
    rcases hides.cases.2 with isPlain | ⟨path, other, rfl, rfl⟩
    · rw [noPlain b (members (by simp))] at isPlain
      cases isPlain
    · refine left.not_meets inherited ?_
        (List.mem_append_right _ (members (List.mem_cons_of_mem _ (List.mem_singleton.mpr rfl))))
        meets
      -- A `>` in front of both would be a second one.
      intro first isFirst
      obtain ⟨later, rfl⟩ := List.head?_eq_some_iff.mp isFirst
      have behind : .output other ∈ later := by
        rcases List.cons_sublist_cons'.mp pair with inLater | ⟨same, _⟩
        · exact inLater.subset (List.mem_cons_of_mem _ (List.mem_singleton.mpr rfl))
        · cases same
      exact (List.pairwise_cons.mp order).1 _ behind

end Hidden

/-- **Command lines.** The child of `run_command` carries out a well-formed command line,
whose files can be opened, exactly when no redirection stands before what it hides: a
word, a `|` or, for `<`, a `>`. -/
theorem meets_runChild_iff {line : List Lexeme} (wellFormed : WellFormed line) {files : Files}
    (readable : ∀ path, .input path ∈ line → files.readable path = true)
    (writable : ∀ path, .output path ∈ line → files.writable path = true)
    {fds : Descriptors OpenFile} (standard : fds.Standard)
    (inherited : ∀ fd f, fds.file fd = some f → ∃ n, f = .inherited n) :
    Meets line (runChild files (tokens line) fds) ↔ line.Pairwise fun a b => ¬ a.Hides b := by
  have split : line.takeWhile Lexeme.isPlain ++ line.dropWhile Lexeme.isPlain = line :=
    List.takeWhile_append_dropWhile
  have simple : ∀ l ∈ line.takeWhile Lexeme.isPlain, l.isPlain = true :=
    fun l member => List.mem_takeWhile_imp member
  have begins : ∀ l, (line.dropWhile Lexeme.isPlain).head? = some l → l.isPlain = false := by
    intro l first
    have head := List.head?_dropWhile_not Lexeme.isPlain line
    rw [first] at head
    exact head
  have clean : NoWriteEnd fds := by
    intro fd id held
    obtain ⟨n, same⟩ := inherited fd _ held
    cases same
  have notOutput : ∀ path, fds.file 1 ≠ some (.output path) := by
    intro path held
    obtain ⟨n, same⟩ := inherited 1 _ held
    cases same
  generalize line.takeWhile Lexeme.isPlain = before at split simple
  generalize line.dropWhile Lexeme.isPlain = rest at split begins
  subst split
  have left := redirected simple begins wellFormed.proper
    (List.pairwise_append.mp wellFormed.order).2.1
    (fun path member => readable path (List.mem_append_right _ member))
    (fun path member => writable path (List.mem_append_right _ member)) standard clean
  exact ⟨left.shown wellFormed simple notOutput, fun shown =>
    left.meets wellFormed simple begins (List.pairwise_append.mp shown).2.1⟩

/-- Files that can all be opened. -/
def allFiles : Files where
  readable := fun _ => true
  writable := fun _ => true

theorem inherited_terminal (fd : Nat) (f : OpenFile) (held : terminal.file fd = some f) :
    ∃ n, f = .inherited n := by
  rcases fd with _ | _ | _ | fd
  · exact ⟨0, (Option.some.inj held).symm⟩
  · exact ⟨1, (Option.some.inj held).symm⟩
  · exact ⟨2, (Option.some.inj held).symm⟩
  · cases fd <;> cases held

/-- The line `sort > out < in`. -/
def sortLine : List Lexeme := [.word "sort", .output "out", .input "in"]

theorem wellFormed_sortLine : WellFormed sortLine := ⟨by decide, by decide, by decide⟩

/-- The line `sort > out < in` is carried out. -/
theorem meets_runChild_iff_sortLine :
    Meets sortLine (runChild allFiles (tokens sortLine) terminal) ↔
      sortLine.Pairwise fun a b => ¬ a.Hides b :=
  meets_runChild_iff wellFormed_sortLine (fun _ _ => rfl) (fun _ _ => rfl) standard_terminal
    inherited_terminal

/-- The line `sort < in > out` is not: its output goes to the terminal. -/
theorem not_meets_runChild :
    WellFormed [.word "sort", .input "in", .output "out"] ∧
      ¬ Meets [.word "sort", .input "in", .output "out"]
        (runChild allFiles ["sort", "<", "in", ">", "out"] terminal) := by
  refine ⟨⟨by decide, by decide, by decide⟩, fun meets => ?_⟩
  have started : runChild allFiles ["sort", "<", "in", ">", "out"] terminal =
      [⟨["sort"], [some (.input "in"), some (.inherited 1), some (.inherited 2), none]⟩] :=
    pipeAndExec_single (by decide) _ 0
  rw [started] at meets
  have stdout := @Meets.stdout _ _ meets "out" _ (by decide) rfl
  cases stdout

end LinuxExercises.Shell
