import Mathlib.Algebra.BigOperators.Group.List.Basic
import LinuxExercises.Shell.Prompt
import LinuxExercises.Shell.Reaping

/-!
# What the shell of SP_HW3 writes to its output

The shell prints its prompt, the tokens of each line, the text of its functions and the exit
statuses with the standard library, which keeps what is printed until it writes it out. A child
gets a copy of what is kept at its `fork`. When `execvp` succeeds, the copy is gone. When it fails,
the child ends with `exit`, which writes the copy out. The standard input has no position that
this `exit` would move.

So what the shell has printed is written once by the shell itself, and again by every child whose
`execvp` has failed, as far as it was kept at the `fork`. The text is written exactly once if and
only if nothing was kept at these `fork`s. When the library writes nothing out before the end, this
means that every command has been started, since the prompt is kept at every `fork`
(`printed_once_iff`).
-/

set_option autoImplicit false

namespace LinuxExercises.Shell.HW3

open Foundations

namespace Console

/-! ## The file behind the standard output -/

/-- Who writes: the shell, a child that exits with a copy of what the shell has printed, or the
command that a child executes. -/
inductive Author where
  | shell
  | copy (child : Nat)
  | command (child : Nat)
deriving Repr, DecidableEq

def Author.isShell : Author → Bool
  | shell => true
  | _ => false

/-- What is written was printed by the shell. -/
def Author.ofShell : Author → Bool
  | command _ => false
  | _ => true

/-- What some authors have written. -/
def written (mine : Author → Bool) (log : List (Author × List Byte)) : List Byte :=
  (log.filter fun entry => mine entry.1).flatMap Prod.snd

section

variable {mine : Author → Bool} {author : Author}

theorem written_mine (log : List (Author × List Byte)) (text : List Byte)
    (counted : mine author = true) :
    written mine (log ++ [(author, text)]) = written mine log ++ text := by
  simp [written, List.filter_append, counted]

theorem written_other (log : List (Author × List Byte)) (text : List Byte)
    (uncounted : mine author = false) :
    written mine (log ++ [(author, text)]) = written mine log := by
  simp [written, List.filter_append, uncounted]

end

/-- The texts that a child has written with its copy. -/
def copiesOf (k : Nat) (log : List (Author × List Byte)) : List (List Byte) :=
  (log.filter fun entry => entry.1 = .copy k).map Prod.snd

theorem copiesOf_copy (k : Nat) (log : List (Author × List Byte)) (text : List Byte) :
    copiesOf k (log ++ [(.copy k, text)]) = copiesOf k log ++ [text] := by
  simp [copiesOf, List.filter_append]

theorem copiesOf_other {k : Nat} {author : Author} (other : author ≠ .copy k)
    (log : List (Author × List Byte)) (text : List Byte) :
    copiesOf k (log ++ [(author, text)]) = copiesOf k log := by
  simp [copiesOf, List.filter_append, other]

/-! ## The shell and its children -/

/-- The state of a child. One that has ended may have done so because its `execvp` has failed. -/
inductive ChildState where
  | forked
  | running
  | zombie (failed : Bool) (stat : Nat)
  | reaped (failed : Bool)
deriving Repr, DecidableEq

/-- `execvp` has failed. -/
def ChildState.failed : ChildState → Bool
  | forked => false
  | running => false
  | zombie failed _ => failed
  | reaped failed => failed

/-- A child, and what was kept at its `fork`. -/
structure Child where
  inherited : List Byte
  state : ChildState
deriving Repr, DecidableEq

/-- Where the shell is. -/
inductive Pc where
  | prompt
  | read
  | fork (background : Bool)
  | wait
  | report (stat : Nat)
  | exited
  | crashed
deriving Repr, DecidableEq

end Console

/-- The shell with what `fgets` will return, what the library keeps of its output, all that it has
printed, and what has been written. -/
structure Console where
  typed : List (List Byte)
  pc : Console.Pc
  children : List Console.Child
  pending : List Byte
  printed : List Byte
  log : List (Console.Author × List Byte)

namespace Console

def start (typed : List (List Byte)) : Console where
  typed := typed
  pc := .prompt
  children := []
  pending := []
  printed := []
  log := []

/-- `fputs` and `printf`. -/
def print (s : Console) (text : List Byte) : Console :=
  { s with pending := s.pending ++ text, printed := s.printed ++ text }

/-- Something is written. -/
def write (s : Console) (author : Author) (text : List Byte) : Console :=
  { s with log := s.log ++ [(author, text)] }

/-- `exit` of the shell. -/
def exit (s : Console) : Console := { s.write .shell s.pending with pc := .exited, pending := [] }

/-- `parse` prints the tokens. -/
def listing (argv : Prompt.Argv) : List Byte :=
  argv.zipIdx.flatMap fun (word, i) =>
    literal "[" ++ decimal i ++ literal "] " ++ word ++ [newline]

/-- A vector is carried out. -/
def carryOut (s : Console) (argv : Prompt.Argv) : Console :=
  match doBuiltin inbuilts argv with
  | none => { s with pc := .fork (argv.contains (literal "&")) }
  | some (.ok (.prints text)) => { s.print text with pc := .prompt }
  | some (.ok (.chdir _)) => { s with pc := .prompt }
  | some (.ok (.exits _)) => s.exit
  | some (.ok .crashes) => { s with pc := .crashed }
  | some (.error _) => { s with pc := .crashed }

/-- A line is read. Nothing is said about the shell behind `strlen(NULL)`, and behind a store
outside a block. -/
def serve (s : Console) (line : List Byte) : Console :=
  if words line = [] then { s.print (literal "NULL") with pc := .crashed }
  else if Shrinking (words line) then (s.print (listing (words line))).carryOut (words line)
  else { s with pc := .crashed }

/-- The next step of the shell, when it does not wait. The variable `stat` holds anything until
`wait` has stored a status in it. -/
def stepShell (stat : Nat) (s : Console) : Option Console :=
  match s.pc with
  | .prompt => some { s.print (literal "myshell -> ") with pc := .read }
  | .read =>
    match s.typed with
    | [] => some s.exit
    | line :: typed => some ({ s with typed := typed }.serve line)
  | .fork background =>
    some { s with
      children := s.children ++ [⟨s.pending, .forked⟩]
      pc := if background then .report stat else .wait }
  | .report stat =>
    some { s.print (literal "exit status: " ++ decimal (wexitstatus stat) ++ [newline]) with
      pc := .prompt }
  | .wait => none
  | .exited => none
  | .crashed => none

/-- A child goes on. -/
def setChild (s : Console) (k : Nat) (child : Child) (state : ChildState) : Console :=
  { s with children := s.children.set k { child with state := state } }

/-- What happens next. The library may write the first bytes of what it keeps at any time. A child
calls `execvp`, and ends when its program does or when a signal kills it. -/
inductive Action where
  | shell (stat : Nat)
  | failedFork
  | wait (k : Nat)
  | flush (n : Nat)
  | exec (k : Nat)
  | execFails (k : Nat) (stat : Nat)
  | output (k : Nat) (text : List Byte)
  | ends (k : Nat) (stat : Nat)
deriving Repr, DecidableEq

/-- The step of an action, when it is enabled. -/
def step (s : Console) : Action → Option Console
  | .shell stat => s.stepShell stat
  | .failedFork =>
    match s.pc with
    | .fork _ => some s.exit
    | _ => none
  | .wait k =>
    match s.pc, s.children[k]? with
    | .wait, some child =>
      match child.state with
      | .zombie failed stat => some { s.setChild k child (.reaped failed) with pc := .report stat }
      | _ => none
    | _, _ => none
  | .flush n =>
    if s.pc = .exited ∨ s.pc = .crashed then none
    else some { s.write .shell (s.pending.take n) with pending := s.pending.drop n }
  | .exec k =>
    match s.children[k]? with
    | some child => if child.state = .forked then some (s.setChild k child .running) else none
    | none => none
  | .execFails k stat =>
    match s.children[k]? with
    | some child =>
      if child.state = .forked then
        some ((s.setChild k child (.zombie true stat)).write (.copy k) child.inherited)
      else none
    | none => none
  | .output k text =>
    match s.children[k]? with
    | some child => if child.state = .running then some (s.write (.command k) text) else none
    | none => none
  | .ends k stat =>
    match s.children[k]? with
    | some child =>
      if child.state = .forked ∨ child.state = .running then
        some (s.setChild k child (.zombie false stat))
      else none
    | none => none

/-- What `serve` does with a line is what `main` does with the vector that `parse` returns. -/
theorem serve_of_parse (malloc : (size : Nat) → Buffer size) (s : Console) (line : List Byte) :
    (HW3.parse malloc (some line) = .error .nullToken ∧
      s.serve line = { s.print (literal "NULL") with pc := .crashed }) ∨
    (HW3.parse malloc (some line) = .error .outOfBlock ∧ s.serve line = { s with pc := .crashed }) ∨
    ∃ newArgv, HW3.parse malloc (some line) = .ok (some newArgv) ∧
      s.serve line =
        (s.print (listing (Prompt.strings newArgv))).carryOut (Prompt.strings newArgv) := by
  obtain ⟨nothing, failed⟩ | ⟨something, growing, failed⟩ |
    ⟨something, shrinking, blocks, same, returned⟩ := tokenise_eq malloc line
  · exact .inl ⟨failed, if_pos nothing⟩
  · exact .inr (.inl ⟨failed, by rw [serve, if_neg something, if_neg growing]⟩)
  · refine .inr (.inr ⟨_, returned, ?_⟩)
    rw [Prompt.strings_blocks, same, serve, if_neg something, if_pos shrinking]

/-! ## What a step does -/

/-- What a child that has failed writes. -/
def Child.repeated (child : Child) : List Byte := if child.state.failed then child.inherited else []

/-- The copies that a child has written. -/
def Child.copies (child : Child) : List (List Byte) :=
  if child.state.failed then [child.inherited] else []

/-- All that a step can do to the output. -/
inductive Effect (s : Console) (a : Action) (t : Console) : Prop
  | prints (text : List Byte) (pending : t.pending = s.pending ++ text)
      (printed : t.printed = s.printed ++ text) (log : t.log = s.log)
      (children : t.children = s.children) (before : s.pc ≠ .exited) (pc : t.pc ≠ .exited)
      (begins : s.pc = .prompt → text ≠ [])
  | exits (text : List Byte) (pending : t.pending = []) (printed : t.printed = s.printed ++ text)
      (log : t.log = s.log ++ [(.shell, s.pending ++ text)]) (children : t.children = s.children)
      (pc : t.pc = .exited)
  | forks (pending : t.pending = s.pending) (printed : t.printed = s.printed)
      (log : t.log = s.log) (children : t.children = s.children ++ [⟨s.pending, .forked⟩])
      (before : ∃ background, s.pc = .fork background) (pc : t.pc ≠ .exited)
  | flushes (n : Nat) (flush : a = .flush n) (pending : t.pending = s.pending.drop n)
      (printed : t.printed = s.printed)
      (log : t.log = s.log ++ [(.shell, s.pending.take n)]) (children : t.children = s.children)
      (pc : t.pc = s.pc) (before : s.pc ≠ .exited)
  | moves (k : Nat) (child : Child) (state : ChildState) (found : s.children[k]? = some child)
      (failed : state.failed = child.state.failed)
      (children : t.children = s.children.set k { child with state := state })
      (pending : t.pending = s.pending) (printed : t.printed = s.printed) (log : t.log = s.log)
      (pc : t.pc = s.pc ∨ s.pc = .wait ∧ ∃ stat, t.pc = .report stat)
  | fails (k : Nat) (child : Child) (state : ChildState) (found : s.children[k]? = some child)
      (before : child.state.failed = false) (failed : state.failed = true)
      (children : t.children = s.children.set k { child with state := state })
      (pending : t.pending = s.pending) (printed : t.printed = s.printed)
      (log : t.log = s.log ++ [(.copy k, child.inherited)]) (pc : t.pc = s.pc)
  | outputs (k : Nat) (text : List Byte) (pending : t.pending = s.pending)
      (printed : t.printed = s.printed) (log : t.log = s.log ++ [(.command k, text)])
      (children : t.children = s.children) (pc : t.pc = s.pc)

variable {s t : Console} {a : Action}

/-- Behind `fgets` the shell has printed its prompt, and has not ended. -/
theorem prints_of_read (pc : s.pc = .read) (text : List Byte)
    (pending : t.pending = s.pending ++ text) (printed : t.printed = s.printed ++ text)
    (log : t.log = s.log) (children : t.children = s.children) (goesOn : t.pc ≠ .exited) :
    Effect s a t :=
  .prints text pending printed log children (by simp [pc]) goesOn (by simp [pc])

theorem effect_carryOut (typed : List (List Byte)) (argv : Prompt.Argv) (text : List Byte)
    (pc : s.pc = .read) : Effect s a (({ s with typed := typed }.print text).carryOut argv) := by
  rw [carryOut]
  split
  · exact prints_of_read pc text rfl rfl rfl rfl (by simp)
  next more found =>
    exact prints_of_read pc (text ++ more) (List.append_assoc ..) (List.append_assoc ..) rfl rfl
      (by simp)
  · exact prints_of_read pc text rfl rfl rfl rfl (by simp)
  · exact .exits text rfl rfl rfl rfl rfl
  · exact prints_of_read pc text rfl rfl rfl rfl (by simp)
  · exact prints_of_read pc text rfl rfl rfl rfl (by simp)

theorem effect_serve (typed : List (List Byte)) (line : List Byte) (pc : s.pc = .read) :
    Effect s a ({ s with typed := typed }.serve line) := by
  rw [serve]
  split
  · exact prints_of_read pc _ rfl rfl rfl rfl (by simp)
  · split
    · exact effect_carryOut typed (words line) (listing (words line)) pc
    · exact prints_of_read pc [] (List.append_nil _).symm (List.append_nil _).symm rfl rfl (by simp)

theorem effect_stepShell {stat : Nat} (taken : s.stepShell stat = some t) : Effect s a t := by
  rw [stepShell] at taken
  split at taken
  next pc =>
    cases taken
    exact .prints (literal "myshell -> ") rfl rfl rfl rfl (by simp [pc]) (by simp)
      fun _ => by decide
  next pc =>
    split at taken <;> cases taken
    · exact .exits [] rfl (List.append_nil _).symm (by rw [List.append_nil]; rfl) rfl rfl
    next line typed more => exact effect_serve typed line pc
  next background pc =>
    cases taken
    exact .forks rfl rfl rfl rfl ⟨background, pc⟩ (by cases background <;> simp)
  next stat pc =>
    cases taken
    exact .prints _ rfl rfl rfl rfl (by simp [pc]) (by simp) (by simp [pc])
  next => cases taken
  next => cases taken
  next => cases taken

theorem effect_of_step (taken : s.step a = some t) : Effect s a t := by
  cases a with
  | shell stat => exact effect_stepShell taken
  | failedFork =>
      rw [step] at taken
      split at taken <;> cases taken
      exact .exits [] rfl (List.append_nil _).symm (by rw [List.append_nil]; rfl) rfl rfl
  | wait k =>
      rw [step] at taken
      split at taken
      next child pc found =>
        split at taken <;> cases taken
        next failed stat state =>
          exact .moves k child _ found (by rw [state]; rfl) rfl rfl rfl rfl (.inr ⟨pc, stat, rfl⟩)
      next => cases taken
  | flush n =>
      rw [step] at taken
      split at taken <;> cases taken
      next running =>
        exact .flushes n rfl rfl rfl rfl rfl rfl fun left => running (.inl left)
  | exec k =>
      rw [step] at taken
      split at taken
      next child found =>
        split at taken <;> cases taken
        next state => exact .moves k child _ found (by rw [state]; rfl) rfl rfl rfl rfl (.inl rfl)
      next => cases taken
  | execFails k stat =>
      rw [step] at taken
      split at taken
      next child found =>
        split at taken <;> cases taken
        next state => exact .fails k child _ found (by rw [state]; rfl) rfl rfl rfl rfl rfl rfl
      next => cases taken
  | output k text =>
      rw [step] at taken
      split at taken
      next child found =>
        split at taken <;> cases taken
        exact .outputs k text rfl rfl rfl rfl rfl
      next => cases taken
  | ends k stat =>
      rw [step] at taken
      split at taken
      next child found =>
        split at taken <;> cases taken
        next state =>
          refine .moves k child _ found ?_ rfl rfl rfl rfl (.inl rfl)
          rcases state with state | state <;> rw [state] <;> rfl
      next => cases taken

/-! ## What has been written -/

/-- How much all children have repeated. -/
def copied (s : Console) : Nat := (s.children.map fun child => child.repeated.length).sum

/-- A child that goes on changes the sum by its own part. -/
theorem sum_map_set {children : List Child} {k : Nat} {child : Child}
    (found : children[k]? = some child) (part : Child → Nat) (next : Child) :
    ((children.set k next).map part).sum + part child = (children.map part).sum + part next := by
  obtain ⟨within, here⟩ := List.getElem?_eq_some_iff.mp found
  have known : k < (children.map part).length := by rwa [List.length_map]
  have same : (children.map part).set k (part child) = children.map part := by
    rw [← List.map_set, ← here, List.set_getElem_self]
  have before := List.sum_set (children.map part) k (part child)
  have after := List.sum_set (children.map part) k (part next)
  rw [same, if_pos known] at before
  rw [← List.map_set, if_pos known] at after
  omega

/-- What has been written in every run: by the shell, and by it and the children that have
failed. -/
structure Kept (s : Console) : Prop where
  own : written Author.isShell s.log ++ s.pending = s.printed
  ended : s.pc = .exited → s.pending = []
  copies : (written Author.ofShell s.log).length =
    (written Author.isShell s.log).length + s.copied

theorem kept_start (typed : List (List Byte)) : Kept (start typed) where
  own := rfl
  ended pc := by cases pc
  copies := rfl

/-- **The step lemma.** -/
theorem kept_step (kept : Kept s) (taken : s.step a = some t) : Kept t := by
  obtain ⟨own, ended, copies⟩ := kept
  cases effect_of_step taken with
  | prints text pending printed log children before pc begins =>
      refine ⟨?_, fun exited => absurd exited pc, ?_⟩
      · rw [log, pending, printed, ← List.append_assoc, own]
      · rw [log, copies, copied, copied, children]
  | exits text pending printed log children pc =>
      refine ⟨?_, fun _ => pending, ?_⟩
      · rw [log, pending, printed, written_mine _ _ rfl, List.append_nil, ← own, List.append_assoc]
      · rw [copied] at copies
        rw [log, written_mine _ _ rfl, written_mine _ _ rfl, copied, children]
        simp only [List.length_append]
        omega
  | forks pending printed log children before pc =>
      refine ⟨?_, fun exited => absurd exited pc, ?_⟩
      · rw [log, pending, printed, own]
      · rw [log, copies, copied, copied, children, List.map_append, List.sum_append]
        rfl
  | flushes n flush pending printed log children pc before =>
      refine ⟨?_, fun exited => absurd (pc.symm.trans exited) before, ?_⟩
      · rw [log, pending, printed, written_mine _ _ rfl, List.append_assoc, List.take_append_drop,
          own]
      · rw [log, written_mine _ _ rfl, written_mine _ _ rfl, List.length_append,
          List.length_append, copies, copied, copied, children]
        omega
  | moves k child state found failed children pending printed log pc =>
      refine ⟨?_, fun exited => ?_, ?_⟩
      · rw [log, pending, printed, own]
      · obtain same | ⟨-, stat, reports⟩ := pc
        · rw [pending, ended (same ▸ exited)]
        · rw [reports] at exited
          cases exited
      · have same : ({ child with state := state } : Child).repeated = child.repeated := by
          rw [Child.repeated, Child.repeated, failed]
        have sum := sum_map_set found (fun child => child.repeated.length)
          { child with state := state }
        rw [same] at sum
        rw [log, copies, copied, copied, children]
        omega
  | fails k child state found before failed children pending printed log pc =>
      refine ⟨?_, fun exited => ?_, ?_⟩
      · rw [log, pending, printed, written_other _ _ rfl, own]
      · rw [pending, ended (pc ▸ exited)]
      · -- What the child has got counts from now on, and is written in this step.
        have nothing : child.repeated = [] := by
          rw [Child.repeated, before]
          rfl
        have all : ({ child with state := state } : Child).repeated = child.inherited := by
          rw [Child.repeated, failed]
          rfl
        have sum := sum_map_set found (fun child => child.repeated.length)
          { child with state := state }
        rw [nothing, all, List.length_nil] at sum
        rw [copied] at copies
        rw [log, written_mine _ _ rfl, written_other _ _ rfl, List.length_append, copies, copied,
          children]
        omega
  | outputs k text pending printed log children pc =>
      refine ⟨?_, fun exited => ?_, ?_⟩
      · rw [log, pending, printed, written_other _ _ rfl, own]
      · rw [pending, ended (pc ▸ exited)]
      · rw [log, written_other _ _ rfl, written_other _ _ rfl, copies, copied, copied, children]

/-- Each child that has failed has written its copy once, and no other child has. -/
def OwnCopies (s : Console) : Prop :=
  ∀ k, copiesOf k s.log = (s.children[k]?.map Child.copies).getD []

theorem ownCopies_start (typed : List (List Byte)) : OwnCopies (start typed) := fun _ => rfl

theorem ownCopies_step (copied : OwnCopies s) (taken : s.step a = some t) : OwnCopies t := by
  intro j
  have before := copied j
  cases effect_of_step taken with
  | prints text pending printed log children => rw [log, children, before]
  | exits text pending printed log children =>
      rw [log, children, copiesOf_other (by simp), before]
  | forks pending printed log children =>
      rw [log, children, before]
      rcases Nat.lt_trichotomy j s.children.length with old | rfl | beyond
      · rw [List.getElem?_append_left old]
      · rw [List.getElem?_concat_length, List.getElem?_eq_none (Nat.le_refl _)]
        rfl
      · rw [List.getElem?_eq_none (Nat.le_of_lt beyond), List.getElem?_eq_none (by simpa)]
  | flushes n flush pending printed log children =>
      rw [log, children, copiesOf_other (by simp), before]
  | moves k child state found failed children pending printed log =>
      rw [log, children, before]
      obtain ⟨within, -⟩ := List.getElem?_eq_some_iff.mp found
      by_cases here : k = j
      · subst here
        rw [List.getElem?_set_self within, found]
        simp only [Option.map_some, Option.getD_some, Child.copies, failed]
      · rw [List.getElem?_set_ne here]
  | fails k child state found unwritten failed children pending printed log =>
      obtain ⟨within, -⟩ := List.getElem?_eq_some_iff.mp found
      rw [log, children]
      by_cases here : k = j
      · subst here
        rw [copiesOf_copy, before, List.getElem?_set_self within, found]
        simp [Child.copies, failed, unwritten]
      · rw [copiesOf_other (by simpa using here), List.getElem?_set_ne here, before]
  | outputs k text pending printed log children =>
      rw [log, children, copiesOf_other (by simp), before]

/-- What the shell writes is part of what it and its children write. -/
theorem written_sublist (log : List (Author × List Byte)) :
    List.Sublist (written Author.isShell log) (written Author.ofShell log) := by
  induction log with
  | nil => exact .refl []
  | cons entry log ih =>
      obtain ⟨author, text⟩ := entry
      cases author with
      | shell => exact (List.Sublist.refl text).append ih
      | copy child => exact ih.trans (List.sublist_append_right text _)
      | command child => exact ih

/-- Nothing is repeated exactly when no child that has failed had something to repeat. -/
theorem copied_eq_zero_iff :
    s.copied = 0 ↔ ∀ child ∈ s.children, child.state.failed = true → child.inherited = [] := by
  rw [copied, List.sum_eq_zero_iff_forall_eq_nat]
  constructor
  · intro none child member failed
    have zero := none _ (List.mem_map_of_mem member)
    rwa [Child.repeated, if_pos failed, List.length_eq_zero_iff] at zero
  · intro none n member
    obtain ⟨child, among, rfl⟩ := List.mem_map.mp member
    by_cases failed : child.state.failed = true
    · rw [Child.repeated, if_pos failed, none child among failed, List.length_nil]
    · rw [Child.repeated, if_neg failed, List.length_nil]

/-! ## Runs without a write before the end -/

/-- All is kept, from the first prompt on there is something, and so every child has got
something. -/
structure Full (s : Console) : Prop where
  kept : s.pc = .exited ∨ s.pending = s.printed
  some : s.pc = .prompt ∨ s.pc = .exited ∨ s.printed ≠ []
  children : ∀ child ∈ s.children, child.inherited ≠ []

theorem full_start (typed : List (List Byte)) : Full (start typed) where
  kept := .inr rfl
  some := .inl rfl
  children child member := by cases member

/-- A child that goes on keeps what it has got. -/
theorem inherited_of_set {children : List Child} {k : Nat} {old child : Child} {state : ChildState}
    (inherited : ∀ child ∈ children, child.inherited ≠ []) (found : children[k]? = some old)
    (member : child ∈ children.set k { old with state := state }) : child.inherited ≠ [] := by
  rcases List.mem_or_eq_of_mem_set member with among | rfl
  · exact inherited child among
  · exact inherited old (List.mem_of_getElem? found)

theorem full_step (unwritten : ∀ n, a ≠ .flush n) (full : Full s) (taken : s.step a = some t) :
    Full t := by
  obtain ⟨kept, some, inherited⟩ := full
  cases effect_of_step taken with
  | prints text pending printed log children before pc begins =>
      refine ⟨.inr ?_, .inr (.inr ?_), by rwa [children]⟩
      · rw [pending, printed, kept.resolve_left before]
      · rw [printed]
        rcases some with first | left | something
        · exact List.append_ne_nil_of_right_ne_nil _ (begins first)
        · exact absurd left before
        · exact List.append_ne_nil_of_left_ne_nil something _
  | exits text pending printed log children pc =>
      exact ⟨.inl pc, .inr (.inl pc), by rwa [children]⟩
  | forks pending printed log children before pc =>
      -- The prompt has been printed, and nothing has been written yet.
      obtain ⟨background, here⟩ := before
      have all : s.pending = s.printed := kept.resolve_left (by simp [here])
      have something : s.printed ≠ [] := by simpa [here] using some
      refine ⟨.inr (by rw [pending, printed, all]), .inr (.inr (by rwa [printed])), ?_⟩
      intro child member
      rw [children] at member
      rcases List.mem_append.mp member with among | new
      · exact inherited child among
      · rw [List.mem_singleton.mp new]
        exact all ▸ something
  | flushes n flush pending printed log children pc before =>
      exact absurd flush (unwritten n)
  | moves k child state found failed children pending printed log pc =>
      have sameChildren : ∀ next ∈ t.children, next.inherited ≠ [] := fun next member =>
        inherited_of_set inherited found (children ▸ member)
      rcases pc with same | ⟨waiting, stat, reports⟩
      · exact ⟨by rwa [same, pending, printed], by rwa [same, printed], sameChildren⟩
      · refine ⟨.inr ?_, .inr (.inr ?_), sameChildren⟩
        · rw [pending, printed, kept.resolve_left (by simp [waiting])]
        · rw [printed]
          simpa [waiting] using some
  | fails k child state found before failed children pending printed log pc =>
      refine ⟨by rwa [pc, pending, printed], by rwa [pc, printed], fun next member => ?_⟩
      rw [children] at member
      exact inherited_of_set inherited found member
  | outputs k text pending printed log children pc =>
      exact ⟨by rwa [pc, pending, printed], by rwa [pc, printed], by rwa [children]⟩

/-! ## The end of a session -/

/-- **What the shell has printed.** When the shell has ended, it has written its text once. Each
child whose `execvp` has failed has written besides what it got at its `fork`, once and as a whole,
and the other children nothing of it. So the text has been written once exactly when these children
got nothing. When the library writes nothing before the end, this is when no `execvp` has failed. -/
theorem printed_once_iff {typed : List (List Byte)} {actions : List Action}
    (ran : run step (start typed) actions = some s) (ended : s.pc = .exited) :
    written Author.isShell s.log = s.printed ∧
      (∀ k child, s.children[k]? = some child →
        copiesOf k s.log = if child.state.failed then [child.inherited] else []) ∧
      (written Author.ofShell s.log).length = s.printed.length + s.copied ∧
      (written Author.ofShell s.log = s.printed ↔
        ∀ child ∈ s.children, child.state.failed = true → child.inherited = []) ∧
      ((∀ n, .flush n ∉ actions) → (written Author.ofShell s.log = s.printed ↔
        ∀ child ∈ s.children, child.state.failed = false)) := by
  have kept := run_invariant (fun kept taken => kept_step kept taken) (kept_start typed) ran
  have own : written Author.isShell s.log = s.printed := by
    rw [← kept.own, kept.ended ended, List.append_nil]
  have length := kept.copies
  rw [own] at length
  have once : written Author.ofShell s.log = s.printed ↔
      ∀ child ∈ s.children, child.state.failed = true → child.inherited = [] := by
    rw [← copied_eq_zero_iff]
    constructor
    · intro same
      rw [same] at length
      omega
    · intro nothing
      -- The shell's text is a part of the whole, and has its length.
      have part := written_sublist s.log
      rw [own] at part
      exact (part.eq_of_length (by omega)).symm
  have copies := run_invariant (fun copied taken => ownCopies_step copied taken)
    (ownCopies_start typed) ran
  refine ⟨own, fun k child found => ?_, length, once, fun unwritten => once.trans ?_⟩
  · rw [copies k, found]
    rfl
  have full := run_invariant_of (fun unwritten full taken => full_step unwritten full taken)
    (fun a member n flushes => unwritten n (flushes ▸ member)) (full_start typed) ran
  constructor
  · intro nothing child member
    cases failed : child.state.failed with
    | false => rfl
    | true => exact absurd (nothing child member failed) (full.children child member)
  · intro started child member failed
    rw [started child member] at failed
    cases failed

/-- A command that cannot be executed, and the end of the input. -/
def notFound : List Action :=
  [.shell 0, .shell 0, .shell 0, .execFails 0 512, .wait 0, .shell 0, .shell 0, .shell 0]

/-- What the child got has been written twice. -/
theorem printed_once_iff_notFound :
    ∃ s, run step (start [literal "x\n"]) notFound = some s ∧ s.pc = .exited ∧
      (written Author.ofShell s.log).length = s.printed.length + 17 ∧
      written Author.ofShell s.log ≠ s.printed := by
  have ran : run step (start [literal "x\n"]) notFound = some
      { typed := []
        pc := .exited
        children := [⟨literal "myshell -> [0] x\n", .reaped true⟩]
        pending := []
        printed := literal "myshell -> [0] x\nexit status: 2\nmyshell -> "
        log := [(.copy 0, literal "myshell -> [0] x\n"),
          (.shell, literal "myshell -> [0] x\nexit status: 2\nmyshell -> ")] } := by
    rfl
  obtain ⟨-, -, length, once, -⟩ := printed_once_iff ran rfl
  refine ⟨_, ran, rfl, length, fun same => ?_⟩
  have nothing := once.mp same _ (List.mem_cons_self ..) rfl
  revert nothing
  decide

end Console

end LinuxExercises.Shell.HW3
