import LinuxExercises.Foundations.Runs
import LinuxExercises.Shell.Builtin

/-!
# Whom the shell of SP_HW3 waits for

`run_command` of SP_HW3 waits for a foreground command with `wait`, which returns any child
that has ended. A background child that nobody has waited for is such a child: the shell
then returns to the prompt while the foreground command is still running, and prints the
exit status of the other one.

In every run in which no other child is a zombie when the shell waits, a foreground command
has ended when `run_command` returns, and the status that is printed is its own
(`reported_of_run`). A sequence of commands for which that holds whatever the order in
which the children end is one in which no background command comes before a foreground
command (`allReported_iff`). Only the commands count that get to `run_command`: `main` carries
out the ones of the table itself, and some of them end the shell.
-/

set_option autoImplicit false

namespace LinuxExercises.Shell.HW3

open Foundations

/-! ## The code -/

/-- A child of the shell. -/
inductive ChildState where
  | running
  | zombie (stat : Nat)
  | reaped (stat : Nat)
deriving DecidableEq

/-- The status with which a child has ended. -/
def ChildState.status : ChildState → Option Nat
  | running => none
  | zombie stat => some stat
  | reaped stat => some stat

/-- `WEXITSTATUS`. -/
def wexitstatus (stat : Nat) : Nat := stat / 256 % 256

/-- What `main` does with a command: it ends the shell, carries it out itself, or hands it to
`run_command`. -/
inductive Fate where
  | ends
  | serves
  | runs
deriving DecidableEq

/-- The branch of `main` for the vector of a line. A line without a word ends the shell in
`parse`, and a function of the table ends it by `exit`. Nothing is said about the shell behind
a function that leaves the vector or takes its NULL for a string. -/
def fate (argv : List (List Byte)) : Fate :=
  if argv = [] then .ends
  else
    match doBuiltin inbuilts argv with
    | none => .runs
    | some (.ok (.prints _)) => .serves
    | some _ => .ends

/-- `is_background`: whether there is a `&`. -/
def isBackground (argv : List (List Byte)) : Bool := argv.contains (literal "&")

/-- Where the shell is: at its prompt, in `run_command`, or no more. -/
inductive Pc where
  | prompt
  | fork (background : Bool)
  | wait (child : Nat)
  | print (child : Nat) (background : Bool) (stat : Nat)
  | exited
deriving DecidableEq

/-- A call of `run_command` that has returned: the child that it forked, and the exit status
that it printed. -/
structure Report where
  child : Nat
  background : Bool
  printed : Nat
deriving DecidableEq

/-- The shell, the commands that will be typed, and the children in the order in which they
were forked. -/
structure System where
  typed : List (List (List Byte))
  pc : Pc
  children : List ChildState
  reports : List Report
deriving DecidableEq

namespace System

/-- The shell is started, and these commands will be typed. -/
def start (typed : List (List (List Byte))) : System where
  typed := typed
  pc := .prompt
  children := []
  reports := []

/-- The next step of the shell, when it does not wait. The variable `stat` holds anything
until `wait` has stored a status in it. -/
def stepShell (stat : Nat) (s : System) : Option System :=
  match s.pc with
  | .prompt =>
      match s.typed with
      | [] => some { s with pc := .exited }
      | argv :: typed =>
          match fate argv with
          | .ends => some { s with pc := .exited }
          | .serves => some { s with typed := typed }
          | .runs => some { s with typed := typed, pc := .fork (isBackground argv) }
  | .fork background =>
      some { s with
        children := s.children ++ [.running]
        pc := if background then .print s.children.length true stat
          else .wait s.children.length }
  | .wait _ => none
  | .print child background stat =>
      some { s with
        pc := .prompt
        reports := s.reports ++ [⟨child, background, wexitstatus stat⟩] }
  | .exited => none

/-- `wait(&stat)` returns one of the zombies. -/
def stepWait (k : Nat) (s : System) : Option System :=
  match s.pc, s.children[k]? with
  | .wait child, some (.zombie stat) =>
      some { s with
        pc := .print child false stat
        children := s.children.set k (.reaped stat) }
  | _, _ => none

end System

/-- What happens next. A child ends when its program does, when a signal kills it, or when
`execvp` fails. -/
inductive Action where
  | shell (stat : Nat)
  | failedFork
  | wait (k : Nat)
  | ends (k : Nat) (stat : Nat)
deriving DecidableEq

/-- The step of an action, when it is enabled. -/
def step (s : System) : Action → Option System
  | .shell stat => s.stepShell stat
  | .failedFork =>
      match s.pc with
      | .fork _ => some { s with pc := .exited }
      | _ => none
  | .wait k => s.stepWait k
  | .ends k stat =>
      if s.children[k]? = some .running then
        some { s with children := s.children.set k (.zombie stat) }
      else none

/-- Everything that a step can do. -/
inductive Stepped (s : System) : Action → System → Prop
  | exits (a : Action) : Stepped s a { s with pc := .exited }
  | types {argv : List (List Byte)} {typed : List (List (List Byte))} {stat : Nat}
      (pc : s.pc = .prompt) (more : s.typed = argv :: typed) (runs : fate argv = .runs) :
      Stepped s (.shell stat) { s with typed := typed, pc := .fork (isBackground argv) }
  | serves {argv : List (List Byte)} {typed : List (List (List Byte))} {stat : Nat}
      (pc : s.pc = .prompt) (more : s.typed = argv :: typed) (serves : fate argv = .serves) :
      Stepped s (.shell stat) { s with typed := typed }
  | forks {background : Bool} {stat : Nat} (pc : s.pc = .fork background) :
      Stepped s (.shell stat) { s with
        children := s.children ++ [.running]
        pc := if background then .print s.children.length true stat
          else .wait s.children.length }
  | prints {child stat any : Nat} {background : Bool} (pc : s.pc = .print child background stat) :
      Stepped s (.shell any) { s with
        pc := .prompt
        reports := s.reports ++ [⟨child, background, wexitstatus stat⟩] }
  | waits {k child stat : Nat} (pc : s.pc = .wait child)
      (found : s.children[k]? = some (.zombie stat)) :
      Stepped s (.wait k) { s with
        pc := .print child false stat
        children := s.children.set k (.reaped stat) }
  | ends {k stat : Nat} (found : s.children[k]? = some .running) :
      Stepped s (.ends k stat) { s with children := s.children.set k (.zombie stat) }

theorem stepped {s t : System} {a : Action} (taken : step s a = some t) : Stepped s a t := by
  cases a with
  | shell stat =>
      rw [step, System.stepShell] at taken
      split at taken
      next pc =>
        split at taken
        next => cases taken; exact .exits _
        next argv typed more =>
          split at taken <;> cases taken
          · exact .exits _
          next serves => exact .serves pc more serves
          next runs => exact .types pc more runs
      next background pc =>
        cases taken
        exact .forks pc
      next => cases taken
      next child background stat pc =>
        cases taken
        exact .prints pc
      next => cases taken
  | failedFork =>
      rw [step] at taken
      split at taken <;> cases taken
      exact .exits _
  | wait k =>
      rw [step, System.stepWait] at taken
      split at taken <;> cases taken
      next child stat pc found => exact .waits pc found
  | ends k stat =>
      rw [step] at taken
      split at taken <;> cases taken
      next found => exact .ends found

/-- Each foreground command that `run_command` has returned from has ended, and the exit
status that was printed is its own. -/
def System.Reported (s : System) : Prop :=
  ∀ r ∈ s.reports, r.background = false →
    ∃ stat, s.children[r.child]?.bind ChildState.status = some stat ∧
      r.printed = wexitstatus stat

/-- That holds in every state reached, in whatever order the children end. -/
def AllReported (typed : List (List (List Byte))) : Prop :=
  ∀ actions s, run step (.start typed) actions = some s → s.Reported

/-- No child but the one that the shell waits for is a zombie. -/
def System.Alone (s : System) : Action → Prop
  | .wait _ => ∀ child, s.pc = .wait child →
      ∀ (k stat : Nat), s.children[k]? = some (.zombie stat) → k = child
  | _ => True

/-! ## Runs in which no other child is a zombie -/

/-- Children that have ended stay so, with their status. -/
def Kept (before after : List ChildState) : Prop :=
  ∀ k stat : Nat, before[k]?.bind ChildState.status = some stat →
    after[k]?.bind ChildState.status = some stat

theorem kept_append (children more : List ChildState) : Kept children (children ++ more) := by
  intro k stat ended
  obtain ⟨child, found, -⟩ := Option.bind_eq_some_iff.mp ended
  obtain ⟨within, -⟩ := List.getElem?_eq_some_iff.mp found
  rwa [List.getElem?_append_left within]

/-- A child that has not ended may change, and one that has must keep its status. -/
theorem kept_set {children : List ChildState} {k : Nat} {old new : ChildState}
    (found : children[k]? = some old) (same : ∀ stat, old.status = some stat →
      new.status = some stat) : Kept children (children.set k new) := by
  intro j stat ended
  obtain ⟨within, -⟩ := List.getElem?_eq_some_iff.mp found
  by_cases here : k = j
  · subst here
    rw [found] at ended
    rw [List.getElem?_set_self within]
    exact same stat ended
  · rwa [List.getElem?_set_ne here]

/-- What has been printed, and what is about to be, is right. -/
structure Inv (s : System) : Prop where
  reported : s.Reported
  printing : ∀ child stat, s.pc = .print child false stat →
    s.children[child]?.bind ChildState.status = some stat

theorem inv_start (typed : List (List (List Byte))) : Inv (.start typed) where
  reported := fun _ member => (List.not_mem_nil member).elim
  printing := nofun

theorem System.Reported.kept {s : System} (reported : s.Reported) {children : List ChildState}
    (kept : Kept s.children children) : ({ s with children := children } : System).Reported := by
  intro r member foreground
  obtain ⟨stat, ended, printed⟩ := reported r member foreground
  exact ⟨stat, kept _ _ ended, printed⟩

theorem Inv.step {s t : System} {a : Action} (alone : s.Alone a) (inv : Inv s)
    (taken : step s a = some t) : Inv t := by
  cases stepped taken with
  | exits => exact ⟨inv.reported, nofun⟩
  | types => exact ⟨inv.reported, nofun⟩
  | serves pc more serves => exact ⟨inv.reported, inv.printing⟩
  | @forks background =>
      refine ⟨inv.reported.kept (kept_append _ _), fun child stat same => ?_⟩
      cases background <;> cases same
  | @prints child stat _ background pc =>
      refine ⟨fun r member foreground => ?_, nofun⟩
      rcases List.mem_append.mp member with old | new
      · exact inv.reported r old foreground
      · obtain rfl := List.mem_singleton.mp new
        dsimp only at foreground
        subst foreground
        exact ⟨stat, inv.printing child stat pc, rfl⟩
  | @waits k child stat pc found =>
      -- The only zombie is the child of the command.
      obtain rfl := alone child pc k stat found
      obtain ⟨within, -⟩ := List.getElem?_eq_some_iff.mp found
      refine ⟨inv.reported.kept (kept_set found fun _ same => same), fun child stat same => ?_⟩
      cases same
      dsimp only
      rw [List.getElem?_set_self within]
      rfl
  | @ends k stat found =>
      have kept : Kept s.children (s.children.set k (.zombie stat)) := kept_set found nofun
      exact ⟨inv.reported.kept kept, fun child stat pc => kept _ _ (inv.printing child stat pc)⟩

/-- **Whom `wait` returns.** In a run in which no other child is a zombie when the shell
waits, every foreground command is waited for and its own status is printed. -/
theorem reported_of_run {typed : List (List (List Byte))} {actions : List Action} {s : System}
    (alone : Along step System.Alone (.start typed) actions)
    (ran : run step (.start typed) actions = some s) : s.Reported :=
  (run_invariant_along Inv.step alone (inv_start typed) ran).reported

/-! ## Sequences of commands -/

/-- The commands that `run_command` gets: not the ones that `main` carries out itself, and none
behind the first that ends the shell. -/
def handedOn : List (List (List Byte)) → List (List (List Byte))
  | [] => []
  | argv :: typed =>
    match fate argv with
    | .ends => []
    | .serves => handedOn typed
    | .runs => argv :: handedOn typed

/-- The command is run in the background. -/
def Background (argv : List (List Byte)) : Prop := isBackground argv = true

instance : DecidablePred Background := fun _ => inferInstanceAs (Decidable (_ = true))

/-- All children have been waited for. -/
def AllReaped (children : List ChildState) : Prop := ∀ c ∈ children, ∃ stat, c = .reaped stat

/-- While foreground commands are still to come, nobody but the child that the shell waits
for is left over. -/
def Pc.Orderly (typed : List (List (List Byte))) (children : List ChildState) : Pc → Prop
  | prompt => AllReaped children ∨ ∀ argv ∈ typed, Background argv
  | fork background =>
      if background then ∀ argv ∈ typed, Background argv else AllReaped children
  | wait child => ∀ (k : Nat) (c : ChildState), children[k]? = some c →
      k = child ∨ ∃ stat, c = .reaped stat
  | print _ background _ =>
      if background then ∀ argv ∈ typed, Background argv else AllReaped children
  | exited => True

/-- The invariant for commands in this order. -/
structure Orderly (s : System) : Prop where
  order : (handedOn s.typed).Pairwise fun earlier later => Background earlier → Background later
  place : s.pc.Orderly (handedOn s.typed) s.children

/-- When the shell waits, there is no other zombie. -/
theorem Orderly.alone {s : System} (orderly : Orderly s) (a : Action) : s.Alone a := by
  cases a with
  | wait k =>
      intro child pc j stat found
      have place := orderly.place
      rw [pc] at place
      rcases place j _ found with same | ⟨_, reaped⟩
      · exact same
      · cases reaped
  | shell stat => trivial
  | failedFork => trivial
  | ends k stat => trivial

theorem AllReaped.set {children : List ChildState} (all : AllReaped children) (k stat : Nat) :
    AllReaped (children.set k (.reaped stat)) := by
  intro c member
  rcases List.mem_or_eq_of_mem_set member with old | rfl
  · exact all c old
  · exact ⟨stat, rfl⟩

/-- The child that the shell waits for is the last one that was left over. -/
theorem allReaped_of_wait {typed : List (List (List Byte))} {children : List ChildState}
    {child : Nat} (place : (Pc.wait child).Orderly typed children) (stat : Nat) :
    AllReaped (children.set child (.reaped stat)) := by
  intro c member
  obtain ⟨k, within, rfl⟩ := List.mem_iff_getElem.mp member
  by_cases here : child = k
  · subst here
    exact ⟨stat, by simp⟩
  · rw [List.getElem_set_ne here]
    rw [List.length_set] at within
    exact (place k _ (List.getElem?_eq_getElem within)).resolve_left fun same => here same.symm

theorem AllReaped.not_running {children : List ChildState} (all : AllReaped children) {k : Nat} :
    children[k]? ≠ some .running := by
  intro found
  obtain ⟨stat, reaped⟩ := all _ (List.mem_of_getElem? found)
  cases reaped

/-- A child that ends is in nobody's way. -/
theorem Pc.Orderly.ends {pc : Pc} {typed : List (List (List Byte))} {children : List ChildState}
    (place : pc.Orderly typed children) {k : Nat} (found : children[k]? = some .running)
    (stat : Nat) : pc.Orderly typed (children.set k (.zombie stat)) := by
  cases pc with
  | prompt => exact .inr (place.resolve_left fun all => all.not_running found)
  | fork background =>
      cases background with
      | true => exact place
      | false => exact absurd found place.not_running
  | wait child =>
      intro j c other
      by_cases here : k = j
      · subst here
        exact .inl ((place k _ found).resolve_right fun reaped => by simp at reaped)
      · rw [List.getElem?_set_ne here] at other
        exact place j c other
  | print child background stat =>
      cases background with
      | true => exact place
      | false => exact absurd found place.not_running
  | exited => trivial

/-- The child that has been forked last may be waited for. -/
theorem place_of_fork {typed : List (List (List Byte))} {children : List ChildState}
    (all : AllReaped children) :
    (Pc.wait children.length).Orderly typed (children ++ [.running]) := by
  intro k c found
  rcases Nat.lt_or_ge k children.length with old | new
  · rw [List.getElem?_append_left old] at found
    exact .inr (all c (List.mem_of_getElem? found))
  · have last : k < children.length + 1 := by
      have within := (List.getElem?_eq_some_iff.mp found).1
      simpa using within
    exact .inl (by omega)

theorem Orderly.step {s t : System} {a : Action} (orderly : Orderly s)
    (taken : step s a = some t) : Orderly t := by
  have place := orderly.place
  cases stepped taken with
  | exits => exact ⟨orderly.order, trivial⟩
  | @types argv typed _ pc more runs =>
      have rest : handedOn s.typed = argv :: handedOn typed := by rw [more, handedOn, runs]
      have order := orderly.order
      rw [pc, rest] at place
      rw [rest, List.pairwise_cons] at order
      refine ⟨order.2, ?_⟩
      simp only [Pc.Orderly]
      split
      next background => exact fun later member => order.1 later member background
      next foreground =>
        exact place.resolve_right fun all => foreground (all argv (List.mem_cons_self ..))
  | @serves argv typed _ pc more serves =>
      have rest : handedOn s.typed = handedOn typed := by rw [more, handedOn, serves]
      exact ⟨rest ▸ orderly.order, rest ▸ place⟩
  | @forks background _ pc =>
      rw [pc] at place
      refine ⟨orderly.order, ?_⟩
      cases background with
      | true => exact place
      | false => exact place_of_fork place
  | @prints _ _ _ background pc =>
      rw [pc] at place
      refine ⟨orderly.order, ?_⟩
      cases background with
      | true => exact .inr place
      | false => exact .inl place
  | @waits k child stat pc found =>
      obtain rfl := orderly.alone (.wait k) child pc k stat found
      rw [pc] at place
      exact ⟨orderly.order, allReaped_of_wait place stat⟩
  | @ends _ stat found => exact ⟨orderly.order, place.ends found stat⟩

/-- Nothing is left over when a foreground command waits, if all of them come first. -/
theorem allReported_of_pairwise {typed : List (List (List Byte))}
    (order : (handedOn typed).Pairwise fun earlier later =>
      Background earlier → Background later) :
    AllReported typed := by
  intro actions s ran
  have begins : Orderly (.start typed) := ⟨order, .inl fun _ member => by cases member⟩
  have both := @run_invariant _ _ step (fun s => Orderly s ∧ Inv s)
    (fun holds taken => ⟨holds.1.step taken, holds.2.step (holds.1.alone _) taken⟩) _ _ _
    ⟨begins, inv_start typed⟩ ran
  exact both.2.reported

/-! ## A background child that is reaped instead -/

section Commands

variable {argv : List (List Byte)} {typed : List (List (List Byte))} {children : List ChildState}
  {reports : List Report}

/-- A background command is started. -/
theorem run_background (runs : fate argv = .runs) (background : Background argv) :
    run step ⟨argv :: typed, .prompt, children, reports⟩ [.shell 0, .shell 0, .shell 0] =
      some ⟨typed, .prompt, children ++ [.running],
        reports ++ [⟨children.length, true, wexitstatus 0⟩]⟩ := by
  have detected : isBackground argv = true := background
  simp [run, step, System.stepShell, runs, detected]

/-- A foreground command is started. -/
theorem run_foreground (runs : fate argv = .runs) (foreground : ¬ Background argv) :
    run step ⟨argv :: typed, .prompt, children, reports⟩ [.shell 0, .shell 0] =
      some ⟨typed, .wait children.length, children ++ [.running], reports⟩ := by
  have detected : isBackground argv = false := eq_false_of_ne_true foreground
  simp [run, step, System.stepShell, runs, detected]

/-- A running child ends, and the shell's `wait` returns it. -/
theorem run_reap {child k : Nat} (found : children[k]? = some .running) :
    run step ⟨typed, .wait child, children, reports⟩ [.ends k 0, .wait k, .shell 0] =
      some ⟨typed, .prompt, children.set k (.reaped 0),
        reports ++ [⟨child, false, wexitstatus 0⟩]⟩ := by
  obtain ⟨within, -⟩ := List.getElem?_eq_some_iff.mp found
  have ended : step ⟨typed, .wait child, children, reports⟩ (.ends k 0) =
      some ⟨typed, .wait child, children.set k (.zombie 0), reports⟩ := if_pos found
  have waited : step ⟨typed, .wait child, children.set k (.zombie 0), reports⟩ (.wait k) =
      some ⟨typed, .print child false 0, children.set k (.reaped 0), reports⟩ := by
    simp [step, System.stepWait, within]
  exact run_step ended (run_step waited rfl)

/-- A command that does not end the shell can be carried out without reaping a child that is
left over. -/
theorem exists_run_command (stays : fate argv ≠ .ends) (typed : List (List (List Byte)))
    (children : List ChildState) (reports : List Report) :
    ∃ actions more reports', run step ⟨argv :: typed, .prompt, children, reports⟩ actions =
      some ⟨typed, .prompt, children ++ more, reports'⟩ := by
  cases does : fate argv with
  | ends => exact absurd does stays
  | serves => exact ⟨[.shell 0], [], reports, by simp [run, step, System.stepShell, does]⟩
  | runs =>
      by_cases background : Background argv
      · exact ⟨_, [.running], _, run_background does background⟩
      · have found : (children ++ [ChildState.running])[children.length]? = some .running := by
          simp
        have reaped := @run_reap typed _ reports children.length _ found
        rw [List.set_append_right _ _ (Nat.le_refl _), Nat.sub_self] at reaped
        exact ⟨_, [.reaped 0], _, run_append (run_foreground does background) reaped⟩

/-- So can a sequence of commands. -/
theorem exists_run_commands {commands : List (List (List Byte))}
    (stay : ∀ argv ∈ commands, fate argv ≠ .ends) (typed : List (List (List Byte)))
    (children : List ChildState) (reports : List Report) :
    ∃ actions more reports', run step ⟨commands ++ typed, .prompt, children, reports⟩ actions =
      some ⟨typed, .prompt, children ++ more, reports'⟩ := by
  induction commands generalizing children reports with
  | nil => exact ⟨[], [], reports, by simp⟩
  | cons argv commands ih =>
      obtain ⟨first, later⟩ := List.forall_mem_cons.mp stay
      obtain ⟨actions₁, more, reports₁, ran⟩ :=
        exists_run_command first (commands ++ typed) children reports
      obtain ⟨actions₂, more', reports₂, ran'⟩ := ih later (children ++ more) reports₁
      refine ⟨actions₁ ++ actions₂, more ++ more', reports₂, ?_⟩
      rw [← List.append_assoc]
      exact run_append ran ran'

/-- A command that `run_command` gets, with no command before it that ends the shell. -/
theorem exists_split_of_handedOn (member : argv ∈ handedOn typed) :
    ∃ before after, typed = before ++ argv :: after ∧ (∀ c ∈ before, fate c ≠ .ends) ∧
      fate argv = .runs := by
  induction typed with
  | nil => exact (List.not_mem_nil member).elim
  | cons first typed ih =>
      rw [handedOn] at member
      split at member
      next => exact (List.not_mem_nil member).elim
      next serves =>
        obtain ⟨before, after, rfl, stay, runs⟩ := ih member
        refine ⟨first :: before, after, rfl, List.forall_mem_cons.mpr ⟨?_, stay⟩, runs⟩
        simp [serves]
      next runs =>
        rcases List.mem_cons.mp member with rfl | later
        · exact ⟨[], typed, rfl, fun _ none => (List.not_mem_nil none).elim, runs⟩
        · obtain ⟨before, after, rfl, stay, runs'⟩ := ih later
          refine ⟨first :: before, after, rfl, List.forall_mem_cons.mpr ⟨?_, stay⟩, runs'⟩
          simp [runs]

/-- `run_command` gets a background command, and a foreground command later. -/
def Disorder (typed : List (List (List Byte))) : Prop :=
  ∃ before argv between argv' after, typed = before ++ argv :: (between ++ argv' :: after) ∧
    ((∀ c ∈ before, fate c ≠ .ends) ∧ fate argv = .runs ∧ Background argv) ∧
      (∀ c ∈ between, fate c ≠ .ends) ∧ fate argv' = .runs ∧ ¬ Background argv'

theorem Disorder.cons (stays : fate argv ≠ .ends) (disorder : Disorder typed) :
    Disorder (argv :: typed) := by
  obtain ⟨before, argv₁, between, argv₂, after, rfl, ⟨stay, first⟩, second⟩ := disorder
  exact ⟨argv :: before, argv₁, between, argv₂, after, rfl,
    ⟨List.forall_mem_cons.mpr ⟨stays, stay⟩, first⟩, second⟩

theorem disorder_of_not_pairwise
    (unordered : ¬ (handedOn typed).Pairwise fun earlier later =>
      Background earlier → Background later) : Disorder typed := by
  induction typed with
  | nil => exact absurd List.Pairwise.nil unordered
  | cons argv typed ih =>
      rw [handedOn] at unordered
      split at unordered
      next => exact absurd List.Pairwise.nil unordered
      next serves => exact (ih unordered).cons (by simp [serves])
      next runs =>
        by_cases later : (handedOn typed).Pairwise fun earlier later =>
          Background earlier → Background later
        · have first : ¬ ∀ argv' ∈ handedOn typed, Background argv → Background argv' :=
            fun all => unordered (List.pairwise_cons.mpr ⟨all, later⟩)
          push Not at first
          obtain ⟨argv', member, background, foreground⟩ := first
          obtain ⟨between, after, rfl, stay, runs'⟩ := exists_split_of_handedOn member
          exact ⟨[], argv, between, argv', after, rfl,
            ⟨fun _ none => (List.not_mem_nil none).elim, runs, background⟩, stay, runs',
            foreground⟩
        · exact (ih later).cons (by simp [runs])

/-- The background child ends while the foreground child runs, and is reaped instead. -/
theorem not_allReported (disorder : Disorder typed) : ¬ AllReported typed := by
  intro all
  obtain ⟨before, argv, between, argv', after, rfl, ⟨stay, runs, background⟩, stay', runs',
    foreground⟩ := disorder
  obtain ⟨actions₁, left, reports₁, ran₁⟩ :=
    exists_run_commands stay (argv :: (between ++ argv' :: after)) [] []
  have ran₂ := @run_background argv (between ++ argv' :: after) ([] ++ left) reports₁ runs
    background
  obtain ⟨actions₃, more, reports₃, ran₃⟩ := exists_run_commands stay' (argv' :: after)
    ([] ++ left ++ [.running]) (reports₁ ++ [⟨([] ++ left).length, true, wexitstatus 0⟩])
  have ran₄ := @run_foreground argv' after ([] ++ left ++ [.running] ++ more) reports₃ runs'
    foreground
  have found : ([] ++ left ++ [ChildState.running] ++ more ++ [.running])[left.length]? =
      some .running := by
    simp
  have ran₅ := @run_reap after _ reports₃ ([] ++ left ++ [ChildState.running] ++ more).length _
    found
  have reported := all _ _ (run_append ran₁ (run_append ran₂ (run_append ran₃
    (run_append ran₄ ran₅))))
  obtain ⟨stat, ended, -⟩ := reported _ (List.mem_append_right _ (List.mem_singleton_self _)) rfl
  -- The child of the foreground command is still running.
  have apart : left.length ≠ ([] ++ left ++ [ChildState.running] ++ more).length := by
    simp
  dsimp only at ended
  rw [List.getElem?_set_ne apart, List.getElem?_concat_length] at ended
  cases ended

end Commands

/-- **Foreground commands of SP_HW3.** Whatever the order in which the children end, each
foreground command has ended when `run_command` returns from it, and its own exit status is
printed, exactly for the sequences in which, among the commands that `run_command` gets, no
background command comes before a foreground command. -/
theorem allReported_iff (typed : List (List (List Byte))) :
    AllReported typed ↔
      (handedOn typed).Pairwise fun earlier later => Background earlier → Background later :=
  ⟨fun all => by_contra fun unordered =>
    not_allReported (disorder_of_not_pairwise unordered) all, allReported_of_pairwise⟩

/-- The commands `sleep 1 &` and `ls`. -/
def sleepThenLs : List (List (List Byte)) :=
  [[literal "sleep", literal "1", literal "&"], [literal "ls"]]

/-- The shell returns from `ls` when `sleep` ends with status 1, prints that status, and `ls`
is still running. -/
theorem not_reported_sleep :
    ∃ actions s, run step (.start sleepThenLs) actions = some s ∧
      s.reports.getLast? = some ⟨1, false, 1⟩ ∧ s.children[1]? = some .running ∧
        ¬ s.Reported := by
  have reaches : run step (.start sleepThenLs)
      [.shell 0, .shell 0, .shell 0, .shell 0, .shell 0, .ends 0 256, .wait 0, .shell 0] =
        some ⟨[], .prompt, [.reaped 256, .running], [⟨0, true, 0⟩, ⟨1, false, 1⟩]⟩ := by
    decide +kernel
  refine ⟨_, _, reaches, rfl, rfl, fun reported => ?_⟩
  obtain ⟨stat, ended, -⟩ := reported ⟨1, false, 1⟩ (by decide) rfl
  cases ended

-- The shell has ended before `ls`.
example : AllReported [[literal "sleep", literal "1", literal "&"], [literal "quit"],
    [literal "ls"]] :=
  allReported_of_pairwise (by decide)

end LinuxExercises.Shell.HW3
