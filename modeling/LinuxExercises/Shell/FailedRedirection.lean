import LinuxExercises.Shell.Redirection

/-!
# Redirections that fail

`redirect_in` and `redirect_out` return -1 when they cannot open a file. The child of
`run_command` prints a message then, and goes on: with the second pass, and with
`pipe_and_exec` on the vector as the failed call has left it. `pipe_and_exec` itself
prints its message and starts nothing when a command is missing next to a `|`.

So a failed redirection stops the child only when there is nothing to start anyway. That
is when the vector begins with a `|`, or with a `>` that takes effect and leaves nothing of
it (`stopsAtFailure_iff`).
-/

set_option autoImplicit false

namespace LinuxExercises.Shell

open Foundations

/-! ## What the child does after a failure -/

namespace Redirection

/-- Where a pass finds its operator. -/
def position (r : Redirection) (child : Child) : Option Nat :=
  (visible child.argv).idxOf? r.operator

/-- A pass reports an error. -/
def Reports (r : Redirection) (child : Child) : Prop := (r.pass child).1 = -1

/-- A pass opens a file, for the redirection at this index. -/
def OpensAt (r : Redirection) (child : Child) (i : Nat) : Prop :=
  r.position child = some i ∧ (r.pass child).2.opened ≠ child.opened

end Redirection

/-- The child at its redirections. -/
def Child.forked (argv : List String) (fds : Descriptors OpenFile) : Child where
  argv := argv.map some ++ [none]
  fds := fds
  opened := []

/-- When a pass reports an error, the child starts no program, and no redirection behind
the one that failed opens its file, in whichever pass. -/
structure StopsAtFailure (files : Files) (argv : List String) (fds : Descriptors OpenFile) :
    Prop where
  input : files.input.Reports (.forked argv fds) → runChild files argv fds = [] ∧
    ∀ i j, files.input.position (.forked argv fds) = some i →
      files.output.OpensAt (redirectIn files (.forked argv fds)).2 j → j < i
  output : files.output.Reports (redirectIn files (.forked argv fds)).2 →
    runChild files argv fds = [] ∧
      ∀ i j, files.output.position (redirectIn files (.forked argv fds)).2 = some j →
        files.input.OpensAt (.forked argv fds) i → i < j

/-! ## The vectors that are safe -/

namespace Redirection

/-- The index of the first redirection of this kind, and whether its file can be opened. -/
def effect (r : Redirection) : List String → Option (Nat × Bool)
  | [] => none
  | arg :: rest =>
    if arg = r.operator then some (0, rest.head?.any r.canOpen)
    else (effect r rest).map fun (i, succeeds) => (i + 1, succeeds)

/-- What a redirection that takes effect leaves of the vector. -/
def leaves (r : Redirection) (argv : List String) : List String :=
  match r.effect argv with
  | some (i, true) => argv.take i
  | _ => argv

end Redirection

/-- No redirection that a pass comes to fails. -/
def NoneFails (files : Files) (argv : List String) : Prop :=
  (∀ i, files.input.effect argv ≠ some (i, false)) ∧
    ∀ j, files.output.effect (files.input.leaves argv) ≠ some (j, false)

/-- No redirection behind one that fails takes effect. -/
structure NoneBehind (files : Files) (argv : List String) : Prop where
  output : ∀ i j, files.input.effect argv = some (i, false) →
    files.output.effect (files.input.leaves argv) = some (j, true) → j < i
  input : ∀ i j, files.input.effect argv = some (i, true) →
    files.output.effect (files.input.leaves argv) = some (j, false) → i < j

/-- None fails, or there is nothing to start and none behind the one that fails takes
effect. -/
def Harmless (files : Files) (argv : List String) : Prop :=
  NoneFails files argv ∨ argv.head? = some "|" ∧ NoneBehind files argv ∨
    files.output.effect (files.input.leaves argv) = some (0, true)

/-! ## One pass -/

namespace Redirection

variable {r : Redirection} {argv : List String} {tail : List (Option String)}
  {fds : Descriptors OpenFile} {opened : List OpenFile}

/-- What the loop of a pass does. -/
inductive Scanned (r : Redirection) (argv : List String) (tail : List (Option String))
    (fds : Descriptors OpenFile) (opened : List OpenFile) : Option (Nat × Bool) → Int × Child → Prop
  | absent : Scanned r argv tail fds opened none (0, ⟨argv.map some ++ none :: tail, fds, opened⟩)
  | fails (i : Nat) :
      Scanned r argv tail fds opened (some (i, false))
        (-1, ⟨argv.map some ++ none :: tail, fds, opened⟩)
  | opens (i : Nat) (path : String) (rest : List (Option String)) :
      Scanned r argv tail fds opened (some (i, true))
        (0, ⟨(argv.take i).map some ++ none :: rest, fds.redirect (r.file path) r.target,
          opened ++ [r.file path]⟩)

theorem scanned : Scanned r argv tail fds opened (r.effect argv)
    (r.scan (argv.map some ++ none :: tail) fds opened) := by
  induction argv with
  | nil => exact .absent
  | cons arg rest ih =>
      rw [effect, List.map_cons, List.cons_append, scan]
      by_cases here : arg = r.operator
      · rw [if_pos here, if_pos here]
        subst here
        cases rest with
        | nil => exact .fails 0
        | cons path after =>
            simp only [List.head?_cons, Option.any_some, List.map_cons, List.cons_append, apply]
            cases r.canOpen path with
            | true => exact .opens 0 path _
            | false => exact .fails 0
      · rw [if_neg here, if_neg here]
        generalize r.effect rest = found at ih ⊢
        generalize r.scan (rest.map some ++ none :: tail) fds opened = result at ih ⊢
        cases ih with
        | absent => exact .absent
        | fails i => exact .fails (i + 1)
        | opens i path rest => exact .opens (i + 1) path rest

/-- A pass over a vector that is not empty is its loop. -/
theorem passed (nonempty : argv ≠ []) : Scanned r argv tail fds opened (r.effect argv)
    (r.pass ⟨argv.map some ++ none :: tail, fds, opened⟩) := by
  have loop : r.pass ⟨argv.map some ++ none :: tail, fds, opened⟩ =
      r.scan (argv.map some ++ none :: tail) fds opened := by
    cases argv with
    | nil => exact absurd rfl nonempty
    | cons arg rest => rfl
  rw [loop]
  exact scanned

theorem pass_of_absent (nonempty : argv ≠ []) (absent : r.effect argv = none) :
    r.pass ⟨argv.map some ++ none :: tail, fds, opened⟩ =
      (0, ⟨argv.map some ++ none :: tail, fds, opened⟩) := by
  have result := @passed r argv tail fds opened nonempty
  rw [absent] at result
  generalize r.pass _ = out at result ⊢
  cases result
  rfl

theorem pass_of_fails (nonempty : argv ≠ []) {i : Nat} (fails : r.effect argv = some (i, false)) :
    r.pass ⟨argv.map some ++ none :: tail, fds, opened⟩ =
      (-1, ⟨argv.map some ++ none :: tail, fds, opened⟩) := by
  have result := @passed r argv tail fds opened nonempty
  rw [fails] at result
  generalize r.pass _ = out at result ⊢
  cases result
  rfl

theorem pass_of_opens (nonempty : argv ≠ []) {i : Nat} (opens : r.effect argv = some (i, true)) :
    ∃ path rest, r.pass ⟨argv.map some ++ none :: tail, fds, opened⟩ =
      (0, ⟨(argv.take i).map some ++ none :: rest, fds.redirect (r.file path) r.target,
        opened ++ [r.file path]⟩) := by
  have result := @passed r argv tail fds opened nonempty
  rw [opens] at result
  generalize r.pass _ = out at result ⊢
  cases result with
  | opens _ path rest => exact ⟨path, rest, rfl⟩

/-- A pass over an empty vector reports an error. -/
theorem pass_nil : r.pass ⟨none :: tail, fds, opened⟩ = (-1, ⟨none :: tail, fds, opened⟩) := rfl

/-- The operator stands at the index of the redirection. -/
theorem getElem?_of_effect {i : Nat} {succeeds : Bool}
    (found : r.effect argv = some (i, succeeds)) : argv[i]? = some r.operator := by
  induction argv generalizing i with
  | nil => cases found
  | cons arg rest ih =>
      rw [effect] at found
      split at found
      next here =>
        cases found
        simp [here]
      next =>
        obtain ⟨⟨j, _⟩, later, same⟩ := Option.map_eq_some_iff.mp found
        cases same
        exact ih later

/-- It is the first of its kind. -/
theorem idxOf?_of_effect {i : Nat} {succeeds : Bool} (found : r.effect argv = some (i, succeeds)) :
    argv.idxOf? r.operator = some i := by
  induction argv generalizing i with
  | nil => cases found
  | cons arg rest ih =>
      rw [effect] at found
      split at found
      next here =>
        cases found
        simp [List.idxOf?_cons, here]
      next elsewhere =>
        obtain ⟨⟨j, _⟩, later, same⟩ := Option.map_eq_some_iff.mp found
        cases same
        simp [List.idxOf?_cons, elsewhere, ih later]

end Redirection

/-! ## What is started -/

theorem findPipe_nonneg (args : List String) (index : Nat) : 0 ≤ findPipe (index + 1) args := by
  induction args generalizing index with
  | nil => exact Int.le_refl 0
  | cons arg rest ih =>
      rw [findPipe]
      split
      · rw [if_neg (Nat.succ_ne_zero index)]
        split
        · exact Int.le_refl 0
        · exact Int.natCast_nonneg _
      · exact ih (index + 1)

/-- A command is missing exactly when the vector is empty or begins with a `|`. -/
theorem pipePresent_eq_neg_one_iff {argv : List String} :
    pipePresent argv = -1 ↔ argv = [] ∨ argv.head? = some "|" := by
  cases argv with
  | nil => simp [pipePresent]
  | cons arg rest =>
      by_cases bar : arg = "|"
      · simp [pipePresent, findPipe, bar]
      · have found := findPipe_nonneg rest 0
        simp only [pipePresent, findPipe, bar, reduceCtorEq, if_false, List.head?_cons,
          Option.some.injEq, or_self, iff_false]
        omega

/-- Nothing is started exactly when a command is missing in front. -/
theorem pipeAndExec_eq_nil_iff {argv : List String} {fds : Descriptors OpenFile} {next : Nat} :
    pipeAndExec argv fds next = [] ↔ argv = [] ∨ argv.head? = some "|" := by
  rw [← pipePresent_eq_neg_one_iff, pipeAndExec]
  split
  next missing => simp [missing]
  next present =>
    split
    · simp [present]
    · simp [present]

/-- The child starts nothing exactly when the vector is empty behind the redirections, or
begins with a `|`. -/
theorem runChild_eq_nil_iff {files : Files} {argv left : List String}
    {fds : Descriptors OpenFile}
    (visible : visible (redirectOut files (redirectIn files (.forked argv fds)).2).2.argv = left) :
    runChild files argv fds = [] ↔ left = [] ∨ left.head? = some "|" := by
  rw [← visible]
  exact pipeAndExec_eq_nil_iff

/-! ## Both passes -/

section Passes

variable {files : Files} {argv : List String} {fds : Descriptors OpenFile}

/-- The property, once the results of both passes are known. -/
theorem stopsAtFailure_iff_of_passes {first second : Int} {middle last : Child}
    (input : redirectIn files (.forked argv fds) = (first, middle))
    (output : redirectOut files middle = (second, last)) {left : List String}
    (ends : visible last.argv = left) :
    StopsAtFailure files argv fds ↔
      (first = -1 → (left = [] ∨ left.head? = some "|") ∧
        ∀ i j, files.input.position (.forked argv fds) = some i →
          files.output.position middle = some j → last.opened ≠ middle.opened → j < i) ∧
      (second = -1 → (left = [] ∨ left.head? = some "|") ∧
        ∀ i j, files.output.position middle = some j →
          files.input.position (.forked argv fds) = some i → middle.opened ≠ [] → i < j) := by
  have reads : files.input.pass (.forked argv fds) = (first, middle) := input
  have writes : files.output.pass middle = (second, last) := output
  have started : runChild files argv fds = [] ↔ left = [] ∨ left.head? = some "|" :=
    runChild_eq_nil_iff (by rw [input, output]; exact ends)
  constructor
  · rintro ⟨stopsFirst, stopsSecond⟩
    simp only [Redirection.Reports, Redirection.OpensAt, input, reads, writes, started]
      at stopsFirst stopsSecond
    exact ⟨fun failed => ⟨(stopsFirst failed).1, fun i j at_i at_j grown =>
        (stopsFirst failed).2 i j at_i ⟨at_j, grown⟩⟩,
      fun failed => ⟨(stopsSecond failed).1, fun i j at_j at_i grown =>
        (stopsSecond failed).2 i j at_j ⟨at_i, grown⟩⟩⟩
  · rintro ⟨stopsFirst, stopsSecond⟩
    refine ⟨?_, ?_⟩
    · simp only [Redirection.Reports, Redirection.OpensAt, input, reads, writes, started]
      exact fun failed => ⟨(stopsFirst failed).1, fun i j at_i opens =>
        (stopsFirst failed).2 i j at_i opens.1 opens.2⟩
    · simp only [Redirection.Reports, Redirection.OpensAt, input, reads, writes, started]
      exact fun failed => ⟨(stopsSecond failed).1, fun i j at_j opens =>
        (stopsSecond failed).2 i j at_j opens.1 opens.2⟩

/-- A vector whose passes both succeed is carried on. -/
theorem stopsAtFailure_of_succeed {middle last : Child}
    (input : redirectIn files (.forked argv fds) = (0, middle))
    (output : redirectOut files middle = (0, last)) : StopsAtFailure files argv fds :=
  (stopsAtFailure_iff_of_passes input output rfl).mpr ⟨by simp, by simp⟩

/-- The first pass leaves the vector alone. -/
theorem leaves_of_ne {r : Redirection} (stays : ∀ i, r.effect argv ≠ some (i, true)) :
    r.leaves argv = argv := by
  rw [Redirection.leaves]
  split
  next i found => exact absurd found (stays i)
  next => rfl

/-- A pass finds its first redirection. -/
theorem position_of_effect {r : Redirection} {i : Nat} {succeeds : Bool}
    (found : r.effect argv = some (i, succeeds)) (tail : List (Option String))
    (opened : List OpenFile) :
    r.position ⟨argv.map some ++ none :: tail, fds, opened⟩ = some i := by
  rw [Redirection.position, visible_append]
  exact Redirection.idxOf?_of_effect found

/-- No pass comes to a redirection of an empty vector. -/
theorem stopsAtFailure_nil : StopsAtFailure files [] fds ∧ Harmless files [] := by
  refine ⟨(stopsAtFailure_iff_of_passes rfl rfl rfl).mpr ⟨?_, ?_⟩, .inl ⟨?_, ?_⟩⟩
  · exact fun _ => ⟨.inl rfl, fun i j none => nomatch none⟩
  · exact fun _ => ⟨.inl rfl, fun i j none => nomatch none⟩
  · simp [Redirection.effect]
  · simp [Redirection.leaves, Redirection.effect]

/-- Nothing for the first pass. -/
theorem stopsAtFailure_iff_of_absent (nonempty : argv ≠ [])
    (absent : files.input.effect argv = none) :
    StopsAtFailure files argv fds ↔ Harmless files argv := by
  have input : redirectIn files (.forked argv fds) = (0, .forked argv fds) :=
    Redirection.pass_of_absent nonempty absent
  have leaves : files.input.leaves argv = argv := leaves_of_ne (by simp [absent])
  cases found : files.output.effect argv with
  | none =>
      have output : redirectOut files (.forked argv fds) = (0, .forked argv fds) :=
        Redirection.pass_of_absent nonempty found
      exact iff_of_true (stopsAtFailure_of_succeed input output)
        (.inl ⟨by simp [absent], by simp [leaves, found]⟩)
  | some place =>
      obtain ⟨j, succeeds⟩ := place
      cases succeeds with
      | true =>
          obtain ⟨path, rest, output⟩ := @Redirection.pass_of_opens files.output argv [] fds []
            nonempty j found
          exact iff_of_true (stopsAtFailure_of_succeed input output)
            (.inl ⟨by simp [absent], by simp [leaves, found]⟩)
      | false =>
          have output : redirectOut files (.forked argv fds) = (-1, .forked argv fds) :=
            Redirection.pass_of_fails nonempty found
          rw [stopsAtFailure_iff_of_passes input output (visible_append argv [])]
          constructor
          · rintro ⟨-, stops⟩
            exact .inr (.inl ⟨(stops rfl).1.resolve_left nonempty, by simp [absent],
              by simp [absent]⟩)
          · rintro (⟨-, none⟩ | ⟨bar, -⟩ | first)
            · exact absurd found (leaves ▸ none j)
            · exact ⟨by simp, fun _ => ⟨.inr bar, fun i j _ _ grown => absurd rfl grown⟩⟩
            · simp [leaves, found] at first

/-- The first pass fails, and the second opens nothing: only a `|` in front stops the child. -/
theorem harmless_iff_of_stays {i : Nat} (fails : files.input.effect argv = some (i, false))
    (stays : ∀ j, files.output.effect argv ≠ some (j, true)) :
    Harmless files argv ↔ argv.head? = some "|" := by
  have leaves : files.input.leaves argv = argv := leaves_of_ne (by simp [fails])
  refine ⟨?_, fun bar => .inr (.inl ⟨bar, ⟨?_, by simp [fails]⟩⟩)⟩
  · rintro (none | ⟨bar, -⟩ | first)
    · exact absurd fails (none.1 i)
    · exact bar
    · exact absurd (leaves ▸ first) (stays 0)
  · intro _ j _ opens
    exact absurd (leaves ▸ opens) (stays j)

/-- The first pass fails, and the second opens a file: it has to do so in front of the failure, and
the child must have a `|` in front or nothing left. -/
theorem harmless_iff_of_opens {i j : Nat} (fails : files.input.effect argv = some (i, false))
    (opens : files.output.effect argv = some (j, true)) :
    Harmless files argv ↔ argv.head? = some "|" ∧ j < i ∨ j = 0 := by
  have leaves : files.input.leaves argv = argv := leaves_of_ne (by simp [fails])
  have notNone : ¬ NoneFails files argv := fun none => none.1 i fails
  rw [Harmless, or_iff_right notNone, leaves, opens]
  refine or_congr (and_congr_right fun _ => ⟨fun none => ?_, fun before => ⟨?_, ?_⟩⟩) (by simp)
  · exact none.output i j fails (by rw [leaves, opens])
  · intro i' j' first second
    rw [fails] at first
    rw [leaves, opens] at second
    cases first
    cases second
    exact before
  · simp [fails]

/-- The first pass fails. -/
theorem stopsAtFailure_iff_of_fails (nonempty : argv ≠ []) {i : Nat}
    (fails : files.input.effect argv = some (i, false)) :
    StopsAtFailure files argv fds ↔ Harmless files argv := by
  have input : redirectIn files (.forked argv fds) = (-1, .forked argv fds) :=
    Redirection.pass_of_fails nonempty fails
  cases found : files.output.effect argv with
  | none =>
      have output : redirectOut files (.forked argv fds) = (0, .forked argv fds) :=
        Redirection.pass_of_absent nonempty found
      rw [stopsAtFailure_iff_of_passes input output (visible_append argv []),
        harmless_iff_of_stays fails (by simp [found])]
      simp [nonempty]
  | some place =>
      obtain ⟨j, succeeds⟩ := place
      cases succeeds with
      | false =>
          have output : redirectOut files (.forked argv fds) = (-1, .forked argv fds) :=
            Redirection.pass_of_fails nonempty found
          rw [stopsAtFailure_iff_of_passes input output (visible_append argv []),
            harmless_iff_of_stays fails (by simp [found])]
          simp [nonempty, Child.forked]
      | true =>
          obtain ⟨path, rest, output⟩ := @Redirection.pass_of_opens files.output argv [] fds []
            nonempty j found
          have at_i : files.input.position (.forked argv fds) = some i :=
            position_of_effect fails [] []
          have at_j : files.output.position (.forked argv fds) = some j :=
            position_of_effect found [] []
          have cut : (argv.take j = [] ∨ (argv.take j).head? = some "|") ↔
              j = 0 ∨ argv.head? = some "|" := by
            rw [List.take_eq_nil_iff, or_iff_left nonempty, List.head?_take]
            by_cases first : j = 0
            · simp [first]
            · simp [first]
          rw [stopsAtFailure_iff_of_passes input output (visible_append _ rest),
            harmless_iff_of_opens fails found, cut, at_i, at_j]
          constructor
          · rintro ⟨stops, -⟩
            obtain ⟨nothing, before⟩ := stops rfl
            have first := before i j rfl rfl (by simp [Child.forked])
            exact nothing.symm.imp (fun bar => ⟨bar, first⟩) id
          · intro harmless
            refine ⟨fun _ => ⟨?_, ?_⟩, by simp⟩
            · exact harmless.symm.imp id And.left
            · rintro i' j' same same' -
              obtain rfl := Option.some.inj same
              obtain rfl := Option.some.inj same'
              rcases harmless with ⟨-, first⟩ | zero
              · exact first
              · -- The two redirections are at different places.
                have less := Redirection.getElem?_of_effect fails
                have more := Redirection.getElem?_of_effect found
                refine zero ▸ Nat.pos_of_ne_zero fun none => ?_
                rw [none] at less
                rw [zero, less] at more
                exact absurd (Option.some.inj more) (show "<" ≠ ">" by decide)

/-- The first pass cuts the vector. -/
theorem stopsAtFailure_iff_of_opens (nonempty : argv ≠ []) {i : Nat}
    (opens : files.input.effect argv = some (i, true)) :
    StopsAtFailure files argv fds ↔ Harmless files argv := by
  have leaves : files.input.leaves argv = argv.take i := by
    rw [Redirection.leaves, opens]
  obtain ⟨path, rest, input⟩ := @Redirection.pass_of_opens files.input argv [] fds []
    nonempty i opens
  have notFails : ∀ j, files.input.effect argv ≠ some (j, false) := by simp [opens]
  by_cases empty : argv.take i = []
  · refine iff_of_true ?_ (.inl ⟨notFails, by simp [leaves, empty, Redirection.effect]⟩)
    rw [empty] at input
    have output := @Redirection.pass_nil files.output rest (fds.redirect (.input path) 0)
      [.input path]
    refine (stopsAtFailure_iff_of_passes input output rfl).mpr ⟨by simp, fun _ => ⟨.inl rfl, ?_⟩⟩
    intro i' j' none
    cases none
  cases found : files.output.effect (argv.take i) with
  | none =>
      have output := @Redirection.pass_of_absent files.output _ rest
        (fds.redirect (.input path) 0) [.input path] empty found
      exact iff_of_true (stopsAtFailure_of_succeed input output)
        (.inl ⟨notFails, by simp [leaves, found]⟩)
  | some place =>
      obtain ⟨j, succeeds⟩ := place
      cases succeeds with
      | true =>
          obtain ⟨path', rest', output⟩ := @Redirection.pass_of_opens files.output _ rest
            (fds.redirect (.input path) 0) [.input path] empty j found
          exact iff_of_true (stopsAtFailure_of_succeed input output)
            (.inl ⟨notFails, by simp [leaves, found]⟩)
      | false =>
          -- The `<` was opened, and stands behind the `>` that fails.
          have output := @Redirection.pass_of_fails files.output _ rest
            (fds.redirect (.input path) 0) [.input path] empty j found
          have behind : j < i := by
            have inside := Redirection.getElem?_of_effect found
            obtain ⟨within, -⟩ := List.getElem?_eq_some_iff.mp inside
            exact within.trans_le (List.length_take_le i argv)
          rw [stopsAtFailure_iff_of_passes input output (visible_append _ rest)]
          refine iff_of_false ?_ ?_
          · rintro ⟨-, stops⟩
            have late := (stops rfl).2 i j (position_of_effect found rest _)
              (position_of_effect opens [] []) (by simp)
            omega
          · rintro (⟨-, none⟩ | ⟨-, none⟩ | first)
            · exact none j (leaves ▸ found)
            · have late := none.input i j opens (leaves ▸ found)
              omega
            · rw [leaves, found] at first
              cases first

end Passes

/-- **Failed redirections.** A redirection that fails stops the child exactly when the
vector is harmless. -/
theorem stopsAtFailure_iff (files : Files) (argv : List String) (fds : Descriptors OpenFile) :
    StopsAtFailure files argv fds ↔ Harmless files argv := by
  by_cases nonempty : argv = []
  · subst nonempty
    have nothing := @stopsAtFailure_nil files fds
    exact iff_of_true nothing.1 nothing.2
  cases found : files.input.effect argv with
  | none => exact stopsAtFailure_iff_of_absent nonempty found
  | some place =>
      obtain ⟨i, succeeds⟩ := place
      cases succeeds with
      | true => exact stopsAtFailure_iff_of_opens nonempty found
      | false => exact stopsAtFailure_iff_of_fails nonempty found

/-- Files of which none exists yet. -/
def newFiles : Files where
  readable := fun _ => false
  writable := fun _ => true

/-- The vector of `sort < in > out`. -/
def sortArgv : List String := ["sort", "<", "in", ">", "out"]

/-- Without a file `in`, the child creates `out`, and starts `sort` with the words in front
of the `>`. -/
theorem not_stopsAtFailure :
    newFiles.input.Reports (.forked sortArgv terminal) ∧
      (runChild newFiles sortArgv terminal).map Program.argv = [["sort", "<", "in"]] ∧
      ¬ StopsAtFailure newFiles sortArgv terminal := by
  have reports : newFiles.input.Reports (.forked sortArgv terminal) := by
    unfold Redirection.Reports
    decide
  have started : (runChild newFiles sortArgv terminal).map Program.argv =
      [["sort", "<", "in"]] := by
    have single := @pipeAndExec_single ["sort", "<", "in"] (by decide)
    exact congrArg (List.map Program.argv) (single _ 0)
  refine ⟨reports, started, fun stops => ?_⟩
  rw [(stops.input reports).1] at started
  cases started

end LinuxExercises.Shell
