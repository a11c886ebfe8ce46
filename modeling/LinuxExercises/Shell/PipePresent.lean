import LinuxExercises.Shell.Pipeline

/-!
# The contract of `pipe_present`

The comment of `pipe_present` promises the index of the `|`, -1 when it is at the beginning or
at the end of the vector, and 0 when there is none. The function returns 0 for a `|` at the end,
and when there is none it comes to its closing brace without a `return`, so that its caller
finds whatever is in the place of the result.

`pipe_and_exec` then takes a `|` at the end for an argument of the last command. Whatever it
finds in the place of a missing result, it starts a program with a `|` among its arguments
exactly when the vector ends in a `|` and each command is there (`runsBar_iff`): its
recursion stops in front of the last command when another one is missing.
-/

set_option autoImplicit false

namespace LinuxExercises.Shell

open Foundations

/-! ## The code -/

/-- The loop of `pipe_present` from an index on, and the value of the `return` that it comes
to, when it comes to one. -/
def returnFrom (index : Nat) : List String → Option Int
  | [] => none
  | arg :: rest =>
    if arg = "|" then
      if index = 0 then some (-1)
      else if rest = [] then some 0
      else some index
    else returnFrom (index + 1) rest

/-- The `return` of `pipe_present`. -/
def pipePresentReturn (argv : List String) : Option Int :=
  if argv = [] then some (-1) else returnFrom 0 argv

/-- What its caller finds. Without a `return`, that is anything. -/
def pipePresentValue (fallen : Int) (argv : List String) : Int :=
  (pipePresentReturn argv).getD fallen

/-- `pipe_and_exec`, when its calls of `pipe_present` without a `return` leave this value. Where
that is no index of the vector, copying the parts of the vector leaves the vector. -/
def pipeAndExecWith (fallen : Int) (argv : List String) (fds : Descriptors OpenFile) (next : Nat) :
    List Program :=
  if pipePresentValue fallen argv = -1 then []
  else if pipePresentValue fallen argv = 0 then [⟨argv, fds⟩]
  else if inside : 0 < pipePresentValue fallen argv ∧
      pipePresentValue fallen argv < argv.length then
    ⟨argv.take (pipePresentValue fallen argv).toNat, talkingParent fds next⟩ ::
      pipeAndExecWith fallen (argv.drop ((pipePresentValue fallen argv).toNat + 1))
        (listeningChild fds next) (next + 1)
  else []
termination_by argv.length
decreasing_by
  rw [List.length_drop]
  omega

/-! ## The values that are returned -/

/-- The documented value counts as a `return` here. -/
theorem findPipe_eq (index : Nat) (argv : List String) :
    findPipe index argv = (returnFrom index argv).getD 0 := by
  induction argv generalizing index with
  | nil => rfl
  | cons arg rest ih =>
      rw [findPipe, returnFrom]
      split
      · split
        · rfl
        · split <;> rfl
      · exact ih (index + 1)

/-- With the documented value in the place of a missing result, this is `pipePresent`. -/
theorem pipePresentValue_zero (argv : List String) :
    pipePresentValue 0 argv = pipePresent argv := by
  rw [pipePresentValue, pipePresentReturn, pipePresent]
  split
  · rfl
  · exact (findPipe_eq 0 argv).symm

theorem returnFrom_append {left : List String} (absent : "|" ∉ left) (rest : List String)
    (index : Nat) : returnFrom index (left ++ rest) = returnFrom (index + left.length) rest := by
  induction left generalizing index with
  | nil => rfl
  | cons arg left ih =>
      rw [List.mem_cons, not_or] at absent
      rw [List.cons_append, returnFrom, if_neg (Ne.symm absent.1), ih absent.2, List.length_cons,
        Nat.add_assoc, Nat.add_comm 1]

/-- Where the first `|` of a vector is. -/
inductive Placed : List String → Prop
  | absent {argv : List String} (nonempty : argv ≠ []) (absent : "|" ∉ argv) : Placed argv
  | first (right : List String) : Placed ("|" :: right)
  | last {left : List String} (leftNe : left ≠ []) (first : "|" ∉ left) : Placed (left ++ ["|"])
  | between {left right : List String} (leftNe : left ≠ []) (rightNe : right ≠ [])
      (first : "|" ∉ left) : Placed (left ++ "|" :: right)

theorem placed {argv : List String} (nonempty : argv ≠ []) : Placed argv := by
  by_cases bar : "|" ∈ argv
  · obtain ⟨left, right, rfl, first⟩ := List.eq_append_cons_of_mem bar
    by_cases leftNe : left = []
    · subst leftNe
      exact .first right
    by_cases rightNe : right = []
    · subst rightNe
      exact .last leftNe first
    · exact .between leftNe rightNe first
  · exact .absent nonempty bar

theorem return_absent {argv : List String} (nonempty : argv ≠ []) (absent : "|" ∉ argv) :
    pipePresentReturn argv = none := by
  rw [pipePresentReturn, if_neg nonempty, ← List.append_nil argv, returnFrom_append absent,
    returnFrom]

theorem return_first (right : List String) : pipePresentReturn ("|" :: right) = some (-1) := by
  rw [pipePresentReturn, if_neg (List.cons_ne_nil _ _), returnFrom, if_pos rfl, if_pos rfl]

theorem return_last {left : List String} (leftNe : left ≠ []) (first : "|" ∉ left) :
    pipePresentReturn (left ++ ["|"]) = some 0 := by
  have positive := List.length_pos_iff.mpr leftNe
  rw [pipePresentReturn, if_neg (by simp), returnFrom_append first, returnFrom, if_pos rfl,
    if_neg (by omega), if_pos rfl]

theorem return_between {left right : List String} (leftNe : left ≠ []) (rightNe : right ≠ [])
    (first : "|" ∉ left) : pipePresentReturn (left ++ "|" :: right) = some (left.length : Int) := by
  have positive := List.length_pos_iff.mpr leftNe
  rw [pipePresentReturn, if_neg (by simp), returnFrom_append first, returnFrom, if_pos rfl,
    if_neg (by omega), if_neg rightNe, Nat.zero_add]

theorem value_first (fallen : Int) (right : List String) :
    pipePresentValue fallen ("|" :: right) = -1 := by
  rw [pipePresentValue, return_first]
  rfl

theorem value_last (fallen : Int) {left : List String} (leftNe : left ≠ []) (first : "|" ∉ left) :
    pipePresentValue fallen (left ++ ["|"]) = 0 := by
  rw [pipePresentValue, return_last leftNe first]
  rfl

/-! ## The contract -/

/-- The value that the comment promises. -/
def documented (argv : List String) : Int :=
  match argv.idxOf? "|" with
  | none => 0
  | some 0 => -1
  | some (index + 1) => if index + 1 + 1 = argv.length then -1 else index + 1

/-- A `return` with the value that the comment promises. -/
def MeetsContract (argv : List String) : Prop :=
  pipePresentReturn argv = some (documented argv)

instance (argv : List String) : Decidable (MeetsContract argv) :=
  inferInstanceAs (Decidable (_ = _))

theorem idxOf?_bar {left : List String} (first : "|" ∉ left) (right : List String) :
    (left ++ "|" :: right).idxOf? "|" = some left.length := by
  induction left with
  | nil => rfl
  | cons arg left ih =>
      rw [List.mem_cons, not_or] at first
      have different : (arg == "|") = false := beq_false_of_ne (Ne.symm first.1)
      rw [List.cons_append, List.idxOf?_cons, different, ih first.2]
      rfl

theorem documented_first (right : List String) : documented ("|" :: right) = -1 := by
  rw [documented, ← List.nil_append ("|" :: right), idxOf?_bar (List.not_mem_nil)]
  rfl

theorem documented_of_ne {left : List String} (leftNe : left ≠ []) (first : "|" ∉ left)
    (right : List String) :
    documented (left ++ "|" :: right) = if right = [] then -1 else (left.length : Int) := by
  obtain ⟨before, length⟩ := Nat.exists_eq_add_one.mpr (List.length_pos_iff.mpr leftNe)
  rw [documented, idxOf?_bar first, length]
  simp only [List.length_append, List.length_cons, length]
  by_cases rightNe : right = []
  · rw [if_pos rightNe, if_pos (by rw [rightNe]; rfl)]
  · have positive := List.length_pos_iff.mpr rightNe
    rw [if_neg rightNe, if_neg (by omega)]
    rfl

/-- The first `|` is there, and it is at the beginning or not at the end. -/
def FirstServed (argv : List String) : Prop := argv.head? = some "|" ∨ "|" ∈ argv.dropLast

instance (argv : List String) : Decidable (FirstServed argv) := inferInstanceAs (Decidable (_ ∨ _))

/-- The contract is met for the `|` at the beginning and for the one between two parts. -/
theorem meetsContract_iff {argv : List String} (nonempty : argv ≠ []) :
    MeetsContract argv ↔ FirstServed argv := by
  rw [MeetsContract]
  cases placed nonempty with
  | absent nonempty absent =>
      rw [return_absent nonempty absent]
      refine iff_of_false (by simp) ?_
      rintro (first | inside)
      · exact absent (List.mem_of_head? first)
      · exact absent (List.dropLast_subset _ inside)
  | first right =>
      rw [return_first, documented_first]
      exact iff_of_true rfl (.inl rfl)
  | @last left leftNe first =>
      rw [return_last leftNe first, documented_of_ne leftNe first]
      refine iff_of_false (by simp) ?_
      rintro (begins | inside)
      · rw [List.head?_append_of_ne_nil _ leftNe] at begins
        exact first (List.mem_of_head? begins)
      · rw [List.dropLast_concat] at inside
        exact first inside
  | @between left right leftNe rightNe first =>
      rw [return_between leftNe rightNe first, documented_of_ne leftNe first, if_neg rightNe]
      refine iff_of_true rfl (.inr ?_)
      rw [List.dropLast_append_of_ne_nil (List.cons_ne_nil _ _),
        List.dropLast_cons_of_ne_nil rightNe]
      exact List.mem_append_right _ (List.mem_cons_self ..)

/-! ## The arguments of the programs -/

section Exec

variable {fallen : Int} {fds : Descriptors OpenFile} {next : Nat}

theorem pipeAndExecWith_missing {argv : List String}
    (missing : pipePresentValue fallen argv = -1) :
    pipeAndExecWith fallen argv fds next = [] := by
  rw [pipeAndExecWith, if_pos missing]

theorem pipeAndExecWith_single {argv : List String} (single : pipePresentValue fallen argv = 0) :
    pipeAndExecWith fallen argv fds next = [⟨argv, fds⟩] := by
  rw [pipeAndExecWith, if_neg (by omega), if_pos single]

theorem pipeAndExecWith_between {left right : List String} (leftNe : left ≠ [])
    (rightNe : right ≠ []) (first : "|" ∉ left) :
    pipeAndExecWith fallen (left ++ "|" :: right) fds next =
      ⟨left, talkingParent fds next⟩ ::
        pipeAndExecWith fallen right (listeningChild fds next) (next + 1) := by
  have positive := List.length_pos_iff.mpr leftNe
  have value : pipePresentValue fallen (left ++ "|" :: right) = left.length := by
    rw [pipePresentValue, return_between leftNe rightNe first, Option.getD_some]
  have within : left.length < (left ++ "|" :: right).length := by
    rw [List.length_append, List.length_cons]
    omega
  have behind : (left ++ "|" :: right).drop (left.length + 1) = right := by
    rw [List.drop_append, List.drop_of_length_le (Nat.le_succ _), Nat.add_sub_cancel_left]
    rfl
  rw [pipeAndExecWith, value, if_neg (by omega), if_neg (by omega), dif_pos (by omega),
    Int.toNat_natCast, List.take_left, behind]

/-- The documented value gives `pipe_and_exec` as before. -/
theorem pipeAndExecWith_zero (argv : List String) (fds : Descriptors OpenFile) (next : Nat) :
    pipeAndExecWith 0 argv fds next = pipeAndExec argv fds next := by
  induction length : argv.length using Nat.strongRecOn generalizing argv fds next with
  | ind _ ih =>
      by_cases nonempty : argv = []
      · subst nonempty
        rw [pipeAndExecWith_missing rfl, pipeAndExec_missing rfl]
      cases placed nonempty with
      | absent nonempty absent =>
          rw [pipeAndExecWith_single (by rw [pipePresentValue, return_absent nonempty absent]; rfl),
            pipeAndExec_single (pipePresent_absent nonempty absent)]
      | first right =>
          have value := value_first 0 right
          rw [pipeAndExecWith_missing value,
            pipeAndExec_missing ((pipePresentValue_zero _).symm.trans value)]
      | @last left leftNe first =>
          have value := value_last 0 leftNe first
          rw [pipeAndExecWith_single value,
            pipeAndExec_single ((pipePresentValue_zero _).symm.trans value)]
      | @between left right leftNe rightNe first =>
          have shorter : right.length < (left ++ "|" :: right).length := by
            rw [List.length_append, List.length_cons]
            omega
          rw [pipeAndExecWith_between leftNe rightNe first,
            pipeAndExec_between leftNe (pipePresent_between leftNe rightNe first),
            ih right.length (length ▸ shorter) right _ _ rfl]

/-- Every argument of a program stands in the vector. -/
theorem mem_of_mem_pipeAndExecWith {argv : List String} {p : Program} {arg : String}
    (started : p ∈ pipeAndExecWith fallen argv fds next) (member : arg ∈ p.argv) :
    arg ∈ argv := by
  induction length : argv.length using Nat.strongRecOn generalizing argv fds next with
  | ind _ ih =>
      rw [pipeAndExecWith] at started
      split at started
      · cases started
      split at started
      · rw [List.mem_singleton.mp started] at member
        exact member
      split at started
      next inside =>
        rcases List.mem_cons.mp started with rfl | later
        · exact List.mem_of_mem_take member
        · have shorter : (argv.drop ((pipePresentValue fallen argv).toNat + 1)).length <
              argv.length := by
            rw [List.length_drop]
            omega
          exact List.mem_of_mem_drop (ih _ (length ▸ shorter) later rfl)
      next => cases started

/-- A program gets a `|` as an argument. -/
def RunsBar (fallen : Int) (argv : List String) (fds : Descriptors OpenFile) (next : Nat) : Prop :=
  ∃ p ∈ pipeAndExecWith fallen argv fds next, "|" ∈ p.argv

/-- The vector ends in a `|`, and no command in front of it is missing. -/
structure BarAtEnd (argv : List String) : Prop where
  last : argv.getLast? = some "|"
  first : argv.head? ≠ some "|"
  apart : ¬ ["|", "|"] <:+: argv

/-- Two `|` next to each other, behind the first one. -/
theorem infix_bars_iff {left : List String} (first : "|" ∉ left) (right : List String) :
    ["|", "|"] <:+: left ++ "|" :: right ↔
      right.head? = some "|" ∨ ["|", "|"] <:+: right := by
  induction left with
  | nil =>
      rw [List.nil_append, List.infix_cons_iff, List.cons_prefix_cons]
      cases right with
      | nil => simp
      | cons arg right => simp [List.cons_prefix_cons, eq_comm]
  | cons arg left ih =>
      rw [List.mem_cons, not_or] at first
      rw [List.cons_append, List.infix_cons_iff, List.cons_prefix_cons, ih first.2]
      simp [first.1]

/-- A `|` between two parts: the end of the vector is that of the second part. -/
theorem barAtEnd_between_iff {left right : List String} (leftNe : left ≠ []) (rightNe : right ≠ [])
    (first : "|" ∉ left) : BarAtEnd (left ++ "|" :: right) ↔ BarAtEnd right := by
  have last : (left ++ "|" :: right).getLast? = right.getLast? := by
    rw [List.getLast?_append, List.getLast?_cons, List.getLast?_eq_some_getLast rightNe]
    rfl
  have begins : (left ++ "|" :: right).head? ≠ some "|" := by
    rw [List.head?_append_of_ne_nil _ leftNe]
    exact fun head => first (List.mem_of_head? head)
  have apart := not_congr (infix_bars_iff first right)
  rw [not_or] at apart
  constructor
  · intro atEnd
    obtain ⟨head, inside⟩ := apart.mp atEnd.apart
    exact ⟨last ▸ atEnd.last, head, inside⟩
  · intro atEnd
    exact ⟨last.trans atEnd.last, begins, apart.mpr ⟨atEnd.first, atEnd.apart⟩⟩

/-- **What gets a `|` as an argument**, whatever a missing result is. -/
theorem runsBar_iff (fallen : Int) (argv : List String) (fds : Descriptors OpenFile) (next : Nat) :
    RunsBar fallen argv fds next ↔ BarAtEnd argv := by
  -- The child goes on with a shorter vector.
  induction length : argv.length using Nat.strongRecOn generalizing argv fds next with
  | ind _ ih =>
      by_cases nonempty : argv = []
      · subst nonempty
        constructor
        · rintro ⟨p, started, -⟩
          rw [pipeAndExecWith_missing rfl] at started
          cases started
        · intro atEnd
          cases atEnd.last
      cases placed nonempty with
      | absent nonempty absent =>
          refine iff_of_false ?_ fun atEnd => absent (List.mem_of_getLast? atEnd.last)
          rintro ⟨p, started, member⟩
          exact absent (mem_of_mem_pipeAndExecWith started member)
      | first right =>
          refine iff_of_false ?_ fun atEnd => atEnd.first rfl
          rintro ⟨p, started, -⟩
          rw [pipeAndExecWith_missing (value_first fallen right)] at started
          cases started
      | @last left leftNe first =>
          refine iff_of_true ⟨⟨left ++ ["|"], fds⟩, ?_, by simp⟩ ⟨by simp, ?_, ?_⟩
          · rw [pipeAndExecWith_single (value_last fallen leftNe first)]
            exact List.mem_singleton.mpr rfl
          · rw [List.head?_append_of_ne_nil _ leftNe]
            exact fun head => first (List.mem_of_head? head)
          · rw [infix_bars_iff first]
            simp
      | @between left right leftNe rightNe first =>
          have shorter : right.length < (left ++ "|" :: right).length := by
            rw [List.length_append, List.length_cons]
            omega
          rw [barAtEnd_between_iff leftNe rightNe first,
            ← ih right.length (length ▸ shorter) right (listeningChild fds next) (next + 1) rfl,
            RunsBar, pipeAndExecWith_between leftNe rightNe first]
          simp [RunsBar, first]

end Exec

/-- The contract is met, and no program gets a `|` as an argument. -/
def ServesBars (fallen : Int) (argv : List String) (fds : Descriptors OpenFile) (next : Nat) :
    Prop :=
  MeetsContract argv ∧ ∀ p ∈ pipeAndExecWith fallen argv fds next, "|" ∉ p.argv

/-- **The contract of `pipe_present`.** It is met, and `pipe_and_exec` starts no program with a
`|` among its arguments, exactly when the first `|` is there and at the beginning or not at the
end, and the vector does not end in a `|` behind commands that are all there. -/
theorem servesBars_iff {argv : List String} (nonempty : argv ≠ []) (fallen : Int)
    (fds : Descriptors OpenFile) (next : Nat) :
    ServesBars fallen argv fds next ↔ FirstServed argv ∧ ¬ BarAtEnd argv := by
  rw [ServesBars, meetsContract_iff nonempty, ← runsBar_iff fallen argv fds next, RunsBar]
  refine and_congr_right fun _ => ?_
  push Not
  rfl

/-- The vector `a | b` is served. -/
theorem servesBars_pair : ServesBars 0 ["a", "|", "b"] terminal 0 ↔
    FirstServed ["a", "|", "b"] ∧ ¬ BarAtEnd ["a", "|", "b"] :=
  servesBars_iff (by decide) 0 terminal 0

/-- `ls` is left without a `return`, and `ls |` is started as a command with an argument. -/
theorem not_servesBars :
    pipePresentReturn ["ls"] = none ∧ ¬ ServesBars 0 ["ls"] terminal 0 ∧
      pipePresentReturn ["ls", "|"] = some 0 ∧
      pipeAndExecWith 0 ["ls", "|"] terminal 0 = [⟨["ls", "|"], terminal⟩] ∧
      ¬ ServesBars 0 ["ls", "|"] terminal 0 := by
  have started : pipeAndExecWith 0 ["ls", "|"] terminal 0 = [⟨["ls", "|"], terminal⟩] :=
    pipeAndExecWith_single rfl
  refine ⟨rfl, fun serves => absurd serves.1 (by decide), rfl, started, fun serves => ?_⟩
  exact absurd serves.1 (by decide)

end LinuxExercises.Shell
