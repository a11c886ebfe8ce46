import LinuxExercises.Foundations.Faults
import LinuxExercises.Shell.Foreground

/-!
# What `is_background` leaves of a vector

`is_background` is to find a `&` at the end of a command. It goes through the vector, stores
NULL over each `&` that it meets, wherever it is, and goes on behind the hole. What is read of
the vector afterwards ends at the first NULL, so everything behind the first `&` is lost
(`visible_isBackground`), and the command runs in the background although it does not end in
a `&`.

The function does what it is for exactly for the vectors in which no `&` is followed by
anything (`losesNothing_iff`). It is the same in both shells.
-/

set_option autoImplicit false

namespace LinuxExercises.Shell

open Foundations

/-! ## The code -/

/-- A vector in memory, with the NULL that ends it. -/
abbrev Entries := List (Option String)

/-- The vector of these strings. -/
def entries (argv : List String) : Entries := argv.map some ++ [none]

namespace Entries

/-- The loop of `is_background` from the index `count` on. -/
def detectFrom (myArgv : Entries) (count : Nat) (detect : Bool) :
    Except Fault (Bool × Entries) :=
  match entry : myArgv[count]? with
  | none => .error .outOfBounds
  | some none => .ok (detect, myArgv)
  | some (some arg) =>
    if arg = "&" then detectFrom (myArgv.set count none) (count + 1) true
    else detectFrom myArgv (count + 1) detect
termination_by myArgv.length - count
decreasing_by
  · have within := (List.getElem?_eq_some_iff.mp entry).1
    rw [List.length_set]
    omega
  · have within := (List.getElem?_eq_some_iff.mp entry).1
    omega

/-- `is_background` of SP_HW5. -/
def isBackground (myArgv : Entries) : Except Fault (Bool × Entries) :=
  match myArgv with
  | none :: _ => .ok (false, myArgv)
  | _ => myArgv.detectFrom 0 false

end Entries

/-- `is_background` of SP_HW3. -/
def HW3.Entries.isBackground (myArgv : Entries) : Except Fault (Bool × Entries) :=
  myArgv.isBackground

/-! ## The loop -/

/-- What becomes of a string. -/
def mark (arg : String) : Option String := if arg = "&" then none else some arg

theorem Entries.detectFrom_null {myArgv : Entries} {count : Nat}
    (ended : myArgv[count]? = some none) (detect : Bool) :
    myArgv.detectFrom count detect = .ok (detect, myArgv) := by
  rw [detectFrom]
  split
  next outside => rw [ended] at outside; cases outside
  next => rfl
  next arg found => rw [ended] at found; cases found

theorem Entries.detectFrom_string {myArgv : Entries} {count : Nat} {arg : String}
    (found : myArgv[count]? = some (some arg)) (detect : Bool) :
    myArgv.detectFrom count detect =
      detectFrom (myArgv.set count (mark arg)) (count + 1) (detect || arg == "&") := by
  have same : myArgv.set count (some arg) = myArgv := by
    obtain ⟨within, holds⟩ := List.getElem?_eq_some_iff.mp found
    rw [← holds]
    exact List.set_getElem_self within
  rw [detectFrom]
  split
  next outside => rw [found] at outside; cases outside
  next ended => rw [found] at ended; cases ended
  next other here =>
    rw [found] at here
    cases here
    by_cases isAnd : arg = "&"
    · simp [mark, isAnd]
    · rw [if_neg isAnd, mark, if_neg isAnd, same, beq_false_of_ne isAnd, Bool.or_false]

theorem detectFrom_append (rest : List String) (seen : Entries) (detect : Bool) :
    (seen ++ entries rest).detectFrom seen.length detect =
      .ok (detect || rest.contains "&", seen ++ (rest.map mark ++ [none])) := by
  induction rest generalizing seen detect with
  | nil =>
      rw [Entries.detectFrom_null (by simp [entries])]
      simp [entries]
  | cons arg rest ih =>
      have here : (seen ++ entries (arg :: rest))[seen.length]? = some (some arg) := by
        simp [entries]
      have stored : (seen ++ entries (arg :: rest)).set seen.length (mark arg) =
          (seen ++ [mark arg]) ++ entries rest := by
        simp [entries]
      have next := ih (seen ++ [mark arg]) (detect || arg == "&")
      rw [List.length_append, List.length_singleton] at next
      rw [Entries.detectFrom_string here, stored, next, List.contains_cons, List.map_cons,
        Bool.or_assoc, BEq.comm, List.append_assoc, List.singleton_append, List.cons_append]

/-- **The closed form.** The loop stores NULL over each `&`, and stays inside the vector. -/
theorem isBackground_entries (argv : List String) :
    (entries argv).isBackground = .ok (isBackground argv) := by
  cases argv with
  | nil => rfl
  | cons arg rest => exact detectFrom_append (arg :: rest) [] false

/-! ## What is read afterwards -/

/-- The vector ends in front of its first `&`. -/
theorem visible_isBackground (argv : List String) :
    visible (isBackground argv).2 = argv.takeWhile (· ≠ "&") := by
  induction argv with
  | nil => rfl
  | cons arg rest ih =>
      change visible (mark arg :: (isBackground rest).2) = _
      by_cases isAnd : arg = "&"
      · rw [mark, if_pos isAnd, visible, List.takeWhile_cons_of_neg (by simp [isAnd])]
        simp
      · rw [mark, if_neg isAnd, visible, ih, List.takeWhile_cons_of_pos (by simpa using isAnd)]

/-- The vector without a final `&`. -/
def withoutFinal (argv : List String) : List String :=
  if argv.getLast? = some "&" then argv.dropLast else argv

/-- What `is_background` is for: what `execvp` reads is the vector without a final `&`, the
command is a background command when it ends in `&`, and the arguments on both sides of
another `&` are still there. -/
structure Detected (argv : List String) (detect : Bool) (left : Entries) : Prop where
  reads : visible left = withoutFinal argv
  status : detect = true ↔ argv.getLast? = some "&"
  kept : ∀ {before after : List String}, argv = before ++ "&" :: after → after ≠ [] →
    (before ++ withoutFinal after).Sublist (visible left)

/-- `is_background` returns, and loses no argument. -/
def LosesNothing (argv : List String) (result : Except Fault (Bool × Entries)) : Prop :=
  ∃ detect left, result = .ok (detect, left) ∧ Detected argv detect left

/-- No `&` but a final one. -/
def OnlyFinal (argv : List String) : Prop := "&" ∉ argv.dropLast

instance (argv : List String) : Decidable (OnlyFinal argv) := inferInstanceAs (Decidable (¬ _))

theorem mem_withoutFinal {argv : List String} {arg : String} (member : arg ∈ argv.dropLast) :
    arg ∈ withoutFinal argv := by
  rw [withoutFinal]
  split
  · exact member
  · exact List.dropLast_subset _ member

theorem mem_dropLast_of_followed {before after : List String} (more : after ≠ []) :
    "&" ∈ (before ++ "&" :: after).dropLast := by
  rw [List.dropLast_append_of_ne_nil (List.cons_ne_nil _ _), List.dropLast_cons_of_ne_nil more]
  exact List.mem_append_right _ (List.mem_cons_self ..)

/-- Without any other `&`, what is in front of the first one is the vector without a final
one. -/
theorem takeWhile_eq_withoutFinal {argv : List String} (only : OnlyFinal argv) :
    argv.takeWhile (· ≠ "&") = withoutFinal argv := by
  rw [withoutFinal]
  rcases List.eq_nil_or_concat argv with rfl | ⟨front, last, rfl⟩
  · rfl
  · rw [OnlyFinal, List.concat_eq_append, List.dropLast_concat] at only
    have clean : ∀ arg ∈ front, decide (arg ≠ "&") = true := by
      intro arg member
      rw [decide_eq_true_eq]
      rintro rfl
      exact only member
    rw [List.concat_eq_append, List.getLast?_concat, List.dropLast_concat,
      List.takeWhile_append_of_pos clean]
    by_cases isAnd : last = "&"
    · simp [isAnd]
    · simp [isAnd]

theorem detected_iff (argv : List String) :
    Detected argv (isBackground argv).1 (isBackground argv).2 ↔ OnlyFinal argv := by
  constructor
  · intro detected member
    -- What is read has no `&`, and the vector without a final one has.
    have inside := mem_withoutFinal member
    rw [← detected.reads, visible_isBackground] at inside
    have different := List.mem_takeWhile_imp inside
    exact absurd rfl (of_decide_eq_true different)
  · intro only
    refine ⟨?_, ?_, ?_⟩
    · rw [visible_isBackground, takeWhile_eq_withoutFinal only]
    · rw [isBackground, List.contains_iff_mem]
      constructor
      · intro member
        obtain ⟨before, after, rfl⟩ := List.append_of_mem member
        by_cases more : after = []
        · rw [more, List.getLast?_concat]
        · exact absurd (mem_dropLast_of_followed more) only
      · exact fun last => List.mem_of_getLast? last
    · rintro before after rfl more
      exact absurd (mem_dropLast_of_followed more) only

/-- **Background commands.** No argument is lost, and the right commands run in the background,
exactly when no `&` is followed by anything, in both shells. -/
theorem losesNothing_iff (argv : List String) :
    (LosesNothing argv (entries argv).isBackground ↔ OnlyFinal argv) ∧
      (LosesNothing argv (HW3.Entries.isBackground (entries argv)) ↔ OnlyFinal argv) := by
  have same : LosesNothing argv (entries argv).isBackground ↔ OnlyFinal argv := by
    rw [← detected_iff, isBackground_entries]
    constructor
    · rintro ⟨detect, left, returned, detected⟩
      cases returned
      exact detected
    · exact fun detected => ⟨_, _, rfl, detected⟩
  exact ⟨same, same⟩

/-- The command `echo a & b` runs in the background, and prints `a` only. -/
theorem not_losesNothing :
    (entries ["echo", "a", "&", "b"]).isBackground =
        .ok (true, [some "echo", some "a", none, some "b", none]) ∧
      ¬ LosesNothing ["echo", "a", "&", "b"] (entries ["echo", "a", "&", "b"]).isBackground := by
  rw [isBackground_entries]
  refine ⟨rfl, ?_⟩
  rintro ⟨detect, left, returned, detected⟩
  cases returned
  exact absurd detected.reads (by decide)

end LinuxExercises.Shell
