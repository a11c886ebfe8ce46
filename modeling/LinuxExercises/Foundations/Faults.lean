import Mathlib.Logic.Basic

/-!
# How C code fails to return

A function of the model returns a value or a fault. A loop runs on a budget, and a
loop that ends returns the same value on every budget from some bound on
(`Returns`). Saying that a program returns a value therefore says that it
terminates, and it returns at most one value (`Returns.unique`).
-/

set_option autoImplicit false

namespace LinuxExercises.Foundations

/-- An access outside an object, a loop that did not end within its budget, a call of
`exit`. -/
inductive Fault where
  | outOfBounds
  | outOfFuel
  | exited (status : Nat)
deriving Repr, DecidableEq

/-- The status that a program exits with. -/
inductive Exit where
  | success
  | failure
deriving Repr, DecidableEq

/-- The program terminates with this value: it returns it on every large enough
budget. -/
def Returns {α : Type*} (program : Nat → Except Fault α) (value : α) : Prop :=
  ∃ bound, ∀ fuel, bound ≤ fuel → program fuel = .ok value

namespace Returns

variable {α : Type*} {program : Nat → Except Fault α} {first second : α}

theorem unique (one : Returns program first) (other : Returns program second) :
    first = second := by
  obtain ⟨boundOne, runOne⟩ := one
  obtain ⟨boundOther, runOther⟩ := other
  have one := runOne (max boundOne boundOther) (Nat.le_max_left _ _)
  have other := runOther (max boundOne boundOther) (Nat.le_max_right _ _)
  exact Except.ok.inj (one.symm.trans other)

/-- A program that takes one round and goes on as another. -/
theorem of_round {next : Nat → Except Fault α} {value : α}
    (round : ∀ fuel, program (fuel + 1) = next fuel) (later : Returns next value) :
    Returns program value := by
  obtain ⟨bound, returned⟩ := later
  refine ⟨bound + 1, fun fuel enough => ?_⟩
  obtain ⟨fuel, rfl⟩ := Nat.exists_eq_add_one_of_ne_zero
    (Nat.ne_of_gt (Nat.lt_of_lt_of_le (Nat.succ_pos _) enough))
  rw [round]
  exact returned fuel (Nat.le_of_succ_le_succ enough)

/-- A program that ends within one round. -/
theorem of_last {value : α} (round : ∀ fuel, program (fuel + 1) = .ok value) :
    Returns program value :=
  of_round round ⟨0, fun _ _ => rfl⟩

/-- A program that does one thing and then another. -/
theorem bind {α β : Type} {one : Nat → Except Fault α} {next : Nat → α → Except Fault β}
    {middle : α} {value : β} (before : Returns one middle)
    (later : Returns (fun fuel => next fuel middle) value) :
    Returns (fun fuel => one fuel >>= next fuel) value := by
  obtain ⟨boundOne, runOne⟩ := before
  obtain ⟨boundNext, runNext⟩ := later
  refine ⟨max boundOne boundNext, fun fuel enough => ?_⟩
  have one := runOne fuel (Nat.le_trans (Nat.le_max_left _ _) enough)
  have next := runNext fuel (Nat.le_trans (Nat.le_max_right _ _) enough)
  dsimp only at next ⊢
  rw [one]
  exact next

/-- A step that needs no budget. -/
theorem of_ok {value : α} : Returns (fun _ => (.ok value : Except Fault α)) value :=
  ⟨0, fun _ _ => rfl⟩

end Returns

/-- A computation that returned a value goes on with it. -/
@[simp] theorem ok_bind {α β : Type} (value : α) (next : α → Except Fault β) :
    (Except.ok value >>= next) = next value := rfl

/-- A sequence of two computations returns a value when both do. -/
theorem bind_eq_ok {α β : Type} {first : Except Fault α} {next : α → Except Fault β} {value : β}
    (returned : first >>= next = .ok value) :
    ∃ middle, first = .ok middle ∧ next middle = .ok value := by
  cases first with
  | error fault => cases returned
  | ok middle => exact ⟨middle, rfl, returned⟩

/-- A sequence does not end in a fault in which neither part does. -/
theorem bind_ne_error {α β : Type} {fault : Fault} {first : Except Fault α}
    {next : α → Except Fault β} (now : first ≠ .error fault)
    (later : ∀ value, first = .ok value → next value ≠ .error fault) :
    first >>= next ≠ .error fault := by
  cases result : first with
  | error other =>
      intro same
      obtain rfl := Except.error.inj (show Except.error other = .error fault from same)
      exact now result
  | ok value => exact later value result

end LinuxExercises.Foundations
