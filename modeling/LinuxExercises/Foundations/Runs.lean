import Mathlib.Data.List.Basic

/-!
# Runs of a step function

A system of several parties is a state type with a step function: an action is
either not enabled in a state, or it leads to one next state. Every choice that
the environment makes (which party moves, how many bytes a call returns, whether
a call fails) is part of the action, so the interleavings of the parties are
exactly the sequences of actions.

An invariant is proved once per step and then holds after every run
(`run_invariant`). A condition on the environment is a predicate on actions: the
runs that meet it are those all of whose actions satisfy it. A condition that also looks
at the state in which an action is taken holds along the run (`Along`).
-/

set_option autoImplicit false

namespace LinuxExercises.Foundations

variable {State Action : Type*} (step : State → Action → Option State)

/-- The state after a sequence of actions, when each is enabled in its turn. -/
def run : State → List Action → Option State
  | s, [] => some s
  | s, a :: rest => (step s a).bind fun t => run t rest

@[simp] theorem run_nil (s : State) : run step s [] = some s := rfl

theorem run_cons (s : State) (a : Action) (rest : List Action) :
    run step s (a :: rest) = (step s a).bind fun t => run step t rest := rfl

/-- A condition that every action of the run meets in the state in which it is taken. -/
def Along (Cond : State → Action → Prop) : State → List Action → Prop
  | _, [] => True
  | s, a :: rest => Cond s a ∧ (step s a).elim True fun t => Along Cond t rest

instance decidableAlong (Cond : State → Action → Prop) [∀ s a, Decidable (Cond s a)] :
    ∀ s actions, Decidable (Along step Cond s actions)
  | _, [] => .isTrue trivial
  | s, a :: rest =>
      @instDecidableAnd _ _ inferInstance <|
        match step s a with
        | none => .isTrue trivial
        | some t => decidableAlong Cond t rest

variable {step}

/-- A first step followed by a run is a run. -/
theorem run_step {s t u : State} {a : Action} {rest : List Action}
    (first : step s a = some t) (later : run step t rest = some u) :
    run step s (a :: rest) = some u := by
  rw [run_cons, first]
  exact later

/-- A run of a nonempty sequence takes its first step. -/
theorem run_cons_cases {s u : State} {a : Action} {rest : List Action}
    (ran : run step s (a :: rest) = some u) :
    ∃ t, step s a = some t ∧ run step t rest = some u := by
  rw [run_cons] at ran
  exact Option.bind_eq_some_iff.mp ran

/-- Runs compose. -/
theorem run_append {s t u : State} {first second : List Action}
    (ranFirst : run step s first = some t) (ranSecond : run step t second = some u) :
    run step s (first ++ second) = some u := by
  induction first generalizing s with
  | nil =>
      rw [run_nil, Option.some.injEq] at ranFirst
      exact ranFirst ▸ ranSecond
  | cons a rest ih =>
      obtain ⟨middle, step₁, ran⟩ := run_cons_cases ranFirst
      exact run_step step₁ (ih ran)

/-- **The invariant rule.** A property kept by every allowed step is kept by every
run of allowed actions. -/
theorem run_invariant_of {Inv : State → Prop} {Allowed : Action → Prop}
    (keeps : ∀ {s a t}, Allowed a → Inv s → step s a = some t → Inv t)
    {s t : State} {actions : List Action} (allowed : ∀ a ∈ actions, Allowed a)
    (holds : Inv s) (ran : run step s actions = some t) : Inv t := by
  induction actions generalizing s with
  | nil =>
      rw [run_nil, Option.some.injEq] at ran
      exact ran ▸ holds
  | cons a rest ih =>
      obtain ⟨middle, taken, ran⟩ := run_cons_cases ran
      have first : Allowed a := allowed a (List.mem_cons_self ..)
      exact ih (fun b member => allowed b (List.mem_cons_of_mem _ member))
        (keeps first holds taken) ran

/-- The invariant rule when every action is allowed. -/
theorem run_invariant {Inv : State → Prop}
    (keeps : ∀ {s a t}, Inv s → step s a = some t → Inv t)
    {s t : State} {actions : List Action} (holds : Inv s)
    (ran : run step s actions = some t) : Inv t :=
  @run_invariant_of _ _ _ Inv (fun _ => True) (fun _ => keeps) _ _ _ (fun _ _ => trivial) holds ran

/-- **The history rule.** An invariant about a state and what the actions before it have brought. -/
theorem run_history {Item : Type*} {Inv : List Item → State → Prop} (brings : Action → List Item)
    {Allowed : Action → Prop}
    (keeps : ∀ {items s a t}, Allowed a → Inv items s → step s a = some t →
      Inv (items ++ brings a) t)
    {s t : State} {items : List Item} {actions : List Action} (allowed : ∀ a ∈ actions, Allowed a)
    (holds : Inv items s) (ran : run step s actions = some t) :
    Inv (items ++ actions.flatMap brings) t := by
  induction actions generalizing s items with
  | nil =>
      rw [run_nil, Option.some.injEq] at ran
      rw [List.flatMap_nil, List.append_nil]
      exact ran ▸ holds
  | cons a rest ih =>
      obtain ⟨u, first, later⟩ := run_cons_cases ran
      rw [List.flatMap_cons, ← List.append_assoc]
      exact ih (fun b member => allowed b (List.mem_cons_of_mem a member))
        (keeps (allowed a (List.mem_cons_self ..)) holds first) later

/-- **The rule of the last way out.** When a step that does not meet a condition leads into a trap,
a run whose steps do not all meet it ends there. -/
theorem along_or_of_run {Cond : State → Action → Prop} {Inv Trap : State → Prop}
    (keeps : ∀ {s a t}, Inv s → step s a = some t → Inv t)
    (enters : ∀ {s a t}, Inv s → ¬ Cond s a → step s a = some t → Trap t)
    (stays : ∀ {s a t}, Trap s → step s a = some t → Trap t)
    {s t : State} {actions : List Action} (holds : Inv s) (ran : run step s actions = some t) :
    Along step Cond s actions ∨ Trap t := by
  induction actions generalizing s with
  | nil => exact .inl trivial
  | cons a rest ih =>
      obtain ⟨middle, taken, ran⟩ := run_cons_cases ran
      by_cases met : Cond s a
      · refine (ih (keeps holds taken) ran).imp_left fun later => ⟨met, ?_⟩
        rwa [taken]
      · exact .inr (run_invariant stays (enters holds met taken) ran)

/-- **The simulation rule.** When every step from a state of an invariant is a step of the states
that these are seen as, a run is a run of those. -/
theorem run_simulates {State' : Type*} {step' : State' → Action → Option State'}
    (view : State → State') {Inv : State → Prop}
    (simulates : ∀ {s a t}, Inv s → step s a = some t → Inv t ∧ step' (view s) a = some (view t))
    {s t : State} {actions : List Action} (holds : Inv s) (ran : run step s actions = some t) :
    Inv t ∧ run step' (view s) actions = some (view t) := by
  induction actions generalizing s with
  | nil =>
      rw [run_nil, Option.some.injEq] at ran
      exact ran ▸ ⟨holds, rfl⟩
  | cons a rest ih =>
      obtain ⟨middle, taken, ran⟩ := run_cons_cases ran
      obtain ⟨kept, taken'⟩ := simulates holds taken
      obtain ⟨reached, ran'⟩ := ih kept ran
      exact ⟨reached, run_step taken' ran'⟩

/-- A condition on actions alone is met along the run too. -/
theorem Along.and {Allowed : Action → Prop} {Cond : State → Action → Prop} {s : State}
    {actions : List Action} (along : Along step Cond s actions)
    (allowed : ∀ a ∈ actions, Allowed a) :
    Along step (fun s a => Allowed a ∧ Cond s a) s actions := by
  induction actions generalizing s with
  | nil => trivial
  | cons a rest ih =>
      obtain ⟨first, later⟩ := along
      refine ⟨⟨allowed a (List.mem_cons_self ..), first⟩, ?_⟩
      cases taken : step s a with
      | none => trivial
      | some t =>
          rw [taken] at later
          exact ih later fun b member => allowed b (List.mem_cons_of_mem _ member)

/-- The invariant rule when the steps meet a condition on the states in which they are
taken. -/
theorem run_invariant_along {Inv : State → Prop} {Cond : State → Action → Prop}
    (keeps : ∀ {s a t}, Cond s a → Inv s → step s a = some t → Inv t)
    {s t : State} {actions : List Action} (along : Along step Cond s actions)
    (holds : Inv s) (ran : run step s actions = some t) : Inv t := by
  induction actions generalizing s with
  | nil =>
      rw [run_nil, Option.some.injEq] at ran
      exact ran ▸ holds
  | cons a rest ih =>
      obtain ⟨middle, taken, ran⟩ := run_cons_cases ran
      obtain ⟨first, later⟩ := along
      rw [taken] at later
      exact ih later (keeps first holds taken) ran

/-- **The progress rule.** When from every state of an invariant that is not a goal an allowed
step leads to a smaller one, a run of allowed actions leads to a goal. -/
theorem run_reaches {Inv Goal : State → Prop} {Allowed : Action → Prop} (size : State → Nat)
    (progress : ∀ s, Inv s → ¬ Goal s → ∃ a t, Allowed a ∧ step s a = some t ∧ Inv t ∧
      size t < size s) {s : State} (holds : Inv s) :
    ∃ actions t, (∀ a ∈ actions, Allowed a) ∧ run step s actions = some t ∧ Inv t ∧ Goal t := by
  induction bound : size s using Nat.strongRecOn generalizing s with
  | ind _ ih =>
      by_cases goal : Goal s
      · exact ⟨[], s, by simp, rfl, holds, goal⟩
      · obtain ⟨a, middle, allowed, taken, kept, smaller⟩ := progress s holds goal
        obtain ⟨actions, t, later, ran, reached⟩ := ih (size middle) (bound ▸ smaller) kept rfl
        refine ⟨a :: actions, t, ?_, run_step taken ran, reached⟩
        intro b member
        rcases List.mem_cons.mp member with rfl | inside
        · exact allowed
        · exact later b inside

/-- **The termination rule.** When every allowed step from a state of an invariant leads to a
smaller one, the size at the start bounds the runs of allowed actions. -/
theorem run_length_le {Inv : State → Prop} {Allowed : Action → Prop} (size : State → Nat)
    (shrinks : ∀ {s a t}, Allowed a → Inv s → step s a = some t → Inv t ∧ size t < size s)
    {s t : State} {actions : List Action} (allowed : ∀ a ∈ actions, Allowed a)
    (holds : Inv s) (ran : run step s actions = some t) : actions.length ≤ size s := by
  induction actions generalizing s with
  | nil => exact Nat.zero_le _
  | cons a rest ih =>
      obtain ⟨middle, taken, ran⟩ := run_cons_cases ran
      obtain ⟨kept, smaller⟩ := shrinks (allowed a (List.mem_cons_self ..)) holds taken
      have later : rest.length ≤ size middle :=
        ih (fun b member => allowed b (List.mem_cons_of_mem _ member)) kept ran
      rw [List.length_cons]
      omega

/-- **The agreement rule.** Of two systems on the same states, of which one keeps an invariant on
which they take the same step exactly when a condition holds, the runs agree all the way exactly
when the condition holds along the run. -/
theorem run_take_eq_iff {step' : State → Action → Option State} {Inv : State → Prop}
    {Cond : State → Action → Prop} (keeps : ∀ {s a t}, Inv s → step' s a = some t → Inv t)
    (agree : ∀ {s a}, Inv s → (step s a = step' s a ↔ Cond s a)) {s : State}
    (actions : List Action) (holds : Inv s) :
    (∀ n, run step s (actions.take n) = run step' s (actions.take n)) ↔
      Along step' Cond s actions := by
  induction actions generalizing s with
  | nil => exact ⟨fun _ => trivial, fun _ n => by rw [List.take_nil]; rfl⟩
  | cons a rest ih =>
      have one : ∀ f : State → Action → Option State, run f s [a] = f s a := fun f => by
        rw [run_cons]
        cases f s a <;> rfl
      constructor
      · intro same
        have first : step s a = step' s a := by simpa [one] using same 1
        refine ⟨(agree holds).mp first, ?_⟩
        cases taken : step' s a with
        | none => trivial
        | some t =>
            refine (ih (keeps holds taken)).mp fun n => ?_
            have later := same (n + 1)
            rw [List.take_succ_cons, run_cons, run_cons, first, taken] at later
            exact later
      · rintro ⟨here, later⟩ n
        cases n with
        | zero => rfl
        | succ n =>
            rw [List.take_succ_cons, run_cons, run_cons, (agree holds).mpr here]
            cases taken : step' s a with
            | none => rfl
            | some t =>
                rw [taken] at later
                exact (ih (keeps holds taken)).mpr later n

end LinuxExercises.Foundations
