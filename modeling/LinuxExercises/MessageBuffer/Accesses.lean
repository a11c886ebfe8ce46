import LinuxExercises.MessageBuffer.System

/-!
# Accesses to the message buffer

The array has a slot for each message, and it is set up as if it had one for each block. With more
blocks than messages the set-up leaves the array, without a block the first message has nowhere
to go, and a remainder by zero is not even reached. The handler prints the slot in front of the
first one, so that any consumer that is woken leaves the array.

So the accesses are right in all runs exactly when there are no consumers and there are at least
one block and at most as many as messages (`accessesInside_iff`).
-/

set_option autoImplicit false

namespace LinuxExercises.MessageBuffer

open Foundations

/-! ## Runs in which nothing goes wrong -/

/-- What the accesses rely on: there are no consumers, and at least one slot and at most all have
a block. -/
structure Fitting (s : Settings) : Prop where
  consumers : s.consumer = 0
  first : 1 ≤ s.bufSize
  last : s.bufSize ≤ s.dataNum

/-- The slots that have been given a block when `main` is here. -/
def Pc.Given : Pc → Nat → Prop
  | .setUp i, k => k < i
  | _, _ => True

/-- The invariant. -/
structure Guarded (s : Settings) (t : System) : Prop where
  misuse : t.misuse = none
  consumers : t.consumers = []
  length : t.messageBuffer.length = s.dataNum.toNat
  given : ∀ k : Nat, (k : Int) < s.bufSize → t.main.Given k → t.messageBuffer[k]? = some true

section Guarded

variable {s : Settings}

theorem guarded_start : Guarded s (.start s) where
  misuse := rfl
  consumers := rfl
  length := List.length_replicate
  given := fun k _ none => absurd none (Nat.not_lt_zero k)

/-- Behind the set-up every block is there. -/
theorem Pc.given_of_ne {pc : Pc} (behind : ∀ i, pc ≠ .setUp i) (k : Nat) : pc.Given k := by
  cases pc with
  | setUp i => exact absurd rfl (behind i)
  | fork i => trivial
  | write i => trivial
  | signal i j => trivial
  | close j => trivial
  | exited => trivial

/-- The slot of a message is one of the first. -/
theorem seq_of_pos (positive : 0 < s.bufSize) (i : Nat) :
    ∃ index : Nat, seq s i = .ok index ∧ (index : Int) < s.bufSize := by
  rw [seq]
  by_cases first : i = 0
  · exact ⟨0, if_pos first, positive⟩
  · have lower : 0 ≤ (i : Int).tmod s.bufSize := Int.tmod_nonneg _ (Int.natCast_nonneg i)
    have upper : (i : Int).tmod s.bufSize < s.bufSize := Int.tmod_lt_of_pos _ positive
    refine ⟨((i : Int).tmod s.bufSize).toNat, ?_, by omega⟩
    rw [if_neg first, if_neg (by omega), Int.toNat_of_nonneg lower]

/-- The block of such a slot can be read. -/
theorem accessed_of_given {messageBuffer : List Bool} {index : Nat}
    (given : messageBuffer[index]? = some true) : accessed messageBuffer index = none := by
  have within := (List.getElem?_eq_some_iff.mp given).1
  rw [accessed, if_pos (by omega), Int.toNat_natCast, if_pos given]

theorem Guarded.step {t u : System} {a : Action} (fitting : Fitting s) (guarded : Guarded s t)
    (taken : step s t a = some u) : Guarded s u := by
  cases stepped taken with
  | @gives i fails pc more inside =>
      refine ⟨guarded.misuse, guarded.consumers, ?_, ?_⟩
      · exact (List.length_set ..).trans guarded.length
      · intro k few before
        by_cases here : k = i
        · rw [here]
          exact List.getElem?_set_self inside
        · have earlier : t.main.Given k := by
            rw [pc]
            exact Nat.lt_of_le_of_ne (Nat.le_of_lt_succ before) here
          have given := guarded.given k few earlier
          exact (List.getElem?_set_ne (Ne.symm here)).trans given
  | @outgrows i fails pc more outside =>
      -- The array has at least as many slots as there are blocks.
      have length := guarded.length
      have last := fitting.last
      omega
  | @ready i fails pc done =>
      refine ⟨guarded.misuse, guarded.consumers, guarded.length, fun k few _ => ?_⟩
      apply guarded.given k few
      rw [pc]
      change k < i
      omega
  | goesOn pc later fresh =>
      refine ⟨guarded.misuse, ?_, guarded.length, ?_⟩
      · exact fresh (Int.le_of_eq fitting.consumers) guarded.consumers
      · intro k few _
        exact guarded.given k few (Pc.given_of_ne pc k)
  | @writes i fails misuse pc wrong =>
      obtain ⟨index, slot, few⟩ := @seq_of_pos s (by have := fitting.first; omega) i
      have given := guarded.given index few (by rw [pc]; trivial)
      rcases wrong with zero | ⟨other, slot', failed⟩
      · rw [slot] at zero
        cases zero
      · rw [slot] at slot'
        cases slot'
        rw [accessed_of_given given] at failed
        cases failed
  | @handles j opens u pending =>
      rw [guarded.consumers] at pending
      cases pending

end Guarded

/-! ## Runs in which something goes wrong -/

section Wrong

variable {s : Settings}

/-- The system in the middle of its set-up. -/
def System.setting (s : Settings) (n : Nat) : System where
  main := .setUp n
  messageBuffer := List.replicate n true ++ List.replicate (s.dataNum.toNat - n) false
  consumers := []
  misuse := none

/-- The system when some consumers have been forked. -/
def System.forking (messageBuffer : List Bool) (n : Nat) : System where
  main := .fork n
  messageBuffer := messageBuffer
  consumers := List.replicate n (.looping false)
  misuse := none

theorem step_setUp {n : Nat} (more : (n : Int) < s.bufSize) (inside : (n : Int) < s.dataNum) :
    step s (.setting s n) (.main false) = some (.setting s (n + 1)) := by
  have within : n < (System.setting s n).messageBuffer.length := by
    simp only [System.setting, List.length_append, List.length_replicate]
    omega
  have stored : (System.setting s n).messageBuffer.set n true =
      (System.setting s (n + 1)).messageBuffer := by
    obtain ⟨room, same⟩ : ∃ room, s.dataNum.toNat - n = room + 1 :=
      ⟨s.dataNum.toNat - n - 1, by omega⟩
    simp only [System.setting]
    rw [same, (by omega : s.dataNum.toNat - (n + 1) = room), List.replicate_succ,
      List.replicate_succ', List.append_assoc, List.singleton_append, List.set_append,
      List.length_replicate, if_neg (Nat.lt_irrefl n), Nat.sub_self, List.set_cons_zero]
  have unfolded : step s (.setting s n) (.main false) =
      some { System.setting s n with
        main := .setUp (n + 1)
        messageBuffer := (System.setting s n).messageBuffer.set n true } := by
    change (if (n : Int) < s.bufSize then
      if n < (System.setting s n).messageBuffer.length then _ else _ else _) = _
    rw [if_pos more, if_pos within]
  rw [unfolded, stored]
  rfl

/-- Behind the last block the consumers are forked. -/
theorem step_ready {n : Nat} (done : s.bufSize ≤ n) :
    step s (.setting s n) (.main false) =
      some (.forking (System.setting s n).messageBuffer 0) := by
  change (if (n : Int) < s.bufSize then _ else _) = _
  exact if_neg (by omega)

/-- The set-up goes on as long as there are blocks to give and slots to store them in. -/
theorem setUp_run {n : Nat} (more : (n : Int) ≤ s.bufSize) (inside : (n : Int) ≤ s.dataNum) :
    run (step s) (.start s) (List.replicate n (.main false)) = some (.setting s n) := by
  induction n with
  | zero => rfl
  | succ n ih =>
      rw [List.replicate_succ']
      exact run_append (ih (by omega) (by omega)) (run_step (step_setUp (by omega) (by omega)) rfl)

theorem fork_run (messageBuffer : List Bool) {n : Nat} (more : (n : Int) ≤ s.consumer) :
    run (step s) (.forking messageBuffer 0) (List.replicate n (.main false)) =
      some (.forking messageBuffer n) := by
  induction n with
  | zero => rfl
  | succ n ih =>
      have forks : step s (.forking messageBuffer n) (.main false) =
          some (.forking messageBuffer (n + 1)) := by
        have grown : List.replicate (n + 1) (Consumer.looping false) =
            List.replicate n (.looping false) ++ [.looping false] := List.replicate_succ'
        rw [System.forking, System.forking, grown]
        change (if (n : Int) < s.consumer then _ else _) = _
        exact if_pos (by omega)
      rw [List.replicate_succ']
      exact run_append (ih (by omega)) (run_step forks rfl)

/-- All consumers are forked, and `main` comes to its first message. -/
theorem write_run (messageBuffer : List Bool) {n : Nat} (all : s.consumer = n) :
    run (step s) (.forking messageBuffer 0)
        (List.replicate n (.main false) ++ [.main false]) =
      some { System.forking messageBuffer n with main := .write 0 } := by
  have last : step s (.forking messageBuffer n) (.main false) =
      some { System.forking messageBuffer n with main := .write 0 } := by
    change (if (n : Int) < s.consumer then _ else _) = _
    exact if_neg (by omega)
  exact run_append (fork_run messageBuffer (by omega)) (run_step last rfl)

/-- Some run goes wrong. -/
def GoesWrong (s : Settings) : Prop :=
  ∃ actions t, run (step s) (.start s) actions = some t ∧ t.misuse ≠ none

/-- A state that can be reached and that a step leads out of the array from. -/
theorem goesWrong_of_run {actions : List Action} {a : Action} {t u : System}
    (ran : run (step s) (.start s) actions = some t) (taken : step s t a = some u)
    (wrong : u.misuse ≠ none) : GoesWrong s :=
  ⟨actions ++ [a], u, run_append ran (run_step taken rfl), wrong⟩

/-- The first message goes to the first slot. -/
theorem step_first {t : System} (fine : t.misuse = none) (pc : t.main = .write 0)
    (number : 1 ≤ s.dataNum) :
    step s t (.main false) = (accessed t.messageBuffer 0).elim (some { t with main := .signal 0 0 })
      fun misuse => some { t with misuse := some misuse } := by
  rw [step.eq_def, if_pos fine]
  dsimp only
  rw [System.stepMain, pc]
  dsimp only
  have more : ((0 : Nat) : Int) < s.dataNum := by omega
  rw [if_pos more, seq, if_pos rfl]
  dsimp only
  cases accessed t.messageBuffer 0 <;> rfl

/-- More blocks than messages: the set-up leaves the array. -/
theorem goesWrong_of_large (number : 1 ≤ s.dataNum) (large : s.dataNum < s.bufSize) :
    GoesWrong s := by
  obtain ⟨d, same⟩ := Int.eq_ofNat_of_zero_le (Int.le_trans (by decide) number)
  have ran := @setUp_run s d (by omega) (by omega)
  have full : ¬ d < (System.setting s d).messageBuffer.length := by
    simp only [System.setting, List.length_append, List.length_replicate]
    omega
  have leaves : step s (.setting s d) (.main false) =
      some { System.setting s d with misuse := some (.outside d) } := by
    change (if (d : Int) < s.bufSize then
      if d < (System.setting s d).messageBuffer.length then _ else _ else _) = _
    rw [if_pos (by omega), if_neg full]
  exact goesWrong_of_run ran leaves (by simp)

/-- No block: the first message has nowhere to go. -/
theorem goesWrong_of_none (number : 1 ≤ s.dataNum) (consumers : 0 ≤ s.consumer)
    (none : s.bufSize ≤ 0) : GoesWrong s := by
  obtain ⟨c, same⟩ := Int.eq_ofNat_of_zero_le consumers
  have ready : step s (.start s) (.main false) =
      some (.forking (List.replicate s.dataNum.toNat false) 0) := @step_ready s 0 none
  have ran := run_step ready (write_run (List.replicate s.dataNum.toNat false) same)
  have blockless : accessed (List.replicate s.dataNum.toNat false) 0 = some (.noBlock 0) := by
    rw [accessed, List.length_replicate, if_pos (by omega), if_neg]
    simp [List.getElem?_replicate]
  have leaves : step s { System.forking (List.replicate s.dataNum.toNat false) c with
      main := .write 0 } (.main false) =
      some { System.forking (List.replicate s.dataNum.toNat false) c with
        main := .write 0, misuse := some (.noBlock 0) } := by
    rw [step_first rfl rfl number]
    dsimp only [System.forking]
    rw [blockless]
    rfl
  exact goesWrong_of_run ran leaves (by simp)

/-- In front of the first slot there is none. -/
theorem accessed_before (messageBuffer : List Bool) :
    accessed messageBuffer (-1) = some (.outside (-1)) := by
  rw [accessed, if_neg (by omega)]

/-- The handler prints it. -/
theorem step_handler {t : System} (fine : t.misuse = none) {j : Nat}
    (pending : t.consumers[j]? = some (.looping true)) :
    step s t (.handler j true) = some { t with misuse := some (.outside (-1)) } := by
  rw [step.eq_def, if_pos fine]
  dsimp only
  rw [System.handle, pending]
  dsimp only
  rw [if_pos rfl, accessed_before]

/-- A consumer: it is woken by the first message and prints the slot in front of the first. -/
theorem goesWrong_of_consumer (number : 1 ≤ s.dataNum) (consumers : 1 ≤ s.consumer)
    (first : 1 ≤ s.bufSize) (last : s.bufSize ≤ s.dataNum) : GoesWrong s := by
  obtain ⟨b, sameB⟩ := Int.eq_ofNat_of_zero_le (Int.le_trans (by decide) first)
  obtain ⟨c, sameC⟩ := Int.eq_ofNat_of_zero_le (Int.le_trans (by decide) consumers)
  have ready := @step_ready s b (by omega)
  have setUp := @setUp_run s b (by omega) (by omega)
  have ran := run_append setUp (run_step ready (write_run (System.setting s b).messageBuffer sameC))
  have given : (System.setting s b).messageBuffer[0]? = some true := by
    simp only [System.setting]
    rw [List.getElem?_append_left (by rw [List.length_replicate]; omega), List.getElem?_replicate,
      if_pos (by omega)]
  generalize (System.setting s b).messageBuffer = messageBuffer at ran given
  have writes : step s { System.forking messageBuffer c with main := .write 0 } (.main false) =
      some { System.forking messageBuffer c with main := .signal 0 0 } := by
    have free : accessed messageBuffer 0 = none := accessed_of_given given
    rw [step_first rfl rfl number]
    dsimp only [System.forking]
    rw [free]
    rfl
  have wakes : step s { System.forking messageBuffer c with main := .signal 0 0 } (.main false) =
      some { System.forking messageBuffer c with
        main := .signal 0 1
        consumers := (List.replicate c (.looping false)).modify 0 Consumer.receive } := by
    change (if ((0 : Nat) : Int) < s.consumer then _ else _) = _
    exact if_pos (by omega)
  have pending : ((List.replicate c (.looping false)).modify 0 Consumer.receive)[0]? =
      some (.looping true) := by
    obtain ⟨others, rfl⟩ : ∃ others, c = others + 1 := ⟨c - 1, by omega⟩
    rfl
  have awake := run_append ran (run_step writes (run_step wakes (run_nil _ _)))
  exact goesWrong_of_run awake (step_handler rfl pending) (by simp)

end Wrong

/-- **Accesses to the message buffer.** For arguments with at least one message and no negative
number of consumers, no access goes wrong exactly when there are no consumers, and at least one
block and at most as many as messages. -/
theorem accessesInside_iff {argv : List (List Byte)} {s : Settings}
    (accepted : Settings.ofArgs argv = some s) (number : 1 ≤ s.dataNum)
    (consumers : 0 ≤ s.consumer) : AccessesInside argv ↔ Fitting s := by
  constructor
  · intro inside
    have never : ¬ GoesWrong s := by
      rintro ⟨actions, t, ran, wrong⟩
      exact wrong (inside s accepted actions t ran)
    by_contra unfitting
    apply never
    by_cases none : s.bufSize ≤ 0
    · exact goesWrong_of_none number consumers none
    by_cases large : s.dataNum < s.bufSize
    · exact goesWrong_of_large number large
    · apply goesWrong_of_consumer number _ (by omega) (by omega)
      by_contra few
      exact unfitting ⟨by omega, by omega, by omega⟩
  · intro fitting other same actions t ran
    rw [accepted] at same
    cases same
    exact (run_invariant (fun guarded taken => guarded.step fitting taken) guarded_start ran).misuse

/-- The arguments `2 1 0 2`. -/
def twoMessages : List (List Byte) :=
  [[0], literal "2", literal "1", literal "0", literal "2"]

theorem accessesInside_iff_twoMessages : AccessesInside twoMessages ↔ Fitting ⟨2, 1, 0, 2⟩ :=
  accessesInside_iff (by decide) (by decide) (by decide)

/-- The arguments `2 1 1 2`: the consumer leaves the array. -/
theorem not_accessesInside :
    Settings.ofArgs [[0], literal "2", literal "1", literal "1", literal "2"] =
        some ⟨2, 1, 1, 2⟩ ∧
      ¬ AccessesInside [[0], literal "2", literal "1", literal "1", literal "2"] := by
  have accepted : Settings.ofArgs [[0], literal "2", literal "1", literal "1", literal "2"] =
      some ⟨2, 1, 1, 2⟩ := by
    decide
  refine ⟨accepted, fun inside => ?_⟩
  obtain ⟨actions, t, ran, wrong⟩ :=
    @goesWrong_of_consumer ⟨2, 1, 1, 2⟩ (by decide) (by decide) (by decide) (by decide)
  exact wrong (inside _ accepted actions t ran)

end LinuxExercises.MessageBuffer
