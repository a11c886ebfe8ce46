import LinuxExercises.Foundations.Faults

/-!
# Binary search

`bsearch` halves an interval of indices until the comparison function returns zero or
the interval is empty. The comparison may read through a pointer, so it may fault.

Two facts of different strength are useful. Whatever the order of the table, the search
terminates, and an index it returns compares as equal. When the table is in order for
the key, the search also misses no element (`bsearch_returns`).

Where the comparison may fault, an index that is returned still compares as equal
(`bsearch_sound`), and a budget of one round more than there are elements is enough
(`bsearch_ends`).
-/

set_option autoImplicit false

namespace LinuxExercises.Foundations

/-- The loop of `bsearch`, which searches from `l` up to `u`. -/
def bsearchBetween (compar : Nat → Except Fault Ordering) :
    Nat → Nat → Nat → Except Fault (Option Nat)
  | 0, _, _ => .error .outOfFuel
  | fuel + 1, l, u =>
    if l < u then do
      let idx := (l + u) / 2
      match ← compar idx with
      | .lt => bsearchBetween compar fuel l idx
      | .gt => bsearchBetween compar fuel (idx + 1) u
      | .eq => .ok (some idx)
    else .ok none

/-- `bsearch` over a table of `nmemb` elements. The comparison sees the index of the
element that the key is compared with. -/
def bsearch (compar : Nat → Except Fault Ordering) (nmemb fuel : Nat) :
    Except Fault (Option Nat) :=
  bsearchBetween compar fuel 0 nmemb

/-- The first `n` elements are in order for a key: behind an element above the key all
are above it, and before an element below the key all are below it. -/
structure InOrderFor (order : Nat → Ordering) (n : Nat) : Prop where
  above : ∀ {i j}, i < j → j < n → order i = .lt → order j = .lt
  below : ∀ {i j}, i < j → j < n → order j = .gt → order i = .gt

/-- What a search between two indices may return. -/
structure Finds (order : Nat → Ordering) (n l u : Nat) (result : Option Nat) : Prop where
  sound : ∀ {idx}, result = some idx → l ≤ idx ∧ idx < u ∧ order idx = .eq
  complete : result = none → InOrderFor order n → ∀ {i}, l ≤ i → i < u → order i ≠ .eq

namespace Finds

variable {order : Nat → Ordering} {n l u idx : Nat} {result : Option Nat}

theorem empty (bounds : u ≤ l) : Finds order n l u none where
  sound := by
    intro idx found
    cases found
  complete := by
    intro _ _ i lower upper
    omega

theorem hit (lower : l ≤ idx) (upper : idx < u) (same : order idx = .eq) :
    Finds order n l u (some idx) where
  sound := by
    intro other found
    cases found
    exact ⟨lower, upper, same⟩
  complete := by
    intro missed
    cases missed

/-- The key is below the middle element, and the lower half was searched. -/
theorem lower_half (upper : idx < u) (within : u ≤ n) (before : order idx = .lt)
    (half : Finds order n l idx result) : Finds order n l u result where
  sound := by
    intro other found
    obtain ⟨lower, inHalf, same⟩ := half.sound found
    exact ⟨lower, Nat.lt_trans inHalf upper, same⟩
  complete := by
    intro missed inOrder i lower inRange same
    rcases Nat.lt_trichotomy i idx with inHalf | rfl | behind
    · exact half.complete missed inOrder lower inHalf same
    · rw [before] at same
      cases same
    · rw [inOrder.above behind (Nat.lt_of_lt_of_le inRange within) before] at same
      cases same

/-- The key is above the middle element, and the upper half was searched. -/
theorem upper_half (lower : l ≤ idx) (upper : idx < u) (within : u ≤ n)
    (behind : order idx = .gt) (half : Finds order n (idx + 1) u result) :
    Finds order n l u result where
  sound := by
    intro other found
    obtain ⟨inHalf, below, same⟩ := half.sound found
    exact ⟨by omega, below, same⟩
  complete := by
    intro missed inOrder i _ inRange same
    rcases Nat.lt_trichotomy i idx with before | rfl | inHalf
    · rw [inOrder.below before (Nat.lt_of_lt_of_le upper within) behind] at same
      cases same
    · rw [behind] at same
      cases same
    · exact half.complete missed inOrder inHalf inRange same

end Finds

/-- The loop halves the interval, so its length bounds the number of rounds. -/
theorem bsearchBetween_returns {compar : Nat → Except Fault Ordering} {order : Nat → Ordering}
    {n : Nat} (compares : ∀ i, i < n → compar i = .ok (order i)) :
    ∀ (length : Nat) {l u : Nat}, u - l ≤ length → u ≤ n →
      ∃ result, Returns (fun fuel => bsearchBetween compar fuel l u) result ∧
        Finds order n l u result := by
  intro length
  induction length with
  | zero =>
      intro l u short _
      refine ⟨none, Returns.of_last fun fuel => ?_, .empty (by omega)⟩
      rw [bsearchBetween, if_neg (by omega)]
  | succ length ih =>
      intro l u short within
      by_cases more : l < u
      · have lower : l ≤ (l + u) / 2 := by omega
        have upper : (l + u) / 2 < u := by omega
        have round : ∀ fuel, bsearchBetween compar (fuel + 1) l u =
            match order ((l + u) / 2) with
            | .lt => bsearchBetween compar fuel l ((l + u) / 2)
            | .gt => bsearchBetween compar fuel ((l + u) / 2 + 1) u
            | .eq => .ok (some ((l + u) / 2)) := by
          intro fuel
          rw [bsearchBetween, if_pos more]
          dsimp only
          rw [compares _ (Nat.lt_of_lt_of_le upper within), ok_bind]
        cases middle : order ((l + u) / 2) with
        | lt =>
            obtain ⟨result, returned, finds⟩ := @ih l ((l + u) / 2) (by omega) (by omega)
            refine ⟨result, Returns.of_round (fun fuel => ?_) returned,
              .lower_half upper within middle finds⟩
            rw [round, middle]
        | gt =>
            obtain ⟨result, returned, finds⟩ := @ih ((l + u) / 2 + 1) u (by omega) within
            refine ⟨result, Returns.of_round (fun fuel => ?_) returned,
              .upper_half lower upper within middle finds⟩
            rw [round, middle]
        | eq =>
            refine ⟨some ((l + u) / 2), Returns.of_last fun fuel => ?_, .hit lower upper middle⟩
            rw [round, middle]
      · refine ⟨none, Returns.of_last fun fuel => ?_, .empty (by omega)⟩
        rw [bsearchBetween, if_neg more]

/-- **Binary search** over a table whose elements can be compared terminates, finds only
elements that compare as equal, and in a table that is in order misses none. -/
theorem bsearch_returns {compar : Nat → Except Fault Ordering} {order : Nat → Ordering}
    {nmemb : Nat} (compares : ∀ i, i < nmemb → compar i = .ok (order i)) :
    ∃ result, Returns (bsearch compar nmemb) result ∧ Finds order nmemb 0 nmemb result :=
  bsearchBetween_returns compares nmemb (Nat.le_refl _) (Nat.le_refl _)

/-- The search asks for elements of the table only. -/
theorem bsearch_congr {compar compar' : Nat → Except Fault Ordering} {nmemb : Nat}
    (same : ∀ i, i < nmemb → compar i = compar' i) :
    bsearch compar nmemb = bsearch compar' nmemb := by
  have between : ∀ fuel {l u}, u ≤ nmemb →
      bsearchBetween compar fuel l u = bsearchBetween compar' fuel l u := by
    intro fuel
    induction fuel with
    | zero => intro l u _; rfl
    | succ fuel ih =>
        intro l u within
        rw [bsearchBetween, bsearchBetween]
        by_cases more : l < u
        · rw [if_pos more, if_pos more]
          dsimp only
          rw [same _ (by omega), @ih l ((l + u) / 2) (by omega), @ih ((l + u) / 2 + 1) u within]
        · rw [if_neg more, if_neg more]
  exact funext fun fuel => between fuel (Nat.le_refl _)

theorem bsearchBetween_sound {compar : Nat → Except Fault Ordering} {fuel l u idx : Nat}
    (found : bsearchBetween compar fuel l u = .ok (some idx)) :
    idx < u ∧ compar idx = .ok .eq := by
  induction fuel generalizing l u with
  | zero => exact nomatch found
  | succ fuel ih =>
      rw [bsearchBetween] at found
      split at found
      · rename_i more
        obtain ⟨order, compared, later⟩ := bind_eq_ok found
        have middle : (l + u) / 2 < u := by omega
        cases order with
        | lt =>
            obtain ⟨below, same⟩ := ih later
            exact ⟨Nat.lt_trans below middle, same⟩
        | gt => exact ih later
        | eq =>
            obtain rfl := Option.some.inj (Except.ok.inj later)
            exact ⟨middle, compared⟩
      · exact nomatch Except.ok.inj found

/-- An index that is found compares as equal, also where other comparisons fault. -/
theorem bsearch_sound {compar : Nat → Except Fault Ordering} {nmemb fuel idx : Nat}
    (found : bsearch compar nmemb fuel = .ok (some idx)) :
    idx < nmemb ∧ compar idx = .ok .eq :=
  bsearchBetween_sound found

theorem bsearchBetween_ends {compar : Nat → Except Fault Ordering}
    (compares : ∀ idx, compar idx ≠ .error .outOfFuel) {fuel l u : Nat} (enough : u - l < fuel) :
    bsearchBetween compar fuel l u ≠ .error .outOfFuel := by
  induction fuel generalizing l u with
  | zero => exact absurd enough (Nat.not_lt_zero _)
  | succ fuel ih =>
      rw [bsearchBetween]
      split
      · dsimp only
        cases compared : compar ((l + u) / 2) with
        | error fault =>
            intro same
            obtain rfl := Except.error.inj (show Except.error fault = .error .outOfFuel from same)
            exact compares _ compared
        | ok order =>
            rw [ok_bind]
            cases order with
            | lt => exact @ih l ((l + u) / 2) (by omega)
            | gt => exact @ih ((l + u) / 2 + 1) u (by omega)
            | eq => exact fun same => nomatch same
      · exact fun same => nomatch same

/-- The search ends within one round more than there are elements. -/
theorem bsearch_ends {compar : Nat → Except Fault Ordering}
    (compares : ∀ idx, compar idx ≠ .error .outOfFuel) {nmemb fuel : Nat} (enough : nmemb < fuel) :
    bsearch compar nmemb fuel ≠ .error .outOfFuel :=
  bsearchBetween_ends compares enough

/-- A search that must compare and cannot does not return. -/
theorem bsearch_faults {compar : Nat → Except Fault Ordering} {fault : Fault}
    (faults : ∀ idx, compar idx = .error fault) {nmemb : Nat} (nonempty : 0 < nmemb)
    (fuel : Nat) : ∃ reason, bsearch compar nmemb fuel = .error reason := by
  cases fuel with
  | zero => exact ⟨.outOfFuel, rfl⟩
  | succ fuel =>
      refine ⟨fault, ?_⟩
      rw [bsearch, bsearchBetween, if_pos nonempty]
      dsimp only
      rw [faults]
      rfl

end LinuxExercises.Foundations
