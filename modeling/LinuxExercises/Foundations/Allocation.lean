import Mathlib.Algebra.GroupWithZero.Nat
import Mathlib.Algebra.Order.BigOperators.Group.Finset
import Mathlib.Data.Int.ConditionallyCompleteOrder
import Mathlib.Order.CompletePartialOrder
import Mathlib.Order.ConditionallyCompleteLattice.Finset
import Mathlib.Order.Interval.Set.Disjoint

/-!
# Allocation from a counter

A counter that only grows hands out numbers: each grant has a length, starts where the
counter stands and moves the counter on by its length. The grants in the order they were
made are a list, and the start of a grant is the sum of the lengths before it
(`GrantedAt`).

Later grants do not move earlier ones (`GrantedAt.append`), two different grants have
disjoint ranges (`GrantedAt.disjoint`), and when every grant belongs to a key of its own
the counter stays within the sum over the keys (`total_le_sum`). A counter that is kept in
a signed 32-bit number hands out the same ranges while it stays below `2 ^ 31`
(`GrantedAt.disjoint_int`).
-/

set_option autoImplicit false

namespace LinuxExercises.Foundations

variable {Grant : Type*} (length : Grant → Nat)

/-- Where the counter stands after these grants. -/
def total (grants : List Grant) : Nat := (grants.map length).sum

/-- The grant starts at `start`. -/
def GrantedAt (grants : List Grant) (grant : Grant) (start : Nat) : Prop :=
  ∃ before after, grants = before ++ grant :: after ∧ start = total length before

@[simp] theorem total_cons (grant : Grant) (grants : List Grant) :
    total length (grant :: grants) = length grant + total length grants := by
  rw [total, total, List.map_cons, List.sum_cons]

@[simp] theorem total_append (earlier later : List Grant) :
    total length (earlier ++ later) = total length earlier + total length later := by
  rw [total, total, total, List.map_append, List.sum_append]

/-- Grants with different keys are no longer together than all keys are. -/
theorem total_le_sum {Key : Type*} [DecidableEq Key] {key : Grant → Key} {keys : Finset Key}
    {limit : Key → Nat} {grants : List Grant} (distinct : (grants.map key).Nodup)
    (known : ∀ grant ∈ grants, key grant ∈ keys)
    (within : ∀ grant ∈ grants, length grant ≤ limit (key grant)) :
    total length grants ≤ ∑ k ∈ keys, limit k := by
  have among : (grants.map key).toFinset ⊆ keys := by
    intro k member
    obtain ⟨grant, inside, rfl⟩ := List.mem_map.mp (List.mem_toFinset.mp member)
    exact known grant inside
  calc total length grants
      ≤ (grants.map fun grant => limit (key grant)).sum := List.sum_le_sum within
    _ = ((grants.map key).map limit).sum := by rw [List.map_map]; rfl
    _ = ∑ k ∈ (grants.map key).toFinset, limit k := (List.sum_toFinset limit distinct).symm
    _ ≤ ∑ k ∈ keys, limit k := Finset.sum_le_sum_of_subset among

/-- A number below `2 ^ 31` is a signed 32-bit number. -/
theorem toInt_ofNat_of_lt {n : Nat} (small : n < 2 ^ 31) :
    (BitVec.ofNat 32 n).toNat = n ∧ (BitVec.ofNat 32 n).toInt = n := by
  have toNat : (BitVec.ofNat 32 n).toNat = n := by
    rw [BitVec.toNat_ofNat, Nat.mod_eq_of_lt (by omega)]
  refine ⟨toNat, ?_⟩
  rw [BitVec.toInt_eq_toNat_of_lt (by omega), toNat]

variable {length}

namespace GrantedAt

variable {grants : List Grant} {grant other : Grant} {start start' : Nat}

/-- A new grant starts where the counter stands. -/
theorem last (grants : List Grant) (grant : Grant) :
    GrantedAt length (grants ++ [grant]) grant (total length grants) :=
  ⟨grants, [], rfl, rfl⟩

/-- Later grants do not move earlier ones. -/
theorem append (granted : GrantedAt length grants grant start) (later : List Grant) :
    GrantedAt length (grants ++ later) grant start := by
  obtain ⟨before, after, rfl, rfl⟩ := granted
  exact ⟨before, after ++ later, by rw [List.append_assoc, List.cons_append], rfl⟩

theorem mem (granted : GrantedAt length grants grant start) : grant ∈ grants := by
  obtain ⟨before, after, rfl, -⟩ := granted
  exact List.mem_append_right _ (List.mem_cons_self ..)

/-- A grant ends before the counter. -/
theorem end_le_total (granted : GrantedAt length grants grant start) :
    start + length grant ≤ total length grants := by
  obtain ⟨before, after, rfl, rfl⟩ := granted
  rw [total_append, total_cons]
  omega

/-- Of two different grants, one ends before the other starts. -/
theorem ordered (granted : GrantedAt length grants grant start)
    (granted' : GrantedAt length grants other start') (different : grant ≠ other) :
    start + length grant ≤ start' ∨ start' + length other ≤ start := by
  obtain ⟨before, after, rfl, rfl⟩ := granted
  obtain ⟨before', after', same, rfl⟩ := granted'
  rcases List.append_eq_append_iff.mp same with ⟨gap, split, rest⟩ | ⟨gap, split, rest⟩
  · rcases List.cons_eq_append_iff.mp rest with ⟨-, head⟩ | ⟨gap', inside, -⟩
    · exact absurd (List.cons.inj head).1.symm different
    · refine Or.inl ?_
      rw [split, inside, total_append, total_cons]
      omega
  · rcases List.cons_eq_append_iff.mp rest with ⟨-, head⟩ | ⟨gap', inside, -⟩
    · exact absurd (List.cons.inj head).1 different
    · refine Or.inr ?_
      rw [split, inside, total_append, total_cons]
      omega

/-- **Two different grants have disjoint ranges.** -/
theorem disjoint (granted : GrantedAt length grants grant start)
    (granted' : GrantedAt length grants other start') (different : grant ≠ other) :
    Disjoint (Set.Ico (start : Int) (start + length grant))
      (Set.Ico (start' : Int) (start' + length other)) := by
  rw [Set.Ico_disjoint_Ico]
  rcases granted.ordered granted' different with first | second
  · exact (min_le_left _ _).trans (le_trans (by exact_mod_cast first) (le_max_right _ _))
  · exact (min_le_right _ _).trans (le_trans (by exact_mod_cast second) (le_max_left _ _))

/-- A counter of 32 bits hands out disjoint ranges while it does not overflow. -/
theorem disjoint_int (small : total length grants < 2 ^ 31)
    (granted : GrantedAt length grants grant start)
    (granted' : GrantedAt length grants other start') (different : grant ≠ other) :
    Disjoint
      (Set.Ico (BitVec.ofNat 32 start).toInt ((BitVec.ofNat 32 start).toInt + length grant))
      (Set.Ico (BitVec.ofNat 32 start').toInt ((BitVec.ofNat 32 start').toInt + length other)) := by
  have within := granted.end_le_total
  have within' := granted'.end_le_total
  rw [(toInt_ofNat_of_lt (by omega : start < 2 ^ 31)).2,
    (toInt_ofNat_of_lt (by omega : start' < 2 ^ 31)).2]
  exact granted.disjoint granted' different

end GrantedAt

end LinuxExercises.Foundations
