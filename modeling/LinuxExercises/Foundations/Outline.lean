import LinuxExercises.Foundations.Forest
import Mathlib.Data.List.DropRight

/-!
# Outlines

An outline of a forest is the list of its nodes in preorder, each with its level. It need not say
who is whose parent: the parent of a node is the last node in front of it that is one level higher,
and a reader who remembers the nodes that lead to the last one finds it (`parents`). For the
traversal of a forest he finds the parents of the forest (`Traversal.parents_eq`).
-/

set_option autoImplicit false

namespace LinuxExercises.Foundations

variable {α β : Type*}

/-- The nodes of an outline with their parents. The path leads from the last node that was read up
to its root. -/
def parents : List α → List (α × Nat) → List (α × Option α)
  | _, [] => []
  | path, (x, n) :: rest =>
    let above := path.rtake n
    (x, above.head?) :: parents (x :: above) rest

theorem parents_map (f : α → β) (path : List α) (outline : List (α × Nat)) :
    parents (path.map f) (outline.map fun (x, n) => (f x, n)) =
      (parents path outline).map fun (x, above) => (f x, above.map f) := by
  induction outline generalizing path with
  | nil => rfl
  | cons entry outline ih =>
      obtain ⟨x, n⟩ := entry
      have above : (path.map f).rtake n = (path.rtake n).map f := by
        simp [List.rtake, List.map_drop]
      rw [List.map_cons, parents, parents, List.map_cons, above, List.head?_map, ← List.map_cons,
        ih]

/-! ## Paths -/

theorem length_rtake {path : List α} {n : Nat} (deep : n ≤ path.length) :
    (path.rtake n).length = n := by
  rw [List.rtake, List.length_drop]
  omega

theorem rtake_length (path : List α) : path.rtake path.length = path := by
  rw [List.rtake, Nat.sub_self, List.drop_zero]

/-- Behind the last element of a longer end is a shorter end. -/
theorem rtake_of_rtake_succ {path above : List α} {x : α} {n : Nat} (deep : n + 1 ≤ path.length)
    (ending : path.rtake (n + 1) = x :: above) : path.rtake n = above := by
  have shorter : path.rtake n = (path.rtake (n + 1)).drop 1 := by
    rw [List.rtake, List.rtake, List.drop_drop]
    congr 1
    omega
  rw [shorter, ending]
  rfl

/-! ## Traversals -/

section Traversal

variable {children : α → List α} {xs : List α} {visited : List (α × Nat)} {n : Nat}
  {IsNode : α → Prop} {parent : α → Option α}

/-- A traversal below the end of a path leaves a path with the same end. -/
theorem Traversal.parents_append
    (ofChild : ∀ x, IsNode x → ∀ c ∈ children x, IsNode c ∧ parent c = some x)
    (walked : Traversal children n xs visited) {path : List α} (deep : n ≤ path.length)
    (below : ∀ x ∈ xs, IsNode x ∧ parent x = (path.rtake n).head?) (rest : List (α × Nat)) :
    ∃ path', n ≤ path'.length ∧ path'.rtake n = path.rtake n ∧
      parents path (visited ++ rest) =
        visited.map (fun (x, _) => (x, parent x)) ++ parents path' rest := by
  induction walked generalizing path rest with
  | nil n => exact ⟨path, deep, rfl, rfl⟩
  | @cons n x xs inner after _ _ ihInner ihAfter =>
      obtain ⟨isNode, isParent⟩ := below x (List.mem_cons_self ..)
      have length := length_rtake deep
      have whole : (x :: path.rtake n).rtake (n + 1) = x :: path.rtake n := by
        have all := rtake_length (x :: path.rtake n)
        rwa [List.length_cons, length] at all
      have kids : ∀ c ∈ children x,
          IsNode c ∧ parent c = ((x :: path.rtake n).rtake (n + 1)).head? := by
        rw [whole]
        exact ofChild x isNode
      obtain ⟨path₁, deep₁, end₁, readInner⟩ :=
        ihInner (by rw [List.length_cons, length]) kids (after ++ rest)
      have endAfter := rtake_of_rtake_succ deep₁ (end₁.trans whole)
      have later : ∀ y ∈ xs, IsNode y ∧ parent y = (path₁.rtake n).head? := by
        rw [endAfter]
        exact fun y member => below y (List.mem_cons_of_mem _ member)
      obtain ⟨path₂, deep₂, end₂, readAfter⟩ := ihAfter (Nat.le_of_succ_le deep₁) later rest
      refine ⟨path₂, deep₂, end₂.trans endAfter, ?_⟩
      rw [List.cons_append, parents, List.append_assoc, readInner, readAfter, ← isParent,
        List.map_cons, List.map_append, List.cons_append, List.append_assoc]

/-- **The parents.** An outline of a forest says the parent of every node. -/
theorem Traversal.parents_eq
    (ofChild : ∀ x, IsNode x → ∀ c ∈ children x, IsNode c ∧ parent c = some x)
    (walked : Traversal children 0 xs visited) (roots : ∀ r ∈ xs, IsNode r ∧ parent r = none) :
    parents [] visited = visited.map fun (x, _) => (x, parent x) := by
  obtain ⟨path, -, -, read⟩ := walked.parents_append ofChild (Nat.zero_le ([] : List α).length)
    (fun r root => by simpa using roots r root) []
  rwa [List.append_nil, parents, List.append_nil] at read

end Traversal

end LinuxExercises.Foundations
