import Mathlib.Data.List.Nodup
import Mathlib.Data.List.Perm.Subperm

/-!
# Forests

Nodes with the lists of their children form a forest below some roots when nobody has two
parents and no root has one. Not all nodes need to be below a root: the others may be in
cycles, or hang below nothing.

A node is below a root on one level only (`Forest.level_unique`), and the nodes on the way
to it are different, so its level is less than the number of nodes (`Forest.level_lt`). A
walk over the children from a root on therefore ends.

Such a walk in preorder gives the nodes with their levels (`Traversal`): each node directly
in front of everything below it, its children in their order. It gives exactly the nodes
that are below the roots (`Traversal.mem_iff`), each once (`Traversal.nodup`).
-/

set_option autoImplicit false

namespace LinuxExercises.Foundations

variable {α : Type*}

/-! ## Descendants -/

/-- The second node is so many levels below the first. -/
inductive Descends (children : α → List α) : Nat → α → α → Prop
  | refl (x : α) : Descends children 0 x x
  | step {n : Nat} {x p c : α} :
      Descends children n x p → c ∈ children p → Descends children (n + 1) x c

namespace Descends

variable {children : α → List α} {n : Nat} {x y c : α}

theorem head (first : c ∈ children x) (below : Descends children n c y) :
    Descends children (n + 1) x y := by
  induction below with
  | refl c => exact .step (.refl x) first
  | step _ last ih => exact .step (ih first) last

theorem exists_head (below : Descends children (n + 1) x y) :
    ∃ c ∈ children x, Descends children n c y := by
  induction n generalizing y with
  | zero =>
      cases below with
      | step start last =>
          cases start
          exact ⟨y, last, .refl y⟩
  | succ n ih =>
      cases below with
      | step before last =>
          obtain ⟨c, first, below⟩ := ih before
          exact ⟨c, first, .step below last⟩

theorem trans {m : Nat} {z : α} (first : Descends children n x y)
    (second : Descends children m y z) : Descends children (n + m) x z := by
  induction second with
  | refl y => exact first
  | step _ last ih => exact .step (ih first) last

end Descends

/-! ## Forests -/

/-- Nodes with their children, and the roots among them. -/
structure Forest (α : Type*) where
  nodes : List α
  roots : List α
  children : α → List α
  roots_sub : ∀ r ∈ roots, r ∈ nodes
  roots_nodup : roots.Nodup
  children_sub : ∀ x ∈ nodes, ∀ c ∈ children x, c ∈ nodes
  children_nodup : ∀ x ∈ nodes, (children x).Nodup
  parent_unique : ∀ x ∈ nodes, ∀ y ∈ nodes, ∀ c, c ∈ children x → c ∈ children y → x = y
  root_orphan : ∀ r ∈ roots, ∀ x ∈ nodes, r ∉ children x

namespace Forest

variable (F : Forest α) {n m : Nat} {r r' x y z : α}

theorem mem_of_descends (member : x ∈ F.nodes) (below : Descends F.children n x y) :
    y ∈ F.nodes := by
  induction below with
  | refl x => exact member
  | step _ last ih => exact F.children_sub _ (ih member) _ last

/-- A node has one ancestor on each level above it. -/
theorem ancestor_unique (first : x ∈ F.nodes) (second : y ∈ F.nodes)
    (belowFirst : Descends F.children n x z) (belowSecond : Descends F.children n y z) :
    x = y := by
  induction n generalizing z with
  | zero =>
      cases belowFirst
      cases belowSecond
      rfl
  | succ n ih =>
      cases belowFirst with
      | step beforeFirst lastFirst =>
          cases belowSecond with
          | step beforeSecond lastSecond =>
              have same := F.parent_unique _ (F.mem_of_descends first beforeFirst) _
                (F.mem_of_descends second beforeSecond) _ lastFirst lastSecond
              exact ih beforeFirst (same ▸ beforeSecond)

/-- A node is below roots on one level only. -/
theorem level_unique (root : r ∈ F.roots) (root' : r' ∈ F.roots)
    (below : Descends F.children n r x) (below' : Descends F.children m r' x) : n = m := by
  induction below generalizing m with
  | refl r =>
      cases below' with
      | refl => rfl
      | step before last =>
          have member := F.mem_of_descends (F.roots_sub _ root') before
          exact absurd last (F.root_orphan _ root _ member)
  | step before last ih =>
      cases below' with
      | refl =>
          exact absurd last
            (F.root_orphan _ root' _ (F.mem_of_descends (F.roots_sub _ root) before))
      | step before' last' =>
          have same := F.parent_unique _ (F.mem_of_descends (F.roots_sub _ root) before) _
            (F.mem_of_descends (F.roots_sub _ root') before') _ last last'
          rw [ih root (same ▸ before')]

/-- The nodes on the way down to a node are different. -/
theorem exists_path (root : r ∈ F.roots) (below : Descends F.children n r x) :
    ∃ path : List α, path.length = n + 1 ∧ path.Nodup ∧
      ∀ y ∈ path, ∃ m, m ≤ n ∧ Descends F.children m r y := by
  induction below with
  | refl r =>
      refine ⟨[r], rfl, List.nodup_singleton r, ?_⟩
      intro y member
      rw [List.mem_singleton.mp member]
      exact ⟨0, Nat.le_refl 0, .refl r⟩
  | @step n r p c before last ih =>
      obtain ⟨path, length, nodup, levels⟩ := ih root
      have below : Descends F.children (n + 1) r c := .step before last
      refine ⟨c :: path, by rw [List.length_cons, length], List.nodup_cons.mpr ⟨?_, nodup⟩, ?_⟩
      · intro member
        obtain ⟨m, above, below'⟩ := levels c member
        have same := F.level_unique root root below below'
        omega
      · intro y member
        rcases List.mem_cons.mp member with rfl | member
        · exact ⟨n + 1, Nat.le_refl _, below⟩
        · obtain ⟨m, above, below'⟩ := levels y member
          exact ⟨m, Nat.le_succ_of_le above, below'⟩

/-- **No level is as high as the number of nodes.** -/
theorem level_lt (root : r ∈ F.roots) (below : Descends F.children n r x) :
    n < F.nodes.length := by
  obtain ⟨path, length, nodup, levels⟩ := F.exists_path root below
  have inside : path ⊆ F.nodes := by
    intro y member
    obtain ⟨m, -, below'⟩ := levels y member
    exact F.mem_of_descends (F.roots_sub r root) below'
  have fewer := (List.subperm_of_subset nodup inside).length_le
  omega

end Forest

/-! ## Preorder -/

/-- The nodes of a list, each with its level and directly in front of everything below it. -/
inductive Traversal (children : α → List α) : Nat → List α → List (α × Nat) → Prop
  | nil (n : Nat) : Traversal children n [] []
  | cons {n : Nat} {x : α} {rest : List α} {inner after : List (α × Nat)} :
      Traversal children (n + 1) (children x) inner → Traversal children n rest after →
      Traversal children n (x :: rest) ((x, n) :: (inner ++ after))

namespace Traversal

variable {children : α → List α} {n m : Nat} {x y : α} {xs ys : List α}
  {visited visited' : List (α × Nat)}

theorem append (first : Traversal children n xs visited)
    (second : Traversal children n ys visited') :
    Traversal children n (xs ++ ys) (visited ++ visited') := by
  induction first with
  | nil n => exact second
  | cons inner _ _ ih =>
      rw [List.cons_append, List.cons_append, List.append_assoc]
      exact .cons inner (ih second)

theorem unique (first : Traversal children n xs visited)
    (second : Traversal children n xs visited') : visited = visited' := by
  induction first generalizing visited' with
  | nil n =>
      cases second
      rfl
  | cons _ _ ihInner ihAfter =>
      cases second with
      | cons inner after => rw [ihInner inner, ihAfter after]

/-- The node itself, and what is below its children. -/
theorem single {inner : List (α × Nat)} (below : Traversal children (n + 1) (children x) inner) :
    Traversal children n [x] ((x, n) :: inner) := by
  have whole := cons below (nil n)
  rwa [List.append_nil] at whole

/-- A traversal gives what is below its nodes. -/
theorem mem_iff (walked : Traversal children n xs visited) :
    (y, m) ∈ visited ↔ ∃ x ∈ xs, ∃ k, Descends children k x y ∧ m = n + k := by
  induction walked with
  | nil n => simp
  | @cons n x rest inner after _ _ ihInner ihAfter =>
      rw [List.mem_cons, List.mem_append, ihInner, ihAfter]
      constructor
      · rintro (here | ⟨c, child, k, below, level⟩ | ⟨z, member, k, below, level⟩)
        · obtain ⟨rfl, rfl⟩ := Prod.mk.inj here
          exact ⟨y, List.mem_cons_self .., 0, .refl y, rfl⟩
        · exact ⟨x, List.mem_cons_self .., k + 1, below.head child, by omega⟩
        · exact ⟨z, List.mem_cons_of_mem _ member, k, below, level⟩
      · rintro ⟨z, member, k, below, rfl⟩
        rcases List.mem_cons.mp member with rfl | member
        · cases k with
          | zero =>
              cases below
              exact .inl rfl
          | succ k =>
              obtain ⟨c, child, below⟩ := below.exists_head
              exact .inr (.inl ⟨c, child, k, below, by omega⟩)
        · exact .inr (.inr ⟨z, member, k, below, rfl⟩)

theorem mem_map_fst_iff (walked : Traversal children n xs visited) :
    y ∈ visited.map Prod.fst ↔ ∃ x ∈ xs, ∃ k, Descends children k x y := by
  rw [List.mem_map]
  constructor
  · rintro ⟨⟨z, m⟩, member, rfl⟩
    obtain ⟨x, inside, k, below, -⟩ := walked.mem_iff.mp member
    exact ⟨x, inside, k, below⟩
  · rintro ⟨x, inside, k, below⟩
    exact ⟨(y, n + k), walked.mem_iff.mpr ⟨x, inside, k, below, rfl⟩, rfl⟩

/-- **Exactly once.** A traversal of different nodes on one level of a forest gives no node
twice. -/
theorem nodup {F : Forest α} (walked : Traversal F.children n xs visited) (different : xs.Nodup)
    (level : ∀ x ∈ xs, ∃ r ∈ F.roots, Descends F.children n r x) :
    (visited.map Prod.fst).Nodup := by
  induction walked with
  | nil n => exact List.nodup_nil
  | @cons n x rest inner after walkedInner walkedAfter ihInner ihAfter =>
      obtain ⟨notLater, different⟩ := List.nodup_cons.mp different
      obtain ⟨r, root, below⟩ := level x (List.mem_cons_self ..)
      have node := F.mem_of_descends (F.roots_sub r root) below
      have levelAfter := fun z member => level z (List.mem_cons_of_mem _ member)
      have nodupInner := ihInner (F.children_nodup x node) fun c child =>
        ⟨r, root, .step below child⟩
      -- What is below another node of the list on some level is on that level below the list's.
      have apart : ∀ y k, Descends F.children k x y → ∀ z ∈ rest, ∀ l,
          ¬ Descends F.children l z y := by
        intro y k belowX z member l belowZ
        obtain ⟨r', root', below'⟩ := levelAfter z member
        have same := F.level_unique root root' (below.trans belowX) (below'.trans belowZ)
        obtain rfl : k = l := by omega
        have node' := F.mem_of_descends (F.roots_sub r' root') below'
        exact notLater (F.ancestor_unique node node' belowX belowZ ▸ member)
      rw [List.map_cons, List.map_append, List.nodup_cons, List.mem_append]
      refine ⟨?_, List.nodup_append.mpr ⟨nodupInner, ihAfter different levelAfter, ?_⟩⟩
      · rintro (member | member)
        · obtain ⟨c, child, k, belowC⟩ := walkedInner.mem_map_fst_iff.mp member
          have same := F.level_unique root root below (below.trans (belowC.head child))
          omega
        · obtain ⟨z, inside, l, belowZ⟩ := walkedAfter.mem_map_fst_iff.mp member
          exact apart x 0 (.refl x) z inside l belowZ
      · rintro y inInner _ inAfter rfl
        obtain ⟨c, child, k, belowC⟩ := walkedInner.mem_map_fst_iff.mp inInner
        obtain ⟨z, inside, l, belowZ⟩ := walkedAfter.mem_map_fst_iff.mp inAfter
        exact apart y (k + 1) (belowC.head child) z inside l belowZ

end Traversal

end LinuxExercises.Foundations
