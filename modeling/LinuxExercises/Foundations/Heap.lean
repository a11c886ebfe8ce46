import Mathlib.Data.List.Perm.Basic

/-!
# A heap and the programs on it

A heap has blocks at addresses. `malloc` hands out an address that has not been handed out before,
and a pointer to a block that has been freed leads nowhere: to load, to store or to free there is a
fault, so a program without faults frees each block at most once and uses none afterwards.

What a program does is stated about the blocks that it works on, its footprint, and holds whatever
other blocks there are, which stay as they are (`Triple`). A footprint is a list of blocks, and the
heap is a permutation of the footprint and the rest. The rules are those of a program that returns,
of two programs one after the other (`Triple.bind`), of a larger footprint (`Triple.frame`) and
of the four operations. A fault is stated in the same way (`Faults`).
-/

set_option autoImplicit false

namespace LinuxExercises.Foundations

/-- The blocks of a heap. The addresses from `next` on have not been handed out. -/
structure Heap (Cell : Type*) where
  next : Nat
  cells : List (Nat × Cell)
  distinct : (cells.map Prod.fst).Nodup
  handed : ∀ cell ∈ cells, cell.1 < next

namespace Heap

variable {Cell : Type*}

/-- No block has been handed out. -/
def empty : Heap Cell where
  next := 0
  cells := []
  distinct := List.nodup_nil
  handed := by simp

/-- The block at an address. -/
def load (h : Heap Cell) (a : Nat) : Option Cell :=
  (h.cells.find? fun cell => cell.1 == a).map Prod.snd

/-- The heap with a new block. -/
def malloc (h : Heap Cell) (c : Cell) : Heap Cell where
  next := h.next + 1
  cells := (h.next, c) :: h.cells
  distinct := by
    refine List.nodup_cons.mpr ⟨fun member => ?_, h.distinct⟩
    obtain ⟨cell, inside, same⟩ := List.mem_map.mp member
    exact absurd (h.handed cell inside) (same ▸ Nat.lt_irrefl _)
  handed := by
    intro cell member
    rcases List.mem_cons.mp member with rfl | inside
    · exact Nat.lt_succ_self _
    · exact Nat.lt_succ_of_lt (h.handed cell inside)

/-- A block as it is behind a store at an address. -/
def write (a : Nat) (c : Cell) (cell : Nat × Cell) : Nat × Cell :=
  (cell.1, if cell.1 = a then c else cell.2)

/-- The heap with another block at an address. -/
def store (h : Heap Cell) (a : Nat) (c : Cell) : Heap Cell where
  next := h.next
  cells := h.cells.map (write a c)
  distinct := by
    rw [List.map_map]
    exact h.distinct
  handed := by
    intro cell member
    obtain ⟨before, inside, rfl⟩ := List.mem_map.mp member
    exact h.handed before inside

/-- The heap without the block at an address. -/
def free (h : Heap Cell) (a : Nat) : Heap Cell where
  next := h.next
  cells := h.cells.filter fun cell => cell.1 != a
  distinct := h.distinct.sublist (List.filter_sublist.map _)
  handed := fun cell member => h.handed cell (List.mem_of_mem_filter member)

section Split

variable {h : Heap Cell} {a : Nat} {c d : Cell} {rest : List (Nat × Cell)}

/-- Beside a block there is no other one with its address. -/
theorem other_of_perm (split : h.cells.Perm ((a, c) :: rest)) : ∀ cell ∈ rest, cell.1 ≠ a := by
  intro cell member same
  have distinct := (split.map Prod.fst).nodup_iff.mp h.distinct
  exact (List.nodup_cons.mp distinct).1 (List.mem_map.mpr ⟨cell, member, same⟩)

theorem load_of_perm (split : h.cells.Perm ((a, c) :: rest)) : h.load a = some c := by
  have found : ∃ cell, h.cells.find? (fun cell => cell.1 == a) = some cell := by
    refine Option.isSome_iff_exists.mp (List.find?_isSome.mpr ⟨(a, c), ?_, by simp⟩)
    exact split.mem_iff.mpr (List.mem_cons_self ..)
  obtain ⟨cell, found⟩ := found
  have here : cell.1 = a := by simpa using List.find?_some found
  rw [load, found, Option.map_some]
  rcases List.mem_cons.mp (split.mem_iff.mp (List.mem_of_find?_eq_some found)) with rfl | inside
  · rfl
  · exact absurd here (other_of_perm split cell inside)

theorem store_of_perm (split : h.cells.Perm ((a, c) :: rest)) :
    (h.store a d).cells.Perm ((a, d) :: rest) := by
  have others : rest.map (write a d) = rest := by
    refine (List.map_congr_left fun cell member => ?_).trans (List.map_id rest)
    rw [write, if_neg (other_of_perm split cell member), id_eq]
  have stored := split.map (write a d)
  rw [List.map_cons, others, write, if_pos rfl] at stored
  exact stored

theorem free_of_perm (split : h.cells.Perm ((a, c) :: rest)) : (h.free a).cells.Perm rest := by
  have others : (rest.filter fun cell => cell.1 != a) = rest :=
    List.filter_eq_self.mpr fun cell member => by simpa using other_of_perm split cell member
  have kept := split.filter fun cell => cell.1 != a
  rwa [List.filter_cons_of_neg (by simp), others] at kept

end Split

end Heap

/-- A program on a heap, which returns a value or a fault. -/
abbrev HeapProgram (Cell : Type) (Failure : Type) (α : Type) :=
  StateT (Heap Cell) (Except Failure) α

namespace HeapProgram

variable {Cell Failure α β : Type}

section

-- The fault of a pointer that leads nowhere.
variable (wild : Failure)

def load (a : Nat) : HeapProgram Cell Failure Cell := fun h =>
  match h.load a with
  | some c => .ok (c, h)
  | none => .error wild

def store (a : Nat) (c : Cell) : HeapProgram Cell Failure Unit := fun h =>
  match h.load a with
  | some _ => .ok ((), h.store a c)
  | none => .error wild

def free (a : Nat) : HeapProgram Cell Failure Unit := fun h =>
  match h.load a with
  | some _ => .ok ((), h.free a)
  | none => .error wild

end

def malloc (c : Cell) : HeapProgram Cell Failure Nat := fun h => .ok (h.next, h.malloc c)

def fail (failure : Failure) : HeapProgram Cell Failure α := fun _ => .error failure

end HeapProgram

/-! ## What programs do -/

section

variable {Cell Failure α β : Type}

/-- On any heap with the blocks `pre` the program returns a value, and the blocks that it has then
instead of them are as `post` says. The other blocks are left alone. -/
def Triple (pre : List (Nat × Cell)) (program : HeapProgram Cell Failure α)
    (post : α → List (Nat × Cell) → Prop) : Prop :=
  ∀ (h : Heap Cell) (rest : List (Nat × Cell)), h.cells.Perm (pre ++ rest) →
    ∃ a h' mine, program h = .ok (a, h') ∧ post a mine ∧ h'.cells.Perm (mine ++ rest)

/-- On any heap with the blocks `pre` the program ends in this fault. -/
def Faults (pre : List (Nat × Cell)) (program : HeapProgram Cell Failure α)
    (failure : Failure) : Prop :=
  ∀ (h : Heap Cell) (rest : List (Nat × Cell)), h.cells.Perm (pre ++ rest) →
    program h = .error failure

variable {pre other : List (Nat × Cell)} {first : HeapProgram Cell Failure α}
  {next : α → HeapProgram Cell Failure β} {failure : Failure}

namespace Triple

variable {post post' : α → List (Nat × Cell) → Prop} {last : β → List (Nat × Cell) → Prop}

theorem of_pure_perm {a : α} (same : pre.Perm other) (holds : post a other) :
    Triple pre (pure a : HeapProgram Cell Failure α) post :=
  fun h rest split => ⟨a, h, other, rfl, holds, split.trans (same.append_right rest)⟩

theorem of_pure {a : α} (holds : post a pre) :
    Triple pre (pure a : HeapProgram Cell Failure α) post :=
  of_pure_perm (.refl _) holds

/-- **Two programs one after the other.** -/
theorem bind (one : Triple pre first post)
    (later : ∀ a mine, post a mine → Triple mine (next a) last) :
    Triple pre (first >>= next) last := by
  intro h rest split
  obtain ⟨a, h₁, mine, ran, holds, split₁⟩ := one h rest split
  obtain ⟨b, h₂, mine', ran', holds', split₂⟩ := later a mine holds h₁ rest split₁
  refine ⟨b, h₂, mine', ?_, holds', split₂⟩
  change (first h >>= fun result => next result.1 result.2) = _
  rw [ran]
  exact ran'

/-- **The frame rule.** -/
theorem frame (one : Triple pre first post) (beside : List (Nat × Cell)) :
    Triple (pre ++ beside) first fun a mine => ∃ own, post a own ∧ mine = own ++ beside := by
  intro h rest split
  rw [List.append_assoc] at split
  obtain ⟨a, h₁, mine, ran, holds, split₁⟩ := one h (beside ++ rest) split
  refine ⟨a, h₁, mine ++ beside, ran, ⟨mine, holds, rfl⟩, ?_⟩
  rwa [List.append_assoc]

/-- The order of the blocks does not matter. -/
theorem of_perm (same : other.Perm pre) (one : Triple pre first post) : Triple other first post :=
  fun h rest split => one h rest (split.trans (same.append_right rest))

theorem mono (one : Triple pre first post)
    (weaker : ∀ a mine, post a mine → ∃ mine', mine.Perm mine' ∧ post' a mine') :
    Triple pre first post' := by
  intro h rest split
  obtain ⟨a, h₁, mine, ran, holds, split₁⟩ := one h rest split
  obtain ⟨mine', same, holds'⟩ := weaker a mine holds
  exact ⟨a, h₁, mine', ran, holds', split₁.trans (same.append_right rest)⟩

end Triple

namespace Faults

theorem of_perm (same : other.Perm pre) (fails : Faults pre first failure) :
    Faults other first failure :=
  fun h rest split => fails h rest (split.trans (same.append_right rest))

theorem of_fail : Faults pre (HeapProgram.fail failure : HeapProgram Cell Failure α) failure :=
  fun _ _ _ => rfl

theorem bind_left (fails : Faults pre first failure) : Faults pre (first >>= next) failure := by
  intro h rest split
  change (first h >>= fun result => next result.1 result.2) = _
  rw [fails h rest split]
  rfl

theorem bind_right {post : α → List (Nat × Cell) → Prop} (one : Triple pre first post)
    (fails : ∀ a mine, post a mine → Faults mine (next a) failure) :
    Faults pre (first >>= next) failure := by
  intro h rest split
  obtain ⟨a, h₁, mine, ran, holds, split₁⟩ := one h rest split
  change (first h >>= fun result => next result.1 result.2) = _
  rw [ran]
  exact fails a mine holds h₁ rest split₁

end Faults

/-! ## The operations -/

section Operations

variable {wild : Failure} {a : Nat} {c d : Cell} (before : List (Nat × Cell))
  {after : List (Nat × Cell)}

/-- A block of the footprint and what else there is. -/
theorem perm_split {rest : List (Nat × Cell)} :
    ((before ++ (a, c) :: after) ++ rest).Perm ((a, c) :: (before ++ after ++ rest)) := by
  rw [List.append_assoc, List.cons_append, List.append_assoc]
  exact List.perm_middle

theorem Triple.load : Triple (before ++ (a, c) :: after)
    (HeapProgram.load wild a) fun value mine =>
      value = c ∧ mine = before ++ (a, c) :: after := by
  intro h rest split
  refine ⟨c, h, _, ?_, ⟨rfl, rfl⟩, split⟩
  rw [HeapProgram.load, Heap.load_of_perm (split.trans (perm_split before))]

theorem Triple.load_of_mem (member : (a, c) ∈ pre) : Triple pre
    (HeapProgram.load wild a) fun value mine => value = c ∧ mine = pre := by
  obtain ⟨before, after, rfl⟩ := List.append_of_mem member
  exact Triple.load before

theorem Triple.store : Triple (before ++ (a, c) :: after)
    (HeapProgram.store wild a d) fun _ mine => mine = before ++ (a, d) :: after := by
  intro h rest split
  have here := split.trans (perm_split before)
  refine ⟨(), h.store a d, _, ?_, rfl, (Heap.store_of_perm here).trans (perm_split before).symm⟩
  rw [HeapProgram.store, Heap.load_of_perm here]

theorem Triple.free : Triple (before ++ (a, c) :: after)
    (HeapProgram.free wild a) fun _ mine => mine = before ++ after := by
  intro h rest split
  have here := split.trans (perm_split before)
  refine ⟨(), h.free a, _, ?_, rfl, Heap.free_of_perm here⟩
  rw [HeapProgram.free, Heap.load_of_perm here]

theorem Triple.malloc : Triple pre
    (HeapProgram.malloc c : HeapProgram Cell Failure Nat) fun a mine => mine = (a, c) :: pre :=
  fun h _ split => ⟨h.next, h.malloc c, _, rfl, rfl, split.cons _⟩

end Operations

end

end LinuxExercises.Foundations
