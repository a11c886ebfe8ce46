import Mathlib.Data.List.Nodup
import LinuxExercises.Foundations.Buffer

/-!
# The tree of processes: parents and children

`draw_pid_tree` has a list of nodes, one for each process of its snapshot, and links them: for
every node it looks for the node of the parent and appends a pointer to the `children` of that
node. `children` is an array of `SIZE` pointers that ends with a NULL. To append, the loop
goes to the NULL, stores the pointer there and a NULL behind it, and looks at no bound. What
`malloc` has left in the array is a parameter.

The node of the parent is found by its pid, so with different pids the array of a node holds
its children, in the order of the snapshot (`Linked`). The NULL behind them needs a place of
its own: linking stays inside of the arrays exactly when no process of the snapshot has `SIZE`
children in it (`linksInBounds_iff`).
-/

set_option autoImplicit false

namespace LinuxExercises.ProcessTree

open Foundations

/-- Size of the arrays of a node. -/
abbrev SIZE : Nat := 512

/-- A process of the snapshot. -/
structure Entry where
  pid : Int
  ppid : Int
  name : List Byte
deriving Repr, DecidableEq

/-- `struct node`. A pointer to a node is its position in the list, and the array of pointers
is followed by the name. -/
structure Node where
  parent : Option Nat
  children : Vector (Option Nat) SIZE
  data : List Byte
  pid : Int
  ppid : Int

/-! ## The code -/

/-- A node as the first loop of `main` leaves it. -/
def newNode (junk : Vector (Option Nat) SIZE) (e : Entry) : Node where
  parent := none
  children := junk.set 0 none
  data := e.name
  pid := e.pid
  ppid := e.ppid

/-- The list of nodes, from `head` on. -/
def newNodes (junk : Nat → Vector (Option Nat) SIZE) (snapshot : List Entry) : List Node :=
  snapshot.mapIdx fun k e => newNode (junk k) e

/-- `find_parent`. -/
def findParent (nodes : List Node) (pid : Int) : Option Nat := nodes.findIdx? (·.pid = pid)

/-- The loop `while (parent->children[child++] != NULL)`: the index of the NULL. -/
def firstNull : List (Option Nat) → Except Fault Nat
  | [] => .error .outOfBounds
  | none :: _ => .ok 0
  | some _ :: rest => do
    let child ← firstNull rest
    .ok (child + 1)

/-- A store into `children`. -/
def storeChild (children : Vector (Option Nat) SIZE) (child : Nat) (pointer : Option Nat) :
    Except Fault (Vector (Option Nat) SIZE) :=
  if within : child < SIZE then .ok (children.set child pointer) else .error .outOfBounds

/-- A node is appended to `children`. -/
def addChild (children : Vector (Option Nat) SIZE) (newNode : Nat) :
    Except Fault (Vector (Option Nat) SIZE) := do
  let child ← firstNull children.toList
  let children ← storeChild children child (some newNode)
  storeChild children (child + 1) none

/-- One round of the loop that links parents and children. -/
def linkNode (nodes : List Node) (newNode : Nat) : Except Fault (List Node) :=
  match nodes[newNode]? with
  | none => .error .outOfBounds
  | some node =>
    match findParent nodes node.ppid with
    | none => .ok nodes
    | some parent => do
      let nodes := nodes.modify newNode fun n => { n with parent := some parent }
      match nodes[parent]? with
      | none => .error .outOfBounds
      | some p => do
        let children ← addChild p.children newNode
        .ok (nodes.set parent { p with children := children })

/-- The loop over the list. -/
def link (nodes : List Node) : Except Fault (List Node) :=
  (List.range' 0 nodes.length).foldlM linkNode nodes

/-- Linking makes no access outside of an array, and leaves the other fields of the nodes as
they are. -/
def LinksInBounds (junk : Nat → Vector (Option Nat) SIZE) (snapshot : List Entry) : Prop :=
  ∃ nodes, link (newNodes junk snapshot) = .ok nodes ∧
    nodes.map (fun n => (n.data, n.pid, n.ppid)) =
      snapshot.map fun e => (e.name, e.pid, e.ppid)

/-! ## The array of children -/

/-- The array holds these pointers and a NULL behind them. -/
def Holds (children : Vector (Option Nat) SIZE) (kids : List Nat) : Prop :=
  ∃ rest, children.toList = kids.map some ++ none :: rest

theorem firstNull_eq (kids : List Nat) (rest : List (Option Nat)) :
    firstNull (kids.map some ++ none :: rest) = .ok kids.length := by
  induction kids with
  | nil => rfl
  | cons kid kids ih =>
      rw [List.map_cons, List.cons_append, firstNull, ih]
      rfl

theorem holds_newNode (junk : Vector (Option Nat) SIZE) (e : Entry) :
    Holds (newNode junk e).children [] := by
  have size : junk.toList.length = SIZE := Vector.length_toList
  rw [Holds, newNode, Vector.toList_set]
  cases whole : junk.toList with
  | nil =>
      rw [whole] at size
      cases size
  | cons first rest => exact ⟨rest, rfl⟩

section AddChild

variable {children : Vector (Option Nat) SIZE} {kids : List Nat}

/-- The NULL has a place in the array. -/
theorem Holds.length_lt (holds : Holds children kids) : kids.length < SIZE := by
  obtain ⟨rest, whole⟩ := holds
  have size : children.toList.length = SIZE := Vector.length_toList
  rw [whole, List.length_append, List.length_map, List.length_cons] at size
  omega

/-- The pointer is stored over the NULL, and a NULL behind it. -/
theorem addChild_fits (holds : Holds children kids) (room : kids.length + 1 < SIZE)
    (newNode : Nat) :
    ∃ result, addChild children newNode = .ok result ∧ Holds result (kids ++ [newNode]) := by
  have size : children.toList.length = SIZE := Vector.length_toList
  obtain ⟨rest, whole⟩ := holds
  rw [whole, List.length_append, List.length_map, List.length_cons] at size
  obtain ⟨behind, rest, rfl⟩ := List.exists_cons_of_ne_nil
    (List.ne_nil_of_length_pos (by omega : 0 < rest.length))
  refine ⟨(children.set kids.length (some newNode)).set (kids.length + 1) none, ?_, rest, ?_⟩
  · rw [addChild, whole, firstNull_eq, ok_bind, storeChild, dif_pos (by omega), ok_bind,
      storeChild, dif_pos room]
  · rw [Vector.toList_set, Vector.toList_set, whole]
    simp

/-- Without a place for the second store it is outside of the array. -/
theorem addChild_full (holds : Holds children kids) (full : kids.length + 1 = SIZE)
    (newNode : Nat) : addChild children newNode = .error .outOfBounds := by
  obtain ⟨rest, whole⟩ := holds
  rw [addChild, whole, firstNull_eq, ok_bind, storeChild, dif_pos (by omega), ok_bind, storeChild,
    dif_neg (by omega)]

end AddChild

/-! ## The loop -/

/-- The processes of a list that name this one as their parent. -/
def childrenOf (entries : List Entry) (e : Entry) : List Entry :=
  entries.filter fun c => c.ppid = e.pid

/-- The node of a process, when the nodes of a part of the snapshot have been linked. -/
structure Represents (snapshot linked : List Entry) (e : Entry) (n : Node) : Prop where
  data : n.data = e.name
  pid : n.pid = e.pid
  ppid : n.ppid = e.ppid
  kids : ∃ kids, Holds n.children kids ∧
    kids.map (snapshot[·]?) = (childrenOf linked e).map some

/-- The nodes of the snapshot, when those of a part of it have been linked. -/
structure Linked (snapshot linked : List Entry) (nodes : List Node) : Prop where
  length : nodes.length = snapshot.length
  node : ∀ {i : Nat} {e : Entry}, snapshot[i]? = some e →
    ∃ n, nodes[i]? = some n ∧ Represents snapshot linked e n

theorem linked_newNodes (junk : Nat → Vector (Option Nat) SIZE) (snapshot : List Entry) :
    Linked snapshot [] (newNodes junk snapshot) where
  length := List.length_mapIdx
  node := by
    intro i e at_i
    refine ⟨newNode (junk i) e, ?_, rfl, rfl, rfl, [], holds_newNode _ _, rfl⟩
    rw [newNodes, List.getElem?_mapIdx, at_i, Option.map_some]

section Loop

variable {snapshot linked : List Entry} {nodes : List Node}

/-- The number of children that an array can hold is less than its size. -/
theorem Represents.length_lt {e : Entry} {n : Node} (node : Represents snapshot linked e n) :
    (childrenOf linked e).length < SIZE := by
  obtain ⟨kids, holds, same⟩ := node.kids
  have length := congrArg List.length same
  rw [List.length_map, List.length_map] at length
  exact length ▸ holds.length_lt

/-- The nodes have the names and numbers of the snapshot. -/
theorem Linked.fields (nodesOf : Linked snapshot linked nodes) :
    nodes.map (fun n => (n.data, n.pid, n.ppid)) =
      snapshot.map fun e => (e.name, e.pid, e.ppid) := by
  apply List.ext_getElem?
  intro i
  rw [List.getElem?_map, List.getElem?_map]
  cases at_i : snapshot[i]? with
  | none =>
      have behind := List.getElem?_eq_none_iff.mp at_i
      rw [List.getElem?_eq_none (nodesOf.length ▸ behind)]
      rfl
  | some e =>
      obtain ⟨n, found, node⟩ := nodesOf.node at_i
      rw [found, Option.map_some, Option.map_some, node.data, node.pid, node.ppid]

/-- `find_parent` finds the process with the pid. -/
theorem findParent_eq_some (nodesOf : Linked snapshot linked nodes) {pid : Int} {i : Nat}
    (found : findParent nodes pid = some i) : ∃ p, snapshot[i]? = some p ∧ p.pid = pid := by
  obtain ⟨within, same, -⟩ := List.findIdx?_eq_some_iff_getElem.mp found
  have inside : i < snapshot.length := nodesOf.length ▸ within
  refine ⟨snapshot[i], List.getElem?_eq_getElem inside, ?_⟩
  obtain ⟨n, at_i, node⟩ := nodesOf.node (List.getElem?_eq_getElem inside)
  rw [List.getElem?_eq_getElem within] at at_i
  cases at_i
  rw [← node.pid]
  simpa using same

theorem findParent_eq_none (nodesOf : Linked snapshot linked nodes) {pid : Int}
    (missed : findParent nodes pid = none) : ∀ p ∈ snapshot, p.pid ≠ pid := by
  intro p member same
  obtain ⟨i, at_i⟩ := List.mem_iff_getElem?.mp member
  obtain ⟨n, found, node⟩ := nodesOf.node at_i
  have differs := List.findIdx?_eq_none_iff.mp missed n (List.mem_of_getElem? found)
  rw [node.pid, same] at differs
  simp at differs

/-- Different processes have different pids. -/
theorem index_unique (distinct : (snapshot.map Entry.pid).Nodup) {i j : Nat} {p q : Entry}
    (at_i : snapshot[i]? = some p) (at_j : snapshot[j]? = some q) (same : p.pid = q.pid) :
    i = j := by
  have within := (List.getElem?_eq_some_iff.mp at_i).1
  apply (List.getElem?_inj (by rwa [List.length_map]) distinct).mp
  rw [List.getElem?_map, List.getElem?_map, at_i, at_j, Option.map_some, Option.map_some, same]

theorem childrenOf_append (linked : List Entry) (e p : Entry) :
    childrenOf (linked ++ [e]) p =
      if e.ppid = p.pid then childrenOf linked p ++ [e] else childrenOf linked p := by
  rw [childrenOf, childrenOf, List.filter_append]
  split <;> simp_all

/-- A process whose parent is another one adds nothing to this node. -/
theorem Represents.other {p e : Entry} {n : Node} (node : Represents snapshot linked p n)
    (different : e.ppid ≠ p.pid) : Represents snapshot (linked ++ [e]) p n where
  data := node.data
  pid := node.pid
  ppid := node.ppid
  kids := by
    rw [childrenOf_append, if_neg different]
    exact node.kids

/-- The pointer to the parent is stored. -/
theorem Linked.setParent (nodesOf : Linked snapshot linked nodes) (k parent : Nat) :
    Linked snapshot linked (nodes.modify k fun n => { n with parent := some parent }) where
  length := (List.length_modify ..).trans nodesOf.length
  node := by
    intro i e at_i
    obtain ⟨n, found, node⟩ := nodesOf.node at_i
    rw [List.getElem?_modify, found]
    by_cases here : k = i
    · exact ⟨{ n with parent := some parent }, by simp [here], node.data, node.pid, node.ppid,
        node.kids⟩
    · exact ⟨n, by simp [here], node⟩

/-- The pointer to a child is stored in the node of its parent. -/
theorem Linked.setChildren (nodesOf : Linked snapshot linked nodes)
    (distinct : (snapshot.map Entry.pid).Nodup) {parent : Nat} {p e : Entry} {n : Node}
    (at_parent : snapshot[parent]? = some p) (found : nodes[parent]? = some n)
    (isParent : e.ppid = p.pid) (node : Represents snapshot linked p n)
    {children : Vector (Option Nat) SIZE} {kids : List Nat} (holds : Holds children kids)
    (same : kids.map (snapshot[·]?) = (childrenOf linked p ++ [e]).map some) :
    Linked snapshot (linked ++ [e]) (nodes.set parent { n with children := children }) where
  length := List.length_set.trans nodesOf.length
  node := by
    intro i f at_i
    by_cases here : parent = i
    · subst here
      cases at_parent.symm.trans at_i
      have within := (List.getElem?_eq_some_iff.mp found).1
      refine ⟨_, List.getElem?_set_self within, node.data, node.pid, node.ppid, kids, holds, ?_⟩
      rw [same, childrenOf_append, if_pos isParent]
    · obtain ⟨m, found, node⟩ := nodesOf.node at_i
      rw [List.getElem?_set_ne here]
      refine ⟨m, found, node.other fun isParent' => here ?_⟩
      exact index_unique distinct at_parent at_i (isParent.symm.trans isParent')

/-- **One round** links the next node, or the array of its parent is full. -/
theorem Linked.round (nodesOf : Linked snapshot linked nodes)
    (distinct : (snapshot.map Entry.pid).Nodup) {e : Entry} {rest : List Entry}
    (split : snapshot = linked ++ e :: rest) :
    (∃ nodes', linkNode nodes linked.length = .ok nodes' ∧
      Linked snapshot (linked ++ [e]) nodes') ∨
    (linkNode nodes linked.length = .error .outOfBounds ∧
      ∃ p ∈ snapshot, SIZE ≤ (childrenOf (linked ++ [e]) p).length) := by
  have at_e : snapshot[linked.length]? = some e := by
    rw [split, List.getElem?_append_right (Nat.le_refl _), Nat.sub_self]
    rfl
  obtain ⟨n, found, node⟩ := nodesOf.node at_e
  rw [linkNode, found]
  dsimp only
  rw [node.ppid]
  cases search : findParent nodes e.ppid with
  | none =>
      have missed := findParent_eq_none nodesOf search
      refine .inl ⟨nodes, rfl, nodesOf.length, ?_⟩
      intro i f at_i
      obtain ⟨m, found, node⟩ := nodesOf.node at_i
      exact ⟨m, found, node.other fun same => missed f (List.mem_of_getElem? at_i) same.symm⟩
  | some parent =>
      obtain ⟨p, at_parent, same⟩ := findParent_eq_some nodesOf search
      have later := nodesOf.setParent linked.length parent
      obtain ⟨m, found', node'⟩ := later.node at_parent
      obtain ⟨kids, holds, sameKids⟩ := node'.kids
      have length := congrArg List.length sameKids
      rw [List.length_map, List.length_map] at length
      dsimp only
      rw [found']
      dsimp only
      by_cases room : kids.length + 1 < SIZE
      · obtain ⟨children, added, holds'⟩ := addChild_fits holds room linked.length
        rw [added, ok_bind]
        refine .inl ⟨_, rfl, later.setChildren distinct at_parent found' same.symm node' holds' ?_⟩
        rw [List.map_append, sameKids, List.map_append, List.map_singleton, at_e]
        rfl
      · have full : kids.length + 1 = SIZE := by
          have below := holds.length_lt
          omega
        rw [addChild_full holds full]
        refine .inr ⟨rfl, p, List.mem_of_getElem? at_parent, ?_⟩
        rw [childrenOf_append, if_pos same.symm, List.length_append, List.length_singleton]
        omega

/-- The rest of the loop. -/
theorem Linked.rounds (distinct : (snapshot.map Entry.pid).Nodup) {rest : List Entry}
    (nodesOf : Linked snapshot linked nodes) (split : snapshot = linked ++ rest) :
    (∃ nodes', (List.range' linked.length rest.length).foldlM linkNode nodes = .ok nodes' ∧
      Linked snapshot snapshot nodes') ∨
    ((List.range' linked.length rest.length).foldlM linkNode nodes = .error .outOfBounds ∧
      ∃ p ∈ snapshot, SIZE ≤ (childrenOf snapshot p).length) := by
  induction rest generalizing linked nodes with
  | nil =>
      rw [List.append_nil] at split
      exact .inl ⟨nodes, rfl, split ▸ nodesOf⟩
  | cons e rest ih =>
      have split' : snapshot = linked ++ [e] ++ rest := by
        rw [split, List.append_assoc, List.singleton_append]
      rw [List.length_cons, List.range'_succ, List.foldlM_cons]
      rcases nodesOf.round distinct split with
        ⟨nodes', linkedOne, nodesOf'⟩ | ⟨full, p, member, more⟩
      · have later := ih nodesOf' split'
        rw [List.length_append, List.length_singleton] at later
        rw [linkedOne, ok_bind]
        exact later
      · refine .inr ⟨by rw [full]; rfl, p, member, Nat.le_trans more ?_⟩
        rw [split', childrenOf, childrenOf, List.filter_append (linked ++ [e]), List.length_append]
        exact Nat.le_add_right ..

end Loop

/-- The loop over the list links all nodes, or some process has too many children. -/
theorem link_cases {snapshot : List Entry} (distinct : (snapshot.map Entry.pid).Nodup)
    (junk : Nat → Vector (Option Nat) SIZE) :
    (∃ nodes, link (newNodes junk snapshot) = .ok nodes ∧ Linked snapshot snapshot nodes) ∨
    (link (newNodes junk snapshot) = .error .outOfBounds ∧
      ∃ p ∈ snapshot, SIZE ≤ (childrenOf snapshot p).length) := by
  have start := linked_newNodes junk snapshot
  rw [link, start.length]
  exact start.rounds distinct (List.nil_append snapshot).symm

/-- A process with too many children leads out of its array. -/
theorem not_linksInBounds_of_many {snapshot : List Entry}
    (distinct : (snapshot.map Entry.pid).Nodup) (junk : Nat → Vector (Option Nat) SIZE)
    {p : Entry} (member : p ∈ snapshot) (many : SIZE ≤ (childrenOf snapshot p).length) :
    ¬ LinksInBounds junk snapshot := by
  rintro ⟨nodes, linked, -⟩
  rcases link_cases distinct junk with ⟨nodes', -, nodesOf⟩ | ⟨full, -⟩
  · obtain ⟨i, at_i⟩ := List.mem_iff_getElem?.mp member
    obtain ⟨n, -, node⟩ := nodesOf.node at_i
    exact absurd node.length_lt (Nat.not_lt_of_le many)
  · rw [linked] at full
    cases full

/-- **The arrays of children.** Linking stays inside of the arrays, and leaves the names and
numbers of the nodes as they are, exactly when no process of the snapshot is named as the
parent by `SIZE` of them. -/
theorem linksInBounds_iff {snapshot : List Entry} (distinct : (snapshot.map Entry.pid).Nodup)
    (junk : Nat → Vector (Option Nat) SIZE) :
    LinksInBounds junk snapshot ↔
      ∀ p ∈ snapshot, (snapshot.countP fun c => c.ppid = p.pid) < SIZE := by
  simp only [List.countP_eq_length_filter]
  constructor
  · intro inBounds p member
    by_contra many
    exact not_linksInBounds_of_many distinct junk member (Nat.le_of_not_lt many) inBounds
  · intro few
    rcases link_cases distinct junk with ⟨nodes, linked, nodesOf⟩ | ⟨-, p, member, more⟩
    · exact ⟨nodes, linked, nodesOf.fields⟩
    · exact absurd (few p member) (Nat.not_lt_of_le more)

/-- A process with one child. -/
def parentAndChild : List Entry := [⟨1, 0, [97]⟩, ⟨2, 1, [98]⟩]

theorem linksInBounds_iff_parentAndChild :
    LinksInBounds (fun _ => Vector.replicate SIZE none) parentAndChild ↔
      ∀ p ∈ parentAndChild, (parentAndChild.countP fun c => c.ppid = p.pid) < SIZE :=
  linksInBounds_iff (by decide) _

/-- The child with this number of a process with pid 1. -/
def childOfOne (k : Nat) : Entry := ⟨Int.ofNat k + 2, 1, [98]⟩

/-- A process with `SIZE` children. -/
def manyChildren : List Entry := ⟨1, 0, [97]⟩ :: (List.range SIZE).map childOfOne

theorem not_linksInBounds :
    (manyChildren.map Entry.pid).Nodup ∧
      ¬ LinksInBounds (fun _ => Vector.replicate SIZE none) manyChildren := by
  have distinct : (manyChildren.map Entry.pid).Nodup := by
    rw [manyChildren, List.map_cons, List.map_map, List.nodup_cons]
    constructor
    · intro member
      obtain ⟨k, -, same⟩ := List.mem_map.mp member
      have number : (k : Int) + 2 = 1 := same
      omega
    · refine List.Nodup.map ?_ List.nodup_range
      intro k l same
      have numbers : (k : Int) + 2 = (l : Int) + 2 := same
      omega
  refine ⟨distinct, not_linksInBounds_of_many distinct _ (List.mem_cons_self ..) ?_⟩
  have all : childrenOf manyChildren ⟨1, 0, [97]⟩ = (List.range SIZE).map childOfOne := by
    rw [manyChildren, childrenOf, List.filter_cons_of_neg (by decide), List.filter_eq_self]
    intro c member
    obtain ⟨k, -, rfl⟩ := List.mem_map.mp member
    rfl
  rw [all, List.length_map, List.length_range]

end LinuxExercises.ProcessTree
