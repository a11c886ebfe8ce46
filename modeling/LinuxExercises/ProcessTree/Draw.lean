import LinuxExercises.Foundations.Forest
import LinuxExercises.Foundations.Formatting
import LinuxExercises.ProcessTree.Link

/-!
# The tree of processes: the drawing

`draw_pid_tree` calls `print_tree` on the nodes whose ppid is 0. `print_tree` writes the line of
a node and calls itself on the `children` of the node up to the NULL. It does not look whether
it has been at a node before.

The snapshot need not be a tree: a ppid may be that of no process in it, and ppids may lead in
a circle. But with different pids that are positive, the processes below those with ppid 0 are
a forest (`forest`), and nothing else is reached. So `print_tree` ends, and writes exactly the
processes from which the ppids lead to a 0, each once, at its level and in preorder
(`draw_spec`).
-/

set_option autoImplicit false

namespace LinuxExercises.ProcessTree

open Foundations

/-! ## The code -/

/-- The line of a node. -/
def line (treeLevel : Nat) (data : List Byte) (pid : Int) : List Byte :=
  (List.replicate treeLevel (literal "   ")).flatten ++
    (if 0 < treeLevel then literal "|-" else []) ++
    data ++ literal "(" ++ formatInt pid ++ literal ")\n"

/-- The loop over `children` in `print_tree`. -/
def printChildren (print : Nat → Except Fault (List Byte)) :
    List (Option Nat) → Except Fault (List Byte)
  | [] => .error .outOfBounds
  | none :: _ => .ok []
  | some child :: rest => do
    let block ← print child
    let blocks ← printChildren print rest
    .ok (block ++ blocks)

/-- `print_tree`. -/
def printTree (nodes : List Node) : Nat → Nat → Nat → Except Fault (List Byte)
  | 0, _, _ => .error .outOfFuel
  | fuel + 1, root, treeLevel =>
    match nodes[root]? with
    | none => .error .outOfBounds
    | some node => do
      let blocks ← printChildren (fun child => printTree nodes fuel child (treeLevel + 1))
        node.children.toList
      .ok (line treeLevel node.data node.pid ++ blocks)

/-- The loop that draws the roots. -/
def printRoots (nodes : List Node) (fuel : Nat) : List Nat → Except Fault (List Byte)
  | [] => .ok []
  | newNode :: rest =>
    match nodes[newNode]? with
    | none => .error .outOfBounds
    | some node => do
      let block ← if node.ppid = 0 then printTree nodes fuel newNode 0 else .ok []
      let blocks ← printRoots nodes fuel rest
      .ok (block ++ blocks)

/-- `main` behind the loop over `/proc`: what is written to the standard output. -/
def draw (junk : Nat → Vector (Option Nat) SIZE) (snapshot : List Entry) (fuel : Nat) :
    Except Fault (List Byte) := do
  let nodes ← link (newNodes junk snapshot)
  printRoots nodes fuel (List.range' 0 nodes.length)

/-! ## What is to be drawn -/

/-- Following the ppid of a process so many times within the snapshot leads to a process with
ppid 0. -/
inductive LeadsToRoot (snapshot : List Entry) : Nat → Entry → Prop
  | root {e : Entry} : e ∈ snapshot → e.ppid = 0 → LeadsToRoot snapshot 0 e
  | up {n : Nat} {e p : Entry} :
      e ∈ snapshot → p ∈ snapshot → e.ppid = p.pid → LeadsToRoot snapshot n p →
      LeadsToRoot snapshot (n + 1) e

/-- The processes with ppid 0. -/
def rootsOf (snapshot : List Entry) : List Entry := snapshot.filter fun e => e.ppid = 0

/-- What is to stand for a process: the name, and the pid in parentheses. -/
def label (name : List Byte) (pid : Int) : List Byte :=
  name ++ 40 :: (formatInt pid ++ [41, newline])

/-- The line of a process at a level. Below the roots it is indented by three spaces for each
level, and begins with `|-`. -/
def shown (e : Entry) : Nat → List Byte
  | 0 => label e.name e.pid
  | n + 1 => List.replicate (3 * (n + 1)) 32 ++ 124 :: 45 :: label e.name e.pid

/-- The lines of processes with their levels. -/
def drawing (printed : List (Entry × Nat)) : List Byte :=
  printed.flatMap fun (e, treeLevel) => shown e treeLevel

/-- What `print_tree` is to write for all roots: exactly the processes that lead to one, each
once, at its level, and in preorder with the children in the order of the snapshot. -/
structure Drawn (snapshot : List Entry) (printed : List (Entry × Nat)) : Prop where
  exactly : ∀ e n, (e, n) ∈ printed ↔ LeadsToRoot snapshot n e
  once : (printed.map Prod.fst).Nodup
  inPreorder : Traversal (childrenOf snapshot) 0 (rootsOf snapshot) printed

/-! ## The forest below the roots -/

theorem mem_childrenOf {snapshot : List Entry} {e c : Entry} :
    c ∈ childrenOf snapshot e ↔ c ∈ snapshot ∧ c.ppid = e.pid := by
  rw [childrenOf, List.mem_filter, decide_eq_true_eq]

theorem mem_rootsOf {snapshot : List Entry} {e : Entry} :
    e ∈ rootsOf snapshot ↔ e ∈ snapshot ∧ e.ppid = 0 := by
  rw [rootsOf, List.mem_filter, decide_eq_true_eq]

/-- The processes of a snapshot. -/
def forest (snapshot : List Entry) (distinct : (snapshot.map Entry.pid).Nodup)
    (positive : ∀ e ∈ snapshot, 0 < e.pid) : Forest Entry where
  nodes := snapshot
  roots := rootsOf snapshot
  children := childrenOf snapshot
  roots_sub := fun _ member => (mem_rootsOf.mp member).1
  roots_nodup := distinct.of_map.filter _
  children_sub := fun _ _ _ member => (mem_childrenOf.mp member).1
  children_nodup := fun _ _ => distinct.of_map.filter _
  parent_unique := by
    intro x memberX y memberY c ofX ofY
    have same := (mem_childrenOf.mp ofX).2.symm.trans (mem_childrenOf.mp ofY).2
    exact List.inj_on_of_nodup_map distinct memberX memberY same
  root_orphan := by
    intro r root x memberX child
    have same := (mem_childrenOf.mp child).2.symm.trans (mem_rootsOf.mp root).2
    have above := positive x memberX
    omega

theorem leadsToRoot_iff {snapshot : List Entry} {n : Nat} {e : Entry} :
    LeadsToRoot snapshot n e ↔ ∃ r ∈ rootsOf snapshot, Descends (childrenOf snapshot) n r e := by
  constructor
  · intro leads
    induction leads with
    | root member isRoot => exact ⟨_, mem_rootsOf.mpr ⟨member, isRoot⟩, .refl _⟩
    | up member _ isParent _ ih =>
        obtain ⟨r, root, below⟩ := ih
        exact ⟨r, root, .step below (mem_childrenOf.mpr ⟨member, isParent⟩)⟩
  · rintro ⟨r, root, below⟩
    induction below with
    | refl r =>
        obtain ⟨member, isRoot⟩ := mem_rootsOf.mp root
        exact .root member isRoot
    | @step n r p c before child ih =>
        obtain ⟨member, isParent⟩ := mem_childrenOf.mp child
        have leads := ih root
        refine .up member ?_ isParent leads
        cases leads with
        | root member _ => exact member
        | up member _ _ _ => exact member

/-! ## Printing -/

theorem indentation (treeLevel : Nat) :
    (List.replicate treeLevel (literal "   ")).flatten = List.replicate (3 * treeLevel) 32 := by
  have three : literal "   " = List.replicate 3 32 := rfl
  rw [three, List.flatten_replicate_replicate, Nat.mul_comm]

/-- `printf` writes the line that is to stand for a process. -/
theorem line_eq_shown (e : Entry) (treeLevel : Nat) :
    line treeLevel e.name e.pid = shown e treeLevel := by
  cases treeLevel with
  | zero => simp [line, shown, label, literal, newline]
  | succ n =>
      rw [line, indentation, if_pos (Nat.succ_pos n), shown]
      simp [label, literal, newline]

section Print

variable {snapshot : List Entry} {nodes : List Node}

/-- The loop over an array of children, when each of them is printed. -/
theorem printChildren_eq {print : Nat → Except Fault (List Byte)} {n : Nat}
    (rest : List (Option Nat)) {kids : List Nat} {entries : List Entry}
    (same : kids.map (snapshot[·]?) = entries.map some)
    (prints : ∀ kid e, e ∈ entries → snapshot[kid]? = some e →
      ∃ printed, Traversal (childrenOf snapshot) n [e] printed ∧
        print kid = .ok (drawing printed)) :
    ∃ printed, Traversal (childrenOf snapshot) n entries printed ∧
      printChildren print (kids.map some ++ none :: rest) = .ok (drawing printed) := by
  induction kids generalizing entries with
  | nil =>
      obtain rfl := List.map_eq_nil_iff.mp same.symm
      exact ⟨[], .nil n, rfl⟩
  | cons kid kids ih =>
      cases entries with
      | nil => cases same
      | cons e entries =>
          obtain ⟨found, same⟩ := List.cons.inj same
          obtain ⟨block, walked, printedOne⟩ := prints kid e (List.mem_cons_self ..) found
          obtain ⟨blocks, walkedRest, printedRest⟩ :=
            ih same fun kid e member => prints kid e (List.mem_cons_of_mem _ member)
          refine ⟨block ++ blocks, walked.append walkedRest, ?_⟩
          rw [List.map_cons, List.cons_append, printChildren, printedOne, ok_bind, printedRest,
            ok_bind, drawing, drawing, drawing, List.flatMap_append]

/-- **One tree.** On a budget that is more than the levels below a process, `print_tree` writes
the process and everything below it. -/
theorem printTree_eq (nodesOf : Linked snapshot snapshot nodes) {fuel root : Nat} {e : Entry}
    (at_root : snapshot[root]? = some e)
    (enough : ∀ k c, Descends (childrenOf snapshot) k e c → k < fuel) (treeLevel : Nat) :
    ∃ printed, Traversal (childrenOf snapshot) treeLevel [e] printed ∧
      printTree nodes fuel root treeLevel = .ok (drawing printed) := by
  induction fuel generalizing root e treeLevel with
  | zero => exact absurd (enough 0 e (.refl e)) (Nat.not_lt_zero 0)
  | succ fuel ih =>
      obtain ⟨node, found, represents⟩ := nodesOf.node at_root
      obtain ⟨kids, ⟨rest, array⟩, same⟩ := represents.kids
      obtain ⟨blocks, walked, printed⟩ := printChildren_eq rest same fun kid c member at_kid =>
        ih at_kid (fun k d below => Nat.lt_of_succ_lt_succ (enough (k + 1) d (below.head member)))
          (treeLevel + 1)
      refine ⟨(e, treeLevel) :: blocks, walked.single, ?_⟩
      rw [printTree, found]
      dsimp only
      rw [array, printed, ok_bind, represents.data, represents.pid, line_eq_shown]
      rfl

/-- The loop over the list draws the roots of the rest of it. -/
theorem printRoots_eq (nodesOf : Linked snapshot snapshot nodes) {fuel : Nat}
    (enough : ∀ r ∈ rootsOf snapshot, ∀ k c, Descends (childrenOf snapshot) k r c → k < fuel)
    {done rest : List Entry} (split : snapshot = done ++ rest) :
    ∃ printed, Traversal (childrenOf snapshot) 0 (rootsOf rest) printed ∧
      printRoots nodes fuel (List.range' done.length rest.length) = .ok (drawing printed) := by
  induction rest generalizing done with
  | nil => exact ⟨[], .nil 0, rfl⟩
  | cons e rest ih =>
      have at_e : snapshot[done.length]? = some e := by
        rw [split, List.getElem?_append_right (Nat.le_refl _), Nat.sub_self]
        rfl
      have split' : snapshot = done ++ [e] ++ rest := by
        rw [split, List.append_assoc, List.singleton_append]
      obtain ⟨node, found, represents⟩ := nodesOf.node at_e
      obtain ⟨blocks, walkedRest, printedRest⟩ := ih split'
      rw [List.length_append, List.length_singleton] at printedRest
      rw [List.length_cons, List.range'_succ, printRoots, found]
      dsimp only
      rw [represents.ppid]
      by_cases isRoot : e.ppid = 0
      · have root : e ∈ rootsOf snapshot :=
          mem_rootsOf.mpr ⟨List.mem_of_getElem? at_e, isRoot⟩
        obtain ⟨block, walked, printed⟩ := printTree_eq nodesOf at_e (enough e root) 0
        refine ⟨block ++ blocks, ?_, ?_⟩
        · rw [rootsOf, List.filter_cons_of_pos (by simpa using isRoot)]
          exact walked.append walkedRest
        · rw [if_pos isRoot, printed, ok_bind, printedRest, ok_bind, drawing, drawing, drawing,
            List.flatMap_append]
      · refine ⟨blocks, ?_, ?_⟩
        · rw [rootsOf, List.filter_cons_of_neg (by simpa using isRoot)]
          exact walkedRest
        · rw [if_neg isRoot, ok_bind, printedRest, ok_bind]
          rfl

end Print

/-- **The drawing.** For every snapshot with different, positive pids and fewer than `SIZE`
children of each process, `draw_pid_tree` ends, and has written exactly the processes from
which the ppids lead to a 0, each once, at its level, and in preorder. -/
theorem draw_spec {snapshot : List Entry} (distinct : (snapshot.map Entry.pid).Nodup)
    (positive : ∀ e ∈ snapshot, 0 < e.pid)
    (few : ∀ p ∈ snapshot, (snapshot.countP fun c => c.ppid = p.pid) ≤ 511)
    (junk : Nat → Vector (Option Nat) SIZE) :
    ∃ printed, Returns (draw junk snapshot) (drawing printed) ∧ Drawn snapshot printed := by
  rcases link_cases distinct junk with ⟨nodes, linked, nodesOf⟩ | ⟨-, p, member, more⟩
  · have below : ∀ r ∈ rootsOf snapshot, ∀ k c, Descends (childrenOf snapshot) k r c →
        k < snapshot.length :=
      fun r root k c below => (forest snapshot distinct positive).level_lt root below
    obtain ⟨printed, walked, -⟩ := printRoots_eq nodesOf below (List.nil_append snapshot).symm
    refine ⟨printed, ⟨snapshot.length, fun fuel enough => ?_⟩, ?_, ?_, walked⟩
    · have withFuel : ∀ r ∈ rootsOf snapshot, ∀ k c, Descends (childrenOf snapshot) k r c →
          k < fuel :=
        fun r root k c descends => Nat.lt_of_lt_of_le (below r root k c descends) enough
      obtain ⟨printed', walked', drawn⟩ :=
        printRoots_eq nodesOf withFuel (List.nil_append snapshot).symm
      rw [draw, linked, ok_bind, nodesOf.length, walked.unique walked']
      exact drawn
    · intro e n
      rw [walked.mem_iff, leadsToRoot_iff]
      simp only [Nat.zero_add, exists_eq_right']
    · exact @Traversal.nodup _ _ _ _ (forest snapshot distinct positive) walked
        (forest snapshot distinct positive).roots_nodup fun r root => ⟨r, root, .refl r⟩
  · have fewer := few p member
    rw [List.countP_eq_length_filter] at fewer
    exact absurd (Nat.le_trans more fewer) (by decide)

/-- A root and its child, two processes in a circle, and one whose parent is not listed. -/
def severalShapes : List Entry :=
  [⟨3, 4, [99]⟩, ⟨2, 1, [98]⟩, ⟨1, 0, [97]⟩, ⟨4, 3, [100]⟩, ⟨5, 9, [101]⟩]

theorem draw_spec_severalShapes :
    ∃ printed, Returns (draw (fun _ => Vector.replicate SIZE none) severalShapes)
      (drawing printed) ∧ Drawn severalShapes printed :=
  draw_spec (by decide) (by decide) (by decide) _

example : draw (fun _ => Vector.replicate SIZE none) severalShapes 5 =
    .ok (literal "a(1)\n   |-b(2)\n") := by
  decide +kernel

end LinuxExercises.ProcessTree
