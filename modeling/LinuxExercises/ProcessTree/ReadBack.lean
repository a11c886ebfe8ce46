import LinuxExercises.Foundations.Lines
import LinuxExercises.Foundations.Outline
import LinuxExercises.ProcessTree.Draw

/-!
# The tree of processes: reading the drawing back

A line of the drawing has the name of a process and its pid, and it is indented by three spaces for
each level. The parent of the process is not on the line, but it is to be seen from the lines above.
So a reader of the drawing gets back the entries of the snapshot that have been drawn, with their
ppids (`readBack_draw`), as long as the names have no space, no parenthesis and no newline.
-/

set_option autoImplicit false

namespace LinuxExercises.ProcessTree

open Foundations

/-! ## The reader -/

/-- What a line says: the process, but for its ppid, and the level. -/
def readLine (text : List Byte) : Entry × Nat :=
  let indent := (text.takeWhile (· = 32)).length
  let label := if 0 < indent then text.drop (indent + 2) else text
  let name := label.takeWhile (· ≠ 40)
  ({ pid := integer (label.drop (name.length + 1)), ppid := 0, name := name }, indent / 3)

/-- What the drawing says: the processes with the pids of their parents. -/
def readBack (text : List Byte) : List Entry :=
  (parents [] ((lines text).map readLine)).map fun (e, parent) =>
    { e with ppid := parent.elim 0 Entry.pid }

/-- A name without the characters that the reader stops at. -/
abbrev Legible (name : List Byte) : Prop := ∀ b ∈ name, b ≠ 32 ∧ b ≠ 40 ∧ b ≠ newline

/-! ## Lines -/

/-- What is read of a line. -/
def Entry.drawn (e : Entry) : Entry := { e with ppid := 0 }

section Lines

variable {name : List Byte} {pid : Int}

theorem read_label (legible : Legible name) :
    (label name pid).takeWhile (· ≠ 40) = name ∧
      integer ((label name pid).drop (name.length + 1)) = pid := by
  constructor
  · rw [label, List.takeWhile_append_of_pos fun b member => by simpa using (legible b member).2.1]
    simp
  · rw [label, List.drop_append, Nat.add_sub_cancel_left,
      List.drop_eq_nil_of_le (Nat.le_succ _), List.nil_append, List.drop_one, List.tail_cons]
    refine integer_formatInt pid fun b closing => ?_
    cases closing
    decide

/-- The label of a root does not begin with a space. -/
theorem takeWhile_label (legible : Legible name) :
    (label name pid).takeWhile (· = 32) = [] := by
  rw [label]
  cases name with
  | nil => rfl
  | cons b name =>
      have other := (legible b (List.mem_cons_self ..)).1
      rw [List.cons_append, List.takeWhile_cons_of_neg (by simpa using other)]

/-- **One line.** -/
theorem readLine_shown {e : Entry} (legible : Legible e.name) (treeLevel : Nat) :
    readLine (shown e treeLevel) = (e.drawn, treeLevel) := by
  obtain ⟨ofName, ofPid⟩ := @read_label e.name e.pid legible
  cases treeLevel with
  | zero =>
      rw [shown, readLine, takeWhile_label legible]
      simp only [List.length_nil, Nat.lt_irrefl, if_false, Nat.zero_div, ofName, ofPid]
      rfl
  | succ n =>
      have indent : (shown e (n + 1)).takeWhile (· = 32) = List.replicate (3 * (n + 1)) 32 := by
        rw [shown, List.takeWhile_append_of_pos fun b member => by
          simpa using (List.mem_replicate.mp member).2]
        simp
      have behind : (shown e (n + 1)).drop (3 * (n + 1) + 2) = label e.name e.pid := by
        rw [shown, ← List.drop_drop, List.drop_left' List.length_replicate]
        rfl
      have deep : 0 < 3 * (n + 1) := by omega
      have level : 3 * (n + 1) / 3 = n + 1 := by omega
      rw [readLine, indent]
      simp only [List.length_replicate, if_pos deep, behind, ofName, ofPid, level]
      rfl

theorem newline_notMem_formatInt (n : Int) : newline ∉ formatInt n := by
  have ofDecimal : ∀ k, newline ∉ decimal k := fun k member =>
    absurd (isDigit_of_mem_decimal member) (by decide)
  cases n with
  | ofNat k => exact ofDecimal k
  | negSucc k =>
      rw [formatInt, List.mem_cons, not_or]
      exact ⟨by decide, ofDecimal (k + 1)⟩

/-- A line ends at its first newline. -/
theorem shown_eq {e : Entry} (legible : Legible e.name) (treeLevel : Nat) :
    ∃ text, newline ∉ text ∧ shown e treeLevel = text ++ [newline] := by
  have single : newline ∉ e.name ++ 40 :: (formatInt e.pid ++ [41]) := by
    simp only [List.mem_append, List.mem_cons, List.not_mem_nil, or_false, not_or]
    exact ⟨fun member => (legible newline member).2.2 rfl, by decide,
      newline_notMem_formatInt e.pid, by decide⟩
  have ofLabel : label e.name e.pid =
      e.name ++ 40 :: (formatInt e.pid ++ [41]) ++ [newline] := by
    simp [label]
  cases treeLevel with
  | zero => exact ⟨_, single, by rw [shown, ofLabel]⟩
  | succ n =>
      refine ⟨List.replicate (3 * (n + 1)) 32 ++ 124 :: 45 ::
        (e.name ++ 40 :: (formatInt e.pid ++ [41])), ?_, by rw [shown, ofLabel]; simp⟩
      rw [List.mem_append, List.mem_cons, List.mem_cons, not_or, not_or, not_or]
      exact ⟨fun member => absurd (List.mem_replicate.mp member).2 (by decide), by decide,
        by decide, single⟩

end Lines

/-! ## Drawings -/

variable {snapshot : List Entry} {printed : List (Entry × Nat)}

/-- The reader gets the lines back. -/
theorem readLines_drawing (legible : ∀ e ∈ printed.map Prod.fst, Legible e.name) :
    (lines (drawing printed)).map readLine = printed.map fun (e, n) => (e.drawn, n) := by
  induction printed with
  | nil => rfl
  | cons entry printed ih =>
      obtain ⟨e, n⟩ := entry
      have legibleOne : Legible e.name := legible e (List.mem_cons_self ..)
      obtain ⟨text, single, whole⟩ := shown_eq legibleOne n
      have split : drawing ((e, n) :: printed) = shown e n ++ drawing printed := rfl
      rw [split, whole, List.append_assoc, List.singleton_append, lines_cons single,
        List.map_cons, ← whole, readLine_shown legibleOne, List.map_cons,
        ih fun e member => legible e (List.mem_cons_of_mem _ member)]

/-- The process with the pid that another one names as that of its parent. -/
def parentIn (snapshot : List Entry) (e : Entry) : Option Entry :=
  snapshot.find? (·.pid = e.ppid)

theorem parentIn_child (distinct : (snapshot.map Entry.pid).Nodup) {p c : Entry}
    (member : p ∈ snapshot) (child : c ∈ childrenOf snapshot p) : parentIn snapshot c = some p := by
  have names := (mem_childrenOf.mp child).2
  have isSome : (parentIn snapshot c).isSome := by
    rw [parentIn, List.find?_isSome]
    exact ⟨p, member, by simpa using names.symm⟩
  obtain ⟨q, found⟩ := Option.isSome_iff_exists.mp isSome
  have isParent : q.pid = c.ppid := by simpa using List.find?_some found
  have same := List.inj_on_of_nodup_map distinct (List.mem_of_find?_eq_some found) member
    (isParent.trans names)
  rw [found, same]

theorem parentIn_root (positive : ∀ e ∈ snapshot, 0 < e.pid) {r : Entry}
    (root : r ∈ rootsOf snapshot) : parentIn snapshot r = none := by
  have isRoot := (mem_rootsOf.mp root).2
  rw [parentIn, List.find?_eq_none]
  intro e member
  have above := positive e member
  simp only [decide_eq_true_eq]
  omega

/-- What is to be seen of the parent says the ppid. -/
theorem elim_parentIn (distinct : (snapshot.map Entry.pid).Nodup)
    (positive : ∀ e ∈ snapshot, 0 < e.pid) {n : Nat} {e : Entry}
    (leads : LeadsToRoot snapshot n e) : (parentIn snapshot e).elim 0 Entry.pid = e.ppid := by
  cases leads with
  | root member isRoot =>
      rw [parentIn_root positive (mem_rootsOf.mpr ⟨member, isRoot⟩), isRoot]
      rfl
  | up member above names _ =>
      rw [parentIn_child distinct above (mem_childrenOf.mpr ⟨member, names⟩), names]
      rfl

theorem LeadsToRoot.mem {n : Nat} {e : Entry} (leads : LeadsToRoot snapshot n e) :
    e ∈ snapshot := by
  cases leads with
  | root member _ => exact member
  | up member _ _ _ => exact member

theorem Drawn.mem_map_fst (drawn : Drawn snapshot printed) {e : Entry} :
    e ∈ printed.map Prod.fst ↔ ∃ n, LeadsToRoot snapshot n e := by
  rw [List.mem_map]
  constructor
  · rintro ⟨⟨_, n⟩, member, rfl⟩
    exact ⟨n, (drawn.exactly _ n).mp member⟩
  · rintro ⟨n, leads⟩
    exact ⟨(e, n), (drawn.exactly e n).mpr leads, rfl⟩

/-- **The round trip.** What is read back of a drawing are the processes that were drawn, in their
order. -/
theorem readBack_drawing (distinct : (snapshot.map Entry.pid).Nodup)
    (positive : ∀ e ∈ snapshot, 0 < e.pid) (legible : ∀ e ∈ snapshot, Legible e.name)
    (drawn : Drawn snapshot printed) : readBack (drawing printed) = printed.map Prod.fst := by
  have inside : ∀ e ∈ printed.map Prod.fst, e ∈ snapshot := fun e member =>
    (drawn.mem_map_fst.mp member).choose_spec.mem
  have readParents : parents [] printed = printed.map fun (e, _) => (e, parentIn snapshot e) :=
    drawn.inPreorder.parents_eq
      (fun p member c child =>
        ⟨(mem_childrenOf.mp child).1, parentIn_child distinct member child⟩)
      (fun r root => ⟨(mem_rootsOf.mp root).1, parentIn_root positive root⟩)
  have seen := parents_map Entry.drawn [] printed
  rw [List.map_nil, readParents, List.map_map] at seen
  rw [readBack, readLines_drawing fun e member => legible e (inside e member), seen, List.map_map]
  refine List.map_congr_left fun entry member => ?_
  obtain ⟨e, n⟩ := entry
  have ofParent := elim_parentIn distinct positive ((drawn.exactly e n).mp member)
  cases found : parentIn snapshot e with
  | none =>
      rw [found] at ofParent
      have isRoot : (0 : Int) = e.ppid := ofParent
      simp [found, Entry.drawn, isRoot]
  | some p =>
      rw [found] at ofParent
      have isParent : p.pid = e.ppid := ofParent
      simp [found, Entry.drawn, isParent]

/-! ## Snapshots -/

/-- A traversal of the roots is what is to be drawn. -/
theorem drawn_of_traversal (distinct : (snapshot.map Entry.pid).Nodup)
    (positive : ∀ e ∈ snapshot, 0 < e.pid)
    (walked : Traversal (childrenOf snapshot) 0 (rootsOf snapshot) printed) :
    Drawn snapshot printed where
  exactly e n := by
    rw [walked.mem_iff, leadsToRoot_iff]
    simp only [Nat.zero_add, exists_eq_right']
  once := @Traversal.nodup _ _ _ _ (forest snapshot distinct positive) walked
    (forest snapshot distinct positive).roots_nodup fun r root => ⟨r, root, .refl r⟩
  inPreorder := walked

/-- With room for the children, `draw` gives the traversal of the roots, on every budget of at least
the number of processes. -/
theorem draw_eq (distinct : (snapshot.map Entry.pid).Nodup)
    (positive : ∀ e ∈ snapshot, 0 < e.pid)
    (few : ∀ p ∈ snapshot, (snapshot.countP fun c => c.ppid = p.pid) ≤ 511)
    (junk : Nat → Vector (Option Nat) SIZE) {fuel : Nat} (enough : snapshot.length ≤ fuel) :
    ∃ printed, Drawn snapshot printed ∧ draw junk snapshot fuel = .ok (drawing printed) := by
  rcases link_cases distinct junk with ⟨nodes, linked, nodesOf⟩ | ⟨-, p, member, more⟩
  · have deep : ∀ r ∈ rootsOf snapshot, ∀ k c, Descends (childrenOf snapshot) k r c → k < fuel :=
      fun r root k c below =>
        Nat.lt_of_lt_of_le ((forest snapshot distinct positive).level_lt root below) enough
    obtain ⟨printed, walked, wrote⟩ := printRoots_eq nodesOf deep (List.nil_append snapshot).symm
    refine ⟨printed, drawn_of_traversal distinct positive walked, ?_⟩
    rw [draw, linked, ok_bind, nodesOf.length]
    exact wrote
  · have fewer := few p member
    rw [List.countP_eq_length_filter] at fewer
    exact absurd (Nat.le_trans more fewer) (by decide)

/-- The drawing of a snapshot. -/
theorem returns_drawing {snapshot : List Entry} (distinct : (snapshot.map Entry.pid).Nodup)
    (positive : ∀ e ∈ snapshot, 0 < e.pid)
    (few : ∀ p ∈ snapshot, (snapshot.countP fun c => c.ppid = p.pid) ≤ 511)
    (junk : Nat → Vector (Option Nat) SIZE) :
    ∃ printed, Drawn snapshot printed ∧ Returns (draw junk snapshot) (drawing printed) := by
  obtain ⟨printed, drawn, -⟩ := draw_eq distinct positive few junk (Nat.le_refl _)
  refine ⟨printed, drawn, snapshot.length, fun fuel enough => ?_⟩
  obtain ⟨printed', drawn', wrote⟩ := draw_eq distinct positive few junk enough
  rw [wrote, drawn.inPreorder.unique drawn'.inPreorder]

/-- **A drawing says what it was drawn from.** Whatever the snapshot, `draw_pid_tree` ends, and from
what it has written the entries from which the ppids lead to a 0 can be read back, each once. -/
theorem readBack_draw {snapshot : List Entry} (distinct : (snapshot.map Entry.pid).Nodup)
    (positive : ∀ e ∈ snapshot, 0 < e.pid) (legible : ∀ e ∈ snapshot, Legible e.name)
    (few : ∀ p ∈ snapshot, (snapshot.countP fun c => c.ppid = p.pid) ≤ 511)
    (junk : Nat → Vector (Option Nat) SIZE) :
    ∃ text, Returns (draw junk snapshot) text ∧ (readBack text).Nodup ∧
      ∀ e, e ∈ readBack text ↔ ∃ n, LeadsToRoot snapshot n e := by
  obtain ⟨printed, drawn, returns⟩ := returns_drawing distinct positive few junk
  refine ⟨drawing printed, returns, ?_⟩
  rw [readBack_drawing distinct positive legible drawn]
  exact ⟨drawn.once, fun e => drawn.mem_map_fst⟩

theorem readBack_draw_severalShapes :
    ∃ text, Returns (draw (fun _ => Vector.replicate SIZE none) severalShapes) text ∧
      (readBack text).Nodup ∧
      ∀ e, e ∈ readBack text ↔ ∃ n, LeadsToRoot severalShapes n e :=
  readBack_draw (by decide) (by decide) (by simp [severalShapes, Legible, newline]) (by decide) _

example : readBack (literal "a(1)\n   |-b(2)\n") = [⟨1, 0, [97]⟩, ⟨2, 1, [98]⟩] := by decide

end LinuxExercises.ProcessTree
