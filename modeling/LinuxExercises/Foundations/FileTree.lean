import Mathlib.Data.List.Basic
import Mathlib.Logic.Relation
import LinuxExercises.Foundations.Buffer

/-!
# A tree of files

A file is an inode: a directory with its entries, a regular file, a symbolic link with the
path it holds, or something else (a pipe, a socket, a device). Inodes are numbered in the
order in which they come into being, and no number is used twice. A directory leads from
each name in it to an inode, and from `..` to its parent.

A path is read from a directory on, name by name. Links on the way are followed, and a
link at its end when the caller asks for it.

A file can be created, removed and renamed. What a change does to the directories is
stated once, by the entries it drops, the entry it adds and the inode it frees
(`child_of_apply`): every entry for a directory that is there afterwards is the added one
or one that was there before and is not dropped.
-/

set_option autoImplicit false

namespace LinuxExercises.Foundations

abbrev Inode := Nat

abbrev FileName := List Byte

abbrev PathName := List Byte

/-- What an inode holds. -/
inductive Node where
  | directory (parent : Inode) (entries : List (FileName × Inode))
  | regular
  | link (target : PathName)
  | special
deriving DecidableEq

namespace Node

def entries : Node → List (FileName × Inode)
  | directory _ entries => entries
  | _ => []

def isDir : Node → Bool
  | directory _ _ => true
  | _ => false

/-- A directory with its entries changed. -/
def mapEntries (f : List (FileName × Inode) → List (FileName × Inode)) : Node → Node
  | directory parent entries => directory parent (f entries)
  | node => node

/-- A directory with another parent. -/
def withParent (parent : Inode) : Node → Node
  | directory _ entries => directory parent entries
  | node => node

@[simp] theorem isDir_mapEntries (f : List (FileName × Inode) → List (FileName × Inode))
    (n : Node) : (n.mapEntries f).isDir = n.isDir := by cases n <;> rfl

@[simp] theorem isDir_withParent (parent : Inode) (n : Node) :
    (n.withParent parent).isDir = n.isDir := by cases n <;> rfl

@[simp] theorem entries_withParent (parent : Inode) (n : Node) :
    (n.withParent parent).entries = n.entries := by cases n <;> rfl

theorem entries_mapEntries (f : List (FileName × Inode) → List (FileName × Inode)) (n : Node) :
    (n.mapEntries f).entries = if n.isDir then f n.entries else [] := by cases n <;> rfl

end Node

/-- The inodes of a file system. -/
structure FileTree where
  node : Inode → Option Node
  root : Inode
  next : Inode
  fresh : ∀ {i}, next ≤ i → node i = none
  closed : ∀ {i n x c}, node i = some n → (x, c) ∈ n.entries → c < next

namespace FileTree

/-! ## What a directory holds -/

/-- The entries of a directory. -/
def entries (t : FileTree) (i : Inode) : List (FileName × Inode) :=
  ((t.node i).map Node.entries).getD []

/-- The inode behind a name in a directory. -/
def child (t : FileTree) (d : Inode) (x : FileName) : Option Inode := (t.entries d).lookup x

def isDir (t : FileTree) (i : Inode) : Bool := (t.node i).any Node.isDir

def isRegular (t : FileTree) (i : Inode) : Bool := t.node i = some .regular

/-- A directory in a directory. -/
def Subdir (t : FileTree) (d c : Inode) : Prop := ∃ x, t.child d x = some c ∧ t.isDir c = true

/-- The directory is somewhere below the other. -/
def Below (t : FileTree) : Inode → Inode → Prop := Relation.TransGen t.Subdir

/-! ## Paths -/

def slash : Byte := 47

def dot : FileName := [46]

def dotdot : FileName := [46, 46]

/-- Names are read from a directory on. A link on the way is followed by `again`, a link at
the end when `follow` says so. -/
def walkWith (t : FileTree) (follow : Bool) (again : Inode → List FileName → Option Inode) :
    Inode → List FileName → Option Inode
  | i, [] => some i
  | i, x :: rest =>
    match t.node i with
    | some (.directory parent entries) =>
      if x = [] ∨ x = dot then walkWith t follow again i rest
      else if x = dotdot then walkWith t follow again parent rest
      else
        match entries.lookup x with
        | none => none
        | some c =>
          match t.node c with
          | some (.link target) =>
            if rest = [] ∧ follow = false then some c
            else
              again (if target.head? = some slash then t.root else i)
                (target.splitOn slash ++ rest)
          | _ => walkWith t follow again c rest
    | _ => none

/-- Names are read from a directory on, with so many links at most. -/
def walk (t : FileTree) (follow : Bool) : Nat → Inode → List FileName → Option Inode
  | 0 => t.walkWith follow fun _ _ => none
  | links + 1 => t.walkWith follow (t.walk follow links)

/-- The inode that a path leads to, for a process in the directory `cwd`. -/
def resolve (t : FileTree) (cwd : Inode) (path : PathName) (follow : Bool) : Option Inode :=
  if path = [] then none
  else t.walk follow 40 (if path.head? = some slash then t.root else cwd) (path.splitOn slash)

/-- The inode that a name in an open directory leads to. A link is followed. -/
def openAt (t : FileTree) (d : Inode) (x : FileName) : Option Inode :=
  match t.child d x with
  | none => none
  | some c =>
    match t.node c with
    | some (.link _) => t.resolve d x true
    | _ => some c

/-! ## Changes -/

/-- One node is changed, without an entry for an inode that is not known. -/
def modify (t : FileTree) (i : Inode) (f : Node → Node)
    (known : ∀ n x c, t.node i = some n → (x, c) ∈ (f n).entries → c < t.next) : FileTree where
  node := fun j => if j = i then (t.node i).map f else t.node j
  root := t.root
  next := t.next
  fresh := by
    intro j above
    split
    next same => rw [t.fresh (same ▸ above), Option.map_none]
    next => exact t.fresh above
  closed := by
    intro j n x c isNode member
    split at isNode
    · obtain ⟨m, found, rfl⟩ := Option.map_eq_some_iff.mp isNode
      exact known _ _ _ found member
    · exact t.closed isNode member

/-- A name is taken out of a directory. -/
def detach (t : FileTree) (d : Inode) (x : FileName) : FileTree :=
  t.modify d (Node.mapEntries (List.filter (·.1 ≠ x))) (by
    intro n y c found member
    rw [Node.entries_mapEntries] at member
    split at member
    · exact t.closed found (List.mem_filter.mp member).1
    · exact absurd member List.not_mem_nil)

/-- A name is put into a directory. -/
def attach (t : FileTree) (d : Inode) (x : FileName) (c : Inode) (known : c < t.next) : FileTree :=
  t.modify d (Node.mapEntries ((x, c) :: ·)) (by
    intro n y e found member
    rw [Node.entries_mapEntries] at member
    split at member
    · rcases List.mem_cons.mp member with same | member
      · exact (Prod.mk.inj same).2 ▸ known
      · exact t.closed found member
    · exact absurd member List.not_mem_nil)

/-- A directory gets another parent. -/
def adopt (t : FileTree) (c d : Inode) : FileTree :=
  t.modify c (Node.withParent d) (by
    intro n x e found member
    rw [Node.entries_withParent] at member
    exact t.closed found member)

/-- An inode is freed. -/
def discard (t : FileTree) (gone : Option Inode) : FileTree where
  node := fun j => if gone = some j then none else t.node j
  root := t.root
  next := t.next
  fresh := by
    intro j above
    split
    · rfl
    · exact t.fresh above
  closed := by
    intro j n x c isNode member
    split at isNode
    · cases isNode
    · exact t.closed isNode member

/-- What can be created. -/
inductive Kind where
  | directory
  | regular
  | link (target : PathName)
  | special
deriving DecidableEq

/-- A new node in a directory. -/
def Kind.node (d : Inode) : Kind → Node
  | directory => .directory d []
  | regular => .regular
  | link target => .link target
  | special => .special

/-- A new inode. -/
def grow (t : FileTree) (d : Inode) (kind : Kind) : FileTree where
  node := fun j => if j = t.next then some (kind.node d) else t.node j
  root := t.root
  next := t.next + 1
  fresh := by
    intro j above
    rw [if_neg (Nat.lt_of_succ_le above).ne']
    exact t.fresh (Nat.le_of_succ_le above)
  closed := by
    intro j n x c isNode member
    split at isNode
    · obtain rfl := Option.some.inj isNode
      cases kind <;> exact absurd member List.not_mem_nil
    · exact (t.closed isNode member).trans (Nat.lt_succ_self _)

/-- A name that can stand in a directory. -/
def Proper (x : FileName) : Prop := x ≠ [] ∧ slash ∉ x ∧ 0 ∉ x ∧ x ≠ dot ∧ x ≠ dotdot

instance (x : FileName) : Decidable (Proper x) := inferInstanceAs (Decidable (_ ∧ _))

/-- The directory is the other one or, within so many steps, below it. -/
def isWithin (t : FileTree) (c : Inode) : Nat → Inode → Bool
  | 0, d => d = c
  | steps + 1, d =>
    d = c || match t.node d with
      | some (.directory parent _) => isWithin t c steps parent
      | _ => false

/-- A rename replaces a file of the same kind, and a directory only when it is empty. -/
def MayReplace (t : FileTree) (c : Inode) (target : Option Inode) : Prop :=
  ∀ r ∈ target, r ≠ c ∧ t.isDir r = t.isDir c ∧ t.entries r = []

instance (t : FileTree) (c : Inode) (target : Option Inode) : Decidable (t.MayReplace c target) :=
  inferInstanceAs (Decidable (∀ r ∈ target, _))

/-- What can be done to the files: `mkdir` and the like, `unlink` and `rmdir`, `rename`. -/
inductive Change where
  | create (d : Inode) (x : FileName) (kind : Kind)
  | remove (d : Inode) (x : FileName)
  | rename (d : Inode) (x : FileName) (toDir : Inode) (toName : FileName)
deriving DecidableEq

theorem mem_entries_of_child {t : FileTree} {d c : Inode} {x : FileName}
    (found : t.child d x = some c) : (x, c) ∈ t.entries d := by
  obtain ⟨before, after, split, -⟩ := List.lookup_eq_some_iff.mp found
  rw [split]
  exact List.mem_append_right _ (List.mem_cons_self ..)

theorem child_lt {t : FileTree} {d c : Inode} {x : FileName} (found : t.child d x = some c) :
    c < t.next := by
  have member := mem_entries_of_child found
  rw [entries] at member
  cases isNode : t.node d with
  | none =>
      rw [isNode] at member
      exact absurd member List.not_mem_nil
  | some n =>
      rw [isNode] at member
      exact t.closed isNode member

theorem lt_next_grow (t : FileTree) (d : Inode) (kind : Kind) : t.next < (t.grow d kind).next :=
  Nat.lt_succ_self _

/-- Both names of a rename are taken out, and what the second leads to is freed. -/
def vacate (t : FileTree) (d : Inode) (x : FileName) (toDir : Inode) (toName : FileName) :
    FileTree :=
  ((t.detach d x).detach toDir toName).discard (t.child toDir toName)

theorem lt_next_vacate {t : FileTree} {d c : Inode} {x : FileName} (found : t.child d x = some c)
    (toDir : Inode) (toName : FileName) : c < (t.vacate d x toDir toName).next :=
  (child_lt found : c < t.next)

/-- The tree after a change that succeeds. -/
def apply (t : FileTree) : Change → Option FileTree
  | .create d x kind =>
    if t.isDir d ∧ Proper x ∧ t.child d x = none then
      some ((t.grow d kind).attach d x t.next (t.lt_next_grow d kind))
    else none
  | .remove d x =>
    match t.child d x with
    | none => none
    | some c => if t.entries c = [] then some ((t.detach d x).discard (some c)) else none
  | .rename d x toDir toName =>
    match found : t.child d x with
    | none => none
    | some c =>
      if t.isDir toDir ∧ Proper toName ∧ (t.isDir c → t.isWithin c t.next toDir = false) ∧
          t.MayReplace c (t.child toDir toName) then
        some (((t.vacate d x toDir toName).attach toDir toName c
          (lt_next_vacate found toDir toName)).adopt c toDir)
      else none

namespace Change

/-- The entry that a change adds. -/
def added (t : FileTree) : Change → Option (Inode × FileName × Inode)
  | create d x _ => some (d, x, t.next)
  | remove _ _ => none
  | rename d x toDir toName => (t.child d x).map fun c => (toDir, toName, c)

/-- The entries that a change drops. -/
def dropped : Change → List (Inode × FileName)
  | create _ _ _ => []
  | remove d x => [(d, x)]
  | rename d x toDir toName => [(d, x), (toDir, toName)]

/-- The inode that a change frees. -/
def gone (t : FileTree) : Change → Option Inode
  | create _ _ _ => none
  | remove d x => t.child d x
  | rename _ _ toDir toName => t.child toDir toName

end Change

/-! ## What a change does to the directories -/

section Spec

variable {t : FileTree} {d e k : Inode} {x y : FileName}

theorem child_modify (i : Inode) (f : Node → Node)
    (known : ∀ n x c, t.node i = some n → (x, c) ∈ (f n).entries → c < t.next) :
    (t.modify i f known).child e y =
      if e = i then (t.node i).bind fun n => (f n).entries.lookup y else t.child e y := by
  unfold child entries modify
  dsimp only
  split
  · cases t.node i <;> rfl
  · rfl

theorem isDir_modify (i : Inode) (f : Node → Node)
    (known : ∀ n x c, t.node i = some n → (x, c) ∈ (f n).entries → c < t.next)
    (keeps : ∀ n, (f n).isDir = n.isDir) : (t.modify i f known).isDir k = t.isDir k := by
  unfold isDir modify
  dsimp only
  split
  next same =>
    subst same
    cases t.node k with
    | none => rfl
    | some n => exact keeps n
  next => rfl

theorem child_of_node {n : Node} (isNode : t.node d = some n) :
    t.child d x = n.entries.lookup x := by
  rw [child, entries, isNode]
  rfl

theorem lookup_cons_eq_ite (z : FileName) (c : Inode) (entries : List (FileName × Inode))
    (y : FileName) : ((z, c) :: entries).lookup y = if y = z then some c else entries.lookup y := by
  rw [List.lookup_cons]
  by_cases same : y = z
  · rw [same, beq_self_eq_true, if_pos rfl]
  · rw [beq_eq_false_iff_ne.mpr same, if_neg same]

theorem lookup_filter_ne (entries : List (FileName × Inode)) (x y : FileName) :
    (entries.filter (·.1 ≠ x)).lookup y = if y = x then none else entries.lookup y := by
  induction entries with
  | nil => rw [List.filter_nil, List.lookup_nil, ite_self]
  | cons entry entries ih =>
      obtain ⟨z, c⟩ := entry
      by_cases same : z = x
      · rw [List.filter_cons_of_neg (by simpa using same), ih, lookup_cons_eq_ite, same]
        split <;> rfl
      · rw [List.filter_cons_of_pos (by simpa using same), lookup_cons_eq_ite, ih,
          lookup_cons_eq_ite]
        by_cases isHead : y = z
        · rw [if_pos isHead, if_pos isHead, if_neg (isHead ▸ same)]
        · rw [if_neg isHead, if_neg isHead]

theorem child_detach (found : (t.detach d x).child e y = some k) :
    t.child e y = some k ∧ ¬ (e = d ∧ y = x) := by
  rw [detach, child_modify] at found
  split at found
  next same =>
    subst same
    obtain ⟨n, isNode, found⟩ := Option.bind_eq_some_iff.mp found
    rw [Node.entries_mapEntries] at found
    split at found
    · rw [lookup_filter_ne] at found
      split at found
      · cases found
      next other => exact ⟨(child_of_node isNode).trans found, fun both => other both.2⟩
    · cases found
  next other => exact ⟨found, fun both => other both.1⟩

theorem child_attach {c : Inode} {known : c < t.next}
    (found : (t.attach d x c known).child e y = some k) :
    (e = d ∧ y = x ∧ k = c) ∨ t.child e y = some k := by
  rw [attach, child_modify] at found
  split at found
  next same =>
    subst same
    obtain ⟨n, isNode, found⟩ := Option.bind_eq_some_iff.mp found
    rw [Node.entries_mapEntries] at found
    split at found
    · rw [lookup_cons_eq_ite] at found
      split at found
      next isName => exact .inl ⟨rfl, isName, (Option.some.inj found).symm⟩
      next => exact .inr ((child_of_node isNode).trans found)
    · cases found
  next => exact .inr found

@[simp] theorem child_adopt (c d : Inode) : (t.adopt c d).child e y = t.child e y := by
  rw [adopt, child_modify]
  split
  next same =>
    subst same
    simp only [Node.entries_withParent]
    unfold child entries
    cases t.node e <;> rfl
  next => rfl

@[simp] theorem isDir_detach : (t.detach d x).isDir k = t.isDir k :=
  isDir_modify _ _ _ (Node.isDir_mapEntries _)

@[simp] theorem isDir_attach {c : Inode} {known : c < t.next} :
    (t.attach d x c known).isDir k = t.isDir k :=
  isDir_modify _ _ _ (Node.isDir_mapEntries _)

@[simp] theorem isDir_adopt (c d : Inode) : (t.adopt c d).isDir k = t.isDir k :=
  isDir_modify _ _ _ (Node.isDir_withParent _)

theorem child_discard {gone : Option Inode} (found : (t.discard gone).child e y = some k) :
    t.child e y = some k := by
  rw [child, entries, discard] at found
  dsimp only at found
  split at found
  · cases found
  · exact found

theorem child_grow {kind : Kind} (found : (t.grow d kind).child e y = some k) :
    t.child e y = some k := by
  rw [child, entries, grow] at found
  dsimp only at found
  split at found
  · cases kind <;> cases found
  · exact found

theorem isDir_discard {gone : Option Inode} (dir : (t.discard gone).isDir k = true) :
    t.isDir k = true ∧ gone ≠ some k := by
  rw [isDir, discard] at dir
  dsimp only at dir
  split at dir
  · cases dir
  next other => exact ⟨dir, other⟩

theorem isDir_grow {kind : Kind} (dir : (t.grow d kind).isDir k = true) :
    k = t.next ∨ t.isDir k = true := by
  rw [isDir, grow] at dir
  dsimp only at dir
  split at dir
  next same => exact .inl same
  next => exact .inr dir

theorem isDir_of_child {c : Inode} (found : t.child d x = some c) : t.isDir d = true := by
  unfold child entries at found
  unfold isDir
  cases isNode : t.node d with
  | none =>
      rw [isNode] at found
      cases found
  | some n =>
      rw [isNode] at found
      cases n with
      | directory parent entries => rfl
      | regular => cases found
      | link target => cases found
      | special => cases found

/-- The tree of a rename that succeeds. -/
theorem apply_rename {t' : FileTree} {toDir : Inode} {toName : FileName}
    (applied : t.apply (.rename d x toDir toName) = some t') :
    ∃ c, ∃ known : t.child d x = some c,
      t' = ((t.vacate d x toDir toName).attach toDir toName c
        (lt_next_vacate known toDir toName)).adopt c toDir := by
  rw [apply] at applied
  split at applied
  · cases applied
  next c known =>
    split at applied
    · exact ⟨c, known, (Option.some.inj applied).symm⟩
    · cases applied

/-- The tree of a removal that succeeds. -/
theorem apply_remove {t' : FileTree} (applied : t.apply (.remove d x) = some t') :
    ∃ c, t.child d x = some c ∧ t' = (t.detach d x).discard (some c) := by
  rw [apply] at applied
  split at applied
  · cases applied
  next c known =>
    split at applied
    · exact ⟨c, known, (Option.some.inj applied).symm⟩
    · cases applied

/-- The tree of a creation that succeeds. -/
theorem apply_create {t' : FileTree} {kind : Kind}
    (applied : t.apply (.create d x kind) = some t') :
    t' = (t.grow d kind).attach d x t.next (t.lt_next_grow d kind) := by
  rw [apply] at applied
  split at applied
  · exact (Option.some.inj applied).symm
  · cases applied

theorem openAt_of_isDir (found : t.child d x = some k) (dir : t.isDir k = true) :
    t.openAt d x = some k := by
  unfold isDir at dir
  rw [openAt, found]
  dsimp only
  split
  next isNode =>
    rw [isNode] at dir
    cases dir
  next => rfl

variable {t' : FileTree} {change : Change}

/-- A change creates one inode at most. -/
theorem next_le_of_apply (applied : t.apply change = some t') : t.next ≤ t'.next := by
  cases change with
  | create d x kind =>
      rw [apply_create applied]
      exact Nat.le_succ _
  | remove d x =>
      obtain ⟨c, -, rfl⟩ := apply_remove applied
      exact le_rfl
  | rename d x toDir toName =>
      obtain ⟨c, _, rfl⟩ := apply_rename applied
      exact le_rfl

/-- What a change frees was in a directory. -/
theorem gone_lt (freed : change.gone t = some k) : k < t.next := by
  cases change with
  | create d x kind => cases freed
  | remove d x => exact child_lt freed
  | rename d x toDir toName => exact child_lt freed

/-- What is created is a directory when it was to be one. -/
theorem isDir_next_of_create {kind : Kind} (applied : t.apply (.create d x kind) = some t')
    (dir : t'.isDir t.next = true) : kind = .directory := by
  rw [apply_create applied, isDir_attach, isDir, grow] at dir
  dsimp only at dir
  rw [if_pos rfl] at dir
  cases kind with
  | directory => rfl
  | regular => cases dir
  | link target => cases dir
  | special => cases dir

/-- A directory that is there after a change is new or was there before. -/
theorem isDir_of_apply (applied : t.apply change = some t') (dir : t'.isDir k = true) :
    k = t.next ∨ (t.isDir k = true ∧ change.gone t ≠ some k) := by
  cases change with
  | create d x kind =>
      rw [apply_create applied, isDir_attach] at dir
      rcases isDir_grow dir with same | dir
      · exact .inl same
      · exact .inr ⟨dir, nofun⟩
  | remove d x =>
      obtain ⟨c, known, rfl⟩ := apply_remove applied
      obtain ⟨dir, kept⟩ := isDir_discard dir
      rw [isDir_detach] at dir
      exact .inr ⟨dir, by rwa [Change.gone, known]⟩
  | rename d x toDir toName =>
      obtain ⟨c, _, rfl⟩ := apply_rename applied
      rw [isDir_adopt, isDir_attach] at dir
      obtain ⟨dir, kept⟩ := isDir_discard dir
      rw [isDir_detach, isDir_detach] at dir
      exact .inr ⟨dir, kept⟩

/-- What a change frees is no directory any more, and what is none does not become one. -/
theorem isDir_eq_false_of_apply (applied : t.apply change = some t') (below : k < t.next)
    (dead : change.gone t = some k ∨ t.isDir k = false) : t'.isDir k = false := by
  by_contra alive
  rcases isDir_of_apply applied (eq_true_of_ne_false alive) with same | ⟨dir, kept⟩
  · exact absurd same below.ne
  · rcases dead with freed | notDir
    · exact kept freed
    · rw [notDir] at dir
      cases dir

/-- **What a change does to the directories.** An entry for a directory that is there after a
change is the one it adds, or was there before and is not dropped. -/
theorem child_of_apply (applied : t.apply change = some t') (found : t'.child e y = some k)
    (dir : t'.isDir k = true) :
    change.added t = some (e, y, k) ∨
      (t.child e y = some k ∧ t.isDir k = true ∧ (e, y) ∉ change.dropped ∧
        change.gone t ≠ some k) := by
  have before := isDir_of_apply applied dir
  cases change with
  | create d x kind =>
      rw [apply_create applied] at found
      rcases child_attach found with ⟨rfl, rfl, rfl⟩ | found
      · exact .inl rfl
      · have found := child_grow found
        exact .inr ⟨found, (before.resolve_left (child_lt found).ne).1, List.not_mem_nil, nofun⟩
  | remove d x =>
      obtain ⟨c, -, rfl⟩ := apply_remove applied
      obtain ⟨found, other⟩ := child_detach (child_discard found)
      obtain ⟨dir, kept⟩ := before.resolve_left (child_lt found).ne
      refine .inr ⟨found, dir, fun member => other ?_, kept⟩
      exact Prod.mk.inj (List.mem_singleton.mp member)
  | rename d x toDir toName =>
      obtain ⟨c, known, rfl⟩ := apply_rename applied
      rw [child_adopt] at found
      rcases child_attach found with ⟨rfl, rfl, rfl⟩ | found
      · exact .inl (by rw [Change.added, known, Option.map_some])
      · obtain ⟨found, other⟩ := child_detach (child_discard found)
        obtain ⟨found, first⟩ := child_detach found
        obtain ⟨dir, kept⟩ := before.resolve_left (child_lt found).ne
        refine .inr ⟨found, dir, fun member => ?_, kept⟩
        rcases List.mem_cons.mp member with same | member
        · exact first (Prod.mk.inj same)
        · exact other (Prod.mk.inj (List.mem_singleton.mp member))

end Spec

end FileTree

end LinuxExercises.Foundations
