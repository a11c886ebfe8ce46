import LinuxExercises.ProcScan.Scan
import LinuxExercises.ProcessTree.ReadBack

/-!
# From the processes to the drawing

`draw_pid_tree` scans `/proc`, links what it has read and draws it, while processes are created and
exit. When its scan comes to its end, the program has read one status for each name that `readdir`
has returned, and its entries are what these statuses say (`Gathered`).

So the drawing can be read as what the kernel said (`drawn_of_run`). It has the processes from which
the parents that were read lead to a process without a parent, each once and with its parent, and no
others. A process that was there during the whole scan has been read.
-/

set_option autoImplicit false

namespace LinuxExercises.ProcScan

open Foundations ProcessTree

/-! ## What was read -/

/-- The status that an action reads. -/
def Action.reads : Action → List Status
  | .readStatus status => [status]
  | _ => []

def statusesRead (actions : List Action) : List Status := actions.flatMap Action.reads

/-- The entry of a process says what its status says. Its name is the first word of the name of the
process, or the key behind it when it has none. When the name has itself a word `Name`, the
entry may have another word of it. -/
structure Shows (status : Status) (e : Entry) : Prop where
  pid : e.pid = status.pid
  ppid : e.ppid = status.parentid
  name : e.name ∈ wordsOf isDelim status.name ∨ e.name = literal "Umask"
  first : literal "Name" ∉ wordsOf isDelim status.name →
    e.name = (wordsOf isDelim status.name).headD (literal "Umask")

/-- The parents that were read lead to a process without a parent. -/
inductive HasRoot (read : List Status) : Status → Prop
  | root {status : Status} : status ∈ read → status.parentid = 0 → HasRoot read status
  | up {status above : Status} : status ∈ read → status.parentid = above.pid →
      HasRoot read above → HasRoot read status

/-- A status that misleads nobody, of a process with ids that a process can have. -/
structure Status.Proper (status : Status) : Prop where
  drawable : status.Drawable
  positive : 0 < status.pid
  parent_lt : status.parentid < 2 ^ 31

theorem Shows.legible {status : Status} {e : Entry} (shows : Shows status e) : Legible e.name := by
  intro b member
  rcases shows.name with word | other
  · have clean := ((mem_wordsOf word).2 b member).2
    refine ⟨?_, ?_, ?_⟩
    · rintro rfl
      exact absurd clean (by decide)
    · rintro rfl
      exact absurd clean (by decide)
    · rintro rfl
      exact absurd clean (by decide)
  · rw [other] at member
    simp only [literal, String.reduceToList, List.map_cons, List.map_nil, List.mem_cons,
      List.not_mem_nil, or_false] at member
    rcases member with rfl | rfl | rfl | rfl | rfl <;> decide

/-! ## The scan -/

/-- Nothing more is read. -/
def System.Dead {Result : Type} (s : System Result) : Prop := s.pc = .exited ∨ s.pc = .crashed

/-- What holds while the scan goes on, and at its end. Each name that `readdir` has returned has
been read, but for the last one before its turn. -/
structure Gathered (read : List Status) (s : System (Option (List Entry))) : Prop where
  entries : ∃ entries, s.result = some entries ∧ List.Forall₂ Shows read entries
  order : s.returned = s.pc.current.toList ++ (read.map Status.pid).reverse
  distinct : s.returned.Nodup
  ended : s.pc = .done → ∀ p ∈ s.steady, p.pid ∈ s.returned

section Scan

variable {s t : System (Option (List Entry))} {read : List Status}

theorem gathered_start (table : Table) (list : Buffer MAX) :
    Gathered [] (start table list (some [])) where
  entries := ⟨[], rfl, .nil⟩
  order := rfl
  distinct := List.nodup_nil
  ended := by
    intro done
    cases done

/-- An entry for what has been read is added. -/
theorem finish_shows {p : Proc} {status : Status} {entries : List Entry}
    (result : s.result = some entries) (proper : status.Proper) (pid : status.pid = p.pid) :
    ∃ after e, Shows status e ∧ s.finish drawPidTree p status =
      { s with reader := after, result := some (entries ++ [e]), pc := .readdir } := by
  obtain ⟨after, command, parsed, ofPid, ofParent, cmd, place, first⟩ :=
    status.parse_parent proper.drawable.1 s.reader
  have fits : command.length < SIZE := by
    rcases place with inside | rfl
    · exact proper.drawable.2 command inside
    · decide
  have reads : ∀ n : Nat, n < 2 ^ 31 → atoi (decimal n) = n := by
    intro n small
    have whole := @atoi_decimal n [] (by simp)
    rw [List.append_nil] at whole
    rw [whole]
    exact asInt_of_bounds (by omega) (by omega)
  have readsPid := reads status.pid (pid ▸ p.pid_lt)
  refine ⟨after, ⟨atoi (decimal status.pid), atoi (decimal status.parentid), command⟩,
    ⟨readsPid, reads _ proper.parent_lt, place, first⟩,
    System.finish_eq (parsed MAX (Nat.le_refl _)) ?_⟩
  rw [drawPidTree, result]
  dsimp only
  rw [ofPid, ofParent, cmd]
  dsimp only
  rw [if_pos fits]

/-- `readdir` returns only pids that it has not returned. -/
theorem entry_fresh {pid : Nat} (taken : step drawPidTree s (.entry pid) = some t) :
    pid ∉ s.returned := by
  rw [step] at taken
  split at taken
  next enabled => exact enabled.2.2
  next => cases taken

theorem System.Dead.step {a : Action} (dead : s.Dead) (taken : step drawPidTree s a = some t) :
    t.Dead := by
  cases stepped taken with
  | create => exact dead
  | exit pid =>
      rcases dead with exited | crashed
      · exact .inl (by rw [exited]; rfl)
      · exact .inr (by rw [crashed]; rfl)
  | other => exact dead
  | missing => exact .inl rfl
  | lost => exact .inl rfl
  | entry pc => rcases dead with dead | dead <;> cases pc.symm.trans dead
  | last pc => rcases dead with dead | dead <;> cases pc.symm.trans dead
  | opened pc => rcases dead with dead | dead <;> cases pc.symm.trans dead
  | finished pc => rcases dead with dead | dead <;> cases pc.symm.trans dead

/-- A proper status is read. -/
theorem Gathered.finish (gathered : Gathered read s) {p : Proc} {status : Status}
    (pc : s.pc = .readStatus p false) (pid : status.pid = p.pid) (proper : status.Proper) :
    Gathered (read ++ [status]) (s.finish drawPidTree p status) := by
  obtain ⟨entries, result, shown⟩ := gathered.entries
  obtain ⟨after, e, shows, finished⟩ := finish_shows result proper pid
  have order := gathered.order
  rw [pc] at order
  rw [finished]
  refine ⟨⟨entries ++ [e], rfl, List.rel_append shown (.cons shows .nil)⟩, ?_, gathered.distinct,
    fun done => by cases done⟩
  rw [List.map_append, List.reverse_append]
  rw [order, Pc.current, ← pid]
  rfl

theorem Gathered.step {a : Action} (proper : ∀ status ∈ a.reads, status.Proper)
    (gathered : s.Dead ∨ Gathered read s) (taken : step drawPidTree s a = some t) :
    t.Dead ∨ Gathered (read ++ a.reads) t := by
  rcases gathered with dead | gathered
  · exact .inl (dead.step taken)
  · have quiet : ∀ {b : Action}, b.reads = [] → Gathered read t →
        t.Dead ∨ Gathered (read ++ b.reads) t := by
      intro b none holds
      rw [none, List.append_nil]
      exact .inr holds
    cases stepped taken with
    | create => exact quiet rfl { gathered with }
    | exit pid =>
        have same : (s.pc.exit pid).current = s.pc.current := by cases s.pc <;> rfl
        refine quiet rfl { gathered with order := by rw [same]; exact gathered.order, ended := ?_ }
        intro done p member
        have before : s.pc = .done := by
          cases pc : s.pc <;> rw [pc] at done <;> first | rfl | cases done
        exact gathered.ended before p (List.mem_of_mem_filter member)
    | entry pc =>
        have order := gathered.order
        rw [pc] at order
        exact quiet rfl ⟨gathered.entries, congrArg _ order,
          List.nodup_cons.mpr ⟨entry_fresh taken, gathered.distinct⟩, fun done => by cases done⟩
    | other => exact quiet rfl gathered
    | last pc all =>
        have order := gathered.order
        rw [pc] at order
        exact quiet rfl ⟨gathered.entries, order, gathered.distinct, fun _ => all⟩
    | missing => exact .inl (.inl rfl)
    | opened pc found =>
        have order := gathered.order
        rw [pc, ← (Table.mem_of_find found).2] at order
        exact quiet rfl ⟨gathered.entries, order, gathered.distinct, fun done => by cases done⟩
    | lost => exact .inl (.inl rfl)
    | finished pc pid _ =>
        exact .inr (gathered.finish pc pid (proper _ (List.mem_singleton_self _)))

end Scan

/-- The scan of a run that comes to its end. -/
theorem gathered_of_run {table : Table} {list : Buffer MAX} {actions : List Action}
    {t : System (Option (List Entry))} (proper : ∀ status ∈ statusesRead actions, status.Proper)
    (ran : run (step drawPidTree) (start table list (some [])) actions = some t)
    (done : t.pc = .done) : Gathered (statusesRead actions) t := by
  have allowed : ∀ a ∈ actions, ∀ status ∈ a.reads, status.Proper := fun a member status reads =>
    proper status (List.mem_flatMap.mpr ⟨a, member, reads⟩)
  have after : t.Dead ∨ Gathered ([] ++ statusesRead actions) t :=
    @run_history _ _ (step drawPidTree) _ (fun read s => s.Dead ∨ Gathered read s) Action.reads
      (fun a => ∀ status ∈ a.reads, status.Proper) (fun proper => Gathered.step proper) _ _ _ _
      allowed (.inr (gathered_start table list)) ran
  rcases after with dead | gathered
  · rcases dead with dead | dead <;> cases done.symm.trans dead
  · exact gathered

/-! ## Entries and statuses -/

section Entries

variable {read : List Status} {entries : List Entry}

theorem exists_entry (shown : List.Forall₂ Shows read entries) {status : Status}
    (member : status ∈ read) : ∃ e ∈ entries, Shows status e := by
  induction shown with
  | nil => cases member
  | cons first _ ih =>
      rcases List.mem_cons.mp member with rfl | member
      · exact ⟨_, List.mem_cons_self .., first⟩
      · obtain ⟨e, inside, shows⟩ := ih member
        exact ⟨e, List.mem_cons_of_mem _ inside, shows⟩

theorem exists_status (shown : List.Forall₂ Shows read entries) {e : Entry}
    (member : e ∈ entries) : ∃ status ∈ read, Shows status e := by
  induction shown with
  | nil => cases member
  | cons first _ ih =>
      rcases List.mem_cons.mp member with rfl | member
      · exact ⟨_, List.mem_cons_self .., first⟩
      · obtain ⟨status, inside, shows⟩ := ih member
        exact ⟨status, List.mem_cons_of_mem _ inside, shows⟩

theorem map_pid (shown : List.Forall₂ Shows read entries) :
    entries.map Entry.pid = (read.map Status.pid).map Int.ofNat := by
  induction shown with
  | nil => rfl
  | cons first _ ih =>
      rw [List.map_cons, List.map_cons, List.map_cons, ih, first.pid]
      rfl

theorem countP_ppid (shown : List.Forall₂ Shows read entries) (pid : Nat) :
    (entries.countP fun e => e.ppid = (pid : Int)) =
      read.countP fun status => status.parentid = pid := by
  induction shown with
  | nil => rfl
  | cons first _ ih =>
      rw [List.countP_cons, List.countP_cons, ih, first.ppid]
      simp only [decide_eq_true_eq, Int.ofNat_inj]

/-- The ppids of the entries lead where the parents that were read lead. -/
theorem exists_leadsToRoot (shown : List.Forall₂ Shows read entries) {status : Status}
    (rooted : HasRoot read status) : ∃ n e, LeadsToRoot entries n e ∧ Shows status e := by
  induction rooted with
  | root member none =>
      obtain ⟨e, inside, shows⟩ := exists_entry shown member
      exact ⟨0, e, .root inside (by rw [shows.ppid, none]; rfl), shows⟩
  | up member names _ ih =>
      obtain ⟨e, inside, shows⟩ := exists_entry shown member
      obtain ⟨n, p, leads, showsParent⟩ := ih
      have isParent : e.ppid = p.pid := by rw [shows.ppid, names, showsParent.pid]
      exact ⟨n + 1, e, .up inside leads.mem isParent leads, shows⟩

theorem exists_hasRoot (shown : List.Forall₂ Shows read entries) {n : Nat} {e : Entry}
    (leads : LeadsToRoot entries n e) : ∃ status, HasRoot read status ∧ Shows status e := by
  induction leads with
  | root inside isRoot =>
      obtain ⟨status, member, shows⟩ := exists_status shown inside
      have none := shows.ppid.symm.trans isRoot
      exact ⟨status, .root member (by omega), shows⟩
  | up inside _ names _ ih =>
      obtain ⟨status, member, shows⟩ := exists_status shown inside
      obtain ⟨above, rooted, showsAbove⟩ := ih
      have same := shows.ppid.symm.trans (names.trans showsAbove.pid)
      exact ⟨status, .up member (by omega) rooted, shows⟩

end Entries

/-! ## The drawing -/

/-- The drawing has what was read: the processes whose parents lead to one without a parent, each
once and with its parent. What was there all the time has been read. -/
structure Pictures (read : List Status) (steady : List Proc) (text : List Byte) : Prop where
  drawn : ∀ status, HasRoot read status → ∃ e ∈ readBack text, Shows status e
  nothingElse : ∀ e ∈ readBack text, ∃ status, HasRoot read status ∧ Shows status e
  once : ((readBack text).map Entry.pid).Nodup
  steady : ∀ p ∈ steady, ∃ status ∈ read, status.pid = p.pid

/-- The drawing of entries that say what was read has what was read. -/
theorem pictures_of_shown {read : List Status} {entries : List Entry}
    (shown : List.Forall₂ Shows read entries) (once : (read.map Status.pid).Nodup)
    (positive : ∀ status ∈ read, 0 < status.pid)
    (few : ∀ p ∈ read, (read.countP fun status => status.parentid = p.pid) ≤ 511)
    (junk : Nat → Vector (Option Nat) SIZE) :
    ∃ text, Returns (draw junk entries) text ∧ Pictures read [] text := by
  have distinct : (entries.map Entry.pid).Nodup := by
    rw [map_pid shown]
    exact once.map fun a b same => Int.ofNat.inj same
  have positiveEntries : ∀ e ∈ entries, 0 < e.pid := by
    intro e member
    obtain ⟨status, isRead, shows⟩ := exists_status shown member
    have above := positive status isRead
    rw [shows.pid]
    omega
  have legible : ∀ e ∈ entries, Legible e.name := by
    intro e member
    obtain ⟨status, -, shows⟩ := exists_status shown member
    exact shows.legible
  have fewEntries : ∀ p ∈ entries, (entries.countP fun c => c.ppid = p.pid) ≤ 511 := by
    intro p member
    obtain ⟨status, isRead, shows⟩ := exists_status shown member
    rw [shows.pid, countP_ppid shown]
    exact few status isRead
  obtain ⟨printed, drawn, returns⟩ := returns_drawing distinct positiveEntries fewEntries junk
  have back := readBack_drawing distinct positiveEntries legible drawn
  refine ⟨drawing printed, returns, ?_, ?_, ?_, fun p member => by cases member⟩
  · intro status rooted
    obtain ⟨n, e, leads, shows⟩ := exists_leadsToRoot shown rooted
    rw [back]
    exact ⟨e, drawn.mem_map_fst.mpr ⟨n, leads⟩, shows⟩
  · intro e member
    rw [back] at member
    obtain ⟨n, leads⟩ := drawn.mem_map_fst.mp member
    exact exists_hasRoot shown leads
  · rw [back]
    refine drawn.once.map_on fun e member e' member' same => ?_
    obtain ⟨_, leads⟩ := drawn.mem_map_fst.mp member
    obtain ⟨_, leads'⟩ := drawn.mem_map_fst.mp member'
    exact List.inj_on_of_nodup_map distinct leads.mem leads'.mem same

/-- **Drawings of a running system.** Whatever processes come and go, when the scan comes to its
end and the statuses mislead nobody, `draw_pid_tree` ends, and its drawing shows what it has
read. -/
theorem drawn_of_run {table : Table} {list : Buffer MAX} {actions : List Action}
    {t : System (Option (List Entry))} (proper : ∀ status ∈ statusesRead actions, status.Proper)
    (few : ∀ p ∈ statusesRead actions,
      ((statusesRead actions).countP fun status => status.parentid = p.pid) ≤ 511)
    (ran : run (step drawPidTree) (start table list (some [])) actions = some t)
    (done : t.pc = .done) (junk : Nat → Vector (Option Nat) SIZE) :
    ∃ entries text, t.result = some entries ∧ Returns (draw junk entries) text ∧
      Pictures (statusesRead actions) t.steady text := by
  have gathered := gathered_of_run proper ran done
  obtain ⟨entries, result, shown⟩ := gathered.entries
  -- Behind the last entry, the statuses were read in the order of the names.
  have order := gathered.order
  rw [done] at order
  have once : ((statusesRead actions).map Status.pid).Nodup := by
    have all := gathered.distinct
    rw [order] at all
    exact List.nodup_reverse.mp all
  obtain ⟨text, returns, pictures⟩ :=
    pictures_of_shown shown once (fun status isRead => (proper status isRead).positive) few junk
  refine ⟨entries, text, result, returns, { pictures with steady := fun p member => ?_ }⟩
  have listed := gathered.ended done p member
  rw [order] at listed
  exact List.mem_map.mp (List.mem_reverse.mp listed)

theorem initStatus_proper : initStatus.Proper where
  drawable := ⟨.inl ⟨by decide, by decide⟩, by decide⟩
  positive := by decide
  parent_lt := by decide

theorem drawn_of_run_init :
    ∃ (t : System (Option (List Entry))) (entries : List Entry) (text : List Byte),
      t.result = some entries ∧
      Returns (draw (fun _ => Vector.replicate SIZE none) entries) text ∧
      Pictures [initStatus] [init] text := by
  let s : System (Option (List Entry)) :=
    start ⟨[init], by decide⟩ ⟨pad MAX [], length_pad (by decide)⟩ (some [])
  let reading : System (Option (List Entry)) :=
    { s with returned := [1], pc := .readStatus init false }
  obtain ⟨after, e, shows, finished⟩ :=
    @finish_shows reading init initStatus [] rfl initStatus_proper rfl
  have opened : run (step drawPidTree) s [.entry 1, .openStatus] = some reading := rfl
  have read : step drawPidTree reading (.readStatus initStatus) =
      some (reading.finish drawPidTree init initStatus) := rfl
  rw [finished] at read
  have last : step drawPidTree
      { reading with reader := after, result := some ([] ++ [e]), pc := .readdir } .last =
        some { reading with reader := after, result := some ([] ++ [e]), pc := .done } := rfl
  have ran := run_append opened (run_step read (run_step last (run_nil _ _)))
  have proper : ∀ status ∈ statusesRead
      ([.entry 1, .openStatus] ++ [.readStatus initStatus, .last]), status.Proper := by
    intro status member
    rw [List.mem_singleton.mp member]
    exact initStatus_proper
  exact ⟨_, drawn_of_run proper (by decide) ran rfl _⟩

end LinuxExercises.ProcScan
