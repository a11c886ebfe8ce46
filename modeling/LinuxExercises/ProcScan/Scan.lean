import LinuxExercises.Foundations.Runs
import LinuxExercises.ProcScan.Status
import LinuxExercises.ProcessTree.Link

/-!
# Going through `/proc` while processes come and go

`process_list` and `draw_pid_tree` read `/proc` entry by entry. For every process they open its
status, read it and take it apart, and then they print a line or append a node. Other
processes are created and exit between any two of these steps.

A process that is there from `opendir` on is returned by `readdir` once, as long as it stays.
One that has come or gone meanwhile may be returned or not. When it is gone, `open` fails, and
so does `read` when it goes behind the `open`.

Both failures end the program, and nothing comes of the processes behind the one that has gone.
In every run in which the processes that are listed stay until they have been read, and in
which their names do no harm, no process is lost (`scans_complete`). Every scan can come to its
end (`scan_ends`).
-/

set_option autoImplicit false

namespace LinuxExercises.ProcScan

open Foundations ProcessTree

/-! ## Processes -/

/-- A process: `pid_t` is an `int`, and `uid_t` is unsigned. -/
structure Proc where
  pid : Nat
  uid : Nat
  pid_lt : pid < 2 ^ 31
  uid_lt : uid < 2 ^ 32
deriving DecidableEq

/-- The processes that are alive. No two have the same pid. -/
structure Table where
  procs : List Proc
  distinct : (procs.map Proc.pid).Nodup

namespace Table

def find (t : Table) (pid : Nat) : Option Proc := t.procs.find? (·.pid = pid)

/-- A process is created. Its pid has to be free. -/
def create (t : Table) (p : Proc) : Option Table :=
  if free : p.pid ∉ t.procs.map Proc.pid then
    some ⟨p :: t.procs, by simpa using ⟨by simpa using free, t.distinct⟩⟩
  else none

/-- A process exits, and its pid becomes free. -/
def exit (t : Table) (pid : Nat) : Table where
  procs := t.procs.filter (·.pid ≠ pid)
  distinct := ((List.filter_sublist).map Proc.pid).nodup t.distinct

end Table

/-! ## The two programs -/

/-- What a program does with a process whose status it has taken apart. -/
structure Program (Result : Type) where
  keys : Keys
  finish : Nat → Reader → Result → Except Fault Result

/-- `printf("Process ID = %s, Command name = %s\n", pid->d_name, p_cmd)`. -/
def processLine (pid : Nat) (command : List Byte) : List Byte :=
  literal "Process ID = " ++ (decimal pid ++ (literal ", Command name = " ++ (command ++ [10])))

/-- `process_list` for a user. It prints lines. -/
def processList (user : Nat) : Program (List (List Byte)) where
  keys := listKeys
  finish pid r lines :=
    match r.string .uid with
    | none => .error .outOfBounds
    | some uid =>
      if asInt user = atoi uid then
        match r.string .cmd with
        | none => .error .outOfBounds
        | some command => .ok (lines ++ [processLine pid command])
      else .ok lines

/-- `draw_pid_tree`. It appends nodes to the list from `head` on, whose `data` has `SIZE`
bytes. There is no list when `head` is not NULL at the start. -/
def drawPidTree : Program (Option (List Entry)) where
  keys := drawKeys
  finish _ r nodes :=
    match r.string .pid, r.string .parentid, r.string .cmd, nodes with
    | some pid, some ppid, some command, some nodes =>
      if command.length < SIZE then
        .ok (some (nodes ++ [{ pid := atoi pid, ppid := atoi ppid, name := command }]))
      else .error .outOfBounds
    | _, _, _, _ => .error .outOfBounds

/-! ## The system -/

/-- Where a program is: at `readdir`, at `open` with a name, at `read` with an open status,
whose process may have gone, or at its end. -/
inductive Pc where
  | readdir
  | openStatus (pid : Nat)
  | readStatus (p : Proc) (gone : Bool)
  | done
  | exited
  | crashed
deriving DecidableEq

/-- The scan has come to an end, in one way or another. -/
def Pc.Over : Pc → Prop
  | .done | .exited | .crashed => True
  | _ => False

/-- A process exits: its status can be read no more. -/
def Pc.exit (pid : Nat) : Pc → Pc
  | .readStatus p gone => .readStatus p (gone || p.pid = pid)
  | pc => pc

/-- The processes, the program, and what `readdir` has returned. `steady` are the processes
that have been there since `opendir`, and `known` are the pids that were there at some time. -/
structure System (Result : Type) where
  table : Table
  steady : List Proc
  known : List Nat
  returned : List Nat
  pc : Pc
  reader : Reader
  result : Result

/-- What happens next: a process is created or exits, `readdir` returns a pid, another name or
the end, or the program opens or reads a status. -/
inductive Action where
  | create (p : Proc)
  | exit (pid : Nat)
  | entry (pid : Nat)
  | other
  | last
  | openStatus
  | readStatus (status : Status)

section Steps

variable {Result : Type} (P : Program Result)

/-- `opendir` has been called. -/
def start (table : Table) (list : Buffer MAX) (result : Result) : System Result where
  table := table
  steady := table.procs
  known := table.procs.map Proc.pid
  returned := []
  pc := .readdir
  reader := .start list
  result := result

/-- The status text of a process has been read: it is taken apart and used. -/
def System.finish (s : System Result) (p : Proc) (status : Status) : System Result :=
  match s.reader.parse P.keys status.text MAX with
  | .error _ => { s with pc := .crashed }
  | .ok reader =>
    match P.finish p.pid reader s.result with
    | .error _ => { s with pc := .crashed }
    | .ok result => { s with reader := reader, result := result, pc := .readdir }

/-- The step of an action, when it is enabled. -/
def step (s : System Result) : Action → Option (System Result)
  | .create p =>
      (s.table.create p).map fun table => { s with table := table, known := p.pid :: s.known }
  | .exit pid =>
      if (s.table.find pid).isSome then
        some { s with
          table := s.table.exit pid
          steady := s.steady.filter (·.pid ≠ pid)
          pc := s.pc.exit pid }
      else none
  | .entry pid =>
      if s.pc = .readdir ∧ pid ∈ s.known ∧ pid ∉ s.returned then
        some { s with pc := .openStatus pid, returned := pid :: s.returned }
      else none
  | .other => if s.pc = .readdir then some s else none
  | .last =>
      if s.pc = .readdir ∧ ∀ p ∈ s.steady, p.pid ∈ s.returned then some { s with pc := .done }
      else none
  | .openStatus =>
      match s.pc with
      | .openStatus pid =>
        match s.table.find pid with
        | none => some { s with pc := .exited }
        | some p => some { s with pc := .readStatus p false }
      | _ => none
  | .readStatus status =>
      match s.pc with
      | .readStatus p gone =>
        if gone then some { s with pc := .exited }
        else if status.pid = p.pid ∧ status.uid = p.uid then some (s.finish P p status)
        else none
      | _ => none

/-- Everything that a step can do. -/
inductive Stepped (s : System Result) : Action → System Result → Prop
  | create {p : Proc} {table : Table} (created : s.table.create p = some table) :
      Stepped s (.create p) { s with table := table, known := p.pid :: s.known }
  | exit (pid : Nat) :
      Stepped s (.exit pid) { s with
        table := s.table.exit pid
        steady := s.steady.filter (·.pid ≠ pid)
        pc := s.pc.exit pid }
  | entry {pid : Nat} (pc : s.pc = .readdir) :
      Stepped s (.entry pid) { s with pc := .openStatus pid, returned := pid :: s.returned }
  | other : Stepped s .other s
  | last (pc : s.pc = .readdir) (all : ∀ p ∈ s.steady, p.pid ∈ s.returned) :
      Stepped s .last { s with pc := .done }
  | missing {pid : Nat} (pc : s.pc = .openStatus pid) (none : s.table.find pid = none) :
      Stepped s .openStatus { s with pc := .exited }
  | opened {pid : Nat} {p : Proc} (pc : s.pc = .openStatus pid)
      (found : s.table.find pid = some p) :
      Stepped s .openStatus { s with pc := .readStatus p false }
  | lost {p : Proc} {status : Status} (pc : s.pc = .readStatus p true) :
      Stepped s (.readStatus status) { s with pc := .exited }
  | finished {p : Proc} {status : Status} (pc : s.pc = .readStatus p false)
      (pid : status.pid = p.pid) (uid : status.uid = p.uid) :
      Stepped s (.readStatus status) (s.finish P p status)

variable {P} in
theorem stepped {s t : System Result} {a : Action} (taken : step P s a = some t) :
    Stepped P s a t := by
  cases a with
  | create p =>
      obtain ⟨table, created, rfl⟩ := Option.map_eq_some_iff.mp taken
      exact .create created
  | exit pid =>
      rw [step] at taken
      split at taken <;> cases taken
      exact .exit pid
  | entry pid =>
      rw [step] at taken
      split at taken <;> cases taken
      next enabled => exact .entry enabled.1
  | other =>
      rw [step] at taken
      split at taken <;> cases taken
      exact .other
  | last =>
      rw [step] at taken
      split at taken <;> cases taken
      next enabled => exact .last enabled.1 enabled.2
  | openStatus =>
      rw [step] at taken
      split at taken
      next pid pc =>
        split at taken <;> cases taken
        next none => exact .missing pc none
        next p found => exact .opened pc found
      next => cases taken
  | readStatus status =>
      rw [step] at taken
      split at taken
      next p gone pc =>
        cases gone with
        | true =>
            cases taken
            exact .lost pc
        | false =>
            rw [if_neg Bool.false_ne_true] at taken
            split at taken <;> cases taken
            next same => exact .finished pc same.1 same.2
      next => cases taken

end Steps

/-- At its end the scan has dealt with the processes that have been there all the time. -/
def System.Complete {Result : Type} (Included : Proc → Result → Prop) (s : System Result) : Prop :=
  s.pc.Over → ∀ p ∈ s.steady, Included p s.result

/-- When `process_list` has a process of the user, it prints a line for it: its pid in decimal
between these two texts, a command name, and a newline. -/
def Printed (user : Nat) (p : Proc) (lines : List (List Byte)) : Prop :=
  p.uid = user → ∃ command, literal "Process ID = " ++ decimal p.pid ++
    literal ", Command name = " ++ command ++ [10] ∈ lines

/-- `draw_pid_tree` has a node for a process. -/
def Listed (p : Proc) (nodes : Option (List Entry)) : Prop :=
  ∃ entries, nodes = some entries ∧ ∃ e ∈ entries, e.pid = p.pid

/-- A listed process is still there when its status is opened and read, and what it says does
no harm. -/
def Undisturbed (Harmless : Status → Prop) {Result : Type} (s : System Result) : Action → Prop
  | .openStatus => ∀ pid, s.pc = .openStatus pid → (s.table.find pid).isSome
  | .readStatus status => (∀ p, s.pc ≠ .readStatus p true) ∧ Harmless status
  | _ => True

/-- Its name misleads neither program, and its words have room in `data`. -/
def Status.Drawable (status : Status) : Prop :=
  status.TrueParent ∧ ∀ word ∈ wordsOf isDelim status.name, word.length < SIZE

/-! ## Processes are not lost -/

namespace Table

variable {t t' : Table} {p q : Proc} {pid : Nat}

theorem mem_of_find (found : t.find pid = some p) : p ∈ t.procs ∧ p.pid = pid :=
  ⟨List.mem_of_find?_eq_some found, by simpa using List.find?_some found⟩

/-- The pid tells the process. -/
theorem eq_of_pid (member : p ∈ t.procs) (member' : q ∈ t.procs) (same : p.pid = q.pid) :
    p = q :=
  List.inj_on_of_nodup_map t.distinct member member' same

theorem create_procs (created : t.create p = some t') : t'.procs = p :: t.procs := by
  rw [create] at created
  split at created
  · cases created
    rfl
  · cases created

end Table

section Invariant

variable {Result : Type} {P : Program Result} {Harmless : Status → Prop} {Ready : Result → Prop}
  {Included : Proc → Result → Prop} {s t : System Result}

/-- A program keeps what it has, and adds a process whose status does no harm. -/
structure Handles (P : Program Result) (Harmless : Status → Prop) (Ready : Result → Prop)
    (Included : Proc → Result → Prop) : Prop where
  handles : ∀ (before : Reader) (status : Status) (p : Proc) result, Harmless status →
    Ready result → status.pid = p.pid → status.uid = p.uid →
    ∃ after result', before.parse P.keys status.text MAX = .ok after ∧
      P.finish p.pid after result = .ok result' ∧ Ready result' ∧ Included p result' ∧
      ∀ q, Included q result → Included q result'

/-- The pid that `readdir` has returned last, until its process has been dealt with. -/
def Pc.current : Pc → Option Nat
  | .openStatus pid => some pid
  | .readStatus p _ => some p.pid
  | _ => none

/-- What holds in every state of an undisturbed run. -/
structure Inv (Ready : Result → Prop) (Included : Proc → Result → Prop) (s : System Result) :
    Prop where
  going : s.pc ≠ .exited ∧ s.pc ≠ .crashed
  ready : Ready s.result
  alive : ∀ p ∈ s.steady, p ∈ s.table.procs
  current : ∀ q gone, s.pc = .readStatus q gone → ∀ p ∈ s.steady, p.pid = q.pid → p = q
  included : ∀ p ∈ s.steady, p.pid ∈ s.returned →
    s.pc.current = some p.pid ∨ Included p s.result
  ended : s.pc = .done → ∀ p ∈ s.steady, p.pid ∈ s.returned

theorem Inv.start {table : Table} {list : Buffer MAX} {result : Result} (ready : Ready result) :
    Inv Ready Included (start table list result) where
  going := ⟨nofun, nofun⟩
  ready := ready
  alive := fun _ member => member
  current := nofun
  included := nofun
  ended := nofun

theorem Inv.exit (inv : Inv Ready Included s) (pid : Nat) :
    Inv Ready Included { s with
      table := s.table.exit pid
      steady := s.steady.filter (·.pid ≠ pid)
      pc := s.pc.exit pid } := by
  have kept : ∀ {q}, q ∈ s.steady.filter (·.pid ≠ pid) → q ∈ s.steady ∧ q.pid ≠ pid := by
    intro q member
    simpa using member
  refine ⟨?_, inv.ready, ?_, ?_, ?_, ?_⟩
  · have going := inv.going
    cases pc : s.pc <;> rw [pc] at going
    · exact ⟨nofun, nofun⟩
    · exact ⟨nofun, nofun⟩
    · exact ⟨nofun, nofun⟩
    · exact ⟨nofun, nofun⟩
    · exact absurd rfl going.1
    · exact absurd rfl going.2
  · intro p member
    obtain ⟨inside, other⟩ := kept member
    exact List.mem_filter.mpr ⟨inv.alive p inside, by simpa using other⟩
  · intro q gone reading p member
    cases pc : s.pc with
    | readStatus q' gone' =>
        rw [pc] at reading
        cases reading
        exact inv.current q gone' pc p (kept member).1
    | _ =>
        rw [pc] at reading
        cases reading
  · intro p member listed
    have same : (s.pc.exit pid).current = s.pc.current := by
      cases s.pc <;> rfl
    rw [same]
    exact inv.included p (kept member).1 listed
  · intro done p member
    cases pc : s.pc with
    | done => exact inv.ended pc p (kept member).1
    | _ =>
        rw [pc] at done
        cases done

/-- `readdir` returns a pid. -/
theorem Inv.entry (inv : Inv Ready Included s) (pc : s.pc = .readdir) (pid : Nat) :
    Inv Ready Included { s with pc := .openStatus pid, returned := pid :: s.returned } where
  going := ⟨nofun, nofun⟩
  ready := inv.ready
  alive := inv.alive
  current := nofun
  included := by
    intro p member listed
    rcases List.mem_cons.mp listed with rfl | before
    · exact .inl rfl
    · rcases inv.included p member before with current | included
      · rw [pc] at current
        cases current
      · exact .inr included
  ended := nofun

/-- A status is opened. -/
theorem Inv.openStatus (inv : Inv Ready Included s) {pid : Nat} {q : Proc}
    (pc : s.pc = .openStatus pid) (found : s.table.find pid = some q) :
    Inv Ready Included { s with pc := .readStatus q false } where
  going := ⟨nofun, nofun⟩
  ready := inv.ready
  alive := inv.alive
  current := by
    intro q' gone reading p member same
    cases reading
    exact Table.eq_of_pid (inv.alive p member) (Table.mem_of_find found).1 same
  included := by
    intro p member listed
    rcases inv.included p member listed with current | included
    · rw [pc] at current
      exact .inl ((congrArg some (Table.mem_of_find found).2).trans current)
    · exact .inr included
  ended := nofun

theorem System.finish_eq {p : Proc} {status : Status} {after : Reader} {result : Result}
    (parsed : s.reader.parse P.keys status.text MAX = .ok after)
    (finished : P.finish p.pid after s.result = .ok result) :
    s.finish P p status = { s with reader := after, result := result, pc := .readdir } := by
  rw [System.finish, parsed]
  dsimp only
  rw [finished]

/-- A harmless status is read. -/
theorem Inv.finish (handles : Handles P Harmless Ready Included) (inv : Inv Ready Included s)
    {q : Proc} {gone : Bool} (pc : s.pc = .readStatus q gone) {status : Status}
    (harmless : Harmless status) (pid : status.pid = q.pid) (uid : status.uid = q.uid) :
    Inv Ready Included (s.finish P q status) := by
  obtain ⟨after, result, parsed, finished, ready, added, kept⟩ :=
    handles.handles s.reader status q s.result harmless inv.ready pid uid
  rw [System.finish_eq parsed finished]
  refine ⟨⟨nofun, nofun⟩, ready, inv.alive, nofun, ?_, nofun⟩
  intro p member listed
  rcases inv.included p member listed with current | included
  · rw [pc] at current
    have same := inv.current q gone pc p member (Option.some.inj current).symm
    exact .inr (same ▸ added)
  · exact .inr (kept p included)

/-- An undisturbed step keeps it. -/
theorem Inv.step (handles : Handles P Harmless Ready Included) {a : Action}
    (undisturbed : Undisturbed Harmless s a) (inv : Inv Ready Included s)
    (taken : step P s a = some t) : Inv Ready Included t := by
  cases stepped taken with
  | create created =>
      refine { inv with alive := fun q member => ?_ }
      rw [Table.create_procs created]
      exact List.mem_cons_of_mem _ (inv.alive q member)
  | exit pid => exact inv.exit pid
  | entry pc => exact inv.entry pc _
  | other => exact inv
  | last pc all =>
      refine { inv with going := ⟨nofun, nofun⟩, current := nofun, included := ?_,
                        ended := fun _ => all }
      intro p member listed
      have included := inv.included p member listed
      rw [pc] at included
      exact included
  | missing pc none =>
      have some := undisturbed _ pc
      rw [none] at some
      cases some
  | opened pc found => exact inv.openStatus pc found
  | lost pc => exact absurd pc (undisturbed.1 _)
  | finished pc pid uid => exact inv.finish handles pc undisturbed.2 pid uid

/-- At the end nothing is missing. -/
theorem Inv.complete (inv : Inv Ready Included s) : s.Complete Included := by
  intro ended p member
  have done : s.pc = .done := by
    cases pc : s.pc with
    | done => rfl
    | exited => exact absurd pc inv.going.1
    | crashed => exact absurd pc inv.going.2
    | _ =>
        rw [pc] at ended
        cases ended
  rcases inv.included p member (inv.ended done p member) with open' | included
  · rw [done] at open'
    cases open'
  · exact included

theorem Inv.run (handles : Handles P Harmless Ready Included) {actions : List Action}
    (undisturbed : Along (ProcScan.step P) (Undisturbed Harmless) s actions)
    (inv : Inv Ready Included s) (ran : Foundations.run (ProcScan.step P) s actions = some t) :
    Inv Ready Included t :=
  run_invariant_along (fun undisturbed inv taken => inv.step handles undisturbed taken)
    undisturbed inv ran

end Invariant

/-! ## The programs -/

theorem processList_handles (user : Nat) :
    Handles (processList user) Status.TrueUser (fun _ => True) (Printed user) where
  handles := by
    intro before status p lines harmless _ pid uid
    obtain ⟨after, command, parsed, ofUser, cmd⟩ := status.parse_user harmless before
    have read : atoi (decimal status.uid) = asInt status.uid := by
      have whole := @atoi_decimal status.uid [] (by simp)
      rwa [List.append_nil] at whole
    by_cases mine : asInt user = atoi (decimal status.uid)
    · refine ⟨after, lines ++ [processLine p.pid command], parsed MAX (Nat.le_refl _), ?_, trivial,
        fun _ => ⟨command, by simp [processLine]⟩, ?_⟩
      · rw [processList]
        dsimp only
        rw [ofUser, cmd]
        dsimp only
        rw [if_pos mine]
      · intro q printed own
        obtain ⟨command, member⟩ := printed own
        exact ⟨command, List.mem_append_left _ member⟩
    · refine ⟨after, lines, parsed MAX (Nat.le_refl _), ?_, trivial, fun own => ?_, fun _ kept =>
        kept⟩
      · rw [processList]
        dsimp only
        rw [ofUser]
        dsimp only
        rw [if_neg mine]
      · rw [read, uid, own] at mine
        exact absurd rfl mine

theorem asInt_pid (p : Proc) : asInt p.pid = p.pid := by
  have bound := p.pid_lt
  rw [asInt, Int.bmod]
  omega

theorem drawPidTree_handles :
    Handles drawPidTree Status.Drawable (fun nodes => nodes.isSome) Listed where
  handles := by
    intro before status p nodes harmless ready pid uid
    obtain ⟨after, command, parsed, ofPid, ofParent, cmd, place, -⟩ :=
      status.parse_parent harmless.1 before
    obtain ⟨entries, rfl⟩ := Option.isSome_iff_exists.mp ready
    have fits : command.length < SIZE := by
      rcases place with inside | rfl
      · exact harmless.2 command inside
      · decide
    have read : atoi (decimal status.pid) = p.pid := by
      have whole := @atoi_decimal status.pid [] (by simp)
      rw [List.append_nil] at whole
      rw [whole, pid, asInt_pid]
    refine ⟨after, some (entries ++
      [⟨atoi (decimal status.pid), atoi (decimal status.parentid), command⟩]),
      parsed MAX (Nat.le_refl _), ?_, rfl,
      ⟨_, rfl, ⟨atoi (decimal status.pid), atoi (decimal status.parentid), command⟩, ?_, read⟩, ?_⟩
    · rw [drawPidTree]
      dsimp only
      rw [ofPid, ofParent, cmd]
      dsimp only
      rw [if_pos fits]
    · simp
    · rintro q ⟨_, same, e, member, isPid⟩
      cases same
      exact ⟨_, rfl, e, List.mem_append_left _ member, isPid⟩

/-- **Undisturbed scans.** -/
theorem scans_complete (table : Table) (list : Buffer MAX) (actions : List Action) :
    (∀ user t,
      Along (step (processList user)) (Undisturbed Status.TrueUser) (start table list []) actions →
      run (step (processList user)) (start table list []) actions = some t →
      t.Complete (Printed user)) ∧
    (∀ t,
      Along (step drawPidTree) (Undisturbed Status.Drawable) (start table list (some [])) actions →
      run (step drawPidTree) (start table list (some [])) actions = some t →
      t.Complete Listed) := by
  constructor
  · intro user t undisturbed ran
    exact ((Inv.start trivial).run (processList_handles user) undisturbed ran).complete
  · intro t undisturbed ran
    have first : Inv (fun nodes => nodes.isSome) Listed (start table list (some [])) :=
      Inv.start rfl
    exact (first.run drawPidTree_handles undisturbed ran).complete

/-- The process `init` of the superuser. -/
def init : Proc := ⟨1, 0, by decide, by decide⟩

def initStatus : Status where
  name := literal "init"
  umask := literal "0000"
  state := .sleeping
  tgid := 1
  ngid := 0
  pid := 1
  parentid := 0
  tracerPid := 0
  uid := 0
  rest := literal "0\t0\t0\n"
  name_ne := by decide
  name_clean := forall_of_all rfl
  umask_digits := forall_of_all rfl

theorem initStatus_trueUser : initStatus.TrueUser := .inl ⟨by decide, by decide⟩

/-- A scan when `init` is alone. -/
def initScan : System (List (List Byte)) :=
  start ⟨[init], by decide⟩ ⟨pad MAX [], length_pad (by decide)⟩ []

theorem scans_complete_init :
    ∃ t, run (step (processList 0)) initScan
        [.entry 1, .openStatus, .readStatus initStatus, .last] = some t ∧
      t.Complete (Printed 0) := by
  obtain ⟨after, lines, parsed, finished, -⟩ := (processList_handles 0).handles initScan.reader
    initStatus init [] initStatus_trueUser trivial rfl rfl
  have opened : run (step (processList 0)) initScan [.entry 1, .openStatus] =
      some { initScan with returned := [1], pc := .readStatus init false } := rfl
  have read : step (processList 0) { initScan with returned := [1], pc := .readStatus init false }
      (.readStatus initStatus) =
        some { initScan with returned := [1], reader := after, result := lines } :=
    congrArg some (System.finish_eq parsed finished)
  have last : step (processList 0)
      { initScan with returned := [1], reader := after, result := lines } .last =
        some { initScan with returned := [1], reader := after, result := lines, pc := .done } :=
    rfl
  have ran := run_append opened (run_step read (run_step last (run_nil _ _)))
  have undisturbed : Along (step (processList 0)) (Undisturbed Status.TrueUser) initScan
      [.entry 1, .openStatus, .readStatus initStatus, .last] := by
    refine ⟨trivial, ?_, ⟨nofun, initStatus_trueUser⟩, ?_⟩
    · intro pid same
      cases same
      rfl
    · change (step (processList 0) { initScan with returned := [1], pc := .readStatus init false }
        (.readStatus initStatus)).elim True _
      rw [read]
      exact ⟨trivial, trivial⟩
  exact ⟨_, ran, (scans_complete _ _ _).1 0 _ undisturbed ran⟩

/-- A process of the superuser is listed and exits, and the scan is over. The other process is
missing. -/
theorem not_scans_complete :
    (¬ ∀ (table : Table) (list : Buffer MAX) actions user t,
      run (step (processList user)) (start table list []) actions = some t →
      t.Complete (Printed user)) ∧
    (¬ ∀ (table : Table) (list : Buffer MAX) actions t,
      run (step drawPidTree) (start table list (some [])) actions = some t →
      t.Complete Listed) := by
  let user : Proc := ⟨7, 1000, by decide, by decide⟩
  have member : user ∈ [init, user].filter (·.pid ≠ 1) := by decide
  constructor
  · intro complete
    have all := complete ⟨[init, user], by decide⟩ ⟨pad MAX [], length_pad (by decide)⟩
      [.entry 1, .exit 1, .openStatus] 1000 _ rfl trivial
    obtain ⟨command, printed⟩ := all user member rfl
    cases printed
  · intro complete
    have all := complete ⟨[init, user], by decide⟩ ⟨pad MAX [], length_pad (by decide)⟩
      [.entry 1, .exit 1, .openStatus] _ rfl trivial
    obtain ⟨entries, same, e, listed, -⟩ := all user member
    cases same
    cases listed

/-! ## The end of a scan -/

section Ends

variable {Result : Type} {P : Program Result} {s t : System Result}

/-- A step of the program. -/
def Action.Own : Action → Prop
  | .create _ | .exit _ => False
  | _ => True

/-- The processes that have been there all the time have been there. -/
def System.Known (s : System Result) : Prop := ∀ p ∈ s.steady, p.pid ∈ s.known

theorem System.Known.start (table : Table) (list : Buffer MAX) (result : Result) :
    (start table list result).Known :=
  fun _ member => List.mem_map_of_mem member

theorem System.Known.step {a : Action} (known : s.Known) (taken : step P s a = some t) :
    t.Known := by
  cases stepped taken with
  | create => exact fun q member => List.mem_cons_of_mem _ (known q member)
  | exit => exact fun q member => known q (List.mem_of_mem_filter member)
  | finished =>
      rw [System.finish]
      split
      · exact known
      · split <;> exact known
  | _ => exact known

/-- A status that the kernel may write for a process. -/
def statusOf (p : Proc) : Status := { initStatus with pid := p.pid, uid := p.uid }

/-- How far the program is with an entry. -/
def Pc.rank : Pc → Nat
  | .readdir => 1
  | .openStatus _ => 3
  | .readStatus _ _ => 2
  | _ => 0

/-- The pids that `readdir` may still return count most. -/
def System.left (s : System Result) : Nat :=
  3 * (s.known.filter (· ∉ s.returned)).length + s.pc.rank

theorem left_entry {pid : Nat} (known : pid ∈ s.known) (fresh : pid ∉ s.returned)
    (pc : s.pc = .readdir) :
    { s with pc := .openStatus pid, returned := pid :: s.returned : System Result }.left <
      s.left := by
  have fewer : (s.known.filter (· ∉ pid :: s.returned)).length <
      (s.known.filter (· ∉ s.returned)).length := by
    have again : s.known.filter (· ∉ pid :: s.returned) =
        (s.known.filter (· ∉ s.returned)).filter (· ≠ pid) := by
      rw [List.filter_filter]
      refine List.filter_congr fun x _ => ?_
      simp
    rw [again]
    refine List.length_filter_lt_length_iff_exists.mpr ⟨pid, ?_, by simp⟩
    exact List.mem_filter.mpr ⟨known, by simpa using fresh⟩
  simp only [System.left, pc, Pc.rank]
  omega

/-- The program goes on until the end of the scan. -/
theorem scan_progress (known : s.Known) (going : ¬ s.pc.Over) :
    ∃ a t, a.Own ∧ step P s a = some t ∧ t.Known ∧ t.left < s.left := by
  suffices ∃ a t, a.Own ∧ step P s a = some t ∧ t.left < s.left by
    obtain ⟨a, t, own, taken, less⟩ := this
    exact ⟨a, t, own, taken, known.step taken, less⟩
  cases pc : s.pc with
  | readdir =>
      by_cases more : ∃ pid ∈ s.known, pid ∉ s.returned
      · obtain ⟨pid, inside, fresh⟩ := more
        exact ⟨.entry pid, _, trivial, if_pos ⟨pc, inside, fresh⟩, left_entry inside fresh pc⟩
      · push Not at more
        refine ⟨.last, _, trivial, if_pos ⟨pc, fun p member => more _ (known p member)⟩, ?_⟩
        simp [System.left, pc, Pc.rank]
  | openStatus pid =>
      cases found : s.table.find pid with
      | none =>
          refine ⟨.openStatus, { s with pc := .exited }, trivial, ?_, ?_⟩
          · rw [step, pc]
            dsimp only
            rw [found]
          · simp [System.left, pc, Pc.rank]
      | some p =>
          refine ⟨.openStatus, { s with pc := .readStatus p false }, trivial, ?_, ?_⟩
          · rw [step, pc]
            dsimp only
            rw [found]
          · simp [System.left, pc, Pc.rank]
  | readStatus p gone =>
      cases gone with
      | true =>
          refine ⟨.readStatus (statusOf p), { s with pc := .exited }, trivial, ?_, ?_⟩
          · rw [step, pc]
            rfl
          · simp [System.left, pc, Pc.rank]
      | false =>
          refine ⟨.readStatus (statusOf p), s.finish P p (statusOf p), trivial, ?_, ?_⟩
          · have same : (statusOf p).pid = p.pid ∧ (statusOf p).uid = p.uid := ⟨rfl, rfl⟩
            rw [step, pc]
            exact if_pos same
          · rw [System.finish]
            split
            · simp [System.left, pc, Pc.rank]
            · split <;> simp [System.left, pc, Pc.rank]
  | _ =>
      rw [pc] at going
      exact absurd trivial going

/-- **A scan comes to an end.** From every state that a run has reached, the steps of the program
lead to the end of the scan, when no process is created or exits meanwhile. -/
theorem scan_ends {table : Table} {list : Buffer MAX} {result : Result} {actions : List Action}
    (ran : run (step P) (start table list result) actions = some s) :
    ∃ actions t, (∀ a ∈ actions, a.Own) ∧ run (step P) s actions = some t ∧ t.pc.Over := by
  have known : s.Known := run_invariant (fun known taken => System.Known.step known taken)
    (System.Known.start table list result) ran
  obtain ⟨actions, t, own, ran, -, ended⟩ := @run_reaches _ _ (step P) System.Known
    (fun s => s.pc.Over) Action.Own System.left (fun _ => scan_progress) _ known
  exact ⟨actions, t, own, ran, ended⟩

end Ends

end LinuxExercises.ProcScan
