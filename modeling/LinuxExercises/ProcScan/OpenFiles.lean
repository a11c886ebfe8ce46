import LinuxExercises.ProcScan.Scan

/-!
# Who has a file open

`file_open_list` goes through `/proc` for the processes that have a file open. It wants one
argument, the name of the file, and shows its usage otherwise, and for `--help`. For each process it
takes the name out of the status text, and compares every link in the process's directory `fd` with
the name of the file. It opens this directory for each process and closes it for none.

So the program keeps a descriptor for every process that it has dealt with, and it comes to the end
of `/proc` exactly when there are no more processes than descriptors left for it. Otherwise it has
reported on the first ones, as many as it had descriptors for, when it fails
(`reports_and_ends`).
-/

set_option autoImplicit false

namespace LinuxExercises.ProcScan.OpenFiles

open Foundations

/-! ## What there is under `/proc` -/

/-- What `readlink` finds: a path, of fewer than `MAX` bytes. -/
structure Target where
  path : List Byte
  short : path.length < MAX
  clean : ∀ b ∈ path, b ≠ 0

/-- An entry of `/proc`. The status may be gone, the directory `fd` may be forbidden, and a link may
be gone too. The program is itself one of the processes, so what is in a directory may depend on how
many descriptors the program has. -/
structure ProcEntry where
  name : List Byte
  status : Option Status
  files : Nat → Option (List (List Byte × Option Target))

/-! ## The code -/

/-- The characters of `delim`: space, tab, newline and colon. -/
def isDelim (b : Byte) : Bool := b = 32 || b = 9 || b = 10 || b = 58

/-- `isdigit` of the first character of a name. -/
def startsWithDigit (name : List Byte) : Bool := isDigit (name.headD 0)

/-- `printf("Process ID = %s, Command name = %s\n", pid->d_name, p_cmd)`. -/
def fileLine (name command : List Byte) : List Byte :=
  literal "Process ID = " ++ (name ++ (literal ", Command name = " ++ (command ++ [10])))

/-- `printf("usage: %s [file name]\n", argv[0])`. -/
def usage (program : List Byte) : List Byte :=
  literal "usage: " ++ (program ++ literal " [file name]\n")

/-- What is printed behind an `opendir` of a directory `fd` that has failed. -/
def denied (program : List Byte) : List Byte :=
  literal "If reason is 'Permission denied', please try: sudo " ++
    (program ++ literal " [file name]\n")

/-- The array for a status text, the pointer that `strtok` has saved, the variable `p_cmd`, which is
unset or NULL at first, how many descriptors are open, and what has been printed. -/
structure Lister where
  list : Buffer MAX
  saved : Nat
  command : Option Nat
  descriptors : Nat
  stdout : List Byte

namespace Lister

/-- `strtok(NULL, delim)`. -/
def next (s : Lister) : Except Fault (Option Nat × Lister) := do
  let (token, list, saved) ← s.list.strtok isDelim s.saved
  .ok (token, { s with list := list, saved := saved })

/-- The loop `while (token != NULL)`, which ends behind `Name`. -/
def findName : Nat → Lister → Option Nat → Except Fault Lister
  | 0, _, _ => .error .outOfFuel
  | _ + 1, s, none => .ok s
  | fuel + 1, s, some token =>
    if cstr (s.list.drop token) = literal "Name" then do
      let (token, s) ← s.next
      .ok { s with command := token }
    else do
      let (token, s) ← s.next
      findName fuel s token

/-- The status text is read and taken apart. -/
def readName (s : Lister) (text : List Byte) (fuel : Nat) : Except Fault Lister := do
  let list ← s.list.store 0 (text.take MAX)
  let (token, s) ← { s with list := list, saved := 0 }.next
  let s := if token = none then { s with stdout := s.stdout ++ literal "NULL" } else s
  s.findName fuel token

/-- The string that `p_cmd` points to. -/
def string (s : Lister) : Option (List Byte) :=
  s.command.map fun pointer => cstr (s.list.drop pointer)

/-- The loop over the directory `fd` of a process. The first component is whether the program goes
on. -/
def listFiles (file name : List Byte) :
    List (List Byte × Option Target) → Lister → Except Fault (Bool × Lister)
  | [], s => .ok (true, s)
  | (entry, target) :: rest, s =>
    if startsWithDigit entry then
      match target with
      | none => .ok (false, s)
      | some link =>
        if strcmp (pad MAX link.path) file = .eq then
          match s.string with
          | none => .error .outOfBounds
          | some command =>
            listFiles file name rest { s with stdout := s.stdout ++ fileLine name command }
        else listFiles file name rest s
    else listFiles file name rest s

/-- What is done with an entry of `/proc`. Both `open` and `opendir` need a descriptor, and only
that of the status is closed. -/
def listProcess (limit : Nat) (program file : List Byte) (e : ProcEntry) (s : Lister)
    (fuel : Nat) : Except Fault (Bool × Lister) :=
  if startsWithDigit e.name then
    match if s.descriptors < limit then e.status else none with
    | none => .ok (false, s)
    | some status => do
      let s ← s.readName status.text fuel
      match if s.descriptors < limit then e.files (s.descriptors + 1) else none with
      | none => .ok (false, { s with stdout := s.stdout ++ denied program })
      | some files => listFiles file e.name files { s with descriptors := s.descriptors + 1 }
  else .ok (true, s)

/-- The loop over `/proc`. -/
def listAll (limit : Nat) (program file : List Byte) (fuel : Nat) :
    List ProcEntry → Lister → Except Fault (Bool × Lister)
  | [], s => .ok (true, s)
  | e :: rest, s => do
    let (more, s) ← listProcess limit program file e s fuel
    if more then listAll limit program file fuel rest s else .ok (false, s)

end Lister

/-- `main`, started with some descriptors open, under its name and with these arguments. It prints
what it has printed when it exits. -/
def main (limit opened : Nat) (program : List Byte) (arguments : List (List Byte))
    (proc : List ProcEntry) (list : Buffer MAX) (fuel : Nat) : Except Fault (Exit × List Byte) :=
  match arguments with
  | [file] =>
    if strcmp file (literal "--help") = .eq then .ok (.failure, usage program)
    else if opened < limit then do
      let (whole, s) ← Lister.listAll limit program file fuel proc ⟨list, 0, none, opened + 1, []⟩
      .ok (if whole then .success else .failure, s.stdout)
    else .ok (.failure, [])
  | _ => .ok (.failure, usage program)

/-! ## What is reported -/

/-- The command name: the first word of the name of the process, or of what follows it in the
status text. -/
def commandName (status : Status) : List Byte :=
  (wordsOf isDelim status.name).headD (literal "Umask")

/-- The links of a process to the file. -/
def links (file : List Byte) (files : List (List Byte × Option Target)) :
    List (List Byte × Option Target) :=
  files.filter fun f => startsWithDigit f.1 && f.2.any fun link => link.path == cstr file

/-- A line for each link of the process, when the program has this many descriptors: the name of the
process's directory, which is its pid, and the command name between these texts. -/
def report (file : List Byte) (descriptors : Nat) (e : ProcEntry) : List Byte :=
  (links file ((e.files descriptors).getD [])).flatMap fun _ =>
    literal "Process ID = " ++ e.name ++ literal ", Command name = " ++
      e.status.elim [] commandName ++ [newline]

/-- The reports on processes, with a descriptor more for each. -/
def reports (file : List Byte) : Nat → List ProcEntry → List Byte
  | _, [] => []
  | descriptors, e :: rest =>
    report file (descriptors + 1) e ++ reports file (descriptors + 1) rest

/-- The processes among the entries. -/
def processes (proc : List ProcEntry) : List ProcEntry :=
  proc.filter fun e => startsWithDigit e.name

/-- The program may read everything of a process. The name is as short as the kernel keeps it. -/
structure Readable (e : ProcEntry) (status : Status) : Prop where
  status_eq : e.status = some status
  short : status.name.length ≤ 64
  files : ∀ descriptors, ∃ files, e.files descriptors = some files ∧
    ∀ f ∈ files, startsWithDigit f.1 = true → f.2.isSome = true

/-- The arguments are one file name. -/
def Asks (arguments : List (List Byte)) (file : List Byte) : Prop :=
  arguments = [file] ∧ cstr file ≠ literal "--help"

/-! ## The name -/

theorem not_isDelim_zero : isDelim 0 = false := rfl

/-- The part of a status text in which `strtok` looks for the name. -/
def head (status : Status) : List Byte :=
  literal "Name" ++ 58 :: (9 :: status.name ++ 10 :: (literal "Umask" ++ [58]))

theorem text_eq (status : Status) : ∃ rest, status.text = head status ++ rest := by
  refine ⟨9 :: (status.umask ++ [10]) ++ (field "State" status.state.text ++
    (field "Tgid" (decimal status.tgid) ++ (field "Ngid" (decimal status.ngid) ++
      field "Pid" (decimal status.pid)))) ++ field "PPid" (decimal status.parentid) ++
        (field "TracerPid" (decimal status.tracerPid) ++
          (literal "Uid:\t" ++ (decimal status.uid ++ [9]))) ++ status.rest, ?_⟩
  simp only [Status.text, Status.userPart, Status.parentPart, Status.lines, head, field,
    List.append_assoc, List.cons_append, List.nil_append]

theorem noZero_head (status : Status) : ∀ b ∈ head status, b ≠ 0 := by
  have front : ∀ b ∈ literal "Name" ++ [58, 9], b ≠ 0 := forall_of_all rfl
  have back : ∀ b ∈ 10 :: (literal "Umask" ++ [58]), b ≠ 0 := forall_of_all rfl
  have layout : head status = literal "Name" ++ [58, 9] ++
      (status.name ++ (10 :: (literal "Umask" ++ [58]))) := by
    simp only [head, List.append_assoc, List.cons_append, List.nil_append]
  intro b member
  rw [layout] at member
  rcases List.mem_append.mp member with inFront | member
  · exact front b inFront
  · rcases List.mem_append.mp member with inName | inBack
    · exact (status.name_clean b inName).1
    · exact back b inBack

theorem endedWords_head (status : Status) :
    endedWords isDelim (head status) =
      literal "Name" :: (wordsOf isDelim status.name ++ [literal "Umask"]) := by
  have word : ∀ {key : List Byte}, key ≠ [] → (key.all fun c => !isDelim c) = true →
      wordsOf isDelim key = [key] := fun nonempty clean =>
    wordsOf_run nonempty fun c member => by simpa using List.all_eq_true.mp clean c member
  have umask : endedWords isDelim (literal "Umask" ++ [58]) = [literal "Umask"] :=
    (endedWords_concat _ (by decide)).trans (word (by decide) (by decide))
  rw [head, endedWords_append_cons _ (by decide), word (by decide) (by decide),
    endedWords_append_cons _ (by decide), wordsOf_cons_of_delim (by decide), umask]
  rfl

namespace Lister

variable {s t : Lister} {status : Status}

/-- The status text of a process with a short name, in the array. -/
theorem read_head (s : Lister) (short : status.name.length ≤ 64) :
    ∃ (list : Buffer MAX) (beyond : List Byte),
      s.list.store 0 (status.text.take MAX) = .ok list ∧
        list.bytes = [] ++ (head status ++ beyond) := by
  obtain ⟨rest, text⟩ := text_eq status
  have size : (head status).length ≤ MAX := by
    have fixed : (literal "Name").length + (literal "Umask").length = 9 := by decide
    have room : MAX = 4096 := rfl
    simp only [head, List.length_append, List.length_cons, List.length_nil]
    omega
  have taken : status.text.take MAX = head status ++ rest.take (MAX - (head status).length) := by
    rw [text, List.take_append, List.take_of_length_le size]
  have fits : (status.text.take MAX).length ≤ s.list.bytes.length := by
    rw [s.list.size_eq]
    exact List.length_take_le ..
  have layout : s.list.bytes = [] ++ s.list.bytes.take (status.text.take MAX).length ++
      s.list.bytes.drop (status.text.take MAX).length := by
    rw [List.nil_append, List.take_append_drop]
  obtain ⟨list, stored, bytes⟩ := Buffer.store_eq layout (status.text.take MAX)
    (by rw [List.length_take, Nat.min_eq_left fits]) 0 rfl
  refine ⟨list, rest.take (MAX - (head status).length) ++
    s.list.bytes.drop (status.text.take MAX).length, stored, ?_⟩
  rw [bytes, taken, List.nil_append, List.nil_append, List.append_assoc]

/-- **The name of a process.** Whatever the array held before, `p_cmd` is the first word of the
name. -/
theorem readName_spec (s : Lister) (short : status.name.length ≤ 64) :
    ∃ t : Lister, Returns (s.readName status.text) t ∧ t.string = some (commandName status) ∧
      t.descriptors = s.descriptors ∧ t.stdout = s.stdout := by
  obtain ⟨list, beyond, stored, bytes⟩ := read_head s short
  obtain ⟨first, list₁, more₁, rest₁, found₁, bytes₁, points₁, noZero₁, ended₁⟩ :=
    Buffer.strtok_ended not_isDelim_zero bytes (noZero_head status) (endedWords_head status)
  obtain ⟨word, words, split, isName⟩ : ∃ word words,
      wordsOf isDelim status.name ++ [literal "Umask"] = word :: words ∧
        word = commandName status := by
    rw [commandName]
    cases wordsOf isDelim status.name with
    | nil => exact ⟨_, _, rfl, rfl⟩
    | cons word words => exact ⟨_, _, rfl, rfl⟩
  obtain ⟨second, list₂, more₂, rest₂, found₂, bytes₂, points₂, -, -⟩ :=
    Buffer.strtok_ended not_isDelim_zero bytes₁ noZero₁ (ended₁.trans split)
  refine ⟨{ s with
    list := list₂, saved := ([] ++ more₁ ++ more₂).length, command := some second }, ?_, ?_,
    rfl, rfl⟩
  · refine Returns.of_last fun fuel => ?_
    have found₁ : list.strtok isDelim 0 = _ := found₁
    rw [readName, stored, ok_bind, next]
    dsimp only
    rw [found₁, ok_bind]
    dsimp only
    rw [ok_bind, if_neg (by simp), findName]
    dsimp only
    have isKey : cstr (list₁.drop first) = literal "Name" := by
      rw [Buffer.drop, bytes₁, points₁.cstr_drop]
    rw [if_pos isKey, next]
    dsimp only
    rw [found₂, ok_bind]
    rfl
  · rw [string, Option.map_some]
    dsimp only
    rw [Buffer.drop, bytes₂, points₂.cstr_drop, isName]

/-! ## The files -/

theorem strcmp_path (link : Target) (file : List Byte) :
    strcmp (pad MAX link.path) file = .eq ↔ (link.path == cstr file) = true := by
  have path : cstr (pad MAX link.path) = link.path := by
    have padded := cstr_pad link.clean link.short []
    rwa [List.append_nil] at padded
  rw [strcmp_eq_iff, path, beq_iff_eq]

/-- The links of a process, one after the other. -/
theorem listFiles_eq {file name command : List Byte} {files : List (List Byte × Option Target)}
    (there : ∀ f ∈ files, startsWithDigit f.1 = true → f.2.isSome = true) {s : Lister}
    (named : s.string = some command) :
    s.listFiles file name files = .ok (true, { s with
      stdout := s.stdout ++ (links file files).flatMap fun _ => fileLine name command }) := by
  induction files generalizing s with
  | nil =>
      rw [links, List.filter_nil, List.flatMap_nil, List.append_nil]
      rfl
  | cons f files ih =>
      obtain ⟨entry, target⟩ := f
      have there' : ∀ f ∈ files, startsWithDigit f.1 = true → f.2.isSome = true :=
        fun f member => there f (List.mem_cons_of_mem _ member)
      rw [listFiles.eq_def, links, List.filter_cons]
      dsimp only
      by_cases digit : startsWithDigit entry = true
      · obtain ⟨link, rfl⟩ :=
          Option.isSome_iff_exists.mp (there _ (List.mem_cons_self ..) digit)
        rw [if_pos digit]
        dsimp only
        rw [digit, Option.any_some, Bool.true_and]
        by_cases same : strcmp (pad MAX link.path) file = .eq
        · rw [if_pos same, if_pos ((strcmp_path link file).mp same), named]
          dsimp only
          rw [@ih there' { s with stdout := s.stdout ++ fileLine name command } named,
            List.flatMap_cons, ← List.append_assoc]
          rfl
        · rw [if_neg same, if_neg fun equal => same ((strcmp_path link file).mpr equal),
            ih there' named]
          rfl
      · rw [if_neg digit, if_neg (by simp [digit]), ih there' named]
        rfl

theorem fileLine_eq (name command : List Byte) :
    fileLine name command = literal "Process ID = " ++ name ++ literal ", Command name = " ++
      command ++ [newline] := by
  simp only [fileLine, newline, List.append_assoc]

/-- A process, while there is a descriptor left. -/
theorem listProcess_spec {limit : Nat} {program file : List Byte} {e : ProcEntry}
    (readable : Readable e status) (digit : startsWithDigit e.name = true) {s : Lister}
    (room : s.descriptors < limit) :
    ∃ t : Lister, Returns (s.listProcess limit program file e) (true, t) ∧
      t.descriptors = s.descriptors + 1 ∧
      t.stdout = s.stdout ++ report file (s.descriptors + 1) e := by
  obtain ⟨t, named, command, descriptors, stdout⟩ := readName_spec s readable.short
  obtain ⟨files, opened, there⟩ := readable.files (s.descriptors + 1)
  refine ⟨{ t with
    descriptors := t.descriptors + 1
    stdout := t.stdout ++ (links file files).flatMap fun _ =>
      fileLine e.name (commandName status) }, ?_, by rw [descriptors], ?_⟩
  · have listed := @listFiles_eq file e.name _ _ there
      { t with descriptors := t.descriptors + 1 } command
    have opens : (if t.descriptors < limit then e.files (t.descriptors + 1) else none) =
        some files := by
      rw [descriptors, if_pos room, opened]
    have begins : s.listProcess limit program file e = fun fuel =>
        s.readName status.text fuel >>= fun t =>
          match if t.descriptors < limit then e.files (t.descriptors + 1) else none with
          | none => .ok (false, { t with stdout := t.stdout ++ denied program })
          | some files =>
            listFiles file e.name files { t with descriptors := t.descriptors + 1 } := by
      funext fuel
      rw [listProcess, if_pos digit, if_pos room, readable.status_eq]
    rw [begins]
    refine named.bind ?_
    rw [opens]
    dsimp only
    rw [listed]
    exact .of_ok
  · rw [stdout, report, opened, readable.status_eq]
    simp only [fileLine_eq]
    rfl

/-- Without one the program exits. -/
theorem listProcess_full {limit : Nat} (program file : List Byte) {e : ProcEntry}
    (digit : startsWithDigit e.name = true) {s : Lister} (full : limit ≤ s.descriptors) :
    Returns (s.listProcess limit program file e) (false, s) := by
  refine ⟨0, fun fuel _ => ?_⟩
  rw [listProcess, if_pos digit, if_neg (Nat.not_lt.mpr full)]

/-- **The loop over `/proc`.** -/
theorem listAll_spec {limit : Nat} {program file : List Byte} {proc : List ProcEntry}
    (readable : ∀ e ∈ proc, startsWithDigit e.name = true → ∃ status, Readable e status)
    {s : Lister} (room : s.descriptors ≤ limit) :
    ∃ t : Lister, Returns (fun fuel => listAll limit program file fuel proc s)
        (decide (s.descriptors + (processes proc).length ≤ limit), t) ∧
      t.stdout = s.stdout ++
        reports file s.descriptors ((processes proc).take (limit - s.descriptors)) := by
  induction proc generalizing s with
  | nil =>
      refine ⟨s, ?_, ?_⟩
      · rw [processes, List.filter_nil, List.length_nil, Nat.add_zero, decide_eq_true room]
        exact .of_ok
      · rw [processes, List.filter_nil, List.take_nil, reports, List.append_nil]
  | cons e proc ih =>
      have readable' : ∀ e ∈ proc, startsWithDigit e.name = true → ∃ status, Readable e status :=
        fun e member => readable e (List.mem_cons_of_mem _ member)
      rw [processes, List.filter_cons]
      by_cases digit : startsWithDigit e.name = true
      · rw [if_pos digit, List.length_cons]
        obtain ⟨status, here⟩ := readable e (List.mem_cons_self ..) digit
        by_cases more : s.descriptors < limit
        · obtain ⟨t, first, descriptors, stdout⟩ := listProcess_spec here digit more
          obtain ⟨u, others, stdout'⟩ := @ih readable' t (by omega)
          refine ⟨u, ?_, ?_⟩
          · have same : decide (t.descriptors + (processes proc).length ≤ limit) =
                decide (s.descriptors + ((processes proc).length + 1) ≤ limit) := by
              rw [descriptors]
              exact decide_eq_decide.mpr (by omega)
            rw [same] at others
            exact first.bind others
          · rw [stdout', stdout, descriptors, List.append_assoc,
              show limit - s.descriptors = limit - (s.descriptors + 1) + 1 by omega,
              List.take_succ_cons, reports]
            rfl
        · refine ⟨s, ?_, ?_⟩
          · rw [decide_eq_false (by omega)]
            exact (listProcess_full program file digit (by omega)).bind .of_ok
          · rw [show limit - s.descriptors = 0 by omega, List.take_zero, reports, List.append_nil]
      · rw [if_neg digit]
        obtain ⟨u, others, stdout⟩ := @ih readable' s room
        refine ⟨u, ?_, stdout⟩
        have skipped : Returns (s.listProcess limit program file e) (true, s) := by
          refine ⟨0, fun fuel _ => ?_⟩
          rw [listProcess, if_neg digit]
        exact skipped.bind others

end Lister

/-- One file name is looked for. -/
theorem main_of_asks {limit opened : Nat} {program file : List Byte}
    {arguments : List (List Byte)} (asks : Asks arguments file) {proc : List ProcEntry}
    (readable : ∀ e ∈ proc, startsWithDigit e.name = true → ∃ status, Readable e status)
    (list : Buffer MAX) :
    Returns (main limit opened program arguments proc list)
      (if opened + 1 + (processes proc).length ≤ limit then .success else .failure,
        reports file (opened + 1) ((processes proc).take (limit - (opened + 1)))) := by
  obtain ⟨rfl, named⟩ := asks
  have other : ¬ strcmp file (literal "--help") = .eq := by
    have help : cstr (literal "--help") = literal "--help" := by decide
    rwa [strcmp_eq_iff, help]
  by_cases room : opened < limit
  · obtain ⟨t, listed, stdout⟩ :=
      @Lister.listAll_spec limit program file proc readable ⟨list, 0, none, opened + 1, []⟩ room
    have begins : main limit opened program [file] proc list = fun fuel =>
        Lister.listAll limit program file fuel proc ⟨list, 0, none, opened + 1, []⟩ >>=
          fun (whole, s) => .ok (if whole then .success else .failure, s.stdout) := by
      funext fuel
      rw [main, if_neg other, if_pos room]
    rw [begins]
    refine listed.bind ?_
    dsimp only
    rw [stdout, List.nil_append]
    simp only [decide_eq_true_eq]
    exact .of_ok
  · rw [if_neg (by omega), show limit - (opened + 1) = 0 by omega, List.take_zero, reports]
    refine ⟨0, fun fuel _ => ?_⟩
    rw [main, if_neg other, if_neg room]

/-- Other arguments are answered with the usage. -/
theorem main_of_not_asks {limit opened : Nat} {program : List Byte}
    {arguments : List (List Byte)} (other : ∀ file, ¬ Asks arguments file)
    (proc : List ProcEntry) (list : Buffer MAX) :
    Returns (main limit opened program arguments proc list)
      (.failure, literal "usage: " ++ program ++ literal " [file name]\n") := by
  refine ⟨0, fun fuel _ => ?_⟩
  rw [main.eq_def, List.append_assoc]
  split
  next file =>
    have help : strcmp file (literal "--help") = .eq := by
      have same : cstr file = literal "--help" := by
        by_contra named
        exact other file ⟨rfl, named⟩
      rw [strcmp_eq_iff, same]
      decide
    rw [if_pos help]
    rfl
  · rfl

/-- **Main.** For one file name, and when it may read everything of every process, the program comes
to the end of `/proc` exactly when it has a descriptor for each process and one for `/proc`. In any
case it has reported on the first processes, as many as it had descriptors for: for each of them a
line for every link to the file, with the first word of the name of the process. For any other
arguments it shows its usage and fails. -/
theorem reports_and_ends (limit opened : Nat) (program : List Byte)
    (arguments : List (List Byte)) {proc : List ProcEntry}
    (readable : ∀ e ∈ proc, startsWithDigit e.name = true → ∃ status, Readable e status)
    (list : Buffer MAX) :
    (∀ file, Asks arguments file → Returns (main limit opened program arguments proc list)
      (if opened + 1 + (processes proc).length ≤ limit then .success else .failure,
        reports file (opened + 1) ((processes proc).take (limit - (opened + 1))))) ∧
    ((∀ file, ¬ Asks arguments file) → Returns (main limit opened program arguments proc list)
      (.failure, literal "usage: " ++ program ++ literal " [file name]\n")) :=
  ⟨fun _ asks => main_of_asks asks readable list, fun other => main_of_not_asks other proc list⟩

/-- `init`, with its standard input. -/
def initEntry : ProcEntry where
  name := literal "1"
  status := some initStatus
  files := fun _ => some [(literal "0", some ⟨literal "/dev/null", by decide, forall_of_all rfl⟩)]

theorem reports_and_ends_init :
    Asks [literal "/dev/null"] (literal "/dev/null") ∧
    Returns (main 1024 3 (literal "./file_open_list") [literal "/dev/null"] [initEntry]
        ⟨pad MAX [], length_pad (by decide)⟩)
      (.success, literal "Process ID = 1, Command name = init\n") := by
  have asks : Asks [literal "/dev/null"] (literal "/dev/null") := ⟨rfl, by decide⟩
  have readable : ∀ e ∈ [initEntry], startsWithDigit e.name = true →
      ∃ status, Readable e status := by
    intro e member _
    obtain rfl := List.mem_singleton.mp member
    refine ⟨initStatus, rfl, by decide, fun _ => ⟨_, rfl, ?_⟩⟩
    intro f inside _
    obtain rfl := List.mem_singleton.mp inside
    rfl
  exact ⟨asks, (reports_and_ends 1024 3 _ _ readable _).1 _ asks⟩

end LinuxExercises.ProcScan.OpenFiles
