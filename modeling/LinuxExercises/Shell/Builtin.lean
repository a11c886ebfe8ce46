import LinuxExercises.Foundations.Formatting
import LinuxExercises.Foundations.Faults

/-!
# The commands that the shell carries out itself

`is_builtin` looks the first word of a vector up in a table, and `do_builtin` calls the function
of its entry with the whole vector. The functions do not ask how long it is. `builtin` and
`echo` compare their first argument with a string whether it is there or not, and `echo -n`
converts its second one to a number and prints the word that lies two behind it, whatever
number that is.

They stay inside the vector, and use no NULL as a string, exactly when the arguments that they
look at are there and the number leads to a word (`behaves_iff`). Of the words behind the
number it is then the one that was asked for; 0, -1 and -2 lead to the number, to `-n` and to
`echo`.
-/

set_option autoImplicit false

namespace LinuxExercises.Shell

open Foundations

/-! ## The code -/

/-- What goes wrong with a vector: an entry is read that it has not got, or its NULL is used
as a string. -/
inductive ArgvFault where
  | outside (index : Int)
  | nullString
deriving Repr, DecidableEq

/-- What a function does when it does not go wrong: it prints, it calls `chdir` with an entry of
the vector, or it ends the shell, by `exit` or because the user has no name. -/
inductive Outcome where
  | prints (text : List Byte)
  | chdir (path : Option (List Byte))
  | exits (status : Exit)
  | crashes
deriving Repr, DecidableEq

/-- What the shell learns from the system: `uname`, `getcwd`, and the names of the user and of
the group. -/
structure Host where
  nodename : Option (List Byte)
  dir : Option (List Byte)
  uid : Nat
  gid : Nat
  pwName : Option (List Byte)
  grName : Option (List Byte)

/-- `argv[index]`. Behind the strings there is the NULL. -/
def entryAt (argv : List (List Byte)) (index : Int) : Except ArgvFault (Option (List Byte)) :=
  if 0 ≤ index ∧ index ≤ argv.length then .ok argv[index.toNat]? else .error (.outside index)

/-- `argv[index]`, passed to a function that reads a string. -/
def stringAt (argv : List (List Byte)) (index : Int) : Except ArgvFault (List Byte) :=
  match entryAt argv index with
  | .ok (some string) => .ok string
  | .ok none => .error .nullString
  | .error fault => .error fault

/-- A function of the table. -/
abbrev Handler := List (List Byte) → Except ArgvFault Outcome

/-- The loop of `echo` from an index on, and the newline behind it. -/
def echoFrom (argv : List (List Byte)) (count : Nat) : Except ArgvFault (List Byte) :=
  match entryAt argv count with
  | .ok (some word) =>
    if count < argv.length then (echoFrom argv (count + 1)).map (word ++ [32] ++ ·)
    else .error .nullString
  | .ok none => .ok [newline]
  | .error fault => .error fault
termination_by argv.length - count

/-- `bi_echo` of both shells. -/
def biEcho : Handler := fun argv => do
  let first ← stringAt argv 1
  if first = literal "-n" then do
    let second ← stringAt argv 2
    let word ← stringAt argv (asInt (atoiLong second + 2))
    .ok (.prints (word ++ [newline]))
  else do
    let text ← echoFrom argv 1
    .ok (.prints text)

/-- The keywords of the table. -/
def keywords : List (List Byte) :=
  [literal "builtin", literal "echo", literal "quit", literal "exit", literal "bye",
    literal "logout", literal "cd", literal "pwd", literal "id", literal "hostname"]

/-- `bi_builtin`. -/
def biBuiltin : Handler := fun argv => do
  let first ← stringAt argv 1
  if keywords.contains first then .ok (.prints (first ++ literal " is a bulltin feature.\n"))
  else .ok (.prints (first ++ literal " is NOT a bulltin feature.\n"))

/-- `bi_cd`. The message of a `chdir` that fails goes to the standard error. -/
def biCd : Handler := fun argv => do
  let first ← entryAt argv 1
  .ok (.chdir first)

/-- `bi_quit`, and `terminate` of SP_HW3. -/
def biQuit : Handler := fun _ => .ok (.exits .success)

section

variable (host : Host)

/-- `bi_hostname`. -/
def biHostname : Handler := fun _ =>
  match host.nodename with
  | none => .ok (.exits .failure)
  | some nodename => .ok (.prints (literal "hostname: " ++ nodename ++ [newline]))

/-- `bi_id`. A user or a group without an entry is a NULL pointer. -/
def biId : Handler := fun _ =>
  match host.pwName, host.grName with
  | some pwName, some grName =>
    .ok (.prints (literal "UserID = " ++ decimal host.uid ++ literal "(" ++ pwName ++
      literal "), GroupID = " ++ decimal host.gid ++ literal "(" ++ grName ++ literal ")\n"))
  | _, _ => .ok .crashes

/-- `bi_pwd`. -/
def biPwd : Handler := fun _ =>
  match host.dir with
  | none => .ok (.exits .failure)
  | some dir => .ok (.prints (dir ++ [newline]))

/-- `inbuilts` of SP_HW5. -/
def inbuilts : List (List Byte × Handler) :=
  [(literal "builtin", biBuiltin), (literal "echo", biEcho), (literal "quit", biQuit),
    (literal "exit", biQuit), (literal "bye", biQuit), (literal "logout", biQuit),
    (literal "cd", biCd), (literal "pwd", biPwd host), (literal "id", biId host),
    (literal "hostname", biHostname host)]

end

/-- `inbuilts` of SP_HW3. -/
def HW3.inbuilts : List (List Byte × Handler) :=
  [(literal "echo", biEcho), (literal "quit", biQuit), (literal "exit", biQuit),
    (literal "logout", biQuit), (literal "bye", biQuit)]

/-- `is_builtin`: the function of the first entry with this keyword. -/
def isBuiltin (table : List (List Byte × Handler)) (cmd : List Byte) : Option Handler :=
  (table.find? fun entry => entry.1 = cmd).map Prod.snd

/-- `do_builtin`, behind an `is_builtin` that has found the first word. -/
def doBuiltin (table : List (List Byte × Handler)) (argv : List (List Byte)) :
    Option (Except ArgvFault Outcome) :=
  argv.head?.bind fun cmd => (isBuiltin table cmd).map fun doIt => doIt argv

/-- `bi_builtin` looks through the keywords of the table. -/
theorem keywords_inbuilts (host : Host) : (inbuilts host).map Prod.fst = keywords := rfl

/-! ## Entries -/

theorem entryAt_of_le {argv : List (List Byte)} {index : Nat} (within : index ≤ argv.length) :
    entryAt argv index = .ok argv[index]? := by
  rw [entryAt, if_pos (by omega), Int.toNat_natCast]

theorem stringAt_of_lt {argv : List (List Byte)} {index : Nat} (within : index < argv.length) :
    stringAt argv index = .ok argv[index] := by
  rw [stringAt, entryAt_of_le (Nat.le_of_lt within), List.getElem?_eq_getElem within]

/-- Only the indices of the strings lead to one. -/
theorem stringAt_of_not {argv : List (List Byte)} {index : Int}
    (outside : ¬ (0 ≤ index ∧ index < argv.length)) :
    ∃ fault, stringAt argv index = .error fault := by
  by_cases last : index = argv.length
  · subst last
    refine ⟨.nullString, ?_⟩
    rw [stringAt, entryAt_of_le (Nat.le_refl _), List.getElem?_eq_none (Nat.le_refl _)]
  · refine ⟨.outside index, ?_⟩
    rw [stringAt, entryAt, if_neg (by omega)]

/-- The loop of `echo` prints the words and stops at the NULL. -/
theorem echoFrom_eq {argv : List (List Byte)} {count : Nat} (within : count ≤ argv.length) :
    echoFrom argv count =
      .ok ((argv.drop count).flatMap (fun word => word ++ [32]) ++ [newline]) := by
  induction left : argv.length - count generalizing count with
  | zero =>
      obtain rfl : count = argv.length := by omega
      rw [echoFrom, entryAt_of_le within, List.getElem?_eq_none within, List.drop_length]
      rfl
  | succ left ih =>
      have here : count < argv.length := by omega
      rw [echoFrom, entryAt_of_le within, List.getElem?_eq_getElem here]
      dsimp only
      rw [if_pos here, ih here (by omega), List.drop_eq_getElem_cons here, List.flatMap_cons,
        List.append_assoc]
      rfl

/-! ## What the functions need -/

/-- Nothing goes wrong with the vector. -/
def StaysInside (result : Except ArgvFault Outcome) : Prop := ∀ fault, result ≠ .error fault

/-- `echo -n k w1 ... wm` prints the word with the number `k`, when there is one. -/
def PrintsChosen (argv : List (List Byte)) (result : Except ArgvFault Outcome) : Prop :=
  ∀ (text : List Byte) (words : List (List Byte)) (k : Nat) (word : List Byte),
    argv = literal "echo" :: literal "-n" :: text :: words → atoiLong text = k + 1 →
    words[k]? = some word → result = .ok (.prints (word ++ [newline]))

/-- What the shell relies on. -/
structure Behaves (argv : List (List Byte)) (result : Except ArgvFault Outcome) : Prop where
  inside : StaysInside result
  chosen : PrintsChosen argv result

/-- The number of `echo -n` leads to one of the `m + 3` words of its vector, and adding 2 to it
is no overflow. -/
def Leads (number : Int) (m : Nat) : Prop := -2 ≤ number ∧ number ≤ m ∧ number + 2 < 2 ^ 31

/-- What `echo` needs. -/
def EchoServed : List (List Byte) → Prop
  | [] => False
  | first :: rest => first = literal "-n" →
      ∃ text words, rest = text :: words ∧ Leads (atoiLong text) words.length

/-- The arguments that the command looks at are there, and a number leads to a word. -/
structure Served (argv : List (List Byte)) : Prop where
  builtin : argv ≠ [literal "builtin"]
  echo : argv.head? = some (literal "echo") → EchoServed argv.tail

/-- Where the number leads, in terms of the index that is computed. -/
theorem leads_iff (text : List Byte) (m : Nat) :
    Leads (atoiLong text) m ↔
      0 ≤ asInt (atoiLong text + 2) ∧ asInt (atoiLong text + 2) < m + 3 := by
  obtain ⟨lower, upper⟩ : -2 ^ 31 ≤ atoiLong text ∧ atoiLong text < 2 ^ 31 :=
    asInt_bounds _
  by_cases fits : atoiLong text + 2 < 2 ^ 31
  · rw [asInt_of_bounds (by omega) fits, Leads]
    omega
  · -- The sum is no `int`, and wraps to a negative one.
    have wrapped : asInt (atoiLong text + 2) < 0 := by
      rw [asInt, Int.bmod]
      omega
    rw [Leads]
    omega

theorem staysInside_ok (outcome : Outcome) : StaysInside (.ok outcome) := by
  intro fault failed
  cases failed

/-- A computation that begins with a string that is not there goes wrong. -/
theorem not_staysInside_bind {argv : List (List Byte)} {index : Int}
    {next : List Byte → Except ArgvFault Outcome}
    (outside : ¬ (0 ≤ index ∧ index < argv.length)) :
    ¬ StaysInside (stringAt argv index >>= next) := by
  obtain ⟨fault, failed⟩ := stringAt_of_not outside
  intro inside
  apply inside fault
  rw [failed]
  rfl

/-- A string that is there is handed on. -/
theorem stringAt_bind {argv : List (List Byte)} {index : Nat} (within : index < argv.length)
    (next : List Byte → Except ArgvFault Outcome) :
    (stringAt argv index >>= next) = next argv[index] := by
  rw [stringAt_of_lt within]
  rfl

/-- `echo` with an argument. -/
theorem biEcho_cons (cmd first : List Byte) (rest : List (List Byte)) :
    biEcho (cmd :: first :: rest) =
      if first = literal "-n" then
        stringAt (cmd :: first :: rest) 2 >>= fun second =>
          stringAt (cmd :: first :: rest) (asInt (atoiLong second + 2)) >>= fun word =>
            .ok (.prints (word ++ [newline]))
      else echoFrom (cmd :: first :: rest) 1 >>= fun text => .ok (.prints text) :=
  stringAt_bind (by simp : 1 < (cmd :: first :: rest).length) _

/-- **The option.** `echo -n` stays inside the vector exactly when its number leads to a
word. -/
theorem biEcho_option {cmd text : List Byte} {words : List (List Byte)} :
    (StaysInside (biEcho (cmd :: literal "-n" :: text :: words)) ↔
      Leads (atoiLong text) words.length) ∧
    ∀ {k : Nat} {word : List Byte}, atoiLong text = k + 1 → words[k]? = some word →
      k + 3 < 2 ^ 31 →
      biEcho (cmd :: literal "-n" :: text :: words) = .ok (.prints (word ++ [newline])) := by
  have unfolded : biEcho (cmd :: literal "-n" :: text :: words) =
      (stringAt (cmd :: literal "-n" :: text :: words) (asInt (atoiLong text + 2)) >>=
        fun word => .ok (.prints (word ++ [newline]))) := by
    rw [biEcho_cons, if_pos rfl]
    exact stringAt_bind (by simp : 2 < (cmd :: literal "-n" :: text :: words).length) _
  rw [unfolded, leads_iff]
  constructor
  · by_cases leads : 0 ≤ asInt (atoiLong text + 2) ∧ asInt (atoiLong text + 2) < words.length + 3
    · refine iff_of_true ?_ leads
      obtain ⟨index, same⟩ := Int.eq_ofNat_of_zero_le leads.1
      rw [same] at leads ⊢
      rw [stringAt_bind (by simp only [List.length_cons]; omega)]
      exact staysInside_ok _
    · refine iff_of_false (not_staysInside_bind ?_) leads
      have length : (cmd :: literal "-n" :: text :: words).length = words.length + 3 := rfl
      omega
  · intro k word number found small
    obtain ⟨within, rfl⟩ := List.getElem?_eq_some_iff.mp found
    have index : asInt (atoiLong text + 2) = (k + 3 : Nat) := by
      rw [number, asInt_of_bounds (by omega) (by omega)]
      omega
    rw [index, stringAt_bind (by simp only [List.length_cons]; omega)]
    rfl

/-- With a numeral it prints the word that the numeral counts to. -/
theorem biEcho_decimal {cmd word : List Byte} {words : List (List Byte)} {k : Nat}
    (found : words[k]? = some word) (small : k + 3 < 2 ^ 31) :
    biEcho (cmd :: literal "-n" :: decimal (k + 1) :: words) =
      .ok (.prints (word ++ [newline])) :=
  biEcho_option.2 (atoiLong_decimal (by omega)) found small

/-- What `echo` needs for its vector. -/
theorem staysInside_biEcho_iff (cmd : List Byte) (args : List (List Byte)) :
    StaysInside (biEcho (cmd :: args)) ↔ EchoServed args := by
  cases args with
  | nil =>
      refine iff_of_false (not_staysInside_bind ?_) id
      simp
  | cons first rest =>
      by_cases option : first = literal "-n"
      · subst option
        cases rest with
        | nil =>
            refine iff_of_false ?_ fun served => ?_
            · rw [biEcho_cons, if_pos rfl]
              exact not_staysInside_bind (by simp)
            · obtain ⟨text, words, none, -⟩ := served rfl
              cases none
        | cons text words =>
            rw [biEcho_option.1, EchoServed]
            constructor
            · exact fun leads _ => ⟨text, words, rfl, leads⟩
            · intro served
              obtain ⟨_, _, same, leads⟩ := served rfl
              cases same
              exact leads
      · refine iff_of_true ?_ fun same => absurd same option
        rw [biEcho_cons, if_neg option, echoFrom_eq (by simp)]
        exact staysInside_ok _

/-- `echo` prints the chosen word, when adding 2 to its number is no overflow. -/
theorem printsChosen_biEcho {args : List (List Byte)} (served : EchoServed args) :
    PrintsChosen (literal "echo" :: args) (biEcho (literal "echo" :: args)) := by
  intro text words k word same number found
  obtain rfl := (List.cons.inj same).2
  obtain ⟨_, _, same, -, -, small⟩ := served rfl
  cases same
  exact biEcho_option.2 number found (by omega)

/-! ## The tables -/

/-- A function that the table has for a word behaves for the vectors that are served. -/
def Serves (cmd : List Byte) (handler : Handler) : Prop :=
  ∀ args, Behaves (cmd :: args) (handler (cmd :: args)) ↔ Served (cmd :: args)

/-- Another word than `echo` asks for no chosen word. -/
theorem printsChosen_of_ne {cmd : List Byte} (different : cmd ≠ literal "echo")
    (args : List (List Byte)) (result : Except ArgvFault Outcome) :
    PrintsChosen (cmd :: args) result := by
  intro text words k word same
  exact absurd (List.cons.inj same).1 different

theorem serves_echo : Serves (literal "echo") biEcho := by
  intro args
  constructor
  · intro behaves
    refine ⟨?_, fun _ => (staysInside_biEcho_iff _ args).mp behaves.inside⟩
    intro same
    exact absurd (List.cons.inj same).1 (by decide)
  · intro served
    have echo := served.echo rfl
    exact ⟨(staysInside_biEcho_iff _ args).mpr echo, printsChosen_biEcho echo⟩

theorem serves_builtin : Serves (literal "builtin") biBuiltin := by
  intro args
  have notEcho : literal "builtin" ≠ literal "echo" := by decide
  have noEcho : (literal "builtin" :: args).head? = some (literal "echo") →
      EchoServed (literal "builtin" :: args).tail :=
    fun same => absurd (Option.some.inj same) notEcho
  cases args with
  | nil =>
      refine iff_of_false (fun behaves => ?_) fun served => served.builtin rfl
      exact not_staysInside_bind (by simp) behaves.inside
  | cons first rest =>
      refine iff_of_true ⟨?_, printsChosen_of_ne notEcho _ _⟩ ⟨by simp, noEcho⟩
      have read : biBuiltin (literal "builtin" :: first :: rest) = _ :=
        stringAt_bind (by simp : 1 < (literal "builtin" :: first :: rest).length) _
      rw [read]
      dsimp only [List.getElem_cons_succ, List.getElem_cons_zero]
      split
      · exact staysInside_ok _
      · exact staysInside_ok _

/-- A function that never goes wrong serves every other word. -/
theorem serves_of_staysInside {cmd : List Byte} {handler : Handler}
    (notBuiltin : cmd ≠ literal "builtin") (notEcho : cmd ≠ literal "echo")
    (inside : ∀ args, StaysInside (handler (cmd :: args))) : Serves cmd handler := by
  intro args
  refine iff_of_true ⟨inside args, printsChosen_of_ne notEcho _ _⟩ ⟨?_, ?_⟩
  · exact fun same => notBuiltin (List.cons.inj same).1
  · exact fun same => absurd (Option.some.inj same) notEcho

theorem serves_biQuit {cmd : List Byte} (notBuiltin : cmd ≠ literal "builtin")
    (notEcho : cmd ≠ literal "echo") : Serves cmd biQuit :=
  serves_of_staysInside notBuiltin notEcho fun _ => staysInside_ok _

theorem staysInside_biCd (cmd : List Byte) (args : List (List Byte)) :
    StaysInside (biCd (cmd :: args)) := by
  rw [biCd, show (1 : Int) = (1 : Nat) from rfl, entryAt_of_le (by simp)]
  exact staysInside_ok _

theorem staysInside_biHostname (host : Host) (argv : List (List Byte)) :
    StaysInside (biHostname host argv) := by
  rw [biHostname]
  split
  · exact staysInside_ok _
  · exact staysInside_ok _

theorem staysInside_biId (host : Host) (argv : List (List Byte)) :
    StaysInside (biId host argv) := by
  rw [biId]
  split
  · exact staysInside_ok _
  · exact staysInside_ok _

theorem staysInside_biPwd (host : Host) (argv : List (List Byte)) :
    StaysInside (biPwd host argv) := by
  rw [biPwd]
  split
  · exact staysInside_ok _
  · exact staysInside_ok _

/-- Every entry of the table of SP_HW5 serves its keyword. -/
theorem serves_inbuilts (host : Host) :
    ∀ entry ∈ inbuilts host, Serves entry.1 entry.2 := by
  simp only [inbuilts, List.forall_mem_cons]
  refine ⟨serves_builtin, serves_echo, ?_, ?_, ?_, ?_, ?_, ?_, ?_, ?_, by simp⟩
  · exact serves_biQuit (by decide) (by decide)
  · exact serves_biQuit (by decide) (by decide)
  · exact serves_biQuit (by decide) (by decide)
  · exact serves_biQuit (by decide) (by decide)
  · exact serves_of_staysInside (by decide) (by decide) (staysInside_biCd _)
  · exact serves_of_staysInside (by decide) (by decide) fun _ => staysInside_biPwd host _
  · exact serves_of_staysInside (by decide) (by decide) fun _ => staysInside_biId host _
  · exact serves_of_staysInside (by decide) (by decide) fun _ => staysInside_biHostname host _

/-- So does every entry of the table of SP_HW3. -/
theorem HW3.serves_inbuilts : ∀ entry ∈ HW3.inbuilts, Serves entry.1 entry.2 := by
  simp only [HW3.inbuilts, List.forall_mem_cons]
  refine ⟨serves_echo, ?_, ?_, ?_, ?_, by simp⟩
  · exact serves_biQuit (by decide) (by decide)
  · exact serves_biQuit (by decide) (by decide)
  · exact serves_biQuit (by decide) (by decide)
  · exact serves_biQuit (by decide) (by decide)

/-- What `do_builtin` calls is an entry of the table. -/
theorem behaves_iff_of_table {table : List (List Byte × Handler)}
    (serves : ∀ entry ∈ table, Serves entry.1 entry.2) {argv : List (List Byte)}
    {result : Except ArgvFault Outcome} (called : doBuiltin table argv = some result) :
    Behaves argv result ↔ Served argv := by
  obtain ⟨cmd, first, called⟩ := Option.bind_eq_some_iff.mp called
  obtain ⟨args, rfl⟩ := List.head?_eq_some_iff.mp first
  obtain ⟨handler, found, rfl⟩ := Option.map_eq_some_iff.mp called
  obtain ⟨entry, listed, rfl⟩ := Option.map_eq_some_iff.mp found
  have keyword := List.find?_some listed
  rw [decide_eq_true_eq] at keyword
  have served := serves entry (List.mem_of_find?_eq_some listed)
  rw [keyword] at served
  exact served args

/-- **Builtins.** For every vector whose first word is in the table, the function stays inside
the vector, uses no NULL as a string, and prints the word that `echo -n` was asked for, exactly
when the arguments that it looks at are there and a number leads to a word. -/
theorem behaves_iff (host : Host) (argv : List (List Byte)) :
    (∀ result, doBuiltin (inbuilts host) argv = some result →
      (Behaves argv result ↔ Served argv)) ∧
    (∀ result, doBuiltin HW3.inbuilts argv = some result →
      (Behaves argv result ↔ Served argv)) :=
  ⟨fun _ called => behaves_iff_of_table (serves_inbuilts host) called,
    fun _ called => behaves_iff_of_table HW3.serves_inbuilts called⟩

/-- A host without names. -/
def bareHost : Host where
  nodename := none
  dir := none
  uid := 0
  gid := 0
  pwName := none
  grName := none

/-- The vector of `echo -n 2 one two three`. -/
def echoTwo : List (List Byte) :=
  [literal "echo", literal "-n", literal "2", literal "one", literal "two", literal "three"]

theorem behaves_echoTwo :
    doBuiltin (inbuilts bareHost) echoTwo = some (.ok (.prints (literal "two\n"))) ∧
      doBuiltin HW3.inbuilts echoTwo = some (.ok (.prints (literal "two\n"))) ∧
      (Behaves echoTwo (.ok (.prints (literal "two\n"))) ↔ Served echoTwo) :=
  ⟨by decide, by decide, (behaves_iff bareHost echoTwo).1 _ (by decide)⟩

/-- The line `echo` alone compares a NULL, and `echo -n 1` prints one. -/
theorem not_behaves :
    doBuiltin (inbuilts bareHost) [literal "echo"] = some (.error .nullString) ∧
      ¬ Behaves [literal "echo"] (.error .nullString) ∧
      doBuiltin HW3.inbuilts [literal "echo", literal "-n", literal "1"] =
        some (.error .nullString) ∧
      ¬ Behaves [literal "echo", literal "-n", literal "1"] (.error .nullString) :=
  ⟨by decide, fun behaves => behaves.inside _ rfl, by decide, fun behaves => behaves.inside _ rfl⟩

end LinuxExercises.Shell
