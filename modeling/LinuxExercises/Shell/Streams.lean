import LinuxExercises.Foundations.Buffer
import LinuxExercises.Foundations.Filters
import LinuxExercises.Shell.Redirection

/-!
# What a pipeline computes

The programs that `pipe_and_exec` has started run at the same time, each reads its standard input
and writes to its standard output, byte by byte and in any order. What they do with each other
follows from their descriptor tables. A read from an empty pipe waits while a process that has not
ended has the write end open, and otherwise returns the end of the file. A write into a pipe kills
the writer with SIGPIPE when no process that has not ended has the read end open, and waits while
the pipe is full.

When the programs are filters, the network simulates the chain of these filters
(`Network.step_chain`): that each pipe has its write end in one process alone makes the end of the
file come when the predecessor has ended, and no writer loses its reader, since a reader ends behind
the end of its input only. So a pipeline computes the composition of its commands, from the file
that its input is redirected from into the file that its output is redirected to
(`computes_runChild`).
-/

set_option autoImplicit false

namespace LinuxExercises.Shell

open Foundations

/-! ## Programs at work -/

/-- A program that has been started, with what it is about to do. -/
structure Running where
  program : Program
  stage : Stage Byte

namespace Running

/-- A process that has not ended has the file open. -/
def holds (p : Running) (f : OpenFile) : Bool :=
  !p.stage.isEnded && p.program.fds.contains (some f)

end Running

/-- The programs of a vector at work: what can be read from an open file, and what was written
to it. What can be read from the read end of a pipe is what the pipe holds. -/
structure Network where
  processes : List Running
  contents : OpenFile → List Byte
  written : OpenFile → List Byte

namespace Network

/-- Nothing will come into the file any more: it is no pipe, or nobody has the write end. -/
def closed (net : Network) : OpenFile → Bool
  | .readEnd pipe => !net.processes.any fun p => p.holds (.writeEnd pipe)
  | _ => true

/-- A process goes on. -/
def goOn (net : Network) (k : Nat) (p : Running) (stage : Stage Byte) : Network :=
  { net with processes := net.processes.set k { p with stage := stage } }

/-- A step of one process. A pipe has room for `capacity` bytes. -/
def step (capacity : Nat) (net : Network) (k : Nat) : Option Network :=
  match net.processes[k]? with
  | none => none
  | some p =>
    match p.stage.demand with
    | .nothing => none
    | .exit => some (net.goOn k p .ended)
    | .read next =>
      match p.program.stdin with
      | none => some (net.goOn k p (next none))
      | some f =>
        match net.contents f with
        | b :: rest =>
          some { net.goOn k p (next (some b)) with contents := Function.update net.contents f rest }
        | [] => if net.closed f then some (net.goOn k p (next none)) else none
    | .write b next =>
      match p.program.stdout with
      | none => some (net.goOn k p next)
      | some (.writeEnd pipe) =>
        let held := net.contents (.readEnd pipe)
        if net.processes.any fun q => q.holds (.readEnd pipe) then
          if held.length < capacity then
            some { net.goOn k p next with
              contents := Function.update net.contents (.readEnd pipe) (held ++ [b]) }
          else none
        else some (net.goOn k p .ended)
      | some f =>
        some { net.goOn k p next with
          written := Function.update net.written f (net.written f ++ [b]) }

/-- The programs at their start. -/
def start (behaviour : List String → StreamFilter Byte) (programs : List Program)
    (contents written : OpenFile → List Byte) : Network where
  processes := programs.map fun p => ⟨p, Stage.start (behaviour p.argv)⟩
  contents := contents
  written := written

/-! ## The network as a chain -/

/-- A process with what it can read. -/
def link (contents : OpenFile → List Byte) (p : Running) : Link Byte where
  stage := p.stage
  inbox := p.program.stdin.elim [] contents

/-- What a network is as a chain that writes to `output`. -/
def chain (output : OpenFile) (net : Network) : Chain Byte where
  links := net.processes.map (link net.contents)
  written := net.written output

end Network

/-- The programs are connected one behind the other, between two files that are no pipes. -/
structure Wired (input output : OpenFile) (programs : List Program) : Prop where
  notRead : ∀ pipe, input ≠ .readEnd pipe
  notWrite : ∀ pipe, output ≠ .writeEnd pipe
  first : ∀ {p}, programs[0]? = some p → p.stdin = some input
  last : ∀ {k p}, programs[k]? = some p → programs[k + 1]? = none → p.stdout = some output
  between : ∀ {k p q}, programs[k]? = some p → programs[k + 1]? = some q →
    ∃ pipe, p.stdout = some (.writeEnd pipe) ∧ q.stdin = some (.readEnd pipe) ∧
      ∀ {j r fd}, programs[j]? = some r → r.fds.file fd = some (.writeEnd pipe) → j = k
  alone : ∀ {j k : Nat} {p q : Program} {f : OpenFile}, programs[j]? = some p →
    programs[k]? = some q → p.stdin = some f → q.stdin = some f → j = k

/-- The processes are wired, and who has seen the end of its input has nothing left to read. -/
structure Ready (input output : OpenFile) (net : Network) : Prop where
  wired : Wired input output (net.processes.map Running.program)
  orderly : Orderly true (net.chain output).links

theorem Running.holds_iff {p : Running} {f : OpenFile} :
    p.holds f = true ↔ p.stage.isEnded = false ∧ ∃ fd, p.program.fds.file fd = some f := by
  rw [Running.holds, Bool.and_eq_true, Bool.not_eq_true', List.contains_iff_mem]
  refine and_congr_right fun _ => ⟨Descriptors.file_of_mem, ?_⟩
  rintro ⟨fd, has⟩
  exact Descriptors.mem_of_file has

namespace Network

variable {input output : OpenFile} {net : Network} {k : Nat} {p : Running}

/-- What can be read from a file is seen by the process that reads it alone. -/
theorem map_link_update (contents : OpenFile → List Byte) (text : List Byte)
    {processes : List Running} {f : OpenFile} (here : processes[k]? = some p)
    (reads : p.program.stdin = some f)
    (alone : ∀ {j : Nat} {q : Running}, processes[j]? = some q → q.program.stdin = some f → j = k) :
    processes.map (link (Function.update contents f text)) =
      (processes.map (link contents)).set k ⟨p.stage, text⟩ := by
  apply List.ext_getElem?
  intro j
  by_cases same : j = k
  · subst same
    obtain ⟨inside, -⟩ := List.getElem?_eq_some_iff.mp here
    rw [List.getElem?_map, here, List.getElem?_set_self (by rwa [List.length_map])]
    simp [link, reads]
  · rw [List.getElem?_set_ne (Ne.symm same), List.getElem?_map, List.getElem?_map]
    cases there : processes[j]? with
    | none => rfl
    | some q =>
        have other : q.program.stdin ≠ some f := fun reads => same (alone there reads)
        have unchanged : link (Function.update contents f text) q = link contents q := by
          rw [link, link]
          cases file : q.program.stdin with
          | none => rfl
          | some g =>
              have different : g ≠ f := fun equal => other (equal ▸ file)
              rw [Option.elim, Option.elim, Function.update_of_ne different]
        rw [Option.map_some, Option.map_some, unchanged]

theorem getElem?_programs (here : net.processes[k]? = some p) :
    (net.processes.map Running.program)[k]? = some p.program := by
  rw [List.getElem?_map, here, Option.map_some]

theorem getElem?_links (output : OpenFile) (here : net.processes[k]? = some p) :
    (net.chain output).links[k]? = some (link net.contents p) := by
  rw [chain, List.getElem?_map, here, Option.map_some]

/-- **The end of the file** comes when the process in front has ended. -/
theorem closed_eq_shut (ready : Ready input output net) (here : net.processes[k]? = some p)
    {f : OpenFile} (reads : p.program.stdin = some f) :
    net.closed f = shut ((net.chain output).links.take k) := by
  cases k with
  | zero =>
      have first : f = input :=
        Option.some.inj (reads.symm.trans (ready.wired.first (getElem?_programs here)))
      subst first
      cases f with
      | readEnd pipe => exact absurd rfl (ready.wired.notRead pipe)
      | _ => rfl
  | succ j =>
      obtain ⟨q, before⟩ : ∃ q, net.processes[j]? = some q := by
        have inside := (List.getElem?_eq_some_iff.mp here).1
        exact ⟨_, List.getElem?_eq_getElem (by omega)⟩
      obtain ⟨pipe, stdout, stdin, only⟩ :=
        ready.wired.between (getElem?_programs before) (getElem?_programs here)
      have file : f = .readEnd pipe := Option.some.inj (reads.symm.trans stdin)
      rw [Chain.shut_take (getElem?_links output before), file, closed, link]
      cases ended : q.stage.isEnded with
      | false =>
          have holds : q.holds (.writeEnd pipe) = true := Running.holds_iff.mpr ⟨ended, 1, stdout⟩
          rw [List.any_eq_true.mpr ⟨q, List.mem_of_getElem? before, holds⟩]
          rfl
      | true =>
          rw [Bool.not_eq_true', List.any_eq_false]
          intro r member holds
          obtain ⟨busy, fd, has⟩ := Running.holds_iff.mp holds
          obtain ⟨i, there⟩ := List.mem_iff_getElem?.mp member
          have same : i = j := only (getElem?_programs there) has
          subst same
          cases there.symm.trans before
          exact absurd (busy.symm.trans ended) Bool.false_ne_true

/-- No writer loses its reader. -/
theorem any_holds_readEnd (ready : Ready input output net) (here : net.processes[k]? = some p)
    {q : Running} (behind : net.processes[k + 1]? = some q) (busy : p.stage.isEnded = false)
    {pipe : Nat} (reads : q.program.stdin = some (.readEnd pipe)) :
    net.processes.any (fun r => r.holds (.readEnd pipe)) = true := by
  have alive : q.stage.isEnded = false :=
    Chain.busy_behind ready.orderly (getElem?_links output here) (getElem?_links output behind) busy
  exact List.any_eq_true.mpr
    ⟨q, List.mem_of_getElem? behind, Running.holds_iff.mpr ⟨alive, 0, reads⟩⟩

theorem chain_goOn (output : OpenFile) (net : Network) (k : Nat) (p : Running)
    (stage : Stage Byte) :
    (net.goOn k p stage).chain output =
      { net.chain output with
        links := (net.chain output).links.set k ⟨stage, (link net.contents p).inbox⟩ } := by
  simp [chain, goOn, link]

/-- What a process goes on to is seen in its place, and what a file holds then in the place of the
process that reads it. -/
theorem chain_goOn_update (ready : Ready input output net) (here : net.processes[k]? = some p)
    (stage : Stage Byte) {j : Nat} {q : Running} (there : net.processes[j]? = some q)
    {f : OpenFile} (reads : q.program.stdin = some f) (text : List Byte) :
    ({ net.goOn k p stage with contents := Function.update net.contents f text }).chain output =
      { net.chain output with
        links := ((net.chain output).links.set k ⟨stage, (link net.contents p).inbox⟩).set j
          ⟨if j = k then stage else q.stage, text⟩ } := by
  obtain ⟨inside, -⟩ := List.getElem?_eq_some_iff.mp here
  have programs : ∀ i : Nat, ((net.goOn k p stage).processes[i]?).map Running.program =
      (net.processes[i]?).map Running.program := by
    intro i
    rw [goOn, List.getElem?_set]
    split
    next same => rw [← same, here]; rfl
    next => rfl
  have now : (net.goOn k p stage).processes[j]? =
      some { q with stage := if j = k then stage else q.stage } := by
    rw [goOn]
    by_cases same : j = k
    · subst same
      cases there.symm.trans here
      rw [List.getElem?_set_self inside, if_pos rfl]
    · rw [List.getElem?_set_ne (Ne.symm same), there, if_neg same]
  have alone : ∀ {i : Nat} {r : Running}, (net.goOn k p stage).processes[i]? = some r →
      r.program.stdin = some f → i = j := by
    intro i r at_i stdin
    have program : (net.processes.map Running.program)[i]? = some r.program := by
      rw [List.getElem?_map, ← programs, at_i, Option.map_some]
    exact ready.wired.alone program (getElem?_programs there) stdin reads
  have links := map_link_update net.contents text now reads alone
  have before := congrArg Chain.links (chain_goOn output net k p stage)
  rw [chain]
  refine congrArg (Chain.mk · _) (links.trans ?_)
  exact congrArg (List.set · _ _) before

/-- Every process has a file to read. -/
theorem exists_stdin (ready : Ready input output net) (here : net.processes[k]? = some p) :
    ∃ f, p.program.stdin = some f := by
  cases k with
  | zero => exact ⟨input, ready.wired.first (getElem?_programs here)⟩
  | succ j =>
      obtain ⟨q, before⟩ : ∃ q, net.processes[j]? = some q := by
        have inside := (List.getElem?_eq_some_iff.mp here).1
        exact ⟨_, List.getElem?_eq_getElem (by omega)⟩
      obtain ⟨pipe, -, stdin, -⟩ :=
        ready.wired.between (getElem?_programs before) (getElem?_programs here)
      exact ⟨_, stdin⟩

/-- **The simulation.** A step of the network is a step of the chain. -/
theorem step_chain (ready : Ready input output net) (capacity k : Nat) :
    (net.step capacity k).map (chain output) = (net.chain output).step capacity k := by
  cases here : net.processes[k]? with
  | none =>
      have none : (net.chain output).links[k]? = none := by
        rw [chain, List.getElem?_map, here, Option.map_none]
      rw [step, here, Chain.step, none]
      rfl
  | some p =>
      have link := getElem?_links output here
      rw [step, here, Chain.step, link]
      simp only [Network.link]
      cases demand : p.stage.demand with
      | nothing => rfl
      | exit => exact congrArg some (chain_goOn output net k p _)
      | read next =>
          obtain ⟨f, reads⟩ := exists_stdin ready here
          cases held : net.contents f with
          | cons b rest =>
            simp only [reads, held, Option.elim, Option.map_some]
            rw [chain_goOn_update ready here _ here reads, if_pos rfl, List.set_set]
          | nil =>
            simp only [reads, held, Option.elim, closed_eq_shut ready here reads]
            split
            · rw [Option.map_some, chain_goOn, Network.link, reads]
              simp only [Option.elim, held]
            · rfl
      | write b next =>
          have busy : p.stage.isEnded = false := Stage.isEnded_of_demand demand (by simp)
          cases behind : net.processes[k + 1]? with
          | none =>
              have stdout : p.program.stdout = some output := by
                refine ready.wired.last (getElem?_programs here) ?_
                rw [List.getElem?_map, behind, Option.map_none]
              have last : (net.chain output).links[k + 1]? = none := by
                rw [chain, List.getElem?_map, behind, Option.map_none]
              cases output with
              | writeEnd pipe => exact absurd rfl (ready.wired.notWrite pipe)
              | _ =>
                simp only [stdout, last, Option.map_some]
                simp [chain, goOn, Network.link]
          | some q =>
              obtain ⟨pipe, stdout, stdin, -⟩ :=
                ready.wired.between (getElem?_programs here) (getElem?_programs behind)
              have alive := any_holds_readEnd ready here behind busy stdin
              simp only [stdout, alive, if_true, getElem?_links output behind, Network.link, stdin,
                Option.elim]
              split
              · rw [Option.map_some, chain_goOn_update ready here _ behind stdin,
                  if_neg (Nat.succ_ne_self k)]
                rfl
              · rfl

/-- A step replaces what one process goes on to. -/
theorem step_processes {capacity : Nat} {after : Network}
    (taken : net.step capacity k = some after) :
    ∃ p stage, net.processes[k]? = some p ∧
      after.processes = net.processes.set k { p with stage := stage } := by
  cases here : net.processes[k]? with
  | none => simp [step, here] at taken
  | some p =>
      refine ⟨p, ?_⟩
      simp only [step, here] at taken
      repeat' split at taken
      all_goals first
        | cases taken
          exact ⟨_, rfl, rfl⟩
        | cases taken

theorem step_programs {capacity : Nat} {after : Network}
    (taken : net.step capacity k = some after) :
    after.processes.map Running.program = net.processes.map Running.program := by
  obtain ⟨p, stage, here, processes⟩ := step_processes taken
  obtain ⟨inside, rfl⟩ := List.getElem?_eq_some_iff.mp here
  have old : (net.processes.map Running.program)[k]? = some net.processes[k].program := by
    rw [List.getElem?_map, here, Option.map_some]
  obtain ⟨bound, same⟩ := List.getElem?_eq_some_iff.mp old
  rw [processes, List.map_set]
  dsimp only
  rw [← same, List.set_getElem_self]

/-- **The step lemma.** -/
theorem step_ready {capacity : Nat} {after : Network} (ready : Ready input output net)
    (taken : net.step capacity k = some after) :
    Ready input output after ∧
      (net.chain output).step capacity k = some (after.chain output) := by
  have simulated : (net.chain output).step capacity k = some (after.chain output) := by
    rw [← step_chain ready, taken, Option.map_some]
  refine ⟨⟨?_, Chain.step_orderly simulated ready.orderly⟩, simulated⟩
  rw [step_programs taken]
  exact ready.wired

theorem chain_start {behaviour : List String → StreamFilter Byte} {programs : List Program}
    {contents written : OpenFile → List Byte} (wired : Wired input output programs)
    (empty : ∀ pipe, contents (.readEnd pipe) = []) :
    (start behaviour programs contents written).chain output =
      Chain.start (programs.map fun p => behaviour p.argv) (contents input) (written output) := by
  cases programs with
  | nil => rfl
  | cons first others =>
      have inbox : first.stdin.elim [] contents = contents input := by
        rw [wired.first rfl]
        rfl
      have inboxes : ∀ q ∈ others, q.stdin.elim [] contents = [] := by
        intro q member
        obtain ⟨k, behind⟩ := List.mem_iff_getElem?.mp member
        obtain ⟨p, before⟩ : ∃ p, (first :: others)[k]? = some p := by
          have inside := (List.getElem?_eq_some_iff.mp behind).1
          exact ⟨_, List.getElem?_eq_getElem (by rw [List.length_cons]; omega)⟩
        obtain ⟨pipe, -, stdin, -⟩ := wired.between before behind
        rw [stdin]
        exact empty pipe
      rw [List.map_cons, Chain.start_cons, chain, start]
      simp only [List.map_cons, List.map_map, link, inbox]
      congr 2
      exact List.map_congr_left fun q member => congrArg (Link.mk _) (inboxes q member)

end Network

/-! ## Pipelines -/

/-- The stages of a pipeline are wired. -/
theorem Stages.wired {commands : List Command} {fds : Descriptors OpenFile} {next : Nat}
    {programs : List Program} (stages : Stages commands fds next programs)
    (clean : NoWriteEnd fds) {input output : OpenFile} (stdin : fds.file 0 = some input)
    (stdout : fds.file 1 = some output) (noRead : ∀ pipe, input ≠ .readEnd pipe) :
    Wired input output programs where
  notRead := noRead
  notWrite := fun pipe same => clean 1 pipe (same ▸ stdout)
  first := fun first => (stages.stdin first).trans stdin
  last := by
    intro k p at_k behind
    have length := congrArg List.length stages.argv
    rw [List.length_map, List.length_map] at length
    have beyond := List.getElem?_eq_none_iff.mp behind
    rw [stages.stdout at_k, if_neg (by omega), stdout]
  between := stages.connected.pipes
  alone := by
    intro j k p q f at_j at_k reads also
    rw [stages.stdin at_j] at reads
    rw [stages.stdin at_k, ← reads] at also
    rw [stdin] at also
    grind

/-- Wired programs compute the composition of what they do, whatever the order of their steps. -/
theorem Wired.computes {programs : List Program} {input output : OpenFile}
    (wired : Wired input output programs) (nonempty : programs ≠ [])
    (behaviour : List String → StreamFilter Byte) {contents written : OpenFile → List Byte}
    (empty : ∀ pipe, contents (.readEnd pipe) = []) {capacity : Nat} (room : 0 < capacity)
    {schedule : List Nat} {net : Network}
    (ran : run (Network.step capacity) (.start behaviour programs contents written) schedule =
      some net) :
    ∃ text, net.written output = written output ++ text ∧
      text <+: StreamFilter.compose (programs.map fun p => behaviour p.argv) (contents input) ∧
      schedule.length ≤
        StreamFilter.composeSteps (programs.map fun p => behaviour p.argv) (contents input) ∧
      ((∀ k, net.step capacity k = none) →
        (∀ p ∈ net.processes, p.stage.isEnded = true) ∧
          text = StreamFilter.compose (programs.map fun p => behaviour p.argv) (contents input) ∧
          schedule.length =
            StreamFilter.composeSteps (programs.map fun p => behaviour p.argv)
              (contents input)) := by
  have ready : Ready input output (.start behaviour programs contents written) := by
    refine ⟨?_, ?_⟩
    · rw [Network.start, List.map_map]
      exact (List.map_id programs).symm ▸ wired
    · rw [Network.chain_start wired empty]
      exact Chain.orderly_start
  obtain ⟨reached, simulated⟩ :=
    run_simulates (Network.chain output) Network.step_ready ready ran
  rw [Network.chain_start wired empty] at simulated
  obtain ⟨text, writes, begins, bound, complete⟩ :=
    Chain.written_of_run simulated (by simpa using nonempty) room
  refine ⟨text, writes, begins, bound, fun stuck => ?_⟩
  obtain ⟨ended, whole, exactly⟩ := complete fun k => by
    rw [← Network.step_chain reached, stuck k, Option.map_none]
  refine ⟨fun p member => ?_, whole, exactly⟩
  exact ended _ (List.mem_map_of_mem member)

/-! ## Command lines -/

/-- The parts of a pipeline without redirections. -/
def lexemes (commands : List Command) : List Lexeme :=
  [Lexeme.bar].intercalate (commands.map fun c => c.words.map .word)

/-- A pipeline with its redirections at the end, `>` in front of `<`. -/
def redirections (outFile inFile : Option String) : List Lexeme :=
  outFile.toList.map .output ++ inFile.toList.map .input

theorem lexemes_cons (command second : Command) (rest : List Command) :
    lexemes (command :: second :: rest) =
      command.words.map .word ++ .bar :: lexemes (second :: rest) := by
  rw [lexemes, List.map_cons, List.map_cons, List.intercalate_cons_cons, List.append_assoc]
  rfl

/-- The words of a pipeline and its bars. -/
theorem lexemes_spec {commands : List Command} (nonempty : commands ≠ []) :
    (∀ l ∈ lexemes commands, l.isPlain = true ∧ l.Proper) ∧
      plain (lexemes commands) = vector commands := by
  have words : ∀ c : Command, (∀ l ∈ c.words.map Lexeme.word, l.isPlain = true ∧ l.Proper) ∧
      plain (c.words.map .word) = c.words := by
    intro c
    constructor
    · intro l member
      obtain ⟨w, inside, rfl⟩ := List.mem_map.mp member
      exact ⟨rfl, c.ordinary w inside⟩
    · rw [plain, List.filterMap_map]
      exact List.filterMap_some
  induction commands with
  | nil => exact absurd rfl nonempty
  | cons command commands ih =>
      cases commands with
      | nil =>
          rw [vector_singleton, lexemes, List.map_singleton, List.intercalate_singleton]
          exact words command
      | cons second rest =>
          obtain ⟨others, joined⟩ := ih (List.cons_ne_nil _ _)
          obtain ⟨first, same⟩ := words command
          rw [lexemes_cons, vector_cons, plain_append, same, ← joined]
          refine ⟨fun l member => ?_, rfl⟩
          rcases List.mem_append.mp member with inside | inside
          · exact first l inside
          · rcases List.mem_cons.mp inside with rfl | inside
            · exact ⟨rfl, trivial⟩
            · exact others l inside

/-- The files of the redirections can be opened, and they are two files: what is written to the
output is not what the input has. -/
structure Openable (files : Files) (outFile inFile : Option String) : Prop where
  ordinary : ∀ path, outFile = some path ∨ inFile = some path → Ordinary path
  readable : ∀ path, inFile = some path → files.readable path = true
  writable : ∀ path, outFile = some path → files.writable path = true
  apart : ∀ path, outFile = some path → inFile ≠ some path

/-- What the files hold that were written to, when the redirections have been opened: `O_TRUNC`
empties the output file. -/
def truncated (outFile : Option String) (written : OpenFile → List Byte) : OpenFile → List Byte :=
  match outFile with
  | none => written
  | some path => Function.update written (.output path) []

section CommandLine

variable {commands : List Command} {files : Files} {fds : Descriptors OpenFile}
  {outFile inFile : Option String}

theorem proper_redirections (openable : Openable files outFile inFile) (nonempty : commands ≠ []) :
    ∀ l ∈ lexemes commands ++ redirections outFile inFile, l.Proper := by
  intro l member
  rcases List.mem_append.mp member with inside | inside
  · exact ((lexemes_spec nonempty).1 l inside).2
  · rcases List.mem_append.mp inside with inside | inside
    · obtain ⟨path, given, rfl⟩ := List.mem_map.mp inside
      exact openable.ordinary path (.inl (Option.mem_toList.mp given))
    · obtain ⟨path, given, rfl⟩ := List.mem_map.mp inside
      exact openable.ordinary path (.inr (Option.mem_toList.mp given))

/-- What the two passes leave of a pipeline with its redirections at the end. -/
theorem redirected_redirections (openable : Openable files outFile inFile)
    (nonempty : commands ≠ []) (standard : fds.Standard) (clean : NoWriteEnd fds) :
    Redirected (lexemes commands) (redirections outFile inFile) fds
      (redirectBoth files
        (Child.start (lexemes commands ++ redirections outFile inFile) fds)) := by
  refine redirected (fun l member => ((lexemes_spec nonempty).1 l member).1) ?_
    (proper_redirections openable nonempty) ?_ ?_ ?_ standard clean
  · intro l first
    cases outFile <;> cases inFile <;> cases first <;> rfl
  · cases outFile <;> cases inFile <;> simp [redirections, Lexeme.MayPrecede]
  · intro path member
    refine openable.readable path ?_
    simpa [redirections] using member
  · intro path member
    refine openable.writable path ?_
    simpa [redirections] using member

/-- Standard input behind the two passes. -/
theorem stdin_redirectBoth (openable : Openable files outFile inFile) (nonempty : commands ≠ [])
    (standard : fds.Standard) (clean : NoWriteEnd fds) :
    (redirectBoth files
        (Child.start (lexemes commands ++ redirections outFile inFile) fds)).fds.file 0 =
      (inFile.map OpenFile.input).or (fds.file 0) := by
  have left := redirected_redirections openable nonempty standard clean
  have proper := proper_redirections openable nonempty
  have simple := (lexemes_spec nonempty).1
  have greater : ">" ∉ tokens (lexemes commands) :=
    greater_notMem (fun l member => (simple l member).2) fun l member => (simple l member).1
  cases inFile with
  | some path => exact left.stdin (List.mem_append_right _ (List.mem_singleton.mpr rfl))
  | none =>
      have less : "<" ∉ tokens (lexemes commands ++ redirections outFile none) := by
        refine less_notMem proper fun path member => ?_
        rcases List.mem_append.mp member with inside | inside
        · cases (simple _ inside).1
        · simp [redirections] at inside
      cases outFile with
      | none =>
          have same : lexemes commands ++ redirections none none = lexemes commands :=
            List.append_nil _
          rw [same] at less ⊢
          rw [redirectBoth_plain less greater]
          rfl
      | some path =>
          have same : redirections (some path) none = [.output path] := rfl
          rw [same] at less ⊢
          rw [redirectBoth_output less greater (openable.writable path rfl)]
          exact Descriptors.file_redirect standard _ (by decide) 0

/-- Standard output behind the two passes. -/
theorem stdout_redirectBoth (openable : Openable files outFile inFile) (nonempty : commands ≠ [])
    (standard : fds.Standard) (clean : NoWriteEnd fds) :
    (redirectBoth files
        (Child.start (lexemes commands ++ redirections outFile inFile) fds)).fds.file 1 =
      (outFile.map OpenFile.output).or (fds.file 1) := by
  have left := redirected_redirections openable nonempty standard clean
  cases outFile with
  | some path => exact left.stdout rfl
  | none =>
      refine left.unchanged fun path first => ?_
      cases inFile <;> cases first

/-- **Main.** A pipeline whose redirections stand at its end, `>` in front of `<` and to different
files, computes the composition of its commands. Whatever the order in which its processes go on and
whatever the size of a pipe, they have written a beginning of it to the emptied output file, or
behind what the standard output has got before, and they are never stuck before all of them have
ended and written all of it. Every order takes the same steps. -/
theorem computes_runChild (openable : Openable files outFile inFile) (nonempty : commands ≠ [])
    (standard : fds.Standard)
    (noPipes : ∀ fd id, fds.file fd ≠ some (.readEnd id) ∧ fds.file fd ≠ some (.writeEnd id))
    {input output : OpenFile} (stdin : (inFile.map OpenFile.input).or (fds.file 0) = some input)
    (stdout : (outFile.map OpenFile.output).or (fds.file 1) = some output)
    (behaviour : List String → StreamFilter Byte) {contents written : OpenFile → List Byte}
    (empty : ∀ pipe, contents (.readEnd pipe) = []) {capacity : Nat} (room : 0 < capacity)
    {schedule : List Nat} {net : Network}
    (ran : run (Network.step capacity)
      (.start behaviour
        (runChild files (tokens (lexemes commands ++ redirections outFile inFile)) fds)
        contents (truncated outFile written)) schedule = some net) :
    ∃ text, net.written output = truncated outFile written output ++ text ∧
      text <+: StreamFilter.compose (commands.map fun c => behaviour c.words) (contents input) ∧
      schedule.length ≤
        StreamFilter.composeSteps (commands.map fun c => behaviour c.words) (contents input) ∧
      ((∀ k, net.step capacity k = none) →
        (∀ p ∈ net.processes, p.stage.isEnded = true) ∧
          text = StreamFilter.compose (commands.map fun c => behaviour c.words) (contents input) ∧
          schedule.length =
            StreamFilter.composeSteps (commands.map fun c => behaviour c.words)
              (contents input)) := by
  have clean : NoWriteEnd fds := fun fd id => (noPipes fd id).2
  have left := redirected_redirections openable nonempty standard clean
  have noRead : ∀ pipe, input ≠ .readEnd pipe := by
    rintro pipe rfl
    cases inFile with
    | none => exact (noPipes 0 pipe).1 stdin
    | some path => cases stdin
  rw [← stdin_redirectBoth openable nonempty standard clean] at stdin
  rw [← stdout_redirectBoth openable nonempty standard clean] at stdout
  have words := left.visible.trans (lexemes_spec nonempty).2
  have stages := stages_pipeAndExec nonempty left.standard left.clean 0
  rw [← words] at stages
  change Stages commands _ 0 (runChild files _ fds) at stages
  have behaviours : (runChild files
      (tokens (lexemes commands ++ redirections outFile inFile)) fds).map
        (fun p => behaviour p.argv) = commands.map fun c => behaviour c.words := by
    have argv := congrArg (List.map behaviour) stages.argv
    rwa [List.map_map, List.map_map] at argv
  rw [← behaviours]
  refine (stages.wired left.clean stdin stdout noRead).computes ?_ behaviour empty room ran
  intro none
  have argv := stages.argv
  rw [none] at argv
  exact nonempty (List.map_eq_nil_iff.mp argv.symm)

end CommandLine

/-- A program that writes what it reads. -/
def copying : StreamFilter Byte where
  State := Unit
  start := ()
  feed := fun _ b => ((), [b])
  finish := fun _ => []

/-- The programs of the line `a | a > out`. -/
def tinyPrograms : List Program :=
  runChild allFiles (tokens (lexemes [tinyCommand, tinyCommand] ++ redirections (some "out") none))
    terminal

/-- The line `a | a > out` with one byte to read, up to the end of both processes. There was another
byte in the output file. -/
theorem computes_runChild_tiny :
    ∃ net, run (Network.step 1)
        (.start (fun _ => copying) tinyPrograms (fun f => if f = .inherited 0 then [7] else [])
          (truncated (some "out") fun _ => [9])) [0, 0, 1, 1, 0, 0, 1, 1] = some net ∧
      ∃ text, net.written (.output "out") =
          truncated (some "out") (fun _ => [9]) (.output "out") ++ text ∧
        text <+: StreamFilter.compose [copying, copying] [7] ∧
        [0, 0, 1, 1, 0, 0, 1, 1].length ≤ StreamFilter.composeSteps [copying, copying] [7] ∧
        ((∀ k, net.step 1 k = none) →
          (∀ p ∈ net.processes, p.stage.isEnded = true) ∧
            text = StreamFilter.compose [copying, copying] [7] ∧
            [0, 0, 1, 1, 0, 0, 1, 1].length =
              StreamFilter.composeSteps [copying, copying] [7]) := by
  have started : tinyPrograms =
      [⟨["a"], talkingParent (terminal.redirect (.output "out") 1) 0⟩,
        ⟨["a"], listeningChild (terminal.redirect (.output "out") 1) 0⟩] := by
    refine (@pipeAndExec_between ["a"] ["a"] (by decide) (by decide) _ 0).trans ?_
    rw [pipeAndExec_single (by decide)]
    rfl
  obtain ⟨net, ran⟩ : ∃ net, run (Network.step 1)
      (.start (fun _ => copying) tinyPrograms (fun f => if f = .inherited 0 then [7] else [])
        (truncated (some "out") fun _ => [9])) [0, 0, 1, 1, 0, 0, 1, 1] = some net := by
    rw [started]
    exact ⟨_, rfl⟩
  have openable : Openable allFiles (some "out") none :=
    ⟨by simp [Ordinary], fun _ _ => rfl, fun _ _ => rfl, fun _ _ => by simp⟩
  refine ⟨net, ran, ?_⟩
  exact @computes_runChild [tinyCommand, tinyCommand] _ _ _ _ openable (by decide)
    standard_terminal noPipes_terminal (.inherited 0) (.output "out") rfl rfl (fun _ => copying)
    _ _ (fun _ => rfl) 1 (by decide) _ _ ran

end LinuxExercises.Shell
