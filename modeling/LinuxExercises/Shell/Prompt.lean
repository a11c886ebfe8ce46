import LinuxExercises.Foundations.Lines
import LinuxExercises.Shell.Builtin
import LinuxExercises.Shell.Parse

/-!
# The prompt of the shell

`main` reads its standard input with `fgets` into an array of 255 bytes, parses what it has
read, and hands the vector to `is_builtin` and to the function that carries it out. So it sees
a long line in pieces of 254 characters, and takes each piece for a command. A piece without a
token, other than the single newline, makes `parse` call `strlen(NULL)`, and a NUL in a piece
hides what is behind it.

The commands have the same open file for their standard input as the shell, so they can read
from it, and a child whose `execvp` has failed sets its offset back in `exit`. When no command
moves the input, what `main` hands on depends on it through the list of pieces alone
(`returns_serve`). It is the tokens of each line, one vector for a line, exactly when all tokens of
a line are among its first 254 characters and nothing behind them makes `parse` fail in front of
another line (`readsWholeLines_iff`).
-/

set_option autoImplicit false

namespace LinuxExercises.Shell.Prompt

open Foundations

/-! ## The code -/

/-- `LONGLINE`. -/
def longline : Nat := 255

/-- The strings of a vector. -/
abbrev Argv := List (List Byte)

/-- The strings of a vector in memory, up to its NULL. -/
def strings : List Slot → Argv
  | .block b :: rest => b.string :: strings rest
  | _ => []

/-- What is around the shell: what the system tells it, and how `run_command` leaves the shell's
input when it comes back. Both may depend on the vectors that have been handed on, of which the
last is the current one. -/
structure World where
  host : List Argv → Host
  runCommand : List Argv → Stream → Option Stream

/-- The input behind `do_builtin` or `run_command`, if it comes back. -/
def World.carryOut (world : World) (handed : List Argv) (stdin : Stream) : Option Stream :=
  match handed.getLast?.bind (doBuiltin (inbuilts (world.host handed))) with
  | none => world.runCommand handed stdin
  | some (.ok (.prints _)) => some stdin
  | some (.ok (.chdir _)) => some stdin
  | some _ => none

/-- Whether `do_builtin` or `run_command` comes back when there is no input left. -/
def World.comesBack (world : World) (handed : List Argv) : Bool :=
  (world.carryOut handed (Stream.fopen [])).isSome

/-- No command that `run_command` starts moves the shell's input, and whether it comes back does not
depend on it. -/
def World.LeavesInput (world : World) : Prop :=
  ∀ handed stdin, world.runCommand handed stdin =
    if (world.runCommand handed (Stream.fopen [])).isSome then some stdin else none

theorem World.LeavesInput.carryOut_eq {world : World} (leaves : world.LeavesInput)
    (handed : List Argv) (stdin : Stream) :
    world.carryOut handed stdin = if world.comesBack handed then some stdin else none := by
  rw [World.comesBack, World.carryOut, World.carryOut]
  split
  · exact leaves handed stdin
  all_goals rfl

/-- Why `main` reads no more: its input is at its end, a command has not come back, or `parse` has
gone wrong. -/
inductive Ending where
  | atEnd
  | inCommand
  | misused (misuse : Misuse)
deriving Repr, DecidableEq

/-- The vectors that `main` has handed to `is_builtin`, and how it ended. -/
structure Session where
  handed : List Argv
  ending : Ending
deriving Repr, DecidableEq

section

-- What a block of this size holds when it is handed out.
variable (malloc : (size : Nat) → Buffer size) (world : World)

/-- The loop of `main`, with the vectors that it has handed on. -/
def mainLoop : Nat → Buffer longline → Stream → List Argv → Except Fault Session
  | 0, _, _, _ => .error .outOfFuel
  | fuel + 1, line, stdin, handed => do
    let (more, line, stdin) ← stdin.fgets line 0 longline
    if more then
      match parse malloc (some line.bytes) with
      | .error misuse => .ok ⟨handed, .misused misuse⟩
      | .ok none => mainLoop fuel line stdin handed
      | .ok (some myArgv) =>
        match world.carryOut (handed ++ [strings myArgv]) stdin with
        | some stdin => mainLoop fuel line stdin (handed ++ [strings myArgv])
        | none => .ok ⟨handed ++ [strings myArgv], .inCommand⟩
    else .ok ⟨handed, .atEnd⟩

/-- `main`, with what its array holds at the start and the text on its standard input. -/
def main (line : Buffer longline) (input : List Byte) (fuel : Nat) : Except Fault Session :=
  mainLoop malloc world fuel line (Stream.fopen input) []

end

/-! ## Piece by piece -/

/-- What `main` does with the pieces that are still to come, when no command moves the input. -/
def World.serve (world : World) : List (List Byte) → List Argv → Session
  | [], handed => ⟨handed, .atEnd⟩
  | piece :: later, handed =>
    if cstr piece = [newline] then world.serve later handed
    else if words piece = [] then ⟨handed, .misused .nullToken⟩
    else if Shrinking (words piece) then
      if world.comesBack (handed ++ [words piece]) then
        world.serve later (handed ++ [words piece])
      else ⟨handed ++ [words piece], .inCommand⟩
    else ⟨handed, .misused .outOfBlock⟩

theorem strings_blocks (blocks : List Block) :
    strings (blocks.map .block ++ [.null]) = blocks.map Block.string := by
  induction blocks with
  | nil => rfl
  | cons b blocks ih => rw [List.map_cons, List.cons_append, strings, ih, List.map_cons]

/-- What is parsed of a buffer is the piece that it holds. -/
theorem words_of_cstr {line piece : List Byte} (same : cstr line = cstr piece) :
    words line = words piece := by
  rw [words, words, same]

section Closed

variable (malloc : (size : Nat) → Buffer size) {world : World} (leaves : world.LeavesInput)

include leaves

/-- **One round of the loop** of `main`, by the piece that it reads. -/
theorem mainLoop_piece (line : Buffer longline) {stdin : Stream} (more : stdin.rest ≠ []) :
    ∃ line' stdin', stdin'.rest = stdin.rest.drop (Stream.takeLine 254 stdin.rest).length ∧
      ∀ fuel handed, mainLoop malloc world (fuel + 1) line stdin handed =
        if cstr (Stream.takeLine 254 stdin.rest) = [newline] then
          mainLoop malloc world fuel line' stdin' handed
        else if words (Stream.takeLine 254 stdin.rest) = [] then
          .ok ⟨handed, .misused .nullToken⟩
        else if Shrinking (words (Stream.takeLine 254 stdin.rest)) then
          if world.comesBack (handed ++ [words (Stream.takeLine 254 stdin.rest)]) then
            mainLoop malloc world fuel line' stdin'
              (handed ++ [words (Stream.takeLine 254 stdin.rest)])
          else .ok ⟨handed ++ [words (Stream.takeLine 254 stdin.rest)], .inCommand⟩
        else .ok ⟨handed, .misused .outOfBlock⟩ := by
  obtain ⟨line', stdin', read, holds, left⟩ := @Stream.fgets_piece longline 253 line stdin more
    (Nat.le_refl _)
  have read : stdin.fgets line 0 longline = .ok (true, line', stdin') := read
  refine ⟨line', stdin', left, fun fuel handed => ?_⟩
  rw [mainLoop, read, ok_bind, ← words_of_cstr holds]
  dsimp only
  by_cases single : cstr (Stream.takeLine 254 stdin.rest) = [newline]
  · rw [if_pos rfl, if_pos single, parse, if_pos (holds.trans single)]
  rw [if_pos rfl, if_neg single, parse_of_ne malloc fun same => single (holds.symm.trans same)]
  obtain ⟨nothing, failed⟩ | ⟨something, growing, failed⟩ |
    ⟨something, shrinking, blocks, same, done⟩ := tokenise_eq malloc line'.bytes
  · rw [if_pos nothing, failed]
  · rw [if_neg something, if_neg growing, failed]
  · rw [if_neg something, if_pos shrinking, done]
    dsimp only
    rw [strings_blocks, same, leaves.carryOut_eq]
    cases world.comesBack (handed ++ [words line'.bytes]) <;> rfl

/-- **The closed form of `main`.** -/
theorem returns_serve (line : Buffer longline) (stdin : Stream) (handed : List Argv) :
    Returns (fun fuel => mainLoop malloc world fuel line stdin handed)
      (world.serve (pieces 253 stdin.rest) handed) := by
  induction length : stdin.rest.length using Nat.strongRecOn generalizing line stdin handed with
  | ind _ ih =>
      by_cases ended : stdin.rest = []
      · rw [ended, pieces_nil]
        apply Returns.of_last
        intro fuel
        rw [mainLoop, Stream.fgets_at_end ended, ok_bind]
        rfl
      obtain ⟨line', stdin', left, round⟩ := mainLoop_piece malloc leaves line ended
      have shorter : stdin'.rest.length < stdin.rest.length := by
        have some : 0 < (Stream.takeLine 254 stdin.rest).length :=
          List.length_pos_iff.mpr (@Stream.takeLine_ne 253 _ ended)
        have all := List.length_pos_iff.mpr ended
        rw [left, List.length_drop]
        omega
      have goesOn := fun handed => ih _ (length ▸ shorter) line' stdin' handed rfl
      rw [left] at goesOn
      rw [pieces_of_ne ended, World.serve]
      split
      case isTrue single =>
        exact Returns.of_round (fun fuel => (round fuel handed).trans (if_pos single)) (goesOn _)
      case isFalse longer =>
        replace round := fun fuel => (round fuel handed).trans (if_neg longer)
        split
        case isTrue nothing =>
          exact Returns.of_last fun fuel => (round fuel).trans (if_pos nothing)
        case isFalse something =>
          replace round := fun fuel => (round fuel).trans (if_neg something)
          split
          case isFalse growing =>
            exact Returns.of_last fun fuel => (round fuel).trans (if_neg growing)
          case isTrue shrinking =>
            replace round := fun fuel => (round fuel).trans (if_pos shrinking)
            split
            case isTrue back =>
              exact Returns.of_round (fun fuel => (round fuel).trans (if_pos back)) (goesOn _)
            case isFalse stays =>
              exact Returns.of_last fun fuel => (round fuel).trans (if_neg stays)

end Closed

/-! ## Line by line -/

/-- The tokens of a line. -/
def tokensOf (line : List Byte) : Argv := wordsOf isDelim line

/-- The vectors that `main` hands on are the tokens of the lines. -/
def ReadsWholeLines (input : List Byte) (program : Nat → Except Fault Session) : Prop :=
  ∃ session, Returns program session ∧ session.handed = (lines input).map tokensOf

/-- All tokens of the line are in its first piece, and `parse` tokenises them. -/
structure Whole (line : List Byte) : Prop where
  clean : ∀ c ∈ line, c ≠ 0
  shrinking : Shrinking (tokensOf line)
  fits : ∀ b ∈ line.drop 254, isDelim b = true

section Pieces

variable {world : World} {line : List Byte} {later : List (List Byte)} {handed : List Argv}

/-- What has been handed on stays so. -/
theorem handed_prefix (pieces : List (List Byte)) (handed : List Argv) :
    handed <+: (world.serve pieces handed).handed := by
  induction pieces generalizing handed with
  | nil => exact List.prefix_rfl
  | cons piece later ih =>
      rw [World.serve]
      split
      · exact ih handed
      split
      · exact List.prefix_rfl
      split
      · split
        · exact (List.prefix_append ..).trans (ih _)
        · exact List.prefix_append ..
      · exact List.prefix_rfl

/-- A piece with tokens that `parse` can tokenise. -/
theorem serve_tokens {piece : List Byte} (something : words piece ≠ [])
    (shrinking : Shrinking (words piece)) :
    world.serve (piece :: later) handed =
      if world.comesBack (handed ++ [words piece]) then
        world.serve later (handed ++ [words piece])
      else ⟨handed ++ [words piece], .inCommand⟩ := by
  rw [World.serve, if_neg (ne_newline something), if_neg something, if_pos shrinking]

/-- A blank piece that is not the single newline: `strlen(NULL)`. -/
theorem serve_blank {piece : List Byte} (longer : cstr piece ≠ [newline])
    (nothing : words piece = []) :
    world.serve (piece :: later) handed = ⟨handed, .misused .nullToken⟩ := by
  rw [World.serve, if_neg longer, if_pos nothing]

/-- A string without NULs is read as it is. -/
theorem cstr_of_clean {text : List Byte} (clean : ∀ c ∈ text, c ≠ 0) : cstr text = text := by
  rw [cstr, List.takeWhile_eq_self_iff]
  simpa using clean

/-- The first piece of a line has all tokens of it exactly when the line has no NUL and only
delimiters behind its first piece. -/
theorem words_take_iff (line : List Byte) :
    words (line.take 254) = tokensOf line ↔
      (∀ c ∈ line, c ≠ 0) ∧ ∀ b ∈ line.drop 254, isDelim b = true := by
  have notDelim : isDelim 0 = false := rfl
  obtain ⟨hidden, split⟩ : ∃ hidden, line.take 254 = cstr (line.take 254) ++ hidden :=
    ⟨_, List.takeWhile_append_dropWhile.symm⟩
  have whole : cstr (line.take 254) ++ (hidden ++ line.drop 254) = line := by
    rw [← List.append_assoc, ← split, List.take_append_drop]
  have cutOff := @wordsOf_append_eq_iff _ isDelim (cstr (line.take 254)) (hidden ++ line.drop 254)
  rw [whole, eq_comm] at cutOff
  rw [words, tokensOf, cutOff]
  constructor
  · intro delims
    refine ⟨?_, fun b member => delims b (List.mem_append_right _ member)⟩
    rintro c member rfl
    rw [← whole] at member
    rcases List.mem_append.mp member with front | behind
    · exact cstr_ne_zero front rfl
    · have isOne := delims 0 behind
      rw [notDelim] at isOne
      cases isOne
  · rintro ⟨clean, delims⟩ b member
    have same : cstr (line.take 254) = line.take 254 :=
      cstr_of_clean fun c inside => clean c (List.mem_of_mem_take inside)
    rw [same] at split
    have none : hidden = [] := List.append_right_eq_self.mp split.symm
    rw [none, List.nil_append] at member
    exact delims b member

/-- The first piece of a line with a token is not a single newline. -/
theorem cstr_take_ne (only : newline ∉ line.dropLast) (something : tokensOf line ≠ []) :
    cstr (line.take 254) ≠ [newline] := by
  intro single
  apply something
  cases line with
  | nil => exact wordsOf_nil
  | cons b line =>
      rw [List.take_succ_cons] at single
      obtain rfl : b = newline := by
        by_cases zero : b = 0
        · rw [zero, cstr_zero] at single
          cases single
        · rw [cstr_cons_of_ne zero] at single
          exact (List.cons.inj single).1
      by_cases last : line = []
      · rw [last]
        rfl
      · rw [List.dropLast_cons_of_ne_nil last] at only
        exact absurd (List.mem_cons_self ..) only

/-- **A line that is not whole** is not handed on as its tokens. -/
theorem handed_of_not_whole (only : newline ∉ line.dropLast) (something : tokensOf line ≠ [])
    (broken : ¬ Whole line) (behind : List Argv) :
    (world.serve (cut 253 line ++ later) handed).handed ≠ handed ++ tokensOf line :: behind := by
  have nonempty : line ≠ [] := by
    rintro rfl
    exact something wordsOf_nil
  intro same
  rw [cut_of_ne nonempty, List.cons_append] at same
  have stuck : ∀ session : Session, session.handed = handed →
      session.handed ≠ handed ++ tokensOf line :: behind := by
    intro session held equal
    rw [held] at equal
    have length := congrArg List.length equal
    rw [List.length_append, List.length_cons] at length
    omega
  have single := cstr_take_ne only something
  by_cases nothing : words (line.take 254) = []
  · rw [serve_blank single nothing] at same
    exact stuck _ rfl same
  by_cases shrinking : Shrinking (words (line.take 254))
  · have front : handed ++ [words (line.take 254)] <+: handed ++ tokensOf line :: behind := by
      rw [serve_tokens nothing shrinking] at same
      rw [← same]
      split
      · exact handed_prefix _ _
      · exact List.prefix_rfl
    have first := (List.prefix_append_right_inj _).mp front
    rw [List.cons_prefix_cons] at first
    obtain ⟨clean, fits⟩ := (words_take_iff line).mp first.1
    exact broken ⟨clean, first.1 ▸ shrinking, fits⟩
  · rw [World.serve, if_neg single, if_neg nothing, if_neg shrinking] at same
    exact stuck _ rfl same

/-- A whole line is handed on by its first piece. -/
theorem serve_whole (something : tokensOf line ≠ []) (whole : Whole line) :
    world.serve (cut 253 line ++ later) handed =
      if world.comesBack (handed ++ [tokensOf line]) then
        world.serve (cut 253 (line.drop 254) ++ later) (handed ++ [tokensOf line])
      else ⟨handed ++ [tokensOf line], .inCommand⟩ := by
  have nonempty : line ≠ [] := by
    rintro rfl
    exact something wordsOf_nil
  have first := (words_take_iff line).mpr ⟨whole.clean, whole.fits⟩
  rw [cut_of_ne nonempty, List.cons_append, serve_tokens (by rw [first]; exact something)
    (by rw [first]; exact whole.shrinking), first]

/-- Nothing and a single newline are passed over. -/
theorem serve_cut_short {rest : List Byte} (short : rest = [] ∨ rest = [newline]) :
    world.serve (cut 253 rest ++ later) handed = world.serve later handed := by
  rcases short with rfl | rfl
  · rw [cut_nil, List.nil_append]
  · have one : cut 253 [newline] = [[newline]] := by
      rw [cut_of_ne (List.cons_ne_nil _ _), List.take_of_length_le (by decide),
        List.drop_of_length_le (by decide), cut_nil]
    have own : cstr [newline] = [newline] := by decide
    rw [one, List.singleton_append, World.serve, if_pos own]

/-- Any other blank rest is the end. -/
theorem serve_cut_blank {rest : List Byte} (blank : ∀ b ∈ rest, isDelim b = true)
    (nonempty : rest ≠ []) (longer : rest ≠ [newline]) :
    world.serve (cut 253 rest ++ later) handed = ⟨handed, .misused .nullToken⟩ := by
  have front : ∀ b ∈ rest.take 254, isDelim b = true :=
    fun b member => blank b (List.mem_of_mem_take member)
  have same : cstr (rest.take 254) = rest.take 254 := by
    apply cstr_of_clean
    rintro c member rfl
    cases front 0 member
  rw [cut_of_ne nonempty, List.cons_append]
  apply serve_blank
  · rw [same]
    intro single
    have length := congrArg List.length single
    rw [List.length_take, List.length_singleton] at length
    apply longer
    rw [← single, List.take_of_length_le (by omega)]
  · rw [words, same]
    exact wordsOf_eq_nil_iff.mpr front

/-- A whole line is handed on whatever follows it. -/
theorem handed_of_whole (something : tokensOf line ≠ []) (whole : Whole line) :
    (world.serve (cut 253 line) handed).handed = handed ++ [tokensOf line] := by
  have alone := @serve_whole world line [] handed something whole
  rw [List.append_nil] at alone
  rw [alone]
  split
  · by_cases short : line.drop 254 = [] ∨ line.drop 254 = [newline]
    · rw [serve_cut_short short]
      rfl
    · rw [not_or] at short
      rw [serve_cut_blank whole.fits short.1 short.2]
  · rfl

/-- A whole line with more than a newline behind its first piece is the last one that is handed
on. -/
theorem handed_of_long (something : tokensOf line ≠ []) (whole : Whole line)
    (long : 255 < line.length) :
    (world.serve (cut 253 line ++ later) handed).handed = handed ++ [tokensOf line] := by
  have more : 1 < (line.drop 254).length := by
    rw [List.length_drop]
    omega
  rw [serve_whole something whole]
  split
  · rw [serve_cut_blank whole.fits]
    · intro empty
      rw [empty] at more
      cases more
    · intro single
      rw [single] at more
      exact absurd more (by decide)
  · rfl

/-- Of a line that ends with a newline and has 255 characters at most, there is nothing behind
its first piece but the newline. -/
theorem drop_of_short (ends : line.getLast? = some newline) (short : line.length ≤ 255) :
    line.drop 254 = [] ∨ line.drop 254 = [newline] := by
  rcases last : line.drop 254 with _ | ⟨b, _ | ⟨c, rest⟩⟩
  · exact .inl rfl
  · rw [← List.take_append_drop 254 line, last, List.getLast?_concat, Option.some.injEq] at ends
    exact .inr (by rw [ends])
  · have length := congrArg List.length last
    rw [List.length_drop, List.length_cons, List.length_cons] at length
    omega

end Pieces

/-- What the lines have to be like, behind the vectors that have been handed on: each is whole,
each but the last has at most 254 characters and its newline, and each command but the last
comes back. -/
structure HandsOn (world : World) (handed : List Argv) (text : List (List Byte)) : Prop where
  whole : ∀ line ∈ text, Whole line
  short : ∀ line ∈ text.dropLast, line.length ≤ 255
  comesBack : ∀ {before after : List (List Byte)} {line : List Byte},
    text = before ++ line :: after → after ≠ [] →
      world.comesBack (handed ++ (before ++ [line]).map tokensOf) = true

section HandsOn

variable {world : World} {handed : List Argv} {line : List Byte} {text : List (List Byte)}

theorem handsOn_singleton_iff : HandsOn world handed [line] ↔ Whole line := by
  constructor
  · exact fun handsOn => handsOn.whole line (List.mem_singleton.mpr rfl)
  · intro whole
    refine ⟨?_, ?_, ?_⟩
    · intro other member
      rw [List.mem_singleton.mp member]
      exact whole
    · intro other member
      cases member
    · intro before after other split more
      have length := congrArg List.length split
      have positive := List.length_pos_iff.mpr more
      rw [List.length_singleton, List.length_append, List.length_cons] at length
      omega

/-- A line in front of others. -/
theorem handsOn_cons_iff (more : text ≠ []) :
    HandsOn world handed (line :: text) ↔
      Whole line ∧ line.length ≤ 255 ∧ world.comesBack (handed ++ [tokensOf line]) = true ∧
        HandsOn world (handed ++ [tokensOf line]) text := by
  constructor
  · intro handsOn
    have whole := handsOn.whole
    have short := handsOn.short
    rw [List.forall_mem_cons] at whole
    rw [List.dropLast_cons_of_ne_nil more, List.forall_mem_cons] at short
    refine ⟨whole.1, short.1, @HandsOn.comesBack _ _ _ handsOn [] text line rfl more, whole.2,
      short.2, ?_⟩
    intro before after other split behind
    have back := @HandsOn.comesBack _ _ _ handsOn (line :: before) after other (by rw [split]; rfl)
      behind
    rw [List.append_assoc]
    exact back
  · rintro ⟨whole, short, back, later⟩
    refine ⟨?_, ?_, ?_⟩
    · rw [List.forall_mem_cons]
      exact ⟨whole, later.whole⟩
    · rw [List.dropLast_cons_of_ne_nil more, List.forall_mem_cons]
      exact ⟨short, later.short⟩
    · intro before after other split behind
      cases before with
      | nil =>
          obtain ⟨rfl, rfl⟩ := List.cons.inj split
          exact back
      | cons first before =>
          obtain ⟨rfl, rest⟩ := List.cons.inj split
          have goesOn := later.comesBack rest behind
          rw [List.append_assoc] at goesOn
          exact goesOn

/-- **What is handed on** of lines that each have a token. -/
theorem handed_iff (only : ∀ line ∈ text, newline ∉ line.dropLast)
    (ends : ∀ line ∈ text.dropLast, line.getLast? = some newline)
    (something : ∀ line ∈ text, tokensOf line ≠ []) (handed : List Argv) :
    (world.serve (text.flatMap (cut 253)) handed).handed = handed ++ text.map tokensOf ↔
      HandsOn world handed text := by
  induction text generalizing handed with
  | nil =>
      refine iff_of_true (List.append_nil _).symm ⟨by simp, by simp, ?_⟩
      intro before after line split
      simp at split
  | cons line text ih =>
      rw [List.forall_mem_cons] at only something
      by_cases more : text = []
      · subst more
        rw [handsOn_singleton_iff, List.flatMap_singleton, List.map_singleton]
        constructor
        · intro same
          by_contra broken
          have other := @handed_of_not_whole world line [] handed only.1 something.1 broken []
          rw [List.append_nil] at other
          exact other same
        · exact handed_of_whole something.1
      · rw [List.dropLast_cons_of_ne_nil more, List.forall_mem_cons] at ends
        rw [handsOn_cons_iff more, List.flatMap_cons, List.map_cons]
        by_cases whole : Whole line
        · by_cases short : line.length ≤ 255
          · rw [serve_whole something.1 whole]
            by_cases back : world.comesBack (handed ++ [tokensOf line]) = true
            · have goesOn := ih only.2 ends.2 something.2 (handed ++ [tokensOf line])
              rw [List.append_assoc, List.singleton_append] at goesOn
              rw [if_pos back, serve_cut_short (drop_of_short ends.1 short), goesOn]
              simp [whole, short, back]
            · rw [if_neg back]
              refine iff_of_false ?_ fun all => back all.2.2.1
              simp [more]
          · rw [handed_of_long something.1 whole (Nat.lt_of_not_le short)]
            refine iff_of_false ?_ fun all => short all.2.1
            simp [more]
        · exact iff_of_false (handed_of_not_whole only.1 something.1 whole _) fun all => whole all.1

end HandsOn

/-- The input has no NUL, no token of a line is longer than the one before it, only delimiters stand
behind the first 254 characters of a line, of every line but the last at most its newline does, and
every command but the last comes back. -/
structure Harmless (world : World) (input : List Byte) : Prop where
  clean : ∀ c ∈ input, c ≠ 0
  shrinking : ∀ line ∈ lines input, Shrinking (tokensOf line)
  fits : ∀ line ∈ lines input, ∀ b ∈ line.drop 254, isDelim b = true
  short : ∀ line ∈ (lines input).dropLast, line.length ≤ 255
  comesBack : ∀ {before after : List (List Byte)} {line : List Byte},
    lines input = before ++ line :: after → after ≠ [] →
      world.comesBack ((before ++ [line]).map tokensOf) = true

theorem handsOn_lines_iff {world : World} {input : List Byte} :
    HandsOn world [] (lines input) ↔ Harmless world input := by
  constructor
  · intro handsOn
    refine ⟨?_, fun line member => (handsOn.whole line member).shrinking,
      fun line member => (handsOn.whole line member).fits, handsOn.short, handsOn.comesBack⟩
    intro c member
    rw [← flatten_lines input] at member
    obtain ⟨line, inText, inside⟩ := List.mem_flatten.mp member
    exact (handsOn.whole line inText).clean c inside
  · intro harmless
    refine ⟨fun line member => ⟨?_, harmless.shrinking line member, harmless.fits line member⟩,
      harmless.short, harmless.comesBack⟩
    intro c inside
    apply harmless.clean
    rw [← flatten_lines input]
    exact List.mem_flatten.mpr ⟨line, member, inside⟩

/-- What `main` hands on of an input whose lines have tokens. -/
theorem handed_lines_iff (world : World) {input : List Byte}
    (something : ∀ line ∈ lines input, tokensOf line ≠ []) :
    (world.serve (pieces 253 input) []).handed = (lines input).map tokensOf ↔
      Harmless world input := by
  rw [pieces_eq_flatMap, ← handsOn_lines_iff]
  exact handed_iff (fun line member => newline_notMem_dropLast member)
    (fun line member => getLast?_of_mem_dropLast member) something []

/-- `main` ends, and with one session. -/
theorem readsWholeLines_iff_handed (malloc : (size : Nat) → Buffer size) {world : World}
    (leaves : world.LeavesInput) (line : Buffer longline) (input : List Byte) :
    ReadsWholeLines input (main malloc world line input) ↔
      (world.serve (pieces 253 input) []).handed = (lines input).map tokensOf := by
  have returned := returns_serve malloc leaves line (Stream.fopen input) []
  constructor
  · rintro ⟨session, returned', same⟩
    rw [Returns.unique returned' returned] at same
    exact same
  · exact fun same => ⟨_, returned, same⟩

/-- **Whole lines.** For an input whose lines each have a token, and which no command moves, `main`
hands on the tokens of its lines, one vector for a line, exactly when the input is harmless. -/
theorem readsWholeLines_iff (malloc : (size : Nat) → Buffer size) {world : World}
    (leaves : world.LeavesInput) (line : Buffer longline) {input : List Byte}
    (something : ∀ line ∈ lines input, tokensOf line ≠ []) :
    ReadsWholeLines input (main malloc world line input) ↔ Harmless world input := by
  rw [readsWholeLines_iff_handed malloc leaves, handed_lines_iff world something]

/-- A machine on which every command comes back and leaves the input alone. -/
def plainWorld : World where
  host := fun _ => bareHost
  runCommand := fun _ stdin => some stdin

theorem plainWorld_leavesInput : plainWorld.LeavesInput := fun _ _ => rfl

/-- The input `ls`. -/
def listInput : List Byte := [108, 115, newline]

theorem readsWholeLines_listInput :
    ReadsWholeLines listInput (main cleared plainWorld (cleared longline) listInput) ↔
      Harmless plainWorld listInput := by
  apply readsWholeLines_iff cleared plainWorld_leavesInput
  have one : lines listInput = [listInput] := by decide
  rw [one, List.forall_mem_singleton]
  decide

/-- A command and spaces. -/
theorem words_append_spaces (n : Nat) : words ([108, 115] ++ List.replicate n 32) =
    [[108, 115]] := by
  have clean : ∀ c ∈ [108, 115] ++ List.replicate n (32 : Byte), c ≠ 0 := by
    intro c member
    rcases List.mem_append.mp member with word | space
    · simp only [List.mem_cons, List.not_mem_nil, or_false] at word
      rcases word with rfl | rfl <;> decide
    · rw [(List.mem_replicate.mp space).2]
      decide
  have cut := (@wordsOf_append_eq_iff _ isDelim [108, 115] (List.replicate n 32)).mpr
    fun b member => by rw [(List.mem_replicate.mp member).2]; rfl
  rw [words, cstr_of_clean clean, cut]
  rfl

/-- `ls` and 252 spaces, which fill a piece. -/
def listPiece : List Byte := [108, 115] ++ List.replicate 252 32

theorem words_listPiece : words listPiece = [[108, 115]] := words_append_spaces 252

/-- The line `ls a`, with 252 spaces between its words. -/
def longInput : List Byte := listPiece ++ [97, newline]

/-- It is handed on as the two commands `ls` and `a`. -/
theorem not_readsWholeLines :
    (∀ line ∈ lines longInput, tokensOf line ≠ []) ∧
      Returns (main cleared plainWorld (cleared longline) longInput)
        ⟨[[[108, 115]], [[97]]], .atEnd⟩ ∧
      ¬ ReadsWholeLines longInput (main cleared plainWorld (cleared longline) longInput) := by
  have single : newline ∉ listPiece ++ [97] := by
    rw [listPiece, List.mem_append, List.mem_append, List.mem_replicate]
    decide
  have one : lines longInput = [longInput] := by
    have cut := lines_cons single []
    rw [List.append_assoc] at cut
    exact cut
  have something : ∀ line ∈ lines longInput, tokensOf line ≠ [] := by
    rw [one, List.forall_mem_singleton]
    intro none
    have last : 97 ∈ longInput := List.mem_append_right _ (List.mem_cons_self ..)
    have delims := wordsOf_eq_nil_iff.mp none 97 last
    cases delims
  have handed : plainWorld.serve (pieces 253 (Stream.fopen longInput).rest) [] =
      ⟨[[[108, 115]], [[97]]], .atEnd⟩ := by
    have length : listPiece.length = 254 := by
      rw [listPiece, List.length_append, List.length_replicate]
      rfl
    have two : cut 253 longInput = [listPiece, [97, newline]] := by
      rw [cut_of_ne (by simp [longInput]), longInput, List.take_left' length,
        List.drop_left' length, cut_of_ne (List.cons_ne_nil _ _),
        List.take_of_length_le (by decide), List.drop_of_length_le (by decide), cut_nil]
    have last : words [97, newline] = [[97]] := by decide
    rw [Stream.rest_fopen, pieces_eq_flatMap, one, List.flatMap_singleton, two]
    have first : plainWorld.comesBack [[[108, 115]]] = true := by decide +kernel
    have second : plainWorld.comesBack [[[108, 115]], [[97]]] = true := by decide +kernel
    rw [serve_tokens (by rw [words_listPiece]; decide) (by rw [words_listPiece]; decide),
      words_listPiece, List.nil_append, if_pos first,
      serve_tokens (by rw [last]; decide) (by rw [last]; decide), last, List.singleton_append,
      if_pos second]
    rfl
  have returned := returns_serve cleared plainWorld_leavesInput (cleared longline)
    (Stream.fopen longInput) []
  rw [handed] at returned
  refine ⟨something, returned, fun reads => ?_⟩
  obtain ⟨session, returned', same⟩ := reads
  rw [Returns.unique returned' returned, one, List.map_singleton] at same
  have length := congrArg List.length same
  simp at length

end LinuxExercises.Shell.Prompt
