import LinuxExercises.Foundations.Stdio

/-!
# The lines of a text

A text is cut behind each newline. The last line is unfinished when the text does not end
with a newline. Joining the lines gives the text back (`flatten_lines`), a newline cuts a
text into the lines in front of it and those behind (`lines_append_newline`), and there are
as many finished lines as newlines (`length_lines_of_finished`).

A reader with room for a bounded number of characters gets a long line in several pieces
(`pieces`). No piece goes over the end of a line, so the pieces of a text are those of its lines
(`pieces_eq_flatMap`).
-/

set_option autoImplicit false

namespace LinuxExercises.Foundations

/-- The lines of a text, each with its newline. -/
def lines : List Byte → List (List Byte)
  | [] => []
  | b :: text =>
    if b = newline then [b] :: lines text
    else
      match lines text with
      | [] => [[b]]
      | line :: later => (b :: line) :: later

/-- The text is empty or ends with a newline. -/
def Finished (text : List Byte) : Prop := ∀ b, text.getLast? = some b → b = newline

/-- The last lines of a text. -/
def lastLines (n : Nat) (text : List Byte) : List Byte :=
  ((lines text).drop ((lines text).length - n)).flatten

theorem lines_newline (text : List Byte) : lines (newline :: text) = [newline] :: lines text :=
  if_pos rfl

@[simp] theorem flatten_lines (text : List Byte) : (lines text).flatten = text := by
  induction text with
  | nil => rfl
  | cons b text ih =>
      rw [lines]
      split
      · simp [ih]
      · cases found : lines text with
        | nil =>
            rw [found] at ih
            simp [← ih]
        | cons line later =>
            rw [found] at ih
            simp [← ih]

theorem lines_eq_nil_iff {text : List Byte} : lines text = [] ↔ text = [] := by
  constructor
  · intro none
    rw [← flatten_lines text, none]
    rfl
  · rintro rfl
    rfl

/-- No line is empty. -/
theorem ne_nil_of_mem_lines {text line : List Byte} (member : line ∈ lines text) : line ≠ [] := by
  induction text generalizing line with
  | nil => cases member
  | cons b text ih =>
      rw [lines] at member
      split at member
      · rcases List.mem_cons.mp member with rfl | later
        · simp
        · exact ih later
      · cases found : lines text with
        | nil =>
            rw [found] at member
            simp [List.mem_singleton.mp member]
        | cons first later =>
            rw [found] at member ih
            rcases List.mem_cons.mp member with rfl | behind
            · simp
            · exact ih (List.mem_cons_of_mem _ behind)

/-- A newline separates the lines in front of it from those behind it. -/
theorem lines_append_newline (before after : List Byte) :
    lines (before ++ newline :: after) = lines (before ++ [newline]) ++ lines after := by
  induction before with
  | nil => simp [lines_newline, lines]
  | cons b before ih =>
      rw [List.cons_append, List.cons_append, lines, lines, ih]
      split
      · rfl
      · cases found : lines (before ++ [newline]) with
        | nil => simp [lines_eq_nil_iff] at found
        | cons line later => rfl

theorem finished_cons_iff {b : Byte} {text : List Byte} (more : text ≠ []) :
    Finished (b :: text) ↔ Finished text := by
  simp [Finished, List.getLast?_cons, List.getLast?_eq_some_getLast more]

theorem finished_singleton_iff {b : Byte} : Finished [b] ↔ b = newline := by
  simp [Finished]

/-- There are as many lines as newlines, and one more when the last is unfinished. -/
theorem length_lines (text : List Byte) :
    (Finished text → (lines text).length = text.count newline) ∧
      (¬ Finished text → (lines text).length = text.count newline + 1) := by
  induction text with
  | nil => exact ⟨fun _ => rfl, fun unfinished => absurd nofun unfinished⟩
  | cons b text ih =>
      by_cases last : text = []
      · subst last
        rw [finished_singleton_iff, lines]
        constructor
        · rintro rfl
          simp [lines]
        · intro other
          simp [other, lines]
      · rw [finished_cons_iff last, lines]
        by_cases here : b = newline
        · subst here
          simpa using ih
        · rw [if_neg here, List.count_cons_of_ne here]
          cases found : lines text with
          | nil => exact absurd (lines_eq_nil_iff.mp found) last
          | cons line later =>
              rw [found] at ih
              simpa using ih

theorem length_lines_of_finished {text : List Byte} (finished : Finished text) :
    (lines text).length = text.count newline := (length_lines text).1 finished

/-- Of a part that as many newlines precede as it has, the last lines are all. -/
theorem lastLines_of_finished {before after : List Byte} (finished : Finished after) :
    lastLines (after.count newline) (before ++ newline :: after) = after := by
  have count := length_lines_of_finished finished
  rw [lastLines, lines_append_newline, List.length_append, count, Nat.add_sub_cancel,
    List.drop_left, flatten_lines]

/-- An unfinished line is one of the last lines, so the first of the others is left out. -/
theorem lastLines_of_unfinished {before after : List Byte} (unfinished : ¬ Finished after) :
    lastLines (after.count newline) (before ++ newline :: after) ≠ after := by
  have count := (length_lines after).2 unfinished
  obtain ⟨line, later, found⟩ := List.exists_cons_of_length_eq_add_one count
  have first : line ≠ [] := by
    apply @ne_nil_of_mem_lines after line
    simp [found]
  have joined : line ++ later.flatten = after := by
    rw [← List.flatten_cons, ← found, flatten_lines]
  have left : lastLines (after.count newline) (before ++ newline :: after) = later.flatten := by
    rw [lastLines, lines_append_newline, List.length_append, count, ← Nat.add_assoc,
      Nat.add_right_comm, Nat.add_sub_cancel, found, ← List.drop_drop, List.drop_left,
      List.drop_one, List.tail_cons]
  rw [left]
  intro same
  apply first
  rw [same] at joined
  exact List.append_left_eq_self.mp joined

/-! ## Lines that are read in pieces -/

/-- The first line of a text and what follows it, when there is a newline. -/
theorem lines_cons {line : List Byte} (single : newline ∉ line) (rest : List Byte) :
    lines (line ++ newline :: rest) = (line ++ [newline]) :: lines rest := by
  have one : lines (line ++ [newline]) = [line ++ [newline]] := by
    induction line with
    | nil => simp [lines]
    | cons b line ih =>
        rw [List.mem_cons, not_or] at single
        rw [List.cons_append, lines, if_neg (Ne.symm single.1), ih single.2]
  rw [lines_append_newline, one, List.singleton_append]

theorem lines_of_notMem {text : List Byte} (nonempty : text ≠ []) (single : newline ∉ text) :
    lines text = [text] := by
  induction text with
  | nil => exact absurd rfl nonempty
  | cons b text ih =>
      rw [List.mem_cons, not_or] at single
      rw [lines, if_neg (Ne.symm single.1)]
      by_cases last : text = []
      · rw [last]
        rfl
      · rw [ih last single.2]

/-- The only newline of a line is at its end. -/
theorem newline_notMem_dropLast {text line : List Byte} (member : line ∈ lines text) :
    newline ∉ line.dropLast := by
  induction h : text.length using Nat.strong_induction_on generalizing text with
  | _ n ih =>
    by_cases empty : text = []
    · rw [empty] at member
      cases member
    by_cases more : newline ∈ text
    · obtain ⟨first, rest, rfl, single⟩ := List.eq_append_cons_of_mem more
      rw [lines_cons single] at member
      rcases List.mem_cons.mp member with rfl | later
      · rw [List.dropLast_concat]
        exact single
      · have shorter : rest.length < n := by
          rw [← h, List.length_append, List.length_cons]
          omega
        exact ih _ shorter later rfl
    · rw [lines_of_notMem empty more, List.mem_singleton] at member
      rw [member]
      exact fun inside => more (List.dropLast_subset _ inside)

/-- Every line in front of another one ends with a newline. -/
theorem getLast?_of_mem_dropLast {text line : List Byte} (member : line ∈ (lines text).dropLast) :
    line.getLast? = some newline := by
  induction h : text.length using Nat.strong_induction_on generalizing text with
  | _ n ih =>
    by_cases empty : text = []
    · rw [empty] at member
      cases member
    by_cases more : newline ∈ text
    · obtain ⟨first, rest, rfl, single⟩ := List.eq_append_cons_of_mem more
      rw [lines_cons single] at member
      by_cases last : lines rest = []
      · rw [last] at member
        cases member
      · rw [List.dropLast_cons_of_ne_nil last] at member
        rcases List.mem_cons.mp member with rfl | later
        · rw [List.getLast?_concat]
        · have shorter : rest.length < n := by
            rw [← h, List.length_append, List.length_cons]
            omega
          exact ih _ shorter later rfl
    · rw [lines_of_notMem empty more] at member
      cases member

section Pieces

variable (limit : Nat)

/-- A line, cut behind every `limit + 1` characters. -/
def cut (line : List Byte) : List (List Byte) :=
  if line = [] then [] else line.take (limit + 1) :: cut (line.drop (limit + 1))
termination_by line.length
decreasing_by
  have := List.length_pos_iff.mpr ‹line ≠ []›
  rw [List.length_drop]
  omega

/-- What reads of at most `limit + 1` characters of one line return, one after the other. -/
def pieces (text : List Byte) : List (List Byte) :=
  if text = [] then []
  else Stream.takeLine (limit + 1) text ::
    pieces (text.drop (Stream.takeLine (limit + 1) text).length)
termination_by text.length
decreasing_by
  obtain ⟨b, rest, rfl⟩ := List.exists_cons_of_ne_nil ‹text ≠ []›
  rw [List.length_drop, Stream.takeLine]
  split
  · simp
  · simp only [List.length_cons]
    omega

variable {limit}

theorem cut_nil : cut limit [] = [] := by
  rw [cut, if_pos rfl]

theorem cut_of_ne {line : List Byte} (nonempty : line ≠ []) :
    cut limit line = line.take (limit + 1) :: cut limit (line.drop (limit + 1)) := by
  rw [cut, if_neg nonempty]

theorem pieces_nil : pieces limit [] = [] := by
  rw [pieces, if_pos rfl]

theorem pieces_of_ne {text : List Byte} (nonempty : text ≠ []) :
    pieces limit text = Stream.takeLine (limit + 1) text ::
      pieces limit (text.drop (Stream.takeLine (limit + 1) text).length) := by
  rw [pieces, if_neg nonempty]

/-- A read stops in front of its limit at the end of a line only. -/
theorem takeLine_eq_take {line rest : List Byte} (single : newline ∉ line.dropLast)
    (ends : line.getLast? = some newline ∨ rest = []) (n : Nat) :
    Stream.takeLine n (line ++ rest) = line.take n := by
  induction line generalizing n with
  | nil =>
      obtain rfl := ends.resolve_left (by simp)
      cases n <;> rfl
  | cons b line ih =>
      cases n with
      | zero => rfl
      | succ n =>
          rw [List.cons_append, Stream.takeLine, List.take_succ_cons]
          by_cases last : line = []
          · subst last
            by_cases isNewline : b = newline
            · rw [if_pos isNewline, List.take_nil]
            · obtain rfl := ends.resolve_left (by simpa using isNewline)
              rw [if_neg isNewline]
              cases n <;> rfl
          · rw [List.dropLast_cons_of_ne_nil last, List.mem_cons, not_or] at single
            rw [List.getLast?_cons_of_ne_nil last] at ends
            rw [if_neg (Ne.symm single.1), ih single.2 ends]

/-- The pieces of a line come before those of what follows it. -/
theorem pieces_append {line rest : List Byte} (single : newline ∉ line.dropLast)
    (ends : line.getLast? = some newline ∨ rest = []) :
    pieces limit (line ++ rest) = cut limit line ++ pieces limit rest := by
  induction h : line.length using Nat.strong_induction_on generalizing line with
  | _ n ih =>
    by_cases empty : line = []
    · subst empty
      rw [cut_nil, List.nil_append, List.nil_append]
    · have positive := List.length_pos_iff.mpr empty
      have taken := takeLine_eq_take single ends (limit + 1)
      have left : (line ++ rest).drop (line.take (limit + 1)).length =
          line.drop (limit + 1) ++ rest := by
        rw [List.length_take, List.drop_append_of_le_length (Nat.min_le_right _ _)]
        congr 1
        rcases Nat.le_total (limit + 1) line.length with short | long
        · rw [Nat.min_eq_left short]
        · rw [Nat.min_eq_right long, List.drop_length, List.drop_of_length_le long]
      rw [pieces_of_ne (by simp [empty]), taken, left, cut_of_ne empty, List.cons_append]
      congr 1
      by_cases last : line.drop (limit + 1) = []
      · rw [last, cut_nil, List.nil_append, List.nil_append]
      · have split : line.take (limit + 1) ++ line.drop (limit + 1) = line :=
          List.take_append_drop ..
        have shorter : (line.drop (limit + 1)).length < n := by
          rw [List.length_drop]
          omega
        rw [← split, List.dropLast_append_of_ne_nil last, List.mem_append, not_or] at single
        rw [← split, List.getLast?_append, List.getLast?_eq_some_getLast last,
          Option.some_or, ← List.getLast?_eq_some_getLast last] at ends
        exact ih _ shorter single.2 ends rfl

/-- **The pieces of a text** are those of its lines. -/
theorem pieces_eq_flatMap (text : List Byte) :
    pieces limit text = (lines text).flatMap (cut limit) := by
  induction h : text.length using Nat.strong_induction_on generalizing text with
  | _ n ih =>
    by_cases empty : text = []
    · rw [empty, pieces_nil]
      rfl
    by_cases more : newline ∈ text
    · obtain ⟨first, rest, rfl, single⟩ := List.eq_append_cons_of_mem more
      have shorter : rest.length < n := by
        rw [← h, List.length_append, List.length_cons]
        omega
      have whole : first ++ newline :: rest = (first ++ [newline]) ++ rest := by
        rw [List.append_assoc, List.singleton_append]
      rw [lines_cons single, List.flatMap_cons, ← ih _ shorter rest rfl, whole]
      apply pieces_append
      · rw [List.dropLast_concat]
        exact single
      · exact .inl List.getLast?_concat
    · have alone := @pieces_append limit text []
        (fun inside => more (List.dropLast_subset _ inside))
        (.inr rfl)
      rw [lines_of_notMem empty more, List.flatMap_singleton]
      rw [List.append_nil, pieces_nil, List.append_nil] at alone
      exact alone

end Pieces

/-! ## Reading a line without a bound -/

/-- A line without its newline. -/
def chomp (line : List Byte) : List Byte :=
  if line.getLast? = some newline then line.dropLast else line

/-- `gets` into an array: the next line without its newline, however long it is. The first component
is whether it returned the array. -/
def Stream.gets {capacity : Nat} (buffer : Buffer capacity) (s : Stream) :
    Except Fault (Bool × Buffer capacity × Stream) :=
  match lines s.rest with
  | [] => .ok (false, buffer, { s with eof := true })
  | line :: _ => do
    let buffer ← buffer.store 0 (chomp line ++ [0])
    .ok (true, buffer, { s with pos := s.pos + line.length })

/-- What is behind the first line of a text. -/
theorem lines_drop {text line : List Byte} {later : List (List Byte)}
    (split : lines text = line :: later) : lines (text.drop line.length) = later := by
  by_cases more : newline ∈ text
  · obtain ⟨first, rest, rfl, single⟩ := List.eq_append_cons_of_mem more
    rw [lines_cons single] at split
    obtain ⟨rfl, rfl⟩ := List.cons.inj split
    rw [List.append_cons first newline rest]
    exact congrArg lines List.drop_left
  · have nonempty : text ≠ [] := by
      rintro rfl
      cases split
    rw [lines_of_notMem nonempty more] at split
    obtain ⟨rfl, rfl⟩ := List.cons.inj split
    rw [List.drop_length]
    rfl

namespace Stream

variable {capacity : Nat} {buffer : Buffer capacity} {s : Stream}

theorem gets_line {line : List Byte} {later : List (List Byte)}
    (split : lines s.rest = line :: later) (fits : (chomp line).length < capacity) :
    ∃ (buffer' : Buffer capacity) (s' : Stream), s.gets buffer = .ok (true, buffer', s') ∧
      cstr buffer'.bytes = cstr (chomp line) ∧ lines s'.rest = later := by
  have room : (chomp line ++ [0]).length ≤ buffer.bytes.length := by
    rw [buffer.size_eq, List.length_append, List.length_singleton]
    exact fits
  have layout : buffer.bytes = [] ++ buffer.bytes.take (chomp line ++ [0]).length ++
      buffer.bytes.drop (chomp line ++ [0]).length := by
    rw [List.nil_append, List.take_append_drop]
  obtain ⟨buffer', stored, bytes⟩ := Buffer.store_eq layout (chomp line ++ [0])
    (by rw [List.length_take, Nat.min_eq_left room]) 0 rfl
  refine ⟨buffer', { s with pos := s.pos + line.length }, ?_, ?_, ?_⟩
  · rw [gets, split]
    dsimp only
    rw [stored, ok_bind]
  · rw [bytes, List.nil_append, List.append_assoc, List.singleton_append, cstr_terminated]
  · rw [rest, ← List.drop_drop]
    exact lines_drop split

theorem gets_at_end (ended : lines s.rest = []) :
    s.gets buffer = .ok (false, buffer, { s with eof := true }) := by
  rw [gets, ended]

end Stream

end LinuxExercises.Foundations
