import LinuxExercises.Foundations.Buffer

/-!
# Input streams of the standard library

A `FILE *` opened for reading is the contents of its file, a position and the
end-of-file indicator. The position may lie past the end: `fseek` moves it without
looking at the file and clears the indicator, and only a read that finds nothing
sets it again (`fgets_at_end`). A read that finds nothing leaves its buffer alone.
-/

set_option autoImplicit false

namespace LinuxExercises.Foundations

/-- The byte of `'\n'`. -/
def newline : Byte := 10

/-- A stream opened for reading. -/
structure Stream where
  contents : List Byte
  pos : Nat
  eof : Bool
deriving Repr, DecidableEq

namespace Stream

/-- `fopen` of a file with these contents. -/
def fopen (contents : List Byte) : Stream where
  contents := contents
  pos := 0
  eof := false

/-- What has not been read. -/
def rest (s : Stream) : List Byte := s.contents.drop s.pos

def rewind (s : Stream) : Stream := { s with pos := 0, eof := false }

/-- `fseek` from the current position. A seek to before the start fails and changes
nothing. -/
def seekCur (s : Stream) (offset : Int) : Stream :=
  if 0 ≤ s.pos + offset then { s with pos := (s.pos + offset).toNat, eof := false } else s

@[simp] theorem rest_fopen (contents : List Byte) : (fopen contents).rest = contents := rfl

@[simp] theorem rewind_contents (s : Stream) : s.rewind.contents = s.contents := rfl

@[simp] theorem seekCur_contents (s : Stream) (offset : Int) :
    (s.seekCur offset).contents = s.contents := by
  rw [seekCur]
  split <;> rfl

/-- A seek forwards succeeds, also past the end of the file. -/
theorem seekCur_forwards (s : Stream) {offset : Int} (forwards : 0 ≤ offset) :
    s.seekCur offset = { s with pos := s.pos + offset.toNat, eof := false } := by
  rw [seekCur, if_pos (by omega), Int.toNat_add (Int.natCast_nonneg _) forwards, Int.toNat_natCast]

theorem rest_seekCur (s : Stream) {offset : Int} (forwards : 0 ≤ offset) :
    (s.seekCur offset).rest = s.rest.drop offset.toNat := by
  rw [s.seekCur_forwards forwards]
  simp only [rest, List.drop_drop]

theorem eof_seekCur (s : Stream) {offset : Int} (forwards : 0 ≤ offset) :
    (s.seekCur offset).eof = false := by
  rw [s.seekCur_forwards forwards]

/-- At most `limit` characters, up to a newline and with it. -/
def takeLine : Nat → List Byte → List Byte
  | 0, _ => []
  | _, [] => []
  | limit + 1, b :: bytes => if b = newline then [b] else b :: takeLine limit bytes

/-- The characters that `fgets` with this size takes from the stream. -/
def line (s : Stream) (size : Nat) : List Byte := takeLine (size - 1) s.rest

/-- The read of a line met the end of the file before it had a reason to stop. -/
def hitEnd (s : Stream) (size : Nat) : Bool :=
  (s.line size).length == s.rest.length && decide ((s.line size).length < size - 1) &&
    (s.line size).getLast? != some newline

/-- `fgets` into an array from an offset on. The first component is whether it returned
its buffer. -/
def fgets {capacity : Nat} (buffer : Buffer capacity) (offset size : Nat) (s : Stream) :
    Except Fault (Bool × Buffer capacity × Stream) :=
  if s.line size = [] then .ok (false, buffer, { s with eof := true })
  else do
    let buffer ← buffer.store offset (s.line size ++ [0])
    .ok (true, buffer,
      { s with pos := s.pos + (s.line size).length, eof := s.eof || s.hitEnd size })

theorem takeLine_append {text rest : List Byte} (single : newline ∉ text) {limit : Nat}
    (fits : text.length < limit) :
    takeLine limit (text ++ newline :: rest) = text ++ [newline] := by
  induction text generalizing limit with
  | nil =>
      obtain ⟨limit, rfl⟩ := Nat.exists_eq_succ_of_ne_zero (Nat.ne_of_gt fits)
      simp [takeLine]
  | cons b text ih =>
      obtain ⟨limit, rfl⟩ := Nat.exists_eq_succ_of_ne_zero
        (Nat.ne_of_gt (Nat.lt_of_le_of_lt (Nat.zero_le _) fits))
      obtain ⟨different, single⟩ := not_or.mp (fun h => single (List.mem_cons.mpr h))
      rw [List.cons_append, takeLine, if_neg (fun same => different same.symm),
        ih single (Nat.lt_of_succ_lt_succ fits), List.cons_append]

/-- Reading the characters of a line leaves what follows it. -/
theorem rest_after {s : Stream} {text rest : List Byte} (layout : s.rest = text ++ rest)
    (eof : Bool) : ({ s with pos := s.pos + text.length, eof := eof } : Stream).rest = rest := by
  simp only [Stream.rest] at layout ⊢
  rw [← List.drop_drop, layout, List.drop_left]

/-- **A line that fits.** `fgets` stores the line, its newline and a terminator, and
leaves the rest of the array as it was. -/
theorem fgets_line {capacity : Nat} {buffer : Buffer capacity}
    {before covered after text rest : List Byte} {s : Stream} {size : Nat}
    (layout : s.rest = text ++ newline :: rest) (single : newline ∉ text)
    (fits : text.length + 1 < size) (open_ : s.eof = false)
    (array : buffer.bytes = before ++ covered ++ after)
    (same : covered.length = text.length + 2) (offset : Nat) (starts : offset = before.length) :
    ∃ (buffer' : Buffer capacity) (s' : Stream),
      s.fgets buffer offset size = .ok (true, buffer', s') ∧
        buffer'.bytes = before ++ (text ++ [newline, 0]) ++ after ∧
        s'.contents = s.contents ∧ s'.rest = rest ∧ s'.eof = false := by
  have taken : s.line size = text ++ [newline] := by
    rw [line, layout]
    exact takeLine_append single (by omega)
  have going : s.hitEnd size = false := by
    simp [hitEnd, taken]
  obtain ⟨buffer', stored, bytes⟩ := Buffer.store_eq array (text ++ [newline] ++ [0])
    (by simp [same]) offset starts
  refine ⟨buffer', { s with pos := s.pos + (text ++ [newline]).length, eof := false }, ?_, ?_,
    rfl, ?_, rfl⟩
  · have present : s.line size ≠ [] := by
      rw [taken]
      simp
    rw [fgets, if_neg present, taken, stored, ok_bind, going, open_, Bool.or_false]
  · rw [bytes]
    simp only [List.append_assoc, List.cons_append, List.nil_append]
  · exact rest_after (by rw [layout, List.append_assoc, List.cons_append, List.nil_append]) false

/-- A line that fits, at an offset of an array that holds anything. -/
theorem fgets_line_at {capacity : Nat} (buffer : Buffer capacity) {text rest : List Byte}
    {s : Stream} {size : Nat} (layout : s.rest = text ++ newline :: rest)
    (single : newline ∉ text) (fits : text.length + 1 < size) (open_ : s.eof = false)
    (offset : Nat) (room : offset + (text.length + 2) ≤ capacity) :
    ∃ (buffer' : Buffer capacity) (s' : Stream),
      s.fgets buffer offset size = .ok (true, buffer', s') ∧
        buffer'.bytes = buffer.bytes.take offset ++ (text ++ [newline, 0]) ++
          buffer.bytes.drop (offset + (text.length + 2)) ∧
        s'.contents = s.contents ∧ s'.rest = rest ∧ s'.eof = false := by
  have total := buffer.size_eq
  have array : buffer.bytes = buffer.bytes.take offset ++
      (buffer.bytes.drop offset).take (text.length + 2) ++
        buffer.bytes.drop (offset + (text.length + 2)) := by
    rw [← List.drop_drop, List.append_assoc, List.take_append_drop, List.take_append_drop]
  exact fgets_line layout single fits open_ array
    (by rw [List.length_take, List.length_drop]; omega) offset
    (by rw [List.length_take]; omega)

theorem takeLine_full {text rest : List Byte} (single : newline ∉ text) :
    takeLine text.length (text ++ rest) = text := by
  induction text with
  | nil => rfl
  | cons b text ih =>
      obtain ⟨different, single⟩ := not_or.mp (fun h => single (List.mem_cons.mpr h))
      rw [List.cons_append, List.length_cons, takeLine, if_neg (fun same => different same.symm),
        ih single]

/-- **A line that does not fit.** As many characters as the size allows are stored, and the
rest of the line is left for the next read. -/
theorem fgets_full {capacity : Nat} {buffer : Buffer capacity}
    {before covered after text rest : List Byte} {s : Stream} {size : Nat}
    (layout : s.rest = text ++ rest) (single : newline ∉ text) (nonempty : text ≠ [])
    (fills : text.length + 1 = size) (array : buffer.bytes = before ++ covered ++ after)
    (same : covered.length = size) (offset : Nat) (starts : offset = before.length) :
    ∃ (buffer' : Buffer capacity) (s' : Stream),
      s.fgets buffer offset size = .ok (true, buffer', s') ∧
        buffer'.bytes = before ++ (text ++ [0]) ++ after ∧ s'.rest = rest ∧ s'.eof = s.eof := by
  have limit : size - 1 = text.length := by omega
  have taken : s.line size = text := by
    rw [line, layout, limit]
    exact takeLine_full single
  have going : s.hitEnd size = false := by
    simp [hitEnd, taken, limit]
  obtain ⟨buffer', stored, bytes⟩ := Buffer.store_eq array (text ++ [0])
    (by rw [List.length_append, List.length_singleton, same, fills]) offset starts
  refine ⟨buffer', { s with pos := s.pos + text.length, eof := s.eof }, ?_, bytes,
    rest_after layout _, rfl⟩
  have present : s.line size ≠ [] := by
    rw [taken]
    exact nonempty
  rw [fgets, if_neg present, taken, stored, ok_bind, going, Bool.or_false]

theorem takeLine_all {text : List Byte} (single : newline ∉ text) {limit : Nat}
    (fits : text.length ≤ limit) : takeLine limit text = text := by
  induction text generalizing limit with
  | nil => cases limit <;> rfl
  | cons b text ih =>
      obtain ⟨limit, rfl⟩ := Nat.exists_eq_succ_of_ne_zero
        (Nat.ne_of_gt (Nat.lt_of_lt_of_le (Nat.zero_lt_succ _) fits))
      obtain ⟨different, single⟩ := not_or.mp (fun h => single (List.mem_cons.mpr h))
      rw [takeLine, if_neg (fun same => different same.symm),
        ih single (Nat.le_of_succ_le_succ fits)]

/-- **A line at the end of the file.** Without a newline behind it, it is stored with a terminator,
and the read has met the end of the file. -/
theorem fgets_last {capacity : Nat} {buffer : Buffer capacity}
    {before covered after text : List Byte} {s : Stream} {size : Nat}
    (layout : s.rest = text) (nonempty : text ≠ []) (single : newline ∉ text)
    (fits : text.length + 1 < size) (array : buffer.bytes = before ++ covered ++ after)
    (same : covered.length = text.length + 1) (offset : Nat) (starts : offset = before.length) :
    ∃ (buffer' : Buffer capacity) (s' : Stream),
      s.fgets buffer offset size = .ok (true, buffer', s') ∧
        buffer'.bytes = before ++ (text ++ [0]) ++ after ∧ s'.rest = [] ∧ s'.eof = true := by
  have taken : s.line size = text := by
    rw [line, layout]
    exact takeLine_all single (by omega)
  have noNewline : text.getLast? ≠ some newline := fun last =>
    single (List.mem_of_getLast? last)
  have met : s.hitEnd size = true := by
    have short : text.length < size - 1 := by omega
    simp [hitEnd, taken, layout, short, noNewline]
  obtain ⟨buffer', stored, bytes⟩ := Buffer.store_eq array (text ++ [0])
    (by rw [List.length_append, List.length_singleton, same]) offset starts
  refine ⟨buffer', { s with pos := s.pos + text.length, eof := true }, ?_, bytes,
    rest_after (by rw [layout, List.append_nil]) _, rfl⟩
  have present : s.line size ≠ [] := by
    rw [taken]
    exact nonempty
  rw [fgets, if_neg present, taken, stored, ok_bind, met, Bool.or_true]

theorem length_takeLine_le (limit : Nat) (text : List Byte) :
    (takeLine limit text).length ≤ limit := by
  induction limit generalizing text with
  | zero => exact Nat.le_refl 0
  | succ limit ih =>
      cases text with
      | nil => exact Nat.zero_le _
      | cons b text =>
          rw [takeLine]
          split
          · exact Nat.succ_le_succ (Nat.zero_le _)
          · exact Nat.succ_le_succ (ih text)

theorem takeLine_ne {limit : Nat} {text : List Byte} (something : text ≠ []) :
    takeLine (limit + 1) text ≠ [] := by
  obtain ⟨b, text, rfl⟩ := List.exists_cons_of_ne_nil something
  rw [takeLine]
  split
  · exact List.cons_ne_nil _ _
  · exact List.cons_ne_nil _ _

/-- **A read that finds something** into an array that has room for it. -/
theorem fgets_piece {capacity limit : Nat} (buffer : Buffer capacity) {s : Stream}
    (something : s.rest ≠ []) (room : limit + 2 ≤ capacity) :
    ∃ (buffer' : Buffer capacity) (s' : Stream),
      s.fgets buffer 0 (limit + 2) = .ok (true, buffer', s') ∧
        cstr buffer'.bytes = cstr (takeLine (limit + 1) s.rest) ∧
        s'.rest = s.rest.drop (takeLine (limit + 1) s.rest).length := by
  have short := length_takeLine_le (limit + 1) s.rest
  have present : s.line (limit + 2) ≠ [] := takeLine_ne something
  have layout : buffer.bytes = [] ++ buffer.bytes.take ((s.line (limit + 2) ++ [0]).length) ++
      buffer.bytes.drop ((s.line (limit + 2) ++ [0]).length) := by
    rw [List.nil_append, List.take_append_drop]
  have fits : (s.line (limit + 2) ++ [0]).length ≤ buffer.bytes.length := by
    rw [buffer.size_eq, List.length_append, List.length_singleton]
    exact (Nat.succ_le_succ short).trans room
  obtain ⟨buffer', stored, bytes⟩ := Buffer.store_eq layout (s.line (limit + 2) ++ [0])
    (by rw [List.length_take, Nat.min_eq_left fits]) 0 rfl
  refine ⟨buffer', _, by rw [fgets, if_neg present, stored, ok_bind], ?_, ?_⟩
  · rw [bytes, List.nil_append, List.append_assoc, List.singleton_append, cstr_terminated]
    rfl
  · simp only [rest, List.drop_drop]
    rfl

/-- Reading does not change the file. -/
theorem fgets_contents {capacity : Nat} {buffer buffer' : Buffer capacity} {s s' : Stream}
    {offset size : Nat} {returned : Bool}
    (read : s.fgets buffer offset size = .ok (returned, buffer', s')) :
    s'.contents = s.contents := by
  rw [fgets] at read
  split at read
  · cases read
    rfl
  · obtain ⟨middle, -, read⟩ := bind_eq_ok read
    cases read
    rfl

/-- A read at or past the end of the file returns nothing, leaves the buffer and the
position, and sets the end-of-file indicator. -/
theorem fgets_at_end {capacity : Nat} {buffer : Buffer capacity} {s : Stream}
    (ended : s.rest = []) (offset size : Nat) :
    s.fgets buffer offset size = .ok (false, buffer, { s with eof := true }) := by
  have nothing : s.line size = [] := by
    rw [line, ended]
    cases size - 1 <;> rfl
  rw [fgets, if_pos nothing]

end Stream

end LinuxExercises.Foundations
