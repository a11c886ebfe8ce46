import Mathlib.Data.List.TakeWhile
import LinuxExercises.Foundations.Faults

/-!
# Byte arrays and the strings in them

A C array of `n` bytes is a list of bytes that carries the proof of its length,
so a store cannot change the size of an object. A store outside the object is a
fault and never a silent success (`Buffer.store`).

A `char *` that points into an object is the list of bytes from there to the end
of the object, and the string it denotes is what precedes the first NUL (`cstr`).
Reading it through the end of one field into the next needs no special case: the
fields of a structure are adjacent parts of one array.

Most fields are handled in one shape, a string followed by NULs up to the size of
the field (`pad`). Clearing a field gives the padded empty string, and `strcpy`
and `strcat` move from one padded string to another as long as the terminator
fits (`store_pad`).
-/

set_option autoImplicit false

namespace LinuxExercises.Foundations

/-- A C `char`. -/
abbrev Byte := UInt8

/-! ## Strings -/

/-- The string that starts at a pointer: the bytes before the first NUL. -/
def cstr (bytes : List Byte) : List Byte := bytes.takeWhile (· != 0)

def strlen (bytes : List Byte) : Nat := (cstr bytes).length

/-- `strcmp`, as the order of the two strings. -/
def strcmp (left right : List Byte) : Ordering := compare (cstr left) (cstr right)

theorem strcmp_eq_iff {left right : List Byte} :
    strcmp left right = .eq ↔ cstr left = cstr right := by
  rw [strcmp]
  exact Std.LawfulEqCmp.compare_eq_iff_eq

/-- `strcmp` orders pointers by the strings they point to. -/
instance : Std.TransCmp strcmp where
  eq_swap {left right} := @Std.OrientedCmp.eq_swap _ compare _ (cstr left) (cstr right)
  isLE_trans {left middle right} :=
    @Std.TransCmp.isLE_trans _ compare _ (cstr left) (cstr middle) (cstr right)

/-- `strcmp`, which reads the two strings byte by byte up to the first difference. -/
def strcmpBytes : List Byte → List Byte → Except Fault Ordering
  | [], _ => .error .outOfBounds
  | _ :: _, [] => .error .outOfBounds
  | a :: left, b :: right =>
    if a ≠ b then .ok (compare a b)
    else if a = 0 then .ok .eq
    else strcmpBytes left right

theorem cstr_ne_zero {bytes : List Byte} {b : Byte} (member : b ∈ cstr bytes) : b ≠ 0 := by
  simpa using List.mem_takeWhile_imp member

theorem cstr_cons_of_ne {b : Byte} (notZero : b ≠ 0) (bytes : List Byte) :
    cstr (b :: bytes) = b :: cstr bytes := by
  rw [cstr, List.takeWhile_cons_of_pos (by simpa using notZero), cstr]

theorem cstr_zero (bytes : List Byte) : cstr (0 :: bytes) = [] := rfl

theorem compare_cons (a b : Byte) (left right : List Byte) :
    compare (a :: left) (b :: right) = (compare a b).then (compare left right) := by
  rw [List.compare_eq_compareLex, List.compareLex_cons_cons]

theorem compare_zero {b : Byte} (notZero : b ≠ 0) : compare 0 b = .lt := by
  have positive : (0 : Byte) < b := by
    rw [UInt8.lt_iff_toNat_lt]
    exact Nat.pos_of_ne_zero fun same => notZero (UInt8.toNat_inj.mp same)
  exact Std.compare_eq_lt.mpr positive

/-- Up to the terminator of one string, no more is read of the other one either. -/
theorem strcmpBytes_eq {left right : List Byte} {limit : Nat} (terminated : 0 ∈ right.take limit)
    (room : limit ≤ left.length) :
    strcmpBytes (left.take limit) right = .ok (strcmp left right) := by
  induction limit generalizing left right with
  | zero => cases terminated
  | succ limit ih =>
      obtain ⟨a, left, rfl⟩ := List.exists_cons_of_length_pos (Nat.zero_lt_of_lt room)
      cases right with
      | nil => cases terminated
      | cons b right =>
          rw [List.take_succ_cons, strcmpBytes]
          by_cases same : a = b
          · subst same
            rw [if_neg (not_not.mpr rfl)]
            by_cases zero : a = 0
            · subst zero
              rw [if_pos rfl]
              rfl
            · have later : 0 ∈ right.take limit := by
                rw [List.take_succ_cons] at terminated
                exact (List.mem_cons.mp terminated).resolve_left (Ne.symm zero)
              rw [if_neg zero, ih later (Nat.le_of_succ_le_succ room), strcmp, strcmp,
                cstr_cons_of_ne zero, cstr_cons_of_ne zero, compare_cons, Std.compare_self]
              rfl
          · rw [if_pos same, strcmp]
            congr 1
            by_cases zero : a = 0
            · subst zero
              rw [compare_zero (Ne.symm same), cstr_zero, cstr_cons_of_ne (Ne.symm same)]
              rfl
            · rw [cstr_cons_of_ne zero]
              by_cases zero' : b = 0
              · subst zero'
                rw [Std.OrientedCmp.gt_of_lt (compare_zero zero)]
                rfl
              · rw [cstr_cons_of_ne zero', compare_cons]
                cases order : compare a b with
                | eq => exact absurd (Std.LawfulEqCmp.compare_eq_iff_eq.mp order) same
                | lt => rfl
                | gt => rfl

/-- A string without NULs is what it denotes once a NUL follows it. -/
theorem cstr_append_zero {text rest : List Byte} (clean : ∀ b ∈ text, b ≠ 0) :
    cstr (text ++ 0 :: rest) = text := by
  rw [cstr, List.takeWhile_append_of_pos (by simpa using clean)]
  simp

/-- A terminator behind a string ends it at the latest. -/
theorem cstr_terminated (text rest : List Byte) : cstr (text ++ 0 :: rest) = cstr text := by
  induction text with
  | nil => rfl
  | cons b text ih =>
      by_cases zero : b = 0
      · rw [zero, List.cons_append, cstr_zero, cstr_zero]
      · rw [List.cons_append, cstr_cons_of_ne zero, cstr_cons_of_ne zero, ih]

/-- A text can be checked byte by byte. -/
theorem forall_of_all {P : Byte → Prop} [DecidablePred P] {text : List Byte}
    (checked : (text.all fun b => decide (P b)) = true) : ∀ b ∈ text, P b :=
  fun b member => of_decide_eq_true (List.all_eq_true.mp checked b member)

/-- What follows the first NUL does not matter. -/
theorem cstr_append_of_mem {bytes : List Byte} (rest : List Byte) (terminated : 0 ∈ bytes) :
    cstr (bytes ++ rest) = cstr bytes := by
  induction bytes with
  | nil => cases terminated
  | cons b bytes ih =>
      by_cases zero : b = 0
      · simp [cstr, zero]
      · have later : 0 ∈ bytes := by
          rcases List.mem_cons.mp terminated with same | later
          · exact absurd same.symm zero
          · exact later
        simpa [cstr, zero] using ih later

/-- A terminated string and its NUL fit in front of the object's end. -/
theorem strlen_lt_of_mem {bytes : List Byte} (terminated : 0 ∈ bytes) :
    strlen bytes < bytes.length := by
  induction bytes with
  | nil => cases terminated
  | cons b bytes ih =>
      by_cases zero : b = 0
      · simp [strlen, cstr, zero]
      · have later : 0 ∈ bytes := by
          rcases List.mem_cons.mp terminated with same | later
          · exact absurd same.symm zero
          · exact later
        simpa [strlen, cstr, zero] using ih later

/-- A short string has its NUL close by. -/
theorem zero_mem_take {bytes : List Byte} {n : Nat} (short : strlen bytes < n)
    (room : n ≤ bytes.length) : 0 ∈ bytes.take n := by
  by_contra absent
  have clean : ∀ b ∈ bytes.take n, (b != 0) = true := by
    intro b member
    simpa using fun zero : b = 0 => absent (zero ▸ member)
  have long : n ≤ strlen bytes := by
    rw [strlen, cstr, ← List.take_append_drop n bytes, List.takeWhile_append_of_pos clean,
      List.length_append, List.length_take, Nat.min_eq_left room]
    exact Nat.le_add_right ..
  exact absurd short (Nat.not_lt.mpr long)

/-! ## Padded fields -/

/-- A string followed by NULs up to the size of its field. -/
def pad (size : Nat) (text : List Byte) : List Byte :=
  text ++ List.replicate (size - text.length) 0

theorem length_pad {size : Nat} {text : List Byte} (fits : text.length ≤ size) :
    (pad size text).length = size := by
  simp only [pad, List.length_append, List.length_replicate]
  omega

theorem pad_nil (size : Nat) : pad size [] = List.replicate size 0 := rfl

/-- A padded string shorter than its field is terminated inside the field. -/
theorem pad_eq_terminated {size : Nat} {text : List Byte} (fits : text.length < size) :
    pad size text = text ++ 0 :: List.replicate (size - text.length - 1) 0 := by
  rw [pad]
  obtain ⟨room, same⟩ : ∃ room, size - text.length = room + 1 :=
    ⟨size - text.length - 1, by omega⟩
  rw [same, List.replicate_succ, Nat.add_sub_cancel]

theorem zero_mem_pad {size : Nat} {text : List Byte} (fits : text.length < size) :
    0 ∈ pad size text := by
  rw [pad_eq_terminated fits]
  simp

theorem cstr_pad {size : Nat} {text : List Byte} (clean : ∀ b ∈ text, b ≠ 0)
    (fits : text.length < size) (rest : List Byte) : cstr (pad size text ++ rest) = text := by
  rw [pad_eq_terminated fits, List.append_assoc, List.cons_append]
  exact cstr_append_zero clean

/-! ## Arrays -/

/-- An array of `size` bytes. -/
structure Buffer (size : Nat) where
  bytes : List Byte
  size_eq : bytes.length = size
deriving Repr, DecidableEq

namespace Buffer

variable {size : Nat}

@[ext] theorem ext {first second : Buffer size} (same : first.bytes = second.bytes) :
    first = second := by
  cases first
  cases second
  cases same
  rfl

/-- The array that holds a padded string. -/
def ofString (size : Nat) (text : List Byte) : Buffer size where
  bytes := (pad size text).take size
  size_eq := by
    simp only [pad, List.length_take, List.length_append, List.length_replicate]
    omega

/-- An array that holds a string denotes it. -/
theorem cstr_ofString {text : List Byte} (clean : ∀ b ∈ text, b ≠ 0) (fits : text.length < size) :
    cstr (ofString size text).bytes = text := by
  change cstr ((pad size text).take size) = text
  rw [List.take_of_length_le (Nat.le_of_eq (length_pad (Nat.le_of_lt fits))),
    ← List.append_nil (pad size text), cstr_pad clean fits]

/-- The pointer to an offset of the array. -/
def drop (buffer : Buffer size) (offset : Nat) : List Byte := buffer.bytes.drop offset

/-- Store bytes at an offset. The whole range must lie in the array. -/
def store (buffer : Buffer size) (offset : Nat) (bytes : List Byte) :
    Except Fault (Buffer size) :=
  if within : offset + bytes.length ≤ size then
    .ok ⟨buffer.bytes.take offset ++ bytes ++ buffer.bytes.drop (offset + bytes.length), by
      have := buffer.size_eq
      simp only [List.length_append, List.length_take, List.length_drop]
      omega⟩
  else .error .outOfBounds

/-- A store inside the array replaces exactly the bytes it covers. -/
theorem store_eq {buffer : Buffer size} {before covered after : List Byte}
    (layout : buffer.bytes = before ++ covered ++ after) (bytes : List Byte)
    (same : covered.length = bytes.length) (offset : Nat) (starts : offset = before.length) :
    ∃ result : Buffer size, buffer.store offset bytes = .ok result ∧
      result.bytes = before ++ bytes ++ after := by
  have total := buffer.size_eq
  rw [layout] at total
  simp only [List.length_append] at total
  have within : offset + bytes.length ≤ size := by omega
  refine ⟨_, dif_pos within, ?_⟩
  simp only
  rw [layout, starts, List.append_assoc before, List.take_left, ← same, ← List.length_append,
    ← List.append_assoc, List.drop_left]

/-- A store over the whole array. -/
theorem store_whole (buffer : Buffer size) {bytes : List Byte} (same : bytes.length = size) :
    ∃ result : Buffer size, buffer.store 0 bytes = .ok result ∧ result.bytes = bytes := by
  have layout : buffer.bytes = [] ++ buffer.bytes ++ [] := by
    rw [List.nil_append, List.append_nil]
  obtain ⟨result, stored, replaced⟩ :=
    store_eq layout bytes (buffer.size_eq.trans same.symm) 0 rfl
  exact ⟨result, stored, by rw [replaced, List.nil_append, List.append_nil]⟩

/-- A store that succeeds is inside the array. -/
theorem store_within {buffer result : Buffer size} {offset : Nat} {bytes : List Byte}
    (stored : buffer.store offset bytes = .ok result) : offset + bytes.length ≤ size := by
  rw [store] at stored
  split at stored
  · assumption
  · cases stored

/-- A store that leaves the array is a fault. -/
theorem store_outside (buffer : Buffer size) {offset : Nat} {bytes : List Byte}
    (outside : size < offset + bytes.length) :
    buffer.store offset bytes = .error .outOfBounds := by
  rw [store, dif_neg (Nat.not_le_of_lt outside)]

/-- The bytes after a store inside the array. -/
theorem store_bytes {buffer result : Buffer size} {offset : Nat} {bytes : List Byte}
    (stored : buffer.store offset bytes = .ok result) :
    result.bytes =
      buffer.bytes.take offset ++ bytes ++ buffer.bytes.drop (offset + bytes.length) := by
  rw [store] at stored
  split at stored
  · cases stored
    rfl
  · cases stored

/-- **Appending to a padded field.** Storing a string and its terminator behind the
string of a padded field gives the padded field of the joined string. -/
theorem store_pad {buffer : Buffer size} {before after text more : List Byte} {field : Nat}
    (layout : buffer.bytes = before ++ pad field text ++ after)
    (fits : (text ++ more).length < field) (offset : Nat)
    (starts : offset = before.length + text.length) :
    ∃ result : Buffer size, buffer.store offset (more ++ [0]) = .ok result ∧
      result.bytes = before ++ pad field (text ++ more) ++ after := by
  have room : (text ++ more).length + 1 ≤ field := fits
  rw [List.length_append] at room
  have split : pad field text = text ++ List.replicate (more.length + 1) 0 ++
      List.replicate (field - (text ++ more).length - 1) 0 := by
    rw [pad, List.append_assoc, List.replicate_append_replicate, List.length_append]
    congr 2
    omega
  have layout' : buffer.bytes = (before ++ text) ++ List.replicate (more.length + 1) 0 ++
      (List.replicate (field - (text ++ more).length - 1) 0 ++ after) := by
    rw [layout, split]
    simp only [List.append_assoc]
  obtain ⟨result, stored, bytes⟩ := store_eq layout' (more ++ [0]) (by simp) offset
    (by rw [starts, List.length_append])
  refine ⟨result, stored, ?_⟩
  rw [bytes, pad_eq_terminated fits]
  simp only [List.append_assoc, List.cons_append, List.nil_append]

/-- `s[strlen(s) - 1] = '\0'` for the string at an offset of the array. An empty string
has no last character: the store is in front of it. -/
def chop (buffer : Buffer size) (offset : Nat) : Except Fault (Buffer size) :=
  match strlen (buffer.drop offset) with
  | 0 => .error .outOfBounds
  | length + 1 => buffer.store (offset + length) [0]

/-- An empty string cannot be chopped. -/
theorem chop_empty {buffer : Buffer size} {offset : Nat}
    (empty : strlen (buffer.drop offset) = 0) : buffer.chop offset = .error .outOfBounds := by
  rw [chop, empty]

/-- Chopping a string puts a NUL in the place of its last character. -/
theorem chop_eq {buffer : Buffer size} {before text after : List Byte} {b : Byte}
    (layout : buffer.bytes = before ++ (text ++ b :: 0 :: after))
    (clean : ∀ c ∈ text ++ [b], c ≠ 0) (offset : Nat) (starts : offset = before.length) :
    ∃ result : Buffer size, buffer.chop offset = .ok result ∧
      result.bytes = before ++ (text ++ 0 :: 0 :: after) := by
  have string : cstr (buffer.drop offset) = text ++ [b] := by
    rw [drop, layout, starts, List.drop_left, List.append_cons]
    exact cstr_append_zero clean
  have length : strlen (buffer.drop offset) = text.length + 1 := by
    rw [strlen, string, List.length_append, List.length_singleton]
  have layout' : buffer.bytes = (before ++ text) ++ [b] ++ (0 :: after) := by
    rw [layout]
    simp only [List.append_assoc, List.cons_append, List.nil_append]
  obtain ⟨result, stored, bytes⟩ := store_eq layout' [0] rfl
    (offset + text.length) (by rw [starts, List.length_append])
  refine ⟨result, ?_, ?_⟩
  · rw [chop, length]
    exact stored
  · rw [bytes]
    simp only [List.append_assoc, List.cons_append, List.nil_append]

/-- Chopping a padded string. -/
theorem chop_pad {buffer : Buffer size} {before text after : List Byte} {b : Byte} {field : Nat}
    (layout : buffer.bytes = before ++ pad field (text ++ [b]) ++ after)
    (clean : ∀ c ∈ text ++ [b], c ≠ 0) (fits : text.length + 1 < field) (offset : Nat)
    (starts : offset = before.length) :
    ∃ result : Buffer size, buffer.chop offset = .ok result ∧
      result.bytes = before ++ pad field text ++ after := by
  have long : (text ++ [b]).length < field := by
    rw [List.length_append]
    exact fits
  obtain ⟨room, same⟩ : ∃ room, field - text.length = room + 2 :=
    ⟨field - text.length - 2, by omega⟩
  have padded : pad field (text ++ [b]) = text ++ b :: 0 :: List.replicate room 0 := by
    rw [pad_eq_terminated long, List.length_append, List.length_singleton,
      (by omega : field - (text.length + 1) - 1 = room), List.append_assoc]
    rfl
  have layout' : buffer.bytes = before ++ (text ++ b :: 0 :: (List.replicate room 0 ++ after)) := by
    rw [layout, padded]
    simp only [List.append_assoc, List.cons_append]
  obtain ⟨result, chopped, bytes⟩ := chop_eq layout' clean offset starts
  refine ⟨result, chopped, ?_⟩
  rw [bytes, pad, same]
  simp only [List.append_assoc, List.cons_append, List.replicate_succ]

end Buffer

end LinuxExercises.Foundations
