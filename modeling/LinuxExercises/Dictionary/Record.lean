import LinuxExercises.Foundations.Stdio

/-!
# Dictionary entries and their records

The exercises exchange a dictionary in two forms. The source is a text file: for
every entry a line with the word, the lines of its definition, and a blank line. The
record file is a sequence of `Dictrec` structures, 512 bytes each, with the word in
the first 32 and the definition in the last 480.

A `Dictrec` is one array of 512 bytes. A pointer to its word also sees the text
behind it, as it does in C. `Entry.record` is the record that the record file holds
for an entry: both fields keep the newline that ended their line and are padded with
NULs.
-/

set_option autoImplicit false

namespace LinuxExercises.Dictionary

open Foundations

/-- Size of the word field. -/
abbrev WORD : Nat := 32

/-- Size of the text field. -/
abbrev TEXT : Nat := 480

/-- What `lookup` returns. -/
inductive Verdict where
  | found
  | notFound
  | unavail
deriving Repr, DecidableEq

/-- The standard lookup structure: `word` and then `text`. -/
abbrev Dictrec := Buffer (WORD + TEXT)

namespace Dictrec

/-- The pointer `r->word`. -/
def word (r : Dictrec) : List Byte := r.bytes

/-- The pointer `r->text`. -/
def text (r : Dictrec) : List Byte := r.bytes.drop WORD

/-- `strcpy(r->text, s)`. -/
def copyText (r : Dictrec) (text : List Byte) : Except Fault Dictrec :=
  r.store WORD (cstr text ++ [0])

/-- Both fields hold a terminated string. -/
def Terminated (r : Dictrec) : Prop := 0 ∈ r.bytes.take WORD ∧ 0 ∈ r.bytes.drop WORD

instance (r : Dictrec) : Decidable r.Terminated :=
  inferInstanceAs (Decidable (_ ∧ _))

/-- Copying a string that fits sets the text to it and keeps the word field. -/
theorem copyText_fits (r : Dictrec) {text : List Byte} (fits : strlen text < TEXT) :
    ∃ result : Dictrec, r.copyText text = .ok result ∧
      result.bytes.take WORD = r.bytes.take WORD ∧ cstr result.text = cstr text := by
  have total := r.size_eq
  have room : (cstr text ++ [0]).length ≤ (r.bytes.drop WORD).length := by
    rw [List.length_append, List.length_singleton, List.length_drop, total]
    rw [strlen] at fits
    omega
  have layout : r.bytes = r.bytes.take WORD ++
      (r.bytes.drop WORD).take (cstr text ++ [0]).length ++
        (r.bytes.drop WORD).drop (cstr text ++ [0]).length := by
    rw [List.append_assoc, List.take_append_drop, List.take_append_drop]
  have start : WORD = (r.bytes.take WORD).length := by
    rw [List.length_take, total]
    omega
  obtain ⟨result, stored, bytes⟩ := Buffer.store_eq layout (cstr text ++ [0])
    (by rw [List.length_take]; omega) WORD start
  refine ⟨result, stored, ?_, ?_⟩
  · rw [bytes, List.append_assoc, List.take_append_of_le_length (by omega),
      List.take_of_length_le (by omega)]
  · rw [Dictrec.text, bytes, List.append_assoc, List.append_assoc, List.drop_left' start.symm]
    exact cstr_append_zero fun b member => cstr_ne_zero member

/-- A copy that is not a fault did fit. -/
theorem copyText_spec (r : Dictrec) {text : List Byte} {result : Dictrec}
    (copied : r.copyText text = .ok result) :
    result.bytes.take WORD = r.bytes.take WORD ∧ cstr result.text = cstr text := by
  have within := Buffer.store_within copied
  rw [List.length_append, List.length_singleton] at within
  have fits : strlen text < TEXT := by
    rw [strlen]
    omega
  obtain ⟨result', copied', word, same⟩ := r.copyText_fits fits
  obtain rfl := Except.ok.inj (copied.symm.trans copied')
  exact ⟨word, same⟩

end Dictrec

/-! ## Entries -/

/-- A character of a line: neither a newline nor a NUL. -/
def InLine (b : Byte) : Prop := b ≠ newline ∧ b ≠ 0

instance (b : Byte) : Decidable (InLine b) := inferInstanceAs (Decidable (_ ∧ _))

theorem newline_clean : ∀ b ∈ [newline], b ≠ 0 :=
  forall_of_all rfl

/-- A line with its newline has no NUL. -/
theorem clean_of_inLine {l : List Byte} (inLine : ∀ b ∈ l, InLine b) :
    ∀ b ∈ l ++ [newline], b ≠ 0 := by
  intro b member
  rcases List.mem_append.mp member with inside | last
  · exact (inLine b inside).2
  · exact newline_clean b last

/-- A dictionary entry: a word and the lines of its definition. -/
structure Entry where
  word : List Byte
  lines : List (List Byte)
  word_ne : word ≠ []
  word_inLine : ∀ b ∈ word, InLine b
  lines_ne : lines ≠ []
  line_ne : ∀ l ∈ lines, l ≠ []
  line_inLine : ∀ l ∈ lines, ∀ b ∈ l, InLine b

/-- Lines of text, each with its newline. -/
def unlines (ls : List (List Byte)) : List Byte := ls.flatMap (· ++ [newline])

namespace Entry

/-- The lines of the definition without their newlines. -/
def definition (e : Entry) : List Byte := e.lines.flatten

/-- The entry in the source file: the word, the definition, one blank line. -/
def source (e : Entry) : List Byte :=
  e.word ++ newline :: (unlines e.lines ++ [newline])

/-- Word and definition fit their fields with a newline and a terminator. -/
structure Fits (e : Entry) : Prop where
  word_le : e.word.length ≤ 30
  definition_le : e.definition.length ≤ 478

/-- The record of an entry. -/
def record (e : Entry) : List Byte :=
  pad WORD (e.word ++ [newline]) ++ pad TEXT (e.definition ++ [newline])

theorem word_clean (e : Entry) : ∀ b ∈ e.word ++ [newline], b ≠ 0 :=
  clean_of_inLine e.word_inLine

theorem definition_inLine (e : Entry) : ∀ b ∈ e.definition, InLine b := by
  intro b member
  obtain ⟨l, inLines, inL⟩ := List.mem_flatten.mp member
  exact e.line_inLine l inLines b inL

theorem newline_notMem_word (e : Entry) : newline ∉ e.word :=
  fun member => (e.word_inLine _ member).1 rfl

theorem length_word_pos (e : Entry) : 0 < e.word.length :=
  List.length_pos_iff.mpr e.word_ne

end Entry

/-- A source file. -/
def sourceFile (entries : List Entry) : List Byte := entries.flatMap Entry.source

/-- A record file. -/
def recordFile (entries : List Entry) : List Byte := entries.flatMap Entry.record

end LinuxExercises.Dictionary
