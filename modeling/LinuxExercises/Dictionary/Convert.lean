import LinuxExercises.Dictionary.Record

/-!
# Converting a dictionary to fixed-length records

`convert` reads the source line by line and writes one record per entry. Its state is
the input stream, the line buffer, the record `blank` that it fills in place, and what
it has written. The word goes into the record with its newline, the lines of the
definition without theirs, and a newline is appended to the joined definition.

On a source whose entries fit their fields, `convert` terminates and writes exactly
the records of the entries (`convert_sourceFile`). The loop over one definition and
the loop over the file are each shown on the text they consume, so the budget that
suffices is the length of the source.
-/

set_option autoImplicit false

namespace LinuxExercises.Dictionary

open Foundations

/-- Size of the line buffer. -/
abbrev BIGLINE : Nat := 512

/-- The variables of `main`: `in`, `line`, `blank` and the contents of `out`. -/
structure Converter where
  inp : Stream
  line : Buffer BIGLINE
  blank : Dictrec
  out : List Byte

namespace Converter

/-- `memset(line, 0, BIGLINE); fgets(line, BIGLINE, in);` -/
def nextLine (c : Converter) : Except Fault Converter := do
  let line ← c.line.store 0 (List.replicate BIGLINE 0)
  let (_, line, inp) ← c.inp.fgets line 0 BIGLINE
  .ok { c with inp := inp, line := line }

/-- Strip the newline of the line and append it to the text: `strcat(blank.text, line)`. -/
def appendLine (c : Converter) : Except Fault Converter := do
  let line ← c.line.chop 0
  let blank ← c.blank.store (WORD + strlen c.blank.text) (cstr line.bytes ++ [0])
  .ok { c with line := line, blank := blank }

/-- The loop `while (noword)`: it ends at a line of one character. -/
def readDefinition : Nat → Converter → Except Fault Converter
  | 0, _ => .error .outOfFuel
  | fuel + 1, c =>
    if strlen c.line.bytes = 1 then .ok c
    else do
      let c ← c.appendLine
      let c ← c.nextLine
      readDefinition fuel c

/-- What one round of the main loop does after the word is stored: read the definition
and write the record. -/
def convertDefinition (fuel : Nat) (c : Converter) : Except Fault Converter := do
  let blank ← c.blank.store WORD (List.replicate TEXT 0)
  let c ← nextLine { c with blank := blank }
  let line ← c.line.chop 0
  let blank ← c.blank.store WORD (cstr line.bytes ++ [0])
  let c ← nextLine { c with line := line, blank := blank }
  let c ← readDefinition fuel c
  let blank ← c.blank.store (WORD + strlen c.blank.text) [newline, 0]
  .ok { c with blank := blank,
               out := c.out ++ (blank.bytes.take WORD ++ (blank.bytes.drop WORD).take TEXT) }

/-- The main loop `while (!feof(in))`. -/
def convertLoop : Nat → Converter → Except Fault Converter
  | 0, _ => .error .outOfFuel
  | fuel + 1, c =>
    if c.inp.eof then .ok c
    else do
      let blank ← c.blank.store 0 (List.replicate WORD 0)
      let (_, line, inp) ← c.inp.fgets c.line 0 BIGLINE
      -- The line keeps its old contents at the end of the file.
      if strlen line.bytes = 1 then .ok { c with inp := inp, line := line, blank := blank }
      else do
        let blank ← blank.store 0 (cstr line.bytes ++ [0])
        let c ← convertDefinition fuel { c with inp := inp, line := line, blank := blank }
        convertLoop fuel c

/-- `main` on a source file. The line buffer is not initialised; the static record is
zero. -/
def convert (uninitialised : Buffer BIGLINE) (source : List Byte) (fuel : Nat) :
    Except Fault (List Byte) := do
  let c ← convertLoop fuel
    { inp := .fopen source, line := uninitialised, blank := .ofString _ [], out := [] }
  .ok c.out

/-! ## One line -/

/-- The line buffer after `fgets` stored a text in the cleared array. -/
theorem pad_line {text : List Byte} (short : text.length < BIGLINE) :
    pad BIGLINE text = [] ++ (text ++ [0]) ++ List.replicate (BIGLINE - (text.length + 1)) 0 := by
  rw [pad_eq_terminated short, Nat.sub_sub]
  simp only [List.nil_append, List.append_assoc, List.cons_append]

theorem clear_line (line : Buffer BIGLINE) :
    ∃ cleared : Buffer BIGLINE, line.store 0 (List.replicate BIGLINE 0) = .ok cleared ∧
      cleared.bytes = List.replicate BIGLINE 0 :=
  line.store_whole List.length_replicate

theorem nextLine_spec {c : Converter} {l rest : List Byte}
    (layout : c.inp.rest = l ++ newline :: rest) (single : newline ∉ l)
    (fits : l.length + 1 < BIGLINE) (more : c.inp.eof = false) :
    ∃ c', c.nextLine = .ok c' ∧ c'.line.bytes = pad BIGLINE (l ++ [newline]) ∧
      c'.inp.rest = rest ∧ c'.inp.eof = false ∧ c'.blank = c.blank ∧ c'.out = c.out := by
  obtain ⟨cleared, store₁, bytes₁⟩ := clear_line c.line
  have array : cleared.bytes = [] ++ List.replicate (l.length + 2) 0 ++
      List.replicate (BIGLINE - (l.length + 2)) 0 := by
    have room : l.length + 2 ≤ BIGLINE := fits
    rw [bytes₁, List.nil_append, List.replicate_append_replicate, Nat.add_sub_of_le room]
  obtain ⟨line, inp, read, bytes₂, -, restEq, open_⟩ :=
    Stream.fgets_line layout single fits more array (by simp) 0 rfl
  refine ⟨{ c with inp := inp, line := line }, ?_, ?_, restEq, open_, rfl, rfl⟩
  · rw [nextLine, store₁, ok_bind, read, ok_bind]
  · have short : (l ++ [newline]).length < BIGLINE := by
      rw [List.length_append]
      exact fits
    rw [bytes₂, pad_line short, List.length_append, List.length_singleton]
    simp only [List.append_assoc, List.cons_append, List.nil_append]

/-- A line that fills the buffer is read without its end. -/
theorem nextLine_full {c : Converter} {text rest : List Byte}
    (layout : c.inp.rest = text ++ rest) (single : newline ∉ text)
    (fills : text.length + 1 = BIGLINE) :
    ∃ c', c.nextLine = .ok c' ∧ c'.line.bytes = pad BIGLINE text ∧ c'.blank = c.blank := by
  obtain ⟨cleared, store₁, bytes₁⟩ := clear_line c.line
  have array : cleared.bytes = [] ++ List.replicate BIGLINE 0 ++ [] := by
    rw [bytes₁, List.nil_append, List.append_nil]
  have present : text ≠ [] := by
    rintro rfl
    cases fills
  obtain ⟨line, inp, read, bytes₂, -, -⟩ :=
    Stream.fgets_full layout single present fills array List.length_replicate 0 rfl
  refine ⟨{ c with inp := inp, line := line }, ?_, ?_, rfl⟩
  · rw [nextLine, store₁, ok_bind, read, ok_bind]
  · rw [bytes₂, pad_line (Nat.lt_of_succ_le (Nat.le_of_eq fills)), fills, Nat.sub_self,
      List.replicate_zero]

/-- A last line without a newline is read whole, and the end of the file has been met. -/
theorem nextLine_last {c : Converter} {text : List Byte} (layout : c.inp.rest = text)
    (present : text ≠ []) (single : newline ∉ text) (fits : text.length + 1 < BIGLINE) :
    ∃ c', c.nextLine = .ok c' ∧ c'.line.bytes = pad BIGLINE text ∧ c'.inp.rest = [] ∧
      c'.inp.eof = true ∧ c'.blank = c.blank ∧ c'.out = c.out := by
  obtain ⟨cleared, store₁, bytes₁⟩ := clear_line c.line
  have array : cleared.bytes = [] ++ List.replicate (text.length + 1) 0 ++
      List.replicate (BIGLINE - (text.length + 1)) 0 := by
    rw [bytes₁, List.nil_append, List.replicate_append_replicate, Nat.add_sub_of_le fits.le]
  obtain ⟨line, inp, read, bytes₂, rest, met⟩ :=
    Stream.fgets_last layout present single fits array List.length_replicate 0 rfl
  refine ⟨{ c with inp := inp, line := line }, ?_, ?_, rest, met, rfl, rfl⟩
  · rw [nextLine, store₁, ok_bind, read, ok_bind]
  · rw [bytes₂, pad_line (Nat.lt_of_succ_lt fits)]

/-- At the end of the file the line is empty, and it has no last character. -/
theorem nextLine_end {c : Converter} (ended : c.inp.rest = []) :
    ∃ c', c.nextLine = .ok c' ∧ strlen c'.line.bytes = 0 := by
  obtain ⟨cleared, store₁, bytes₁⟩ := clear_line c.line
  refine ⟨{ c with inp := { c.inp with eof := true }, line := cleared }, ?_, ?_⟩
  · rw [nextLine, store₁, ok_bind, Stream.fgets_at_end ended, ok_bind]
  · simp only [strlen, bytes₁]
    rfl

theorem cstr_line {line : Buffer BIGLINE} {text : List Byte} (holds : line.bytes = pad BIGLINE text)
    (clean : ∀ b ∈ text, b ≠ 0) (short : text.length < BIGLINE) : cstr line.bytes = text := by
  rw [holds, ← List.append_nil (pad BIGLINE text), cstr_pad clean short]

/-- What stands in front of the last character is what is appended. -/
theorem chop_line {line : Buffer BIGLINE} {text : List Byte} {b : Byte}
    (holds : line.bytes = pad BIGLINE (text ++ [b])) (clean : ∀ c ∈ text ++ [b], c ≠ 0)
    (short : text.length + 1 < BIGLINE) :
    ∃ chopped : Buffer BIGLINE, line.chop 0 = .ok chopped ∧ cstr chopped.bytes = text := by
  have layout : line.bytes = [] ++ pad BIGLINE (text ++ [b]) ++ [] := by
    rw [holds, List.nil_append, List.append_nil]
  obtain ⟨chopped, done, bytes⟩ := Buffer.chop_pad layout clean short 0 rfl
  refine ⟨chopped, done, ?_⟩
  rw [bytes, List.nil_append]
  exact cstr_pad (fun c member => clean c (List.mem_append_left _ member)) (by omega) []

/-! ## One definition -/

/-- A record whose text field holds a string. -/
structure Holds (blank : Dictrec) (wordField acc : List Byte) : Prop where
  bytes : blank.bytes = wordField ++ pad TEXT acc
  size : wordField.length = WORD
  clean : ∀ b ∈ acc, b ≠ 0
  fits : acc.length < TEXT

theorem Holds.strlen_text {blank : Dictrec} {wordField acc : List Byte}
    (holds : Holds blank wordField acc) : strlen blank.text = acc.length := by
  rw [strlen, Dictrec.text, holds.bytes, List.drop_left' holds.size,
    ← List.append_nil (pad TEXT acc), cstr_pad holds.clean holds.fits]

/-- `strcat` of a string that fits. -/
theorem Holds.strcat {blank : Dictrec} {wordField acc more : List Byte}
    (holds : Holds blank wordField acc) (clean : ∀ b ∈ more, b ≠ 0)
    (fits : (acc ++ more).length < TEXT) :
    ∃ blank' : Dictrec, blank.store (WORD + strlen blank.text) (more ++ [0]) = .ok blank' ∧
      Holds blank' wordField (acc ++ more) := by
  have padded : blank.bytes = wordField ++ pad TEXT acc ++ [] := by
    rw [holds.bytes, List.append_nil]
  obtain ⟨blank', stored, bytes⟩ := Buffer.store_pad padded fits (WORD + strlen blank.text)
    (by rw [holds.size, holds.strlen_text])
  refine ⟨blank', stored, by rw [bytes, List.append_nil], holds.size, ?_, fits⟩
  intro b member
  rcases List.mem_append.mp member with before | inside
  · exact holds.clean b before
  · exact clean b inside

/-- `strcat` of one that does not. -/
theorem Holds.strcat_over {blank : Dictrec} {wordField acc more : List Byte}
    (holds : Holds blank wordField acc) (exceeds : TEXT ≤ (acc ++ more).length) :
    blank.store (WORD + strlen blank.text) (more ++ [0]) = .error .outOfBounds := by
  apply Buffer.store_outside
  rw [List.length_append] at exceeds
  rw [holds.strlen_text, List.length_append, List.length_singleton]
  omega

/-- **One line of a definition** is read and appended. -/
theorem nextLine_append {c : Converter} {wordField acc l rest : List Byte}
    (record : Holds c.blank wordField acc) (layout : c.inp.rest = l ++ newline :: rest)
    (more : c.inp.eof = false) (inLine : ∀ b ∈ l, InLine b) (fits : (acc ++ l).length < TEXT) :
    ∃ c₁ c₂, c.nextLine = .ok c₁ ∧ (l ≠ [] → strlen c₁.line.bytes ≠ 1) ∧
      c₁.appendLine = .ok c₂ ∧ Holds c₂.blank wordField (acc ++ l) ∧ c₂.inp.rest = rest ∧
      c₂.inp.eof = false ∧ c₂.out = c.out := by
  have short : l.length + 1 < BIGLINE := by
    have room : TEXT + 1 ≤ BIGLINE := by decide
    rw [List.length_append] at fits
    omega
  obtain ⟨c₁, read, line, rest₁, open₁, blank₁, out₁⟩ :=
    nextLine_spec layout (fun member => (inLine _ member).1 rfl) short more
  obtain ⟨chopped, done, string⟩ := chop_line line (clean_of_inLine inLine) short
  obtain ⟨blank, stored, record₂⟩ :=
    Holds.strcat (blank₁ ▸ record) (fun b member => (inLine b member).2) fits
  refine ⟨c₁, { c₁ with line := chopped, blank := blank }, read, ?_, ?_, record₂, rest₁, open₁,
    out₁⟩
  · intro nonempty
    have positive : 0 < l.length := List.length_pos_iff.mpr nonempty
    rw [strlen, cstr_line line (clean_of_inLine inLine) (by rw [List.length_append]; exact short),
      List.length_append, List.length_singleton]
    omega
  · rw [appendLine, done, ok_bind, string, stored, ok_bind]

/-- Of a line that does not fit the buffer more is read than the text can take. -/
theorem nextLine_long {c : Converter} {l rest : List Byte} (layout : c.inp.rest = l ++ rest)
    (inLine : ∀ b ∈ l, InLine b) (long : BIGLINE - 1 ≤ l.length) :
    ∃ (c₁ : Converter) (text : List Byte) (b : Byte), c.nextLine = .ok c₁ ∧
      c₁.line.bytes = pad BIGLINE (text ++ [b]) ∧ c₁.blank = c.blank ∧
      (∀ x ∈ text ++ [b], x ≠ 0) ∧ text.length + 1 < BIGLINE ∧ TEXT ≤ text.length := by
  have size : (l.take (BIGLINE - 1)).length = BIGLINE - 1 := by
    rw [List.length_take]
    omega
  have layout' : c.inp.rest = l.take (BIGLINE - 1) ++ (l.drop (BIGLINE - 1) ++ rest) := by
    rw [layout, ← List.append_assoc, List.take_append_drop]
  obtain ⟨c₁, read, line, blank⟩ := nextLine_full layout'
    (fun member => (inLine _ (List.mem_of_mem_take member)).1 rfl) (by rw [size]; rfl)
  have present : l.take (BIGLINE - 1) ≠ [] := by
    rw [← List.length_pos_iff, size]
    decide
  have parts := List.dropLast_concat_getLast present
  have front : (l.take (BIGLINE - 1)).dropLast.length = BIGLINE - 2 := by
    rw [List.length_dropLast, size]
    rfl
  refine ⟨c₁, _, _, read, parts.symm ▸ line, blank, ?_, ?_, ?_⟩
  · rw [parts]
    exact fun b member => (inLine b (List.mem_of_mem_take member)).2
  · rw [front]
    decide
  · rw [front]
    decide

/-- Appending what does not fit the text any more leaves the record. -/
theorem appendLine_over {c : Converter} {wordField acc text : List Byte} {b : Byte}
    (record : Holds c.blank wordField acc) (line : c.line.bytes = pad BIGLINE (text ++ [b]))
    (clean : ∀ x ∈ text ++ [b], x ≠ 0) (short : text.length + 1 < BIGLINE)
    (exceeds : TEXT ≤ (acc ++ text).length) : c.appendLine = .error .outOfBounds := by
  obtain ⟨chopped, done, string⟩ := chop_line line clean short
  rw [appendLine, done, ok_bind, string, Holds.strcat_over record exceeds]
  rfl

/-- The line buffer holds a string of this length. -/
theorem strlen_line {c : Converter} {text : List Byte} {b : Byte}
    (line : c.line.bytes = pad BIGLINE (text ++ [b])) (clean : ∀ x ∈ text ++ [b], x ≠ 0)
    (short : text.length + 1 < BIGLINE) : strlen c.line.bytes = text.length + 1 := by
  rw [strlen, cstr_line line clean (by rw [List.length_append]; exact short), List.length_append,
    List.length_singleton]

/-- A line that does not fit the text any more is read, and appending it leaves the record. -/
theorem nextLine_append_over {c : Converter} {wordField acc l rest : List Byte}
    (record : Holds c.blank wordField acc) (layout : c.inp.rest = l ++ newline :: rest)
    (more : c.inp.eof = false) (inLine : ∀ b ∈ l, InLine b) (exceeds : TEXT ≤ (acc ++ l).length) :
    ∃ c₁, c.nextLine = .ok c₁ ∧ strlen c₁.line.bytes ≠ 1 ∧
      c₁.appendLine = .error .outOfBounds := by
  have accFits := record.fits
  by_cases short : l.length + 1 < BIGLINE
  · obtain ⟨c₁, read, line, -, -, blank, -⟩ :=
      nextLine_spec layout (fun member => (inLine _ member).1 rfl) short more
    refine ⟨c₁, read, ?_, appendLine_over (blank ▸ record) line (clean_of_inLine inLine) short
      exceeds⟩
    rw [strlen_line line (clean_of_inLine inLine) short]
    rw [List.length_append] at exceeds
    omega
  · obtain ⟨c₁, text, b, read, line, blank, clean, fits, long⟩ :=
      nextLine_long layout inLine (Nat.le_pred_of_lt (Nat.lt_of_succ_le (Nat.le_of_not_lt short)))
    refine ⟨c₁, read, ?_, appendLine_over (blank ▸ record) line clean fits ?_⟩
    · rw [strlen_line line clean fits]
      exact fun one => absurd (long.trans (Nat.le_of_eq (Nat.succ.inj one))) (by decide)
    · rw [List.length_append]
      exact long.trans (Nat.le_add_left ..)

theorem unlines_cons_append (l : List Byte) (ls : List (List Byte)) (rest : List Byte) :
    unlines (l :: ls) ++ rest = l ++ newline :: (unlines ls ++ rest) := by
  simp only [unlines, List.flatMap_cons, List.append_assoc, List.cons_append, List.nil_append]

/-- **The loop over a definition.** From a position in front of lines that fit, it appends them all
to the text and goes on behind them. -/
theorem readDefinition_lines {wordField tail : List Byte} (ls : List (List Byte)) (fuel : Nat) :
    ∀ {c : Converter} {acc : List Byte},
      c.inp.rest = unlines ls ++ tail → c.inp.eof = false → Holds c.blank wordField acc →
      (∀ l ∈ ls, l ≠ []) → (∀ l ∈ ls, ∀ b ∈ l, InLine b) → (acc ++ ls.flatten).length < TEXT →
      ∃ c' : Converter, (c.nextLine >>= readDefinition (fuel + ls.length)) =
          (c'.nextLine >>= readDefinition fuel) ∧
        Holds c'.blank wordField (acc ++ ls.flatten) ∧ c'.inp.rest = tail ∧ c'.inp.eof = false ∧
        c'.out = c.out := by
  induction ls with
  | nil =>
      intro c acc layout more record _ _ _
      exact ⟨c, rfl, by rwa [List.flatten_nil, List.append_nil], layout, more, rfl⟩
  | cons l ls ih =>
      intro c acc layout more record nonempty inLine fits
      rw [unlines_cons_append] at layout
      rw [List.flatten_cons, ← List.append_assoc] at fits ⊢
      have lFits : (acc ++ l).length < TEXT := by
        rw [List.length_append] at fits
        omega
      obtain ⟨c₁, c₂, read, long, append, record₂, rest₂, open₂, out₂⟩ :=
        nextLine_append record layout more (inLine l (List.mem_cons_self ..)) lFits
      obtain ⟨c₃, later, record₃, rest₃, open₃, out₃⟩ :=
        ih rest₂ open₂ record₂ (fun m member => nonempty m (List.mem_cons_of_mem _ member))
          (fun m member => inLine m (List.mem_cons_of_mem _ member)) fits
      refine ⟨c₃, ?_, record₃, rest₃, open₃, out₃.trans out₂⟩
      rw [read, ok_bind, List.length_cons, ← Nat.add_assoc, readDefinition,
        if_neg (long (nonempty l (List.mem_cons_self ..))), append, ok_bind]
      exact later

/-- Lines that do not fit leave the record. -/
theorem readDefinition_over {wordField tail : List Byte} (ls : List (List Byte)) (fuel : Nat) :
    ∀ {c : Converter} {acc : List Byte},
      c.inp.rest = unlines ls ++ tail → c.inp.eof = false → Holds c.blank wordField acc →
      (∀ l ∈ ls, l ≠ []) → (∀ l ∈ ls, ∀ b ∈ l, InLine b) → TEXT ≤ (acc ++ ls.flatten).length →
      (c.nextLine >>= readDefinition (fuel + ls.length)) = .error .outOfBounds := by
  induction ls with
  | nil =>
      intro c acc _ _ record _ _ exceeds
      rw [List.flatten_nil, List.append_nil] at exceeds
      exact absurd record.fits (Nat.not_lt_of_le exceeds)
  | cons l ls ih =>
      intro c acc layout more record nonempty inLine exceeds
      rw [unlines_cons_append] at layout
      have inL := inLine l (List.mem_cons_self ..)
      by_cases lFits : (acc ++ l).length < TEXT
      · obtain ⟨c₁, c₂, read, long, append, record₂, rest₂, open₂, -⟩ :=
          nextLine_append record layout more inL lFits
        rw [List.flatten_cons, ← List.append_assoc] at exceeds
        rw [read, ok_bind, List.length_cons, ← Nat.add_assoc, readDefinition,
          if_neg (long (nonempty l (List.mem_cons_self ..))), append, ok_bind]
        exact ih rest₂ open₂ record₂ (fun m member => nonempty m (List.mem_cons_of_mem _ member))
          (fun m member => inLine m (List.mem_cons_of_mem _ member)) exceeds
      · obtain ⟨c₁, read, long, outside⟩ :=
          nextLine_append_over record layout more inL (Nat.le_of_not_lt lFits)
        rw [read, ok_bind, List.length_cons, ← Nat.add_assoc, readDefinition, if_neg long, outside]
        rfl

/-! ## The end of a definition -/

/-- A blank line ends the loop. -/
theorem readDefinition_blankLine {c : Converter} {tail : List Byte}
    (layout : c.inp.rest = newline :: tail) (more : c.inp.eof = false) (fuel : Nat) :
    ∃ c', (c.nextLine >>= readDefinition (fuel + 1)) = .ok c' ∧ c'.blank = c.blank ∧
      c'.line.bytes = pad BIGLINE [newline] ∧ c'.inp.rest = tail ∧ c'.inp.eof = false ∧
      c'.out = c.out := by
  obtain ⟨c₁, read, line, rest, open_, blank, out⟩ :=
    @nextLine_spec c [] tail layout (List.not_mem_nil) (by decide) more
  have single : strlen c₁.line.bytes = 1 := by
    rw [strlen, cstr_line line newline_clean (by decide)]
    rfl
  refine ⟨c₁, ?_, blank, line, rest, open_, out⟩
  rw [read, ok_bind, readDefinition, if_pos single]

/-- So does an unfinished line of one character, and the end of the file has been met. -/
theorem readDefinition_character {c : Converter} {b : Byte} (layout : c.inp.rest = [b])
    (inLine : InLine b) (fuel : Nat) :
    ∃ c', (c.nextLine >>= readDefinition (fuel + 1)) = .ok c' ∧ c'.blank = c.blank ∧
      c'.inp.eof = true ∧ c'.out = c.out := by
  have clean : ∀ x ∈ [] ++ [b], x ≠ 0 := List.forall_mem_singleton.mpr inLine.2
  obtain ⟨c₁, read, line, -, met, blank, out⟩ := @nextLine_last c ([] ++ [b]) layout
    (List.cons_ne_nil _ _) (fun member => inLine.1 (List.mem_singleton.mp member).symm)
    (by rw [List.nil_append, List.length_singleton]; decide)
  have single : strlen c₁.line.bytes = 1 := strlen_line line clean (by decide)
  refine ⟨c₁, ?_, blank, met, out⟩
  rw [read, ok_bind, readDefinition, if_pos single]

/-- At the end of the file the loop chops an empty line. -/
theorem readDefinition_end {c : Converter} (ended : c.inp.rest = []) (fuel : Nat) :
    (c.nextLine >>= readDefinition (fuel + 1)) = .error .outOfBounds := by
  obtain ⟨c₁, read, empty⟩ := nextLine_end ended
  rw [read, ok_bind, readDefinition, if_neg (by rw [empty]; decide), appendLine,
    @Buffer.chop_empty _ c₁.line 0 empty]
  rfl

/-- An unfinished line that is appended is the last one, and there is no other to end the loop. -/
theorem nextLine_unfinished {c : Converter} {wordField acc m : List Byte}
    (record : Holds c.blank wordField acc) (layout : c.inp.rest = m) (present : m ≠ [])
    (inLine : ∀ b ∈ m, InLine b) :
    ∃ c₁, c.nextLine = .ok c₁ ∧ (m.length ≠ 1 → strlen c₁.line.bytes ≠ 1) ∧
      ∀ fuel, (c₁.appendLine >>= fun c₂ => c₂.nextLine >>= readDefinition (fuel + 1)) =
        .error .outOfBounds := by
  by_cases long : BIGLINE - 1 ≤ m.length
  · obtain ⟨c₁, text, b, read, line, blank, clean, fits, exceeds⟩ :=
      @nextLine_long c m [] (by rw [layout, List.append_nil]) inLine long
    refine ⟨c₁, read, fun _ => ?_, fun fuel => ?_⟩
    · rw [strlen_line line clean fits]
      exact fun one => absurd (exceeds.trans (Nat.le_of_eq (Nat.succ.inj one))) (by decide)
    · rw [appendLine_over (blank ▸ record) line clean fits]
      · rfl
      · rw [List.length_append]
        exact exceeds.trans (Nat.le_add_left ..)
  · have parts := List.dropLast_concat_getLast present
    have size : m.dropLast.length + 1 = m.length := by
      rw [List.length_dropLast, Nat.sub_add_cancel (List.length_pos_iff.mpr present)]
    have fits : m.dropLast.length + 1 < BIGLINE := by omega
    have clean : ∀ x ∈ m.dropLast ++ [m.getLast present], x ≠ 0 := by
      rw [parts]
      exact fun b member => (inLine b member).2
    obtain ⟨c₁, read, line, rest, -, blank, -⟩ := nextLine_last layout present
      (fun member => (inLine _ member).1 rfl) (by omega)
    rw [← parts] at line
    refine ⟨c₁, read, fun other => ?_, fun fuel => ?_⟩
    · rw [strlen_line line clean fits, size]
      exact other
    · by_cases room : (acc ++ m.dropLast).length < TEXT
      · obtain ⟨chopped, done, string⟩ := chop_line line clean fits
        obtain ⟨blank₂, stored, -⟩ := Holds.strcat (blank ▸ record)
          (fun b member => clean b (List.mem_append_left _ member)) room
        rw [appendLine, done, ok_bind, string, stored, ok_bind, ok_bind]
        exact @readDefinition_end { c₁ with line := chopped, blank := blank₂ } rest fuel
      · rw [appendLine_over (blank ▸ record) line clean fits (Nat.le_of_not_lt room)]
        rfl

/-- The loop ends in front of this: a blank line, or an unfinished line of one character. -/
def Stops (tail : List Byte) : Prop :=
  (∃ rest, tail = newline :: rest) ∨ ∃ b, InLine b ∧ tail = [b]

/-- The loop fails in front of this: the end of the file, or a longer unfinished line. -/
def Fails (tail : List Byte) : Prop :=
  tail.length ≠ 1 ∧ ∀ b ∈ tail, InLine b

theorem readDefinition_stops {c : Converter} (stops : Stops c.inp.rest)
    (more : c.inp.eof = false) (fuel : Nat) :
    ∃ c', (c.nextLine >>= readDefinition (fuel + 1)) = .ok c' ∧ c'.blank = c.blank := by
  rcases stops with ⟨rest, layout⟩ | ⟨b, inLine, layout⟩
  · obtain ⟨c', ran, blank, -⟩ := readDefinition_blankLine layout more fuel
    exact ⟨c', ran, blank⟩
  · obtain ⟨c', ran, blank, -⟩ := readDefinition_character layout inLine fuel
    exact ⟨c', ran, blank⟩

theorem readDefinition_fails {c : Converter} {wordField acc : List Byte}
    (record : Holds c.blank wordField acc) (fails : Fails c.inp.rest) (fuel : Nat) :
    (c.nextLine >>= readDefinition (fuel + 2)) = .error .outOfBounds := by
  by_cases ended : c.inp.rest = []
  · exact readDefinition_end ended (fuel + 1)
  · obtain ⟨c₁, read, long, appended⟩ := nextLine_unfinished record rfl ended fails.2
    rw [read, ok_bind, readDefinition, if_neg (long fails.1)]
    exact appended fuel

/-- The last steps of a round: the newline behind the definition, and the record. -/
def writeRecord (c : Converter) : Except Fault Converter := do
  let blank ← c.blank.store (WORD + strlen c.blank.text) [newline, 0]
  .ok { c with blank := blank,
               out := c.out ++ (blank.bytes.take WORD ++ (blank.bytes.drop WORD).take TEXT) }

/-- Copying the first line into the cleared text is appending it. -/
theorem convertDefinition_eq (c : Converter) (fuel : Nat) :
    ∃ blank₀ : Dictrec, Holds blank₀ (c.blank.bytes.take WORD) [] ∧
      c.convertDefinition fuel =
        (nextLine { c with blank := blank₀ } >>= appendLine >>= fun c₂ =>
          (c₂.nextLine >>= readDefinition fuel) >>= writeRecord) := by
  have total := c.blank.size_eq
  have wordSize : (c.blank.bytes.take WORD).length = WORD := by
    rw [List.length_take, total]
    decide
  obtain ⟨blank₀, clear, bytes₀⟩ := @Buffer.store_eq _ c.blank (c.blank.bytes.take WORD)
    (c.blank.bytes.drop WORD) [] (by rw [List.append_nil, List.take_append_drop])
    (List.replicate TEXT 0) (by rw [List.length_drop, total, List.length_replicate]; decide)
    WORD wordSize.symm
  have record : Holds blank₀ (c.blank.bytes.take WORD) [] :=
    ⟨by rw [bytes₀, List.append_nil, pad_nil], wordSize, fun b member => (by cases member),
      by decide⟩
  refine ⟨blank₀, record, ?_⟩
  rw [convertDefinition, clear, ok_bind]
  simp only [nextLine, bind_assoc]
  obtain ⟨cleared, store₁, -⟩ := clear_line c.line
  rw [store₁, ok_bind, ok_bind]
  cases c.inp.fgets cleared 0 BIGLINE with
  | error fault => rfl
  | ok read =>
      obtain ⟨returned, line, inp⟩ := read
      simp only [ok_bind, appendLine, record.strlen_text, List.length_nil, Nat.add_zero,
        bind_assoc]
      rfl

theorem writeRecord_spec {c : Converter} {wordField acc : List Byte}
    (record : Holds c.blank wordField acc) (fits : acc.length + 1 < TEXT) :
    ∃ c', c.writeRecord = .ok c' ∧ c'.out = c.out ++ (wordField ++ pad TEXT (acc ++ [newline])) ∧
      c'.line = c.line ∧ c'.inp = c.inp := by
  have endFits : (acc ++ [newline]).length < TEXT := by
    rw [List.length_append, List.length_singleton]
    exact fits
  obtain ⟨blank, stored, record'⟩ := record.strcat newline_clean endFits
  refine ⟨{ c with blank := blank, out := c.out ++
    (blank.bytes.take WORD ++ (blank.bytes.drop WORD).take TEXT) }, ?_, ?_, rfl, rfl⟩
  · rw [writeRecord]
    change (c.blank.store _ ([newline] ++ [0]) >>= _) = _
    rw [stored, ok_bind]
  · have textFull := length_pad (Nat.le_of_lt endFits)
    simp only
    rw [record'.bytes, List.take_left' record'.size, List.drop_left' record'.size,
      List.take_of_length_le (Nat.le_of_eq textFull)]

theorem writeRecord_over {c : Converter} {wordField acc : List Byte}
    (record : Holds c.blank wordField acc) (exceeds : TEXT ≤ acc.length + 1) :
    c.writeRecord = .error .outOfBounds := by
  have outside := @Holds.strcat_over _ _ _ [newline] record
    (by rw [List.length_append, List.length_singleton]; exact exceeds)
  rw [writeRecord]
  change (c.blank.store _ ([newline] ++ [0]) >>= _) = _
  rw [outside]
  rfl

/-- A round after the word, from behind the lines of the definition on. -/
theorem convertDefinition_lines {c : Converter} {first tail : List Byte}
    {others : List (List Byte)} (fuel : Nat)
    (layout : c.inp.rest = unlines (first :: others) ++ tail)
    (more : c.inp.eof = false) (nonempty : ∀ l ∈ others, l ≠ [])
    (inLine : ∀ l ∈ first :: others, ∀ b ∈ l, InLine b)
    (fits : (first :: others).flatten.length < TEXT) :
    ∃ c' : Converter, c.convertDefinition (fuel + others.length) =
        ((c'.nextLine >>= readDefinition fuel) >>= writeRecord) ∧
      Holds c'.blank (c.blank.bytes.take WORD) (first :: others).flatten ∧ c'.inp.rest = tail ∧
      c'.inp.eof = false ∧ c'.out = c.out := by
  obtain ⟨blank₀, record₀, round⟩ := c.convertDefinition_eq (fuel + others.length)
  rw [unlines_cons_append] at layout
  rw [List.flatten_cons] at fits ⊢
  have firstFits : ([] ++ first).length < TEXT := by
    rw [List.nil_append]
    rw [List.length_append] at fits
    omega
  obtain ⟨c₁, c₂, read, -, append, record₂, rest₂, open₂, out₂⟩ :=
    @nextLine_append { c with blank := blank₀ } _ _ _ _ record₀ layout more
      (inLine first (List.mem_cons_self ..)) firstFits
  rw [List.nil_append] at record₂
  obtain ⟨c₃, later, record₃, rest₃, open₃, out₃⟩ :=
    readDefinition_lines others fuel rest₂ open₂ record₂ nonempty
      (fun l member => inLine l (List.mem_cons_of_mem _ member)) fits
  refine ⟨c₃, ?_, record₃, rest₃, open₃, out₃.trans out₂⟩
  rw [round, read, ok_bind, append, ok_bind, later]

/-- One round after the word: the definition is read and the record written. -/
theorem convertDefinition_spec {c : Converter} {first tail : List Byte}
    {others : List (List Byte)} (fuel : Nat)
    (layout : c.inp.rest = unlines (first :: others) ++ newline :: tail)
    (more : c.inp.eof = false) (nonempty : ∀ l ∈ others, l ≠ [])
    (inLine : ∀ l ∈ first :: others, ∀ b ∈ l, InLine b)
    (fits : (first :: others).flatten.length + 1 < TEXT) :
    ∃ c', c.convertDefinition (fuel + 1 + others.length) = .ok c' ∧
      c'.out = c.out ++
        (c.blank.bytes.take WORD ++ pad TEXT ((first :: others).flatten ++ [newline])) ∧
      c'.line.bytes = pad BIGLINE [newline] ∧ c'.inp.rest = tail ∧ c'.inp.eof = false := by
  obtain ⟨c₁, round, record₁, rest₁, open₁, out₁⟩ :=
    convertDefinition_lines (fuel + 1) layout more nonempty inLine (Nat.lt_of_succ_lt fits)
  obtain ⟨c₂, read, blank₂, line₂, rest₂, open₂, out₂⟩ := readDefinition_blankLine rest₁ open₁ fuel
  obtain ⟨c', wrote, out, line, inp⟩ := writeRecord_spec (blank₂ ▸ record₁) fits
  refine ⟨c', ?_, ?_, line ▸ line₂, inp ▸ rest₂, inp ▸ open₂⟩
  · rw [round, read, ok_bind, wrote]
  · rw [out, out₂, out₁]

/-- The same when the file ends with an unfinished line of one character, which is not written. -/
theorem convertDefinition_character {c : Converter} {first : List Byte} {b : Byte}
    {others : List (List Byte)} (fuel : Nat)
    (layout : c.inp.rest = unlines (first :: others) ++ [b]) (inLast : InLine b)
    (more : c.inp.eof = false) (nonempty : ∀ l ∈ others, l ≠ [])
    (inLine : ∀ l ∈ first :: others, ∀ b ∈ l, InLine b)
    (fits : (first :: others).flatten.length + 1 < TEXT) :
    ∃ c', c.convertDefinition (fuel + 1 + others.length) = .ok c' ∧
      c'.out = c.out ++
        (c.blank.bytes.take WORD ++ pad TEXT ((first :: others).flatten ++ [newline])) ∧
      c'.inp.eof = true := by
  obtain ⟨c₁, round, record₁, rest₁, open₁, out₁⟩ :=
    convertDefinition_lines (fuel + 1) layout more nonempty inLine (Nat.lt_of_succ_lt fits)
  obtain ⟨c₂, read, blank₂, met₂, out₂⟩ := readDefinition_character rest₁ inLast fuel
  obtain ⟨c', wrote, out, -, inp⟩ := writeRecord_spec (blank₂ ▸ record₁) fits
  refine ⟨c', ?_, ?_, inp ▸ met₂⟩
  · rw [round, read, ok_bind, wrote]
  · rw [out, out₂, out₁]

/-- A round ends in a fault when nothing ends the loop over the definition, and when the
definition leaves no room for a newline and a terminator. -/
theorem convertDefinition_fault {c : Converter} {first tail : List Byte}
    {others : List (List Byte)} (fuel : Nat)
    (layout : c.inp.rest = unlines (first :: others) ++ tail)
    (more : c.inp.eof = false) (nonempty : ∀ l ∈ others, l ≠ [])
    (inLine : ∀ l ∈ first :: others, ∀ b ∈ l, InLine b)
    (bad : Fails tail ∨ Stops tail ∧ TEXT ≤ (first :: others).flatten.length + 1) :
    c.convertDefinition (fuel + 2 + others.length) = .error .outOfBounds := by
  by_cases fits : (first :: others).flatten.length < TEXT
  · obtain ⟨c₁, round, record₁, rest₁, open₁, -⟩ :=
      convertDefinition_lines (fuel + 2) layout more nonempty inLine fits
    rw [round]
    rcases bad with fails | ⟨stops, exceeds⟩
    · rw [readDefinition_fails record₁ (rest₁ ▸ fails) fuel]
      rfl
    · obtain ⟨c₂, read, blank₂⟩ := readDefinition_stops (rest₁ ▸ stops) open₁ (fuel + 1)
      rw [read, ok_bind, writeRecord_over (blank₂ ▸ record₁) exceeds]
  · obtain ⟨blank₀, record₀, round⟩ := c.convertDefinition_eq (fuel + 2 + others.length)
    rw [unlines_cons_append] at layout
    rw [List.flatten_cons] at fits
    have inFirst := inLine first (List.mem_cons_self ..)
    by_cases firstFits : ([] ++ first).length < TEXT
    · obtain ⟨c₁, c₂, read, -, append, record₂, rest₂, open₂, -⟩ :=
        @nextLine_append { c with blank := blank₀ } _ _ _ _ record₀ layout more inFirst firstFits
      rw [List.nil_append] at record₂
      rw [round, read, ok_bind, append, ok_bind,
        readDefinition_over others (fuel + 2) rest₂ open₂ record₂ nonempty
          (fun l member => inLine l (List.mem_cons_of_mem _ member)) (Nat.le_of_not_lt fits)]
      rfl
    · obtain ⟨c₁, read, -, exceeds⟩ :=
        @nextLine_append_over { c with blank := blank₀ } _ _ _ _ record₀ layout more inFirst
          (Nat.le_of_not_lt firstFits)
      rw [round, read, ok_bind, exceeds]
      rfl

/-- A definition of one unfinished line is never ended. -/
theorem convertDefinition_unfinished {c : Converter} {m : List Byte} (fuel : Nat)
    (layout : c.inp.rest = m) (present : m ≠ []) (inLine : ∀ b ∈ m, InLine b) :
    c.convertDefinition (fuel + 1) = .error .outOfBounds := by
  obtain ⟨blank₀, record₀, round⟩ := c.convertDefinition_eq (fuel + 1)
  obtain ⟨c₁, read, -, appended⟩ :=
    @nextLine_unfinished { c with blank := blank₀ } _ _ _ record₀ layout present inLine
  have loop := appended fuel
  rw [round, read, ok_bind, ← bind_assoc, loop]
  rfl

/-! ## The main loop -/

/-- The lines that a round reads as the definition. A word too long for the line buffer goes
on in the first of them. -/
def textLines (e : Entry) : List (List Byte) :=
  if e.word.length < BIGLINE - 1 then e.lines else e.word.drop (BIGLINE - 1) :: e.lines

/-- They leave room in the text for a newline and a terminator. -/
def TextFits (e : Entry) : Prop := (textLines e).flatten.length + 1 < TEXT

/-- What is then written for the entry. -/
def written (e : Entry) : List Byte :=
  pad WORD ((e.word ++ [newline]).take WORD) ++ pad TEXT ((textLines e).flatten ++ [newline])

theorem flatten_textLines (e : Entry) :
    (textLines e).flatten = e.word.drop (BIGLINE - 1) ++ e.definition := by
  rw [textLines]
  split
  · rename_i short
    rw [List.drop_eq_nil_of_le (Nat.le_of_lt short), List.nil_append, Entry.definition]
  · rw [List.flatten_cons, Entry.definition]

/-- What a word too long for the line buffer leaves of its line. -/
def wordRest (e : Entry) : List (List Byte) :=
  if e.word.length < BIGLINE - 1 then [] else [e.word.drop (BIGLINE - 1)]

theorem textLines_eq (e : Entry) : textLines e = wordRest e ++ e.lines := by
  rw [textLines, wordRest]
  split <;> rfl

theorem unlines_append (ls more : List (List Byte)) :
    unlines (ls ++ more) = unlines ls ++ unlines more := List.flatMap_append

/-- Only the first of the lines that are read behind the word may be empty. -/
theorem shape_of_wordRest {e : Entry} {ls : List (List Byte)} (inside : ls ⊆ e.lines)
    {first : List Byte} {others : List (List Byte)} (lines : wordRest e ++ ls = first :: others) :
    others.length ≤ ls.length ∧ (∀ l ∈ others, l ≠ []) ∧
      ∀ l ∈ first :: others, ∀ b ∈ l, InLine b := by
  rw [wordRest] at lines
  split at lines
  · rw [List.nil_append] at lines
    subst lines
    exact ⟨Nat.le_succ _, fun l member => e.line_ne l (inside (List.mem_cons_of_mem _ member)),
      fun l member => e.line_inLine l (inside member)⟩
  · obtain ⟨rfl, rfl⟩ := List.cons.inj lines
    refine ⟨Nat.le_refl _, fun l member => e.line_ne l (inside member), ?_⟩
    intro l member b inL
    rcases List.mem_cons.mp member with rfl | later
    · exact e.word_inLine b (List.mem_of_mem_drop inL)
    · exact e.line_inLine l (inside later) b inL

theorem textLines_cons (e : Entry) :
    ∃ first others, textLines e = first :: others ∧ others.length ≤ e.lines.length ∧
      (∀ l ∈ others, l ≠ []) ∧ ∀ l ∈ first :: others, ∀ b ∈ l, InLine b := by
  have present : textLines e ≠ [] := by
    rw [textLines_eq]
    exact List.append_ne_nil_of_right_ne_nil _ e.lines_ne
  obtain ⟨first, others, lines⟩ := List.exists_cons_of_ne_nil present
  exact ⟨first, others, lines, shape_of_wordRest (List.Subset.refl _) (textLines_eq e ▸ lines)⟩

/-- The word line is read as far as it fits the line buffer. -/
theorem fgets_word (line : Buffer BIGLINE) {s : Stream} {e : Entry} {tail : List Byte}
    (layout : s.rest = e.word ++ newline :: tail) (more : s.eof = false) :
    ∃ (line' : Buffer BIGLINE) (s' : Stream), s.fgets line 0 BIGLINE = .ok (true, line', s') ∧
      cstr line'.bytes = (e.word ++ [newline]).take (BIGLINE - 1) ∧
      s'.rest = unlines (wordRest e) ++ tail ∧ s'.eof = false := by
  by_cases short : e.word.length < BIGLINE - 1
  · have wordLine : e.word.length + 1 < BIGLINE := Nat.add_lt_of_lt_sub short
    obtain ⟨line', s', read, bytes, -, rest, open_⟩ :=
      Stream.fgets_line_at line layout e.newline_notMem_word wordLine more 0 (by omega)
    refine ⟨line', s', read, ?_, by rw [rest, wordRest, if_pos short]; rfl, open_⟩
    have whole : (e.word ++ [newline]).length ≤ BIGLINE - 1 := by
      rw [List.length_append, List.length_singleton]
      omega
    have terminated := @cstr_append_zero (e.word ++ [newline])
      (line.bytes.drop (e.word.length + 2)) e.word_clean
    rw [bytes, List.take_zero, List.nil_append, Nat.zero_add, List.take_of_length_le whole]
    simpa only [List.append_assoc, List.cons_append, List.nil_append] using terminated
  · have size : (e.word.take (BIGLINE - 1)).length + 1 = BIGLINE := by
      rw [List.length_take, Nat.min_eq_left (Nat.le_of_not_lt short)]
      rfl
    have present : e.word.take (BIGLINE - 1) ≠ [] := by
      intro none
      rw [none] at size
      cases size
    have inWord : ∀ b ∈ e.word.take (BIGLINE - 1), InLine b :=
      fun b member => e.word_inLine b (List.mem_of_mem_take member)
    have layout' : s.rest = e.word.take (BIGLINE - 1) ++
        (e.word.drop (BIGLINE - 1) ++ newline :: tail) := by
      rw [layout, ← List.append_assoc, List.take_append_drop]
    have array : line.bytes = [] ++ line.bytes ++ [] := by
      rw [List.nil_append, List.append_nil]
    obtain ⟨line', s', read, bytes, rest, open_⟩ :=
      Stream.fgets_full layout' (fun member => (inWord _ member).1 rfl) present size array
        line.size_eq 0 rfl
    refine ⟨line', s', read, ?_, ?_, open_.trans more⟩
    · rw [bytes, List.nil_append, List.append_nil,
        List.take_append_of_le_length (Nat.le_of_not_lt short)]
      exact cstr_append_zero (fun b member => (inWord b member).2)
    · rw [rest, wordRest, if_neg short, unlines_cons_append]
      rfl

/-- The word field holds the start of the string that was copied into the record. -/
theorem store_word (blank : Dictrec) {text : List Byte} (short : text.length < BIGLINE) :
    ∃ blank₀ blank₁ : Dictrec, blank.store 0 (List.replicate WORD 0) = .ok blank₀ ∧
      blank₀.store 0 (text ++ [0]) = .ok blank₁ ∧
      blank₁.bytes.take WORD = pad WORD (text.take WORD) := by
  have total := blank.size_eq
  obtain ⟨blank₀, clear, bytes₀⟩ := @Buffer.store_eq _ blank [] (blank.bytes.take WORD)
    (blank.bytes.drop WORD) (by rw [List.nil_append, List.take_append_drop])
    (List.replicate WORD 0) (by rw [List.length_replicate, List.length_take, total]; decide) 0 rfl
  refine ⟨blank₀, ?_⟩
  by_cases fits : text.length < WORD
  · have cleared : blank₀.bytes = [] ++ pad WORD [] ++ blank.bytes.drop WORD := by
      rw [bytes₀, pad_nil]
    obtain ⟨blank₁, copied, bytes₁⟩ := Buffer.store_pad cleared fits 0 rfl
    refine ⟨blank₁, clear, copied, ?_⟩
    rw [bytes₁, List.nil_append, List.nil_append, List.take_of_length_le (Nat.le_of_lt fits),
      List.take_left' (length_pad (Nat.le_of_lt fits))]
  · have layout : blank₀.bytes = [] ++ blank₀.bytes.take (text.length + 1) ++
        blank₀.bytes.drop (text.length + 1) := by
      rw [List.nil_append, List.take_append_drop]
    have room : text.length + 1 ≤ WORD + TEXT := short
    obtain ⟨blank₁, copied, bytes₁⟩ := Buffer.store_eq layout (text ++ [0])
      (by rw [List.length_take, blank₀.size_eq, List.length_append, List.length_singleton]; omega)
      0 rfl
    have full : (text.take WORD).length = WORD := by
      rw [List.length_take, Nat.min_eq_left (Nat.le_of_not_lt fits)]
    refine ⟨blank₁, clear, copied, ?_⟩
    rw [bytes₁, List.nil_append, List.append_assoc,
      List.take_append_of_le_length (Nat.le_of_not_lt fits), pad, full, Nat.sub_self,
      List.replicate_zero, List.append_nil]

/-- A round reads the word and goes on with the definition. -/
theorem convertLoop_word {c : Converter} {e : Entry} {tail : List Byte}
    (layout : c.inp.rest = e.word ++ newline :: tail) (more : c.inp.eof = false) (fuel : Nat) :
    ∃ c₁ : Converter, convertLoop (fuel + 1) c = (c₁.convertDefinition fuel >>= convertLoop fuel) ∧
      c₁.blank.bytes.take WORD = pad WORD ((e.word ++ [newline]).take WORD) ∧
      c₁.inp.rest = unlines (wordRest e) ++ tail ∧ c₁.inp.eof = false ∧ c₁.out = c.out := by
  obtain ⟨line, inp, read, string, rest, open_⟩ := fgets_word c.line layout more
  have size : ((e.word ++ [newline]).take (BIGLINE - 1)).length < BIGLINE := by
    rw [List.length_take]
    exact Nat.lt_of_le_of_lt (Nat.min_le_left ..) (by decide)
  obtain ⟨blank₀, blank₁, clear, copied, field⟩ := store_word c.blank size
  have long : strlen line.bytes ≠ 1 := by
    have positive := e.length_word_pos
    have room : 2 ≤ BIGLINE - 1 := by decide
    rw [strlen, string, List.length_take, List.length_append, List.length_singleton]
    omega
  refine ⟨{ c with inp := inp, line := line, blank := blank₁ }, ?_, ?_, rest, open_, rfl⟩
  · rw [convertLoop, if_neg (by rw [more]; decide), clear, ok_bind, read, ok_bind]
    simp only [if_neg long, string]
    rw [copied, ok_bind]
  · rw [field, List.take_take, Nat.min_eq_left (by decide)]

/-- **One round of the main loop** consumes one entry and writes its record. -/
theorem convertLoop_entry {c : Converter} {e : Entry} {tail : List Byte} {fuel : Nat}
    (fits : TextFits e) (layout : c.inp.rest = e.source ++ tail) (more : c.inp.eof = false)
    (enough : e.lines.length < fuel) :
    ∃ c', convertLoop (fuel + 1) c = convertLoop fuel c' ∧ c'.out = c.out ++ written e ∧
      c'.line.bytes = pad BIGLINE [newline] ∧ c'.inp.rest = tail ∧ c'.inp.eof = false := by
  obtain ⟨first, others, lines, fewer, nonempty, inLine⟩ := textLines_cons e
  have layout' : c.inp.rest = e.word ++ newline :: (unlines e.lines ++ newline :: tail) := by
    rw [layout, Entry.source]
    simp only [List.append_assoc, List.cons_append, List.nil_append]
  obtain ⟨c₁, round, field, rest₁, open₁, out₁⟩ := convertLoop_word layout' more fuel
  rw [TextFits, lines] at fits
  rw [← List.append_assoc, ← unlines_append, ← textLines_eq, lines] at rest₁
  obtain ⟨k, rfl⟩ : ∃ k, fuel = k + 1 + others.length := ⟨fuel - others.length - 1, by omega⟩
  obtain ⟨c', converted, out, line', rest', open'⟩ :=
    convertDefinition_spec k rest₁ open₁ nonempty inLine fits
  refine ⟨c', ?_, ?_, line', rest', open'⟩
  · rw [round, converted, ok_bind]
  · rw [out, out₁, field, written, lines]

/-- A round fails when nothing ends the loop over the definition of the entry, and when this is too
long. -/
theorem convertLoop_entry_fault {c : Converter} {e : Entry} {tail : List Byte} {fuel : Nat}
    (layout : c.inp.rest = unlines (e.word :: e.lines) ++ tail) (more : c.inp.eof = false)
    (bad : Fails tail ∨ Stops tail ∧ ¬ TextFits e) (enough : e.lines.length + 1 < fuel) :
    convertLoop (fuel + 1) c = .error .outOfBounds := by
  obtain ⟨first, others, lines, fewer, nonempty, inLine⟩ := textLines_cons e
  rw [unlines_cons_append] at layout
  obtain ⟨c₁, round, -, rest₁, open₁, -⟩ := convertLoop_word layout more fuel
  rw [TextFits, lines, Nat.not_lt] at bad
  rw [← List.append_assoc, ← unlines_append, ← textLines_eq, lines] at rest₁
  obtain ⟨k, rfl⟩ : ∃ k, fuel = k + 2 + others.length := ⟨fuel - others.length - 2, by omega⟩
  rw [round, convertDefinition_fault k rest₁ open₁ nonempty inLine bad]
  rfl

/-- At the end of the file the line still holds the blank line before it, and the loop
ends. -/
theorem convertLoop_end {c : Converter} (ended : c.inp.rest = []) (more : c.inp.eof = false)
    (blankLine : c.line.bytes = pad BIGLINE [newline]) (fuel : Nat) :
    ∃ c', convertLoop (fuel + 1) c = .ok c' ∧ c'.out = c.out := by
  have total := c.blank.size_eq
  obtain ⟨blank₀, clear, -⟩ := @Buffer.store_eq _ c.blank [] (c.blank.bytes.take WORD)
    (c.blank.bytes.drop WORD) (by rw [List.nil_append, List.take_append_drop])
    (List.replicate WORD 0) (by rw [List.length_replicate, List.length_take, total]; decide) 0 rfl
  have single : strlen c.line.bytes = 1 := by
    rw [strlen, cstr_line blankLine newline_clean (by decide)]
    rfl
  refine ⟨{ c with inp := { c.inp with eof := true }, blank := blank₀ }, ?_, rfl⟩
  rw [convertLoop, if_neg (by rw [more]; decide), clear, ok_bind, Stream.fgets_at_end ended,
    ok_bind]
  simp only [if_pos single]

theorem length_lines_le (e : Entry) : e.lines.length + 2 < e.source.length := by
  have each : ∀ ls : List (List Byte), ls.length ≤ (unlines ls).length := by
    intro ls
    induction ls with
    | nil => exact Nat.zero_le _
    | cons l ls ih =>
        simp only [unlines, List.flatMap_cons, List.length_append, List.length_cons,
          List.length_nil] at ih ⊢
        omega
  have lines := each e.lines
  have word := e.length_word_pos
  simp only [Entry.source, List.length_append, List.length_cons, List.length_nil]
  omega

/-- **The main loop over entries** writes their records in order and goes on behind them. -/
theorem convertLoop_front {tail : List Byte} (front : List Entry) :
    ∀ {c : Converter} {fuel : Nat}, (∀ e ∈ front, TextFits e) →
      c.inp.rest = sourceFile front ++ tail → c.inp.eof = false →
      (sourceFile front).length < fuel →
      ∃ c' fuel', convertLoop fuel c = convertLoop fuel' c' ∧
        fuel ≤ fuel' + (sourceFile front).length ∧ c'.out = c.out ++ front.flatMap written ∧
        (front ≠ [] ∨ c.line.bytes = pad BIGLINE [newline] →
          c'.line.bytes = pad BIGLINE [newline]) ∧ c'.inp.rest = tail ∧ c'.inp.eof = false := by
  induction front with
  | nil =>
      intro c fuel _ layout more _
      exact ⟨c, fuel, rfl, Nat.le_refl _, (List.append_nil _).symm,
        fun blank => blank.resolve_left (absurd rfl), layout, more⟩
  | cons e front ih =>
      intro c fuel fits layout more enough
      rw [sourceFile, List.flatMap_cons, List.length_append, ← sourceFile] at enough
      rw [sourceFile, List.flatMap_cons, ← sourceFile, List.append_assoc] at layout
      have short := length_lines_le e
      obtain ⟨fuel, rfl⟩ := Nat.exists_eq_add_one_of_ne_zero
        (Nat.ne_of_gt (Nat.lt_of_le_of_lt (Nat.zero_le _) enough))
      have enough₁ : e.lines.length < fuel := by omega
      have enough₂ : (sourceFile front).length < fuel := by omega
      obtain ⟨c₁, round, out₁, line₁, rest₁, open₁⟩ :=
        convertLoop_entry (fits e (List.mem_cons_self ..)) layout more enough₁
      obtain ⟨c', fuel', later, left, out, line, rest, open_⟩ :=
        ih (fun f member => fits f (List.mem_cons_of_mem _ member)) rest₁ open₁ enough₂
      refine ⟨c', fuel', round.trans later, ?_, ?_, fun _ => ?_, rest, open_⟩
      · rw [sourceFile, List.flatMap_cons, List.length_append, ← sourceFile]
        omega
      · rw [out, out₁, List.flatMap_cons, List.append_assoc]
      · exact line (.inr line₁)

/-- **`convert` terminates** on a source whose definitions leave room in the text. -/
theorem convert_written (uninitialised : Buffer BIGLINE) {entries : List Entry}
    (nonempty : entries ≠ []) (fits : ∀ e ∈ entries, TextFits e) :
    Returns (convert uninitialised (sourceFile entries)) (entries.flatMap written) := by
  refine ⟨(sourceFile entries).length + 1, fun fuel enough => ?_⟩
  obtain ⟨c₁, fuel', ran, left, out₁, line₁, rest₁, open₁⟩ := @convertLoop_front [] entries
    ⟨.fopen (sourceFile entries), uninitialised, .ofString _ [], []⟩ fuel fits
    ((Stream.rest_fopen _).trans (List.append_nil _).symm) rfl enough
  obtain ⟨fuel', rfl⟩ : ∃ k, fuel' = k + 1 := ⟨fuel' - 1, by omega⟩
  obtain ⟨c', ended, out⟩ := convertLoop_end rest₁ open₁ (line₁ (.inl nonempty)) fuel'
  rw [convert, ran, ended, ok_bind, out, out₁, List.nil_append]

/-- When the word fits its field too, what is written is the record. -/
theorem written_of_fits {e : Entry} (fits : e.Fits) : TextFits e ∧ written e = e.record := by
  have wordShort := fits.word_le
  have definitionShort := fits.definition_le
  have inBuffer : e.word.length ≤ BIGLINE - 1 := Nat.le_trans wordShort (by decide)
  have whole : (e.word ++ [newline]).length ≤ WORD := by
    rw [List.length_append, List.length_singleton]
    exact Nat.le_trans (Nat.succ_le_succ wordShort) (by decide)
  have text : (textLines e).flatten = e.definition := by
    rw [flatten_textLines, List.drop_eq_nil_of_le inBuffer, List.nil_append]
  constructor
  · rw [TextFits, text]
    exact Nat.lt_of_le_of_lt (Nat.succ_le_succ definitionShort) (by decide)
  · rw [written, text, List.take_of_length_le whole, Entry.record]

/-- **`convert` writes exactly the records of the entries.** -/
theorem convert_sourceFile (uninitialised : Buffer BIGLINE) {entries : List Entry}
    (nonempty : entries ≠ []) (fits : ∀ e ∈ entries, e.Fits) :
    Returns (convert uninitialised (sourceFile entries)) (recordFile entries) := by
  have same : entries.map written = entries.map Entry.record :=
    List.map_congr_left (fun e member => (written_of_fits (fits e member)).2)
  rw [recordFile, List.flatMap_def, ← same, ← List.flatMap_def]
  exact convert_written uninitialised nonempty
    (fun e member => (written_of_fits (fits e member)).1)

end Converter

end LinuxExercises.Dictionary
