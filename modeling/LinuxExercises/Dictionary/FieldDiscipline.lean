import LinuxExercises.Dictionary.Convert

/-!
# What `convert` does with its fields and at the end of its file

`convert` copies lines of any length into the record with `strcpy` and `strcat`, and its loop
over a definition ends only at a line of one character. A word that is too long runs into the
text, which is cleared behind it, so the word field holds the start of the word line. A
definition that is too long leaves the record, and without a blank line behind the last entry
the loop chops an empty line at the end of the file. It does not come to this when the last line
of the file is a single character without a newline: the loop takes this for a blank line.

* On a source in the documented form the records hold the cut fields exactly when the source
  has an entry and no definition is longer than 478 characters (`convert_cutRecords_iff`).
* One record for each entry is written exactly when no text is too long and a blank line follows
  the last entry, or its last line is such a character behind other text
  (`convert_oneRecordEach_iff`).
-/

set_option autoImplicit false

namespace LinuxExercises.Dictionary.Converter

open Foundations

/-! ## How a source ends -/

/-- How a source ends: with a blank line behind its last entry, with the end of the last line, or
in front of this. -/
inductive Ending where
  | blankLine
  | lineEnd
  | unfinished
deriving DecidableEq

/-- A source with this ending. -/
def sourceEnding (ending : Ending) (entries : List Entry) : List Byte :=
  match ending with
  | .blankLine => sourceFile entries
  | .lineEnd => (sourceFile entries).dropLast
  | .unfinished => (sourceFile entries).dropLast.dropLast

/-- The last entry in such a source. -/
def Ending.source (ending : Ending) (e : Entry) : List Byte :=
  match ending with
  | .blankLine => e.source
  | .lineEnd => unlines (e.word :: e.lines)
  | .unfinished => unlines (e.word :: e.lines.dropLast) ++ e.lines.getLast e.lines_ne

/-- The last entry ends in a way that ends the loop over its definition, and leaves room in the
text. An unfinished character is not part of the text. -/
def Ending.Suits (ending : Ending) (e : Entry) : Prop :=
  match ending with
  | .blankLine => e.word.length - (BIGLINE - 1) + e.definition.length ≤ 478
  | .lineEnd => False
  | .unfinished =>
    (e.lines.getLast e.lines_ne).length = 1 ∧
      (1 < e.lines.length ∨ BIGLINE - 1 ≤ e.word.length) ∧
        e.word.length - (BIGLINE - 1) + e.definition.length ≤ 479

/-- The lines that are read as the definition in front of the unfinished one. -/
def finishedLines (e : Entry) : List (List Byte) := wordRest e ++ e.lines.dropLast

/-- What is written for the last entry. -/
def Ending.written (ending : Ending) (e : Entry) : List Byte :=
  match ending with
  | .blankLine | .lineEnd => Converter.written e
  | .unfinished =>
    pad WORD ((e.word ++ [Foundations.newline]).take WORD) ++
      pad TEXT ((finishedLines e).flatten ++ [Foundations.newline])

theorem source_eq (e : Entry) : e.source = unlines (e.word :: e.lines) ++ [newline] := by
  simp only [Entry.source, unlines, List.flatMap_cons, List.append_assoc, List.cons_append,
    List.nil_append]

theorem unlines_eq_finished (e : Entry) :
    unlines (e.word :: e.lines) =
      unlines (e.word :: e.lines.dropLast) ++ e.lines.getLast e.lines_ne ++ [newline] := by
  have parts := List.dropLast_concat_getLast e.lines_ne
  calc unlines (e.word :: e.lines)
      = unlines (e.word :: (e.lines.dropLast ++ [e.lines.getLast e.lines_ne])) := by rw [parts]
    _ = _ := by
      rw [← List.cons_append, unlines_append, List.append_assoc]
      simp only [unlines, List.flatMap_cons, List.flatMap_nil, List.append_nil]

theorem sourceEnding_concat (ending : Ending) (front : List Entry) (last : Entry) :
    sourceEnding ending (front ++ [last]) = sourceFile front ++ ending.source last := by
  have whole : sourceFile (front ++ [last]) = sourceFile front ++ last.source := by
    rw [sourceFile, List.flatMap_append, List.flatMap_singleton, ← sourceFile]
  cases ending with
  | blankLine => exact whole
  | lineEnd =>
      rw [sourceEnding, whole, source_eq, ← List.append_assoc, List.dropLast_concat]
      rfl
  | unfinished =>
      rw [sourceEnding, whole, source_eq, ← List.append_assoc, List.dropLast_concat,
        unlines_eq_finished, ← List.append_assoc, List.dropLast_concat]
      rfl

theorem textFits_iff (e : Entry) :
    TextFits e ↔ e.word.length - (BIGLINE - 1) + e.definition.length ≤ 478 := by
  rw [TextFits, flatten_textLines, List.length_append, List.length_drop]
  constructor
  · intro fits
    exact Nat.le_of_succ_le_succ (Nat.le_of_lt_succ fits)
  · intro fits
    exact Nat.lt_succ_of_le (Nat.succ_le_succ fits)

/-- What stands in front of the unfinished line of one character has this length. -/
theorem length_finishedLines {e : Entry} (single : (e.lines.getLast e.lines_ne).length = 1) :
    (finishedLines e).flatten.length + 1 =
      e.word.length - (BIGLINE - 1) + e.definition.length := by
  have parts := congrArg (fun ls => (List.flatten ls).length)
    (List.dropLast_concat_getLast e.lines_ne)
  simp only [List.flatten_append, List.flatten_singleton, List.length_append, single] at parts
  have rest : (wordRest e).flatten.length = e.word.length - (BIGLINE - 1) := by
    rw [wordRest]
    split
    next short => rw [List.flatten_nil, List.length_nil, Nat.sub_eq_zero_of_le (Nat.le_of_lt short)]
    next => rw [List.flatten_singleton, List.length_drop]
  rw [finishedLines, List.flatten_append, List.length_append, rest, Entry.definition, ← parts]
  omega

theorem finishedLines_ne_iff (e : Entry) :
    finishedLines e ≠ [] ↔ 1 < e.lines.length ∨ BIGLINE - 1 ≤ e.word.length := by
  have present := List.length_pos_iff.mpr e.lines_ne
  rw [finishedLines, ← List.length_pos_iff, List.length_append, List.length_dropLast, wordRest]
  split
  next short =>
    rw [List.length_nil]
    omega
  next long =>
    rw [List.length_singleton]
    omega

theorem suits_unfinished_iff (e : Entry) :
    Ending.unfinished.Suits e ↔ (e.lines.getLast e.lines_ne).length = 1 ∧ finishedLines e ≠ [] ∧
      (finishedLines e).flatten.length + 1 < TEXT := by
  rw [Ending.Suits, finishedLines_ne_iff]
  refine and_congr_right fun single => and_congr_right fun _ => ?_
  rw [length_finishedLines single]
  exact Nat.lt_succ_iff.symm

/-! ## The main loop up to the last entry -/

/-- An entry in front of the last is too long. -/
theorem convertLoop_front_fault {tail : List Byte} (front : List Entry) :
    ∀ {c : Converter} {fuel : Nat}, (∃ e ∈ front, ¬ TextFits e) →
      c.inp.rest = sourceFile front ++ tail → c.inp.eof = false →
      (sourceFile front).length < fuel → convertLoop fuel c = .error .outOfBounds := by
  induction front with
  | nil =>
      intro c fuel long
      obtain ⟨e, member, -⟩ := long
      cases member
  | cons e front ih =>
      intro c fuel long layout more enough
      rw [sourceFile, List.flatMap_cons, List.length_append, ← sourceFile] at enough
      rw [sourceFile, List.flatMap_cons, ← sourceFile, List.append_assoc] at layout
      have short := length_lines_le e
      obtain ⟨fuel, rfl⟩ := Nat.exists_eq_add_one_of_ne_zero
        (Nat.ne_of_gt (Nat.lt_of_le_of_lt (Nat.zero_le _) enough))
      by_cases fits : TextFits e
      · obtain ⟨c₁, round, -, -, rest₁, open₁⟩ :=
          convertLoop_entry fits layout more (show e.lines.length < fuel by omega)
        obtain ⟨f, member, exceeds⟩ := long
        have later : f ∈ front := (List.mem_cons.mp member).resolve_left fun same =>
          exceeds (same ▸ fits)
        rw [round]
        exact ih ⟨f, later, exceeds⟩ rest₁ open₁ (by omega)
      · rw [source_eq, List.append_assoc] at layout
        exact convertLoop_entry_fault layout more (.inr ⟨.inl ⟨_, rfl⟩, fits⟩) (by omega)

/-! ## The last entry -/

/-- A round with an unfinished last entry. -/
theorem convertLoop_unfinished {c : Converter} {e : Entry} {fuel : Nat}
    (suits : Ending.unfinished.Suits e) (layout : c.inp.rest = Ending.unfinished.source e)
    (more : c.inp.eof = false) (enough : e.lines.length + 1 < fuel) :
    ∃ c', convertLoop (fuel + 1) c = .ok c' ∧ c'.out = c.out ++ Ending.unfinished.written e := by
  obtain ⟨single, something, fits⟩ := (suits_unfinished_iff e).mp suits
  obtain ⟨first, others, lines⟩ := List.exists_cons_of_ne_nil something
  obtain ⟨fewer, nonempty, inLine⟩ := shape_of_wordRest (List.dropLast_subset _) lines
  obtain ⟨b, last⟩ := List.length_eq_one_iff.mp single
  have inLast : InLine b := e.line_inLine _ (List.getLast_mem e.lines_ne) b (by rw [last]; simp)
  rw [Ending.source, unlines_cons_append] at layout
  obtain ⟨c₁, round, field, rest₁, open₁, out₁⟩ := convertLoop_word layout more fuel
  rw [← List.append_assoc, ← unlines_append, ← finishedLines, lines, last] at rest₁
  rw [lines] at fits
  rw [List.length_dropLast] at fewer
  obtain ⟨k, rfl⟩ : ∃ k, fuel = k + 1 + others.length := ⟨fuel - others.length - 1, by omega⟩
  obtain ⟨c', converted, out, met⟩ :=
    convertDefinition_character k rest₁ inLast open₁ nonempty inLine fits
  refine ⟨c', ?_, ?_⟩
  · rw [round, converted, ok_bind, Nat.add_right_comm, convertLoop, if_pos met]
  · rw [out, out₁, field, Ending.written, lines]

theorem convertLoop_unfinished_fault {c : Converter} {e : Entry} {fuel : Nat}
    (bad : ¬ Ending.unfinished.Suits e) (layout : c.inp.rest = Ending.unfinished.source e)
    (more : c.inp.eof = false) (enough : e.lines.length + 1 < fuel) :
    convertLoop (fuel + 1) c = .error .outOfBounds := by
  rw [suits_unfinished_iff] at bad
  have member := List.getLast_mem e.lines_ne
  have inLast := e.line_inLine _ member
  rw [Ending.source, unlines_cons_append] at layout
  obtain ⟨c₁, round, -, rest₁, open₁, -⟩ := convertLoop_word layout more fuel
  rw [← List.append_assoc, ← unlines_append, ← finishedLines] at rest₁
  cases lines : finishedLines e with
  | nil =>
      rw [lines] at rest₁
      obtain ⟨k, rfl⟩ : ∃ k, fuel = k + 1 := ⟨fuel - 1, by omega⟩
      rw [round, convertDefinition_unfinished k rest₁ (e.line_ne _ member) inLast]
      rfl
  | cons first others =>
      obtain ⟨fewer, nonempty, inLine⟩ := shape_of_wordRest (List.dropLast_subset _) lines
      rw [lines] at rest₁ bad
      rw [List.length_dropLast] at fewer
      obtain ⟨k, rfl⟩ : ∃ k, fuel = k + 2 + others.length := ⟨fuel - others.length - 2, by omega⟩
      rw [round, convertDefinition_fault k rest₁ open₁ nonempty inLine ?_]
      · rfl
      by_cases single : (e.lines.getLast e.lines_ne).length = 1
      · obtain ⟨b, last⟩ := List.length_eq_one_iff.mp single
        refine .inr ⟨.inr ⟨b, inLast b (by rw [last]; simp), last⟩, Nat.le_of_not_lt fun fits => ?_⟩
        exact bad ⟨single, List.cons_ne_nil _ _, fits⟩
      · exact .inl ⟨single, inLast⟩

/-- The last round, and the test behind it. -/
theorem convertLoop_last {c : Converter} {ending : Ending} {e : Entry} {fuel : Nat}
    (suits : ending.Suits e) (layout : c.inp.rest = ending.source e) (more : c.inp.eof = false)
    (enough : e.source.length < fuel) :
    ∃ c', convertLoop fuel c = .ok c' ∧ c'.out = c.out ++ ending.written e := by
  have short := length_lines_le e
  obtain ⟨fuel, rfl⟩ : ∃ k, fuel = k + 2 := ⟨fuel - 2, by omega⟩
  cases ending with
  | blankLine =>
      obtain ⟨c₁, round, out₁, line₁, rest₁, open₁⟩ := @convertLoop_entry c e [] (fuel + 1)
        ((textFits_iff e).mpr suits) (by rw [layout, List.append_nil]; rfl) more (by omega)
      obtain ⟨c', ended, out⟩ := convertLoop_end rest₁ open₁ line₁ fuel
      exact ⟨c', round.trans ended, out.trans out₁⟩
  | lineEnd => exact suits.elim
  | unfinished => exact convertLoop_unfinished suits layout more (by omega)

theorem convertLoop_last_fault {c : Converter} {ending : Ending} {e : Entry} {fuel : Nat}
    (bad : ¬ ending.Suits e) (layout : c.inp.rest = ending.source e) (more : c.inp.eof = false)
    (enough : e.source.length < fuel) : convertLoop fuel c = .error .outOfBounds := by
  have short := length_lines_le e
  obtain ⟨fuel, rfl⟩ : ∃ k, fuel = k + 1 := ⟨fuel - 1, by omega⟩
  cases ending with
  | blankLine =>
      rw [Ending.source, source_eq] at layout
      exact convertLoop_entry_fault layout more
        (.inr ⟨.inl ⟨_, rfl⟩, fun fits => bad ((textFits_iff e).mp fits)⟩) (by omega)
  | lineEnd =>
      refine @convertLoop_entry_fault c e [] fuel (by rw [layout, List.append_nil]; rfl) more
        (.inl ⟨by simp, by simp⟩) (by omega)
  | unfinished => exact convertLoop_unfinished_fault bad layout more (by omega)

/-! ## Whole sources -/

theorem length_sourceEnding (front : List Entry) (last : Entry) :
    (sourceFile (front ++ [last])).length = (sourceFile front).length + last.source.length := by
  rw [sourceFile, List.flatMap_append, List.flatMap_singleton, List.length_append, ← sourceFile]

/-- What `convert` writes when it ends. -/
theorem convert_returns (uninitialised : Buffer BIGLINE) {ending : Ending} {front : List Entry}
    {last : Entry} (fits : ∀ e ∈ front, TextFits e) (suits : ending.Suits last) :
    Returns (convert uninitialised (sourceEnding ending (front ++ [last])))
      (front.flatMap written ++ ending.written last) := by
  refine ⟨(sourceFile (front ++ [last])).length + 1, fun fuel enough => ?_⟩
  rw [length_sourceEnding] at enough
  obtain ⟨c₁, fuel', ran, left, out₁, -, rest₁, open₁⟩ :=
    @convertLoop_front (ending.source last) front
      ⟨.fopen (sourceEnding ending (front ++ [last])), uninitialised, .ofString _ [], []⟩ fuel fits
      ((Stream.rest_fopen _).trans (sourceEnding_concat ending front last)) rfl (by omega)
  obtain ⟨c', ended, out⟩ := convertLoop_last suits rest₁ open₁ (show _ < fuel' by omega)
  rw [convert, ran, ended, ok_bind, out, out₁, List.nil_append]

/-- And when it does not. -/
theorem convert_fault (uninitialised : Buffer BIGLINE) {ending : Ending} {front : List Entry}
    {last : Entry} (bad : (∃ e ∈ front, ¬ TextFits e) ∨ ¬ ending.Suits last) (value : List Byte) :
    ¬ Returns (convert uninitialised (sourceEnding ending (front ++ [last]))) value := by
  rintro ⟨bound, returned⟩
  have enough := Nat.le_max_right bound ((sourceFile (front ++ [last])).length + 1)
  have here := returned _ (Nat.le_max_left bound ((sourceFile (front ++ [last])).length + 1))
  rw [length_sourceEnding] at enough here
  let c : Converter :=
    ⟨.fopen (sourceEnding ending (front ++ [last])), uninitialised, .ofString _ [], []⟩
  have layout : c.inp.rest = sourceFile front ++ ending.source last :=
    (Stream.rest_fopen _).trans (sourceEnding_concat ending front last)
  have fails : convertLoop (max bound ((sourceFile front).length + last.source.length + 1)) c =
      .error .outOfBounds := by
    by_cases long : ∃ e ∈ front, ¬ TextFits e
    · exact convertLoop_front_fault front long layout rfl (by omega)
    · have enough₁ : (sourceFile front).length <
          max bound ((sourceFile front).length + last.source.length + 1) := by omega
      obtain ⟨c₁, fuel', ran, left, -, -, rest₁, open₁⟩ := convertLoop_front front
        (fun e member => by_contra fun exceeds => long ⟨e, member, exceeds⟩) layout rfl enough₁
      rw [ran]
      exact convertLoop_last_fault (bad.resolve_left long) rest₁ open₁ (by omega)
  rw [convert, fails] at here
  cases here

/-- With a blank line behind the last entry, a definition that is too long is all that can go
wrong. -/
theorem convert_fault_of_long (uninitialised : Buffer BIGLINE) {entries : List Entry}
    (long : ∃ e ∈ entries, ¬ TextFits e) (value : List Byte) :
    ¬ Returns (convert uninitialised (sourceFile entries)) value := by
  obtain ⟨e, member, exceeds⟩ := long
  have parts := List.dropLast_concat_getLast (List.ne_nil_of_mem member)
  rw [← parts] at member ⊢
  refine @convert_fault uninitialised .blankLine _ _ ?_ value
  rcases List.mem_append.mp member with front | last
  · exact .inl ⟨e, front, exceeds⟩
  · rw [List.mem_singleton.mp last, textFits_iff] at exceeds
    exact .inr exceeds

/-! ## The fields -/

/-- Every line of the entry is shorter than `BIGLINE-1`. -/
def ShortLines (e : Entry) : Prop := ∀ l ∈ e.word :: e.lines, l.length < BIGLINE - 1

instance (e : Entry) : Decidable (ShortLines e) :=
  inferInstanceAs (Decidable (∀ l ∈ e.word :: e.lines, l.length < BIGLINE - 1))

/-- The record of an entry: each field cut at its size and padded with NULs. -/
def cutRecord (e : Entry) : List Byte :=
  pad WORD ((e.word ++ [newline]).take WORD) ++ pad TEXT ((e.definition ++ [newline]).take TEXT)

theorem textFits_iff_of_short {e : Entry} (short : ShortLines e) :
    TextFits e ↔ e.definition.length ≤ 478 := by
  have word := short e.word (List.mem_cons_self ..)
  rw [textFits_iff, Nat.sub_eq_zero_of_le (Nat.le_of_lt word), Nat.zero_add]

theorem written_of_short {e : Entry} (short : ShortLines e) (fits : TextFits e) :
    written e = cutRecord e := by
  have word := short e.word (List.mem_cons_self ..)
  have text : (textLines e).flatten = e.definition := by
    rw [flatten_textLines, List.drop_eq_nil_of_le (Nat.le_of_lt word), List.nil_append]
  have whole : (e.definition ++ [newline]).length ≤ TEXT := by
    rw [TextFits, text] at fits
    rw [List.length_append, List.length_singleton]
    exact Nat.le_of_lt fits
  rw [written, cutRecord, text, List.take_of_length_le whole]

/-- With an empty file the first word is what the line buffer held before. -/
theorem convert_empty (value : List Byte) :
    ¬ Returns (convert (.ofString _ []) (sourceFile [])) value := by
  rintro ⟨bound, returned⟩
  have here := returned (bound + 1) (Nat.le_succ bound)
  have noWord : cstr (Buffer.ofString BIGLINE []).bytes = [] :=
    Buffer.cstr_ofString (fun b member => (by cases member)) (by decide)
  obtain ⟨blank₀, blank₁, clear, copied, -⟩ :=
    @store_word (.ofString _ []) [] (by decide)
  let c : Converter :=
    ⟨{ Stream.fopen [] with eof := true }, .ofString _ [], blank₁, []⟩
  obtain ⟨blank, -, round⟩ := c.convertDefinition_eq bound
  obtain ⟨c₁, read, empty⟩ := @nextLine_end { c with blank := blank } rfl
  rw [convert, convertLoop, if_neg (by decide), clear, ok_bind, Stream.fgets_at_end rfl,
    ok_bind] at here
  simp only [strlen, noWord, List.length_nil, Nat.zero_ne_one, if_false] at here
  rw [copied, ok_bind] at here
  change ((c.convertDefinition bound >>= convertLoop bound) >>= _) = _ at here
  rw [round, read, ok_bind, appendLine, @Buffer.chop_empty _ c₁.line 0 empty] at here
  cases here

/-- **The fields.** On a source in the documented form `convert` stays inside its record and
writes for every entry, and from nothing else, the word line and the definition cut at the
sizes of their fields, exactly when there is an entry and no definition is too long. -/
theorem convert_cutRecords_iff {entries : List Entry} (short : ∀ e ∈ entries, ShortLines e) :
    (∀ uninitialised : Buffer BIGLINE,
      Returns (convert uninitialised (sourceFile entries)) (entries.flatMap cutRecord)) ↔
      entries ≠ [] ∧ ∀ e ∈ entries, e.definition.length ≤ 478 := by
  constructor
  · intro returned
    have nonempty : entries ≠ [] := by
      rintro rfl
      exact convert_empty _ (returned _)
    refine ⟨nonempty, ?_⟩
    intro e member
    by_contra long
    have exceeds : ¬ TextFits e :=
      fun fits => long ((textFits_iff_of_short (short e member)).mp fits)
    exact convert_fault_of_long (.ofString _ []) ⟨e, member, exceeds⟩ _ (returned _)
  · rintro ⟨nonempty, fits⟩ uninitialised
    have textFits : ∀ e ∈ entries, TextFits e :=
      fun e member => (textFits_iff_of_short (short e member)).mpr (fits e member)
    have same : entries.map written = entries.map cutRecord :=
      List.map_congr_left (fun e member => written_of_short (short e member) (textFits e member))
    rw [List.flatMap_def, ← same, ← List.flatMap_def]
    exact convert_written uninitialised nonempty textFits

theorem letters_inLine {n : Nat} : ∀ b ∈ List.replicate n (98 : Byte), InLine b := by
  intro b member
  obtain rfl := List.eq_of_mem_replicate member
  decide

/-- The word `a` with a definition of one line of `n + 1` letters. -/
def lettersEntry (n : Nat) : Entry where
  word := [97]
  lines := [List.replicate (n + 1) 98]
  word_ne := List.cons_ne_nil _ _
  word_inLine := forall_of_all rfl
  lines_ne := List.cons_ne_nil _ _
  line_ne := List.forall_mem_singleton.mpr (List.cons_ne_nil _ _)
  line_inLine := List.forall_mem_singleton.mpr letters_inLine

theorem definition_lettersEntry (n : Nat) : (lettersEntry n).definition.length = n + 1 := by
  simp [Entry.definition, lettersEntry]

theorem short_lettersEntry {n : Nat} (short : n < 510) :
    ∀ e ∈ [lettersEntry n], ShortLines e := by
  simp [ShortLines, lettersEntry]
  omega

/-- A definition of 478 letters is the longest. -/
theorem convert_cutRecords_iff_letters :
    (∀ uninitialised : Buffer BIGLINE,
      Returns (convert uninitialised (sourceFile [lettersEntry 477]))
        ([lettersEntry 477].flatMap cutRecord)) ↔
      [lettersEntry 477] ≠ [] ∧ ∀ e ∈ [lettersEntry 477], e.definition.length ≤ 478 :=
  convert_cutRecords_iff (short_lettersEntry (by decide))

/-- With one letter more the newline behind the definition is written outside the record. -/
theorem not_convert_cutRecords :
    (∀ e ∈ [lettersEntry 478], ShortLines e) ∧
      ¬ ∃ value, Returns (convert (.ofString _ []) (sourceFile [lettersEntry 478])) value := by
  have short : ∀ e ∈ [lettersEntry 478], ShortLines e := short_lettersEntry (by decide)
  have long : ¬ TextFits (lettersEntry 478) := by
    rw [textFits_iff_of_short (short _ (List.mem_singleton_self _)), definition_lettersEntry]
    decide
  refine ⟨short, ?_⟩
  rintro ⟨value, returned⟩
  exact convert_fault_of_long _ ⟨_, List.mem_singleton_self _, long⟩ value returned

/-! ## One record for each entry -/

theorem length_written {e : Entry} (fits : TextFits e) : (written e).length = WORD + TEXT := by
  have word : ((e.word ++ [newline]).take WORD).length ≤ WORD := by
    rw [List.length_take]
    exact Nat.min_le_left ..
  have text : ((textLines e).flatten ++ [newline]).length ≤ TEXT := by
    rw [List.length_append, List.length_singleton]
    exact Nat.le_of_lt fits
  rw [written, List.length_append, length_pad word, length_pad text]

theorem length_written_last {ending : Ending} {e : Entry} (suits : ending.Suits e) :
    (ending.written e).length = WORD + TEXT := by
  cases ending with
  | blankLine => exact length_written ((textFits_iff e).mpr suits)
  | lineEnd => exact suits.elim
  | unfinished =>
      obtain ⟨-, -, fits⟩ := (suits_unfinished_iff e).mp suits
      have word : ((e.word ++ [newline]).take WORD).length ≤ WORD := by
        rw [List.length_take]
        exact Nat.min_le_left ..
      have text : ((finishedLines e).flatten ++ [newline]).length ≤ TEXT := by
        rw [List.length_append, List.length_singleton]
        exact Nat.le_of_lt fits
      rw [Ending.written, List.length_append, length_pad word, length_pad text]

/-- **Termination.** `convert` ends, without a store outside its buffers, and writes one record
of 512 bytes for each entry exactly when every text leaves room for its newline and terminator and
the last entry ends with a blank line or with an unfinished character. -/
theorem convert_oneRecordEach_iff (ending : Ending) {entries : List Entry}
    (nonempty : entries ≠ []) :
    (∀ uninitialised : Buffer BIGLINE, ∃ records : List (List Byte),
      records.length = entries.length ∧ (∀ r ∈ records, r.length = WORD + TEXT) ∧
        Returns (convert uninitialised (sourceEnding ending entries)) records.flatten) ↔
      (∀ e ∈ entries.dropLast, e.word.length - (BIGLINE - 1) + e.definition.length ≤ 478) ∧
        ending.Suits (entries.getLast nonempty) := by
  have parts := List.dropLast_concat_getLast nonempty
  constructor
  · intro returned
    obtain ⟨records, -, -, returned⟩ := returned (.ofString _ [])
    rw [← parts] at returned
    by_contra bad
    refine convert_fault (.ofString _ []) ?_ _ returned
    by_contra good
    obtain ⟨fits, suits⟩ := not_or.mp good
    refine bad ⟨fun e member => (textFits_iff e).mp ?_, not_not.mp suits⟩
    exact by_contra fun long => fits ⟨e, member, long⟩
  · rintro ⟨fits, suits⟩ uninitialised
    have textFits : ∀ e ∈ entries.dropLast, TextFits e :=
      fun e member => (textFits_iff e).mpr (fits e member)
    refine ⟨entries.dropLast.map written ++ [ending.written (entries.getLast nonempty)], ?_, ?_, ?_⟩
    · have count := congrArg List.length parts
      rw [List.length_append] at count ⊢
      rw [List.length_map]
      exact count
    · intro r member
      rcases List.mem_append.mp member with front | last
      · obtain ⟨e, inEntries, rfl⟩ := List.mem_map.mp front
        exact length_written (textFits e inEntries)
      · rw [List.mem_singleton.mp last]
        exact length_written_last suits
    · have returns := convert_returns uninitialised textFits suits
      rw [parts] at returns
      rw [List.flatten_append, ← List.flatMap_def, List.flatten_singleton]
      exact returns

theorem convert_oneRecordEach_iff_letter :
    (∀ uninitialised : Buffer BIGLINE, ∃ records : List (List Byte),
      records.length = [lettersEntry 0].length ∧ (∀ r ∈ records, r.length = WORD + TEXT) ∧
        Returns (convert uninitialised (sourceEnding .blankLine [lettersEntry 0]))
          records.flatten) ↔
      (∀ e ∈ [lettersEntry 0].dropLast,
        e.word.length - (BIGLINE - 1) + e.definition.length ≤ 478) ∧
        Ending.blankLine.Suits ([lettersEntry 0].getLast (List.cons_ne_nil _ _)) :=
  convert_oneRecordEach_iff .blankLine (List.cons_ne_nil _ _)

/-- Without the blank line behind the only entry `convert` does not end, whether its line is
finished or not. -/
theorem not_convert_oneRecordEach :
    (¬ ∃ value, Returns (convert (.ofString _ []) (sourceEnding .lineEnd [lettersEntry 0])) value) ∧
      ¬ ∃ value,
        Returns (convert (.ofString _ []) (sourceEnding .unfinished [lettersEntry 0])) value := by
  have noText : ¬ Ending.unfinished.Suits (lettersEntry 0) := by
    rw [suits_unfinished_iff]
    exact fun suits => suits.2.1 rfl
  constructor
  · rintro ⟨value, returned⟩
    exact @convert_fault _ .lineEnd [] (lettersEntry 0) (.inr id) value returned
  · rintro ⟨value, returned⟩
    exact @convert_fault _ .unfinished [] (lettersEntry 0) (.inr noText) value returned

end LinuxExercises.Dictionary.Converter
