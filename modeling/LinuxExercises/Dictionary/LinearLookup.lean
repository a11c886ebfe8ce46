import LinuxExercises.Dictionary.Convert

/-!
# The linear lookup in a record file

`lookup1` reads the records one after another and compares their words with the one it
seeks. Its stream is a static variable: the first call opens the file, every call
rewinds the stream, so a call does not depend on the calls before it.

While records remain, one round of the loop reads the word and the definition of the
next record (`scan_record`). The loop is guarded by `feof`, but each round ends with a
seek, and a seek clears the end-of-file indicator. Behind the last record the reads
find nothing and leave the previous word in place, and each further round shortens that
word by one character and compares what is left (`scan_stale`). The loop therefore
stops only when one character is left, and until then a query that is a proper initial
part of the last word is taken for a match.
-/

set_option autoImplicit false

namespace LinuxExercises.Dictionary

open Foundations

/-! ## The code -/

/-- A match: strip the newline of the text and copy it to the caller's record. -/
def answer (inp : Stream) (dr sought : Dictrec) : Except Fault (Verdict × Dictrec × Stream) := do
  let dr : Dictrec ← dr.chop WORD
  let sought ← sought.copyText dr.text
  .ok (.found, sought, inp)

/-- The loop `while (!feof(in))` of `lookup`. -/
def scan : Nat → Stream → Dictrec → Dictrec → Except Fault (Verdict × Dictrec × Stream)
  | 0, _, _, _ => .error .outOfFuel
  | fuel + 1, inp, dr, sought =>
    if inp.eof then .ok (.notFound, sought, inp)
    else do
      let (_, (dr : Dictrec), inp) ← inp.fgets dr 0 32
      if strlen dr.word = 1 then .ok (.notFound, sought, inp)
      else do
        let inp := inp.seekCur (32 - strlen dr.word)
        let (_, (dr : Dictrec), inp) ← inp.fgets dr WORD 480
        let inp := inp.seekCur (480 - strlen dr.text)
        let dr : Dictrec ← dr.chop 0
        if strcmp dr.word sought.word = .eq then answer inp dr sought
        else scan fuel inp dr sought

/-- The static stream of `lookup`: the first call opens the resource or exits. -/
def openFirst (resource : Option (List Byte)) : Option Stream → Except Fault Stream
  | some inp => .ok inp
  | none =>
    match resource with
    | some contents => .ok (.fopen contents)
    | none => .error (.exited 1)

/-- `lookup` of `lookup1.c`. The static stream is `none` before the first call. The
record on the stack is not initialised. -/
def lookup (resource : Option (List Byte)) (inp : Option Stream) (uninitialised sought : Dictrec)
    (fuel : Nat) : Except Fault (Verdict × Dictrec × Option Stream) := do
  let inp ← openFirst resource inp
  let (verdict, sought, inp) ← scan fuel inp.rewind uninitialised sought
  .ok (verdict, sought, some inp)

/-! ## The record on the stack -/

/-- The record on the stack holds a word without its newline and a text with it. -/
structure Holds (dr : Dictrec) (word text : List Byte) : Prop where
  wordField : ∃ junk, dr.bytes.take WORD = word ++ 0 :: junk
  textField : ∃ junk, dr.bytes.drop WORD = text ++ newline :: 0 :: junk

namespace Holds

variable {dr : Dictrec} {word text : List Byte}

theorem bytes_eq (holds : Holds dr word text) :
    ∃ wordJunk textJunk, (word ++ 0 :: wordJunk).length = WORD ∧
      dr.bytes = (word ++ 0 :: wordJunk) ++ (text ++ newline :: 0 :: textJunk) := by
  obtain ⟨wordJunk, wordField⟩ := holds.wordField
  obtain ⟨textJunk, textField⟩ := holds.textField
  refine ⟨wordJunk, textJunk, ?_, ?_⟩
  · rw [← wordField, List.length_take, dr.size_eq]
    decide
  · rw [← wordField, ← textField, List.take_append_drop]

theorem of_bytes {wordJunk textJunk : List Byte} (size : (word ++ 0 :: wordJunk).length = WORD)
    (bytes : dr.bytes = (word ++ 0 :: wordJunk) ++ (text ++ newline :: 0 :: textJunk)) :
    Holds dr word text :=
  ⟨⟨wordJunk, by rw [bytes, List.take_left' size]⟩, ⟨textJunk, by rw [bytes, List.drop_left' size]⟩⟩

/-- The word string of the record. -/
theorem cstr_word (holds : Holds dr word text) (clean : ∀ b ∈ word, b ≠ 0) :
    cstr dr.word = word := by
  obtain ⟨wordJunk, textJunk, -, bytes⟩ := holds.bytes_eq
  rw [Dictrec.word, bytes, List.append_assoc, List.cons_append]
  exact cstr_append_zero clean

/-- Chopping the word drops its last character. -/
theorem chop {b : Byte} (holds : Holds dr (word ++ [b]) text)
    (clean : ∀ c ∈ word ++ [b], c ≠ 0) :
    ∃ dr', Buffer.chop dr 0 = .ok dr' ∧ Holds dr' word text := by
  obtain ⟨wordJunk, textJunk, size, bytes⟩ := holds.bytes_eq
  have layout : dr.bytes =
      [] ++ (word ++ b :: 0 :: (wordJunk ++ (text ++ newline :: 0 :: textJunk))) := by
    rw [bytes]
    simp only [List.append_assoc, List.cons_append, List.nil_append]
  obtain ⟨dr', chopped, bytes'⟩ := Buffer.chop_eq layout clean 0 rfl
  refine ⟨dr', chopped, @of_bytes dr' word text (0 :: wordJunk) textJunk ?_ ?_⟩
  · rw [← size]
    simp only [List.length_append, List.length_cons, List.length_nil]
    omega
  · rw [bytes']
    simp only [List.append_assoc, List.cons_append, List.nil_append]

end Holds

/-- The answer to a match is the text that the record holds. -/
theorem answer_spec {dr sought : Dictrec} {word text : List Byte} (holds : Holds dr word text)
    (clean : ∀ b ∈ text, InLine b) (inp : Stream) :
    ∃ sought' : Dictrec, answer inp dr sought = .ok (.found, sought', inp) ∧
      cstr sought'.text = text ∧ sought'.bytes.take WORD = sought.bytes.take WORD := by
  obtain ⟨wordJunk, textJunk, size, bytes⟩ := holds.bytes_eq
  have total := dr.size_eq
  rw [bytes, List.length_append, size, List.length_append, List.length_cons,
    List.length_cons] at total
  obtain ⟨dr', chopped, bytes'⟩ := Buffer.chop_eq bytes (clean_of_inLine clean) WORD size.symm
  have string : cstr (Dictrec.text dr') = text := by
    rw [Dictrec.text, bytes', List.drop_left' size]
    exact cstr_append_zero fun b member => (clean b member).2
  obtain ⟨sought', copied, wordKept, copy⟩ := sought.copyText_fits
    (by rw [strlen, string]; omega : strlen (Dictrec.text dr') < TEXT)
  refine ⟨sought', ?_, copy.trans string, wordKept⟩
  rw [answer, chopped, ok_bind, copied, ok_bind]

/-! ## One round of the loop -/

/-- **Reading a padded field.** `fgets` takes the line in the field, and the seek by the
rest of the field leads to what follows it. -/
theorem read_field {field : Nat} {inp : Stream} {line tail : List Byte} (dr : Dictrec)
    (layout : inp.rest = pad field (line ++ [newline]) ++ tail) (inLine : ∀ b ∈ line, InLine b)
    (fits : line.length + 1 < field) (more : inp.eof = false) (offset : Nat)
    (room : offset + field ≤ WORD + TEXT) :
    ∃ (dr' : Dictrec) (inp' : Stream),
      inp.fgets dr offset field = .ok (true, dr', inp') ∧
        dr'.bytes = dr.bytes.take offset ++ (line ++ [newline, 0]) ++
          dr.bytes.drop (offset + (line.length + 2)) ∧
        strlen (dr'.bytes.drop offset) = line.length + 1 ∧
        (inp'.seekCur (field - strlen (dr'.bytes.drop offset))).rest = tail ∧
        (inp'.seekCur (field - strlen (dr'.bytes.drop offset))).eof = false := by
  have total := dr.size_eq
  have layout' : inp.rest =
      line ++ newline :: (List.replicate (field - (line.length + 1)) 0 ++ tail) := by
    rw [layout, pad, List.length_append, List.length_singleton]
    simp only [List.append_assoc, List.cons_append, List.nil_append]
  obtain ⟨dr', inp', read, bytes, -, rest, -⟩ :=
    Stream.fgets_line_at dr layout' (fun member => (inLine _ member).1 rfl) fits more offset
      (by omega)
  have before : (dr.bytes.take offset).length = offset := by
    rw [List.length_take]
    omega
  have string : cstr (dr'.bytes.drop offset) = line ++ [newline] := by
    rw [bytes, List.append_assoc, List.drop_left' before]
    have terminated := @cstr_append_zero _ (dr.bytes.drop (offset + (line.length + 2)))
      (clean_of_inLine inLine)
    simpa only [List.append_assoc, List.cons_append, List.nil_append] using terminated
  have length : strlen (dr'.bytes.drop offset) = line.length + 1 := by
    rw [strlen, string, List.length_append, List.length_singleton]
  refine ⟨dr', inp', read, bytes, length, ?_⟩
  have forwards : (0 : Int) ≤ field - strlen (dr'.bytes.drop offset) := by omega
  refine ⟨?_, inp'.eof_seekCur forwards⟩
  rw [inp'.rest_seekCur forwards, rest, length, List.drop_left']
  rw [List.length_replicate]
  omega

/-- **A round on a record** reads its word and its definition and stops behind it. -/
theorem scan_record {inp : Stream} {dr : Dictrec} {e : Entry} {tail : List Byte}
    (fits : e.Fits) (layout : inp.rest = e.record ++ tail) (more : inp.eof = false)
    (sought : Dictrec) :
    ∃ (dr' : Dictrec) (inp' : Stream),
      (∀ fuel, scan (fuel + 1) inp dr sought =
        if strcmp dr'.word sought.word = .eq then answer inp' dr' sought
        else scan fuel inp' dr' sought) ∧
      Holds dr' e.word e.definition ∧ inp'.rest = tail ∧ inp'.eof = false := by
  have wordShort : e.word.length + 1 < 32 := Nat.lt_succ_of_le (Nat.succ_le_succ fits.word_le)
  have definitionShort : e.definition.length + 1 < 480 :=
    Nat.lt_succ_of_le (Nat.succ_le_succ fits.definition_le)
  rw [Entry.record, List.append_assoc] at layout
  obtain ⟨dr₁, inp₁, read₁, bytes₁, length₁, rest₁, open₁⟩ :=
    read_field dr layout e.word_inLine wordShort more 0 (by decide)
  obtain ⟨dr₂, inp₂, read₂, bytes₂, -, rest₂, open₂⟩ :=
    read_field dr₁ rest₁ e.definition_inLine definitionShort open₁ WORD (Nat.le_refl _)
  rw [List.take_zero, List.nil_append, Nat.zero_add] at bytes₁
  -- The word field keeps what followed the word line in it.
  have wordField : dr₁.bytes.take WORD =
      e.word ++ newline :: 0 :: (dr.bytes.drop (e.word.length + 2)).take (30 - e.word.length) := by
    have length : (e.word ++ [newline, 0]).length = e.word.length + 2 := List.length_append
    have room : WORD - (e.word ++ [newline, 0]).length = 30 - e.word.length := by
      rw [length]
      show 32 - (e.word.length + 2) = 30 - e.word.length
      omega
    rw [bytes₁, List.take_append, List.take_of_length_le (length.trans_le wordShort), room]
    simp only [List.append_assoc, List.cons_append, List.nil_append]
  have holds₂ : Holds dr₂ (e.word ++ [newline]) e.definition := by
    refine @Holds.of_bytes dr₂ _ _ ((dr.bytes.drop (e.word.length + 2)).take (30 - e.word.length))
      (dr₁.bytes.drop (WORD + (e.definition.length + 2))) ?_ ?_
    · rw [List.append_assoc, List.cons_append, List.nil_append, ← wordField, List.length_take,
        dr₁.size_eq]
      decide
    · rw [bytes₂, wordField]
      simp only [List.append_assoc, List.cons_append, List.nil_append]
  obtain ⟨dr₃, chopped, holds₃⟩ := holds₂.chop e.word_clean
  refine ⟨dr₃, _, fun fuel => ?_, holds₃, rest₂, open₂⟩
  have long : strlen (Dictrec.word dr₁) ≠ 1 := by
    have := e.length_word_pos
    rw [List.drop_zero] at length₁
    rw [Dictrec.word, length₁]
    omega
  rw [scan, if_neg (by rw [more]; decide), read₁, ok_bind]
  simp only [if_neg long]
  change (Stream.fgets dr₁ WORD 480 (inp₁.seekCur (32 - strlen (dr₁.bytes.drop 0))) >>= _) = _
  rw [show ((32 : Int) - strlen (dr₁.bytes.drop 0)) =
    ((32 : Nat) : Int) - strlen (dr₁.bytes.drop 0) from rfl, read₂, ok_bind]
  simp only
  rw [chopped, ok_bind]
  rfl

/-- **A round behind the last record** reads nothing, drops the last character of the
word that is still there, and compares the rest. -/
theorem scan_past_end {inp : Stream} {dr : Dictrec} {word text : List Byte} {b : Byte}
    (holds : Holds dr (word ++ [b]) text) (wordNe : word ≠ [])
    (clean : ∀ c ∈ word ++ [b], c ≠ 0) (textClean : ∀ c ∈ text, InLine c)
    (ended : inp.rest = []) (more : inp.eof = false) (sought : Dictrec) :
    ∃ (dr' : Dictrec) (inp' : Stream),
      (∀ fuel, scan (fuel + 1) inp dr sought =
        if strcmp dr'.word sought.word = .eq then answer inp' dr' sought
        else scan fuel inp' dr' sought) ∧
      Holds dr' word text ∧ inp'.rest = [] ∧ inp'.eof = false := by
  obtain ⟨wordJunk, textJunk, size, bytes⟩ := holds.bytes_eq
  have wordLength : strlen dr.word = word.length + 1 := by
    rw [strlen, holds.cstr_word clean, List.length_append, List.length_singleton]
  have wordShort : word.length + 1 ≤ 32 := by
    have : (word ++ [b] ++ 0 :: wordJunk).length = 32 := size
    simp only [List.length_append, List.length_cons, List.length_nil] at this
    omega
  have textLength : strlen dr.text = text.length + 1 := by
    have terminated := @cstr_append_zero _ textJunk (clean_of_inLine textClean)
    rw [List.append_assoc, List.singleton_append] at terminated
    rw [strlen, Dictrec.text, bytes, List.drop_left' size, terminated, List.length_append,
      List.length_singleton]
  have textShort : text.length + 1 ≤ 480 := by
    have total : dr.bytes.length = 32 + 480 := dr.size_eq
    have field : (word ++ [b] ++ 0 :: wordJunk).length = 32 := size
    rw [bytes, List.length_append, field] at total
    simp only [List.length_append, List.length_cons] at total
    omega
  -- Both reads set the indicator, and the seek behind each clears it again.
  have seek : ∀ {s : Stream} {offset : Int}, s.rest = [] → 0 ≤ offset →
      (s.seekCur offset).rest = [] ∧ (s.seekCur offset).eof = false := by
    intro s offset empty forwards
    exact ⟨by rw [s.rest_seekCur forwards, empty, List.drop_nil], s.eof_seekCur forwards⟩
  obtain ⟨ended₁, -⟩ := @seek { inp with eof := true } (32 - strlen dr.word) ended (by omega)
  obtain ⟨ended₂, open₂⟩ := @seek
    { ({ inp with eof := true } : Stream).seekCur (32 - strlen dr.word) with eof := true }
    (480 - strlen dr.text) ended₁ (by omega)
  obtain ⟨dr', chopped, holds'⟩ := holds.chop clean
  refine ⟨dr', _, fun fuel => ?_, holds', ended₂, open₂⟩
  have long : strlen dr.word ≠ 1 := by
    have := List.length_pos_iff.mpr wordNe
    omega
  rw [scan, if_neg (by rw [more]; decide), Stream.fgets_at_end ended, ok_bind]
  simp only [if_neg long]
  rw [Stream.fgets_at_end ended₁, ok_bind]
  simp only
  rw [chopped, ok_bind]

/-! ## Runs of the loop -/

/-- A query that is a proper initial part of a word, and not empty. -/
def ProperPart (query word : List Byte) : Prop := query ≠ [] ∧ query <+: word ∧ query ≠ word

/-- A proper part of a word is the word without its last character, or a proper part of
that. -/
theorem properPart_concat {query word : List Byte} {b : Byte} :
    ProperPart query (word ++ [b]) ↔
      query ≠ [] ∧ (query = word ∨ ProperPart query word) := by
  constructor
  · rintro ⟨nonempty, part, different⟩
    refine ⟨nonempty, ?_⟩
    rcases List.prefix_concat_iff.mp part with same | part
    · exact absurd same different
    · by_cases same : query = word
      · exact .inl same
      · exact .inr ⟨nonempty, part, same⟩
  · rintro ⟨nonempty, same | ⟨-, part, different⟩⟩
    · subst same
      exact ⟨nonempty, List.prefix_append _ _, by simp⟩
    · refine ⟨nonempty, part.trans (List.prefix_append _ _), fun same => ?_⟩
      have short := part.length_le
      rw [same, List.length_append, List.length_singleton] at short
      omega

/-- The result of the loop from a position, on a large enough budget. -/
def ScanReturns (inp : Stream) (dr sought : Dictrec) (result : Verdict × Dictrec × Stream) :
    Prop :=
  Returns (fun fuel => scan fuel inp dr sought) result

/-- A round whose word is not the one sought goes on behind it. -/
theorem ScanReturns.of_different {inp inp' : Stream} {dr dr' sought : Dictrec} {word : List Byte}
    (round : ∀ fuel, scan (fuel + 1) inp dr sought =
      if strcmp dr'.word sought.word = .eq then answer inp' dr' sought
      else scan fuel inp' dr' sought)
    (string : cstr dr'.word = word) (different : word ≠ cstr sought.word)
    {result : Verdict × Dictrec × Stream} (later : ScanReturns inp' dr' sought result) :
    ScanReturns inp dr sought result := by
  have unequal : strcmp dr'.word sought.word ≠ .eq := by
    rw [Ne, strcmp_eq_iff, string]
    exact different
  refine Returns.of_round (fun fuel => ?_) later
  rw [round, if_neg unequal]

/-- A round whose word is the one sought answers with the text. -/
theorem ScanReturns.of_equal {inp inp' : Stream} {dr dr' sought : Dictrec} {word text : List Byte}
    (round : ∀ fuel, scan (fuel + 1) inp dr sought =
      if strcmp dr'.word sought.word = .eq then answer inp' dr' sought
      else scan fuel inp' dr' sought)
    (holds : Holds dr' word text) (string : cstr dr'.word = word)
    (clean : ∀ b ∈ text, InLine b) (same : word = cstr sought.word) :
    ∃ sought' : Dictrec, ScanReturns inp dr sought (.found, sought', inp') ∧
      cstr sought'.text = text := by
  obtain ⟨sought', answered, copy, -⟩ := answer_spec holds clean inp'
  have equal : strcmp dr'.word sought.word = .eq := by
    rw [strcmp_eq_iff, string, same]
  refine ⟨sought', Returns.of_last fun fuel => ?_, copy⟩
  rw [round, if_pos equal, answered]

/-- **Behind the last record** the loop answers with the last definition when the query
is a proper part of the last word, and otherwise ends without a match. -/
theorem scan_stale {text : List Byte} (textClean : ∀ c ∈ text, InLine c) (sought : Dictrec) :
    ∀ (n : Nat) {word : List Byte} {inp : Stream} {dr : Dictrec},
      word.length = n + 1 → Holds dr word text → (∀ c ∈ word, c ≠ 0) → inp.rest = [] →
      inp.eof = false →
      (ProperPart (cstr sought.word) word → ∃ (sought' : Dictrec) (inp' : Stream),
        ScanReturns inp dr sought (.found, sought', inp') ∧ cstr sought'.text = text) ∧
      (¬ ProperPart (cstr sought.word) word →
        ∃ inp' : Stream, ScanReturns inp dr sought (.notFound, sought, inp')) := by
  intro n
  induction n with
  | zero =>
      intro word inp dr length holds clean ended more
      have single : strlen dr.word = 1 := by
        rw [strlen, holds.cstr_word clean, length]
      refine ⟨fun part => ?_, fun _ => ⟨{ inp with eof := true }, Returns.of_last fun fuel => ?_⟩⟩
      · obtain ⟨nonempty, part, different⟩ := part
        have short := part.length_le
        have positive := List.length_pos_iff.mpr nonempty
        exact absurd (part.eq_of_length (by omega)) different
      · rw [scan, if_neg (by rw [more]; decide), Stream.fgets_at_end ended, ok_bind]
        simp only [if_pos single]
  | succ n ih =>
      intro word inp dr length holds clean ended more
      obtain ⟨shorter, b, rfl⟩ : ∃ shorter b, word = shorter ++ [b] := by
        have nonempty : word ≠ [] := by
          rintro rfl
          cases length
        exact ⟨word.dropLast, word.getLast nonempty,
          (List.dropLast_concat_getLast nonempty).symm⟩
      rw [List.length_append, List.length_singleton] at length
      have shorterNe : shorter ≠ [] := by
        rintro rfl
        cases length
      obtain ⟨dr', inp', round, holds', ended', open'⟩ :=
        scan_past_end holds shorterNe clean textClean ended more sought
      have clean' : ∀ c ∈ shorter, c ≠ 0 :=
        fun c member => clean c (List.mem_append_left _ member)
      have string := holds'.cstr_word clean'
      rw [properPart_concat]
      by_cases same : cstr sought.word = shorter
      · -- What is left of the word is the query.
        obtain ⟨sought', found, copy⟩ :=
          ScanReturns.of_equal round holds' string textClean same.symm
        exact ⟨fun _ => ⟨sought', inp', found, copy⟩,
          fun none => absurd ⟨same ▸ shorterNe, .inl same⟩ none⟩
      · have different : shorter ≠ cstr sought.word := fun equal => same equal.symm
        obtain ⟨found, notFound⟩ := ih (Nat.succ.inj length) holds' clean' ended' open'
        refine ⟨fun part => ?_, fun none => ?_⟩
        · obtain ⟨sought', inp'', returned, copy⟩ := found (part.2.resolve_left same)
          exact ⟨sought', inp'', .of_different round string different returned, copy⟩
        · obtain ⟨inp'', returned⟩ := notFound fun part => none ⟨part.1, .inr part⟩
          exact ⟨inp'', .of_different round string different returned⟩

/-- **Over records that do not match** the loop goes on to what follows them. -/
theorem scan_skip {tail : List Byte} (sought : Dictrec) (entries : List Entry) :
    ∀ {inp : Stream} {dr : Dictrec}, (∀ e ∈ entries, e.Fits) →
      (∀ e ∈ entries, e.word ≠ cstr sought.word) →
      inp.rest = recordFile entries ++ tail → inp.eof = false →
      ∃ (dr' : Dictrec) (inp' : Stream),
        (∀ {result}, ScanReturns inp' dr' sought result → ScanReturns inp dr sought result) ∧
          inp'.rest = tail ∧ inp'.eof = false := by
  induction entries with
  | nil =>
      intro inp dr _ _ layout more
      exact ⟨dr, inp, id, layout, more⟩
  | cons e entries ih =>
      intro inp dr fits absent layout more
      have layout' : inp.rest = e.record ++ (recordFile entries ++ tail) := by
        rw [layout, recordFile, List.flatMap_cons, List.append_assoc, recordFile]
      obtain ⟨dr₁, inp₁, round, holds₁, rest₁, open₁⟩ := @scan_record inp dr e _
        (fits e (List.mem_cons_self ..)) layout' more sought
      have string := holds₁.cstr_word fun b member => (e.word_inLine b member).2
      obtain ⟨dr', inp', later, rest', open'⟩ := @ih inp₁ dr₁
        (fun f member => fits f (List.mem_cons_of_mem _ member))
        (fun f member => absent f (List.mem_cons_of_mem _ member)) rest₁ open₁
      exact ⟨dr', inp', fun returned =>
        .of_different round string (absent e (List.mem_cons_self ..)) (later returned),
        rest', open'⟩

/-- A record whose word is sought, behind records that do not match, is found. -/
theorem scan_found {entries others : List Entry} {e : Entry} {sought : Dictrec} {inp : Stream}
    (fits : ∀ f ∈ entries ++ e :: others, f.Fits)
    (absent : ∀ f ∈ entries, f.word ≠ cstr sought.word) (present : e.word = cstr sought.word)
    (layout : inp.rest = recordFile (entries ++ e :: others)) (more : inp.eof = false)
    (dr : Dictrec) :
    ∃ (sought' : Dictrec) (inp' : Stream), ScanReturns inp dr sought (.found, sought', inp') ∧
      cstr sought'.text = e.definition := by
  have layout' : inp.rest = recordFile entries ++ (e.record ++ recordFile others) := by
    rw [layout, recordFile, recordFile, recordFile, List.flatMap_append, List.flatMap_cons]
  obtain ⟨dr₁, inp₁, later, rest₁, open₁⟩ := @scan_skip _ sought entries inp dr
    (fun f member => fits f (List.mem_append_left _ member)) absent layout' more
  obtain ⟨dr₂, inp₂, round, holds, -, -⟩ := @scan_record inp₁ dr₁ e _
    (fits e (List.mem_append_right _ (List.mem_cons_self ..))) rest₁ open₁ sought
  obtain ⟨sought', found, copy⟩ := ScanReturns.of_equal round holds
    (holds.cstr_word fun b member => (e.word_inLine b member).2) e.definition_inLine present
  exact ⟨sought', inp₂, later found, copy⟩

/-- A query that is no word of the file: the loop ends, and its verdict depends on the
last word alone. -/
theorem scan_absent {entries : List Entry} {e : Entry} {sought : Dictrec} {inp : Stream}
    (fits : ∀ f ∈ entries ++ [e], f.Fits)
    (absent : ∀ f ∈ entries ++ [e], f.word ≠ cstr sought.word)
    (layout : inp.rest = recordFile (entries ++ [e])) (more : inp.eof = false) (dr : Dictrec) :
    (ProperPart (cstr sought.word) e.word → ∃ (sought' : Dictrec) (inp' : Stream),
      ScanReturns inp dr sought (.found, sought', inp') ∧ cstr sought'.text = e.definition) ∧
    (¬ ProperPart (cstr sought.word) e.word →
      ∃ inp' : Stream, ScanReturns inp dr sought (.notFound, sought, inp')) := by
  have last : e ∈ entries ++ [e] := List.mem_append_right _ (List.mem_singleton.mpr rfl)
  have layout' : inp.rest = recordFile entries ++ (e.record ++ []) := by
    rw [layout, recordFile, recordFile, List.flatMap_append, List.flatMap_singleton,
      List.append_nil]
  obtain ⟨dr₁, inp₁, later, rest₁, open₁⟩ := @scan_skip _ sought entries inp dr
    (fun f member => fits f (List.mem_append_left _ member))
    (fun f member => absent f (List.mem_append_left _ member)) layout' more
  obtain ⟨dr₂, inp₂, round, holds, rest₂, open₂⟩ :=
    @scan_record inp₁ dr₁ e _ (fits e last) rest₁ open₁ sought
  have wordClean : ∀ b ∈ e.word, b ≠ 0 := fun b member => (e.word_inLine b member).2
  have string := holds.cstr_word wordClean
  obtain ⟨found, notFound⟩ := scan_stale e.definition_inLine sought (e.word.length - 1)
    (Nat.sub_add_cancel e.length_word_pos).symm holds wordClean rest₂ open₂
  refine ⟨fun part => ?_, fun none => ?_⟩
  · obtain ⟨sought', inp', returned, copy⟩ := found part
    exact ⟨sought', inp', later (.of_different round string (absent e last) returned), copy⟩
  · obtain ⟨inp', returned⟩ := notFound none
    exact ⟨inp', later (.of_different round string (absent e last) returned)⟩

end LinuxExercises.Dictionary
