import LinuxExercises.Dictionary.RoundTrip
import LinuxExercises.Dictionary.MappedLookup

/-!
# Two lookups in one file

`lookup1` and `lookup5` are two versions of one function and read records of one format.
They do not agree on the files that `convert` writes. `convert` copies the word line with
its newline into the word field. `lookup1` drops the newline before it compares;
`lookup5` compares the field as it is, and no query contains a newline. So every word of
the dictionary is found by the first and missed by the second, whatever the order of the
words (`not_agree`).
-/

set_option autoImplicit false

namespace LinuxExercises.Dictionary

open Foundations

namespace Entry

/-- The fields of the record of an entry, as the table of `lookup5` sees them. -/
theorem exists_dictrec {e : Entry} (fits : e.Fits) :
    ∃ r : Dictrec, r.bytes = e.record ∧ r.Terminated ∧ cstr r.word = e.word ++ [newline] := by
  have short : (e.word ++ [newline]).length < WORD := by
    rw [List.length_append, List.length_singleton]
    exact Nat.lt_succ_of_le (Nat.succ_le_succ fits.word_le)
  have textShort : (e.definition ++ [newline]).length < TEXT := by
    rw [List.length_append, List.length_singleton]
    exact Nat.lt_succ_of_le (Nat.succ_le_succ fits.definition_le)
  have word := length_pad (Nat.le_of_lt short)
  have text := length_pad (Nat.le_of_lt textShort)
  refine ⟨⟨e.record, by rw [record, List.length_append, word, text]⟩, rfl, ⟨?_, ?_⟩, ?_⟩
  · simp only [record, List.take_left' word]
    exact zero_mem_pad short
  · simp only [record, List.drop_left' word]
    exact zero_mem_pad textShort
  · exact cstr_pad e.word_clean short _

end Entry

/-- A record file is a table of terminated records whose words end in a newline. -/
theorem exists_table {entries : List Entry} (fits : ∀ e ∈ entries, e.Fits) :
    ∃ records : List Dictrec, Mapped.file records = recordFile entries ∧
      records.length = entries.length ∧
      ∀ r ∈ records, r.Terminated ∧ ∃ e : Entry, cstr r.word = e.word ++ [newline] := by
  induction entries with
  | nil => exact ⟨[], rfl, rfl, fun r member => (List.not_mem_nil member).elim⟩
  | cons e entries ih =>
      obtain ⟨records, same, length, shape⟩ :=
        ih fun f member => fits f (List.mem_cons_of_mem _ member)
      obtain ⟨r, bytes, terminated, word⟩ :=
        Entry.exists_dictrec (fits e (List.mem_cons_self ..))
      refine ⟨r :: records, ?_, by rw [List.length_cons, List.length_cons, length], ?_⟩
      · rw [Mapped.file, recordFile, List.flatMap_cons, List.flatMap_cons, bytes, ← recordFile,
          ← same, Mapped.file]
      · intro s member
        rcases List.mem_cons.mp member with rfl | member
        · exact ⟨terminated, e, word⟩
        · exact shape s member

/-- The first call of `lookup5` on a file of `convert` misses every query without a
newline. -/
theorem lookup5_recordFile {entries : List Entry} (nonempty : entries ≠ [])
    (fits : ∀ e ∈ entries, e.Fits) {sought : Dictrec} (line : newline ∉ cstr sought.word)
    (stale : Pointer) :
    ∃ sought' m, Returns (Mapped.lookup (some (recordFile entries)) .start stale sought)
      (.notFound, sought', m) ∧ cstr sought'.text = asBytes "Not Found!" := by
  obtain ⟨records, same, length, shape⟩ := exists_table fits
  have someRecord : records ≠ [] := by
    rw [← List.length_pos_iff, length, List.length_pos_iff]
    exact nonempty
  have absent : ∀ r ∈ records, cstr r.word ≠ cstr sought.word := by
    intro r member equal
    obtain ⟨-, e, word⟩ := shape r member
    refine line ?_
    rw [← equal, word]
    exact List.mem_append_right _ (List.mem_singleton.mpr rfl)
  obtain ⟨sought', missed, text⟩ :=
    Mapped.search_unlisted (fun r member => (shape r member).1) absent
  rw [← same, Mapped.lookup_start someRecord]
  exact ⟨sought', _, missed, text⟩

/-- Two texts that differ at most in one newline at the end. -/
def SameText (left right : List Byte) : Prop :=
  left = right ∨ left = right ++ [newline] ∨ left ++ [newline] = right

/-- The first calls of both lookups return the same verdict and the same text. -/
def Agree (file : List Byte) (dr : Dictrec) (stale : Pointer) (sought : Dictrec) : Prop :=
  ∃ verdict sought₁ inp sought₅ m,
    Returns (lookup (some file) none dr sought) (verdict, sought₁, inp) ∧
      Returns (Mapped.lookup (some file) .start stale sought) (verdict, sought₅, m) ∧
      SameText (cstr sought₁.text) (cstr sought₅.text)

/-- The first call of `lookup1` finds every word of the file. -/
theorem lookup1_recordFile {entries : List Entry} (fits : ∀ e ∈ entries, e.Fits) {e : Entry}
    (member : e ∈ entries) {sought : Dictrec} (query : cstr sought.word = e.word)
    (dr : Dictrec) :
    ∃ sought' inp', Returns (lookup (some (recordFile entries)) none dr sought)
      (.found, sought', inp') := by
  -- The first record with the word decides, so repeated words need no exclusion here.
  obtain ⟨first, same, before, after, rfl, absent⟩ :
      ∃ first : Entry, first.word = cstr sought.word ∧ ∃ before after,
        entries = before ++ first :: after ∧ ∀ f ∈ before, f.word ≠ cstr sought.word := by
    obtain ⟨first, found⟩ := Option.isSome_iff_exists.mp
      (List.find?_isSome.mpr ⟨e, member, by simp [query]⟩ :
        (entries.find? fun f => f.word = cstr sought.word).isSome)
    obtain ⟨same, before, after, split, absent⟩ := List.find?_eq_some_iff_append.mp found
    exact ⟨first, by simpa using same, before, after, split, by simpa using absent⟩
  obtain ⟨sought', inp', found, -⟩ := lookup_recordFile fits absent same .start dr
  exact ⟨sought', inp', found⟩

/-- **The two lookups disagree** on every word of every dictionary that `convert`
converts. -/
theorem not_agree (uninitialised : Buffer BIGLINE) {entries : List Entry}
    (nonempty : entries ≠ []) (fits : ∀ e ∈ entries, e.Fits) :
    ∃ file, Returns (Converter.convert uninitialised (sourceFile entries)) file ∧
      ∀ e ∈ entries, ∀ (dr sought : Dictrec) (stale : Pointer), cstr sought.word = e.word →
        ¬ Agree file dr stale sought := by
  refine ⟨recordFile entries, Converter.convert_sourceFile uninitialised nonempty fits, ?_⟩
  rintro e member dr sought stale query ⟨verdict, sought₁, inp, sought₅, m, linear, binary, -⟩
  obtain ⟨_, _, found⟩ := lookup1_recordFile fits member query dr
  obtain ⟨_, _, missed, -⟩ :=
    @lookup5_recordFile entries nonempty fits sought (query ▸ e.newline_notMem_word) stale
  cases linear.unique found
  cases binary.unique missed

/-- The two-entry dictionary, with its words in increasing order. -/
theorem not_agree_tiny :
    ∃ file,
      Returns (Converter.convert (.ofString _ []) (sourceFile tinyDictionary.reverse)) file ∧
        ∀ e ∈ tinyDictionary.reverse, ∀ (dr sought : Dictrec) (stale : Pointer),
          cstr sought.word = e.word → ¬ Agree file dr stale sought :=
  not_agree (.ofString _ []) (by decide)
    fun e member => tinyDictionary_fits e (List.mem_reverse.mp member)

/-- In the two-entry dictionary, with its words in increasing order, the lookups disagree
about the word `ab`. -/
theorem exists_not_agree :
    tinyDictionary.reverse.Pairwise (fun e f => compare e.word f.word = .lt) ∧
      Returns (Converter.convert (.ofString _ []) (sourceFile tinyDictionary.reverse))
        (recordFile tinyDictionary.reverse) ∧
      cstr (Dictrec.word (.ofString _ [97, 98])) = [97, 98] ∧
      ¬ Agree (recordFile tinyDictionary.reverse) (.ofString _ []) .nowhere
        (.ofString _ [97, 98]) := by
  have fits : ∀ e ∈ tinyDictionary.reverse, e.Fits :=
    fun e member => tinyDictionary_fits e (List.mem_reverse.mp member)
  have converted := Converter.convert_sourceFile (.ofString _ []) (by decide) fits
  have query : cstr (Dictrec.word (.ofString _ [97, 98])) = [97, 98] :=
    Buffer.cstr_ofString (forall_of_all rfl) (by decide)
  refine ⟨by decide, converted, query, ?_⟩
  rintro ⟨verdict, sought₁, inp, sought₅, m, linear, binary, -⟩
  obtain ⟨_, _, found⟩ := lookup1_recordFile fits
    (List.mem_reverse.mpr (List.mem_cons_of_mem _ (List.mem_singleton.mpr rfl)))
    query (.ofString _ [])
  obtain ⟨_, _, missed, -⟩ := @lookup5_recordFile tinyDictionary.reverse (by decide) fits
    (.ofString _ [97, 98]) (by rw [query]; decide) .nowhere
  cases linear.unique found
  cases binary.unique missed

end LinuxExercises.Dictionary
