import LinuxExercises.Dictionary.MappedLookup

/-!
# A request that is no record

A server calls `lookup` with the 512 bytes that it has received, whatever they are. The word
field of such a request may have no NUL, and `strcmp` is not told where the field ends. It
stops at the first byte in which the request differs from the word of a record, and that is at
its terminator at the latest, as long as the request has not ended before.

So a search whose comparisons can read the word field only goes through as the real one does
(`searchReading_eq`): no comparison looks at the text field of the request. The order of
`strcmp` is one of strings, and a field without a NUL is the start of a string that is longer
than the words of all records. The search therefore misses nothing, and it finds a request
exactly when its word field has a NUL and a record has the same word (`lookup_hostile`).
-/

set_option autoImplicit false

namespace LinuxExercises.Dictionary.Mapped

open Foundations

/-- `dict_cmp`, when the key can be read up to a limit only. -/
def dictCmpReading (limit : Nat) (m : Mapped) (addr : Pointer) (sought : Dictrec) (idx : Nat) :
    Except Fault Ordering := do
  let record ← m.deref addr (idx * (WORD + TEXT))
  strcmpBytes (sought.word.take limit) record

/-- The part of `lookup` behind the first-call branch, with such a key. -/
def searchReading (limit : Nat) (m : Mapped) (addr : Pointer) (sought : Dictrec) (fuel : Nat) :
    Except Fault (Verdict × Dictrec × Mapped) := do
  let found ← bsearch (m.dictCmpReading limit addr sought) m.numrec fuel
  match found with
  | some idx => do
    let text ← m.deref addr (idx * (WORD + TEXT) + WORD)
    let sought ← sought.copyText text
    .ok (.found, sought, m)
  | none => do
    let sought ← sought.copyText (asBytes "Not Found!")
    .ok (.notFound, sought, m)

/-- `lookup`, with such a key. -/
def lookupReading (limit : Nat) (resource : Option (List Byte)) (m : Mapped)
    (uninitialised : Pointer) (sought : Dictrec) (fuel : Nat) :
    Except Fault (Verdict × Dictrec × Mapped) := do
  let (m, addr) ← setUp resource m uninitialised
  m.searchReading limit addr sought fuel

section Reading

variable {records : List Dictrec} {limit : Nat}

/-- Comparing with a record reads the key up to the terminator of its word at most. -/
theorem dictCmpReading_eq (terminated : ∀ r ∈ records, r.Terminated) (word : WORD ≤ limit)
    (size : limit ≤ WORD + TEXT) (sought : Dictrec) (idx : Nat) (within : idx < records.length) :
    dictCmpReading limit (started records) .mapping sought idx =
      dictCmp (started records) .mapping sought idx := by
  obtain ⟨rest, address⟩ := drop_file (List.getElem?_eq_getElem within)
  have nul : 0 ∈ (records[idx].bytes ++ rest).take limit := by
    refine List.mem_of_mem_take (i := WORD) ?_
    rw [List.take_take, Nat.min_eq_left word,
      List.take_append_of_le_length (by rw [records[idx].size_eq]; decide)]
    exact (terminated _ (List.getElem_mem within)).1
  have room : limit ≤ sought.word.length := by
    rw [Dictrec.word, sought.size_eq]
    exact size
  rw [dictCmpReading, dictCmp, deref, started, address, ok_bind, ok_bind,
    strcmpBytes_eq nul room]

/-- **No byte behind the word field** is looked at. -/
theorem searchReading_eq (terminated : ∀ r ∈ records, r.Terminated) (word : WORD ≤ limit)
    (size : limit ≤ WORD + TEXT) (sought : Dictrec) :
    searchReading limit (started records) .mapping sought =
      search (started records) .mapping sought := by
  have same := @bsearch_congr (dictCmpReading limit (started records) .mapping sought)
    (dictCmp (started records) .mapping sought) (started records).numrec
    (dictCmpReading_eq terminated word size sought)
  funext fuel
  rw [searchReading, same]
  rfl

end Reading

/-! ## Words without a NUL -/

/-- The request is found with a record: its word field has a NUL, and the word of the record is
what precedes it. -/
def SameWord (request r : Dictrec) : Prop :=
  0 ∈ request.bytes.take WORD ∧ cstr r.word = cstr (request.bytes.take WORD)

/-- The word of a record in a table is one of a request as the strings say it. -/
theorem sameWord_iff {request r : Dictrec} (terminated : r.Terminated) :
    SameWord request r ↔ cstr r.word = cstr request.word := by
  have split : cstr request.word = cstr (request.bytes.take WORD ++ request.bytes.drop WORD) := by
    rw [List.take_append_drop, Dictrec.word]
  constructor
  · rintro ⟨nul, same⟩
    rw [same, split, cstr_append_of_mem _ nul]
  · intro same
    have size : (r.bytes.take WORD).length = WORD := by
      rw [List.length_take, r.size_eq]
      decide
    have short : strlen request.word < WORD := by
      have field : cstr r.word = cstr (r.bytes.take WORD) := by
        rw [Dictrec.word, ← List.take_append_drop WORD r.bytes,
          cstr_append_of_mem _ terminated.1, List.take_append_drop]
      rw [strlen, ← same, field]
      exact (strlen_lt_of_mem terminated.1).trans_eq size
    have nul : 0 ∈ request.bytes.take WORD := by
      refine zero_mem_take short ?_
      rw [request.size_eq]
      decide
    exact ⟨nul, by rw [same, split, cstr_append_of_mem _ nul]⟩

/-- In a table in order no two records have the same word. -/
theorem eq_of_word {records : List Dictrec} (table : InOrder records) {r r' : Dictrec}
    (member : r ∈ records) (member' : r' ∈ records) (same : cstr r.word = cstr r'.word) :
    r = r' := by
  obtain ⟨i, within, rfl⟩ := List.getElem_of_mem member
  obtain ⟨j, within', rfl⟩ := List.getElem_of_mem member'
  have increasing := List.pairwise_iff_getElem.mp table.increasing
  rcases lt_trichotomy i j with less | rfl | greater
  · have order := increasing i j within within' less
    rw [strcmp_eq_iff.mpr same] at order
    cases order
  · rfl
  · have order := increasing j i within' within greater
    rw [strcmp_eq_iff.mpr same.symm] at order
    cases order

/-- **Requests of any bytes.** The first call returns the same when it can read no more of the
request than its word field. It keeps the word field, finds exactly the requests whose word
field holds the word of a record with its NUL, and copies the text of this record. -/
theorem lookup_hostile {records : List Dictrec} (table : InOrder records) (request : Dictrec)
    (uninitialised : Pointer) :
    ∃ verdict reply,
      (∀ limit, WORD ≤ limit → limit ≤ WORD + TEXT →
        Returns (lookupReading limit (some (file records)) start uninitialised request)
          (verdict, reply, started records)) ∧
      Returns (lookup (some (file records)) start uninitialised request)
        (verdict, reply, started records) ∧
      reply.bytes.take WORD = request.bytes.take WORD ∧
      (verdict = .found ↔ ∃ r ∈ records, SameWord request r) ∧
      ∀ r ∈ records, SameWord request r → cstr reply.text = cstr r.text := by
  obtain ⟨verdict, reply, searched, answers⟩ := search_mapping table request
  have returned : Returns (lookup (some (file records)) start uninitialised request)
      (verdict, reply, started records) := by
    rw [lookup_start table.nonempty]
    exact searched
  obtain ⟨bound, ran⟩ := returned
  obtain ⟨-, kept⟩ := lookup_word (.inl rfl) (ran bound (Nat.le_refl _))
  refine ⟨verdict, reply, ?_, ⟨bound, ran⟩, kept, ?_, ?_⟩
  · intro limit word size
    have same : lookupReading limit (some (file records)) start uninitialised request =
        searchReading limit (started records) .mapping request := by
      funext fuel
      rw [lookupReading, setUp_start table.nonempty, ok_bind]
    rw [same, searchReading_eq table.terminated word size]
    exact searched
  · rcases answers with ⟨found, r, member, same, -⟩ | ⟨missed, absent, -⟩
    · exact iff_of_true found ⟨r, member, (sameWord_iff (table.terminated r member)).mpr same⟩
    · refine iff_of_false (by rw [missed]; exact nofun) ?_
      rintro ⟨r, member, same⟩
      exact absent r member ((sameWord_iff (table.terminated r member)).mp same)
  · intro r member same
    have word := (sameWord_iff (table.terminated r member)).mp same
    rcases answers with ⟨-, r', member', word', text⟩ | ⟨-, absent, -⟩
    · rw [eq_of_word table member member' (word.trans word'.symm)]
      exact text
    · exact absurd word (absent r member)

/-- A request without any NUL is looked up in a table of two records. -/
theorem lookup_hostile_tiny :
    ∃ verdict reply,
      (∀ limit, WORD ≤ limit → limit ≤ WORD + TEXT →
        Returns (lookupReading limit (some (file tinyTable)) start .nowhere
          ⟨List.replicate (WORD + TEXT) 97, List.length_replicate⟩)
            (verdict, reply, started tinyTable)) ∧
      verdict ≠ .found := by
  obtain ⟨verdict, reply, reading, -, -, found, -⟩ := lookup_hostile tinyTable_inOrder
    ⟨List.replicate (WORD + TEXT) 97, List.length_replicate⟩ .nowhere
  refine ⟨verdict, reply, reading, fun isFound => ?_⟩
  obtain ⟨r, -, nul, -⟩ := found.mp isFound
  have zero := List.eq_of_mem_replicate (List.mem_of_mem_take nul)
  exact absurd zero (by decide)

end LinuxExercises.Dictionary.Mapped
