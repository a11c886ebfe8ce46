import LinuxExercises.Dictionary.LinearLookup

/-!
# Looking words up in a converted dictionary

What the linear lookup finds in the file that `convert` writes. A process may have
called `lookup` before on that file, with any queries; `Called` describes the static
stream that such calls leave behind.

* Every word of the dictionary is found, with the definition the source gave it
  (`lookup_convert`).
* A query that is no word of the dictionary always makes `lookup` return, and it is
  reported as not found exactly when it is not a proper part of the last word
  (`reportsAbsent_iff`).
-/

set_option autoImplicit false

namespace LinuxExercises.Dictionary

open Foundations

/-- The static stream of a process after calls of `lookup` on one file that all
returned. -/
inductive Called (file : List Byte) : Option Stream → Prop where
  | start : Called file none
  | call {inp inp' : Option Stream} {dr sought sought' : Dictrec} {verdict : Verdict} :
      Called file inp →
      Returns (lookup (some file) inp dr sought) (verdict, sought', inp') →
      Called file inp'

theorem answer_contents {inp inp' : Stream} {dr sought sought' : Dictrec} {verdict : Verdict}
    (answered : answer inp dr sought = .ok (verdict, sought', inp')) : inp' = inp := by
  obtain ⟨dr', -, answered⟩ := bind_eq_ok answered
  obtain ⟨copied, -, answered⟩ := bind_eq_ok answered
  cases answered
  rfl

/-- The loop does not change the file. -/
theorem scan_contents :
    ∀ (fuel : Nat) {inp inp' : Stream} {dr sought sought' : Dictrec} {verdict : Verdict},
      scan fuel inp dr sought = .ok (verdict, sought', inp') → inp'.contents = inp.contents := by
  intro fuel
  induction fuel with
  | zero =>
      intro inp inp' dr sought sought' verdict scanned
      cases scanned
  | succ fuel ih =>
      intro inp inp' dr sought sought' verdict scanned
      rw [scan] at scanned
      split at scanned
      · cases scanned
        rfl
      · obtain ⟨⟨returned₁, dr₁, inp₁⟩, read₁, scanned⟩ := bind_eq_ok scanned
        have same₁ := Stream.fgets_contents read₁
        simp only at scanned
        split at scanned
        · cases scanned
          exact same₁
        · obtain ⟨⟨returned₂, dr₂, inp₂⟩, read₂, scanned⟩ := bind_eq_ok scanned
          have same₂ := Stream.fgets_contents read₂
          obtain ⟨dr₃, -, scanned⟩ := bind_eq_ok scanned
          simp only at scanned
          split at scanned
          · rw [answer_contents scanned]
            simpa only [Stream.seekCur_contents, same₁] using same₂
          · rw [ih scanned]
            simpa only [Stream.seekCur_contents, same₁] using same₂

/-- Whatever was called before, the stream is on the same file. -/
theorem Called.contents {file : List Byte} {inp : Option Stream} (called : Called file inp) :
    ∀ s ∈ inp, s.contents = file := by
  induction called with
  | start =>
      intro s member
      cases member
  | @call inp inp' dr sought sought' verdict _ returned ih =>
      intro s member
      obtain ⟨bound, returned⟩ := returned
      obtain ⟨opened, source, returned⟩ := bind_eq_ok (returned bound (Nat.le_refl _))
      obtain ⟨⟨verdict', sought'', scanned⟩, ran, returned⟩ := bind_eq_ok returned
      cases returned
      cases member
      rw [scan_contents bound ran, Stream.rewind_contents]
      cases inp with
      | none =>
          cases source
          rfl
      | some before =>
          cases source
          exact ih _ rfl

/-- A call scans the file from its start, whatever was called before. -/
theorem lookup_eq_scan {file : List Byte} {inp : Option Stream} (called : Called file inp)
    (dr sought : Dictrec) (fuel : Nat) :
    lookup (some file) inp dr sought fuel =
      (do
        let (verdict, sought, inp) ← scan fuel (.fopen file) dr sought
        .ok (verdict, sought, some inp)) := by
  cases inp with
  | none => rfl
  | some before =>
      have rewound : before.rewind = .fopen file := by
        rw [Stream.rewind, called.contents before rfl]
        rfl
      rw [lookup, openFirst, ok_bind, rewound]

theorem ScanReturns.lookup {file : List Byte} {inp : Option Stream} (called : Called file inp)
    {dr sought sought' : Dictrec} {verdict : Verdict} {inp' : Stream}
    (returned : ScanReturns (.fopen file) dr sought (verdict, sought', inp')) :
    Returns (Dictionary.lookup (some file) inp dr sought) (verdict, sought', some inp') := by
  obtain ⟨bound, returned⟩ := returned
  refine ⟨bound, fun fuel enough => ?_⟩
  have scanned : scan fuel (.fopen file) dr sought = _ := returned fuel enough
  rw [lookup_eq_scan called, scanned, ok_bind]

/-! ## Words of the dictionary -/

/-- A call with a word of the file finds the first record with that word. -/
theorem lookup_recordFile {entries others : List Entry} {e : Entry}
    (fits : ∀ f ∈ entries ++ e :: others, f.Fits) {sought : Dictrec}
    (absent : ∀ f ∈ entries, f.word ≠ cstr sought.word) (present : e.word = cstr sought.word)
    {inp : Option Stream} (called : Called (recordFile (entries ++ e :: others)) inp)
    (dr : Dictrec) :
    ∃ sought' inp',
      Returns (lookup (some (recordFile (entries ++ e :: others))) inp dr sought)
        (.found, sought', inp') ∧ cstr sought'.text = e.definition := by
  obtain ⟨sought', inp', found, copy⟩ :=
    scan_found fits absent present (Stream.rest_fopen _) rfl dr
  exact ⟨sought', some inp', found.lookup called, copy⟩

/-- A dictionary with distinct words, split at one of its entries. -/
theorem exists_split {entries : List Entry} {e : Entry} (distinct : (entries.map Entry.word).Nodup)
    (member : e ∈ entries) :
    ∃ before after, entries = before ++ e :: after ∧ ∀ f ∈ before, f.word ≠ e.word := by
  obtain ⟨before, after, rfl⟩ := List.append_of_mem member
  refine ⟨before, after, rfl, fun f inBefore same => ?_⟩
  rw [List.map_append, List.map_cons, List.nodup_append] at distinct
  exact distinct.2.2 f.word (List.mem_map_of_mem inBefore) e.word (List.mem_cons_self ..) same

/-- **The round trip.** `convert` terminates on a source whose entries fit their fields
and have distinct words, and in the file it writes every word is found with its
definition, in every process and after every sequence of calls. -/
theorem lookup_convert (uninitialised : Buffer BIGLINE) {entries : List Entry}
    (nonempty : entries ≠ []) (fits : ∀ e ∈ entries, e.Fits)
    (distinct : (entries.map Entry.word).Nodup) :
    ∃ file, Returns (Converter.convert uninitialised (sourceFile entries)) file ∧
      ∀ e ∈ entries, ∀ inp, Called file inp → ∀ dr sought : Dictrec, cstr sought.word = e.word →
        ∃ sought' inp', Returns (lookup (some file) inp dr sought) (.found, sought', inp') ∧
          cstr sought'.text = e.definition := by
  refine ⟨recordFile entries, Converter.convert_sourceFile uninitialised nonempty fits, ?_⟩
  intro e member inp called dr sought query
  obtain ⟨before, after, rfl, absent⟩ := exists_split distinct member
  exact lookup_recordFile fits (fun f inBefore => query ▸ absent f inBefore) query.symm called dr

/-- A dictionary of two entries, the second with a definition of two lines. -/
def tinyDictionary : List Entry :=
  [{ word := [98]
     lines := [[120]]
     word_ne := by decide
     word_inLine := forall_of_all rfl
     lines_ne := by decide
     line_ne := by decide
     line_inLine := List.forall_mem_singleton.mpr (forall_of_all rfl) },
   { word := [97, 98]
     lines := [[121], [122]]
     word_ne := by decide
     word_inLine := forall_of_all rfl
     lines_ne := by decide
     line_ne := by decide
     line_inLine := List.forall_mem_cons.mpr
       ⟨forall_of_all rfl, List.forall_mem_singleton.mpr (forall_of_all rfl)⟩ }]

theorem tinyDictionary_fits : ∀ e ∈ tinyDictionary, e.Fits := by
  intro e member
  simp only [tinyDictionary, List.mem_cons, List.not_mem_nil, or_false] at member
  rcases member with rfl | rfl
  · exact ⟨by decide, by decide⟩
  · exact ⟨by decide, by decide⟩

/-- The round trip on the two-entry dictionary. -/
theorem lookup_convert_tiny :
    ∃ file, Returns (Converter.convert (.ofString _ []) (sourceFile tinyDictionary)) file ∧
      ∀ e ∈ tinyDictionary, ∀ inp, Called file inp → ∀ dr sought : Dictrec,
        cstr sought.word = e.word →
          ∃ sought' inp', Returns (lookup (some file) inp dr sought) (.found, sought', inp') ∧
            cstr sought'.text = e.definition :=
  lookup_convert (.ofString _ []) (by decide) tinyDictionary_fits (by decide)

/-! ## Queries that are not in the dictionary -/

/-- Every call with this query, whatever was called before, returns, reports that the
word is not there, and leaves the text of the query's record as it was. -/
def ReportsAbsent (file : List Byte) (sought : Dictrec) : Prop :=
  ∀ inp, Called file inp → ∀ dr, ∃ (sought' : Dictrec) (inp' : Option Stream),
    Returns (lookup (some file) inp dr sought) (.notFound, sought', inp') ∧
      sought'.text = sought.text

/-- An absent query that is a proper part of the last word is taken for a match. -/
theorem lookup_properPart {entries : List Entry} {e : Entry}
    (fits : ∀ f ∈ entries ++ [e], f.Fits) {sought : Dictrec}
    (absent : ∀ f ∈ entries ++ [e], f.word ≠ cstr sought.word)
    (part : ProperPart (cstr sought.word) e.word) {inp : Option Stream}
    (called : Called (recordFile (entries ++ [e])) inp) (dr : Dictrec) :
    ∃ sought' inp',
      Returns (lookup (some (recordFile (entries ++ [e]))) inp dr sought)
        (.found, sought', inp') ∧ cstr sought'.text = e.definition := by
  obtain ⟨sought', inp', found, copy⟩ :=
    (scan_absent fits absent (Stream.rest_fopen _) rfl dr).1 part
  exact ⟨sought', some inp', found.lookup called, copy⟩

/-- An absent query that is no proper part of the last word is reported as absent. -/
theorem reportsAbsent_of_not_part {entries : List Entry} {e : Entry}
    (fits : ∀ f ∈ entries ++ [e], f.Fits) {sought : Dictrec}
    (absent : ∀ f ∈ entries ++ [e], f.word ≠ cstr sought.word)
    (none : ¬ ProperPart (cstr sought.word) e.word) :
    ReportsAbsent (recordFile (entries ++ [e])) sought := by
  intro inp called dr
  obtain ⟨inp', notFound⟩ := (scan_absent fits absent (Stream.rest_fopen _) rfl dr).2 none
  exact ⟨sought, some inp', notFound.lookup called, rfl⟩

/-- A query that is taken for a match is not reported as absent. -/
theorem not_reportsAbsent_of_part {entries : List Entry} {e : Entry}
    (fits : ∀ f ∈ entries ++ [e], f.Fits) {sought : Dictrec}
    (absent : ∀ f ∈ entries ++ [e], f.word ≠ cstr sought.word)
    (part : ProperPart (cstr sought.word) e.word) :
    ¬ ReportsAbsent (recordFile (entries ++ [e])) sought := by
  intro reports
  obtain ⟨other, inp', found, -⟩ := lookup_properPart fits absent part .start sought
  obtain ⟨sought', inp'', notFound, -⟩ := reports none .start sought
  cases found.unique notFound

/-- **When an absent query is reported as absent.** On the file that `convert` writes, a
query that is no word of the dictionary is reported as absent exactly when it is not a
proper part of the last word. -/
theorem reportsAbsent_iff (uninitialised : Buffer BIGLINE) {entries : List Entry}
    (nonempty : entries ≠ []) (fits : ∀ e ∈ entries, e.Fits) :
    ∃ file, Returns (Converter.convert uninitialised (sourceFile entries)) file ∧
      ∀ sought : Dictrec, (∀ e ∈ entries, e.word ≠ cstr sought.word) →
        (ReportsAbsent file sought ↔
          ¬ ProperPart (cstr sought.word) (entries.getLast nonempty).word) := by
  refine ⟨recordFile entries, Converter.convert_sourceFile uninitialised nonempty fits, ?_⟩
  intro sought absent
  have split := List.dropLast_concat_getLast nonempty
  generalize entries.getLast nonempty = last at split ⊢
  generalize entries.dropLast = init at split
  subst split
  refine ⟨fun reports part => ?_, reportsAbsent_of_not_part fits absent⟩
  exact not_reportsAbsent_of_part fits absent part reports

/-- The two-entry dictionary and a query that is in no relation to its words. -/
theorem reportsAbsent_iff_tiny :
    ∃ file, Returns (Converter.convert (.ofString _ []) (sourceFile tinyDictionary)) file ∧
      ∀ sought : Dictrec, (∀ e ∈ tinyDictionary, e.word ≠ cstr sought.word) →
        (ReportsAbsent file sought ↔
          ¬ ProperPart (cstr sought.word) (tinyDictionary.getLast (by decide)).word) :=
  reportsAbsent_iff (.ofString _ []) (by decide) tinyDictionary_fits

/-- The query `a` is no word of the two-entry dictionary, whose last word is `ab`, and is
not reported as absent. -/
theorem not_reportsAbsent_tiny :
    Returns (Converter.convert (.ofString _ []) (sourceFile tinyDictionary))
        (recordFile tinyDictionary) ∧
      (∀ e ∈ tinyDictionary, e.word ≠ cstr (Dictrec.word (.ofString _ [97]))) ∧
      ¬ ReportsAbsent (recordFile tinyDictionary) (.ofString _ [97]) := by
  have query : cstr (Dictrec.word (.ofString _ [97])) = [97] :=
    Buffer.cstr_ofString (forall_of_all rfl) (by decide)
  have absent : ∀ e ∈ tinyDictionary, e.word ≠ cstr (Dictrec.word (.ofString _ [97])) := by
    rw [query]
    decide
  refine ⟨Converter.convert_sourceFile _ (by decide) tinyDictionary_fits, absent, ?_⟩
  refine @not_reportsAbsent_of_part [tinyDictionary.head (by decide)]
    (tinyDictionary.getLast (by decide)) tinyDictionary_fits _ absent ?_
  rw [query]
  exact ⟨by decide, ⟨[98], rfl⟩, by decide⟩

end LinuxExercises.Dictionary
