import LinuxExercises.Foundations.BinarySearch
import LinuxExercises.Dictionary.Record

/-!
# The binary search in a mapped record file

`lookup5` maps the record file in its first call and searches the mapping with
`bsearch` in every call. What survives from one call to the next is the static flag,
the static record count and the mapping itself. The pointer to the mapping does not:
`addr` is an automatic variable that only the first call assigns, and the static
pointer `table` is never assigned or read.

The value of an unassigned variable is a parameter of the call (`Pointer`). The first
call does not depend on it and is correct on every table in order (`lookup_start`). A
later call searches whatever the stale value leads to: the mapping when it happens to be its
address (`session_mapping`), other memory that is taken for records, or nothing
(`not_session_nowhere`). So no session of two or more calls is correct whatever that value is
(`session_iff`).

The record count is a C `int`; the files here have fewer than `2 ^ 31` records.
-/

set_option autoImplicit false

namespace LinuxExercises.Dictionary

open Foundations

/-- The bytes of a string literal. -/
def asBytes (s : String) : List Byte := s.toList.map fun c => UInt8.ofNat c.toNat

/-- The value of a pointer variable: the start of the mapping, other memory that can be
read from there on, or no address of an object. -/
inductive Pointer where
  | mapping
  | elsewhere (memory : List Byte)
  | nowhere
deriving Repr, DecidableEq

/-- The pointer leads to memory that is not the mapping. -/
def Pointer.astray : Pointer → Bool
  | .elsewhere _ => true
  | _ => false

/-- What lasts between two calls: the static variables and the mapped bytes. The count of the
records is below `2 ^ 31`. -/
structure Mapped where
  firstTime : Bool
  numrec : Nat
  contents : List Byte
deriving Repr, DecidableEq

namespace Mapped

/-! ## The code -/

/-- The process before the first call. -/
def start : Mapped where
  firstTime := true
  numrec := 0
  contents := []

/-- The first call opens and maps the resource, or exits. The result carries `addr`, which
no later call assigns. An empty file cannot be mapped. -/
def setUp (resource : Option (List Byte)) (m : Mapped) (uninitialised : Pointer) :
    Except Fault (Mapped × Pointer) :=
  if m.firstTime then
    match resource with
    | none => .error (.exited 1)
    | some contents =>
      if contents = [] then .error (.exited 1)
      else .ok (⟨false, contents.length / (WORD + TEXT), contents⟩, .mapping)
  else .ok (m, uninitialised)

/-- Follow a pointer, with an offset. -/
def deref (m : Mapped) (addr : Pointer) (offset : Nat) : Except Fault (List Byte) :=
  match addr with
  | .mapping => .ok (m.contents.drop offset)
  | .elsewhere memory =>
    if offset < memory.length then .ok (memory.drop offset) else .error .outOfBounds
  | .nowhere => .error .outOfBounds

/-- `dict_cmp` of the key and the record with an index. -/
def dictCmp (m : Mapped) (addr : Pointer) (sought : Dictrec) (idx : Nat) :
    Except Fault Ordering := do
  let record ← m.deref addr (idx * (WORD + TEXT))
  .ok (strcmp sought.word record)

/-- The part of `lookup` behind the first-call branch. -/
def search (m : Mapped) (addr : Pointer) (sought : Dictrec) (fuel : Nat) :
    Except Fault (Verdict × Dictrec × Mapped) := do
  let found ← bsearch (m.dictCmp addr sought) m.numrec fuel
  match found with
  | some idx => do
    let text ← m.deref addr (idx * (WORD + TEXT) + WORD)
    let sought ← sought.copyText text
    .ok (.found, sought, m)
  | none => do
    let sought ← sought.copyText (asBytes "Not Found!")
    .ok (.notFound, sought, m)

/-- `lookup` of `lookup5.c`. -/
def lookup (resource : Option (List Byte)) (m : Mapped) (uninitialised : Pointer)
    (sought : Dictrec) (fuel : Nat) : Except Fault (Verdict × Dictrec × Mapped) := do
  let (m, addr) ← setUp resource m uninitialised
  m.search addr sought fuel

/-! ## The mapped table -/

/-- The bytes of a file of records. -/
def file (records : List Dictrec) : List Byte := records.flatMap Buffer.bytes

/-- The process after the first call on a file of records. -/
def started (records : List Dictrec) : Mapped where
  firstTime := false
  numrec := records.length
  contents := file records

theorem length_file (records : List Dictrec) :
    (file records).length = records.length * (WORD + TEXT) := by
  induction records with
  | nil => rfl
  | cons r records ih =>
      rw [file, List.flatMap_cons, List.length_append, r.size_eq, ← file, ih, List.length_cons,
        Nat.add_mul, Nat.one_mul, Nat.add_comm]

/-- The address of a record of the table. -/
theorem drop_file {records : List Dictrec} {r : Dictrec} {idx : Nat}
    (at_idx : records[idx]? = some r) :
    ∃ rest, (file records).drop (idx * (WORD + TEXT)) = r.bytes ++ rest := by
  obtain ⟨within, same⟩ := List.getElem?_eq_some_iff.mp at_idx
  have split : file records =
      file (records.take idx) ++ (r.bytes ++ file (records.drop (idx + 1))) := by
    rw [file, file, file, ← List.flatMap_cons, ← List.flatMap_append, ← same,
      List.getElem_cons_drop, List.take_append_drop]
  have before : (file (records.take idx)).length = idx * (WORD + TEXT) := by
    rw [length_file, List.length_take, Nat.min_eq_left (Nat.le_of_lt within)]
  exact ⟨_, by rw [split, List.drop_left' before]⟩

/-- A table that the search relies on: terminated fields, and words that increase in
the order of `strcmp`. -/
structure InOrder (records : List Dictrec) : Prop where
  nonempty : records ≠ []
  terminated : ∀ r ∈ records, r.Terminated
  increasing : records.Pairwise fun r s => strcmp r.word s.word = .lt

/-- What a call is to return: the text of the record with the word sought when there is
one, and otherwise the text `Not Found!`. -/
def Answers (records : List Dictrec) (sought : Dictrec) (verdict : Verdict) (sought' : Dictrec) :
    Prop :=
  (verdict = .found ∧
    ∃ r ∈ records, cstr r.word = cstr sought.word ∧ cstr sought'.text = cstr r.text) ∨
  (verdict = .notFound ∧ (∀ r ∈ records, cstr r.word ≠ cstr sought.word) ∧
    cstr sought'.text = asBytes "Not Found!")

/-- How the key compares with the record at an index. -/
def order (records : List Dictrec) (sought : Dictrec) (idx : Nat) : Ordering :=
  match records[idx]? with
  | some r => strcmp sought.word r.word
  | none => .eq

theorem order_eq {records : List Dictrec} {r : Dictrec} {idx : Nat} (sought : Dictrec)
    (at_idx : records[idx]? = some r) : order records sought idx = strcmp sought.word r.word := by
  rw [order, at_idx]

/-- Through the address of the mapping, `dict_cmp` compares with the word of the record. -/
theorem dictCmp_started {records : List Dictrec} (terminated : ∀ r ∈ records, r.Terminated)
    (sought : Dictrec) (idx : Nat) (within : idx < records.length) :
    dictCmp (started records) .mapping sought idx = .ok (order records sought idx) := by
  have at_idx : records[idx]? = some records[idx] := List.getElem?_eq_getElem within
  obtain ⟨rest, address⟩ := drop_file at_idx
  have nul : 0 ∈ records[idx].bytes :=
    List.mem_of_mem_take (terminated _ (List.getElem_mem within)).1
  have word : cstr (records[idx].bytes ++ rest) = cstr records[idx].word :=
    cstr_append_of_mem rest nul
  rw [dictCmp, deref, started, address, ok_bind, order_eq sought at_idx, strcmp, strcmp, word]

/-- A table whose words increase is in order for every key. -/
theorem inOrderFor {records : List Dictrec} (table : InOrder records) (sought : Dictrec) :
    InOrderFor (order records sought) records.length := by
  have increasing : ∀ {i j}, i < j → (within : j < records.length) →
      ∃ r s, records[i]? = some r ∧ records[j]? = some s ∧ strcmp r.word s.word = .lt := by
    intro i j before within
    have first : i < records.length := Nat.lt_trans before within
    exact ⟨records[i], records[j], List.getElem?_eq_getElem first,
      List.getElem?_eq_getElem within,
      List.pairwise_iff_getElem.mp table.increasing i j first within before⟩
  constructor
  · intro i j before within above
    obtain ⟨r, s, at_i, at_j, less⟩ := increasing before within
    rw [order_eq sought at_i] at above
    rw [order_eq sought at_j]
    exact Std.TransCmp.lt_trans above less
  · intro i j before within below
    obtain ⟨r, s, at_i, at_j, less⟩ := increasing before within
    rw [order_eq sought at_j] at below
    rw [order_eq sought at_i]
    exact Std.OrientedCmp.gt_of_lt (Std.TransCmp.lt_trans less (Std.OrientedCmp.lt_of_gt below))

/-- The text `Not Found!` fits the field. -/
theorem copyText_notFound (sought : Dictrec) :
    ∃ result : Dictrec, sought.copyText (asBytes "Not Found!") = .ok result ∧
      cstr result.text = asBytes "Not Found!" := by
  obtain ⟨result, copied, -, text⟩ := sought.copyText_fits
    (by decide : strlen (asBytes "Not Found!") < TEXT)
  exact ⟨result, copied, text.trans (by decide)⟩

/-- The text of a terminated record, read through the address of the mapping, fits the
field of another record. -/
theorem copyText_record {records : List Dictrec} {r : Dictrec} {idx : Nat}
    (at_idx : records[idx]? = some r) (terminated : r.Terminated) (sought : Dictrec) :
    ∃ (text : List Byte) (result : Dictrec),
      deref (started records) .mapping (idx * (WORD + TEXT) + WORD) = .ok text ∧
        sought.copyText text = .ok result ∧ cstr result.text = cstr r.text := by
  obtain ⟨rest, address⟩ := drop_file at_idx
  have text : (file records).drop (idx * (WORD + TEXT) + WORD) = r.text ++ rest := by
    rw [← List.drop_drop, address, List.drop_append_of_le_length (by rw [r.size_eq]; decide),
      Dictrec.text]
  have same : cstr (r.text ++ rest) = cstr r.text := cstr_append_of_mem rest terminated.2
  have size : r.text.length = TEXT := by
    rw [Dictrec.text, List.length_drop, r.size_eq]
    decide
  have fits : strlen (r.text ++ rest) < TEXT := by
    rw [strlen, same, ← size]
    exact strlen_lt_of_mem terminated.2
  obtain ⟨result, copied, -, copy⟩ := sought.copyText_fits fits
  exact ⟨_, result, by rw [deref, started, text], copied, copy.trans same⟩

/-- A search that found an index returns the text of that record. -/
theorem search_some {records : List Dictrec} (terminated : ∀ r ∈ records, r.Terminated)
    {sought : Dictrec} {idx : Nat}
    (found : Returns (bsearch (dictCmp (started records) .mapping sought) records.length)
      (some idx))
    (within : idx < records.length) (equal : order records sought idx = .eq) :
    ∃ verdict sought',
      Returns (search (started records) .mapping sought) (verdict, sought', started records) ∧
        Answers records sought verdict sought' := by
  obtain ⟨bound, found⟩ := found
  have at_idx : records[idx]? = some records[idx] := List.getElem?_eq_getElem within
  have member : records[idx] ∈ records := List.getElem_mem within
  obtain ⟨text, sought', followed, copied, copy⟩ :=
    copyText_record at_idx (terminated _ member) sought
  rw [order_eq sought at_idx, strcmp_eq_iff] at equal
  refine ⟨.found, sought', ⟨bound, fun fuel enough => ?_⟩,
    .inl ⟨rfl, records[idx], member, equal.symm, copy⟩⟩
  have searched : bsearch (dictCmp (started records) .mapping sought)
    (started records).numrec fuel = .ok (some idx) := found fuel enough
  rw [search, searched, ok_bind]
  simp only
  rw [followed, ok_bind, copied, ok_bind]

/-- A search that found no index returns the text `Not Found!`. -/
theorem search_none {records : List Dictrec} {sought : Dictrec}
    (missed : Returns (bsearch (dictCmp (started records) .mapping sought) records.length) none) :
    ∃ sought' : Dictrec,
      Returns (search (started records) .mapping sought) (.notFound, sought', started records) ∧
        cstr sought'.text = asBytes "Not Found!" := by
  obtain ⟨bound, missed⟩ := missed
  obtain ⟨sought', copied, copy⟩ := copyText_notFound sought
  refine ⟨sought', ⟨bound, fun fuel enough => ?_⟩, copy⟩
  have searched : bsearch (dictCmp (started records) .mapping sought)
    (started records).numrec fuel = .ok none := missed fuel enough
  rw [search, searched, ok_bind]
  simp only
  rw [copied, ok_bind]

/-- A word that is in no record is not found, whatever the order of the table. -/
theorem search_unlisted {records : List Dictrec} (terminated : ∀ r ∈ records, r.Terminated)
    {sought : Dictrec} (absent : ∀ r ∈ records, cstr r.word ≠ cstr sought.word) :
    ∃ sought' : Dictrec,
      Returns (search (started records) .mapping sought) (.notFound, sought', started records) ∧
        cstr sought'.text = asBytes "Not Found!" := by
  obtain ⟨found, returned, finds⟩ := bsearch_returns (dictCmp_started terminated sought)
  cases found with
  | none => exact search_none returned
  | some idx =>
      obtain ⟨-, within, equal⟩ := finds.sound rfl
      rw [order_eq sought (List.getElem?_eq_getElem within), strcmp_eq_iff] at equal
      exact absurd equal.symm (absent _ (List.getElem_mem within))

/-- **The search through the address of the mapping** answers every query. -/
theorem search_mapping {records : List Dictrec} (table : InOrder records) (sought : Dictrec) :
    ∃ verdict sought',
      Returns (search (started records) .mapping sought) (verdict, sought', started records) ∧
        Answers records sought verdict sought' := by
  obtain ⟨found, returned, finds⟩ := bsearch_returns (dictCmp_started table.terminated sought)
  cases found with
  | some idx =>
      obtain ⟨-, within, equal⟩ := finds.sound rfl
      exact search_some table.terminated returned within equal
  | none =>
      obtain ⟨sought', searched, copy⟩ := search_none returned
      refine ⟨.notFound, sought', searched, .inr ⟨rfl, fun r member same => ?_, copy⟩⟩
      obtain ⟨idx, within, rfl⟩ := List.getElem_of_mem member
      refine finds.complete rfl (inOrderFor table sought) (Nat.zero_le idx) within ?_
      rw [order_eq sought (List.getElem?_eq_getElem within), strcmp_eq_iff, same]

/-- Through a pointer to no object the search does not return. -/
theorem search_nowhere {records : List Dictrec} (nonempty : records ≠ []) (sought : Dictrec)
    (fuel : Nat) : ∃ fault, search (started records) .nowhere sought fuel = .error fault := by
  obtain ⟨fault, faulted⟩ := @bsearch_faults (dictCmp (started records) .nowhere sought)
    .outOfBounds (fun _ => rfl) (started records).numrec (List.length_pos_iff.mpr nonempty) fuel
  exact ⟨fault, by rw [search, faulted]; rfl⟩

/-! ## Sessions -/

/-- The first call maps the file. -/
theorem setUp_start {records : List Dictrec} (nonempty : records ≠ []) (uninitialised : Pointer) :
    setUp (some (file records)) start uninitialised = .ok (started records, .mapping) := by
  have total := length_file records
  have bytes : file records ≠ [] := by
    have positive : 0 < records.length * (WORD + TEXT) :=
      Nat.mul_pos (List.length_pos_iff.mpr nonempty) (by decide)
    rwa [← total, List.length_pos_iff] at positive
  have numrec : (file records).length / (WORD + TEXT) = records.length := by
    rw [total]
    exact Nat.mul_div_cancel _ (by decide)
  rw [setUp, if_pos (show start.firstTime = true from rfl)]
  simp only [if_neg bytes, numrec]
  rfl

/-- The first call searches through the address it just assigned. -/
theorem lookup_start {records : List Dictrec} (nonempty : records ≠ [])
    (uninitialised : Pointer) (sought : Dictrec) :
    lookup (some (file records)) start uninitialised sought =
      search (started records) .mapping sought := by
  funext fuel
  rw [lookup, setUp_start nonempty, ok_bind]

/-- A later call searches through whatever the unassigned pointer holds. -/
theorem lookup_started (resource : Option (List Byte)) (records : List Dictrec)
    (uninitialised : Pointer) (sought : Dictrec) :
    lookup resource (started records) uninitialised sought =
      search (started records) uninitialised sought := rfl

/-! ## Any call that returns -/

/-- The process before the first call, or behind a first call that mapped this file. -/
def Ready (contents : Option (List Byte)) (m : Mapped) : Prop :=
  m = start ∨ ∃ bytes, contents = some bytes ∧ m = ⟨false, bytes.length / (WORD + TEXT), bytes⟩

/-- The file has a record that compares as equal to the request, and the reply has its
text. -/
def Matches (bytes : List Byte) (request reply : Dictrec) : Prop :=
  ∃ idx < bytes.length / (WORD + TEXT),
    strcmp request.word (bytes.drop (idx * (WORD + TEXT))) = .eq ∧
      cstr reply.text = cstr (bytes.drop (idx * (WORD + TEXT) + WORD))

/-- What a call has returned that searched the mapping, whatever the file. -/
structure Outcome (resource : Option (List Byte)) (request : Dictrec) (verdict : Verdict)
    (reply : Dictrec) : Prop where
  word : reply.bytes.take WORD = request.bytes.take WORD
  answer : verdict = .found ∧ (∃ bytes, resource = some bytes ∧ Matches bytes request reply) ∨
    verdict = .notFound ∧ cstr reply.text = asBytes "Not Found!"

theorem setUp_ready {resource : Option (List Byte)} {m m' : Mapped} {uninitialised addr : Pointer}
    (ready : Ready resource m) (opened : setUp resource m uninitialised = .ok (m', addr)) :
    ∃ bytes, resource = some bytes ∧ m' = ⟨false, bytes.length / (WORD + TEXT), bytes⟩ := by
  rcases ready with rfl | ⟨bytes, found, rfl⟩
  · rw [setUp.eq_def, if_pos (show start.firstTime = true from rfl)] at opened
    cases resource with
    | none => cases opened
    | some bytes =>
        dsimp only at opened
        split at opened
        · cases opened
        · exact ⟨bytes, rfl, (Prod.mk.inj (Except.ok.inj opened)).1.symm⟩
  · exact ⟨bytes, found, (Prod.mk.inj (Except.ok.inj opened)).1.symm⟩

/-- A search copies a text only, whatever memory it has searched. -/
theorem search_word {m m' : Mapped} {addr : Pointer} {sought reply : Dictrec} {fuel : Nat}
    {verdict : Verdict} (returned : m.search addr sought fuel = .ok (verdict, reply, m')) :
    m' = m ∧ reply.bytes.take WORD = sought.bytes.take WORD := by
  obtain ⟨found, -, returned⟩ := bind_eq_ok returned
  cases found with
  | some idx =>
      obtain ⟨text, -, returned⟩ := bind_eq_ok returned
      obtain ⟨copy, copied, last⟩ := bind_eq_ok returned
      obtain ⟨-, rfl, rfl⟩ : verdict = .found ∧ reply = copy ∧ m' = m := by
        simpa only [Except.ok.injEq, Prod.mk.injEq, eq_comm] using last
      exact ⟨rfl, (sought.copyText_spec copied).1⟩
  | none =>
      obtain ⟨copy, copied, last⟩ := bind_eq_ok returned
      obtain ⟨-, rfl, rfl⟩ : verdict = .notFound ∧ reply = copy ∧ m' = m := by
        simpa only [Except.ok.injEq, Prod.mk.injEq, eq_comm] using last
      exact ⟨rfl, (sought.copyText_spec copied).1⟩

/-- A search that found an index has compared the record there and copied its text. -/
theorem search_outcome {bytes : List Byte} {m : Mapped} {addr : Pointer} {sought reply : Dictrec}
    {fuel : Nat} {verdict : Verdict} {m' : Mapped}
    (mapped : m = ⟨false, bytes.length / (WORD + TEXT), bytes⟩) (own : addr.astray = false)
    (returned : m.search addr sought fuel = .ok (verdict, reply, m')) :
    Outcome (some bytes) sought verdict reply := by
  have word := (search_word returned).2
  obtain ⟨found, searched, returned⟩ := bind_eq_ok returned
  cases found with
  | some idx =>
      obtain ⟨within, equal⟩ := bsearch_sound searched
      obtain ⟨record, followed, compared⟩ := bind_eq_ok equal
      obtain ⟨text, reached, returned⟩ := bind_eq_ok returned
      obtain ⟨copy, copied, last⟩ := bind_eq_ok returned
      obtain ⟨rfl, rfl, rfl⟩ : verdict = .found ∧ reply = copy ∧ m' = m := by
        simpa only [Except.ok.injEq, Prod.mk.injEq, eq_comm] using last
      cases addr with
      | nowhere => cases followed
      | elsewhere memory => cases own
      | mapping =>
          obtain rfl := Except.ok.inj followed
          obtain rfl := Except.ok.inj reached
          have same := (sought.copyText_spec copied).2
          rw [mapped] at within compared same
          exact ⟨word, .inl ⟨rfl, bytes, rfl, idx, within, Except.ok.inj compared, same⟩⟩
  | none =>
      obtain ⟨copy, copied, last⟩ := bind_eq_ok returned
      obtain ⟨rfl, rfl, rfl⟩ : verdict = .notFound ∧ reply = copy ∧ m' = m := by
        simpa only [Except.ok.injEq, Prod.mk.injEq, eq_comm] using last
      have same := (sought.copyText_spec copied).2
      exact ⟨word, .inr ⟨rfl, same.trans (by decide)⟩⟩

/-- The pointer that a call follows: assigned by the first call, stale in a later one. -/
def follows (m : Mapped) (uninitialised : Pointer) : Pointer :=
  if m.firstTime then .mapping else uninitialised

theorem setUp_follows {resource : Option (List Byte)} {m m' : Mapped}
    {uninitialised addr : Pointer} (opened : setUp resource m uninitialised = .ok (m', addr)) :
    addr = m.follows uninitialised := by
  rw [setUp.eq_def] at opened
  rw [follows]
  split at opened
  · rw [if_pos ‹_›]
    cases resource with
    | none => cases opened
    | some bytes =>
        dsimp only at opened
        split at opened
        · cases opened
        · exact (Prod.mk.inj (Except.ok.inj opened)).2.symm
  · rw [if_neg ‹_›]
    exact (Prod.mk.inj (Except.ok.inj opened)).2.symm

/-- Every call that returns keeps the word, whatever the unassigned pointer holds. -/
theorem lookup_word {resource : Option (List Byte)} {m m' : Mapped} {uninitialised : Pointer}
    {sought reply : Dictrec} {fuel : Nat} {verdict : Verdict} (ready : Ready resource m)
    (returned : m.lookup resource uninitialised sought fuel = .ok (verdict, reply, m')) :
    Ready resource m' ∧ reply.bytes.take WORD = sought.bytes.take WORD := by
  obtain ⟨⟨opened, addr⟩, mapped, returned⟩ := bind_eq_ok returned
  obtain ⟨bytes, rfl, rfl⟩ := setUp_ready ready mapped
  obtain ⟨rfl, word⟩ := search_word returned
  exact ⟨.inr ⟨bytes, rfl, rfl⟩, word⟩

/-- **Every call that returns without having gone astray**, the first or a later one, keeps
the word, and either copies the text of a record that compares as equal or the text
`Not Found!`. -/
theorem lookup_outcome {resource : Option (List Byte)} {m m' : Mapped} {uninitialised : Pointer}
    {sought reply : Dictrec} {fuel : Nat} {verdict : Verdict} (ready : Ready resource m)
    (own : (m.follows uninitialised).astray = false)
    (returned : m.lookup resource uninitialised sought fuel = .ok (verdict, reply, m')) :
    Outcome resource sought verdict reply := by
  obtain ⟨⟨opened, addr⟩, mapped, returned⟩ := bind_eq_ok returned
  obtain rfl := setUp_follows mapped
  obtain ⟨bytes, rfl, rfl⟩ := setUp_ready ready mapped
  exact search_outcome rfl own returned

/-- More rounds than the binary search of a call takes. -/
def rounds (resource : Option (List Byte)) (m : Mapped) : Nat :=
  (resource.getD []).length + m.numrec + 1

theorem setUp_ends {resource : Option (List Byte)} {m : Mapped} {uninitialised : Pointer} :
    (∃ status, setUp resource m uninitialised = .error (.exited status)) ∨
      ∃ m' addr, setUp resource m uninitialised = .ok (m', addr) ∧
        m'.numrec < m.rounds resource := by
  rw [setUp.eq_def, rounds]
  split
  · cases resource with
    | none => exact .inl ⟨1, rfl⟩
    | some bytes =>
        dsimp only
        split
        · exact .inl ⟨1, rfl⟩
        · have fewer := Nat.div_le_self bytes.length (WORD + TEXT)
          refine .inr ⟨_, _, rfl, ?_⟩
          rw [Option.getD_some]
          dsimp only
          omega
  · exact .inr ⟨m, uninitialised, rfl, by omega⟩

theorem deref_ends (m : Mapped) (addr : Pointer) (offset : Nat) :
    m.deref addr offset ≠ .error .outOfFuel := by
  cases addr with
  | mapping => simp [deref]
  | elsewhere memory =>
      rw [deref]
      split
      · simp
      · simp
  | nowhere => simp [deref]

theorem copyText_ends (sought : Dictrec) (text : List Byte) :
    sought.copyText text ≠ .error .outOfFuel := by
  unfold Dictrec.copyText Buffer.store
  split
  · simp
  · simp

/-- **A call ends** within that many rounds: it returns, faults or exits. -/
theorem lookup_ends {resource : Option (List Byte)} {m : Mapped} {uninitialised : Pointer}
    {sought : Dictrec} :
    m.lookup resource uninitialised sought (m.rounds resource) ≠ .error .outOfFuel := by
  rcases @setUp_ends resource m uninitialised with ⟨status, exits⟩ | ⟨m', addr, opened, enough⟩
  · rw [lookup, exits]
    exact fun same => nomatch same
  · rw [lookup, opened, ok_bind]
    have compares : ∀ idx, m'.dictCmp addr sought idx ≠ .error .outOfFuel := fun idx =>
      bind_ne_error (deref_ends _ _ _) fun _ _ same => nomatch same
    refine bind_ne_error (bsearch_ends compares enough) fun found _ => ?_
    cases found with
    | some idx =>
        refine bind_ne_error (deref_ends _ _ _) fun text _ => ?_
        exact bind_ne_error (copyText_ends _ _) fun _ _ same => nomatch same
    | none => exact bind_ne_error (copyText_ends _ _) fun _ _ same => nomatch same

/-- All calls of a session answer their queries. Every call has its own query and its own
value of the unassigned pointer. -/
def Session (records : List Dictrec) : Mapped → List (Pointer × Dictrec) → Prop
  | _, [] => True
  | m, (uninitialised, sought) :: rest =>
    ∃ verdict sought' m',
      Returns (lookup (some (file records)) m uninitialised sought) (verdict, sought', m') ∧
        Answers records sought verdict sought' ∧ Session records m' rest

/-- Behind the first call, the sessions are correct in which the unassigned pointer happens to
hold the address of the mapping every time. -/
theorem session_mapping {records : List Dictrec} (table : InOrder records)
    (calls : List (Pointer × Dictrec)) (held : ∀ call ∈ calls, call.1 = .mapping) :
    Session records (started records) calls := by
  induction calls with
  | nil => trivial
  | cons call rest ih =>
      obtain ⟨uninitialised, sought⟩ := call
      obtain ⟨rfl, later⟩ := List.forall_mem_cons.mp held
      obtain ⟨verdict, sought', searched, answers⟩ := search_mapping table sought
      exact ⟨verdict, sought', _, searched, answers, ih later⟩

/-- Behind the first call, none is correct whose pointer leads to no object. -/
theorem not_session_nowhere {records : List Dictrec} (nonempty : records ≠ []) (sought : Dictrec)
    (rest : List (Pointer × Dictrec)) :
    ¬ Session records (started records) ((.nowhere, sought) :: rest) := by
  rintro ⟨verdict, sought', m', ⟨bound, returned⟩, -, -⟩
  obtain ⟨fault, faulted⟩ := search_nowhere nonempty sought bound
  have searched := returned bound (Nat.le_refl _)
  rw [lookup_started, faulted] at searched
  cases searched

/-- The first call is correct with every value of the unassigned pointer. -/
theorem session_start_iff {records : List Dictrec} (table : InOrder records)
    (call : Pointer × Dictrec) (rest : List (Pointer × Dictrec)) :
    Session records start (call :: rest) ↔ Session records (started records) rest := by
  obtain ⟨uninitialised, sought⟩ := call
  obtain ⟨verdict, sought', searched, answers⟩ := search_mapping table sought
  rw [Session, lookup_start table.nonempty]
  constructor
  · rintro ⟨_, _, m', returned, -, later⟩
    cases returned.unique searched
    exact later
  · intro later
    exact ⟨verdict, sought', _, searched, answers, later⟩

/-- **Sessions of the mapped lookup.** A session answers all its queries, whatever the
unassigned pointer holds in each call, exactly when it has at most one call. -/
theorem session_iff {records : List Dictrec} (table : InOrder records) (queries : List Dictrec) :
    (∀ stale : List Pointer, stale.length = queries.length →
      Session records start (stale.zip queries)) ↔ queries.length ≤ 1 := by
  constructor
  · intro correct
    rcases queries with _ | ⟨first, _ | ⟨second, rest⟩⟩
    · exact Nat.zero_le 1
    · exact Nat.le_refl 1
    · have stale := correct (List.replicate (rest.length + 2) .nowhere) List.length_replicate
      rw [List.replicate_succ, List.replicate_succ, List.zip_cons_cons, List.zip_cons_cons,
        session_start_iff table] at stale
      exact absurd stale (not_session_nowhere table.nonempty _ _)
  · intro short stale same
    rcases queries with _ | ⟨first, _ | ⟨second, rest⟩⟩
    · rw [List.zip_nil_right]
      trivial
    · obtain ⟨held, rfl⟩ := List.length_eq_one_iff.mp same
      rw [List.zip_cons_cons, session_start_iff table, List.zip_nil_right]
      trivial
    · exact absurd short (by simp)

/-- A table of two records. -/
def tinyTable : List Dictrec := [.ofString _ [97], .ofString _ [98]]

theorem tinyTable_inOrder : InOrder tinyTable where
  nonempty := by decide
  terminated := by decide
  increasing := by decide

/-- Two queries to the table of two records. -/
theorem session_iff_tiny :
    (∀ stale : List Pointer, stale.length = tinyTable.length →
      Session tinyTable start (stale.zip tinyTable)) ↔ tinyTable.length ≤ 1 :=
  session_iff tinyTable_inOrder tinyTable

/-- The second of two calls fails when the unassigned pointer holds no address. -/
theorem not_session_tiny :
    InOrder tinyTable ∧
      ¬ Session tinyTable start
        [(.nowhere, .ofString _ [97]), (.nowhere, .ofString _ [98])] := by
  refine ⟨tinyTable_inOrder, fun correct => ?_⟩
  rw [session_start_iff tinyTable_inOrder] at correct
  exact not_session_nowhere tinyTable_inOrder.nonempty _ _ correct

-- A later call takes other memory for the records and finds what the file does not have.
example : (((started tinyTable).lookup none (.elsewhere (file [.ofString _ [97],
    .ofString _ [120]])) (.ofString _ [120]) 3).toOption.map fun result => result.1) =
      some Verdict.found := by
  decide +kernel

end Mapped

end LinuxExercises.Dictionary
