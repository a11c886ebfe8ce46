import LinuxExercises.Dictionary.RoundTrip
import LinuxExercises.Foundations.Formatting
import LinuxExercises.Foundations.Lines

/-!
# A conversation with the dictionary

`main` of SP_HW5 asks for a word, reads a line with `gets` into the record, looks the word up and
prints what has been found, round after round. It does not look at what `gets` returns. At the end
of its input the record still holds the word of the round before, and so `main` goes on to answer
the last question for ever.

What it prints is determined by the dictionary and the lines (`transcript_of_convert`): for a word
of the dictionary its definition, for a proper part of the last word the definition of that word,
and for anything else that it has not been found.
-/

set_option autoImplicit false

namespace LinuxExercises.Dictionary

open Foundations

/-! ## The code -/

/-- The variables of `main` and of `lookup`, and what has been printed. -/
structure Conversation where
  stdin : Stream
  inp : Option Stream
  tryit : Dictrec
  stdout : List Byte

namespace Conversation

/-- `main` is about to begin, with anything in its record. -/
def start (tryit : Dictrec) (input : List Byte) : Conversation where
  stdin := .fopen input
  inp := none
  tryit := tryit
  stdout := []

/-- The question. -/
def prompt : List Byte := literal "What word do you want : "

/-- What is printed for a verdict. `DIE` ends the program. -/
def report (verdict : Verdict) (tryit : Dictrec) : Except Fault (List Byte) :=
  match verdict with
  | .found => .ok (cstr tryit.word ++ literal " : " ++ cstr tryit.text ++ [newline])
  | .notFound => .ok (cstr tryit.word ++ literal " : Not Found!\n")
  | .unavail => .error (.exited 1)

/-- One round of the loop of `main`, with the record on the stack of `lookup`. -/
def round (resource : Option (List Byte)) (stack : Dictrec) (fuel : Nat) (c : Conversation) :
    Except Fault Conversation := do
  let (_, tryit, stdin) ← c.stdin.gets c.tryit
  let (verdict, tryit, inp) ← lookup resource c.inp stack tryit fuel
  let answer ← report verdict tryit
  .ok ⟨stdin, inp, tryit, c.stdout ++ (prompt ++ answer)⟩

/-- The first `n` rounds of `while (1)`. -/
def rounds (resource : Option (List Byte)) (stack : Nat → Dictrec) (fuel : Nat)
    (c : Conversation) : Nat → Except Fault Conversation
  | 0 => .ok c
  | n + 1 => do
    let c ← rounds resource stack fuel c n
    round resource (stack n) fuel c

end Conversation

/-! ## What a call leaves of the word -/

theorem answer_word {inp inp' : Stream} {dr sought sought' : Dictrec} {verdict : Verdict}
    (answered : answer inp dr sought = .ok (verdict, sought', inp')) :
    sought'.bytes.take WORD = sought.bytes.take WORD := by
  obtain ⟨dr', -, answered⟩ := bind_eq_ok answered
  obtain ⟨result, copied, answered⟩ := bind_eq_ok answered
  cases answered
  exact (Dictrec.copyText_spec sought copied).1

/-- The loop does not touch the word field of the caller's record. -/
theorem scan_word :
    ∀ (fuel : Nat) {inp inp' : Stream} {dr sought sought' : Dictrec} {verdict : Verdict},
      scan fuel inp dr sought = .ok (verdict, sought', inp') →
      sought'.bytes.take WORD = sought.bytes.take WORD := by
  intro fuel
  induction fuel with
  | zero =>
      intro inp inp' dr sought sought' verdict scanned
      cases scanned
  | succ fuel ih =>
      intro inp inp' dr sought sought' verdict scanned
      rw [scan] at scanned
      split at scanned
      · cases scanned
        rfl
      · obtain ⟨⟨returned₁, dr₁, inp₁⟩, -, scanned⟩ := bind_eq_ok scanned
        simp only at scanned
        split at scanned
        · cases scanned
          rfl
        · obtain ⟨⟨returned₂, dr₂, inp₂⟩, -, scanned⟩ := bind_eq_ok scanned
          obtain ⟨dr₃, -, scanned⟩ := bind_eq_ok scanned
          simp only at scanned
          split at scanned
          · exact answer_word scanned
          · exact ih scanned

theorem lookup_word {resource : Option (List Byte)} {inp inp' : Option Stream}
    {dr sought sought' : Dictrec} {verdict : Verdict}
    (returned : Returns (lookup resource inp dr sought) (verdict, sought', inp')) :
    sought'.bytes.take WORD = sought.bytes.take WORD := by
  obtain ⟨bound, returned⟩ := returned
  obtain ⟨opened, -, returned⟩ := bind_eq_ok (returned bound (Nat.le_refl _))
  obtain ⟨⟨verdict', sought'', scanned⟩, ran, returned⟩ := bind_eq_ok returned
  cases returned
  exact scan_word bound ran

/-- A word that ends within its field is the same string when the field is. -/
theorem cstr_word_of_take {r r' : Dictrec} (same : r'.bytes.take WORD = r.bytes.take WORD)
    (short : (cstr r.word).length < WORD) : cstr r'.word = cstr r.word := by
  have inside : 0 ∈ r.bytes.take WORD := by
    refine zero_mem_take short ?_
    rw [r.size_eq]
    decide
  rw [Dictrec.word, Dictrec.word, ← List.take_append_drop WORD r'.bytes,
    ← List.take_append_drop WORD r.bytes, cstr_append_of_mem _ (same ▸ inside),
    cstr_append_of_mem _ inside, same]

/-! ## One question -/

namespace Conversation

/-- The answer of a dictionary to a query: the definition of its first entry with this word, or of
its last one when the query is a proper part of that word. -/
def reply (entries : List Entry) (last : Entry) (query : List Byte) : List Byte :=
  match entries.find? fun e => e.word == query with
  | some e => query ++ literal " : " ++ e.definition ++ [newline]
  | none =>
    if query ≠ [] ∧ query.isPrefixOf last.word then
      query ++ literal " : " ++ last.definition ++ [newline]
    else query ++ literal " : Not Found!\n"

/-- What is found is printed behind the query. -/
theorem report_found {sought sought' : Dictrec} {definition : List Byte}
    (same : sought'.bytes.take WORD = sought.bytes.take WORD)
    (short : (cstr sought.word).length < WORD) (copy : cstr sought'.text = definition) :
    cstr sought'.word = cstr sought.word ∧ report .found sought' =
      .ok (cstr sought.word ++ literal " : " ++ definition ++ [newline]) := by
  have word := cstr_word_of_take same short
  exact ⟨word, by rw [report, word, copy]⟩

/-- **A call and what is printed of it.** -/
theorem lookup_reply {entries : List Entry} {e : Entry} (fits : ∀ f ∈ entries ++ [e], f.Fits)
    {inp : Option Stream} (called : Called (recordFile (entries ++ [e])) inp)
    (dr sought : Dictrec) :
    ∃ verdict sought' inp',
      Returns (lookup (some (recordFile (entries ++ [e]))) inp dr sought)
        (verdict, sought', inp') ∧ cstr sought'.word = cstr sought.word ∧
      report verdict sought' = .ok (reply (entries ++ [e]) e (cstr sought.word)) := by
  rw [reply]
  cases search : (entries ++ [e]).find? fun f => f.word == cstr sought.word with
  | some f =>
      obtain ⟨isWord, before, after, split, notBefore⟩ := List.find?_eq_some_iff_append.mp search
      have present : f.word = cstr sought.word := by simpa using isWord
      have absent : ∀ g ∈ before, g.word ≠ cstr sought.word := by
        intro g member
        simpa using notBefore g member
      have short := (fits f (split ▸ List.mem_append_right _ (List.mem_cons_self ..))).word_le
      rw [split] at fits called ⊢
      obtain ⟨sought', inp', returned, copy⟩ := lookup_recordFile fits absent present called dr
      have field : (cstr sought.word).length < WORD := by
        rw [← present]
        exact Nat.lt_of_le_of_lt short (by decide)
      obtain ⟨word, printed⟩ := report_found (lookup_word returned) field copy
      exact ⟨_, sought', inp', returned, word, printed⟩
  | none =>
      have absent : ∀ f ∈ entries ++ [e], f.word ≠ cstr sought.word := by
        intro f member
        simpa using List.find?_eq_none.mp search f member
      have last : e ∈ entries ++ [e] := List.mem_append_right _ (List.mem_singleton_self e)
      by_cases part : cstr sought.word ≠ [] ∧ (cstr sought.word).isPrefixOf e.word
      · dsimp only
        rw [if_pos part]
        have front := List.isPrefixOf_iff_prefix.mp part.2
        obtain ⟨sought', inp', returned, copy⟩ := lookup_properPart fits absent
          ⟨part.1, front, (absent e last).symm⟩ called dr
        have field : (cstr sought.word).length < WORD :=
          Nat.lt_of_le_of_lt (front.length_le.trans (fits e last).word_le) (by decide)
        obtain ⟨word, printed⟩ := report_found (lookup_word returned) field copy
        exact ⟨_, sought', inp', returned, word, printed⟩
      · dsimp only
        rw [if_neg part]
        obtain ⟨sought', inp', returned, text⟩ := reportsAbsent_of_not_part fits absent
          (fun proper => part ⟨proper.1, List.isPrefixOf_iff_prefix.mpr proper.2.1⟩) inp called dr
        have same : sought' = sought := by
          refine Buffer.ext ?_
          have behind : sought'.bytes.drop WORD = sought.bytes.drop WORD := text
          rw [← List.take_append_drop WORD sought'.bytes, lookup_word returned, behind,
            List.take_append_drop]
        subst same
        exact ⟨_, sought', inp', returned, rfl, rfl⟩

/-! ## The conversation -/

/-- The question of a round: a line of the input, and the last line again when there are no more. -/
def question (input : List Byte) (i : Nat) : List Byte :=
  cstr (chomp ((lines input).getD (min i ((lines input).length - 1)) []))

/-- What the record holds once `gets` has returned in the state `c`. -/
def asked (c : Conversation) : List Byte :=
  match lines c.stdin.rest with
  | [] => cstr c.tryit.word
  | line :: _ => cstr (chomp line)

/-- The read of a round, with a line left or without. -/
theorem gets_asked {c : Conversation}
    (short : ∀ line ∈ lines c.stdin.rest, (chomp line).length < WORD + TEXT) :
    ∃ returned tryit stdin, c.stdin.gets c.tryit = .ok (returned, tryit, stdin) ∧
      cstr (Dictrec.word tryit) = c.asked ∧
      lines (Stream.rest stdin) = (lines c.stdin.rest).tail := by
  cases left : lines c.stdin.rest with
  | nil => exact ⟨_, _, _, Stream.gets_at_end left, by rw [asked, left], left⟩
  | cons line later =>
      have fits := short line (left ▸ List.mem_cons_self ..)
      obtain ⟨tryit, stdin, read, word, rest⟩ := Stream.gets_line left fits
      exact ⟨_, tryit, stdin, read, by rw [asked, left]; exact word, rest⟩

/-- **The step lemma.** A round answers one question, and its record holds that question. -/
theorem round_reply {entries : List Entry} {e : Entry} (fits : ∀ f ∈ entries ++ [e], f.Fits)
    {c : Conversation} (called : Called (recordFile (entries ++ [e])) c.inp)
    (short : ∀ line ∈ lines c.stdin.rest, (chomp line).length < WORD + TEXT) (stack : Dictrec) :
    ∃ c' : Conversation,
      Returns (fun fuel => round (some (recordFile (entries ++ [e]))) stack fuel c) c' ∧
      Called (recordFile (entries ++ [e])) c'.inp ∧ cstr c'.tryit.word = c.asked ∧
      lines c'.stdin.rest = (lines c.stdin.rest).tail ∧
      c'.stdout = c.stdout ++ (prompt ++ reply (entries ++ [e]) e c.asked) := by
  obtain ⟨_, tryit, stdin, read, word, rest⟩ := gets_asked short
  obtain ⟨verdict, tryit', inp', returned, kept, printed⟩ := lookup_reply fits called stack tryit
  rw [word] at kept printed
  refine ⟨⟨stdin, inp', tryit', c.stdout ++ (prompt ++ reply (entries ++ [e]) e c.asked)⟩, ?_,
    .call called returned, kept, rest, rfl⟩
  simp only [round, read, ok_bind]
  refine returned.bind ?_
  simp only [printed, ok_bind]
  exact .of_ok

/-- The state of a conversation after `n` rounds, given the lines of its input. -/
structure After (file input : List Byte) (n : Nat) (c : Conversation) : Prop where
  called : Called file c.inp
  lines_left : lines c.stdin.rest = (lines input).drop n
  last_word : n ≠ 0 → cstr c.tryit.word = question input (n - 1)

theorem asked_of_after {file input : List Byte} {n : Nat} {c : Conversation}
    (after : After file input n c) (more : input ≠ []) : c.asked = question input n := by
  have some : 0 < (lines input).length :=
    List.length_pos_iff.mpr (lines_eq_nil_iff.not.mpr more)
  rw [asked, after.lines_left]
  by_cases inside : n < (lines input).length
  · rw [List.drop_eq_getElem_cons inside, question, Nat.min_eq_left (by omega),
      List.getD_eq_getElem?_getD,
      List.getElem?_eq_getElem inside, Option.getD_some]
  · rw [List.drop_eq_nil_of_le (by omega)]
    dsimp only
    rw [after.last_word (by omega), question, question, Nat.min_eq_right (by omega),
      Nat.min_eq_right (by omega)]

/-- The run lemma: the rounds up to any number return, and the state they lead to. -/
theorem rounds_after {entries : List Entry} {e : Entry} (fits : ∀ f ∈ entries ++ [e], f.Fits)
    {input : List Byte} (more : input ≠ [])
    (short : ∀ line ∈ lines input, (chomp line).length < WORD + TEXT) (tryit : Dictrec)
    (stack : Nat → Dictrec) (n : Nat) :
    ∃ c : Conversation,
      Returns (fun fuel => rounds (some (recordFile (entries ++ [e]))) stack fuel
        (start tryit input) n) c ∧
      After (recordFile (entries ++ [e])) input n c ∧
      c.stdout = (List.range n).flatMap fun i =>
        prompt ++ reply (entries ++ [e]) e (question input i) := by
  induction n with
  | zero =>
      refine ⟨start tryit input, .of_ok, ⟨.start, ?_, fun none => absurd rfl none⟩, rfl⟩
      rw [List.drop_zero]
      rfl
  | succ n ih =>
      obtain ⟨c, returned, after, printed⟩ := ih
      have question := asked_of_after after more
      have shortLeft : ∀ line ∈ lines c.stdin.rest, (chomp line).length < WORD + TEXT := by
        intro line member
        rw [after.lines_left] at member
        exact short line (List.mem_of_mem_drop member)
      obtain ⟨c', next, called, word, left, stdout⟩ :=
        round_reply fits after.called shortLeft (stack n)
      rw [question] at word stdout
      refine ⟨c', returned.bind next, ⟨called, ?_, fun _ => word⟩, ?_⟩
      · rw [left, after.lines_left, List.tail_drop]
      · rw [stdout, printed, List.range_succ, List.flatMap_append, List.flatMap_singleton]

/-- **Main.** `convert` writes a dictionary file on which every number of rounds of `main` returns,
and what has been printed by then is a prompt and the dictionary's answer for one line of the input
after the other, and then for the last line over and over. -/
theorem transcript_of_convert (uninitialised : Buffer BIGLINE) {entries : List Entry}
    (nonempty : entries ≠ []) (fits : ∀ e ∈ entries, e.Fits) {input : List Byte}
    (more : input ≠ []) (short : ∀ line ∈ lines input, (chomp line).length < WORD + TEXT) :
    ∃ file, Returns (Converter.convert uninitialised (sourceFile entries)) file ∧
      ∀ (tryit : Dictrec) (stack : Nat → Dictrec) (n : Nat), ∃ c : Conversation,
        Returns (fun fuel => rounds (some file) stack fuel (start tryit input) n) c ∧
        c.stdout = (List.range n).flatMap fun i =>
          prompt ++ reply entries (entries.getLast nonempty) (question input i) := by
  refine ⟨recordFile entries, Converter.convert_sourceFile uninitialised nonempty fits, ?_⟩
  intro tryit stack n
  have split := List.dropLast_concat_getLast nonempty
  generalize entries.getLast nonempty = last at split ⊢
  generalize entries.dropLast = init at split
  subst split
  obtain ⟨c, returned, -, printed⟩ := rounds_after fits more short tryit stack n
  exact ⟨c, returned, printed⟩

/-- The two-entry dictionary, asked for `b` once. -/
theorem transcript_of_convert_tiny :
    ∃ file, Returns (Converter.convert (.ofString _ []) (sourceFile tinyDictionary)) file ∧
      ∀ (tryit : Dictrec) (stack : Nat → Dictrec) (n : Nat), ∃ c : Conversation,
        Returns (fun fuel => rounds (some file) stack fuel (start tryit [98, newline]) n) c ∧
        c.stdout = (List.range n).flatMap fun i =>
          prompt ++ reply tinyDictionary (tinyDictionary.getLast (by decide))
            (question [98, newline] i) :=
  transcript_of_convert (.ofString _ []) (by decide) tinyDictionary_fits (by decide) (by decide)

end Conversation

end LinuxExercises.Dictionary
