import LinuxExercises.ProcScan.TokenLoop

/-!
# What the token loops read from a status text

The kernel writes the status of a process in lines `Key:<tab>value`. The name of the process
comes first. The process chooses it, and only a newline and a NUL cannot be in it. Spaces,
parentheses and colons can, and the token loops take them for delimiters. So a name may have
words in it that are keys.

For `draw_pid_tree` and for `process_list` this file says which names do harm
(`reads_iff`). A loop ends behind the first word that is its last key. When the name has that
word, the loop never gets to the lines of the kernel, and it is right only if the name says
what the lines say. When it has not, the lines are read, as long as they fit in the array.
-/

set_option autoImplicit false

namespace LinuxExercises.ProcScan

open Foundations

/-- The state of a process. -/
inductive ProcState where
  | running
  | sleeping
  | diskSleep
  | stopped
  | tracingStop
  | dead
  | zombie
  | parked
  | idle
deriving Repr, DecidableEq

/-- How the kernel writes a state. -/
def ProcState.text : ProcState → List Byte
  | .running => literal "R (running)"
  | .sleeping => literal "S (sleeping)"
  | .diskSleep => literal "D (disk sleep)"
  | .stopped => literal "T (stopped)"
  | .tracingStop => literal "t (tracing stop)"
  | .dead => literal "X (dead)"
  | .zombie => literal "Z (zombie)"
  | .parked => literal "P (parked)"
  | .idle => literal "I (idle)"

/-- What the kernel writes of a process. Behind the first user id it goes on in any way. -/
structure Status where
  name : List Byte
  umask : List Byte
  state : ProcState
  tgid : Nat
  ngid : Nat
  pid : Nat
  parentid : Nat
  tracerPid : Nat
  uid : Nat
  rest : List Byte
  name_ne : name ≠ []
  name_clean : ∀ b ∈ name, b ≠ 0 ∧ b ≠ 10
  umask_digits : ∀ b ∈ umask, isDigit b = true

/-- A line of the text. -/
def field (key : String) (value : List Byte) : List Byte :=
  literal key ++ 58 :: 9 :: (value ++ [10])

namespace Status

variable (s : Status)

/-- The lines between the name and the parent. -/
def lines : List Byte :=
  field "Umask" s.umask ++ (field "State" s.state.text ++ (field "Tgid" (decimal s.tgid) ++
    (field "Ngid" (decimal s.ngid) ++ field "Pid" (decimal s.pid))))

/-- The text up to the line of the parent. -/
def parentPart : List Byte :=
  field "Name" s.name ++ (s.lines ++ field "PPid" (decimal s.parentid))

/-- The text up to the first user id and the tab behind it. -/
def userPart : List Byte :=
  s.parentPart ++ (field "TracerPid" (decimal s.tracerPid) ++
    (literal "Uid:\t" ++ (decimal s.uid ++ [9])))

/-- The text of `/proc/<pid>/status`. -/
def text : List Byte := s.userPart ++ s.rest

/-- The words of the name that are ended in the array. All of them are, unless the name alone
fills it. -/
def seen : List (List Byte) :=
  endedWords isDelim ((s.name ++ [10]).take (MAX - 6))

/-- Whatever process came before, `draw_pid_tree` reads the ids of the process and of its
parent. -/
def ReadsParent : Prop :=
  ∀ before : Reader, ∃ after, Returns (before.parse drawKeys s.text) after ∧
    after.string .pid = some (decimal s.pid) ∧
    after.string .parentid = some (decimal s.parentid)

/-- Whatever process came before, `process_list` reads the user id. -/
def ReadsUser : Prop :=
  ∀ before : Reader, ∃ after, Returns (before.parse listKeys s.text) after ∧
    after.string .uid = some (decimal s.uid)

/-- The name has no word `PPid` and the lines fit in the array, or the name says itself what
the lines say. -/
def TrueParent : Prop :=
  (literal "PPid" ∉ wordsOf isDelim s.name ∧ s.parentPart.length ≤ MAX) ∨
    ∃ front between back, s.seen = front ++ literal "Pid" :: decimal s.pid ::
        (between ++ literal "PPid" :: decimal s.parentid :: back) ∧
      literal "PPid" ∉ front ++ between ∧ literal "Pid" ∉ between

/-- The name has no word `Uid` and the lines fit in the array, or the name says itself what
the line says. -/
def TrueUser : Prop :=
  (literal "Uid" ∉ wordsOf isDelim s.name ∧ s.userPart.length ≤ MAX) ∨
    ∃ front back, s.seen = front ++ literal "Uid" :: decimal s.uid :: back ∧
      literal "Uid" ∉ front

end Status

/-! ## Words of the lines -/

section Words

variable {key : String} {value : List Byte}

/-- A key is a word. -/
structure IsKey (key : String) : Prop where
  nonempty : literal key ≠ []
  clean : ∀ c ∈ literal key, isDelim c = false

instance (key : String) : Decidable (IsKey key) :=
  decidable_of_iff (literal key ≠ [] ∧ ((literal key).all fun c => !isDelim c) = true)
    ⟨fun ⟨nonempty, clean⟩ => ⟨nonempty, by simpa using clean⟩,
      fun isKey => ⟨isKey.nonempty, by simpa using isKey.clean⟩⟩

theorem wordsOf_field (isKey : IsKey key) (value rest : List Byte) :
    wordsOf isDelim (field key value ++ rest) =
      literal key :: (wordsOf isDelim value ++ wordsOf isDelim rest) := by
  have split : field key value ++ rest =
      literal key ++ 58 :: ([] ++ 9 :: (value ++ 10 :: rest)) := by
    simp [field]
  rw [split, wordsOf_append_cons _ (by decide), wordsOf_append_cons _ (by decide),
    wordsOf_append_cons _ (by decide), wordsOf_run isKey.nonempty isKey.clean, wordsOf_nil]
  rfl

theorem isDelim_of_isDigit {b : Byte} (isOne : isDigit b = true) : isDelim b = false := by
  obtain ⟨lower, upper⟩ := bounds_of_isDigit isOne
  have ne : ∀ d : Byte, (d.toNat < 48 ∨ 57 < d.toNat) → b ≠ d := by
    rintro d other rfl
    omega
  simp [isDelim, ne 32 (by decide), ne 9 (by decide), ne 10 (by decide), ne 40 (by decide),
    ne 41 (by decide), ne 58 (by decide)]

/-- Of digits no word is a key. -/
theorem not_mem_of_digits {text word : List Byte} (areDigits : ∀ b ∈ text, isDigit b = true)
    (letter : ∃ b ∈ word, isDigit b = false) : word ∉ wordsOf isDelim text := by
  intro member
  obtain ⟨b, inside, notDigit⟩ := letter
  have isOne := areDigits b ((mem_wordsOf member).2 b inside).1
  rw [notDigit] at isOne
  cases isOne

theorem ne_decimal {word : List Byte} (letter : ∃ b ∈ word, isDigit b = false) (n : Nat) :
    word ≠ decimal n := by
  rintro rfl
  obtain ⟨b, inside, notDigit⟩ := letter
  rw [isDigit_of_mem_decimal inside] at notDigit
  cases notDigit

theorem isDelim_of_mem_decimal (n : Nat) : ∀ b ∈ decimal n, isDelim b = false :=
  fun _ member => isDelim_of_isDigit (isDigit_of_mem_decimal member)

theorem wordsOf_decimal (n : Nat) : wordsOf isDelim (decimal n) = [decimal n] :=
  wordsOf_run (decimal_ne n) (isDelim_of_mem_decimal n)

/-- A key splits a list of words in one way only, when it is to be the first. -/
theorem split_unique {α : Type*} {x : α} {front front' back back' : List α}
    (same : front ++ x :: back = front' ++ x :: back') (absent : x ∉ front)
    (absent' : x ∉ front') : front = front' ∧ back = back' := by
  induction front generalizing front' with
  | nil =>
      cases front' with
      | nil => exact ⟨rfl, (List.cons.inj same).2⟩
      | cons y front' =>
          obtain rfl := (List.cons.inj same).1
          exact absurd (List.mem_cons_self ..) absent'
  | cons y front ih =>
      cases front' with
      | nil =>
          obtain rfl := (List.cons.inj same).1
          exact absurd (List.mem_cons_self ..) absent
      | cons z front' =>
          rw [List.cons_append, List.cons_append] at same
          obtain ⟨rfl, tails⟩ := List.cons.inj same
          have apart : x ∉ front := fun member => absent (List.mem_cons_of_mem _ member)
          have apart' : x ∉ front' := fun member => absent' (List.mem_cons_of_mem _ member)
          obtain ⟨rfl, rfl⟩ := ih tails apart apart'
          exact ⟨rfl, rfl⟩

/-- The last place of a key. -/
theorem split_last {α : Type*} {x : α} {words : List α} (member : x ∈ words) :
    ∃ front back, words = front ++ x :: back ∧ x ∉ back := by
  obtain ⟨back, front, reversed, absent⟩ :=
    List.eq_append_cons_of_mem (List.mem_reverse.mpr member)
  refine ⟨front.reverse, back.reverse, ?_, by simpa using absent⟩
  rw [← List.reverse_reverse words, reversed]
  simp

/-- Where the first key of a text is: behind the name, or in what is seen of it. -/
theorem firstKey_iff {first key value other : List Byte}
    {words seen behind front : List (List Byte)} {Q : List (List Byte) → Prop} {fits : Prop}
    (notFirst : key ≠ first) (absent : key ∉ other :: front) (notOther : value ≠ other)
    (inside : fits → seen = words ∧ behind = (other :: front) ++ [key, value])
    (outside : ¬ fits → behind <+: (other :: front) ++ [key]) :
    (∃ before back, first :: (seen ++ behind) = before ++ key :: value :: back ∧ key ∉ before ∧
        Q before) ↔
      (key ∉ words ∧ fits ∧ Q (first :: (words ++ other :: front))) ∨
        ∃ before back, seen = before ++ key :: value :: back ∧ key ∉ before ∧
          Q (first :: before) := by
  constructor
  · rintro ⟨before, back, split, absentBefore, holds⟩
    by_cases member : key ∈ seen
    · obtain ⟨early, late, rfl, absentEarly⟩ := List.eq_append_cons_of_mem member
      rw [List.append_assoc, ← List.cons_append, List.cons_append] at split
      have apart : key ∉ first :: early := by simp [notFirst, absentEarly]
      obtain ⟨rfl, next⟩ := split_unique split apart absentBefore
      cases late with
      | nil =>
          -- the word behind the name is the key of the next line
          have starts : behind <+: other :: (front ++ [key, value]) := by
            by_cases fit : fits
            · refine ⟨[], ?_⟩
              rw [(inside fit).2, List.append_nil, List.cons_append]
            · refine (outside fit).trans ⟨[value], ?_⟩
              simp
          have next : behind = value :: back := next
          rw [next, List.cons_prefix_cons] at starts
          exact absurd starts.1 notOther
      | cons word late =>
          obtain ⟨rfl, -⟩ := List.cons.inj next
          exact .inr ⟨early, late, rfl, absentEarly, holds⟩
    · have absentSeen : ∀ front', key ∉ front' → key ∉ first :: (seen ++ front') := by
        intro front' clear
        simp [notFirst, member, clear]
      have fit : fits := by
        by_contra not
        obtain ⟨more, whole⟩ := outside not
        have split' : (first :: (seen ++ other :: front)) ++ key :: [] =
            before ++ key :: (value :: (back ++ more)) := by
          have longer := congrArg (fun words => words ++ more) split
          simp only [List.cons_append, List.append_assoc, whole] at longer
          simpa using longer
        cases (split_unique split' (absentSeen _ absent) absentBefore).2
      obtain ⟨rfl, rfl⟩ := inside fit
      rw [← List.append_assoc, ← List.cons_append] at split
      obtain ⟨rfl, -⟩ := split_unique split (absentSeen _ absent) absentBefore
      exact .inl ⟨member, fit, holds⟩
  · rintro (⟨absentWords, fit, holds⟩ | ⟨before, back, rfl, absentBefore, holds⟩)
    · obtain ⟨rfl, rfl⟩ := inside fit
      refine ⟨_, [], ?_, ?_, holds⟩
      · rw [← List.append_assoc, ← List.cons_append]
      · simpa [notFirst, absentWords] using absent
    · refine ⟨first :: before, back ++ behind, ?_, by simp [notFirst, absentBefore], holds⟩
      simp only [List.append_assoc, List.cons_append]

end Words

/-! ## Words of the text -/

theorem IsKey.name : IsKey "Name" := by decide

namespace Status

variable (s : Status)

/-- The words of the array. -/
theorem endedWords_take_name (others : List Byte) :
    endedWords isDelim ((field "Name" s.name ++ others).take MAX) =
      literal "Name" ::
        (s.seen ++ endedWords isDelim (others.take (MAX - (s.name.length + 7)))) := by
  have split : (field "Name" s.name ++ others).take MAX = literal "Name" ++ 58 :: ([] ++ 9 ::
      ((s.name ++ [10]).take (MAX - 6) ++ others.take (MAX - (s.name.length + 7)))) := by
    have key : literal "Name" ++ 58 :: ([] ++ [9]) = literal "Name:\t" := rfl
    have whole : field "Name" s.name ++ others =
        literal "Name:\t" ++ ((s.name ++ [10]) ++ others) := by
      rw [← key]
      simp [field]
    have size : (literal "Name:\t").length = 6 := rfl
    rw [whole, List.take_append, List.take_of_length_le (by rw [size]; decide), size,
      List.take_append, List.length_append, List.length_singleton, ← key]
    have less : MAX - 6 - (s.name.length + 1) = MAX - (s.name.length + 7) := by omega
    rw [less]
    simp
  rw [split, endedWords_append_cons _ (by decide), endedWords_append_cons _ (by decide),
    wordsOf_run IsKey.name.nonempty IsKey.name.clean, wordsOf_nil, List.singleton_append,
    List.nil_append, seen]
  by_cases room : (s.name ++ [10]).length ≤ MAX - 6
  · rw [List.take_of_length_le room, endedWords_concat _ (by decide), List.append_assoc,
      List.singleton_append, endedWords_append_cons _ (by decide)]
  · have none : MAX - (s.name.length + 7) = 0 := by
      rw [List.length_append, List.length_singleton] at room
      omega
    have empty : endedWords isDelim [] = [] := rfl
    rw [none, List.take_zero, List.append_nil, empty, List.append_nil]

theorem length_field (key : String) (value : List Byte) :
    (field key value).length = (literal key).length + value.length + 3 := by
  simp only [field, List.length_append, List.length_cons, List.length_nil]
  omega

section Part

variable {text token : List Byte} {d : Byte}

/-- When a part of the text fits, all of its words are in the array. -/
theorem part_inside (delim : isDelim d = true) (nonempty : token ≠ [])
    (clean : ∀ c ∈ token, isDelim c = false)
    (fits : (field "Name" s.name ++ (text ++ 9 :: (token ++ [d]))).length ≤ MAX) :
    s.seen = wordsOf isDelim s.name ∧
      endedWords isDelim ((text ++ 9 :: (token ++ [d])).take (MAX - (s.name.length + 7))) =
        wordsOf isDelim text ++ [token] := by
  have size : (literal "Name").length = 4 := rfl
  rw [List.length_append, length_field, size] at fits
  constructor
  · rw [seen, List.take_of_length_le, endedWords_concat _ (by decide)]
    rw [List.length_append, List.length_singleton]
    omega
  · rw [List.take_of_length_le (by omega), endedWords_append_cons _ (by decide),
      endedWords_concat _ delim, wordsOf_run nonempty clean]

/-- Otherwise its last word is not. -/
theorem part_outside (clean : ∀ c ∈ token, isDelim c = false)
    (tooLong : ¬ (field "Name" s.name ++ (text ++ 9 :: (token ++ [d]))).length ≤ MAX) :
    endedWords isDelim ((text ++ 9 :: (token ++ [d])).take (MAX - (s.name.length + 7))) <+:
      wordsOf isDelim text := by
  have size : (literal "Name").length = 4 := rfl
  have some : 0 < (text ++ 9 :: (token ++ [d])).length := List.length_pos_iff.mpr (by simp)
  rw [List.length_append, length_field, size] at tooLong
  refine endedWords_take (by decide) clean ?_
  omega

/-- When the key in front of the last word is not in the array with a word behind it, the part
does not fit. -/
theorem part_full {key : List Byte} {front : List (List Byte)} (delim : isDelim d = true)
    (nonempty : token ≠ []) (clean : ∀ c ∈ token, isDelim c = false)
    (words : wordsOf isDelim text = front ++ [key])
    (absent : key ∉ (literal "Name" :: (s.seen ++ endedWords isDelim
      ((text ++ 9 :: (token ++ [d])).take (MAX - (s.name.length + 7))))).dropLast) :
    MAX ≤ (field "Name" s.name ++ (text ++ 9 :: (token ++ [d]))).length := by
  by_contra fits
  obtain ⟨-, behind⟩ := s.part_inside delim nonempty clean (not_le.mp fits).le
  rw [behind, words, ← List.append_assoc, ← List.cons_append, List.dropLast_concat] at absent
  exact absent (by simp)

end Part

/-- The words of the lines in front of the parent. -/
def lineWords : List (List Byte) :=
  wordsOf isDelim s.umask ++ literal "State" :: (wordsOf isDelim s.state.text ++
    [literal "Tgid", decimal s.tgid, literal "Ngid", decimal s.ngid, literal "Pid"])

theorem wordsOf_lines (rest : List Byte) : wordsOf isDelim (s.lines ++ rest) =
    literal "Umask" :: (s.lineWords ++ decimal s.pid :: wordsOf isDelim rest) := by
  simp only [lines, List.append_assoc]
  rw [wordsOf_field (by decide), wordsOf_field (by decide),
    wordsOf_field (by decide), wordsOf_field (by decide),
    wordsOf_field (by decide), wordsOf_decimal, wordsOf_decimal, wordsOf_decimal,
    lineWords]
  simp only [List.append_assoc, List.cons_append, List.nil_append]

/-- No line in front of the parent has another word that looks like a key of interest. -/
theorem not_mem_lineWords {word : List Byte} (letter : ∃ b ∈ word, isDigit b = false)
    (inStates : ∀ state : ProcState, word ∉ wordsOf isDelim state.text)
    (others : word ∉ [literal "State", literal "Tgid", literal "Ngid", literal "Pid"]) :
    word ∉ s.lineWords := by
  have umask := not_mem_of_digits s.umask_digits letter
  have state := inStates s.state
  have tgid := ne_decimal letter s.tgid
  have ngid := ne_decimal letter s.ngid
  simp only [List.mem_cons, List.not_mem_nil, or_false, not_or] at others
  simp [lineWords, umask, state, tgid, ngid, others]

theorem not_mem_states {word : List Byte}
    (apart : ∀ state ∈ [ProcState.running, .sleeping, .diskSleep, .stopped, .tracingStop, .dead,
      .zombie, .parked, .idle], word ∉ wordsOf isDelim state.text) (state : ProcState) :
    word ∉ wordsOf isDelim state.text :=
  apart state (by cases state <;> decide)

theorem parent_not_mem : literal "PPid" ∉ s.lineWords :=
  s.not_mem_lineWords (by decide) (not_mem_states (by decide)) (by decide)

theorem user_not_mem : literal "Uid" ∉ s.lineWords :=
  s.not_mem_lineWords (by decide) (not_mem_states (by decide)) (by decide)

/-- The text has no NUL up to the user id. -/
theorem userPart_noZero : ∀ b ∈ s.userPart, b ≠ 0 := by
  have digit : ∀ {b : Byte}, isDigit b = true → b ≠ 0 := by
    rintro b isOne rfl
    cases isOne
  have text : ∀ state : ProcState, ∀ b ∈ state.text, b ≠ 0 := by
    intro state
    cases state <;> exact forall_of_all rfl
  have line : ∀ key value, (∀ b ∈ literal key, b ≠ 0) → (∀ b ∈ value, b ≠ 0) →
      ∀ b ∈ field key value, b ≠ 0 := by
    intro key value keyClean valueClean b member
    simp only [field, List.mem_append, List.mem_cons, List.not_mem_nil, or_false] at member
    rcases member with inKey | rfl | rfl | inValue | rfl
    · exact keyClean b inKey
    · decide
    · decide
    · exact valueClean b inValue
    · decide
  have decimals : ∀ n, ∀ b ∈ decimal n, b ≠ 0 := fun n b member =>
    digit (isDigit_of_mem_decimal member)
  intro b member
  simp only [userPart, parentPart, lines, List.mem_append] at member
  rcases member with
    (name | (umask | state | tgid | ngid | pid) | parent) | tracer | key | uid | tab
  · exact line _ _ (forall_of_all rfl) (fun b inside => (s.name_clean b inside).1) b name
  · exact line _ _ (forall_of_all rfl) (fun b inside => digit (s.umask_digits b inside)) b umask
  · exact line _ _ (forall_of_all rfl) (text s.state) b state
  · exact line _ _ (forall_of_all rfl) (decimals _) b tgid
  · exact line _ _ (forall_of_all rfl) (decimals _) b ngid
  · exact line _ _ (forall_of_all rfl) (decimals _) b pid
  · exact line _ _ (forall_of_all rfl) (decimals _) b parent
  · exact line _ _ (forall_of_all rfl) (decimals _) b tracer
  · exact (forall_of_all rfl : ∀ b ∈ literal "Uid:\t", b ≠ 0) b key
  · exact decimals _ b uid
  · rw [List.mem_singleton.mp tab]
    decide

/-! ## The user id -/

/-- The lines up to the key of the user id. -/
def toUser : List Byte :=
  s.lines ++ (field "PPid" (decimal s.parentid) ++ (field "TracerPid" (decimal s.tracerPid) ++
    literal "Uid:"))

theorem userPart_eq : s.userPart =
    field "Name" s.name ++ (s.toUser ++ 9 :: (decimal s.uid ++ [9])) := by
  have key : literal "Uid:\t" = literal "Uid:" ++ [9] := rfl
  simp only [userPart, parentPart, toUser, key, List.append_assoc, List.singleton_append]

/-- The words between the name and the user id, without the first. -/
def userWords : List (List Byte) :=
  s.lineWords ++ [decimal s.pid, literal "PPid", decimal s.parentid, literal "TracerPid",
    decimal s.tracerPid]

theorem wordsOf_toUser :
    wordsOf isDelim s.toUser = (literal "Umask" :: s.userWords) ++ [literal "Uid"] := by
  have last : wordsOf isDelim (literal "Uid:") = [literal "Uid"] := by decide
  rw [toUser, wordsOf_lines, wordsOf_field (by decide),
    wordsOf_field (by decide), wordsOf_decimal, wordsOf_decimal, last, userWords]
  simp only [List.append_assoc, List.cons_append, List.nil_append]

theorem user_not_mem_userWords : literal "Uid" ∉ literal "Umask" :: s.userWords := by
  have letter : ∃ b ∈ literal "Uid", isDigit b = false := by decide
  have pid := ne_decimal letter s.pid
  have parent := ne_decimal letter s.parentid
  have tracer := ne_decimal letter s.tracerPid
  have other : literal "Uid" ≠ literal "Umask" ∧ literal "Uid" ≠ literal "PPid" ∧
      literal "Uid" ≠ literal "TracerPid" := by decide
  simp [userWords, s.user_not_mem, pid, parent, tracer, other]

/-- What the array says of the user. -/
theorem readsUser_iff_words : s.ReadsUser ↔ ∃ front back,
    literal "Name" :: (s.seen ++ endedWords isDelim
      ((s.toUser ++ 9 :: (decimal s.uid ++ [9])).take (MAX - (s.name.length + 7)))) =
        front ++ literal "Uid" :: decimal s.uid :: back ∧ literal "Uid" ∉ front ∧ True := by
  have words := s.endedWords_take_name (s.toUser ++ 9 :: (decimal s.uid ++ [9]))
  rw [← userPart_eq] at words
  constructor
  · intro reads
    obtain ⟨after, returned, user⟩ := reads (.start ⟨pad MAX [], length_pad (by decide)⟩)
    have full := s.part_full (by decide : isDelim 9 = true) (decimal_ne s.uid)
      (isDelim_of_mem_decimal s.uid) s.wordsOf_toUser
    rw [← userPart_eq] at full
    obtain ⟨front, value, back, read, split, absent, loop, ended⟩ :=
      parse_cases endsAt_listKeys _ s.rest s.userPart_noZero words full returned
    obtain ⟨read', loop', found⟩ := wordLoop_found endsAt_listKeys absent value back fun _ => none
    rw [← split, loop] at loop'
    obtain rfl := Option.some.inj loop'
    have same := ended.set .uid value found
    rw [user] at same
    obtain rfl := Option.some.inj same
    exact ⟨front, back, split, absent, trivial⟩
  · rintro ⟨front, back, split, absent, -⟩ before
    obtain ⟨read, loop, found⟩ :=
      wordLoop_found endsAt_listKeys absent (decimal s.uid) back fun _ => none
    rw [← split] at loop
    obtain ⟨after, returned, ended⟩ := parse_found before s.rest s.userPart_noZero words loop
    exact ⟨after, ⟨MAX, returned⟩, ended.set .uid _ found⟩

theorem readsUser_iff : s.ReadsUser ↔ s.TrueUser := by
  have inside : s.userPart.length ≤ MAX → _ := fun fits => s.part_inside (by decide)
    (decimal_ne s.uid) (isDelim_of_mem_decimal s.uid) (s.userPart_eq ▸ fits)
  have outside : ¬ s.userPart.length ≤ MAX → _ := fun tooLong =>
    s.part_outside (isDelim_of_mem_decimal s.uid) (s.userPart_eq ▸ tooLong)
  rw [wordsOf_toUser] at inside outside
  rw [List.append_assoc] at inside
  have notOther : decimal s.uid ≠ literal "Umask" := (ne_decimal (by decide) s.uid).symm
  rw [readsUser_iff_words,
    firstKey_iff (by decide) s.user_not_mem_userWords notOther inside outside, TrueUser]
  simp only [and_true]

/-- The command is set by the key of the first line. -/
theorem command_isSome {keys : Keys} (key : keys (literal "Name") = some (.cmd, false))
    {words : List (List Byte)} {read : Var → Option (List Byte)}
    (loop : wordLoop keys (literal "Name" :: words) (fun _ => none) = some read) :
    (read .cmd).isSome := by
  rw [wordLoop, key] at loop
  cases words with
  | nil => cases loop
  | cons value words => exact wordLoop_isSome loop (by rw [Function.update_self]; rfl)

/-- What `process_list` has when it is through with a process. -/
theorem parse_user (harmless : s.TrueUser) (before : Reader) :
    ∃ after command, (∀ fuel, MAX ≤ fuel → before.parse listKeys s.text fuel = .ok after) ∧
      after.string .uid = some (decimal s.uid) ∧ after.string .cmd = some command := by
  have words := s.endedWords_take_name (s.toUser ++ 9 :: (decimal s.uid ++ [9]))
  rw [← userPart_eq] at words
  obtain ⟨front, back, split, absent, -⟩ := s.readsUser_iff_words.mp (s.readsUser_iff.mpr harmless)
  obtain ⟨read, loop, found⟩ :=
    wordLoop_found endsAt_listKeys absent (decimal s.uid) back fun _ => none
  rw [← split] at loop
  obtain ⟨command, set⟩ := Option.isSome_iff_exists.mp (command_isSome rfl loop)
  obtain ⟨after, returned, ended⟩ := parse_found before s.rest s.userPart_noZero words loop
  exact ⟨after, command, returned, ended.set .uid _ found, ended.set .cmd _ set⟩

/-! ## The parent -/

/-- The lines up to the key of the parent. -/
def toParent : List Byte := s.lines ++ literal "PPid:"

theorem parentPart_eq : s.parentPart =
    field "Name" s.name ++ (s.toParent ++ 9 :: (decimal s.parentid ++ [10])) := by
  have key : literal "PPid:" = literal "PPid" ++ [58] := rfl
  simp only [parentPart, toParent, key, List.append_assoc, field, List.cons_append,
    List.nil_append]

theorem text_eq_parentPart : s.text = s.parentPart ++
    (field "TracerPid" (decimal s.tracerPid) ++ (literal "Uid:\t" ++ (decimal s.uid ++ [9])) ++
      s.rest) := by
  rw [text, userPart, List.append_assoc]

theorem parentPart_noZero : ∀ b ∈ s.parentPart, b ≠ 0 := fun b member =>
  s.userPart_noZero b (List.mem_append_left _ member)

theorem wordsOf_toParent : wordsOf isDelim s.toParent =
    (literal "Umask" :: (s.lineWords ++ [decimal s.pid])) ++ [literal "PPid"] := by
  have last : wordsOf isDelim (literal "PPid:") = [literal "PPid"] := by decide
  rw [toParent, wordsOf_lines, last]
  simp only [List.append_assoc, List.cons_append, List.nil_append]

theorem drawKeys_pid {word : List Byte} {ends : Bool} (key : drawKeys word = some (.pid, ends)) :
    word = literal "Pid" := by
  rw [drawKeys] at key
  split_ifs at key with name pid parentid
  · cases key
  · exact pid
  · cases key

theorem drawKeys_cmd {word : List Byte} {ends : Bool} (key : drawKeys word = some (.cmd, ends)) :
    word = literal "Name" := by
  rw [drawKeys] at key
  split_ifs at key with name pid parentid
  · exact name
  · cases key
  · cases key

/-- Of a list of words `draw_pid_tree` keeps the one behind the first `PPid`, and the one behind
the last `Pid` in front of it. -/
theorem parentLoop {front between words : List (List Byte)} {word : List Byte}
    (value : List Byte) (back : List (List Byte)) (absent : literal "PPid" ∉ front ++ between)
    (last : literal "Pid" ∉ between)
    (behind : between ++ literal "PPid" :: value :: back = word :: words)
    (read : Var → Option (List Byte)) :
    ∃ read', wordLoop drawKeys (front ++ literal "Pid" ::
        (between ++ literal "PPid" :: value :: back)) read = some read' ∧
      read' .pid = some word ∧ read' .parentid = some value := by
  rw [List.mem_append, not_or] at absent
  obtain ⟨read₁, same₁, -⟩ := wordLoop_skip endsAt_drawKeys absent.1 (literal "Pid")
    (between ++ literal "PPid" :: value :: back) read
  obtain ⟨read₂, same₂, unset⟩ := wordLoop_skip endsAt_drawKeys absent.2 (literal "PPid")
    (value :: back) (Function.update read₁ .pid (some word))
  have round : wordLoop drawKeys (literal "Pid" :: (between ++ literal "PPid" :: value :: back))
      read₁ = wordLoop drawKeys (between ++ literal "PPid" :: value :: back)
        (Function.update read₁ .pid (some word)) := by
    rw [behind]
    rfl
  have kept : read₂ .pid = some word := by
    rw [unset .pid fun word member ends key => last (drawKeys_pid key ▸ member),
      Function.update_self]
  rw [round, same₂, wordLoop_last endsAt_drawKeys] at same₁
  exact ⟨_, same₁, (Function.update_of_ne (by decide) ..).trans kept, Function.update_self ..⟩

/-- Without a `Pid` in front of it the process id is not set. -/
theorem parentLoop_noPid {front : List (List Byte)} (value : List Byte)
    (back : List (List Byte)) (absent : literal "PPid" ∉ front) (noPid : literal "Pid" ∉ front)
    (read : Var → Option (List Byte)) :
    ∃ read', wordLoop drawKeys (front ++ literal "PPid" :: value :: back) read = some read' ∧
      read' .pid = read .pid := by
  obtain ⟨read', same, unset⟩ :=
    wordLoop_skip endsAt_drawKeys absent (literal "PPid") (value :: back) read
  rw [wordLoop_last endsAt_drawKeys] at same
  have kept := unset .pid fun word member ends key => noPid (drawKeys_pid key ▸ member)
  exact ⟨_, same, (Function.update_of_ne (by decide) ..).trans kept⟩

/-- The words in front of the parent say the process id. -/
def SaysPid (words : List (List Byte)) : Prop :=
  ∃ front between, words = front ++ literal "Pid" :: decimal s.pid :: between ∧
    literal "Pid" ∉ between

theorem parentLoop_of_saysPid {front : List (List Byte)} (back : List (List Byte))
    (absent : literal "PPid" ∉ front) (said : s.SaysPid front)
    (read : Var → Option (List Byte)) :
    ∃ read', wordLoop drawKeys (front ++ literal "PPid" :: decimal s.parentid :: back) read =
        some read' ∧
      read' .pid = some (decimal s.pid) ∧ read' .parentid = some (decimal s.parentid) := by
  obtain ⟨early, between, rfl, noPid⟩ := said
  have noPid' : literal "Pid" ∉ decimal s.pid :: between := by
    simp [noPid, ne_decimal (by decide : ∃ b ∈ literal "Pid", isDigit b = false) s.pid]
  have absent' : literal "PPid" ∉ early ++ decimal s.pid :: between := by
    simp only [List.mem_append, List.mem_cons, not_or] at absent ⊢
    exact ⟨absent.1, absent.2.2⟩
  rw [List.append_assoc, List.cons_append]
  exact parentLoop (decimal s.parentid) back absent' noPid' rfl read

/-- When the process id comes out of the loop, the words say it. -/
theorem saysPid_of_parentLoop {front back : List (List Byte)} {value : List Byte}
    {read : Var → Option (List Byte)} (absent : literal "PPid" ∉ front)
    (loop : wordLoop drawKeys (front ++ literal "PPid" :: value :: back) (fun _ => none) =
      some read)
    (pid : read .pid = some (decimal s.pid)) : s.SaysPid front := by
  have notKey : literal "PPid" ≠ decimal s.pid := ne_decimal (by decide) s.pid
  by_cases member : literal "Pid" ∈ front
  · obtain ⟨early, between, rfl, noPid⟩ := split_last member
    obtain ⟨word, more, behind⟩ : ∃ word more,
        between ++ literal "PPid" :: value :: back = word :: more :=
      List.exists_cons_of_ne_nil (by simp)
    have absent' : literal "PPid" ∉ early ++ between := by
      simp only [List.mem_append, List.mem_cons, not_or] at absent ⊢
      exact ⟨absent.1, absent.2.2⟩
    obtain ⟨read', loop', pid', -⟩ := parentLoop value back absent' noPid behind fun _ => none
    rw [List.append_assoc, List.cons_append, loop'] at loop
    obtain rfl := Option.some.inj loop
    obtain rfl := Option.some.inj (pid'.symm.trans pid)
    cases between with
    | nil => exact absurd (List.cons.inj behind).1 notKey
    | cons first rest =>
        obtain ⟨rfl, -⟩ := List.cons.inj behind
        exact ⟨early, rest, rfl, fun inside => noPid (List.mem_cons_of_mem _ inside)⟩
  · obtain ⟨read', loop', unset⟩ := parentLoop_noPid value back absent member fun _ => none
    rw [loop'] at loop
    obtain rfl := Option.some.inj loop
    cases unset.symm.trans pid

/-- What the array says of the parent. -/
theorem readsParent_iff_words : s.ReadsParent ↔ ∃ front back,
    literal "Name" :: (s.seen ++ endedWords isDelim
      ((s.toParent ++ 9 :: (decimal s.parentid ++ [10])).take (MAX - (s.name.length + 7)))) =
        front ++ literal "PPid" :: decimal s.parentid :: back ∧ literal "PPid" ∉ front ∧
          s.SaysPid front := by
  have words := s.endedWords_take_name (s.toParent ++ 9 :: (decimal s.parentid ++ [10]))
  rw [← parentPart_eq] at words
  rw [ReadsParent, text_eq_parentPart]
  constructor
  · intro reads
    obtain ⟨after, returned, pid, parent⟩ := reads (.start ⟨pad MAX [], length_pad (by decide)⟩)
    have full := s.part_full (by decide : isDelim 10 = true) (decimal_ne s.parentid)
      (isDelim_of_mem_decimal s.parentid) s.wordsOf_toParent
    rw [← parentPart_eq] at full
    obtain ⟨front, value, back, read, split, absent, loop, ended⟩ :=
      parse_cases endsAt_drawKeys _ _ s.parentPart_noZero words full returned
    obtain ⟨read', loop', parent'⟩ :=
      wordLoop_found endsAt_drawKeys absent value back fun _ => none
    rw [← split, loop] at loop'
    obtain rfl := Option.some.inj loop'
    have sameParent := ended.set .parentid value parent'
    rw [parent] at sameParent
    obtain rfl := Option.some.inj sameParent
    cases set : read .pid with
    | none =>
        rw [Reader.string, ended.unset .pid set] at pid
        cases pid
    | some word =>
        have samePid := ended.set .pid word set
        rw [pid] at samePid
        obtain rfl := Option.some.inj samePid
        rw [split] at loop
        exact ⟨front, back, split, absent, s.saysPid_of_parentLoop absent loop set⟩
  · rintro ⟨front, back, split, absent, said⟩ before
    obtain ⟨read, loop, pid, parent⟩ := s.parentLoop_of_saysPid back absent said fun _ => none
    rw [← split] at loop
    obtain ⟨after, returned, ended⟩ := parse_found before _ s.parentPart_noZero words loop
    exact ⟨after, ⟨MAX, returned⟩, ended.set .pid _ pid, ended.set .parentid _ parent⟩

/-- The lines of the kernel say the process id. -/
theorem saysPid_lines (words : List (List Byte)) :
    s.SaysPid (words ++ literal "Umask" :: (s.lineWords ++ [decimal s.pid])) := by
  refine ⟨words ++ literal "Umask" :: (wordsOf isDelim s.umask ++ literal "State" ::
    (wordsOf isDelim s.state.text ++ [literal "Tgid", decimal s.tgid, literal "Ngid",
      decimal s.ngid])), [], ?_, List.not_mem_nil⟩
  simp only [lineWords, List.append_assoc, List.cons_append, List.nil_append]

theorem saysPid_cons_iff {word : List Byte} (other : word ≠ literal "Pid")
    {words : List (List Byte)} : s.SaysPid (word :: words) ↔ s.SaysPid words := by
  constructor
  · rintro ⟨front, between, split, absent⟩
    cases front with
    | nil => exact absurd (List.cons.inj split).1 other
    | cons first front => exact ⟨front, between, (List.cons.inj split).2, absent⟩
  · rintro ⟨front, between, rfl, absent⟩
    exact ⟨word :: front, between, rfl, absent⟩

theorem readsParent_iff : s.ReadsParent ↔ s.TrueParent := by
  have inside : s.parentPart.length ≤ MAX → _ := fun fits => s.part_inside (by decide)
    (decimal_ne s.parentid) (isDelim_of_mem_decimal s.parentid) (s.parentPart_eq ▸ fits)
  have outside : ¬ s.parentPart.length ≤ MAX → _ := fun tooLong =>
    s.part_outside (isDelim_of_mem_decimal s.parentid) (s.parentPart_eq ▸ tooLong)
  rw [wordsOf_toParent] at inside outside
  rw [List.append_assoc] at inside
  have letter : ∃ b ∈ literal "PPid", isDigit b = false := by decide
  have notOther : decimal s.parentid ≠ literal "Umask" :=
    (ne_decimal (by decide) s.parentid).symm
  have absent : literal "PPid" ∉ literal "Umask" :: (s.lineWords ++ [decimal s.pid]) := by
    have other : literal "PPid" ≠ literal "Umask" := by decide
    simp [s.parent_not_mem, ne_decimal letter s.pid, other]
  have notKey : literal "PPid" ≠ decimal s.pid := ne_decimal letter s.pid
  rw [readsParent_iff_words, firstKey_iff (by decide) absent notOther inside outside, TrueParent]
  refine or_congr ?_ ⟨?_, ?_⟩
  · have said := s.saysPid_lines (literal "Name" :: wordsOf isDelim s.name)
    rw [List.cons_append] at said
    simp only [said, and_true]
  · rintro ⟨before, back, seen, absent, said⟩
    obtain ⟨front, between, rfl, last⟩ := (s.saysPid_cons_iff (by decide)).mp said
    simp only [List.append_assoc, List.cons_append] at seen
    simp only [List.mem_append, List.mem_cons, not_or] at absent
    exact ⟨front, between, back, seen, by simp [absent.1, absent.2.2.2], last⟩
  · rintro ⟨front, between, back, seen, absent, last⟩
    rw [List.mem_append, not_or] at absent
    have other : literal "PPid" ≠ literal "Pid" := by decide
    refine ⟨front ++ literal "Pid" :: decimal s.pid :: between, back, ?_,
      by simp [absent.1, absent.2, other, notKey],
      (s.saysPid_cons_iff (by decide)).mpr ⟨front, between, rfl, last⟩⟩
    simp only [seen, List.append_assoc, List.cons_append]

theorem name_not_mem : literal "Name" ∉ s.lineWords :=
  s.not_mem_lineWords (by decide) (not_mem_states (by decide)) (by decide)

/-- A word behind a `Name` is a word of the name, or the key of the next line. -/
theorem behind_name {seen behind lines front back : List (List Byte)} {value : List Byte}
    (starts : behind <+: literal "Umask" :: lines) (absent : literal "Name" ∉ lines)
    (split : literal "Name" :: (seen ++ behind) = front ++ literal "Name" :: value :: back) :
    value ∈ seen ∨ value = literal "Umask" := by
  have absent' : literal "Name" ∉ behind := by
    intro member
    rcases List.mem_cons.mp (starts.subset member) with same | inside
    · exact absurd same (by decide)
    · exact absent inside
  have next : ∀ {back}, behind = value :: back → value = literal "Umask" := by
    rintro back rfl
    exact (List.cons_prefix_cons.mp starts).1
  cases front with
  | nil =>
      cases seen with
      | nil => exact .inr (next (List.cons.inj split).2)
      | cons word seen =>
          rw [(List.cons.inj (List.cons.inj split).2).1]
          exact .inl (List.mem_cons_self ..)
  | cons first front =>
      rcases List.append_eq_append_iff.mp (List.cons.inj split).2 with
        ⟨early, -, rest⟩ | ⟨late, rfl, rest⟩
      · rw [rest] at absent'
        exact absurd (List.mem_append_right _ (List.mem_cons_self ..)) absent'
      · cases late with
        | nil =>
            rw [List.nil_append] at rest
            rw [← rest] at absent'
            exact absurd (List.mem_cons_self ..) absent'
        | cons key late =>
            rw [List.cons_append] at rest
            have rest := (List.cons.inj rest).2
            cases late with
            | nil => exact .inr (next rest.symm)
            | cons word late =>
                rw [(List.cons.inj rest).1]
                exact .inl (by simp)

/-- When no word of the name is `Name`, this is its first word. -/
theorem first_of_name {name seen behind lines front back : List (List Byte)} {value : List Byte}
    (ofName : seen <+: name) (starts : behind <+: literal "Umask" :: lines)
    (absent : literal "Name" ∉ lines) (single : literal "Name" ∉ name)
    (whole : behind ≠ [] → seen = name)
    (split : literal "Name" :: (seen ++ behind) = front ++ literal "Name" :: value :: back) :
    value = name.headD (literal "Umask") := by
  have absent' : literal "Name" ∉ seen ++ behind := by
    rw [List.mem_append, not_or]
    refine ⟨fun member => single (ofName.subset member), fun member => ?_⟩
    rcases List.mem_cons.mp (starts.subset member) with same | inside
    · exact absurd same (by decide)
    · exact absent inside
  cases front with
  | cons first front =>
      rw [(List.cons.inj split).2] at absent'
      exact absurd (List.mem_append_right _ (List.mem_cons_self ..)) absent'
  | nil =>
      have rest := (List.cons.inj split).2
      cases seen with
      | cons word seen =>
          obtain ⟨others, rfl⟩ := ofName
          exact (List.cons.inj rest).1.symm
      | nil =>
          rw [List.nil_append] at rest
          rw [← whole (by simp [rest])]
          rw [rest] at starts
          exact (List.cons_prefix_cons.mp starts).1

/-- What `draw_pid_tree` has when it is through with a process. -/
theorem parse_parent (harmless : s.TrueParent) (before : Reader) :
    ∃ after command, (∀ fuel, MAX ≤ fuel → before.parse drawKeys s.text fuel = .ok after) ∧
      after.string .pid = some (decimal s.pid) ∧
      after.string .parentid = some (decimal s.parentid) ∧
      after.string .cmd = some command ∧
      (command ∈ wordsOf isDelim s.name ∨ command = literal "Umask") ∧
      (literal "Name" ∉ wordsOf isDelim s.name →
        command = (wordsOf isDelim s.name).headD (literal "Umask")) := by
  have words := s.endedWords_take_name (s.toParent ++ 9 :: (decimal s.parentid ++ [10]))
  rw [← parentPart_eq] at words
  obtain ⟨front, back, split, absent, said⟩ :=
    s.readsParent_iff_words.mp (s.readsParent_iff.mpr harmless)
  obtain ⟨read, loop, pid, parent⟩ := s.parentLoop_of_saysPid back absent said fun _ => none
  rw [← split] at loop
  obtain ⟨command, set⟩ := Option.isSome_iff_exists.mp (command_isSome rfl loop)
  obtain ⟨after, returned, ended⟩ := parse_found before _ s.parentPart_noZero words loop
  refine ⟨after, command, s.text_eq_parentPart ▸ returned, ended.set .pid _ pid,
    ended.set .parentid _ parent, ended.set .cmd _ set, ?_⟩
  -- no line of the kernel has a `Name`
  have letter : ∃ b ∈ literal "Name", isDigit b = false := by decide
  have noName : literal "Name" ∉
      s.lineWords ++ [decimal s.pid, literal "PPid", decimal s.parentid] := by
    have other : literal "Name" ≠ literal "PPid" := by decide
    simp [s.name_not_mem, ne_decimal letter s.pid, ne_decimal letter s.parentid, other]
  have starts : endedWords isDelim ((s.toParent ++ 9 :: (decimal s.parentid ++ [10])).take
      (MAX - (s.name.length + 7))) <+:
        literal "Umask" ::
          (s.lineWords ++ [decimal s.pid, literal "PPid", decimal s.parentid]) := by
    have front := @endedWords_mono _ isDelim _ _ (List.take_prefix
      (MAX - (s.name.length + 7)) (s.toParent ++ 9 :: (decimal s.parentid ++ [10])))
    rw [endedWords_append_cons _ (by decide), endedWords_concat _ (by decide), wordsOf_decimal,
      wordsOf_toParent] at front
    simpa using front
  rcases wordLoop_value loop set with unset | ⟨key, ends, before, after, isKey, place⟩
  · cases unset
  · rw [drawKeys_cmd isKey] at place
    have ofName := @endedWords_mono _ isDelim _ _ (List.take_prefix (MAX - 6) (s.name ++ [10]))
    rw [endedWords_concat _ (by decide)] at ofName
    refine ⟨(behind_name starts noName place).imp_left fun inside => ofName.subset inside,
      fun single => ?_⟩
    refine first_of_name ofName starts noName single (fun some => ?_) place
    -- what follows the name is in the array only when the whole name is
    have room : s.name.length + 7 < MAX := by
      by_contra full
      rw [Nat.sub_eq_zero_of_le (Nat.not_lt.mp full), List.take_zero] at some
      exact some rfl
    rw [List.take_of_length_le (by simp; omega), endedWords_concat _ (by decide)]

end Status

/-- **Names that do harm.** The programs read what the kernel says of a process exactly when
its name has no key at which they stop and the lines fit in the array, or says the same. -/
theorem reads_iff (s : Status) : s.ReadsParent ∧ s.ReadsUser ↔ s.TrueParent ∧ s.TrueUser :=
  and_congr s.readsParent_iff s.readsUser_iff

/-- A process of the user 1000 whose name is `Uid 0`. -/
def uidInName : Status where
  name := literal "Uid 0"
  umask := literal "0022"
  state := .sleeping
  tgid := 7
  ngid := 0
  pid := 7
  parentid := 1
  tracerPid := 0
  uid := 1000
  rest := literal "1000\t1000\t1000\n"
  name_ne := by decide
  name_clean := forall_of_all rfl
  umask_digits := forall_of_all rfl

/-- It is listed as a process of the superuser. -/
theorem not_forall_reads : ¬ ∀ s : Status, s.ReadsParent ∧ s.ReadsUser := by
  intro reads
  have user := uidInName.readsUser_iff.mp (reads uidInName).2
  have words : uidInName.seen = [literal "Uid", literal "0"] := by
    have whole : (uidInName.name ++ [10]).take (MAX - 6) = uidInName.name ++ [10] :=
      List.take_of_length_le (by decide)
    rw [Status.seen, whole]
    decide
  rcases user with ⟨absent, -⟩ | ⟨front, back, split, absent⟩
  · exact absent (by decide)
  · rw [words] at split
    cases front with
    | nil =>
        have value := (List.cons.inj (List.cons.inj split).2).1
        exact absurd value (by decide)
    | cons first front =>
        obtain ⟨rfl, -⟩ := List.cons.inj split
        exact absent (List.mem_cons_self ..)

end LinuxExercises.ProcScan
