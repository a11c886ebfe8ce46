import Mathlib.Logic.Function.Basic
import LinuxExercises.Foundations.Formatting
import LinuxExercises.Foundations.TokenBuffer

/-!
# The token loops of the `/proc` programs

The programs that go through `/proc` read the status text of a process into an array and take
it apart with `strtok`. A token that is a key makes the token behind it the value of a
variable, and behind the last key of interest the loop ends. The variables are pointers into
the array. They keep what they have from the process before when a key does not occur.

The token behind a key is looked at in the next round like every other. So what the loop does
is told by the list of tokens alone (`wordLoop`): it reads the words behind the keys
(`tokens_found`), or finds no last key in front of the end of the array and leaves it
(`tokens_outside`).
-/

set_option autoImplicit false

namespace LinuxExercises.ProcScan

open Foundations

/-- Size of the array for a status text. -/
abbrev MAX : Nat := 4096

/-- The variables for values. -/
inductive Var where
  | cmd
  | pid
  | parentid
  | uid
deriving Repr, DecidableEq

/-- The variable that gets the token behind a key, and whether the loop ends there. -/
abbrev Keys := List Byte → Option (Var × Bool)

/-- The array, the pointer that `strtok` has saved, and the variables. A variable may be NULL
or unset. -/
structure Reader where
  list : Buffer MAX
  saved : Nat
  vars : Var → Option Nat

/-- The characters of `delim`: space, tab, newline, parentheses and colon. -/
def isDelim (b : Byte) : Bool := b = 32 || b = 9 || b = 10 || b = 40 || b = 41 || b = 58

/-- The keys of `draw_pid_tree`. -/
def drawKeys : Keys := fun token =>
  if token = literal "Name" then some (.cmd, false)
  else if token = literal "Pid" then some (.pid, false)
  else if token = literal "PPid" then some (.parentid, true)
  else none

/-- The keys of `process_list`. -/
def listKeys : Keys := fun token =>
  if token = literal "Name" then some (.cmd, false)
  else if token = literal "Uid" then some (.uid, true)
  else none

namespace Reader

/-- In front of the first process no variable is set. -/
def start (list : Buffer MAX) : Reader where
  list := list
  saved := 0
  vars := fun _ => none

/-- `strtok(NULL, delim)`. -/
def next (r : Reader) : Except Fault (Option Nat × Reader) := do
  let (token, list, saved) ← r.list.strtok isDelim r.saved
  .ok (token, { r with list := list, saved := saved })

/-- The loop `while (token != NULL)`. -/
def tokens (keys : Keys) : Nat → Reader → Option Nat → Except Fault Reader
  | 0, _, _ => .error .outOfFuel
  | _ + 1, r, none => .ok r
  | fuel + 1, r, some token =>
    match keys (cstr (r.list.drop token)) with
    | none => do
      let (token, r) ← r.next
      tokens keys fuel r token
    | some (var, last) => do
      let (token, r) ← r.next
      tokens keys fuel { r with vars := Function.update r.vars var token }
        (if last then none else token)

/-- `read(fd, list, MAX)` of a status text. -/
def read (r : Reader) (text : List Byte) : Except Fault Reader := do
  let list ← r.list.store 0 (text.take MAX)
  .ok { r with list := list }

/-- A status text is read and taken apart. -/
def parse (keys : Keys) (r : Reader) (text : List Byte) (fuel : Nat) : Except Fault Reader := do
  let r ← r.read text
  let (token, r) ← { r with saved := 0 }.next
  r.tokens keys fuel token

/-- The string that a variable points to. -/
def string (r : Reader) (var : Var) : Option (List Byte) :=
  (r.vars var).map fun pointer => cstr (r.list.drop pointer)

end Reader

/-! ## The loop over words -/

/-- What the loop reads from a list of words that goes on behind them. -/
def wordLoop (keys : Keys) :
    List (List Byte) → (Var → Option (List Byte)) → Option (Var → Option (List Byte))
  | [], _ => none
  | word :: rest, read =>
    match keys word with
    | none => wordLoop keys rest read
    | some (var, last) =>
      match rest with
      | [] => none
      | value :: _ =>
        if last then some (Function.update read var (some value))
        else wordLoop keys rest (Function.update read var (some value))

/-- The loop ends behind one key only. -/
structure EndsAt (keys : Keys) (last : List Byte) (var : Var) : Prop where
  ends : keys last = some (var, true)
  only : ∀ word other, keys word = some (other, true) → word = last

theorem endsAt_drawKeys : EndsAt drawKeys (literal "PPid") .parentid where
  ends := rfl
  only := by
    intro word other key
    rw [drawKeys] at key
    split_ifs at key with name pid parentid
    · cases key
    · cases key
    · exact parentid

theorem endsAt_listKeys : EndsAt listKeys (literal "Uid") .uid where
  ends := rfl
  only := by
    intro word other key
    rw [listKeys] at key
    split_ifs at key with name uid
    · cases key
    · exact uid

section Words

variable {keys : Keys} {last word : List Byte} {var : Var} {words front : List (List Byte)}

/-- Words in front of the last key set only variables whose keys are among them. -/
theorem wordLoop_skip (endsAt : EndsAt keys last var) (absent : last ∉ front) (word : List Byte)
    (rest : List (List Byte)) (read : Var → Option (List Byte)) :
    ∃ read', wordLoop keys (front ++ word :: rest) read = wordLoop keys (word :: rest) read' ∧
      ∀ other, (∀ word ∈ front, ∀ ends, keys word ≠ some (other, ends)) →
        read' other = read other := by
  induction front generalizing read with
  | nil => exact ⟨read, rfl, fun _ _ => rfl⟩
  | cons first front ih =>
      have notFirst : first ≠ last := fun same => absent (same ▸ List.mem_cons_self ..)
      have absent' : last ∉ front := fun member => absent (List.mem_cons_of_mem _ member)
      rw [List.cons_append, wordLoop]
      cases key : keys first with
      | none =>
          obtain ⟨read', same, unset⟩ := ih absent' read
          exact ⟨read', same, fun other clear =>
            unset other fun word member => clear word (List.mem_cons_of_mem _ member)⟩
      | some found =>
          obtain ⟨set, ends⟩ := found
          cases ends with
          | true => exact absurd (endsAt.only first set key) notFirst
          | false =>
              obtain ⟨value, more, behind⟩ : ∃ value more, front ++ word :: rest = value :: more :=
                List.exists_cons_of_ne_nil (by simp)
              obtain ⟨read', same, unset⟩ := ih absent' (Function.update read set (some value))
              refine ⟨read', ?_, fun other clear => ?_⟩
              · rw [← same, behind]
                rfl
              · have notSet : other ≠ set := by
                  rintro rfl
                  exact clear first (List.mem_cons_self ..) false key
                rw [unset other fun word member => clear word (List.mem_cons_of_mem _ member),
                  Function.update_of_ne notSet]

/-- The loop ends behind the first last key. -/
theorem wordLoop_last (endsAt : EndsAt keys last var) (value : List Byte)
    (rest : List (List Byte)) (read : Var → Option (List Byte)) :
    wordLoop keys (last :: value :: rest) read =
      some (Function.update read var (some value)) := by
  rw [wordLoop, endsAt.ends]
  rfl

/-- It keeps the word behind this key. -/
theorem wordLoop_found (endsAt : EndsAt keys last var) {front : List (List Byte)}
    (absent : last ∉ front) (value : List Byte) (back : List (List Byte))
    (read : Var → Option (List Byte)) :
    ∃ read', wordLoop keys (front ++ last :: value :: back) read = some read' ∧
      read' var = some value := by
  obtain ⟨read', same, -⟩ := wordLoop_skip endsAt absent last (value :: back) read
  rw [wordLoop_last endsAt] at same
  exact ⟨_, same, Function.update_self ..⟩

/-- Without a last key that a word follows it does not end. -/
theorem wordLoop_eq_none (endsAt : EndsAt keys last var) (absent : last ∉ words.dropLast)
    (read : Var → Option (List Byte)) : wordLoop keys words read = none := by
  induction words generalizing read with
  | nil => rfl
  | cons first rest ih =>
      rw [wordLoop]
      cases rest with
      | nil => cases keys first <;> rfl
      | cons value rest =>
          rw [List.dropLast_cons_cons, List.mem_cons, not_or] at absent
          cases key : keys first with
          | none => exact ih absent.2 read
          | some found =>
              obtain ⟨set, ends⟩ := found
              cases ends with
              | true => exact absurd (endsAt.only first set key).symm absent.1
              | false => exact ih absent.2 _

/-- What has been read stays set. -/
theorem wordLoop_isSome {read read' : Var → Option (List Byte)} {other : Var}
    (loop : wordLoop keys words read = some read') (was : (read other).isSome) :
    (read' other).isSome := by
  have update : ∀ {read : Var → Option (List Byte)}, (read other).isSome → ∀ set value,
      (Function.update read set (some value) other).isSome := by
    intro read was set value
    by_cases same : other = set
    · subst same
      rw [Function.update_self]
      rfl
    · rwa [Function.update_of_ne same]
  induction words generalizing read with
  | nil => cases loop
  | cons first rest ih =>
      rw [wordLoop] at loop
      cases key : keys first with
      | none =>
          rw [key] at loop
          exact ih loop was
      | some found =>
          obtain ⟨set, ends⟩ := found
          rw [key] at loop
          cases rest with
          | nil => cases loop
          | cons value rest =>
              cases ends with
              | true =>
                  obtain rfl := Option.some.inj loop
                  exact update was set value
              | false => exact ih loop (update was set value)

/-- What is read stands behind a key. -/
theorem wordLoop_value {read read' : Var → Option (List Byte)} {other : Var} {value : List Byte}
    (loop : wordLoop keys words read = some read') (found : read' other = some value) :
    read other = some value ∨ ∃ key ends front back, keys key = some (other, ends) ∧
      words = front ++ key :: value :: back := by
  induction words generalizing read with
  | nil => cases loop
  | cons first rest ih =>
      have later : (∃ key ends front back, keys key = some (other, ends) ∧
          rest = front ++ key :: value :: back) → ∃ key ends front back,
            keys key = some (other, ends) ∧ first :: rest = front ++ key :: value :: back := by
        rintro ⟨key, ends, front, back, isKey, rfl⟩
        exact ⟨key, ends, first :: front, back, isKey, rfl⟩
      rw [wordLoop] at loop
      cases key : keys first with
      | none =>
          rw [key] at loop
          exact (ih loop).imp_right later
      | some pair =>
          obtain ⟨set, ends⟩ := pair
          rw [key] at loop
          cases rest with
          | nil => cases loop
          | cons word rest =>
              have here : Function.update read set (some word) other = some value →
                  read other = some value ∨ ∃ key ends front back, keys key = some (other, ends) ∧
                    first :: word :: rest = front ++ key :: value :: back := by
                intro updated
                by_cases same : other = set
                · subst same
                  rw [Function.update_self] at updated
                  obtain rfl := Option.some.inj updated
                  exact .inr ⟨first, ends, [], rest, key, rfl⟩
                · rw [Function.update_of_ne same] at updated
                  exact .inl updated
              cases ends with
              | true =>
                  obtain rfl := Option.some.inj loop
                  exact here found
              | false =>
                  rcases ih loop with updated | behind
                  · exact here updated
                  · exact .inr (later behind)

end Words

/-! ## The loop in the array -/

/-- The array holds what is settled, and behind it a text without a NUL that has still to be
taken apart. -/
structure Tokenised (r : Reader) (settled text beyond : List Byte) : Prop where
  bytes : r.list.bytes = settled ++ (text ++ beyond)
  saved : r.saved = settled.length
  noZero : ∀ b ∈ text, b ≠ 0

/-- The variables that the loop has set point to what it has read, and the others are as they
were. -/
structure Holds (settled : List Byte) (before : Var → Option Nat) (vars : Var → Option Nat)
    (read : Var → Option (List Byte)) : Prop where
  set : ∀ var word, read var = some word → ∃ pointer, vars var = some pointer ∧
    Points settled pointer word
  unset : ∀ var, read var = none → vars var = before var

/-- What the loop leaves. -/
structure Ended (r : Reader) (before : Var → Option Nat)
    (read : Var → Option (List Byte)) : Prop where
  set : ∀ var word, read var = some word → r.string var = some word
  unset : ∀ var, read var = none → r.vars var = before var

section Loop

variable {r : Reader} {settled text beyond word : List Byte} {token : Nat}
  {before vars : Var → Option Nat} {read read' : Var → Option (List Byte)} {keys : Keys}

theorem not_isDelim_zero : isDelim 0 = false := rfl

theorem ne_zero_of_isDelim {b : Byte} (delim : isDelim b = true) : b ≠ 0 := by
  rintro rfl
  rw [not_isDelim_zero] at delim
  cases delim

theorem Holds.append (holds : Holds settled before vars read) (more : List Byte) :
    Holds (settled ++ more) before vars read where
  set := by
    intro var word found
    obtain ⟨pointer, same, points⟩ := holds.set var word found
    exact ⟨pointer, same, points.append more⟩
  unset := holds.unset

/-- A variable gets a token. -/
theorem Holds.update (holds : Holds settled before vars read) (var : Var)
    (points : Points settled token word) :
    Holds settled before (Function.update vars var (some token))
      (Function.update read var (some word)) where
  set := by
    intro other word' found
    by_cases same : other = var
    · subst same
      rw [Function.update_self] at found ⊢
      cases found
      exact ⟨token, rfl, points⟩
    · rw [Function.update_of_ne same] at found ⊢
      exact holds.set other word' found
  unset := by
    intro other found
    by_cases same : other = var
    · subst same
      rw [Function.update_self] at found
      cases found
    · rw [Function.update_of_ne same] at found ⊢
      exact holds.unset other found

theorem Holds.ended (holds : Holds settled before r.vars read)
    (bytes : r.list.bytes = settled ++ text) : Ended r before read where
  set := by
    intro var word found
    obtain ⟨pointer, same, points⟩ := holds.set var word found
    rw [Reader.string, same, Option.map_some, Buffer.drop, bytes, points.cstr_drop]
  unset := holds.unset

theorem Tokenised.setVars (tokenised : Tokenised r settled text beyond)
    (vars : Var → Option Nat) : Tokenised { r with vars := vars } settled text beyond :=
  ⟨tokenised.bytes, tokenised.saved, tokenised.noZero⟩

/-- The token at a pointer. -/
theorem Tokenised.cstr_drop (tokenised : Tokenised r settled text beyond)
    (points : Points settled token word) : cstr (r.list.drop token) = word := by
  rw [Buffer.drop, tokenised.bytes, points.cstr_drop]

/-- The next call of `strtok`, when a token is ended in the text. -/
theorem Tokenised.next (tokenised : Tokenised r settled text beyond) {words : List (List Byte)}
    (first : endedWords isDelim text = word :: words) :
    ∃ token r' more rest, r.next = .ok (some token, r') ∧ r'.vars = r.vars ∧
      Tokenised r' (settled ++ more) rest beyond ∧ Points (settled ++ more) token word ∧
      endedWords isDelim rest = words := by
  rcases @endedWords_cases _ isDelim text with
    ⟨delims, run, b, rest, rfl, areDelims, nonempty, clean, delim, ended⟩ | ⟨_, _, _, _, _, none⟩
  · obtain ⟨rfl, rfl⟩ := List.cons.inj (ended.symm.trans first)
    have noZero : ∀ c ∈ run, c ≠ 0 := fun c member =>
      tokenised.noZero c (List.mem_append_right _ (List.mem_append_left _ member))
    have layout : r.list.bytes = settled ++ (delims ++ (run ++ b :: (rest ++ beyond))) := by
      rw [tokenised.bytes]
      simp only [List.append_assoc, List.cons_append]
    obtain ⟨list, found, bytes⟩ := Buffer.strtok_found layout areDelims nonempty clean noZero delim
      (ne_zero_of_isDelim delim)
    refine ⟨_, { r with list := list, saved := (settled ++ (delims ++ (run ++ [0]))).length },
      delims ++ (run ++ [0]), rest, ?_, rfl, ⟨bytes, rfl, ?_⟩,
      ⟨settled ++ delims, [], ?_, rfl, noZero⟩, rfl⟩
    · rw [Reader.next, tokenised.saved, found]
      rfl
    · intro c member
      exact tokenised.noZero c (List.mem_append_right _
        (List.mem_append_right _ (List.mem_cons_of_mem _ member)))
    · simp only [List.append_assoc]
  · rw [none] at first
    cases first

/-- When none is, and the array ends with the text, `strtok` leaves the array. -/
theorem Tokenised.next_outside (tokenised : Tokenised r settled text [])
    (none : endedWords isDelim text = []) : r.next = .error .outOfBounds := by
  rcases @endedWords_cases _ isDelim text with
    ⟨_, _, _, _, _, _, _, _, _, ended⟩ | ⟨delims, run, rfl, areDelims, clean, -⟩
  · rw [ended] at none
    cases none
  · have layout : r.list.bytes = settled ++ (delims ++ run) := by
      rw [tokenised.bytes, List.append_nil]
    rw [Reader.next, tokenised.saved, Buffer.strtok_outside layout areDelims clean fun c member =>
      tokenised.noZero c (List.mem_append_right _ member)]
    rfl

/-- A round, when there is another token. -/
theorem tokens_round (tokenised : Tokenised r settled text beyond)
    (points : Points settled token word) {token' : Nat} {r' : Reader}
    (taken : r.next = .ok (some token', r')) (fuel : Nat) :
    r.tokens keys (fuel + 1) (some token) =
      match keys word with
      | none => r'.tokens keys fuel (some token')
      | some (var, last) =>
          Reader.tokens keys fuel { r' with vars := Function.update r'.vars var (some token') }
            (if last then none else some token') := by
  rw [Reader.tokens, tokenised.cstr_drop points]
  cases keys word <;>
    · dsimp only
      rw [taken, ok_bind]

/-- **The loop** reads what stands behind the keys. -/
theorem tokens_found {words : List (List Byte)} (tokenised : Tokenised r settled text beyond)
    (ended : endedWords isDelim text = words) (points : Points settled token word)
    (holds : Holds settled before r.vars read)
    (loop : wordLoop keys (word :: words) read = some read') :
    ∃ r', (∀ fuel, words.length < fuel → r.tokens keys fuel (some token) = .ok r') ∧
      Ended r' before read' := by
  induction words generalizing r settled text word token read with
  | nil =>
      rw [wordLoop] at loop
      cases key : keys word with
      | none =>
          rw [key] at loop
          cases loop
      | some found =>
          rw [key] at loop
          cases loop
  | cons value words ih =>
      obtain ⟨token', r', more, rest, taken, same, tokenised', points', later⟩ :=
        tokenised.next ended
      have holds' : Holds (settled ++ more) before r'.vars read := by
        rw [same]
        exact holds.append more
      rw [wordLoop] at loop
      cases key : keys word with
      | none =>
          rw [key] at loop
          dsimp only at loop
          obtain ⟨last, ran, ended'⟩ := ih tokenised' later points' holds' loop
          refine ⟨last, fun fuel enough => ?_, ended'⟩
          obtain ⟨fuel, rfl⟩ := Nat.exists_eq_add_one_of_ne_zero (Nat.ne_zero_of_lt enough)
          rw [tokens_round tokenised points taken, key]
          exact ran fuel (Nat.lt_of_succ_lt_succ enough)
      | some found =>
          obtain ⟨var, last⟩ := found
          rw [key] at loop
          dsimp only at loop
          have holds'' := holds'.update var points'
          have round : ∀ fuel, r.tokens keys (fuel + 1) (some token) =
              Reader.tokens keys fuel
                { r' with vars := Function.update r'.vars var (some token') }
                (if last then none else some token') := by
            intro fuel
            rw [tokens_round tokenised points taken, key]
          cases last with
          | true =>
              obtain rfl := Option.some.inj loop
              refine ⟨{ r' with vars := Function.update r'.vars var (some token') },
                fun fuel enough => ?_, Holds.ended holds'' tokenised'.bytes⟩
              obtain ⟨fuel, rfl⟩ := Nat.exists_eq_add_one_of_ne_zero (Nat.ne_zero_of_lt enough)
              obtain ⟨fuel, rfl⟩ := Nat.exists_eq_add_one_of_ne_zero
                (Nat.ne_zero_of_lt (Nat.lt_of_succ_lt_succ enough))
              exact round (fuel + 1)
          | false =>
              obtain ⟨last, ran, ended'⟩ := ih (tokenised'.setVars _) later points' holds'' loop
              refine ⟨last, fun fuel enough => ?_, ended'⟩
              obtain ⟨fuel, rfl⟩ := Nat.exists_eq_add_one_of_ne_zero (Nat.ne_zero_of_lt enough)
              exact (round fuel).trans (ran fuel (Nat.lt_of_succ_lt_succ enough))

/-- When it finds no last key in front of the end of the array, it does not end. -/
theorem tokens_outside {words : List (List Byte)} (tokenised : Tokenised r settled text [])
    (ended : endedWords isDelim text = words) (points : Points settled token word)
    (loop : wordLoop keys (word :: words) read = none) (fuel : Nat) (r' : Reader) :
    r.tokens keys fuel (some token) ≠ .ok r' := by
  induction words generalizing r settled text word token read fuel with
  | nil =>
      have outside := tokenised.next_outside ended
      cases fuel with
      | zero => simp [Reader.tokens]
      | succ fuel =>
          rw [Reader.tokens, outside]
          split <;> exact fun same => nomatch same
  | cons value words ih =>
      obtain ⟨token', r'', more, rest, taken, same, tokenised', points', later⟩ :=
        tokenised.next ended
      cases fuel with
      | zero => simp [Reader.tokens]
      | succ fuel =>
          rw [wordLoop] at loop
          rw [tokens_round tokenised points taken]
          cases key : keys word with
          | none =>
              rw [key] at loop
              exact ih tokenised' later points' loop fuel
          | some found =>
              obtain ⟨var, last⟩ := found
              rw [key] at loop
              dsimp only at loop ⊢
              cases last with
              | true => cases loop
              | false => exact ih (tokenised'.setVars _) later points' loop fuel

end Loop

/-! ## A status text -/

section Parse

variable {keys : Keys} {word : List Byte} {words : List (List Byte)}

/-- A text is read into the array as far as it has room. When the first part of the text alone
fills the array, nothing of what was there is left. -/
theorem read_eq (r : Reader) (head rest : List Byte) :
    ∃ r' beyond, r.read (head ++ rest) = .ok r' ∧ r'.vars = r.vars ∧
      r'.list.bytes = head.take MAX ++ beyond ∧ (MAX ≤ head.length → beyond = []) := by
  have within : 0 + ((head ++ rest).take MAX).length ≤ MAX := by
    rw [Nat.zero_add]
    exact List.length_take_le ..
  obtain ⟨list, stored⟩ : ∃ list, r.list.store 0 ((head ++ rest).take MAX) = .ok list :=
    ⟨_, dif_pos within⟩
  have bytes := Buffer.store_bytes stored
  rw [List.take_zero, List.nil_append, Nat.zero_add, List.take_append, List.append_assoc] at bytes
  refine ⟨{ r with list := list }, _, ?_, rfl, bytes, ?_⟩
  · rw [Reader.read, stored]
    rfl
  · intro full
    have size := list.size_eq
    rw [bytes, List.length_append, List.length_take, Nat.min_eq_left full] at size
    exact List.eq_nil_of_length_eq_zero (by omega)

/-- The first token of a text. -/
theorem parse_eq (r : Reader) {head : List Byte} (rest : List Byte)
    (noZero : ∀ b ∈ head, b ≠ 0) (ended : endedWords isDelim (head.take MAX) = word :: words) :
    ∃ r' settled text beyond token, (∀ fuel, r.parse keys (head ++ rest) fuel =
        r'.tokens keys fuel (some token)) ∧ r'.vars = r.vars ∧
      Tokenised r' settled text beyond ∧ Points settled token word ∧
      endedWords isDelim text = words ∧ (MAX ≤ head.length → beyond = []) := by
  obtain ⟨r₁, beyond, was, same, bytes, full⟩ := read_eq r head rest
  have tokenised : Tokenised { r₁ with saved := 0 } [] (head.take MAX) beyond :=
    ⟨bytes, rfl, fun b member => noZero b (List.mem_of_mem_take member)⟩
  obtain ⟨token, r', more, text, taken, same', tokenised', points, later⟩ := tokenised.next ended
  refine ⟨r', _, text, beyond, token, fun fuel => ?_, same'.trans same, tokenised', points, later,
    full⟩
  rw [Reader.parse, was, ok_bind, taken, ok_bind]

/-- The program reads what stands behind the keys of the text. -/
theorem parse_found (r : Reader) {head : List Byte} (rest : List Byte)
    (noZero : ∀ b ∈ head, b ≠ 0) (ended : endedWords isDelim (head.take MAX) = word :: words)
    {read : Var → Option (List Byte)}
    (loop : wordLoop keys (word :: words) (fun _ => none) = some read) :
    ∃ r', (∀ fuel, MAX ≤ fuel → r.parse keys (head ++ rest) fuel = .ok r') ∧
      Ended r' r.vars read := by
  obtain ⟨r₁, settled, text, beyond, token, starts, same, tokenised, points, later, -⟩ :=
    @parse_eq keys word words r head rest noZero ended
  have holds : Holds settled r.vars r₁.vars (fun _ => none) := by
    rw [same]
    exact ⟨(fun _ _ found => nomatch found), fun _ _ => rfl⟩
  obtain ⟨r', ran, last⟩ := tokens_found tokenised later points holds loop
  have few : words.length < MAX := by
    have size : (head.take MAX).length ≤ MAX := List.length_take_le ..
    have bound := @length_endedWords_le _ isDelim (head.take MAX)
    rw [ended, List.length_cons] at bound
    exact bound.trans size
  exact ⟨r', fun fuel enough => (starts fuel).trans (ran fuel (few.trans_le enough)), last⟩

/-- When the first part of the text fills the array and has no last key, it does not end. -/
theorem parse_outside (r : Reader) {head : List Byte} (rest : List Byte)
    (noZero : ∀ b ∈ head, b ≠ 0) (ended : endedWords isDelim (head.take MAX) = word :: words)
    (full : MAX ≤ head.length) (loop : wordLoop keys (word :: words) (fun _ => none) = none)
    (r' : Reader) : ¬ Returns (r.parse keys (head ++ rest)) r' := by
  obtain ⟨r₁, settled, text, beyond, token, starts, same, tokenised, points, later, empty⟩ :=
    @parse_eq keys word words r head rest noZero ended
  rintro ⟨bound, returned⟩
  rw [empty full] at tokenised
  have ran := returned bound (Nat.le_refl bound)
  rw [starts] at ran
  exact tokens_outside tokenised later points loop bound r' ran

/-- What the program reads, when it comes to an end: a last key stands in the array, with a
word behind it. -/
theorem parse_cases {last : List Byte} {var : Var} (endsAt : EndsAt keys last var)
    (r : Reader) {head : List Byte} (rest : List Byte) (noZero : ∀ b ∈ head, b ≠ 0)
    (ended : endedWords isDelim (head.take MAX) = word :: words)
    (full : last ∉ (word :: words).dropLast → MAX ≤ head.length) {r' : Reader}
    (returned : Returns (r.parse keys (head ++ rest)) r') :
    ∃ front value back read, word :: words = front ++ last :: value :: back ∧ last ∉ front ∧
      wordLoop keys (word :: words) (fun _ => none) = some read ∧ Ended r' r.vars read := by
  have present : last ∈ (word :: words).dropLast := by
    by_contra absent
    exact parse_outside r rest noZero ended (full absent) (wordLoop_eq_none endsAt absent _) r'
      returned
  obtain ⟨front, behind, split, absent⟩ := List.eq_append_cons_of_mem present
  have someWord := List.cons_ne_nil word words
  obtain ⟨value, back, behind'⟩ : ∃ value back,
      behind ++ [(word :: words).getLast someWord] = value :: back :=
    List.exists_cons_of_ne_nil (List.append_ne_nil_of_right_ne_nil _ (List.cons_ne_nil _ _))
  have whole : word :: words = front ++ last :: value :: back := by
    rw [← List.dropLast_concat_getLast someWord, split, List.append_assoc, List.cons_append,
      behind']
  obtain ⟨read, same, -⟩ := wordLoop_skip endsAt absent last (value :: back) fun _ => none
  rw [wordLoop_last endsAt, ← whole] at same
  obtain ⟨r'', found, last'⟩ := parse_found r rest noZero ended same
  have found' : Returns (r.parse keys (head ++ rest)) r'' := ⟨MAX, found⟩
  exact ⟨front, value, back, _, whole, absent, same, returned.unique found' ▸ last'⟩

end Parse

end LinuxExercises.ProcScan
