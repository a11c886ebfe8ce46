import Mathlib.Data.List.TakeWhile

/-!
# The tokens of a text

The tokens of a text are its maximal runs of characters that are no delimiters, in the
order in which they stand in it (`wordsOf`).

`strtok` finds them one at a time. Each call starts at the pointer that the last one has
saved, skips delimiters, and returns the run behind them; there is none exactly when all
that is left are delimiters (`strtok_eq_none_iff`). Otherwise it returns the first token and
leaves the others (`wordsOf_of_strtok`), so calling it until it returns NULL goes through
the tokens of the text.

In a text that may go on, the last run may be a part of a token only. The others are those
that a delimiter ends (`endedWords`).
-/

set_option autoImplicit false

namespace LinuxExercises.Foundations

variable {α : Type*} (isDelim : α → Bool)

/-- The maximal runs of characters that are no delimiters. -/
def wordsOf (text : List α) : List (List α) :=
  (text.splitOnP isDelim).filter fun run => !run.isEmpty

/-- `strtok` from its saved pointer on: the next token, and the pointer that it saves. The
delimiter behind the token is overwritten. -/
def strtok (text : List α) : Option (List α × List α) :=
  match text.dropWhile isDelim with
  | [] => none
  | b :: rest =>
      some (b :: rest.takeWhile fun c => !isDelim c,
        (rest.dropWhile fun c => !isDelim c).drop 1)

variable {isDelim}

@[simp] theorem wordsOf_nil : wordsOf isDelim [] = [] := by
  simp [wordsOf]

/-- A delimiter in front belongs to no token. -/
@[simp] theorem wordsOf_cons_of_delim {b : α} (delim : isDelim b = true) (text : List α) :
    wordsOf isDelim (b :: text) = wordsOf isDelim text := by
  simp [wordsOf, List.splitOnP_cons_eq_if_modifyHead, delim]

/-- A run that a delimiter ends is a token. -/
theorem wordsOf_run_append {run : List α} (nonempty : run ≠ [])
    (clean : ∀ c ∈ run, isDelim c = false) {b : α} (delim : isDelim b = true) (rest : List α) :
    wordsOf isDelim (run ++ b :: rest) = run :: wordsOf isDelim rest := by
  have kept : (!run.isEmpty) = true := by simpa using nonempty
  rw [wordsOf, List.splitOnP_append_cons_of_forall_mem clean b delim, List.filter_cons, if_pos kept,
    wordsOf]

/-- A run that the text ends is a token. -/
theorem wordsOf_run {run : List α} (nonempty : run ≠ []) (clean : ∀ c ∈ run, isDelim c = false) :
    wordsOf isDelim run = [run] := by
  simp [wordsOf, List.splitOnP_eq_singleton clean, nonempty]

/-- Skipping delimiters skips no token. -/
theorem wordsOf_dropWhile (text : List α) :
    wordsOf isDelim (text.dropWhile isDelim) = wordsOf isDelim text := by
  induction text with
  | nil => rfl
  | cons b text ih =>
      cases delim : isDelim b with
      | false => simp [delim]
      | true => simp [delim, ih]

/-- What a call that finds a token has done. -/
theorem strtok_cases {text token rest : List α} (found : strtok isDelim text = some (token, rest)) :
    token ≠ [] ∧ (∀ c ∈ token, isDelim c = false) ∧
      ((text.dropWhile isDelim = token ∧ rest = []) ∨
        ∃ b, isDelim b = true ∧ text.dropWhile isDelim = token ++ b :: rest) := by
  rw [strtok] at found
  cases skipped : text.dropWhile isDelim with
  | nil =>
      rw [skipped] at found
      cases found
  | cons b tail =>
      rw [skipped] at found
      obtain ⟨rfl, rfl⟩ := Prod.mk.inj (Option.some.inj found)
      have first : isDelim b = false := by
        have head := List.head?_dropWhile_not isDelim text
        rw [skipped] at head
        simpa using head
      have split : b :: tail = (b :: tail.takeWhile fun c => !isDelim c) ++
          tail.dropWhile fun c => !isDelim c := by
        rw [List.cons_append, List.takeWhile_append_dropWhile]
      refine ⟨by simp, ?_, ?_⟩
      · intro c member
        rcases List.mem_cons.mp member with rfl | inside
        · exact first
        · simpa using List.mem_takeWhile_imp inside
      · cases after : tail.dropWhile fun c => !isDelim c with
        | nil => exact .inl ⟨by rw [after, List.append_nil] at split; exact split, rfl⟩
        | cons d rest =>
            refine .inr ⟨d, ?_, by rw [after] at split; exact split⟩
            have head := List.head?_dropWhile_not (fun c => !isDelim c) tail
            rw [after] at head
            simpa using head

/-- **One call of `strtok`** returns the first token and leaves the others. -/
theorem wordsOf_of_strtok {text token rest : List α}
    (found : strtok isDelim text = some (token, rest)) :
    wordsOf isDelim text = token :: wordsOf isDelim rest := by
  obtain ⟨nonempty, clean, ⟨last, rfl⟩ | ⟨b, delim, more⟩⟩ := strtok_cases found
  · rw [← wordsOf_dropWhile, last, wordsOf_run nonempty clean, wordsOf_nil]
  · rw [← wordsOf_dropWhile, more, wordsOf_run_append nonempty clean delim]

/-- The saved pointer moves on. -/
theorem length_of_strtok {text token rest : List α}
    (found : strtok isDelim text = some (token, rest)) : rest.length < text.length := by
  have skipped := List.length_dropWhile_le isDelim text
  obtain ⟨nonempty, -, ⟨last, rfl⟩ | ⟨b, -, more⟩⟩ := strtok_cases found
  · rw [last] at skipped
    have positive := List.length_pos_iff.mpr nonempty
    exact positive.trans_le skipped
  · rw [more, List.length_append, List.length_cons] at skipped
    omega

/-- There is no token exactly when all characters are delimiters. -/
theorem strtok_eq_none_iff {text : List α} :
    strtok isDelim text = none ↔ ∀ b ∈ text, isDelim b = true := by
  rw [← List.dropWhile_eq_nil_iff, strtok]
  cases text.dropWhile isDelim <;> simp

theorem wordsOf_eq_nil_iff {text : List α} :
    wordsOf isDelim text = [] ↔ ∀ b ∈ text, isDelim b = true := by
  rw [← strtok_eq_none_iff]
  cases found : strtok isDelim text with
  | none =>
      have delims := List.dropWhile_eq_nil_iff.mpr (strtok_eq_none_iff.mp found)
      have empty : wordsOf isDelim text = [] := by
        rw [← wordsOf_dropWhile, delims, wordsOf_nil]
      simp [empty]
  | some pair =>
      rw [wordsOf_of_strtok (found : _ = some (pair.1, pair.2))]
      simp

/-- Tokens are nonempty, and their characters stand in the text and are no delimiters. -/
theorem mem_wordsOf {text token : List α} (member : token ∈ wordsOf isDelim text) :
    token ≠ [] ∧ ∀ c ∈ token, c ∈ text ∧ isDelim c = false := by
  induction h : text.length using Nat.strong_induction_on generalizing text with
  | _ n ih =>
    cases found : strtok isDelim text with
    | none =>
        rw [wordsOf_eq_nil_iff.mpr (strtok_eq_none_iff.mp found)] at member
        cases member
    | some pair =>
        obtain ⟨first, rest⟩ := pair
        obtain ⟨nonempty, clean, place⟩ := strtok_cases found
        have inside : ∀ c, c ∈ first ∨ c ∈ rest → c ∈ text := by
          intro c member
          apply List.dropWhile_subset isDelim
          rcases place with ⟨last, rfl⟩ | ⟨b, -, more⟩
          · simpa [last] using member
          · rw [more]
            rcases member with one | other
            · exact List.mem_append_left _ one
            · exact List.mem_append_right _ (List.mem_cons_of_mem _ other)
        rw [wordsOf_of_strtok found] at member
        rcases List.mem_cons.mp member with rfl | later
        · exact ⟨nonempty, fun c member => ⟨inside c (.inl member), clean c member⟩⟩
        · obtain ⟨nonempty, chars⟩ := ih _ (h ▸ length_of_strtok found) later rfl
          exact ⟨nonempty, fun c member =>
            ⟨inside c (.inr (chars c member).1), (chars c member).2⟩⟩

/-! ## Tokens that a delimiter ends -/

/-- Tokens do not go over a delimiter. -/
theorem wordsOf_append_cons (text : List α) {b : α} (delim : isDelim b = true) (rest : List α) :
    wordsOf isDelim (text ++ b :: rest) = wordsOf isDelim text ++ wordsOf isDelim rest := by
  rw [wordsOf, List.splitOnP_append_cons text rest delim, List.filter_append, wordsOf, wordsOf]

/-- The tokens have all characters that are no delimiters. -/
theorem flatten_wordsOf (text : List α) :
    (wordsOf isDelim text).flatten = text.filter fun b => !isDelim b := by
  induction h : text.length using Nat.strong_induction_on generalizing text with
  | _ n ih =>
    have front : ∀ delims : List α, (∀ b ∈ delims, isDelim b = true) →
        (delims.filter fun b => !isDelim b) = [] := by
      intro delims areDelims
      rw [List.filter_eq_nil_iff]
      intro b member
      simp [areDelims b member]
    have whole : text.takeWhile isDelim ++ text.dropWhile isDelim = text :=
      List.takeWhile_append_dropWhile
    have skipped := front (text.takeWhile isDelim) fun c member => List.mem_takeWhile_imp member
    cases found : strtok isDelim text with
    | none =>
        have delims := strtok_eq_none_iff.mp found
        rw [wordsOf_eq_nil_iff.mpr delims, front text delims]
        rfl
    | some pair =>
        obtain ⟨token, rest⟩ := pair
        have later := ih rest.length (h ▸ length_of_strtok found) rest rfl
        obtain ⟨-, clean, place⟩ := strtok_cases found
        have kept : (token.filter fun b => !isDelim b) = token :=
          List.filter_eq_self.mpr fun c member => by simp [clean c member]
        rw [wordsOf_of_strtok found, List.flatten_cons, later, ← whole, List.filter_append, skipped,
          List.nil_append]
        rcases place with ⟨last, rfl⟩ | ⟨b, delim, more⟩
        · rw [last, kept]
          exact List.append_nil token
        · rw [more, List.filter_append, kept, List.filter_cons, if_neg (by simp [delim])]

/-- **Tokens and a cut.** What follows a text adds nothing to its tokens exactly when it has
delimiters only. -/
theorem wordsOf_append_eq_iff (text rest : List α) :
    wordsOf isDelim (text ++ rest) = wordsOf isDelim text ↔ ∀ b ∈ rest, isDelim b = true := by
  constructor
  · intro same
    have flat := congrArg List.flatten same
    rw [flatten_wordsOf, flatten_wordsOf, List.filter_append] at flat
    have nothing := List.append_right_eq_self.mp flat
    intro b member
    simpa using List.filter_eq_nil_iff.mp nothing b member
  · intro delims
    cases rest with
    | nil => rw [List.append_nil]
    | cons b rest =>
        rw [List.forall_mem_cons] at delims
        have none : wordsOf isDelim rest = [] := wordsOf_eq_nil_iff.mpr delims.2
        rw [wordsOf_append_cons text delims.1, none, List.append_nil]

variable (isDelim) in
/-- The tokens of a text that a delimiter ends. -/
def endedWords (text : List α) : List (List α) :=
  (text.splitOnP isDelim).dropLast.filter fun run => !run.isEmpty

theorem endedWords_append_cons (text : List α) {b : α} (delim : isDelim b = true)
    (rest : List α) :
    endedWords isDelim (text ++ b :: rest) = wordsOf isDelim text ++ endedWords isDelim rest := by
  rw [endedWords, List.splitOnP_append_cons text rest delim,
    List.dropLast_append_of_ne_nil (List.splitOnP_ne_nil isDelim rest), List.filter_append, wordsOf,
    endedWords]

/-- Without a delimiter no token is ended. -/
theorem endedWords_of_clean {text : List α} (clean : ∀ c ∈ text, isDelim c = false) :
    endedWords isDelim text = [] := by
  rw [endedWords, List.splitOnP_eq_singleton clean]
  rfl

/-- When the last character is a delimiter, all tokens are ended. -/
theorem endedWords_concat (text : List α) {b : α} (delim : isDelim b = true) :
    endedWords isDelim (text ++ [b]) = wordsOf isDelim text := by
  rw [endedWords_append_cons text delim, endedWords_of_clean (by simp), List.append_nil]

/-- Delimiters in front belong to no token. -/
theorem endedWords_delims_append {delims : List α} (areDelims : ∀ b ∈ delims, isDelim b = true)
    (rest : List α) : endedWords isDelim (delims ++ rest) = endedWords isDelim rest := by
  induction delims with
  | nil => rfl
  | cons b delims ih =>
      have first := areDelims b (List.mem_cons_self ..)
      have later := ih fun c member => areDelims c (List.mem_cons_of_mem b member)
      have split := endedWords_append_cons [] first (delims ++ rest)
      rw [wordsOf_nil, List.nil_append, List.nil_append, later] at split
      exact split

/-- Where the first token is, when it is ended, and what the text is when none is. -/
theorem endedWords_cases (text : List α) :
    (∃ delims run b rest, text = delims ++ (run ++ b :: rest) ∧
      (∀ c ∈ delims, isDelim c = true) ∧ run ≠ [] ∧ (∀ c ∈ run, isDelim c = false) ∧
      isDelim b = true ∧ endedWords isDelim text = run :: endedWords isDelim rest) ∨
    (∃ delims run, text = delims ++ run ∧ (∀ c ∈ delims, isDelim c = true) ∧
      (∀ c ∈ run, isDelim c = false) ∧ endedWords isDelim text = []) := by
  have front : ∀ c ∈ text.takeWhile isDelim, isDelim c = true :=
    fun c member => List.mem_takeWhile_imp member
  have whole : text.takeWhile isDelim ++ text.dropWhile isDelim = text :=
    List.takeWhile_append_dropWhile
  cases found : strtok isDelim text with
  | none =>
      have delims := strtok_eq_none_iff.mp found
      refine .inr ⟨text, [], (List.append_nil text).symm, delims, by simp, ?_⟩
      rw [← List.append_nil text, endedWords_delims_append delims, endedWords_of_clean (by simp)]
  | some pair =>
      obtain ⟨run, rest⟩ := pair
      obtain ⟨nonempty, clean, ⟨last, rfl⟩ | ⟨b, delim, more⟩⟩ := strtok_cases found
      · refine .inr ⟨_, run, by rw [← last, whole], front, clean, ?_⟩
        rw [← whole, last, endedWords_delims_append front, endedWords_of_clean clean]
      · refine .inl ⟨_, run, b, rest, by rw [← more, whole], front, nonempty, clean, delim, ?_⟩
        rw [← whole, more, endedWords_delims_append front, endedWords_append_cons run delim,
          wordsOf_run nonempty clean, List.singleton_append]

/-- There are at most as many tokens as characters. -/
theorem length_endedWords_le (text : List α) :
    (endedWords isDelim text).length ≤ text.length := by
  induction h : text.length using Nat.strong_induction_on generalizing text with
  | _ n ih =>
    rcases endedWords_cases text with
      ⟨delims, run, b, rest, rfl, -, -, -, -, ended⟩ | ⟨_, _, _, _, _, none⟩
    · have size : (delims ++ (run ++ b :: rest)).length =
          delims.length + (run.length + (rest.length + 1)) := by
        simp only [List.length_append, List.length_cons]
      have later := ih rest.length (by omega) rest rfl
      rw [ended, List.length_cons]
      omega
    · rw [none]
      exact Nat.zero_le _

/-- In a text that goes on, the tokens that were ended are the first ones. -/
theorem endedWords_mono {text whole : List α} (front : text <+: whole) :
    endedWords isDelim text <+: endedWords isDelim whole := by
  induction h : text.length using Nat.strong_induction_on generalizing text whole with
  | _ n ih =>
    rcases @endedWords_cases _ isDelim text with
      ⟨delims, run, b, rest, rfl, areDelims, nonempty, clean, delim, ended⟩ | ⟨_, _, _, _, _, none⟩
    · obtain ⟨more, rfl⟩ := front
      have shorter : rest.length < n := by
        rw [← h, List.length_append, List.length_append, List.length_cons]
        omega
      have later := ih _ shorter (List.prefix_append rest more) rfl
      rw [ended, List.append_assoc, List.append_assoc, List.cons_append,
        endedWords_delims_append areDelims, endedWords_append_cons run delim,
        wordsOf_run nonempty clean, List.singleton_append]
      exact List.cons_prefix_cons.mpr ⟨rfl, later⟩
    · rw [none]
      exact List.nil_prefix

/-- Of a text that a delimiter and one more token end, a part that misses the last delimiter
does not end that token. -/
theorem endedWords_take {text token : List α} {b d : α} (delim : isDelim b = true)
    (clean : ∀ c ∈ token, isDelim c = false) {n : Nat}
    (short : n < (text ++ b :: (token ++ [d])).length) :
    endedWords isDelim ((text ++ b :: (token ++ [d])).take n) <+: wordsOf isDelim text := by
  have whole : text ++ b :: (token ++ [d]) = (text ++ b :: token) ++ [d] := by
    simp only [List.append_assoc, List.cons_append]
  have fits : n ≤ (text ++ b :: token).length := by
    rw [whole, List.length_append, List.length_singleton] at short
    exact Nat.lt_succ_iff.mp short
  rw [whole, List.take_append_of_le_length fits]
  have ended := endedWords_append_cons text delim token
  rw [endedWords_of_clean clean, List.append_nil] at ended
  exact ended ▸ endedWords_mono (List.take_prefix ..)

end LinuxExercises.Foundations
