import Mathlib.Algebra.Group.Int.Defs
import Mathlib.Algebra.GroupWithZero.Nat
import LinuxExercises.Foundations.Stdio

/-!
# Numbers in texts

`printf` writes a number with its decimal digits, and `atoi` reads the digits at the start of
a string. What is read of a number that was written is the number, whatever follows it
(`number_decimal`).
-/

set_option autoImplicit false

namespace LinuxExercises.Foundations

/-- The characters of a string literal. -/
def literal (s : String) : List Byte := s.toList.map fun c => UInt8.ofNat c.toNat

def isDigit (b : Byte) : Bool := 48 ≤ b && b ≤ 57

/-- The character of a digit. -/
def digit (d : Nat) : Byte := UInt8.ofNat (48 + d)

/-- The digits of a number, of which there are at most so many behind the first. -/
def digits : Nat → Nat → List Byte
  | 0, n => [digit (n % 10)]
  | more + 1, n => if n < 10 then [digit (n % 10)] else digits more (n / 10) ++ [digit (n % 10)]

/-- A number in decimal. -/
def decimal (n : Nat) : List Byte := digits n n

/-- What the conversion `%d` writes. -/
def formatInt : Int → List Byte
  | .ofNat n => decimal n
  | .negSucc n => 45 :: decimal (n + 1)

/-- The number that digits at the start of a string make, behind digits that were read. -/
def number (read : Nat) : List Byte → Nat
  | [] => read
  | b :: rest => if isDigit b then number (10 * read + (b.toNat - 48)) rest else read

/-- Space, and the characters from tab to carriage return. -/
def isSpace (b : Byte) : Bool := b = 32 || (9 ≤ b && b ≤ 13)

/-- The value of an `int`, of which 32 bits are kept. -/
def asInt (n : Int) : Int := n.bmod (2 ^ 32)

/-- `atoi`. -/
def atoi (s : List Byte) : Int :=
  match s.dropWhile isSpace with
  | 45 :: rest => asInt (-number 0 rest)
  | 43 :: rest => asInt (number 0 rest)
  | rest => asInt (number 0 rest)

/-- The integer that a string begins with. -/
def integer (s : List Byte) : Int :=
  match s.dropWhile isSpace with
  | 45 :: rest => -number 0 rest
  | 43 :: rest => number 0 rest
  | rest => number 0 rest

/-- `strtol` in base 10. What is no `long` becomes the nearest one. -/
def strtol (s : List Byte) : Int := max (-2 ^ 63) (min (integer s) (2 ^ 63 - 1))

/-- `atoi` as the C library has it, for numbers of any size: `strtol`, of which 32 bits are
kept. -/
def atoiLong (s : List Byte) : Int := asInt (strtol s)

/-! ## Digits -/

theorem toNat_digit {d : Nat} (small : d < 10) : (digit d).toNat = 48 + d := by
  rw [digit, UInt8.toNat_ofNat']
  omega

theorem isDigit_digit {d : Nat} (small : d < 10) : isDigit (digit d) = true := by
  have value := toNat_digit small
  rw [isDigit, Bool.and_eq_true, decide_eq_true_eq, decide_eq_true_eq, UInt8.le_iff_toNat_le,
    UInt8.le_iff_toNat_le, value]
  constructor
  · exact Nat.le_add_right ..
  · change 48 + d ≤ 57
    omega

theorem isDigit_of_mem_digits {more n : Nat} {b : Byte} (member : b ∈ digits more n) :
    isDigit b = true := by
  have last : ∀ n, b ∈ [digit (n % 10)] → isDigit b = true := by
    intro n here
    rw [List.mem_singleton.mp here]
    exact isDigit_digit (Nat.mod_lt _ (by decide))
  induction more generalizing n with
  | zero => exact last n member
  | succ more ih =>
      rw [digits] at member
      split at member
      · exact last n member
      · rcases List.mem_append.mp member with front | here
        · exact ih front
        · exact last n here

theorem isDigit_of_mem_decimal {n : Nat} {b : Byte} (member : b ∈ decimal n) :
    isDigit b = true :=
  isDigit_of_mem_digits member

theorem digits_ne (more n : Nat) : digits more n ≠ [] := by
  cases more with
  | zero => exact List.cons_ne_nil _ _
  | succ more =>
      rw [digits]
      split
      · exact List.cons_ne_nil _ _
      · simp

theorem decimal_ne (n : Nat) : decimal n ≠ [] := digits_ne n n

/-! ## Reading back -/

theorem number_append {ds : List Byte} (areDigits : ∀ b ∈ ds, isDigit b = true)
    (rest : List Byte) (read : Nat) : number read (ds ++ rest) = number (number read ds) rest := by
  induction ds generalizing read with
  | nil => rfl
  | cons b ds ih =>
      have first := areDigits b (List.mem_cons_self ..)
      have later := fun c member => areDigits c (List.mem_cons_of_mem b member)
      rw [List.cons_append, number, if_pos first, number, if_pos first, ih later]

theorem number_last (read n : Nat) : number read [digit (n % 10)] = 10 * read + n % 10 := by
  have small : n % 10 < 10 := Nat.mod_lt _ (by decide)
  rw [number, if_pos (isDigit_digit small), toNat_digit small, number]
  omega

theorem number_digits {more n : Nat} (enough : n ≤ more) : number 0 (digits more n) = n := by
  induction more generalizing n with
  | zero =>
      rw [digits, number_last]
      omega
  | succ more ih =>
      rw [digits]
      split
      · rw [number_last]
        omega
      · rw [number_append fun b member => isDigit_of_mem_digits member, ih (by omega), number_last]
        omega

/-- **Reading back.** The number that was written is read, when no digit follows it. -/
theorem number_decimal (n : Nat) {rest : List Byte}
    (ends : ∀ b ∈ rest.head?, isDigit b = false) : number 0 (decimal n ++ rest) = n := by
  rw [number_append fun b member => isDigit_of_mem_decimal member, decimal,
    number_digits (Nat.le_refl n)]
  cases rest with
  | nil => rfl
  | cons b rest =>
      have notDigit := ends b rfl
      rw [number, if_neg (by simp [notDigit])]

/-- A digit is no space and no sign. -/
theorem bounds_of_isDigit {b : Byte} (isOne : isDigit b = true) : 48 ≤ b.toNat ∧ b.toNat ≤ 57 := by
  rw [isDigit, Bool.and_eq_true, decide_eq_true_eq, decide_eq_true_eq] at isOne
  exact isOne

theorem isSpace_of_isDigit {b : Byte} (isOne : isDigit b = true) : isSpace b = false := by
  obtain ⟨lower, upper⟩ := bounds_of_isDigit isOne
  rw [Bool.eq_false_iff, isSpace, ne_eq, Bool.or_eq_true, Bool.and_eq_true, decide_eq_true_eq,
    decide_eq_true_eq, decide_eq_true_eq]
  rintro (rfl | ⟨-, below⟩)
  · exact absurd lower (by decide)
  · have below : b.toNat ≤ 13 := below
    omega

/-- `atoi` reads the integer at the start. -/
theorem atoi_eq (s : List Byte) : atoi s = asInt (integer s) := by
  rw [atoi, integer]
  split <;> rfl

theorem integer_decimal (n : Nat) {rest : List Byte}
    (ends : ∀ b ∈ rest.head?, isDigit b = false) : integer (decimal n ++ rest) = n := by
  have read := number_decimal n ends
  obtain ⟨b, more, whole⟩ := List.exists_cons_of_ne_nil (decimal_ne n)
  have first : isDigit b = true := isDigit_of_mem_decimal (whole ▸ List.mem_cons_self ..)
  obtain ⟨lower, -⟩ := bounds_of_isDigit first
  rw [whole] at read ⊢
  rw [integer, List.cons_append, List.dropWhile_cons_of_neg (by simp [isSpace_of_isDigit first])]
  split
  · rename_i sign
    cases sign
    exact absurd lower (by decide)
  · rename_i sign
    cases sign
    exact absurd lower (by decide)
  · rw [← List.cons_append, read]

/-- The integer that was written is read. -/
theorem integer_formatInt (n : Int) {rest : List Byte}
    (ends : ∀ b ∈ rest.head?, isDigit b = false) : integer (formatInt n ++ rest) = n := by
  cases n with
  | ofNat n => exact integer_decimal n ends
  | negSucc n =>
      change -(number 0 (decimal (n + 1) ++ rest) : Int) = Int.negSucc n
      rw [number_decimal (n + 1) ends]
      rfl

theorem atoi_decimal (n : Nat) {rest : List Byte}
    (ends : ∀ b ∈ rest.head?, isDigit b = false) : atoi (decimal n ++ rest) = asInt n := by
  rw [atoi_eq, integer_decimal n ends]

/-- The two agree on every string whose integer is a `long`. -/
theorem atoiLong_eq_atoi {s : List Byte} (lower : -2 ^ 63 ≤ integer s)
    (upper : integer s < 2 ^ 63) : atoiLong s = atoi s := by
  rw [atoiLong, atoi_eq, strtol]
  congr 1
  omega

/-! ## The values of an `int` -/

theorem asInt_bounds (n : Int) : -2 ^ 31 ≤ asInt n ∧ asInt n < 2 ^ 31 := by
  rw [asInt, Int.bmod]
  omega

theorem asInt_of_bounds {n : Int} (lower : -2 ^ 31 ≤ n) (upper : n < 2 ^ 31) : asInt n = n := by
  rw [asInt, Int.bmod]
  omega

/-- A numeral of an `int` is read as it is. -/
theorem atoiLong_decimal {n : Nat} (small : n < 2 ^ 31) : atoiLong (decimal n) = n := by
  have whole := @integer_decimal n [] (by simp)
  rw [List.append_nil] at whole
  rw [atoiLong_eq_atoi (by omega) (by omega), atoi_eq, whole]
  exact asInt_of_bounds (by omega) (by omega)

end LinuxExercises.Foundations
