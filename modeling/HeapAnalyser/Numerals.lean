import Mathlib

/-!
Decimal numerals that are read with checked arithmetic. A run of digits is read
from the left into an accumulator, and reading stops with nothing at another
character or when the value reaches the bound. So what is read is the positional
value of a numeral below the bound (`read_numeral_eq_some`).
-/
namespace HeapAnalyser.Numerals

/-- The digits behind a value that is read already. -/
def read_digits (bound : Nat) : List Char → Nat → Option Nat
  | [], value => some value
  | c :: rest, value =>
    if c.isDigit = true ∧ 10 * value + (c.toNat - '0'.toNat) < bound then
      read_digits bound rest (10 * value + (c.toNat - '0'.toNat))
    else none

/-- A numeral with at least one digit, behind an optional plus sign. -/
def read_numeral (bound : Nat) : List Char → Option Nat
  | [] => none
  | '+' :: digits => if digits = [] then none else read_digits bound digits 0
  | digits => read_digits bound digits 0

/-- The numerals of a number: leading zeros and a plus sign have no say. -/
def Numeral (text : List Char) (n : Nat) : Prop :=
  ∃ digits, (text = digits ∨ text = '+' :: digits) ∧ digits ≠ [] ∧ (∀ c ∈ digits, c.isDigit = true) ∧
    Nat.ofDigitChars 10 digits 0 = n

theorem le_ofDigitChars (digits : List Char) (value : Nat) : value ≤ Nat.ofDigitChars 10 digits value := by
  rw [Nat.ofDigitChars_eq_ofDigitChars_zero]
  have power : 0 < 10 ^ digits.length := Nat.pow_pos (by omega)
  have scaled : value ≤ 10 ^ digits.length * value := Nat.le_mul_of_pos_left value power
  omega

/-- Digits are read where their value is below the bound: no prefix exceeds the whole. -/
theorem read_digits_eq_some {bound v value : Nat} {digits : List Char} (small : value < bound) :
    read_digits bound digits value = some v ↔
      (∀ c ∈ digits, c.isDigit = true) ∧ Nat.ofDigitChars 10 digits value = v ∧ v < bound := by
  induction digits generalizing value with
  | nil =>
    simp only [read_digits, Option.some.injEq, List.not_mem_nil, false_implies, implies_true, true_and,
      Nat.ofDigitChars_nil]
    constructor
    · rintro rfl
      exact ⟨rfl, small⟩
    · exact fun both => both.1
  | cons c rest ih =>
    unfold read_digits
    rw [Nat.ofDigitChars_cons]
    by_cases next : c.isDigit = true ∧ 10 * value + (c.toNat - '0'.toNat) < bound
    · rw [if_pos next, ih next.2, List.forall_mem_cons]
      simp only [next.1, true_and]
    · rw [if_neg next]
      constructor
      · intro none
        cases none
      · rintro ⟨digits, read, fits⟩
        have isDigit : c.isDigit = true := digits c List.mem_cons_self
        have prefix_le := le_ofDigitChars rest (10 * value + (c.toNat - '0'.toNat))
        exact absurd ⟨isDigit, by omega⟩ next

/-- What is read is the value of a numeral, below the bound. -/
theorem read_numeral_eq_some {bound n : Nat} {text : List Char} (positive : 0 < bound) :
    read_numeral bound text = some n ↔ Numeral text n ∧ n < bound := by
  unfold read_numeral
  split
  · constructor
    · intro none
      cases none
    · rintro ⟨⟨digits, written, nonempty, _⟩, _⟩
      rcases written with rfl | plus
      · exact absurd rfl nonempty
      · cases plus
  · rename_i digits
    have signless : ¬ ∀ c ∈ '+' :: digits, c.isDigit = true := fun all => by
      have plus := all '+' List.mem_cons_self
      revert plus
      decide
    by_cases empty : digits = []
    · rw [if_pos empty]
      constructor
      · intro none
        cases none
      · rintro ⟨⟨others, written, nonempty, all, _⟩, _⟩
        rcases written with rfl | plus
        · exact absurd all signless
        · exact absurd (by rw [← (List.cons.inj plus).2, empty]) nonempty
    · rw [if_neg empty, read_digits_eq_some positive]
      constructor
      · rintro ⟨all, read, fits⟩
        exact ⟨⟨digits, .inr rfl, empty, all, read⟩, fits⟩
      · rintro ⟨⟨others, written, _, all, read⟩, fits⟩
        rcases written with rfl | plus
        · exact absurd all signless
        · obtain rfl := (List.cons.inj plus).2
          exact ⟨all, read, fits⟩
  · rename_i nonempty signless
    rw [read_digits_eq_some positive]
    constructor
    · rintro ⟨all, read, fits⟩
      exact ⟨⟨text, .inl rfl, nonempty, all, read⟩, fits⟩
    · rintro ⟨⟨digits, written, _, all, read⟩, fits⟩
      rcases written with rfl | plus
      · exact ⟨all, read, fits⟩
      · exact absurd plus (signless digits)

theorem Numeral.not_mem_dot {text : List Char} {n : Nat} (numeral : Numeral text n) : '.' ∉ text := by
  obtain ⟨digits, written, _, all, _⟩ := numeral
  have inDigits : '.' ∉ digits := fun member => by
    have digit := all '.' member
    revert digit
    decide
  rcases written with rfl | rfl
  · exact inDigits
  · simpa using inDigits

end HeapAnalyser.Numerals
