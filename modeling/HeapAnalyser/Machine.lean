import Mathlib

/-!
Arithmetic on 64-bit machine words as Rust's integer methods define it, read as
natural numbers. `wrapping_add` is Lean's own addition on `UInt64`; the checked
and the saturating operations are defined here, each with the one equation on
`toNat` that proofs use.
-/
namespace HeapAnalyser.Machine
universe u

/-- A borrowed slice: as many elements as a 64-bit `usize` can count. -/
structure Slice (α : Type u) where
  val : List α
  length_lt : val.length < 2 ^ 64

/-- The range `0..n` of a loop. -/
def range_u32 (n : UInt32) : List UInt32 := (List.range n.toNat).map UInt32.ofNat

/-- `u64::checked_add`: nothing when the sum does not fit. -/
def checked_add (a b : UInt64) : Option UInt64 :=
  if a.toNat + b.toNat < 2 ^ 64 then some (a + b) else none

/-- `u64::checked_sub`: nothing when the difference is negative. -/
def checked_sub (a b : UInt64) : Option UInt64 := if b ≤ a then some (a - b) else none

/-- `u64::checked_mul`: nothing when the product does not fit. -/
def checked_mul (a b : UInt64) : Option UInt64 :=
  if a.toNat * b.toNat < 2 ^ 64 then some (a * b) else none

/-- `u64::saturating_add`: the largest word when the sum does not fit. -/
def saturating_add (a b : UInt64) : UInt64 :=
  if a.toNat + b.toNat < 2 ^ 64 then a + b else 0xffffffffffffffff

/-- `u64::saturating_sub`: zero when the difference is negative. -/
def saturating_sub (a b : UInt64) : UInt64 := if b ≤ a then a - b else 0

/-- `u64::saturating_mul`: the largest word when the product does not fit. -/
def saturating_mul (a b : UInt64) : UInt64 :=
  if a.toNat * b.toNat < 2 ^ 64 then a * b else 0xffffffffffffffff

theorem checked_add_eq_some {a b c : UInt64} :
    checked_add a b = some c ↔ c.toNat = a.toNat + b.toNat := by
  have bound := c.toNat_lt
  by_cases fits : a.toNat + b.toNat < 2 ^ 64
  · rw [checked_add, if_pos fits, Option.some.injEq, ← UInt64.toNat_inj, UInt64.toNat_add, Nat.mod_eq_of_lt fits]
    exact eq_comm
  · simp only [checked_add, if_neg fits, reduceCtorEq, false_iff]
    omega

theorem checked_add_eq_none {a b : UInt64} : checked_add a b = none ↔ 2 ^ 64 ≤ a.toNat + b.toNat := by
  by_cases fits : a.toNat + b.toNat < 2 ^ 64
  · simp only [checked_add, if_pos fits, reduceCtorEq, false_iff]
    omega
  · simp only [checked_add, if_neg fits, true_iff]
    omega

theorem checked_sub_eq_some {a b c : UInt64} :
    checked_sub a b = some c ↔ c.toNat + b.toNat = a.toNat := by
  by_cases le : b ≤ a
  · have order := UInt64.le_iff_toNat_le.mp le
    rw [checked_sub, if_pos le, Option.some.injEq, ← UInt64.toNat_inj, UInt64.toNat_sub_of_le _ _ le]
    omega
  · have order := UInt64.lt_iff_toNat_lt.mp (UInt64.not_le.mp le)
    simp only [checked_sub, if_neg le, reduceCtorEq, false_iff]
    omega

theorem checked_mul_eq_some {a b c : UInt64} :
    checked_mul a b = some c ↔ c.toNat = a.toNat * b.toNat := by
  have bound := c.toNat_lt
  by_cases fits : a.toNat * b.toNat < 2 ^ 64
  · rw [checked_mul, if_pos fits, Option.some.injEq, ← UInt64.toNat_inj, UInt64.toNat_mul, Nat.mod_eq_of_lt fits]
    exact eq_comm
  · simp only [checked_mul, if_neg fits, reduceCtorEq, false_iff]
    omega

private theorem largest_toNat : (0xffffffffffffffff : UInt64).toNat = 2 ^ 64 - 1 := rfl

@[simp] theorem saturating_add_toNat (a b : UInt64) :
    (saturating_add a b).toNat = min (a.toNat + b.toNat) (2 ^ 64 - 1) := by
  by_cases fits : a.toNat + b.toNat < 2 ^ 64
  · rw [saturating_add, if_pos fits, UInt64.toNat_add, Nat.mod_eq_of_lt fits]
    omega
  · rw [saturating_add, if_neg fits, largest_toNat]
    omega

@[simp] theorem saturating_sub_toNat (a b : UInt64) :
    (saturating_sub a b).toNat = a.toNat - b.toNat := by
  by_cases le : b ≤ a
  · rw [saturating_sub, if_pos le]
    exact UInt64.toNat_sub_of_le _ _ le
  · have order := UInt64.lt_iff_toNat_lt.mp (UInt64.not_le.mp le)
    rw [saturating_sub, if_neg le, show (0 : UInt64).toNat = 0 from rfl]
    omega

@[simp] theorem saturating_mul_toNat (a b : UInt64) :
    (saturating_mul a b).toNat = min (a.toNat * b.toNat) (2 ^ 64 - 1) := by
  by_cases fits : a.toNat * b.toNat < 2 ^ 64
  · rw [saturating_mul, if_pos fits, UInt64.toNat_mul, Nat.mod_eq_of_lt fits]
    omega
  · rw [saturating_mul, if_neg fits, largest_toNat]
    omega

theorem add_toNat {a b : UInt64} (fits : a.toNat + b.toNat < 2 ^ 64) :
    (a + b).toNat = a.toNat + b.toNat := by
  rw [UInt64.toNat_add, Nat.mod_eq_of_lt fits]

theorem ofNat_toNat {n : Nat} (fits : n < 2 ^ 64) : (UInt64.ofNat n).toNat = n :=
  UInt64.toNat_ofNat_of_lt' fits

theorem eq_ofNat {a : UInt64} {n : Nat} (same : a.toNat = n) : a = UInt64.ofNat n := by
  rw [← same, UInt64.ofNat_toNat]

theorem mem_range_u32 {n i : UInt32} : i ∈ range_u32 n ↔ i < n := by
  rw [range_u32, List.mem_map, UInt32.lt_iff_toNat_lt]
  constructor
  · rintro ⟨k, member, rfl⟩
    have below := List.mem_range.mp member
    have bound := n.toNat_lt
    rwa [UInt32.toNat_ofNat_of_lt' (by rw [UInt32.size]; omega)]
  · intro below
    exact ⟨i.toNat, List.mem_range.mpr below, UInt32.ofNat_toNat⟩

theorem range_u32_ascending (n : UInt32) : (range_u32 n).Pairwise (· < ·) := by
  rw [range_u32, List.pairwise_map]
  have bound := n.toNat_lt
  apply List.pairwise_lt_range.imp_of_mem
  intro a b inA inB less
  have belowA := List.mem_range.mp inA
  have belowB := List.mem_range.mp inB
  rwa [UInt32.lt_iff_toNat_lt, UInt32.toNat_ofNat_of_lt' (by rw [UInt32.size]; omega),
    UInt32.toNat_ofNat_of_lt' (by rw [UInt32.size]; omega)]

/-- A saturating sum of words is their sum, or the largest word. -/
theorem saturating_sum_toNat {α : Type u} (size : α → UInt64) (items : List α) (total : UInt64) :
    (items.foldl (fun total item => saturating_add total (size item)) total).toNat =
      min (total.toNat + (items.map fun item => (size item).toNat).sum) (2 ^ 64 - 1) := by
  induction items generalizing total with
  | nil =>
    have bound := total.toNat_lt
    simp only [List.foldl_nil, List.map_nil, List.sum_nil]
    omega
  | cons item rest ih =>
    rw [List.foldl_cons, ih, saturating_add_toNat, List.map_cons, List.sum_cons]
    omega

/-- Clearing the low `k` bits rounds down to a multiple of `2 ^ k`. -/
theorem and_not_mask_toNat (a m : UInt64) (k : Nat) (small : k ≤ 64) (mask : m.toNat = 2 ^ k - 1) :
    (a &&& ~~~m).toNat = a.toNat / 2 ^ k * 2 ^ k := by
  have complement : (~~~m).toNat = 2 ^ 64 - ((2 ^ k - 1) + 1) := by
    rw [UInt64.toNat_not, mask]
    show 2 ^ 64 - 1 - (2 ^ k - 1) = _
    omega
  have maskFits : 2 ^ k - 1 < 2 ^ 64 := by
    have := Nat.pow_le_pow_right (show 0 < 2 by decide) small
    omega
  rw [UInt64.toNat_and, complement]
  apply Nat.eq_of_testBit_eq
  intro i
  rw [Nat.testBit_and, Nat.testBit_two_pow_sub_succ maskFits, Nat.testBit_two_pow_sub_one,
    Nat.testBit_mul_two_pow, Nat.testBit_div_two_pow]
  by_cases low : i < k
  · simp [low]
  · have high : k ≤ i := by omega
    have same : i - k + k = i := by omega
    by_cases inside : i < 64
    · simp [low, high, inside, same]
    · have zero : a.toNat.testBit i = false := by
        apply Nat.testBit_lt_two_pow
        have := Nat.pow_le_pow_right (show 0 < 2 by decide) (show 64 ≤ i by omega)
        have := a.toNat_lt
        omega
      simp [zero, high, same]

end HeapAnalyser.Machine
