import Mathlib

/-!
Byte strings: little-endian numbers, and ranges of a string. A range of a string
is the same range of every longer one (`slice_of_prefix`), and the bytes between
two parts are the range between their lengths (`slice_append`).
-/
namespace HeapAnalyser.Bytes
universe u

/-- The number that little-endian bytes stand for. -/
def number : List UInt8 → Nat
  | [] => 0
  | byte :: rest => byte.toNat + 256 * number rest

/-- The first bytes of a number, little-endian. -/
def bytesOf : Nat → Nat → List UInt8
  | 0, _ => []
  | count + 1, v => UInt8.ofNat v :: bytesOf count (v / 256)

@[simp] theorem bytesOf_length (count v : Nat) : (bytesOf count v).length = count := by
  induction count generalizing v with
  | zero => rfl
  | succ count ih => rw [bytesOf, List.length_cons, ih]

theorem number_bytesOf {count v : Nat} (fits : v < 256 ^ count) : number (bytesOf count v) = v := by
  induction count generalizing v with
  | zero =>
    rw [Nat.pow_zero] at fits
    obtain rfl : v = 0 := by omega
    rfl
  | succ count ih =>
    have rest : v / 256 < 256 ^ count := by
      rw [Nat.pow_succ] at fits
      omega
    rw [bytesOf, number, ih rest, UInt8.toNat_ofNat']
    omega

theorem number_lt (bytes : List UInt8) : number bytes < 256 ^ bytes.length := by
  induction bytes with
  | nil => simp [number]
  | cons byte rest ih =>
    have small := byte.toNat_lt
    rw [number, List.length_cons, Nat.pow_succ]
    omega

theorem number_append (low high : List UInt8) : number (low ++ high) = number low + 256 ^ low.length * number high := by
  induction low with
  | nil => simp [number]
  | cons byte rest ih =>
    rw [List.cons_append, number, number, ih, List.length_cons, Nat.pow_succ]
    ring

theorem number_eq_zero {bytes : List UInt8} : number bytes = 0 ↔ ∀ byte ∈ bytes, byte = 0 := by
  induction bytes with
  | nil => simp [number]
  | cons byte rest ih =>
    rw [number, List.forall_mem_cons, ← ih, ← UInt8.toNat_inj, show (0 : UInt8).toNat = 0 from rfl]
    omega

theorem bytesOf_number (bytes : List UInt8) : bytesOf bytes.length (number bytes) = bytes := by
  induction bytes with
  | nil => rfl
  | cons byte rest ih =>
    have small := byte.toNat_lt
    have low : UInt8.ofNat (byte.toNat + 256 * number rest) = byte := by
      rw [← UInt8.toNat_inj, UInt8.toNat_ofNat']
      omega
    have high : (byte.toNat + 256 * number rest) / 256 = number rest := by omega
    rw [List.length_cons, number, bytesOf, low, high, ih]

theorem bytesOf_add (low high v : Nat) : bytesOf (low + high) v = bytesOf low v ++ bytesOf high (v / 256 ^ low) := by
  induction low generalizing v with
  | zero => rw [Nat.zero_add, Nat.pow_zero, Nat.div_one, bytesOf, List.nil_append]
  | succ low ih =>
    rw [Nat.succ_add, bytesOf, ih, bytesOf, List.cons_append, Nat.div_div_eq_div_mul, Nat.pow_succ, Nat.mul_comm]

/-- The bytes of a number one by one. -/
theorem bytesOf_eq_map (count v : Nat) : bytesOf count v = (List.range count).map fun i => UInt8.ofNat (v / 256 ^ i) := by
  induction count generalizing v with
  | zero => rfl
  | succ count ih =>
    rw [bytesOf, ih, List.range_succ_eq_map, List.map_cons, List.map_map, Nat.pow_zero, Nat.div_one]
    congr 1
    apply List.map_congr_left
    intro i _
    rw [Function.comp_apply, Nat.div_div_eq_div_mul, Nat.pow_succ, Nat.mul_comm]

theorem bytesOf_zero (count : Nat) : bytesOf count 0 = List.replicate count 0 := by
  induction count with
  | zero => rfl
  | succ count ih =>
    rw [bytesOf, Nat.zero_div, ih, List.replicate_succ]
    rfl

section
variable {α : Type u}

/-- The range `[lo, hi)` of a string, where it has one. -/
def slice (data : List α) (lo hi : Nat) : Option (List α) :=
  if lo ≤ hi ∧ hi ≤ data.length then some ((data.drop lo).take (hi - lo)) else none

theorem slice_eq_some {data part : List α} {lo hi : Nat} :
    slice data lo hi = some part ↔ lo ≤ hi ∧ hi ≤ data.length ∧ part = (data.drop lo).take (hi - lo) := by
  by_cases inside : lo ≤ hi ∧ hi ≤ data.length
  · rw [slice, if_pos inside, Option.some.injEq]
    constructor
    · rintro rfl
      exact ⟨inside.1, inside.2, rfl⟩
    · rintro ⟨_, _, same⟩
      exact same.symm
  · rw [slice, if_neg inside]
    simp only [reduceCtorEq, false_iff]
    rintro ⟨order, fits, _⟩
    exact inside ⟨order, fits⟩

theorem slice_length {data part : List α} {lo hi : Nat} (found : slice data lo hi = some part) :
    part.length = hi - lo := by
  obtain ⟨_, fits, rfl⟩ := slice_eq_some.mp found
  rw [List.length_take, List.length_drop]
  omega

/-- The bytes between two parts of a string. -/
theorem slice_append (front part back : List α) :
    slice (front ++ part ++ back) front.length (front.length + part.length) = some part := by
  rw [slice_eq_some]
  refine ⟨by omega, by simp, ?_⟩
  rw [List.append_assoc, List.drop_left, Nat.add_sub_cancel_left, List.take_left]

/-- A range of a string is a range of every longer one. -/
theorem slice_of_prefix {short data part : List α} {lo hi : Nat} (front : short <+: data)
    (found : slice short lo hi = some part) : slice data lo hi = some part := by
  obtain ⟨rest, rfl⟩ := front
  obtain ⟨order, fits, rfl⟩ := slice_eq_some.mp found
  rw [slice_eq_some]
  refine ⟨order, by rw [List.length_append]; omega, ?_⟩
  rw [List.drop_append_of_le_length (by omega), List.take_append_of_le_length (by rw [List.length_drop]; omega)]

/-- A range of a longer string that lies in a shorter one is a range of it. -/
theorem slice_in_prefix {short data part : List α} {lo hi : Nat} (front : short <+: data)
    (found : slice data lo hi = some part) (inside : hi ≤ short.length) : slice short lo hi = some part := by
  obtain ⟨order, _, _⟩ := slice_eq_some.mp found
  obtain ⟨own, isOwn⟩ : ∃ own, slice short lo hi = some own := ⟨_, slice_eq_some.mpr ⟨order, inside, rfl⟩⟩
  rw [isOwn, ← found, slice_of_prefix front isOwn]

end

end HeapAnalyser.Bytes
