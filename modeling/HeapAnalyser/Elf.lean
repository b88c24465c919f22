import HeapAnalyser.Bytes

/-!
Bounds-checked little-endian reads of a byte buffer (`elf/mod.rs`). Offsets are
`usize` values, which are naturals below `2 ^ 64` here; the readers of the three
widths are one reader.
-/
namespace HeapAnalyser.Elf
open Bytes

/-- The longest slice of bytes there can be, `isize::MAX`. -/
def MAX_SLICE : Nat := 2 ^ 63 - 1

/-- A borrowed slice of bytes. -/
structure Buffer where
  bytes : List UInt8
  length_le : bytes.length ≤ MAX_SLICE

/-- `usize::checked_add`: nothing when the sum does not fit. -/
def checked_add_usize (a b : Nat) : Option Nat := if a + b < 2 ^ 64 then some (a + b) else none

/-- A little-endian number of `width` bytes at `off`, bounds-checked. -/
def read_le (width : Nat) (buf : List UInt8) (off : Nat) : Option Nat :=
  match checked_add_usize off width with
  | none => none
  | some stop => (slice buf off stop).map number

def read_u16_le (buf : List UInt8) (off : Nat) : Option UInt16 := (read_le 2 buf off).map UInt16.ofNat

def read_u32_le (buf : List UInt8) (off : Nat) : Option UInt32 := (read_le 4 buf off).map UInt32.ofNat

def read_u64_le (buf : List UInt8) (off : Nat) : Option UInt64 := (read_le 8 buf off).map UInt64.ofNat

/-- A machine word, 8 bytes on 64-bit and 4 on 32-bit, zero-extended. -/
def read_word (buf : List UInt8) (off : Nat) (is_64bit : Bool) : Option UInt64 :=
  if is_64bit then read_u64_le buf off else (read_u32_le buf off).map UInt32.toUInt64

theorem checked_add_usize_eq_some {a b c : Nat} : checked_add_usize a b = some c ↔ a + b < 2 ^ 64 ∧ a + b = c := by
  by_cases fits : a + b < 2 ^ 64
  · rw [checked_add_usize, if_pos fits, Option.some.injEq]
    exact ⟨fun sum => ⟨fits, sum⟩, fun both => both.2⟩
  · rw [checked_add_usize, if_neg fits]
    exact ⟨fun none => absurd none (by simp), fun both => absurd both.1 fits⟩

theorem read_le_eq_some {width off v : Nat} {buf : List UInt8} : read_le width buf off = some v ↔
    off + width < 2 ^ 64 ∧ ∃ part, slice buf off (off + width) = some part ∧ number part = v := by
  unfold read_le
  cases sum : checked_add_usize off width with
  | none =>
    have wide : ¬ off + width < 2 ^ 64 := by
      intro fits
      rw [checked_add_usize, if_pos fits] at sum
      simp at sum
    exact ⟨fun none => absurd none (by simp), fun both => absurd both.1 wide⟩
  | some stop =>
    obtain ⟨fits, rfl⟩ := checked_add_usize_eq_some.mp sum
    simp only [Option.map_eq_some_iff]
    exact ⟨fun read => ⟨fits, read⟩, fun both => both.2⟩

theorem read_le_append (width : Nat) {v : Nat} (front back : List UInt8) (fits : v < 256 ^ width)
    (small : front.length + width < 2 ^ 64) :
    read_le width (front ++ bytesOf width v ++ back) front.length = some v := by
  rw [read_le_eq_some]
  have found := slice_append front (bytesOf width v) back
  rw [bytesOf_length] at found
  exact ⟨small, bytesOf width v, found, number_bytesOf fits⟩

/-- What is read of a buffer is read of every longer one. -/
theorem read_le_of_prefix {width off v : Nat} {short data : List UInt8} (front : short <+: data)
    (read : read_le width short off = some v) : read_le width data off = some v := by
  obtain ⟨small, part, found, value⟩ := read_le_eq_some.mp read
  exact read_le_eq_some.mpr ⟨small, part, slice_of_prefix front found, value⟩

/-- What is read of a longer buffer, within a shorter one, is read of it. -/
theorem read_le_in_prefix {width off v : Nat} {short data : List UInt8} (front : short <+: data)
    (read : read_le width data off = some v) (inside : off + width ≤ short.length) :
    read_le width short off = some v := by
  obtain ⟨small, part, found, value⟩ := read_le_eq_some.mp read
  exact read_le_eq_some.mpr ⟨small, part, slice_in_prefix front found inside, value⟩

theorem read_le_inside {width off v : Nat} {buf : List UInt8} (read : read_le width buf off = some v) :
    off + width ≤ buf.length ∧ v < 256 ^ width := by
  obtain ⟨_, part, found, rfl⟩ := read_le_eq_some.mp read
  have length := slice_length found
  obtain ⟨_, inside, _⟩ := slice_eq_some.mp found
  have bound := number_lt part
  rw [length, Nat.add_sub_cancel_left] at bound
  exact ⟨inside, bound⟩

theorem read_u16_le_in_prefix {off : Nat} {v : UInt16} {short data : List UInt8} (front : short <+: data)
    (read : read_u16_le data off = some v) (inside : off + 2 ≤ short.length) : read_u16_le short off = some v := by
  obtain ⟨n, isRead, same⟩ := Option.map_eq_some_iff.mp read
  exact Option.map_eq_some_iff.mpr ⟨n, read_le_in_prefix front isRead inside, same⟩

theorem read_u32_le_in_prefix {off : Nat} {v : UInt32} {short data : List UInt8} (front : short <+: data)
    (read : read_u32_le data off = some v) (inside : off + 4 ≤ short.length) : read_u32_le short off = some v := by
  obtain ⟨n, isRead, same⟩ := Option.map_eq_some_iff.mp read
  exact Option.map_eq_some_iff.mpr ⟨n, read_le_in_prefix front isRead inside, same⟩

/-- The bytes of a machine word. -/
def word_size (is_64bit : Bool) : Nat := if is_64bit then 8 else 4

theorem read_word_in_prefix {off : Nat} {v : UInt64} {is_64bit : Bool} {short data : List UInt8}
    (front : short <+: data) (read : read_word data off is_64bit = some v)
    (inside : off + word_size is_64bit ≤ short.length) : read_word short off is_64bit = some v := by
  cases is_64bit with
  | true =>
    obtain ⟨n, isRead, same⟩ := Option.map_eq_some_iff.mp read
    exact Option.map_eq_some_iff.mpr ⟨n, read_le_in_prefix front isRead inside, same⟩
  | false =>
    obtain ⟨n, isRead, same⟩ := Option.map_eq_some_iff.mp read
    exact Option.map_eq_some_iff.mpr ⟨n, read_u32_le_in_prefix front isRead inside, same⟩

theorem read_word_append (is_64bit : Bool) (front back : List UInt8) {v : UInt64}
    (fits : v.toNat < 256 ^ word_size is_64bit) (small : front.length + word_size is_64bit < 2 ^ 64) :
    read_word (front ++ bytesOf (word_size is_64bit) v.toNat ++ back) front.length is_64bit = some v := by
  have read := read_le_append (word_size is_64bit) front back fits small
  cases is_64bit with
  | true =>
    refine Option.map_eq_some_iff.mpr ⟨v.toNat, read, ?_⟩
    exact UInt64.ofNat_toNat
  | false =>
    refine Option.map_eq_some_iff.mpr ⟨UInt32.ofNat v.toNat, Option.map_eq_some_iff.mpr ⟨v.toNat, read, rfl⟩, ?_⟩
    have small : v.toNat < 2 ^ 32 := fits
    rw [← UInt64.toNat_inj, UInt32.toNat_toUInt64, UInt32.toNat_ofNat_of_lt' small]

theorem read_word_inside {off : Nat} {v : UInt64} {is_64bit : Bool} {buf : List UInt8}
    (read : read_word buf off is_64bit = some v) : off + word_size is_64bit ≤ buf.length := by
  cases is_64bit with
  | true =>
    obtain ⟨n, isRead, _⟩ := Option.map_eq_some_iff.mp read
    exact (read_le_inside isRead).1
  | false =>
    obtain ⟨_, isWord, _⟩ := Option.map_eq_some_iff.mp read
    obtain ⟨n, isRead, _⟩ := Option.map_eq_some_iff.mp isWord
    exact (read_le_inside isRead).1

end HeapAnalyser.Elf
