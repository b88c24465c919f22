import HeapAnalyser.HeapList

/-!
Where the padding skip stops, in unbounded numbers (`skip_zero_padding` of
`heap/heap_list.rs`). It moves by `wrapping_add`, so it is exact as long as it
stops inside the address space: the region ends at or below the last slot of its
words there, or one of the slots is not a readable zero (`skip_exact_iff`).
-/
namespace HeapAnalyser.PaddingSkip
open Machine HeapList

/-- The skip stops at an address, which may lie outside the address space. -/
def Stops (mem : MemReader) (region_end : UInt64) (a : Nat) : Prop :=
  region_end.toNat ≤ a ∨ mem.read_u64 (UInt64.ofNat a) ≠ .ok 0

/-- The skip returns the first address that it stops at, in whole words from the start. -/
def SkipExact (mem : MemReader) (start region_end word : UInt64) : Prop :=
  ∃ a k, skip_zero_padding mem start region_end word = some a ∧ a.toNat = start.toNat + k * word.toNat ∧
    Stops mem region_end a.toNat ∧ (∀ j < k, ¬ Stops mem region_end (start.toNat + j * word.toNat)) ∧
    start.toNat ≤ a.toNat ∧ (start.toNat ≤ region_end.toNat → a.toNat < region_end.toNat + word.toNat)

/-- The last address in whole words from a start. -/
def last_slot (start word : UInt64) : Nat := 2 ^ 64 - word.toNat + start.toNat % word.toNat

section
variable {mem : MemReader} {start region_end word : UInt64}

private theorem stops_iff {a : UInt64} : Stops mem region_end a.toNat ↔ ¬ a < region_end ∨ mem.read_u64 a ≠ .ok 0 := by
  rw [Stops, UInt64.ofNat_toNat, UInt64.lt_iff_toNat_lt, Nat.not_lt]

/-- A skip returns the first address in the address space that it stops at. -/
theorem skip_from_reaches {k fuel : Nat} (enough : k < fuel) (inside : start.toNat + k * word.toNat < 2 ^ 64)
    (stops : Stops mem region_end (start.toNat + k * word.toNat))
    (goesOn : ∀ j < k, ¬ Stops mem region_end (start.toNat + j * word.toNat)) :
    skip_from mem region_end word fuel start = some (UInt64.ofNat (start.toNat + k * word.toNat)) := by
  induction k generalizing start fuel with
  | zero =>
    obtain ⟨fuel, rfl⟩ : ∃ rest, fuel = rest + 1 := ⟨fuel - 1, by omega⟩
    simp only [Nat.zero_mul, Nat.add_zero, UInt64.ofNat_toNat] at stops ⊢
    rw [skip_from]
    by_cases below : start < region_end
    · have other : mem.read_u64 start ≠ .ok 0 := (stops_iff.mp stops).resolve_left (not_not.mpr below)
      rw [if_pos below, if_neg other]
    · rw [if_neg below]
  | succ k ih =>
    obtain ⟨fuel, rfl⟩ : ∃ rest, fuel = rest + 1 := ⟨fuel - 1, by omega⟩
    have first := goesOn 0 (by omega)
    rw [Nat.zero_mul, Nat.add_zero, stops_iff, not_or, not_not, not_not] at first
    rw [Nat.succ_mul] at inside
    have next : (start + word).toNat = start.toNat + word.toNat := add_toNat (by omega)
    have slot (j : Nat) : (start + word).toNat + j * word.toNat = start.toNat + (j + 1) * word.toNat := by
      rw [next, Nat.succ_mul]
      omega
    rw [skip_from, if_pos first.1, if_pos first.2, ← slot k]
    apply ih (by omega) (by rw [next]; omega) (by rwa [slot])
    intro j earlier
    rw [slot]
    exact goesOn (j + 1) (by omega)

/-- The skip is exact if and only if it stops at one of the slots of the address space. -/
theorem skipExact_iff_stops (positive : 0 < word.toNat) : SkipExact mem start region_end word ↔
    ∃ k, start.toNat + k * word.toNat < 2 ^ 64 ∧ Stops mem region_end (start.toNat + k * word.toNat) := by
  constructor
  · rintro ⟨a, k, _, isSlot, stops, _⟩
    have bound := a.toNat_lt
    exact ⟨k, by omega, by rwa [← isSlot]⟩
  · rintro ⟨some_slot, inside, stops⟩
    obtain ⟨k, order, isFirst⟩ := exists_minimal_le_of_wellFoundedLT
      (fun k => Stops mem region_end (start.toNat + k * word.toNat)) some_slot stops
    have stopsAt := isFirst.prop
    have goesOn : ∀ j < k, ¬ Stops mem region_end (start.toNat + j * word.toNat) :=
      fun j earlier => isFirst.not_prop_of_lt earlier
    have within : start.toNat + k * word.toNat < 2 ^ 64 := by
      have slots := Nat.mul_le_mul_right word.toNat order
      omega
    have steps : k ≤ k * word.toNat := Nat.le_mul_of_pos_right k positive
    have isAddress := ofNat_toNat within
    refine ⟨UInt64.ofNat (start.toNat + k * word.toNat), k, ?_, isAddress, by rwa [isAddress], goesOn, by omega, ?_⟩
    · exact skip_from_reaches (by omega) within stopsAt goesOn
    · intro le
      rw [isAddress]
      -- the word in front of the one it stops at lies below the end
      cases k with
      | zero => omega
      | succ k =>
        have below := goesOn k (by omega)
        rw [Stops, not_or, Nat.not_le] at below
        rw [Nat.succ_mul]
        omega

private theorem last_slot_is_last (width : word.toNat = 4 ∨ word.toNat = 8) :
    (∃ k, start.toNat + k * word.toNat = last_slot start word) ∧ last_slot start word < 2 ^ 64 ∧
      ∀ k, start.toNat + k * word.toNat < 2 ^ 64 → start.toNat + k * word.toNat ≤ last_slot start word := by
  have bound := start.toNat_lt
  unfold last_slot
  rcases width with four | eight
  · rw [four]
    exact ⟨⟨2 ^ 62 - 1 - start.toNat / 4, by omega⟩, by omega, fun k inside => by omega⟩
  · rw [eight]
    exact ⟨⟨2 ^ 61 - 1 - start.toNat / 8, by omega⟩, by omega, fun k inside => by omega⟩

end

/-- The padding skip is exact if and only if the region ends at or below the last
    slot of its words, or some slot is not a readable zero. -/
theorem skip_exact_iff (mem : MemReader) (start region_end word : UInt64) (wide : word = 4 ∨ word = 8) :
    SkipExact mem start region_end word ↔ region_end.toNat ≤ last_slot start word ∨
      ∃ k, start.toNat + k * word.toNat < 2 ^ 64 ∧
        mem.read_u64 (UInt64.ofNat (start.toNat + k * word.toNat)) ≠ .ok 0 := by
  have width : word.toNat = 4 ∨ word.toNat = 8 := by
    rcases wide with rfl | rfl
    · left; rfl
    · right; rfl
  obtain ⟨⟨last, isLast⟩, inSpace, latest⟩ := @last_slot_is_last start word width
  rw [skipExact_iff_stops (by omega)]
  constructor
  · rintro ⟨k, inside, stops⟩
    rcases stops with past | other
    · left
      exact past.trans (latest k inside)
    · right
      exact ⟨k, inside, other⟩
  · rintro (room | ⟨k, inside, other⟩)
    · refine ⟨last, ?_, .inl ?_⟩
      · rw [isLast]
        exact inSpace
      · rw [isLast]
        exact room
    · exact ⟨k, inside, .inr other⟩

/-- Two zeros at the end of the address space. -/
def last_words : MemReader := fake_mem [(0xfffffffffffffff0, 0), (0xfffffffffffffff8, 0)] []

theorem skip_exact_iff_last_words : SkipExact last_words 0xfffffffffffffff0 0xfffffffffffffff8 8 :=
  (skip_exact_iff last_words 0xfffffffffffffff0 0xfffffffffffffff8 8 (.inr rfl)).mpr (.inl (by decide))

/-- In a region that ends behind its last slot the skip wraps round, and stops in front of its start. -/
theorem skip_not_exact : skip_zero_padding last_words 0xfffffffffffffff0 0xfffffffffffffff9 8 = some 0 ∧
    ¬ SkipExact last_words 0xfffffffffffffff0 0xfffffffffffffff9 8 := by
  have wraps : skip_zero_padding last_words 0xfffffffffffffff0 0xfffffffffffffff9 8 = some 0 := by decide +kernel
  refine ⟨wraps, ?_⟩
  rintro ⟨a, _, skipped, _, _, _, order, _⟩
  rw [wraps, Option.some.injEq] at skipped
  rw [← skipped] at order
  exact absurd order (by decide)

end HeapAnalyser.PaddingSkip
