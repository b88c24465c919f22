import HeapAnalyser.HeapChain
import HeapAnalyser.Slots
import HeapAnalyser.WordReads

/-!
The memory of a core, and the padding skip on it. The words that are read are
made of bytes, one for each address, or they are read of an image, where
segments that overlap may disagree about a byte (`OfCore`). A padding that never
ends is a grid of zeros all the way round the address space below an end near
the top of it. Such a grid leaves too few bytes for the words that give the end
(`word_of_grid`), and segments of less than 2^64 bytes have no room for it
(`not_zeroGrid_of_backed`). So every chain of heaps that ends is listed
(`heap_chain_exact`).
-/
namespace HeapAnalyser.CoreMemory
open Machine Bytes Arenas HeapList SecondaryHeaps HeapChain Image

/-- The bytes from a position on. -/
def bytes_at (byte : Nat → UInt8) (a count : Nat) : List UInt8 := (List.range count).map fun i => byte (a + i)

/-- The words of a memory are made of bytes: words that overlap share them. -/
def MadeOf (byte : Nat → UInt8) (mem : MemReader) : Prop :=
  ∀ addr word, mem.read_u64 addr = .ok word → word.toNat = number (bytes_at byte addr.toNat 8)

/-- The bytes of the file that a loaded segment has. -/
def segment_bytes (data : List UInt8) (ph : ProgramHeader) : Nat :=
  if ph.p_type = PT_LOAD then min ph.p_filesz.toNat (data.length - ph.p_offset.toNat) else 0

/-- The bytes of the file that the loaded segments have, those of each counted for itself. -/
def backed (elf : Image.Elf) : Nat := (elf.program_headers.map (segment_bytes elf.data.bytes)).sum

/-- A memory that a core can have: one made of bytes, or that of an image whose
    segments have fewer bytes than the address space. -/
def OfCore (mem : MemReader) : Prop :=
  (∃ byte, MadeOf byte mem) ∨ ∃ elf : Image.Elf, mem = elf.reader ∧ backed elf < 2 ^ 64

private theorem bytes_at_add (byte : Nat → UInt8) (a low high : Nat) :
    bytes_at byte a (low + high) = bytes_at byte a low ++ bytes_at byte (a + low) high := by
  simp only [bytes_at, List.range_add, List.map_append, List.map_map, Nat.add_assoc]
  rfl

private theorem bytes_at_length (byte : Nat → UInt8) (a count : Nat) : (bytes_at byte a count).length = count := by
  simp [bytes_at]

/-- A synthetic memory with a word at some of the multiples of eight is made of bytes. -/
theorem fake_mem_ofCore {words segments : List (UInt64 × UInt64)} (aligned : ∀ word ∈ words, word.1.toNat % 8 = 0) :
    OfCore (fake_mem words segments) := by
  refine .inl ⟨fun n => UInt8.ofNat (((words.lookup (UInt64.ofNat (n / 8 * 8))).getD 0).toNat / 256 ^ (n % 8)), ?_⟩
  intro addr word read
  cases found : words.lookup addr with
  | none => simp [fake_mem, found] at read
  | some other =>
    obtain rfl : other = word := by simpa [fake_mem, found] using read
    obtain ⟨front, back, rfl, _⟩ := List.lookup_eq_some_iff.mp found
    have multiple : addr.toNat % 8 = 0 := aligned (addr, other) (by simp)
    have isBytes : ∀ i < 8, (addr.toNat + i) / 8 * 8 = addr.toNat ∧ (addr.toNat + i) % 8 = i := by
      intro i near
      omega
    have bound := other.toNat_lt
    rw [← number_bytesOf (show other.toNat < 256 ^ 8 by omega), bytesOf_eq_map, bytes_at]
    congr 1
    apply List.map_congr_left
    intro i near
    obtain ⟨base, offset⟩ := isBytes i (List.mem_range.mp near)
    rw [base, offset, UInt64.ofNat_toNat, found, Option.getD_some]

private theorem number_bytes_at_eq_zero {byte : Nat → UInt8} {a count : Nat} :
    number (bytes_at byte a count) = 0 ↔ ∀ i < count, byte (a + i) = 0 := by
  simp [number_eq_zero, bytes_at]

section
variable {mem : MemReader} {start region_end word : UInt64}

/-- A grid of zeros has every slot of its phase, those in front of its start as well. -/
theorem zeroGrid_slot (width : word.toNat = 4 ∨ word.toNat = 8) (grid : ZeroGrid mem start region_end word) {a : Nat}
    (inside : a < 2 ^ 64) (phase : a % word.toNat = start.toNat % word.toNat) :
    a < region_end.toNat ∧ mem.read_u64 (UInt64.ofNat a) = .ok 0 := by
  have bound := start.toNat_lt
  have reached : start + UInt64.ofNat ((a + 2 ^ 64 - start.toNat) / word.toNat) * word = UInt64.ofNat a := by
    rw [← UInt64.toNat_inj, UInt64.toNat_add, UInt64.toNat_mul, UInt64.toNat_ofNat', UInt64.toNat_ofNat']
    rcases width with four | eight
    · rw [four] at phase ⊢
      omega
    · rw [eight] at phase ⊢
      omega
  obtain ⟨below, zero⟩ := grid (UInt64.ofNat ((a + 2 ^ 64 - start.toNat) / word.toNat))
  rw [reached] at below zero
  rw [UInt64.lt_iff_toNat_lt, ofNat_toNat inside] at below
  exact ⟨below, zero⟩

private theorem end_of_grid (width : word.toNat = 4 ∨ word.toNat = 8) (grid : ZeroGrid mem start region_end word) :
    2 ^ 64 - word.toNat + start.toNat % word.toNat < region_end.toNat := by
  obtain ⟨inside, phase⟩ : 2 ^ 64 - word.toNat + start.toNat % word.toNat < 2 ^ 64 ∧
      (2 ^ 64 - word.toNat + start.toNat % word.toNat) % word.toNat = start.toNat % word.toNat := by
    rcases width with four | eight
    · rw [four]
      omega
    · rw [eight]
      omega
  exact (zeroGrid_slot width grid inside phase).1

private theorem phase_le (width : word.toNat = 4 ∨ word.toNat = 8) : start.toNat % word.toNat ≤ 7 := by
  have below : start.toNat % word.toNat < word.toNat := Nat.mod_lt _ (by omega)
  omega

/-- Over a grid all bytes of the address space are zeros, but for those in front of its first slot. -/
private theorem byte_of_grid {byte : Nat → UInt8} (made : MadeOf byte mem) (width : word.toNat = 4 ∨ word.toNat = 8)
    (grid : ZeroGrid mem start region_end word) {n : Nat} (behind : start.toNat % word.toNat ≤ n)
    (inside : n < 2 ^ 64 + start.toNat % word.toNat) : byte n = 0 := by
  obtain ⟨slot, i, isSlot, phase, near, rfl⟩ : ∃ slot i, slot < 2 ^ 64 ∧
      slot % word.toNat = start.toNat % word.toNat ∧ i < 8 ∧ n = slot + i := by
    refine ⟨n - (n - start.toNat % word.toNat) % word.toNat, (n - start.toNat % word.toNat) % word.toNat, ?_⟩
    rcases width with four | eight
    · rw [four] at behind inside ⊢
      omega
    · rw [eight] at behind inside ⊢
      omega
  have zero := made _ _ (zeroGrid_slot width grid isSlot phase).2
  rw [ofNat_toNat isSlot] at zero
  exact number_bytes_at_eq_zero.mp zero.symm i near

/-- A word over a grid has its bytes in front of the first slot, or behind the last one. -/
private theorem word_of_grid {byte : Nat → UInt8} (made : MadeOf byte mem) (width : word.toNat = 4 ∨ word.toNat = 8)
    (grid : ZeroGrid mem start region_end word) {addr w : UInt64} (read : mem.read_u64 addr = .ok w) :
    w.toNat < 256 ^ (start.toNat % word.toNat) ∨ 256 ^ (start.toNat % word.toNat + 1) ∣ w.toNat := by
  have small := @phase_le start word width
  have bound := addr.toNat_lt
  have isWord := made addr w read
  by_cases front : addr.toNat < start.toNat % word.toNat
  · left
    obtain ⟨m, reaches⟩ : ∃ m, addr.toNat + m = start.toNat % word.toNat := ⟨_, Nat.add_sub_cancel' front.le⟩
    have split := bytes_at_add byte addr.toNat m (8 - m)
    rw [show m + (8 - m) = 8 by omega] at split
    have zeros : number (bytes_at byte (addr.toNat + m) (8 - m)) = 0 :=
      number_bytes_at_eq_zero.mpr fun i near => byte_of_grid made width grid (by omega) (by omega)
    rw [isWord, split, number_append, zeros, Nat.mul_zero, Nat.add_zero]
    have low := number_lt (bytes_at byte addr.toNat m)
    rw [bytes_at_length] at low
    exact low.trans_le (Nat.pow_le_pow_right (by decide) (by omega))
  · right
    have split := bytes_at_add byte addr.toNat (start.toNat % word.toNat + 1) (7 - start.toNat % word.toNat)
    rw [show start.toNat % word.toNat + 1 + (7 - start.toNat % word.toNat) = 8 by omega] at split
    have zeros : number (bytes_at byte addr.toNat (start.toNat % word.toNat + 1)) = 0 :=
      number_bytes_at_eq_zero.mpr fun i near => byte_of_grid made width grid (by omega) (by omega)
    rw [isWord, split, number_append, zeros, Nat.zero_add, bytes_at_length]
    exact Nat.dvd_mul_right _ _

/-- Two such words do not add up to an address near the top of the address space. -/
private theorem sum_of_words {phase x y : Nat} (small : phase ≤ 7) (isX : x < 256 ^ phase ∨ 256 ^ (phase + 1) ∣ x)
    (isY : y < 256 ^ phase ∨ 256 ^ (phase + 1) ∣ y) (fits : x + y < 2 ^ 64) : x + y + 16 ≤ 2 ^ 64 := by
  interval_cases phase <;> norm_num at isX isY <;> omega

private theorem not_zeroGrid_of_bytes {byte : Nat → UInt8} (made : MadeOf byte mem)
    (width : word.toNat = 4 ∨ word.toNat = 8) {a b x y : UInt64} (readX : mem.read_u64 a = .ok x)
    (readY : y = 0 ∨ mem.read_u64 b = .ok y) (fits : x.toNat + y.toNat < 2 ^ 64)
    (near : region_end.toNat ≤ x.toNat + y.toNat + word.toNat) : ¬ ZeroGrid mem start region_end word := by
  intro grid
  have last := end_of_grid width grid
  have isX := word_of_grid made width grid readX
  have isY : y.toNat < 256 ^ (start.toNat % word.toNat) ∨ 256 ^ (start.toNat % word.toNat + 1) ∣ y.toNat := by
    rcases readY with rfl | read
    · exact .inr (Nat.dvd_zero _)
    · exact word_of_grid made width grid read
  have low := sum_of_words (phase_le width) isX isY fits
  omega

end

private theorem read_inside {elf : Image.Elf} {addr value : UInt64} (read : elf.read_u64 addr = .ok value) :
    ∃ ph ∈ elf.program_headers, Slots.Inside ph.p_vaddr.toNat (segment_bytes elf.data.bytes ph) 8 addr.toNat := by
  obtain ⟨ph, first, _⟩ := WordReads.read_u64_eq_ok.mp read
  obtain ⟨before, after, isList, _, _⟩ := id first
  obtain ⟨load, starts, backedBytes, inFile⟩ := first.holds
  refine ⟨ph, by simp [isList], starts, ?_⟩
  rw [segment_bytes, if_pos load]
  omega

/-- No grid of zeros is backed by segments of less than 2^64 bytes. -/
theorem not_zeroGrid_of_backed {elf : Image.Elf} (small : backed elf < 2 ^ 64) {start region_end word : UInt64}
    (width : word.toNat = 4 ∨ word.toNat = 8) : ¬ ZeroGrid elf.reader start region_end word := by
  intro grid
  obtain ⟨count, space⟩ : ∃ count, count * word.toNat = 2 ^ 64 := by
    rcases width with four | eight
    · exact ⟨2 ^ 62, by omega⟩
    · exact ⟨2 ^ 61, by omega⟩
  have phase : start.toNat % word.toNat < word.toNat := Nat.mod_lt _ (by omega)
  have covered : ∀ k < count, ∃ ph ∈ elf.program_headers, Slots.Inside ph.p_vaddr.toNat
      (segment_bytes elf.data.bytes ph) word.toNat (start.toNat % word.toNat + k * word.toNat) := by
    intro k isSlot
    have slots : (k + 1) * word.toNat ≤ count * word.toNat := Nat.mul_le_mul_right _ isSlot
    rw [Nat.succ_mul, space] at slots
    have inSpace : start.toNat % word.toNat + k * word.toNat < 2 ^ 64 := by omega
    have zero : elf.read_u64 _ = .ok 0 := (zeroGrid_slot width grid inSpace
      ((Nat.add_mul_mod_self_right _ _ _).trans (Nat.mod_mod _ _))).2
    obtain ⟨ph, listed, starts, room⟩ := read_inside zero
    rw [ofNat_toNat inSpace] at starts room
    exact ⟨ph, listed, starts, by omega⟩
  have long := Slots.space_le_of_covered phase elf.program_headers _ _ covered
  rw [space] at long
  exact absurd long (Nat.not_le.mpr small)

/-- Over a memory of a core no grid of zeros ends at a word that is read, or at the sum of two. -/
theorem not_zeroGrid_of_core {mem : MemReader} (core : OfCore mem) {start region_end word : UInt64}
    (width : word.toNat = 4 ∨ word.toNat = 8) {a b x y : UInt64} (readX : mem.read_u64 a = .ok x)
    (readY : y = 0 ∨ mem.read_u64 b = .ok y) (fits : x.toNat + y.toNat < 2 ^ 64)
    (near : region_end.toNat ≤ x.toNat + y.toNat + word.toNat) : ¬ ZeroGrid mem start region_end word := by
  rcases core with ⟨byte, made⟩ | ⟨elf, rfl, small⟩
  · exact not_zeroGrid_of_bytes made width readX readY fits near
  · exact not_zeroGrid_of_backed small width

section
variable {mem : MemReader} {layout : DetectedLayout} {arena : Arena} {top : UInt64}

/-- A region that ends a word behind an address that is read has a padding that ends. -/
theorem not_zeroGrid_of_top (core : OfCore mem) (sized : layout.Sized) {a : UInt64} (read : mem.read_u64 a = .ok top)
    (start : UInt64) : ¬ ZeroGrid mem start (top + layout.word) layout.word := by
  apply @not_zeroGrid_of_core mem core _ _ _ sized.word_toNat a a top 0 read (.inl rfl)
  · simpa using top.toNat_lt
  · rw [UInt64.toNat_add]
    exact Nat.mod_le _ _

private theorem chain_reads {top_heap current last : UInt64} {rest : List UInt64}
    (chain : Chain mem layout top top_heap current rest last) : ∀ b ∈ rest, ∃ a, mem.read_u64 a = .ok b := by
  induction rest generalizing current with
  | nil => simp
  | cons next rest ih =>
    obtain ⟨⟨info, _, read, _, isNext⟩, _, later⟩ := chain
    intro b member
    rcases List.mem_cons.mp member with rfl | inRest
    · exact ⟨_, isNext ▸ (read_heap_info_eq_ok.mp read).2.2⟩
    · exact ih later b inRest

theorem not_scanless (core : OfCore mem) (sized : layout.Sized) {rest : List UInt64} {last : UInt64}
    (chain : ArenaChain mem layout arena top rest last) : ¬ Scanless mem layout top rest := by
  rintro ⟨a, member, info, region_end, read, ends, grid⟩
  by_cases first : a = to_heap_start top layout.heap_max_size
  · rw [secondary_end, if_pos first] at ends
    rw [← Option.some.inj ends] at grid
    exact not_zeroGrid_of_top core sized chain.readTop _ grid
  · rw [secondary_end, if_neg first] at ends
    obtain ⟨link, readLink⟩ := chain_reads chain.chain a ((List.mem_cons.mp member).resolve_left first)
    have sum := checked_add_eq_some.mp ends
    have bound := region_end.toNat_lt
    exact not_zeroGrid_of_core core sized.word_toNat readLink (.inr (read_heap_info_eq_ok.mp read).1) (by omega)
      (by omega) grid

end

/-- Whatever is listed of a used secondary arena is its chain, as far as it is
    followed; and in the memory of a core a chain that ends is listed in full. -/
theorem heap_chain_exact (mem : MemReader) (layout : DetectedLayout) (libc_addr : UInt64) (arena : Arena)
    (secondary : arena.is_main = false) :
    (∀ top heaps problems, mem.read_u64 (topField layout arena) = .ok top → top ≠ 0 →
      HeapList.list mem layout libc_addr arena = some (.ok (heaps, problems)) →
      Followed mem layout arena top heaps problems) ∧
    (OfCore mem → layout.Sized → ∀ top rest, ArenaChain mem layout arena top rest 0 → ∃ heaps,
      HeapList.list mem layout libc_addr arena = some (.ok (heaps, [])) ∧
      heaps.map Heap.address = to_heap_start top layout.heap_max_size :: rest) := by
  have isSecondary : HeapList.list mem layout libc_addr arena = list_secondary mem layout arena := by
    rw [HeapList.list, secondary, if_neg (by simp)]
  rw [isSecondary]
  constructor
  · intro top heaps problems readTop used listed
    exact list_secondary_followed readTop used listed
  · intro core sized top rest chain
    exact list_secondary_complete chain (not_scanless core sized chain)

/-- The two heaps in blocks of their own are listed in full. -/
theorem heap_chain_exact_two_heaps : ∃ heaps,
    HeapList.list two_heaps blocks 0x1000 second_arena = some (.ok (heaps, [])) ∧
    heaps.map Heap.address = [0x8000000, 0x4000000] := by
  have newer : Links two_heaps blocks 0x8000038 0x8000000 0x8000000 0x4000000 :=
    ⟨⟨0x40, 0x1000, 0x4000000⟩, 0x8000040, rfl, rfl, rfl⟩
  have older : Links two_heaps blocks 0x8000038 0x8000000 0x4000000 0 :=
    ⟨⟨0x8f0, 0x1000, 0⟩, 0x40008f0, rfl, rfl, rfl⟩
  have chain : ArenaChain two_heaps blocks second_arena 0x8000038 [0x4000000] 0 :=
    ⟨rfl, by decide, by decide, by decide, newer, by decide, older⟩
  exact (heap_chain_exact two_heaps blocks 0x1000 second_arena rfl).2 (fake_mem_ofCore (by simp))
    ⟨.inr rfl, rfl, rfl⟩ 0x8000038 [0x4000000] chain

end HeapAnalyser.CoreMemory
