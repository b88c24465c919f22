import HeapAnalyser.Analyze

/-!
The chunks of a secondary arena over all its heaps. Nothing checks the links of
the `prev` chain but their repetition, so two heaps of a forged chain can share
chunks without a problem (`secondary_chunks_shared`). What a listing and walks
without a problem do give is that every chunk lies in its own heap's region, so
that chunks are shared only where regions are; and the regions are apart when
the links are those of heaps as glibc maps them, each in a block of its own
(`secondary_chunks_apart`).
-/
namespace HeapAnalyser.SecondaryHeaps
open Machine Tiling Arenas HeapList Walk Analyze

/-- The bytes of a chunk. -/
def chunkBytes (event : ChunkEvent) : Set Nat := Set.Ico (startOf event) (startOf event + lengthOf event)

/-- One region ends before the other begins. -/
def RegionsApart (a b : Heap) : Prop := a.region_end ≤ b.region_start ∨ b.region_end ≤ a.region_start

/-- Where glibc puts heaps: blocks of `heap_max_size`, a power of two, each with
    its `_heap_info` and perhaps a `malloc_state` in front of its chunks. -/
structure MappedInBlocks (layout : DetectedLayout) (heaps : List Heap) : Prop where
  block : ∃ k, layout.heap_max_size.toNat = 2 ^ k
  info : layout.word.toNat ≤ layout.heap_info_size.toNat
  room : layout.heap_info_size.toNat + layout.main_arena.size.toNat < layout.heap_max_size.toNat
  aligned : ∀ heap ∈ heaps.tail, layout.heap_max_size.toNat ∣ heap.address.toNat
  inside : ∀ heap ∈ heaps.tail, heap.size ≤ layout.heap_max_size

section
variable {mem : MemReader} {layout : DetectedLayout} {arena : Arena}

theorem to_heap_start_toNat {heap_max_size : UInt64} {k : Nat} (block : heap_max_size.toNat = 2 ^ k) (addr : UInt64) :
    (to_heap_start addr heap_max_size).toNat = addr.toNat / 2 ^ k * 2 ^ k := by
  have bound := heap_max_size.toNat_lt
  have small : k ≤ 64 := by
    rw [block, Nat.pow_lt_pow_iff_right (by decide)] at bound
    exact bound.le
  have positive : 1 ≤ heap_max_size := UInt64.le_iff_toNat_le.mpr (by rw [block]; exact Nat.one_le_two_pow)
  apply and_not_mask_toNat addr (heap_max_size - 1) k small
  rw [UInt64.toNat_sub_of_le _ _ positive, block]
  rfl

private theorem block_fits {addr block : UInt64} {k : Nat} (size : block.toNat = 2 ^ k) (aligned : 2 ^ k ∣ addr.toNat) :
    addr.toNat + 2 ^ k ≤ 2 ^ 64 := by
  have bound := addr.toNat_lt
  have blockBound := block.toNat_lt
  have small : k ≤ 64 := by
    rw [size, Nat.pow_lt_pow_iff_right (by decide)] at blockBound
    exact blockBound.le
  obtain ⟨n, whole⟩ := aligned
  obtain ⟨m, space⟩ := Nat.pow_dvd_pow 2 small
  have less : n < m := by
    rw [whole, space] at bound
    exact Nat.lt_of_mul_lt_mul_left bound
  calc addr.toNat + 2 ^ k = 2 ^ k * (n + 1) := by rw [whole, Nat.mul_succ]
    _ ≤ 2 ^ k * m := Nat.mul_le_mul_left _ less
    _ = 2 ^ 64 := space.symm

/-- A heap's region lies in its aligned block, behind its `_heap_info`, but for
    the last word of the top's heap. -/
structure InBlock (layout : DetectedLayout) (k : Nat) (heap : Heap) : Prop where
  aligned : 2 ^ k ∣ heap.address.toNat
  starts : heap.address.toNat + layout.heap_info_size.toNat ≤ heap.region_start.toNat
  ends : heap.region_end.toNat < heap.address.toNat + 2 ^ k + layout.word.toNat

private theorem starts_behind_info {top top_heap prev : UInt64} {heap : Heap} (sized : layout.Sized)
    (room : heap.address.toNat + (layout.heap_info_size.toNat + layout.main_arena.size.toNat) < 2 ^ 64)
    (isHeap : SecondaryHeap mem layout top top_heap heap prev)
    (clean : (walk_region mem layout arena.index heap.region_start heap.region_end false).2 = []) :
    heap.address.toNat + layout.heap_info_size.toNat ≤ heap.region_start.toNat := by
  obtain ⟨order, p, sound, _⟩ := walk_region_clean sized clean
  obtain ⟨skipped, reached, _⟩ := skip_covered sized.word_toNat isHeap.region_start
    (UInt64.le_iff_toNat_le.mp order) (sound.phase clean)
  have wide : layout.heap_info_size.toUInt64.toNat = layout.heap_info_size.toNat := by simp
  have first : (heap.address + layout.heap_info_size.toUInt64).toNat =
      heap.address.toNat + layout.heap_info_size.toNat := by
    rw [add_toNat (by omega), wide]
  have behind : heap.address.toNat + layout.heap_info_size.toNat ≤ (secondary_start layout heap.address prev).toNat := by
    by_cases oldest : prev = 0
    · rw [secondary_start, if_pos oldest, add_toNat (by omega), first]
      omega
    · rw [secondary_start, if_neg oldest, first]
  omega

/-- The region of a heap ends in its block, but for the last word of the top's heap. -/
private theorem ends_in_block {k : Nat} {top prev : UInt64} {heap : Heap} (sized : layout.Sized)
    (block : layout.heap_max_size.toNat = 2 ^ k)
    (isHeap : SecondaryHeap mem layout top (to_heap_start top layout.heap_max_size) heap prev)
    (inside : heap.address ≠ to_heap_start top layout.heap_max_size → heap.size ≤ layout.heap_max_size) :
    heap.region_end.toNat < heap.address.toNat + 2 ^ k + layout.word.toNat := by
  have wordPos := sized.word_toNat
  have ends := isHeap.region_end
  unfold secondary_end at ends
  by_cases isTop : heap.address = to_heap_start top layout.heap_max_size
  · rw [if_pos isTop] at ends
    rw [← Option.some.inj ends, UInt64.toNat_add, isTop, to_heap_start_toNat block]
    have below := Nat.lt_div_mul_add (a := top.toNat) (Nat.two_pow_pos k)
    have wrapped := Nat.mod_le (top.toNat + layout.word.toNat) (2 ^ 64)
    omega
  · rw [if_neg isTop] at ends
    have sum := checked_add_eq_some.mp ends
    have small := UInt64.le_iff_toNat_le.mp (inside isTop)
    omega

/-- Heaps listed and walked without a problem are in the blocks glibc maps them in. -/
theorem listed_in_blocks (sized : layout.Sized) {heaps : List Heap} {k : Nat} {top : UInt64}
    (block : layout.heap_max_size.toNat = 2 ^ k) (mapped : MappedInBlocks layout heaps)
    (first : ∀ heap ∈ heaps.head?, heap.address = to_heap_start top layout.heap_max_size)
    (each : ∀ heap ∈ heaps, ∃ prev, SecondaryHeap mem layout top (to_heap_start top layout.heap_max_size) heap prev)
    (walked : ∀ heap ∈ heaps, (walk_region mem layout arena.index heap.region_start heap.region_end false).2 = []) :
    ∀ heap ∈ heaps, InBlock layout k heap := by
  intro heap member
  obtain ⟨prev, isHeap⟩ := each heap member
  have placed (aligned : 2 ^ k ∣ heap.address.toNat)
      (inside : heap.address ≠ to_heap_start top layout.heap_max_size → heap.size ≤ layout.heap_max_size) :
      InBlock layout k heap := by
    have fits := block_fits block aligned
    have room := mapped.room
    exact ⟨aligned, starts_behind_info sized (by omega) isHeap (walked heap member),
      ends_in_block sized block isHeap inside⟩
  cases heaps with
  | nil => simp at member
  | cons head rest =>
    rcases List.mem_cons.mp member with rfl | later
    · have isTop : heap.address = to_heap_start top layout.heap_max_size := first heap rfl
      refine placed ?_ fun other => absurd isTop other
      rw [isTop, to_heap_start_toNat block]
      exact Nat.dvd_mul_left _ _
    · exact placed (block ▸ mapped.aligned heap later) fun _ => mapped.inside heap later

theorem InBlock.apart {k : Nat} {a b : Heap} (inA : InBlock layout k a) (inB : InBlock layout k b)
    (info : layout.word.toNat ≤ layout.heap_info_size.toNat) (differ : a.address ≠ b.address) : RegionsApart a b := by
  obtain ⟨⟨m, whereA⟩, startA, endA⟩ := inA
  obtain ⟨⟨n, whereB⟩, startB, endB⟩ := inB
  have apart : m ≠ n := fun same => differ (UInt64.toNat_inj.mp (by rw [whereA, whereB, same]))
  rw [RegionsApart, UInt64.le_iff_toNat_le, UInt64.le_iff_toNat_le]
  rcases Nat.lt_or_gt_of_ne apart with less | more
  · have := Nat.mul_le_mul_left (2 ^ k) (show m + 1 ≤ n from less)
    rw [Nat.mul_succ] at this
    exact .inl (by omega)
  · have := Nat.mul_le_mul_left (2 ^ k) (show n + 1 ≤ m from more)
    rw [Nat.mul_succ] at this
    exact .inr (by omega)

theorem regions_apart (sized : layout.Sized) {heaps : List Heap}
    (listed : list_secondary mem layout arena = some (.ok (heaps, [])))
    (walked : ∀ heap ∈ heaps, (walk_region mem layout arena.index heap.region_start heap.region_end false).2 = [])
    (mapped : MappedInBlocks layout heaps) : heaps.Pairwise RegionsApart := by
  obtain ⟨k, block⟩ := mapped.block
  rcases list_secondary_spec listed with rfl | ⟨top, _, distinct, first, each⟩
  · exact .nil
  have placed := listed_in_blocks sized block mapped first each walked
  exact (List.pairwise_map.mp distinct).imp_of_mem fun {a b} inA inB differ =>
    (placed a inA).apart (placed b inB) mapped.info differ

end

/-- Which chunks of a secondary arena are apart: those of one heap, those of
    heaps whose regions are apart, and so all of them when the heaps are mapped
    in blocks. -/
structure ChunksApart (mem : MemReader) (layout : DetectedLayout) (arena : Arena) (heaps : List Heap) : Prop where
  inside : ∀ heap ∈ heaps, ∀ event ∈
    (walk_region mem layout arena.index heap.region_start heap.region_end false).1,
    heap.region_start.toNat ≤ startOf event ∧ startOf event + lengthOf event ≤ heap.region_end.toNat
  each : ∀ heap ∈ heaps, (walk_region mem layout arena.index heap.region_start heap.region_end false).1.Pairwise
    fun a b => Disjoint (chunkBytes a) (chunkBytes b)
  across : heaps.Pairwise RegionsApart →
    (walk_heaps mem layout arena heaps).1.Pairwise fun a b => Disjoint (chunkBytes a) (chunkBytes b)
  mapped : MappedInBlocks layout heaps →
    (walk_heaps mem layout arena heaps).1.Pairwise fun a b => Disjoint (chunkBytes a) (chunkBytes b)

/-- Where the heaps of a secondary arena are listed and walked without a
    problem, chunks are shared only where the heaps' regions are. -/
theorem secondary_chunks_apart (mem : MemReader) (layout : DetectedLayout) (sized : layout.Sized) (libc_addr : UInt64)
    (arena : Arena) (secondary : arena.is_main = false) (heaps : List Heap)
    (listed : HeapList.list mem layout libc_addr arena = some (.ok (heaps, [])))
    (walked : ∀ heap ∈ heaps, (walk_region mem layout arena.index heap.region_start heap.region_end false).2 = []) :
    ChunksApart mem layout arena heaps := by
  rw [HeapList.list, secondary, if_neg (by simp)] at listed
  have tiled : ∀ heap ∈ heaps, ∃ p, Tiles startOf lengthOf heap.region_start.toNat
      (walk_region mem layout arena.index heap.region_start heap.region_end false).1 p ∧
      p ≤ heap.region_end.toNat := by
    intro heap member
    obtain ⟨_, p, sound, _⟩ := walk_region_clean sized (walked heap member)
    exact ⟨p, sound.tiles, sound.inside⟩
  have inside : ∀ heap ∈ heaps, ∀ event ∈
      (walk_region mem layout arena.index heap.region_start heap.region_end false).1,
      heap.region_start.toNat ≤ startOf event ∧ startOf event + lengthOf event ≤ heap.region_end.toNat := by
    intro heap member event inWalk
    obtain ⟨p, tiles, le⟩ := tiled heap member
    obtain ⟨first, last⟩ := tiles.mem_bounds inWalk
    exact ⟨first, by omega⟩
  have each : ∀ heap ∈ heaps, (walk_region mem layout arena.index heap.region_start heap.region_end false).1.Pairwise
      (Apart startOf lengthOf) := by
    intro heap member
    obtain ⟨p, tiles, _⟩ := tiled heap member
    exact tiles.pairwise_apart
  have across (apart : heaps.Pairwise RegionsApart) :
      (walk_heaps mem layout arena heaps).1.Pairwise fun a b => Disjoint (chunkBytes a) (chunkBytes b) := by
    simp only [walk_heaps, secondary, List.flatMap_map]
    refine (flatMap_apart heaps _ (fun heap => heap.region_start.toNat) (fun heap => heap.region_end.toNat) each inside
      (apart.imp ?_)).imp Apart.disjoint
    intro a b either
    rwa [RegionsApart, UInt64.le_iff_toNat_le, UInt64.le_iff_toNat_le] at either
  exact ⟨inside, fun heap member => (each heap member).imp Apart.disjoint, across,
    fun mapped => across (regions_apart sized listed walked mapped)⟩

/-- A 64-bit target whose `malloc_state` has 2200 bytes, and a secondary arena. -/
def blocks : DetectedLayout := { test_layout 8 with main_arena := ⟨true, 0, 2200⟩ }
def second_arena : Arena := ⟨0x9000, 1⟩

/-- Two heaps in blocks of their own; the older one ends with a fencepost. -/
def two_heaps : MemReader :=
  fake_mem [(0x9060, 0x8000038),
    (0x8000008, 0x4000000), (0x8000010, 0x40), (0x8000018, 0x1000), (0x8000020, 0x25), (0x8000040, 0x1005),
    (0x4000008, 0x0), (0x4000010, 0x8f0), (0x4000018, 0x1000), (0x40008b8, 0x25), (0x40008d8, 0x10),
    (0x40008e8, 0x1)] []

def two_heaps_listed : List Heap :=
  [⟨0x8000000, 0x40, 0x1000, 0x8000020, 0x8000040⟩, ⟨0x4000000, 0x8f0, 0x1000, 0x40008b8, 0x40008f0⟩]

theorem secondary_chunks_apart_two_heaps :
    (walk_heaps two_heaps blocks second_arena two_heaps_listed).1.length = 2 ∧
    (walk_heaps two_heaps blocks second_arena two_heaps_listed).1.Pairwise fun a b =>
      Disjoint (chunkBytes a) (chunkBytes b) :=
  ⟨by decide, (secondary_chunks_apart two_heaps blocks ⟨.inr rfl, rfl, rfl⟩ 0x1000 second_arena rfl two_heaps_listed
    (by decide) (by decide)).mapped ⟨⟨26, rfl⟩, by decide, by decide, by decide, by decide⟩⟩

/-- A heap whose link leads into its own first chunk, where the payload looks
    like the `_heap_info` of a heap with one chunk. -/
def forged_link : MemReader :=
  fake_mem [(0x9060, 0x4001018),
    (0x4000008, 0x4000028), (0x4000010, 0x1018), (0x4000018, 0x2000), (0x4000020, 0x1005), (0x4001020, 0x1005),
    (0x4000030, 0x0), (0x4000038, 0x8c8), (0x4000040, 0x8c8), (0x40008e0, 0x15), (0x40008f0, 0x1)] []

def forged_listed : List Heap :=
  [⟨0x4000000, 0x1018, 0x2000, 0x4000020, 0x4001020⟩, ⟨0x4000028, 0x8c8, 0x8c8, 0x40008e0, 0x40008f0⟩]

/-- Listings and walks without a problem do not keep chunks apart: the chunk of
    a forged heap is counted inside another one. -/
theorem secondary_chunks_shared :
    ¬ ∀ (mem : MemReader) (layout : DetectedLayout) (_ : layout.Sized) (libc_addr : UInt64) (arena : Arena)
      (heaps : List Heap), arena.is_main = false →
      HeapList.list mem layout libc_addr arena = some (.ok (heaps, [])) →
      (∀ heap ∈ heaps, (walk_region mem layout arena.index heap.region_start heap.region_end false).2 = []) →
      (walk_heaps mem layout arena heaps).1.Pairwise fun a b => Disjoint (chunkBytes a) (chunkBytes b) := by
  intro apart
  have pairwise := apart forged_link blocks ⟨.inr rfl, rfl, rfl⟩ 0x1000 second_arena forged_listed rfl (by decide)
    (by decide)
  have events : (walk_heaps forged_link blocks second_arena forged_listed).1 =
      [⟨0x4000020, 0x4000028, 0xff8, 0x1000, true⟩, ⟨0x40008e0, 0x40008e8, 0x8, 0x10, true⟩] := by decide
  rw [events] at pairwise
  have disjoint := (List.pairwise_cons.mp pairwise).1 _ (List.mem_singleton.mpr rfl)
  have outer : 0x40008e0 ∈ chunkBytes ⟨0x4000020, 0x4000028, 0xff8, 0x1000, true⟩ := ⟨by decide, by decide⟩
  have inner : 0x40008e0 ∈ chunkBytes ⟨0x40008e0, 0x40008e8, 0x8, 0x10, true⟩ := ⟨by decide, by decide⟩
  exact Set.disjoint_left.mp disjoint outer inner

end HeapAnalyser.SecondaryHeaps
