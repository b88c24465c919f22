import HeapAnalyser.Problem

/-!
What the traversals read: process memory by address (`MemReader`, of
`elf/mod.rs`) and the malloc layout of the target's glibc (`DetectedLayout`, of
`glibc/mod.rs`), with the fields the heap analysis uses. `Sized` states what
`detect_with_debug` fixes for both word sizes.
-/
namespace HeapAnalyser

/-- Read access to process memory by virtual address. -/
structure MemReader where
  read_u64 : UInt64 → Except Error UInt64
  segment_start : UInt64 → Option UInt64

/-- A synthetic memory of the given words and `[start, end)` segments, as the
    `FakeMem` of the source's tests. -/
def fake_mem (words : List (UInt64 × UInt64)) (segments : List (UInt64 × UInt64)) : MemReader where
  read_u64 addr := match words.lookup addr with
    | some val => .ok val
    | none => .error (.AddressNotMapped addr)
  segment_start addr := (segments.find? fun s => s.1 ≤ addr ∧ addr < s.2).map Prod.fst

/-- A symbol of the reference libc. -/
structure SymbolInfo where
  present : Bool
  value : UInt64
  size : UInt64
  deriving Repr, DecidableEq

structure GlibcCapabilities where
  has_tcache : Bool
  has_safe_linking : Bool
  deriving Repr, DecidableEq

/-- Malloc structure offsets, symbols, TLS relocation and capabilities. -/
structure DetectedLayout where
  word_size : UInt32
  header_size : UInt32
  minsize : UInt32
  malloc_alignment : UInt32
  fastbin_array_offset : UInt32
  fastbin_count : UInt32
  malloc_state_top_offset : UInt32
  malloc_state_next_offset : UInt32
  mp_sbrk_base_offset : UInt32
  heap_info_size : UInt32
  heap_info_prev_offset : UInt32
  heap_info_size_offset : UInt32
  heap_info_mprotect_size_offset : UInt32
  heap_max_size : UInt64
  tcache_max_bins : UInt32
  tcache_entries_offset : UInt32
  main_arena : SymbolInfo
  mp : SymbolInfo
  tcache : SymbolInfo
  thread_arena : SymbolInfo
  tp_off_reloc_addr : Option UInt64
  capabilities : GlibcCapabilities
  problems : List Problem
  deriving Repr, DecidableEq

namespace DetectedLayout

/-- The machine word in bytes, as the walkers widen it. -/
def word (layout : DetectedLayout) : UInt64 := layout.word_size.toUInt64

/-- The chunk header in bytes. -/
def header (layout : DetectedLayout) : UInt64 := layout.header_size.toUInt64

/-- `MALLOC_ALIGNMENT`. -/
def alignment (layout : DetectedLayout) : UInt64 := layout.malloc_alignment.toUInt64

/-- The two supported word sizes, with the header and the alignment they fix. -/
structure Sized (layout : DetectedLayout) : Prop where
  word_size : layout.word_size = 4 ∨ layout.word_size = 8
  header_size : layout.header_size = layout.word_size
  malloc_alignment : layout.malloc_alignment = 2 * layout.word_size

namespace Sized
variable {layout : DetectedLayout}

theorem word_toNat (sized : layout.Sized) : layout.word.toNat = 4 ∨ layout.word.toNat = 8 := by
  rcases sized.word_size with four | eight
  · left; simp [word, four]
  · right; simp [word, eight]

theorem header_toNat (sized : layout.Sized) : layout.header.toNat = layout.word.toNat := by
  simp [header, word, sized.header_size]

theorem alignment_toNat (sized : layout.Sized) : layout.alignment.toNat = 2 * layout.word.toNat := by
  rcases sized.word_size with four | eight
  · simp [alignment, word, sized.malloc_alignment, four]
  · simp [alignment, word, sized.malloc_alignment, eight]

theorem two_word_toNat (sized : layout.Sized) : (2 * layout.word).toNat = 2 * layout.word.toNat := by
  rcases sized.word_size with four | eight
  · simp [word, four]
  · simp [word, eight]

end Sized
end DetectedLayout

/-- The builtin offsets of `test_layout`, with the hugepage fields absent. -/
def test_layout (word_size : UInt32) : DetectedLayout where
  word_size := word_size
  header_size := word_size
  minsize := if word_size = 8 then 32 else 16
  malloc_alignment := if word_size = 8 then 16 else 8
  fastbin_array_offset := if word_size = 8 then 16 else 12
  fastbin_count := if word_size = 8 then 10 else 11
  malloc_state_top_offset := if word_size = 8 then 96 else 56
  malloc_state_next_offset := if word_size = 8 then 2160 else 1096
  mp_sbrk_base_offset := if word_size = 8 then 72 else 56
  heap_info_size := 4 * word_size
  heap_info_prev_offset := word_size
  heap_info_size_offset := 2 * word_size
  heap_info_mprotect_size_offset := 3 * word_size
  heap_max_size := if word_size = 8 then 0x4000000 else 0x100000
  tcache_max_bins := 64
  tcache_entries_offset := 128
  main_arena := ⟨true, 0, 0⟩
  mp := ⟨true, 0, 0⟩
  tcache := ⟨true, 0, 0⟩
  thread_arena := ⟨true, 0, 0⟩
  tp_off_reloc_addr := some 0
  capabilities := ⟨true, false⟩
  problems := []

theorem test_layout_sized : (test_layout 8).Sized ∧ (test_layout 4).Sized :=
  ⟨⟨.inr rfl, rfl, rfl⟩, ⟨.inl rfl, rfl, rfl⟩⟩

end HeapAnalyser
