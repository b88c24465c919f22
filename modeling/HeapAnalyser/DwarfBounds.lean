import HeapAnalyser.DwarfSelection

/-!
A layout that `assemble_layout` accepts is in bounds (`assemble_layout_in_bounds`):
its offsets are those of one candidate of each required target, exactly, and the
ranges that the heap readers take from it lie inside that candidate and do not
meet, in numbers without a bound.
-/
namespace HeapAnalyser.DwarfBounds
open Checks Dwarf DwarfMembers DwarfSelection

/-- Each target's offsets come from one of its candidates, and are in bounds there. -/
structure InBounds (index : TypeIndex) (word : Nat) (require_tcache : Bool) (layout : DwarfLayout) : Prop where
  malloc_state : ∃ struct ∈ listed index .MallocState, MallocStateIn struct word layout.malloc_state_size.toNat
    layout.fastbin_array_offset.toNat layout.fastbin_count.toNat layout.malloc_state_top_offset.toNat
    layout.malloc_state_next_offset.toNat
  malloc_par : ∃ struct ∈ listed index .MallocPar, MallocParIn struct word
    (layout.mp_arena_max_offset.map UInt32.toNat) layout.mp_sbrk_base_offset.toNat
    (layout.mp_tcache_bins_offset.map UInt32.toNat)
  heap_info : ∃ struct ∈ listed index .HeapInfo, HeapInfoIn struct word layout.heap_info_size.toNat
    layout.heap_info_ar_ptr_offset.toNat layout.heap_info_prev_offset.toNat layout.heap_info_size_offset.toNat
    layout.heap_info_mprotect_size_offset.toNat
  tcache : require_tcache = true → ∃ struct ∈ listed index .Tcache, ∃ entries bins,
    layout.tcache_entries_offset = some entries ∧ layout.tcache_max_bins = some bins ∧
    TcacheIn struct word entries.toNat bins.toNat
  no_tcache : require_tcache = false → layout.tcache_entries_offset = none ∧ layout.tcache_max_bins = none

/-- A value that is the only valid one is that of a candidate. -/
theorem candidate_of_only {index : TypeIndex} {word : UInt64} {target : Target} {value : Layout target}
    (only : validLayouts index word target = {value}) :
    ∃ struct ∈ listed index target, validate word target struct = .ok value :=
  (Set.eq_singleton_iff_unique_mem.mp only).1

/-- The tcache numbers of a layout that is made with a tcache. -/
theorem tcache_of_made {layout : DwarfLayout} {malloc_state : MallocStateLayout} {malloc_par : MallocParLayout}
    {heap_info : HeapInfoLayout} {tcache : TcacheLayout}
    (made : MadeOf layout malloc_state malloc_par heap_info (some tcache)) :
    ∃ entries bins, layout.tcache_entries_offset = some entries ∧ layout.tcache_max_bins = some bins ∧
      entries.toNat = tcache.entries.toNat ∧ bins.toNat = tcache.bins.toNat := by
  obtain ⟨entries, isEntries, entries_eq⟩ := Option.map_eq_some_iff.mp made.tcache_entries_offset
  obtain ⟨bins, isBins, bins_eq⟩ := Option.map_eq_some_iff.mp made.tcache_max_bins
  exact ⟨entries, bins, isEntries, isBins, entries_eq, bins_eq⟩

theorem assemble_layout_in_bounds (index : TypeIndex) (word : UInt64) (require_tcache : Bool) (layout : DwarfLayout)
    (accepted : assemble_layout index word require_tcache = .ok layout) :
    InBounds index word.toNat require_tcache layout := by
  obtain ⟨_, malloc_state, malloc_par, heap_info, tcache, selected⟩ := assemble_layout_eq_ok.mp accepted
  have made := selected.made
  obtain ⟨state_struct, state_listed, state_valid⟩ := candidate_of_only selected.malloc_state_only
  obtain ⟨par_struct, par_listed, par_valid⟩ := candidate_of_only selected.malloc_par_only
  obtain ⟨info_struct, info_listed, info_valid⟩ := candidate_of_only selected.heap_info_only
  refine ⟨⟨state_struct, state_listed, ?_⟩, ⟨par_struct, par_listed, ?_⟩, ⟨info_struct, info_listed, ?_⟩, ?_, ?_⟩
  · rw [made.malloc_state_size, made.fastbin_array_offset, made.fastbin_count, made.malloc_state_top_offset,
      made.malloc_state_next_offset]
    exact validate_malloc_state_ok state_valid
  · rw [made.mp_arena_max_offset, made.mp_sbrk_base_offset, made.mp_tcache_bins_offset]
    exact validate_malloc_par_ok par_valid
  · rw [made.heap_info_size, made.heap_info_ar_ptr_offset, made.heap_info_prev_offset, made.heap_info_size_offset,
      made.heap_info_mprotect_size_offset]
    exact validate_heap_info_ok info_valid
  · intro required
    obtain ⟨value, rfl, only⟩ := selected.tcache_only required
    obtain ⟨struct, member, valid⟩ := candidate_of_only only
    obtain ⟨entries, bins, isEntries, isBins, entries_eq, bins_eq⟩ := tcache_of_made made
    refine ⟨struct, member, entries, bins, isEntries, isBins, ?_⟩
    rw [entries_eq, bins_eq]
    exact validate_tcache_ok valid
  · intro absent
    obtain rfl := selected.tcache_none absent
    exact ⟨Option.map_eq_none_iff.mp made.tcache_entries_offset, Option.map_eq_none_iff.mp made.tcache_max_bins⟩

/-- The layout of a 64-bit glibc. -/
def valid_layout : DwarfLayout :=
  ⟨112, 16, 10, 96, 104, some 0, 8, some 16, 32, 0, 8, 16, 24, some 128, some 64⟩

theorem assemble_layout_in_bounds_valid_index : InBounds (valid_index .Unsigned 2 64) 8 true valid_layout :=
  assemble_layout_in_bounds (valid_index .Unsigned 2 64) 8 true valid_layout (by decide +kernel)

end HeapAnalyser.DwarfBounds
