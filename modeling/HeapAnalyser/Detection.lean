import HeapAnalyser.DebugLink
import HeapAnalyser.DwarfBounds
import HeapAnalyser.DwarfExtract
import HeapAnalyser.SymbolScan
import HeapAnalyser.Threads

/-!
Detecting the malloc layout of a libc (`detect_with_debug` of `glibc/mod.rs`):
its symbols, the built-in offset tables, and the offsets that debuginfo
describes, which replace the built-in ones as one set. Whatever the libc, the
debuginfo and the decoder are, the layout that is detected has a sound geometry
(`detected_layout_sound`): word and alignment match, no two fields that are read
overlap, and each lies in its structure.
-/
namespace HeapAnalyser.Detection
open Version SymbolScan Dwarf DwarfSections DwarfExtract DwarfSelection DwarfMembers DwarfBounds DebugLink

/-- What the tool knows of an architecture. -/
structure Handler extends Threads.Arch where
  elf_machine : UInt16
  name : String
  tp_off_reloc_type : UInt32

def x86_64 : Handler := { Threads.X86_64 with elf_machine := 62, name := "x86_64", tp_off_reloc_type := 18 }

def aarch64 : Handler := { Threads.Aarch64 with elf_machine := 183, name := "aarch64", tp_off_reloc_type := 1030 }

def by_elf_machine (e_machine : UInt16) : Option Handler :=
  if e_machine = x86_64.elf_machine then some x86_64
  else if e_machine = aarch64.elf_machine then some aarch64
  else none

structure MallocStateOffsets where
  top : UInt32
  next : UInt32
  fastbin_array : UInt32
  fastbin_count : UInt32

def MallocStateOffsets.new (word_size : UInt32) : MallocStateOffsets :=
  if word_size = 8 then ⟨96, 2160, 16, 10⟩ else ⟨56, 1096, 12, 11⟩

structure HeapInfoOffsets where
  ar_ptr : UInt32
  prev : UInt32
  size : UInt32
  mprotect_size : UInt32
  sizeof : UInt32
  heap_max_size : UInt64

def align_up (value align : UInt32) : UInt32 :=
  if align = 0 then value else (value + (align - 1)) &&& ~~~(align - 1)

/-- A build with huge pages has one more field before the tail padding. -/
def HeapInfoOffsets.new (word_size : UInt32) (has_hugepage : Bool) : HeapInfoOffsets where
  ar_ptr := 0
  prev := word_size
  size := 2 * word_size
  mprotect_size := 3 * word_size
  sizeof := align_up (if has_hugepage then 5 * word_size else 4 * word_size) (if word_size = 8 then 16 else 8)
  heap_max_size := if word_size = 8 then (64 : UInt64) <<< 20 else (1 : UInt64) <<< 20

structure TcacheOffsets where
  entries : UInt32
  max_bins : UInt32

def TCACHE_MAX_BINS : UInt32 := 64

/-- `entries` follows the counts, of two bytes each. -/
def TcacheOffsets.new : TcacheOffsets := ⟨TCACHE_MAX_BINS * 2, TCACHE_MAX_BINS⟩

def mp_sbrk_base (word_size : UInt32) (has_hugepage : Bool) : UInt32 :=
  if word_size = 8 then if has_hugepage then 96 else 72
  else if has_hugepage then 44 else 56

inductive LayoutSource where
  | Builtin
  | Dwarf
  deriving Repr, DecidableEq

/-- The layout with the fields that the heap readers do not use. -/
structure Detected extends DetectedLayout where
  layout_source : LayoutSource
  mp_arena_max_offset : UInt32
  mp_tcache_bins_offset : UInt32
  heap_info_ar_ptr_offset : UInt32
  narenas : SymbolInfo
  narenas_limit : SymbolInfo
  tcache_key : SymbolInfo
  version_source : VersionSource
  deriving Repr, DecidableEq

/-- The target of the first zero-addend TP-offset relocation. -/
def find_tp_off_reloc (elf : Object) (arch : Handler) : Option UInt64 :=
  (elf.dynrelas.find? fun r => r.r_type = arch.tp_off_reloc_type ∧ r.r_addend.getD 0 = 0).map Reloc.r_offset

def word_size_of (elf : Object) : UInt32 := if elf.is_64 then 8 else 4

/-- The layout before debuginfo is looked at for offsets. -/
def detect_builtin (elf : Object) (debug : Option Object) (arch : Handler) : Detected :=
  let word_size := word_size_of elf
  let (symbols, sym_problems) := scan_symbols elf debug
  let problems := sym_problems
    ++ (if (symbols .main_arena).present then [] else [.MissingSymbol "main_arena"])
    ++ (if (symbols .mp).present then [] else [.MissingSymbol "mp_"])
  let has_hugepage := (symbols .hugepage_config).present
  let ms := MallocStateOffsets.new word_size
  let hi := HeapInfoOffsets.new word_size has_hugepage
  let tc := TcacheOffsets.new
  let mp_sbrk_base_offset := mp_sbrk_base word_size has_hugepage
  let tp_off_reloc_addr := find_tp_off_reloc elf arch
  let problems := problems ++ (if tp_off_reloc_addr.isNone then [.MissingRelocation] else [])
  let (capabilities, problems) := detect_capabilities elf (symbols .tcache).present problems
  { layout_source := .Builtin
    word_size := word_size
    header_size := word_size
    minsize := if word_size = 8 then 32 else 16
    malloc_alignment := if word_size = 8 then 16 else 8
    fastbin_array_offset := ms.fastbin_array
    fastbin_count := ms.fastbin_count
    malloc_state_top_offset := ms.top
    malloc_state_next_offset := ms.next
    mp_arena_max_offset := 4 * word_size
    mp_sbrk_base_offset := mp_sbrk_base_offset
    mp_tcache_bins_offset := mp_sbrk_base_offset + word_size
    heap_info_size := hi.sizeof
    heap_info_ar_ptr_offset := hi.ar_ptr
    heap_info_prev_offset := hi.prev
    heap_info_size_offset := hi.size
    heap_info_mprotect_size_offset := hi.mprotect_size
    heap_max_size := hi.heap_max_size
    tcache_max_bins := tc.max_bins
    tcache_entries_offset := tc.entries
    main_arena := symbols .main_arena
    mp := symbols .mp
    narenas := symbols .narenas
    narenas_limit := symbols .narenas_limit
    tcache := symbols .tcache
    tcache_key := symbols .tcache_key
    thread_arena := symbols .thread_arena
    tp_off_reloc_addr := tp_off_reloc_addr
    capabilities := capabilities.toGlibcCapabilities
    version_source := capabilities.version_source
    problems := problems }

/-- The offsets of debuginfo in place of the built-in ones. -/
def Detected.apply_dwarf (self : Detected) (layout : DwarfLayout) : Detected :=
  { self with
    layout_source := .Dwarf
    main_arena := { self.main_arena with size := layout.malloc_state_size.toUInt64 }
    fastbin_array_offset := layout.fastbin_array_offset
    fastbin_count := layout.fastbin_count
    malloc_state_top_offset := layout.malloc_state_top_offset
    malloc_state_next_offset := layout.malloc_state_next_offset
    mp_sbrk_base_offset := layout.mp_sbrk_base_offset
    mp_arena_max_offset := layout.mp_arena_max_offset.getD self.mp_arena_max_offset
    mp_tcache_bins_offset := layout.mp_tcache_bins_offset.getD self.mp_tcache_bins_offset
    heap_info_size := layout.heap_info_size
    heap_info_ar_ptr_offset := layout.heap_info_ar_ptr_offset
    heap_info_prev_offset := layout.heap_info_prev_offset
    heap_info_size_offset := layout.heap_info_size_offset
    heap_info_mprotect_size_offset := layout.heap_info_mprotect_size_offset
    tcache_entries_offset := match layout.tcache_entries_offset, layout.tcache_max_bins with
      | some entries, some _ => entries
      | _, _ => self.tcache_entries_offset
    tcache_max_bins := match layout.tcache_entries_offset, layout.tcache_max_bins with
      | some _, some bins => bins
      | _, _ => self.tcache_max_bins }

/-- An error of the extraction as a text. -/
def error_text : DwarfLayoutError → String
  | .Unavailable => "DWARF debug_info is unavailable"
  | .Unsupported feature => "unsupported DWARF feature: " ++ feature
  | .Limit resource => "DWARF resource limit exceeded: " ++ resource
  | .Invalid reason => "invalid DWARF malloc layout: " ++ reason
  | .Parse reason => "failed to parse DWARF: " ++ reason

/-- The code outside that detection uses: what expands and decodes debuginfo. -/
structure Tools where
  host : Host
  decode : List (String × List UInt8) → Decoded

/-- Detection never fails: what is wrong is in the problems. -/
def detect_with_debug (tools : Tools) (elf : Object) (debug : Option Object) (arch : Handler) : Detected :=
  let layout := detect_builtin elf debug arch
  let dwarf_elf := debug.getD elf
  match extract_layout tools.host tools.decode dwarf_elf.sectioned layout.capabilities.has_tcache with
  | .ok dwarf => layout.apply_dwarf dwarf
  | .error error =>
    if error = .Unavailable ∧ debug.isNone = true then layout
    else { layout with problems := layout.problems ++ [.DwarfLayoutFallback (error_text error)] }

/-! ## The geometry of a layout -/

/-- The words of a `_heap_info`, with their ranges. -/
def heapInfoWords (word : Nat) (ar_ptr prev size mprotect_size : UInt32) : List (Nat × Nat) :=
  [(ar_ptr.toNat, word), (prev.toNat, word), (size.toNat, word), (mprotect_size.toNat, word)]

/-- What the readers take from a `malloc_state`. -/
def mallocStateRanges (word : Nat) (fastbins fastbin_count top next : UInt32) : List (Nat × Nat) :=
  [(fastbins.toNat, fastbin_count.toNat * word), (top.toNat, word), (next.toNat, word)]

/-- The geometry of the offsets that debuginfo describes. -/
structure SoundOffsets (layout : DwarfLayout) (word : Nat) : Prop where
  fastbin_count : 1 ≤ layout.fastbin_count.toNat ∧ layout.fastbin_count.toNat ≤ 256
  malloc_state_apart : (mallocStateRanges word layout.fastbin_array_offset layout.fastbin_count
    layout.malloc_state_top_offset layout.malloc_state_next_offset).Pairwise Apart
  malloc_state_inside : ∀ range ∈ mallocStateRanges word layout.fastbin_array_offset layout.fastbin_count
    layout.malloc_state_top_offset layout.malloc_state_next_offset, range.1 + range.2 ≤ layout.malloc_state_size.toNat
  malloc_state_words : ∀ offset ∈ [layout.malloc_state_top_offset, layout.malloc_state_next_offset],
    offset.toNat % word = 0
  heap_info_apart : (heapInfoWords word layout.heap_info_ar_ptr_offset layout.heap_info_prev_offset
    layout.heap_info_size_offset layout.heap_info_mprotect_size_offset).Pairwise Apart
  heap_info_words : ∀ range ∈ heapInfoWords word layout.heap_info_ar_ptr_offset layout.heap_info_prev_offset
    layout.heap_info_size_offset layout.heap_info_mprotect_size_offset, WordAt word layout.heap_info_size.toNat range.1
  heap_info_small : layout.heap_info_size.toNat ≤ 2 ^ 20
  mp_aligned : ∀ offset ∈ [layout.mp_arena_max_offset, some layout.mp_sbrk_base_offset, layout.mp_tcache_bins_offset],
    ∀ v ∈ offset, v.toNat % word = 0
  tcache : ∀ entries ∈ layout.tcache_entries_offset, ∀ bins ∈ layout.tcache_max_bins,
    1 ≤ bins.toNat ∧ bins.toNat ≤ 1024 ∧ entries.toNat + bins.toNat * word ≤ 2 ^ 20

/-- The layout that definitions agree on is that of a definition of a bounded size. -/
theorem struct_of_only {decoded : Decoded} {scans : List UnitScan} {word : UInt64} {target : Target}
    {value : DwarfSelection.Layout target} (only : definedLayouts decoded scans word target = {value}) :
    ∃ struct, struct.byte_size.toNat ≤ 2 ^ 20 ∧ validate word target struct = .ok value := by
  obtain ⟨struct, defined, valid⟩ := (Set.eq_singleton_iff_unique_mem.mp only).1
  exact ⟨struct, UInt64.le_iff_toNat_le.mp (definitions_bounded defined), valid⟩

private theorem optional_aligned {struct : Structure} {word : Nat} {name : String} {offset : Option UInt64}
    {narrow : Option UInt32} (same : narrow.map UInt32.toNat = offset.map fun v => v.toNat)
    (optional : OptionalWord struct word name (offset.map UInt64.toNat)) : ∀ v ∈ narrow, v.toNat % word = 0 := by
  intro v isOffset
  rw [Option.mem_def] at isOffset
  rw [isOffset, Option.map_some] at same
  obtain ⟨wide, isWide, value⟩ := Option.map_eq_some_iff.mp same.symm
  rw [isWide] at optional
  rw [← value]
  exact optional.2.1

/-- What is extracted from debuginfo has a sound geometry. -/
theorem extracted_sound {tools : Tools} {elf : SectionedElf} {require_tcache : Bool} {layout : DwarfLayout}
    (extracted : extract_layout tools.host tools.decode elf require_tcache = .ok layout) :
    SoundOffsets layout (elf_word elf).toNat := by
  obtain ⟨sections, scans, index, extractable, defined, assembled⟩ := extract_layout_sound extracted
  obtain ⟨_, malloc_state, malloc_par, heap_info, tcache, selected⟩ := assemble_layout_eq_ok.mp assembled
  have agreed := (selectedFrom_iff_agreedOn defined).mp selected
  have made := agreed.made
  obtain ⟨state_struct, _, state_valid⟩ := struct_of_only agreed.malloc_state_only
  obtain ⟨par_struct, _, par_valid⟩ := struct_of_only agreed.malloc_par_only
  obtain ⟨info_struct, info_small, info_valid⟩ := struct_of_only agreed.heap_info_only
  have state := validate_malloc_state_ok state_valid
  have par := validate_malloc_par_ok par_valid
  have info := validate_heap_info_ok info_valid
  have info_words := info.words
  simp only [List.forall_mem_cons, List.not_mem_nil, false_implies, implies_true, and_true] at info_words
  refine ⟨?_, ?_, ?_, ?_, ?_, ?_, ?_, ?_, ?_⟩
  · rw [made.fastbin_count]
    exact state.count_range
  · simp only [mallocStateRanges, made.fastbin_array_offset, made.fastbin_count, made.malloc_state_top_offset,
      made.malloc_state_next_offset]
    exact state.apart
  · simp only [mallocStateRanges, made.fastbin_array_offset, made.fastbin_count, made.malloc_state_top_offset,
      made.malloc_state_next_offset, made.malloc_state_size, List.forall_mem_cons, List.not_mem_nil, false_implies,
      implies_true, and_true]
    exact ⟨state.fastbins_inside, state.top_word.2, state.next_word.2⟩
  · simp only [made.malloc_state_top_offset, made.malloc_state_next_offset, List.forall_mem_cons, List.not_mem_nil,
      false_implies, implies_true, and_true]
    exact ⟨state.top_word.1, state.next_word.1⟩
  · simp only [heapInfoWords, made.heap_info_ar_ptr_offset, made.heap_info_prev_offset, made.heap_info_size_offset,
      made.heap_info_mprotect_size_offset]
    exact info.apart
  · simp only [heapInfoWords, made.heap_info_ar_ptr_offset, made.heap_info_prev_offset, made.heap_info_size_offset,
      made.heap_info_mprotect_size_offset, made.heap_info_size, List.forall_mem_cons, List.not_mem_nil, false_implies,
      implies_true, and_true]
    exact ⟨info_words.1.2, info_words.2.1.2, info_words.2.2.1.2, info_words.2.2.2.2⟩
  · rw [made.heap_info_size, ← info.size_eq]
    exact info_small
  · simp only [List.forall_mem_cons, List.not_mem_nil, false_implies, implies_true, and_true]
    refine ⟨optional_aligned made.mp_arena_max_offset par.arena_max_word, ?_,
      optional_aligned made.mp_tcache_bins_offset par.tcache_bins_word⟩
    rintro v ⟨⟩
    rw [made.mp_sbrk_base_offset]
    exact par.sbrk_base_word.1
  · intro entries isEntries bins isBins
    cases require_tcache with
    | false =>
      obtain rfl := agreed.tcache_none rfl
      rw [Option.map_eq_none_iff.mp made.tcache_entries_offset] at isEntries
      cases isEntries
    | true =>
      obtain ⟨value, rfl, only⟩ := agreed.tcache_only rfl
      obtain ⟨struct, small, valid⟩ := struct_of_only only
      have checked := validate_tcache_ok valid
      obtain ⟨ownEntries, ownBins, hasEntries, hasBins, entries_eq, bins_eq⟩ := tcache_of_made made
      obtain rfl : ownEntries = entries := Option.some.inj (hasEntries.symm.trans isEntries)
      obtain rfl : ownBins = bins := Option.some.inj (hasBins.symm.trans isBins)
      rw [entries_eq, bins_eq]
      exact ⟨checked.count_range.1, checked.count_range.2, le_trans checked.entries_inside small⟩

/-- A layout that the readers can use. -/
structure Sound (layout : Detected) : Prop where
  sized : layout.Sized
  minsize : layout.minsize = 4 * layout.word_size
  heap_max_size : layout.heap_max_size.toNat = 2 ^ 20 ∨ layout.heap_max_size.toNat = 2 ^ 26
  fastbin_count : 1 ≤ layout.fastbin_count.toNat ∧ layout.fastbin_count.toNat ≤ 256
  malloc_state_apart : (mallocStateRanges layout.word_size.toNat layout.fastbin_array_offset layout.fastbin_count
    layout.malloc_state_top_offset layout.malloc_state_next_offset).Pairwise Apart
  malloc_state_inside : layout.layout_source = .Dwarf → ∀ range ∈ mallocStateRanges layout.word_size.toNat
    layout.fastbin_array_offset layout.fastbin_count layout.malloc_state_top_offset layout.malloc_state_next_offset,
    range.1 + range.2 ≤ layout.main_arena.size.toNat
  malloc_state_words : ∀ offset ∈ [layout.malloc_state_top_offset, layout.malloc_state_next_offset],
    offset.toNat % layout.word_size.toNat = 0
  heap_info_apart : (heapInfoWords layout.word_size.toNat layout.heap_info_ar_ptr_offset layout.heap_info_prev_offset
    layout.heap_info_size_offset layout.heap_info_mprotect_size_offset).Pairwise Apart
  heap_info_words : ∀ range ∈ heapInfoWords layout.word_size.toNat layout.heap_info_ar_ptr_offset
    layout.heap_info_prev_offset layout.heap_info_size_offset layout.heap_info_mprotect_size_offset,
    WordAt layout.word_size.toNat layout.heap_info_size.toNat range.1
  heap_info_small : layout.heap_info_size.toNat ≤ layout.heap_max_size.toNat
  mp_aligned : ∀ offset ∈ [layout.mp_arena_max_offset, layout.mp_sbrk_base_offset, layout.mp_tcache_bins_offset],
    offset.toNat % layout.word_size.toNat = 0
  tcache : 1 ≤ layout.tcache_max_bins.toNat ∧ layout.tcache_max_bins.toNat ≤ 1024 ∧
    layout.tcache_entries_offset.toNat + layout.tcache_max_bins.toNat * layout.word_size.toNat ≤ 2 ^ 20

instance (left right : Nat × Nat) : Decidable (Apart left right) := inferInstanceAs (Decidable (_ ∨ _))

instance (word size offset : Nat) : Decidable (WordAt word size offset) := inferInstanceAs (Decidable (_ ∧ _))

private theorem malloc_state_table_sound {word_size : UInt32} (isWord : word_size = 4 ∨ word_size = 8) :
    let ms := MallocStateOffsets.new word_size
    (1 ≤ ms.fastbin_count.toNat ∧ ms.fastbin_count.toNat ≤ 256) ∧
      (mallocStateRanges word_size.toNat ms.fastbin_array ms.fastbin_count ms.top ms.next).Pairwise Apart ∧
      ms.top.toNat % word_size.toNat = 0 ∧ ms.next.toNat % word_size.toNat = 0 := by
  rcases isWord with rfl | rfl <;> decide

private theorem heap_info_table_sound {word_size : UInt32} (isWord : word_size = 4 ∨ word_size = 8)
    (has_hugepage : Bool) :
    let hi := HeapInfoOffsets.new word_size has_hugepage
    (hi.heap_max_size.toNat = 2 ^ 20 ∨ hi.heap_max_size.toNat = 2 ^ 26) ∧
      (heapInfoWords word_size.toNat hi.ar_ptr hi.prev hi.size hi.mprotect_size).Pairwise Apart ∧
      (∀ range ∈ heapInfoWords word_size.toNat hi.ar_ptr hi.prev hi.size hi.mprotect_size,
        WordAt word_size.toNat hi.sizeof.toNat range.1) ∧ hi.sizeof.toNat ≤ hi.heap_max_size.toNat := by
  rcases isWord with rfl | rfl <;> cases has_hugepage <;> decide +kernel

private theorem mp_table_sound {word_size : UInt32} (isWord : word_size = 4 ∨ word_size = 8) (has_hugepage : Bool) :
    (4 * word_size).toNat % word_size.toNat = 0 ∧ (mp_sbrk_base word_size has_hugepage).toNat % word_size.toNat = 0 ∧
      (mp_sbrk_base word_size has_hugepage + word_size).toNat % word_size.toNat = 0 := by
  rcases isWord with rfl | rfl <;> cases has_hugepage <;> decide

private theorem tcache_table_sound {word_size : UInt32} (isWord : word_size = 4 ∨ word_size = 8) :
    1 ≤ TcacheOffsets.new.max_bins.toNat ∧ TcacheOffsets.new.max_bins.toNat ≤ 1024 ∧
      TcacheOffsets.new.entries.toNat + TcacheOffsets.new.max_bins.toNat * word_size.toNat ≤ 2 ^ 20 := by
  rcases isWord with rfl | rfl <;> decide

private theorem word_size_cases (elf : Object) : word_size_of elf = 4 ∨ word_size_of elf = 8 := by
  unfold word_size_of
  cases elf.is_64
  · exact .inl rfl
  · exact .inr rfl

theorem builtin_sound (elf : Object) (debug : Option Object) (arch : Handler) :
    Sound (detect_builtin elf debug arch) := by
  have isWord := word_size_cases elf
  have state := malloc_state_table_sound isWord
  have info := heap_info_table_sound isWord ((scan_symbols elf debug).1 .hugepage_config).present
  have numbers : (if word_size_of elf = 8 then (16 : UInt32) else 8) = 2 * word_size_of elf ∧
      (if word_size_of elf = 8 then (32 : UInt32) else 16) = 4 * word_size_of elf := by
    rcases isWord with four | eight
    · rw [four]
      decide
    · rw [eight]
      decide
  exact {
    sized := ⟨isWord, rfl, numbers.1⟩
    minsize := numbers.2
    heap_max_size := info.1
    fastbin_count := state.1
    malloc_state_apart := state.2.1
    malloc_state_inside := fun fromDwarf => by cases fromDwarf
    malloc_state_words := by
      simp only [List.forall_mem_cons, List.not_mem_nil, false_implies, implies_true, and_true]
      exact state.2.2
    heap_info_apart := info.2.1
    heap_info_words := info.2.2.1
    heap_info_small := info.2.2.2
    mp_aligned := by
      simp only [List.forall_mem_cons, List.not_mem_nil, false_implies, implies_true, and_true]
      exact mp_table_sound isWord _
    tcache := tcache_table_sound isWord }

private theorem getD_aligned {own : Option UInt32} {built_in : UInt32} {word : Nat} (has : ∀ v ∈ own, v.toNat % word = 0)
    (base : built_in.toNat % word = 0) : (own.getD built_in).toNat % word = 0 := by
  cases own with
  | none => exact base
  | some v => exact has v rfl

/-- Offsets of debuginfo for the same word keep the geometry sound. -/
theorem apply_dwarf_sound {self : Detected} {layout : DwarfLayout} (sound : Sound self)
    (offsets : SoundOffsets layout self.word_size.toNat) : Sound (self.apply_dwarf layout) := by
  have mp := offsets.mp_aligned
  have base := sound.mp_aligned
  simp only [List.forall_mem_cons, List.not_mem_nil, false_implies, implies_true, and_true] at mp base
  have inside := offsets.malloc_state_inside
  rw [← UInt32.toNat_toUInt64 layout.malloc_state_size] at inside
  refine ⟨⟨sound.sized.word_size, sound.sized.header_size, sound.sized.malloc_alignment⟩, sound.minsize,
    sound.heap_max_size, offsets.fastbin_count, offsets.malloc_state_apart, fun _ => inside,
    offsets.malloc_state_words, offsets.heap_info_apart,
    offsets.heap_info_words, ?_, ?_, ?_⟩
  · have small := offsets.heap_info_small
    change layout.heap_info_size.toNat ≤ self.heap_max_size.toNat
    rcases sound.heap_max_size with isMax | isMax
    · rw [isMax]
      exact small
    · rw [isMax]
      omega
  · simp only [List.forall_mem_cons, List.not_mem_nil, false_implies, implies_true, and_true]
    exact ⟨getD_aligned mp.1 base.1, mp.2.1 _ rfl, getD_aligned mp.2.2 base.2.2⟩
  · have tcache := offsets.tcache
    unfold Detected.apply_dwarf
    cases isEntries : layout.tcache_entries_offset with
    | none => exact sound.tcache
    | some entries =>
      cases isBins : layout.tcache_max_bins with
      | none => exact sound.tcache
      | some bins => exact tcache entries isEntries bins isBins

/-- The ELF that offsets are extracted from has the word of the runtime. -/
theorem dwarf_elf_word {crc32 : List UInt8 → UInt32} {elf : Object} {debug : Option Object}
    (verified : ∀ d ∈ debug, verify_debug_matches_runtime crc32 elf d = .ok ()) :
    (elf_word (debug.getD elf).sectioned).toNat = (word_size_of elf).toNat := by
  have same : (debug.getD elf).is_64 = elf.is_64 := by
    cases debug with
    | none => rfl
    | some d => exact (verify_eq_ok.mp (verified d rfl)).2.1.symm
  unfold elf_word word_size_of Object.sectioned
  rw [same]
  cases elf.is_64 <;> rfl

/-- Every layout that is detected has a sound geometry, for any libc, debuginfo that
    belongs to it and decoder. -/
theorem detected_layout_sound (tools : Tools) (crc32 : List UInt8 → UInt32) (elf : Object) (debug : Option Object)
    (arch : Handler) (verified : ∀ d ∈ debug, verify_debug_matches_runtime crc32 elf d = .ok ()) :
    Sound (detect_with_debug tools elf debug arch) := by
  have base := builtin_sound elf debug arch
  unfold detect_with_debug
  simp only
  split
  · rename_i dwarf extracted
    have offsets := extracted_sound extracted
    rw [dwarf_elf_word verified] at offsets
    exact apply_dwarf_sound base offsets
  · split
    · exact base
    · exact ⟨⟨base.sized.word_size, base.sized.header_size, base.sized.malloc_alignment⟩, base.minsize,
        base.heap_max_size, base.fastbin_count, base.malloc_state_apart, base.malloc_state_inside,
        base.malloc_state_words, base.heap_info_apart, base.heap_info_words, base.heap_info_small, base.mp_aligned, base.tcache⟩

/-- A libc that has a build-id note and no debuginfo. -/
def small_libc : Object where
  is_64 := true
  program_headers := [⟨⟨BuildId.PT_NOTE, 0, 20⟩, 0⟩]
  data := ⟨[4, 0, 0, 0, 2, 0, 0, 0, 3, 0, 0, 0, 0x47, 0x4e, 0x55, 0, 0xab, 0xcd, 0, 0], by decide⟩
  machine := 62
  little_endian := true
  sections := []
  syms := [⟨some "main_arena", 1, 0x1000, 2200⟩, ⟨some "mp_", 1, 0x2000, 0⟩]
  dynrelas := [⟨18, some 0, 0x3000⟩]
  verdef := some [[some "GLIBC_2.2.5"], [some "GLIBC_2.34"]]

/-- A decoder that finds nothing, and a host that expands nothing. -/
def no_tools : Tools where
  host := ⟨fun _ => ⟨[], none⟩, fun _ => true⟩
  decode _ := ⟨[], fun _ => .error "UnexpectedEof"⟩

theorem small_layout_sound : Sound (detect_with_debug no_tools small_libc (some small_libc) x86_64) :=
  detected_layout_sound no_tools (fun _ => 0) small_libc (some small_libc) x86_64 (by
    rintro d ⟨⟩
    decide +kernel)

end HeapAnalyser.Detection
