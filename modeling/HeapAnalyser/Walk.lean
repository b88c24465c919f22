import HeapAnalyser.Layout
import HeapAnalyser.Tiling

/-!
Linear chunk traversal over one heap region (`heap/chunk.rs`, `heap/walk.rs`).
`walk_step` is the body of the loop of `walk_region`: it stops, with the
problems it reports, or emits one event and moves to the next size field.
`walk_step_cases` says once what a step can do. From it, by induction over the
walk, the events of any memory tile the region up to where the walk stopped,
and the way it stopped is one of three (`walk_region_sound`).
-/
namespace HeapAnalyser.Walk
open Machine Tiling

def PREV_INUSE : UInt64 := 1
def NON_MAIN_ARENA : UInt64 := 4
def SIZE_MASK : UInt64 := ~~~0x7

/-- The chunk size with the three flag bits masked off. -/
def chunk_size (raw_size_field : UInt64) : UInt64 := raw_size_field &&& SIZE_MASK

/-- Safety cap on chunks per region. -/
def MAX_CHUNKS : Nat := 10000000

structure ChunkEvent where
  size_field_addr : UInt64
  user_addr : UInt64
  user_size : UInt64
  full_size : UInt64
  prev_inuse_says_in_use : Bool
  deriving Repr, DecidableEq

/-- The event of the chunk whose size field is at `size_field_addr`. -/
def chunk_event (layout : DetectedLayout) (size_field_addr current_header next_header : UInt64) : ChunkEvent where
  size_field_addr := size_field_addr
  user_addr := size_field_addr + layout.word
  user_size := chunk_size current_header - layout.header
  full_size := chunk_size current_header
  prev_inuse_says_in_use := next_header &&& PREV_INUSE ≠ 0

/-- The end-of-heap test of a secondary arena: the current chunk lost its
    `NON_MAIN_ARENA` flag, and the word after the next chunk is the last word of
    the region and a bare `PREV_INUSE`. -/
def at_sentinel (mem : MemReader) (layout : DetectedLayout) (region_end : UInt64) (is_main_arena : Bool)
    (current_header next_cursor next_header : UInt64) : Bool :=
  !is_main_arena && decide (current_header &&& NON_MAIN_ARENA = 0) &&
    match checked_add next_cursor (chunk_size next_header) with
    | some sentinel_addr =>
      decide (checked_add sentinel_addr layout.word = some region_end) &&
        decide ((mem.read_u64 sentinel_addr).toOption = some PREV_INUSE)
    | none => false

inductive Step where
  | stop (problems : List Problem)
  | emit (event : ChunkEvent) (next_header_address next_header : UInt64)
  deriving Repr, DecidableEq

/-- One turn of the loop, at the chunk of a size field that is already read. -/
def walk_step (mem : MemReader) (layout : DetectedLayout) (arena_index : UInt32) (region_end : UInt64)
    (is_main_arena : Bool) (size_field_addr current_header : UInt64) : Step :=
  let full_size := chunk_size current_header
  if full_size < 2 * layout.word then
    .stop [.HeapWalkTruncated arena_index "chunk size below minimum"]
  else if full_size % layout.alignment ≠ 0 then
    .stop [.HeapWalkTruncated arena_index "chunk size not aligned"]
  else match checked_add size_field_addr full_size with
    | none => .stop [.HeapWalkTruncated arena_index "address arithmetic overflow"]
    | some next_cursor =>
      if next_cursor > region_end then
        .stop [.HeapWalkTruncated arena_index "chunk extends past region end"]
      else match mem.read_u64 next_cursor with
        | .error _ => .stop [.ChunkReadFailed arena_index (hex next_cursor)]
        | .ok next_header =>
          if at_sentinel mem layout region_end is_main_arena current_header next_cursor next_header then .stop []
          else .emit (chunk_event layout size_field_addr current_header next_header) next_cursor next_header

/-- The loop of `walk_region`; the first argument is `MAX_CHUNKS - seen`. -/
def walk_from (mem : MemReader) (layout : DetectedLayout) (arena_index : UInt32) (region_end : UInt64)
    (is_main_arena : Bool) : Nat → UInt64 → UInt64 → List ChunkEvent × List Problem
  | 0, next_header_address, _ =>
    if next_header_address = region_end then ([], [])
    else ([], [.HeapWalkTruncated arena_index "chunk count cap exceeded"])
  | remaining + 1, next_header_address, next_header =>
    if next_header_address = region_end then ([], [])
    else match walk_step mem layout arena_index region_end is_main_arena next_header_address next_header with
      | .stop problems => ([], problems)
      | .emit event address header =>
        let rest := walk_from mem layout arena_index region_end is_main_arena remaining address header
        (event :: rest.1, rest.2)

/-- Walk `[region_start, region_end)`, one event for each chunk. -/
def walk_region (mem : MemReader) (layout : DetectedLayout) (arena_index : UInt32)
    (region_start region_end : UInt64) (is_main_arena : Bool) : List ChunkEvent × List Problem :=
  if region_start > region_end then
    ([], [.HeapWalkTruncated arena_index "region_start > region_end"])
  else if region_start = region_end then ([], [])
  else match mem.read_u64 region_start with
    | .error _ => ([], [.ChunkReadFailed arena_index (hex region_start)])
    | .ok header => walk_from mem layout arena_index region_end is_main_arena MAX_CHUNKS region_start header

private theorem chunk_size_toNat (raw : UInt64) : (chunk_size raw).toNat = raw.toNat / 8 * 8 :=
  and_not_mask_toNat raw 7 3 (by decide) rfl

private theorem eight_dvd_chunk_size (raw : UInt64) : 8 ∣ (chunk_size raw).toNat := by
  rw [chunk_size_toNat]
  exact Nat.dvd_mul_left _ _

section
variable {mem : MemReader} {layout : DetectedLayout} {arena_index : UInt32} {region_end : UInt64}
  {is_main_arena : Bool}

/-- The chunk of a size field at an address is well sized and in the region. -/
structure Fits (layout : DetectedLayout) (region_end address header : UInt64) : Prop where
  minimum : 2 * layout.word.toNat ≤ (chunk_size header).toNat
  aligned : 2 * layout.word.toNat ∣ (chunk_size header).toNat
  inside : address.toNat + (chunk_size header).toNat ≤ region_end.toNat

theorem at_sentinel_iff {current next_cursor next_header : UInt64} :
    at_sentinel mem layout region_end is_main_arena current next_cursor next_header = true ↔
      is_main_arena = false ∧ current &&& NON_MAIN_ARENA = 0 ∧
      next_cursor.toNat + (chunk_size next_header).toNat + layout.word.toNat = region_end.toNat ∧
      mem.read_u64 (UInt64.ofNat (region_end.toNat - layout.word.toNat)) = .ok PREV_INUSE := by
  have bound := region_end.toNat_lt
  have readIs (r : Except Error UInt64) : r.toOption = some PREV_INUSE ↔ r = .ok PREV_INUSE := by
    cases r <;> simp [Except.toOption]
  cases sum : checked_add next_cursor (chunk_size next_header) with
  | none =>
    have wide := checked_add_eq_none.mp sum
    simp only [at_sentinel, sum, Bool.and_false, Bool.false_eq_true, false_iff]
    omega
  | some sentinel =>
    have position := checked_add_eq_some.mp sum
    simp only [at_sentinel, sum, Bool.and_eq_true, Bool.not_eq_true', decide_eq_true_eq, checked_add_eq_some,
      readIs, and_assoc]
    apply and_congr_right
    intro _
    apply and_congr_right
    intro _
    constructor
    · rintro ⟨last, read⟩
      refine ⟨by omega, ?_⟩
      rw [← eq_ofNat (a := sentinel) (by omega)]
      exact read
    · rintro ⟨last, read⟩
      refine ⟨by omega, ?_⟩
      rw [eq_ofNat (a := sentinel) (n := region_end.toNat - layout.word.toNat) (by omega)]
      exact read

/-- A fitting chunk with a readable next size field is emitted, unless the
    end-of-heap test takes it for the fencepost. -/
theorem walk_step_of_fits (arena_index : UInt32) (is_main_arena : Bool) (sized : layout.Sized)
    {address header next next_header : UInt64}
    (fits : Fits layout region_end address header)
    (nextIs : next.toNat = address.toNat + (chunk_size header).toNat)
    (read : mem.read_u64 next = .ok next_header) :
    walk_step mem layout arena_index region_end is_main_arena address header =
      if at_sentinel mem layout region_end is_main_arena header next next_header then .stop []
      else .emit (chunk_event layout address header next_header) next next_header := by
  have large : ¬ chunk_size header < 2 * layout.word := by
    rw [UInt64.lt_iff_toNat_lt, sized.two_word_toNat]
    have := fits.minimum
    omega
  have aligned : chunk_size header % layout.alignment = 0 := by
    rw [← UInt64.toNat_inj, UInt64.toNat_mod, sized.alignment_toNat]
    exact Nat.mod_eq_zero_of_dvd fits.aligned
  have sum : checked_add address (chunk_size header) = some next := checked_add_eq_some.mpr nextIs
  have inside : ¬ next > region_end := by
    rw [gt_iff_lt, UInt64.lt_iff_toNat_lt]
    have := fits.inside
    omega
  simp only [walk_step, large, if_false, aligned, ne_eq, not_true_eq_false, sum, inside, read]

/-- A step reports exactly one problem and stops, or its chunk fits, the next
    size field is readable, and the end-of-heap test decides. -/
theorem walk_step_cases (mem : MemReader) (arena_index : UInt32) (region_end : UInt64) (is_main_arena : Bool)
    (sized : layout.Sized) (address header : UInt64) :
    (∃ problem, walk_step mem layout arena_index region_end is_main_arena address header = .stop [problem]) ∨
    (Fits layout region_end address header ∧ ∃ next next_header,
      next.toNat = address.toNat + (chunk_size header).toNat ∧ mem.read_u64 next = .ok next_header ∧
      walk_step mem layout arena_index region_end is_main_arena address header =
        if at_sentinel mem layout region_end is_main_arena header next next_header then .stop []
        else .emit (chunk_event layout address header next_header) next next_header) := by
  by_cases small : chunk_size header < 2 * layout.word
  · exact .inl ⟨_, by simp only [walk_step, small, if_true]; rfl⟩
  by_cases unaligned : chunk_size header % layout.alignment ≠ 0
  · exact .inl ⟨_, by simp only [walk_step, small, if_false, if_pos unaligned]; rfl⟩
  cases sum : checked_add address (chunk_size header) with
  | none => exact .inl ⟨_, by simp only [walk_step, small, unaligned, if_false, sum]; rfl⟩
  | some next =>
    by_cases past : next > region_end
    · exact .inl ⟨_, by simp only [walk_step, small, unaligned, if_false, sum, past, if_true]; rfl⟩
    cases read : mem.read_u64 next with
    | error e => exact .inl ⟨_, by simp only [walk_step, small, unaligned, if_false, sum, past, read]; rfl⟩
    | ok next_header =>
      have nextIs := checked_add_eq_some.mp sum
      have fits : Fits layout region_end address header := by
        refine ⟨?_, ?_, ?_⟩
        · rw [UInt64.lt_iff_toNat_lt, sized.two_word_toNat] at small
          omega
        · rw [ne_eq, not_not, ← UInt64.toNat_inj, UInt64.toNat_mod, sized.alignment_toNat] at unaligned
          exact Nat.dvd_of_mod_eq_zero unaligned
        · rw [gt_iff_lt, UInt64.lt_iff_toNat_lt] at past
          omega
      exact .inr ⟨fits, next, next_header, nextIs, read,
        walk_step_of_fits arena_index is_main_arena sized fits nextIs read⟩

/-! ## Soundness on arbitrary memory -/

/-- The start and the length of an event's chunk. -/
abbrev startOf (event : ChunkEvent) : Nat := event.size_field_addr.toNat
abbrev lengthOf (event : ChunkEvent) : Nat := event.full_size.toNat

/-- The event is the masked size field stored at its address, well sized, and
    none of its addresses and sizes wrapped. -/
structure ReadsAs (mem : MemReader) (layout : DetectedLayout) (event : ChunkEvent) : Prop where
  stored : ∃ raw, mem.read_u64 event.size_field_addr = .ok raw ∧ event.full_size = chunk_size raw
  aligned : layout.alignment.toNat ∣ event.full_size.toNat
  minimum : 2 * layout.word.toNat ≤ event.full_size.toNat
  next_addr : event.size_field_addr.toNat + event.full_size.toNat < 2 ^ 64
  user_addr : event.user_addr.toNat = event.size_field_addr.toNat + layout.word.toNat
  user_size : event.user_size.toNat + layout.header.toNat = event.full_size.toNat

/-- The walk covered the whole region. -/
def Complete (region_end : UInt64) (problems : List Problem) (p : Nat) : Prop :=
  problems = [] ∧ p = region_end.toNat

/-- The walk of a secondary arena stopped silently at a chunk that lost its
    flag, in a region that ends with a bare `PREV_INUSE`. -/
def AtFencepost (mem : MemReader) (layout : DetectedLayout) (region_end : UInt64) (is_main_arena : Bool)
    (problems : List Problem) (p : Nat) : Prop :=
  problems = [] ∧ is_main_arena = false ∧ p < region_end.toNat ∧
    (∃ raw, mem.read_u64 (UInt64.ofNat p) = .ok raw ∧ raw &&& NON_MAIN_ARENA = 0) ∧
    layout.word ≤ region_end ∧ mem.read_u64 (region_end - layout.word) = .ok PREV_INUSE

/-- The walk stopped early and said so. -/
def Cut (region_end : UInt64) (problems : List Problem) (p : Nat) : Prop :=
  problems.length = 1 ∧ p < region_end.toNat

/-- What a walk from `lo` emitted, tiling up to `p`, and how it ended. A walk
    without a problem ends a whole number of words after it began. -/
structure Sound (mem : MemReader) (layout : DetectedLayout) (region_end : UInt64) (is_main_arena : Bool)
    (lo : Nat) (run : List ChunkEvent × List Problem) (p : Nat) : Prop where
  tiles : Tiles startOf lengthOf lo run.1 p
  inside : p ≤ region_end.toNat
  reads : ∀ event ∈ run.1, ReadsAs mem layout event
  ending : Complete region_end run.2 p ∨ AtFencepost mem layout region_end is_main_arena run.2 p ∨
    Cut region_end run.2 p
  phase : run.2 = [] → layout.word.toNat ∣ region_end.toNat - lo

private theorem chunk_event_reads (sized : layout.Sized) {address header : UInt64} (next_header : UInt64)
    (fits : Fits layout region_end address header) (read : mem.read_u64 address = .ok header) :
    ReadsAs mem layout (chunk_event layout address header next_header) := by
  have bound := region_end.toNat_lt
  have inside := fits.inside
  have minimum := fits.minimum
  have wide := sized.header_toNat
  refine ⟨⟨header, read, rfl⟩, ?_, minimum, ?_, ?_, ?_⟩
  · rw [sized.alignment_toNat]
    exact fits.aligned
  · show address.toNat + (chunk_size header).toNat < 2 ^ 64
    omega
  · exact add_toNat (by omega)
  · show (chunk_size header - layout.header).toNat + layout.header.toNat = (chunk_size header).toNat
    rw [UInt64.toNat_sub_of_le _ _ (UInt64.le_iff_toNat_le.mpr (by omega))]
    omega

private theorem word_dvd_chunk_size (sized : layout.Sized) (raw : UInt64) :
    layout.word.toNat ∣ (chunk_size raw).toNat := by
  have eight := eight_dvd_chunk_size raw
  rcases sized.word_toNat with four | eight'
  · rw [four]; exact Nat.dvd_trans (by decide) eight
  · rw [eight']; exact eight

private theorem end_sound :
    Sound mem layout region_end is_main_arena region_end.toNat ([], []) region_end.toNat :=
  ⟨rfl, le_rfl, by simp, .inl ⟨rfl, rfl⟩, fun _ => by simp⟩

private theorem stop_sound (problem : Problem) {address : UInt64} (before : address.toNat < region_end.toNat) :
    Sound mem layout region_end is_main_arena address.toNat ([], [problem]) address.toNat :=
  ⟨rfl, before.le, by simp, .inr (.inr ⟨rfl, before⟩), by simp⟩

private theorem sentinel_sound (sized : layout.Sized) {address header next next_header : UInt64}
    (fits : Fits layout region_end address header) (read : mem.read_u64 address = .ok header)
    (nextIs : next.toNat = address.toNat + (chunk_size header).toNat)
    (sentinel : at_sentinel mem layout region_end is_main_arena header next next_header = true) :
    Sound mem layout region_end is_main_arena address.toNat ([], []) address.toNat := by
  obtain ⟨secondary, flag, last, bare⟩ := at_sentinel_iff.mp sentinel
  have inside := fits.inside
  have minimum := fits.minimum
  have wordPos : 0 < layout.word.toNat := by have := sized.word_toNat; omega
  have below : layout.word ≤ region_end := UInt64.le_iff_toNat_le.mpr (by omega)
  have lastWord : region_end - layout.word = UInt64.ofNat (region_end.toNat - layout.word.toNat) :=
    eq_ofNat (UInt64.toNat_sub_of_le _ _ below)
  refine ⟨rfl, by omega, by simp, .inr (.inl ⟨rfl, secondary, by omega, ?_, below, ?_⟩), ?_⟩
  · exact ⟨header, by rw [UInt64.ofNat_toNat]; exact read, flag⟩
  · rw [lastWord]
    exact bare
  · intro _
    have whole : region_end.toNat - address.toNat =
        (chunk_size header).toNat + (chunk_size next_header).toNat + layout.word.toNat := by omega
    rw [whole]
    exact Nat.dvd_add (Nat.dvd_add (word_dvd_chunk_size sized header) (word_dvd_chunk_size sized next_header))
      (Nat.dvd_refl _)

private theorem emit_sound (sized : layout.Sized) {address header next next_header : UInt64} {p : Nat}
    {rest : List ChunkEvent × List Problem}
    (fits : Fits layout region_end address header) (read : mem.read_u64 address = .ok header)
    (nextIs : next.toNat = address.toNat + (chunk_size header).toNat)
    (sound : Sound mem layout region_end is_main_arena next.toNat rest p) :
    Sound mem layout region_end is_main_arena address.toNat
      (chunk_event layout address header next_header :: rest.1, rest.2) p := by
  refine ⟨⟨rfl, ?_⟩, sound.inside, ?_, sound.ending, ?_⟩
  · show Tiles startOf lengthOf (address.toNat + (chunk_size header).toNat) rest.1 p
    rw [← nextIs]
    exact sound.tiles
  · intro event member
    rcases List.mem_cons.mp member with rfl | later
    · exact chunk_event_reads sized next_header fits read
    · exact sound.reads event later
  · intro clean
    have inside := fits.inside
    have whole : region_end.toNat - address.toNat =
        (region_end.toNat - next.toNat) + (chunk_size header).toNat := by omega
    rw [whole]
    exact Nat.dvd_add (sound.phase clean) (word_dvd_chunk_size sized header)

private theorem walk_from_sound (arena_index : UInt32) (is_main_arena : Bool) (sized : layout.Sized) (remaining : Nat)
    (address header : UInt64)
    (inside : address.toNat ≤ region_end.toNat) (read : mem.read_u64 address = .ok header) :
    ∃ p, Sound mem layout region_end is_main_arena address.toNat
        (walk_from mem layout arena_index region_end is_main_arena remaining address header) p ∧
      (walk_from mem layout arena_index region_end is_main_arena remaining address header).1.length ≤ remaining := by
  have strict (apart : address ≠ region_end) : address.toNat < region_end.toNat :=
    lt_of_le_of_ne inside fun same => apart (UInt64.toNat_inj.mp same)
  induction remaining generalizing address header with
  | zero =>
    by_cases same : address = region_end
    · subst same
      exact ⟨_, by simpa only [walk_from, if_true] using end_sound, by simp [walk_from]⟩
    · refine ⟨address.toNat, ?_, by simp [walk_from, same]⟩
      simpa only [walk_from, if_neg same] using stop_sound _ (strict same)
  | succ remaining ih =>
    by_cases same : address = region_end
    · subst same
      exact ⟨_, by simpa only [walk_from, if_true] using end_sound, by simp [walk_from]⟩
    rcases walk_step_cases mem arena_index region_end is_main_arena sized address header with
      ⟨problem, stop⟩ | ⟨fits, next, next_header, nextIs, nextRead, step⟩
    · refine ⟨address.toNat, ?_, by simp [walk_from, same, stop]⟩
      simpa only [walk_from, if_neg same, stop] using stop_sound problem (strict same)
    by_cases sentinel : at_sentinel mem layout region_end is_main_arena header next next_header = true
    · rw [if_pos sentinel] at step
      refine ⟨address.toNat, ?_, by simp [walk_from, same, step]⟩
      simpa only [walk_from, if_neg same, step] using sentinel_sound sized fits read nextIs sentinel
    · rw [if_neg sentinel] at step
      have nextInside : next.toNat ≤ region_end.toNat := nextIs ▸ fits.inside
      obtain ⟨p, sound, capped⟩ := ih next next_header nextInside nextRead fun apart =>
        lt_of_le_of_ne nextInside fun equal => apart (UInt64.toNat_inj.mp equal)
      refine ⟨p, ?_, ?_⟩
      · simpa only [walk_from, if_neg same, step] using emit_sound sized fits read nextIs sound
      · simp only [walk_from, if_neg same, step, List.length_cons]
        omega

/-- Exactly one of three statements holds. -/
def OneOf (a b c : Prop) : Prop := (a ∧ ¬ b ∧ ¬ c) ∨ (¬ a ∧ b ∧ ¬ c) ∨ (¬ a ∧ ¬ b ∧ c)

private theorem ending_exclusive {problems : List Problem} {p : Nat}
    (ending : Complete region_end problems p ∨ AtFencepost mem layout region_end is_main_arena problems p ∨
      Cut region_end problems p) :
    OneOf (Complete region_end problems p) (AtFencepost mem layout region_end is_main_arena problems p)
      (Cut region_end problems p) := by
  have noBoth : ¬ (Complete region_end problems p ∧ p < region_end.toNat) := by
    rintro ⟨⟨_, covered⟩, before⟩
    omega
  have noClean : ¬ (problems = [] ∧ problems.length = 1) := by
    rintro ⟨rfl, one⟩
    simp at one
  rcases ending with complete | fencepost | cut
  · exact .inl ⟨complete, fun h => noBoth ⟨complete, h.2.2.1⟩, fun h => noBoth ⟨complete, h.2⟩⟩
  · exact .inr (.inl ⟨fun h => noBoth ⟨h, fencepost.2.2.1⟩, fencepost, fun h => noClean ⟨fencepost.1, h.1⟩⟩)
  · exact .inr (.inr ⟨fun h => noBoth ⟨h, cut.2⟩, fun h => noClean ⟨h.1, cut.1⟩, cut⟩)

theorem walk_region_run (mem : MemReader) (arena_index : UInt32) (is_main_arena : Bool) (sized : layout.Sized)
    {region_start : UInt64} (order : region_start ≤ region_end) :
    ∃ p, Sound mem layout region_end is_main_arena region_start.toNat
        (walk_region mem layout arena_index region_start region_end is_main_arena) p ∧
      (walk_region mem layout arena_index region_start region_end is_main_arena).1.length ≤ MAX_CHUNKS := by
  have inside := UInt64.le_iff_toNat_le.mp order
  have notInverted : ¬ region_start > region_end := by
    rw [gt_iff_lt, UInt64.lt_iff_toNat_lt]
    omega
  by_cases same : region_start = region_end
  · subst same
    exact ⟨_, by simpa [walk_region] using end_sound, by simp [walk_region]⟩
  cases read : mem.read_u64 region_start with
  | error e =>
    refine ⟨region_start.toNat, ?_, by simp [walk_region, notInverted, same, read]⟩
    simp only [walk_region, notInverted, same, read, if_false]
    exact stop_sound _ (lt_of_le_of_ne inside fun equal => same (UInt64.toNat_inj.mp equal))
  | ok header =>
    simpa only [walk_region, notInverted, same, read, if_false] using
      walk_from_sound arena_index is_main_arena sized MAX_CHUNKS region_start header inside read

theorem walk_region_inverted {region_start : UInt64} (inverted : region_end < region_start) :
    walk_region mem layout arena_index region_start region_end is_main_arena =
      ([], [.HeapWalkTruncated arena_index "region_start > region_end"]) := by
  simp only [walk_region, gt_iff_lt, inverted, if_true]

/-- A walk without a problem had a region that is not inverted, and is sound. -/
theorem walk_region_clean (sized : layout.Sized) {region_start : UInt64}
    (clean : (walk_region mem layout arena_index region_start region_end is_main_arena).2 = []) :
    region_start ≤ region_end ∧ ∃ p, Sound mem layout region_end is_main_arena region_start.toNat
        (walk_region mem layout arena_index region_start region_end is_main_arena) p ∧
      (walk_region mem layout arena_index region_start region_end is_main_arena).1.length ≤ MAX_CHUNKS := by
  have order : region_start ≤ region_end := by
    by_contra inverted
    rw [walk_region_inverted (UInt64.not_le.mp inverted)] at clean
    simp at clean
  exact ⟨order, walk_region_run mem arena_index is_main_arena sized order⟩

/-- The in-use bit of an event is the `PREV_INUSE` of the size field behind its chunk. -/
def FlagRead (mem : MemReader) (event : ChunkEvent) : Prop :=
  ∃ next_header, mem.read_u64 (event.size_field_addr + event.full_size) = .ok next_header ∧
    event.prev_inuse_says_in_use = decide (next_header &&& PREV_INUSE ≠ 0)

private theorem walk_from_flags (arena_index : UInt32) (is_main_arena : Bool) (sized : layout.Sized) (remaining : Nat)
    (address header : UInt64) :
    ∀ event ∈ (walk_from mem layout arena_index region_end is_main_arena remaining address header).1,
      FlagRead mem event := by
  induction remaining generalizing address header with
  | zero =>
    by_cases same : address = region_end
    · simp [walk_from, same]
    · simp [walk_from, same]
  | succ remaining ih =>
    by_cases same : address = region_end
    · simp [walk_from, same]
    rcases walk_step_cases mem arena_index region_end is_main_arena sized address header with
      ⟨problem, stop⟩ | ⟨fits, next, next_header, nextIs, nextRead, step⟩
    · simp [walk_from, same, stop]
    by_cases sentinel : at_sentinel mem layout region_end is_main_arena header next next_header = true
    · rw [if_pos sentinel] at step
      simp [walk_from, same, step]
    rw [if_neg sentinel] at step
    simp only [walk_from, if_neg same, step]
    intro event member
    rcases List.mem_cons.mp member with rfl | later
    · have sum : address + chunk_size header = next := by
        have bound := next.toNat_lt
        rw [← UInt64.toNat_inj, nextIs, add_toNat (by omega)]
      exact ⟨next_header, by rw [← nextRead, ← sum]; rfl, rfl⟩
    · exact ih next next_header event later

theorem walk_region_flags (arena_index : UInt32) (is_main_arena : Bool) (sized : layout.Sized) (region_start : UInt64) :
    ∀ event ∈ (walk_region mem layout arena_index region_start region_end is_main_arena).1, FlagRead mem event := by
  by_cases inverted : region_start > region_end
  · simp [walk_region, inverted]
  by_cases same : region_start = region_end
  · simp [walk_region, same]
  cases read : mem.read_u64 region_start with
  | error e => simp [walk_region, inverted, same, read]
  | ok header =>
    simp only [walk_region, inverted, same, read, if_false]
    exact walk_from_flags arena_index is_main_arena sized MAX_CHUNKS region_start header

/-- What any memory at all lets a walk of `[region_start, region_end)` do: the
    events tile the region up to `p`, each is what the memory stores, and the
    walk ends in exactly one of the three ways. -/
structure WalkSound (mem : MemReader) (layout : DetectedLayout) (region_start region_end : UInt64)
    (is_main_arena : Bool) (run : List ChunkEvent × List Problem) : Prop where
  problems : run.2.length ≤ 1
  capped : run.1.length ≤ MAX_CHUNKS
  tiles : Tiles startOf lengthOf region_start.toNat run.1 (region_start.toNat + (run.1.map lengthOf).sum)
  reads : ∀ event ∈ run.1, ReadsAs mem layout event
  ordered : region_start ≤ region_end →
    region_start.toNat + (run.1.map lengthOf).sum ≤ region_end.toNat ∧
    OneOf (Complete region_end run.2 (region_start.toNat + (run.1.map lengthOf).sum))
      (AtFencepost mem layout region_end is_main_arena run.2 (region_start.toNat + (run.1.map lengthOf).sum))
      (Cut region_end run.2 (region_start.toNat + (run.1.map lengthOf).sum))
  inverted : region_end < region_start → run.2.length = 1 ∧ run.1 = []

end

/-- The walk is sound on every memory, corrupt or not: whatever it emits is
    stored there and lies in the region, and without a problem it either covers
    the region or stops at a fencepost. -/
theorem walk_region_sound (mem : MemReader) (layout : DetectedLayout) (sized : layout.Sized)
    (arena_index : UInt32) (region_start region_end : UInt64) (is_main_arena : Bool) :
    WalkSound mem layout region_start region_end is_main_arena
      (walk_region mem layout arena_index region_start region_end is_main_arena) := by
  by_cases order : region_start ≤ region_end
  · obtain ⟨p, sound, capped⟩ := walk_region_run mem arena_index is_main_arena sized order
    have covered := sound.tiles.hi_eq
    have exclusive := ending_exclusive sound.ending
    have few : (walk_region mem layout arena_index region_start region_end is_main_arena).2.length ≤ 1 := by
      rcases sound.ending with complete | fencepost | cut
      · simp [complete.1]
      · simp [fencepost.1]
      · exact cut.1.le
    refine ⟨few, capped, covered ▸ sound.tiles, sound.reads, fun _ => ⟨covered ▸ sound.inside, covered ▸ exclusive⟩, ?_⟩
    intro inverted
    exact absurd order (UInt64.not_le.mpr inverted)
  · have inverted : region_end < region_start := UInt64.not_le.mp order
    rw [walk_region_inverted inverted]
    exact ⟨le_rfl, by simp, by simp, by simp, fun ordered => absurd ordered order, fun _ => ⟨rfl, rfl⟩⟩

/-- Three main-arena chunks and the top's size field. -/
def three_chunks : MemReader :=
  fake_mem [(0x100, 0x21), (0x120, 0x21), (0x140, 0x20), (0x160, 0x21)] []

theorem walk_region_sound_three_chunks :
    (walk_region three_chunks (test_layout 8) 0 0x100 0x160 true).1.length = 3 ∧
    WalkSound three_chunks (test_layout 8) 0x100 0x160 true
      (walk_region three_chunks (test_layout 8) 0 0x100 0x160 true) :=
  ⟨by decide, walk_region_sound three_chunks (test_layout 8) test_layout_sized.1 0 0x100 0x160 true⟩

end HeapAnalyser.Walk
