import HeapAnalyser.Walk

/-!
The chunk walk against the heap layout glibc writes. A list of raw size fields
is laid out from `lo` to `hi` when each is stored where the chunk before it
ends (`LaidOut`); `eventsOf` is the event of each. Over a laid out list on
which the end-of-heap test stays quiet the walk emits exactly these events and
goes on from `hi` (`walk_from_laid_out`). The test is quiet on every chunk but
the last by alignment, so a region that ends at a size field is inverted
exactly (`walk_region_inverts_layout`). In an intermediate heap the last chunk
is in front of the fencepost, and there the test fires unless the chunk kept
its flag (`intermediate_heap_complete_iff`).
-/
namespace HeapAnalyser.WalkLayout
open Machine Walk

/-- A raw size field of a chunk as glibc sizes them; the low three bits are free. -/
structure IsChunk (layout : DetectedLayout) (raw : UInt64) : Prop where
  aligned : 2 * layout.word.toNat ∣ (chunk_size raw).toNat
  minimum : 2 * layout.word.toNat ≤ (chunk_size raw).toNat

/-- The raw size fields are stored one chunk after another from `lo` to `hi`. -/
def LaidOut (mem : MemReader) : Nat → List UInt64 → Nat → Prop
  | lo, [], hi => lo = hi
  | lo, raw :: rest, hi =>
    mem.read_u64 (UInt64.ofNat lo) = .ok raw ∧ LaidOut mem (lo + (chunk_size raw).toNat) rest hi

/-- The event of a chunk at `lo`, followed by the size field `next`. -/
def eventAt (layout : DetectedLayout) (lo : Nat) (raw next : UInt64) : ChunkEvent where
  size_field_addr := UInt64.ofNat lo
  user_addr := UInt64.ofNat (lo + layout.word.toNat)
  user_size := UInt64.ofNat ((chunk_size raw).toNat - layout.header.toNat)
  full_size := chunk_size raw
  prev_inuse_says_in_use := next &&& PREV_INUSE ≠ 0

/-- One event for each chunk, in order; `last` is the size field after them all. -/
def eventsOf (layout : DetectedLayout) : Nat → List UInt64 → UInt64 → List ChunkEvent
  | _, [], _ => []
  | lo, raw :: rest, last =>
    eventAt layout lo raw (rest.headD last) :: eventsOf layout (lo + (chunk_size raw).toNat) rest last

@[simp] theorem eventsOf_length (layout : DetectedLayout) (lo : Nat) (raws : List UInt64) (last : UInt64) :
    (eventsOf layout lo raws last).length = raws.length := by
  induction raws generalizing lo with
  | nil => rfl
  | cons raw rest ih => simp [eventsOf, ih]

section
variable {mem : MemReader} {layout : DetectedLayout} {arena_index : UInt32} {region_end : UInt64}
  {is_main_arena : Bool}

/-- A laid out list of chunks ends a whole number of alignments after it begins. -/
theorem LaidOut.span {lo hi : Nat} {raws : List UInt64} (laid : LaidOut mem lo raws hi)
    (chunks : ∀ raw ∈ raws, IsChunk layout raw) : lo ≤ hi ∧ 2 * layout.word.toNat ∣ hi - lo := by
  induction raws generalizing lo with
  | nil =>
    have same : lo = hi := laid
    simp [same]
  | cons raw rest ih =>
    obtain ⟨le, whole⟩ := ih laid.2 fun raw member => chunks raw (by simp [member])
    have chunk := chunks raw (by simp)
    have split : hi - lo = (hi - (lo + (chunk_size raw).toNat)) + (chunk_size raw).toNat := by omega
    refine ⟨by omega, ?_⟩
    rw [split]
    exact Nat.dvd_add whole chunk.aligned

theorem LaidOut.append_iff {lo hi : Nat} {front back : List UInt64} :
    LaidOut mem lo (front ++ back) hi ↔ ∃ mid, LaidOut mem lo front mid ∧ LaidOut mem mid back hi := by
  induction front generalizing lo with
  | nil =>
    constructor
    · intro laid; exact ⟨lo, rfl, laid⟩
    · rintro ⟨mid, same, laid⟩
      have equal : lo = mid := same
      exact equal ▸ laid
  | cons raw rest ih =>
    simp only [List.cons_append, LaidOut, ih]
    constructor
    · rintro ⟨read, mid, first, second⟩; exact ⟨mid, ⟨read, first⟩, second⟩
    · rintro ⟨mid, ⟨read, first⟩, second⟩; exact ⟨read, mid, first, second⟩

/-- What stands at the start of a laid out list and the size field after it. -/
theorem LaidOut.read_head {lo hi : Nat} {raws : List UInt64} {last : UInt64} (laid : LaidOut mem lo raws hi)
    (read : mem.read_u64 (UInt64.ofNat hi) = .ok last) :
    mem.read_u64 (UInt64.ofNat lo) = .ok (raws.headD last) := by
  cases raws with
  | nil =>
    have same : lo = hi := laid
    simpa [same] using read
  | cons raw rest => exact laid.1

private theorem eventAt_eq (sized : layout.Sized) {lo : Nat} {raw : UInt64} (next : UInt64) (chunk : IsChunk layout raw)
    (bound : lo + (chunk_size raw).toNat < 2 ^ 64) :
    chunk_event layout (UInt64.ofNat lo) raw next = eventAt layout lo raw next := by
  have minimum := chunk.minimum
  have wide := sized.header_toNat
  have address : (UInt64.ofNat lo).toNat = lo := ofNat_toNat (by omega)
  have user : UInt64.ofNat lo + layout.word = UInt64.ofNat (lo + layout.word.toNat) := by
    apply eq_ofNat
    rw [add_toNat (by omega), address]
  have payload : chunk_size raw - layout.header = UInt64.ofNat ((chunk_size raw).toNat - layout.header.toNat) :=
    eq_ofNat (UInt64.toNat_sub_of_le _ _ (UInt64.le_iff_toNat_le.mpr (by omega)))
  simp only [chunk_event, eventAt, user, payload]

/-- The end-of-heap test is quiet at a chunk of a laid out list: at the last one
    by assumption, and at the others by position, since no chunk starts one word
    before the end of the region. -/
private theorem laid_out_quiet (is_main_arena : Bool) (last : UInt64) {lo hi : Nat} {raw : UInt64} {rest : List UInt64}
    (later : LaidOut mem (lo + (chunk_size raw).toNat) rest hi) (chunks : ∀ raw ∈ rest, IsChunk layout raw)
    (bound : hi < 2 ^ 64)
    (inner : ∀ at_, at_ ≤ hi → 2 * layout.word.toNat ∣ hi - at_ → at_ + layout.word.toNat ≠ region_end.toNat)
    (quiet : ∀ other ∈ (raw :: rest).getLast?,
      at_sentinel mem layout region_end is_main_arena other (UInt64.ofNat hi) last = false) :
    at_sentinel mem layout region_end is_main_arena raw (UInt64.ofNat (lo + (chunk_size raw).toNat))
      (rest.headD last) = false := by
  have nextInside := (later.span chunks).1
  cases rest with
  | nil =>
    have same : lo + (chunk_size raw).toNat = hi := later
    rw [same]
    exact quiet raw (by simp)
  | cons second tail =>
    -- the next size field is a chunk's, so the word it would need is not where a chunk can start
    obtain ⟨tailInside, tailWhole⟩ := later.2.span fun raw member => chunks raw (by simp [member])
    apply Bool.eq_false_iff.mpr
    intro fires
    have position := (at_sentinel_iff.mp fires).2.2.1
    rw [ofNat_toNat (by omega)] at position
    exact inner _ tailInside tailWhole position

/-- The walk emits the event of a chunk in front of a readable size field where the
    end-of-heap test is quiet, and goes on there. -/
theorem walk_from_chunk (arena_index : UInt32) (sized : layout.Sized) (remaining : Nat) {lo : Nat} {raw next : UInt64}
    (chunk : IsChunk layout raw) (inside : lo + (chunk_size raw).toNat ≤ region_end.toNat)
    (read : mem.read_u64 (UInt64.ofNat (lo + (chunk_size raw).toNat)) = .ok next)
    (silent : at_sentinel mem layout region_end is_main_arena raw (UInt64.ofNat (lo + (chunk_size raw).toNat)) next = false) :
    walk_from mem layout arena_index region_end is_main_arena (remaining + 1) (UInt64.ofNat lo) raw =
      (eventAt layout lo raw next :: (walk_from mem layout arena_index region_end is_main_arena remaining
          (UInt64.ofNat (lo + (chunk_size raw).toNat)) next).1,
        (walk_from mem layout arena_index region_end is_main_arena remaining
          (UInt64.ofNat (lo + (chunk_size raw).toNat)) next).2) := by
  have bound := region_end.toNat_lt
  have minimum := chunk.minimum
  have wordPos := sized.word_toNat
  have address : (UInt64.ofNat lo).toNat = lo := ofNat_toNat (by omega)
  have behind : (UInt64.ofNat (lo + (chunk_size raw).toNat)).toNat = lo + (chunk_size raw).toNat :=
    ofNat_toNat (by omega)
  have fits : Fits layout region_end (UInt64.ofNat lo) raw := ⟨chunk.minimum, chunk.aligned, by rw [address]; omega⟩
  have step := walk_step_of_fits arena_index is_main_arena sized fits (by rw [behind, address]) read
  rw [silent] at step
  simp only [Bool.false_eq_true, if_false] at step
  have notEnd : UInt64.ofNat lo ≠ region_end := by
    intro same
    have equal := congrArg UInt64.toNat same
    omega
  have event : chunk_event layout (UInt64.ofNat lo) raw next = eventAt layout lo raw next :=
    eventAt_eq sized _ chunk (by omega)
  rw [walk_from, if_neg notEnd, step]
  simp only [event]

/-- Where the end-of-heap test stays quiet, the walk emits the events of a laid
    out list and goes on after it. -/
theorem walk_from_laid_out (arena_index : UInt32) (sized : layout.Sized) (remaining : Nat) {lo hi : Nat}
    {raws : List UInt64} {last : UInt64} (laid : LaidOut mem lo raws hi) (chunks : ∀ raw ∈ raws, IsChunk layout raw)
    (read : mem.read_u64 (UInt64.ofNat hi) = .ok last) (inside : hi ≤ region_end.toNat)
    (inner : ∀ at_, at_ ≤ hi → 2 * layout.word.toNat ∣ hi - at_ → at_ + layout.word.toNat ≠ region_end.toNat)
    (quiet : ∀ raw ∈ raws.getLast?,
      at_sentinel mem layout region_end is_main_arena raw (UInt64.ofNat hi) last = false) :
    walk_from mem layout arena_index region_end is_main_arena (raws.length + remaining) (UInt64.ofNat lo)
        (raws.headD last) =
      (eventsOf layout lo raws last ++
        (walk_from mem layout arena_index region_end is_main_arena remaining (UInt64.ofNat hi) last).1,
       (walk_from mem layout arena_index region_end is_main_arena remaining (UInt64.ofNat hi) last).2) := by
  have bound := region_end.toNat_lt
  induction raws generalizing lo with
  | nil =>
    have same : lo = hi := laid
    simp [same, eventsOf]
  | cons raw rest ih =>
    obtain ⟨_, later⟩ := laid
    have restChunks : ∀ raw ∈ rest, IsChunk layout raw := fun raw member => chunks raw (by simp [member])
    have nextInside := (later.span restChunks).1
    have silent := laid_out_quiet is_main_arena last later restChunks (by omega) inner quiet
    have restQuiet : ∀ raw ∈ rest.getLast?,
        at_sentinel mem layout region_end is_main_arena raw (UInt64.ofNat hi) last = false := by
      intro other member
      apply quiet
      cases rest with
      | nil => simp at member
      | cons second tail => simpa [List.getLast?_cons_cons] using member
    have tail := ih later restChunks restQuiet
    have turn := walk_from_chunk arena_index sized (rest.length + remaining) (chunks raw (by simp)) (by omega)
      (later.read_head read) silent
    rw [List.length_cons, Nat.add_right_comm, List.headD_cons, turn]
    simp only [tail, eventsOf, List.cons_append]

private theorem walk_region_eq {region_start header : UInt64} (order : region_start ≤ region_end)
    (read : mem.read_u64 region_start = .ok header) :
    walk_region mem layout arena_index region_start region_end is_main_arena =
      walk_from mem layout arena_index region_end is_main_arena MAX_CHUNKS region_start header := by
  have notInverted : ¬ region_start > region_end := UInt64.not_lt.mpr order
  by_cases same : region_start = region_end
  · subst same
    simp [walk_region, MAX_CHUNKS, walk_from]
  · simp only [walk_region, notInverted, same, read, if_false]

theorem walk_region_laid_out (sized : layout.Sized) (arena_index : UInt32) (is_main_arena : Bool) {raws : List UInt64}
    {region_start top : UInt64} (few : raws.length ≤ MAX_CHUNKS) (chunks : ∀ raw ∈ raws, IsChunk layout raw)
    (laid : LaidOut mem region_start.toNat raws region_end.toNat) (read : mem.read_u64 region_end = .ok top) :
    walk_region mem layout arena_index region_start region_end is_main_arena =
      (eventsOf layout region_start.toNat raws top, []) := by
  obtain ⟨order, whole⟩ := laid.span chunks
  have readEnd : mem.read_u64 (UInt64.ofNat region_end.toNat) = .ok top := by rwa [UInt64.ofNat_toNat]
  have readStart := laid.read_head readEnd
  rw [UInt64.ofNat_toNat] at readStart
  have wordPos := sized.word_toNat
  have inner : ∀ at_, at_ ≤ region_end.toNat → 2 * layout.word.toNat ∣ region_end.toNat - at_ →
      at_ + layout.word.toNat ≠ region_end.toNat := by
    intro at_ le multiple same
    have word : region_end.toNat - at_ = layout.word.toNat := by omega
    rw [word] at multiple
    have := Nat.le_of_dvd (by omega) multiple
    omega
  have quiet : ∀ raw ∈ raws.getLast?,
      at_sentinel mem layout region_end is_main_arena raw (UInt64.ofNat region_end.toNat) top = false := by
    intro raw _
    apply Bool.eq_false_iff.mpr
    intro fires
    have position := (at_sentinel_iff.mp fires).2.2.1
    rw [UInt64.ofNat_toNat] at position
    omega
  have run := walk_from_laid_out arena_index sized (MAX_CHUNKS - raws.length) laid chunks readEnd le_rfl inner
    quiet
  rw [UInt64.ofNat_toNat, UInt64.ofNat_toNat, Nat.add_sub_cancel' few] at run
  rw [walk_region_eq (UInt64.le_iff_toNat_le.mpr order) readStart, run]
  cases MAX_CHUNKS - raws.length <;> simp [walk_from]

end

/-- The chunk walk inverts the heap layout: of at most `MAX_CHUNKS` chunks laid
    out up to `region_end`, where any readable size field follows, it emits
    exactly the events, in order, with no problem, in every arena. -/
theorem walk_region_inverts_layout (mem : MemReader) (layout : DetectedLayout) (sized : layout.Sized)
    (arena_index : UInt32) (is_main_arena : Bool) (raws : List UInt64) (region_start region_end top : UInt64)
    (few : raws.length ≤ MAX_CHUNKS) (chunks : ∀ raw ∈ raws, IsChunk layout raw)
    (laid : LaidOut mem region_start.toNat raws region_end.toNat) (read : mem.read_u64 region_end = .ok top) :
    walk_region mem layout arena_index region_start region_end is_main_arena =
      (eventsOf layout region_start.toNat raws top, []) :=
  walk_region_laid_out sized arena_index is_main_arena few chunks laid read

/-- Two chunks of a secondary arena's last heap, the second without its
    `NON_MAIN_ARENA` flag, and the top. -/
def last_heap : MemReader := fake_mem [(0x100, 0x25), (0x120, 0x31), (0x150, 0x1005)] []

theorem walk_region_inverts_last_heap :
    walk_region last_heap (test_layout 8) 1 0x100 0x150 false =
      (eventsOf (test_layout 8) 0x100 [0x25, 0x31] 0x1005, []) :=
  walk_region_inverts_layout last_heap (test_layout 8) test_layout_sized.1 1 false [0x25, 0x31] 0x100 0x150 0x1005
    (by decide) (by
      intro raw member
      rcases List.mem_cons.mp member with rfl | member
      · exact ⟨by decide, by decide⟩
      · obtain rfl := List.mem_singleton.mp member
        exact ⟨by decide, by decide⟩)
    ⟨rfl, rfl, rfl⟩ rfl

/-! ## Intermediate heaps of a secondary arena -/

/-- The chunks of a full heap that is not its arena's last: after them a
    fencepost of two words without `NON_MAIN_ARENA`, and in the last word of the
    region a bare `PREV_INUSE`. -/
structure IntermediateHeap (mem : MemReader) (layout : DetectedLayout) (raws : List UInt64) (fencepost : UInt64)
    (lo fence : Nat) (region_end : UInt64) : Prop where
  chunks : ∀ raw ∈ raws, IsChunk layout raw
  laid : LaidOut mem lo raws fence
  fencepost_read : mem.read_u64 (UInt64.ofNat fence) = .ok fencepost
  fencepost_size : (chunk_size fencepost).toNat = 2 * layout.word.toNat
  fencepost_flag : fencepost &&& NON_MAIN_ARENA = 0
  bare_at : fence + 3 * layout.word.toNat = region_end.toNat
  bare_read : mem.read_u64 (region_end - layout.word) = .ok PREV_INUSE

section
variable {mem : MemReader} {layout : DetectedLayout} {arena_index : UInt32} {region_end : UInt64}

private theorem walk_from_sentinel (arena_index : UInt32) (sized : layout.Sized) (remaining : Nat)
    {address header next next_header : UInt64} (fits : Fits layout region_end address header)
    (nextIs : next.toNat = address.toNat + (chunk_size header).toNat) (read : mem.read_u64 next = .ok next_header)
    (fires : at_sentinel mem layout region_end false header next next_header = true) :
    walk_from mem layout arena_index region_end false (remaining + 1) address header = ([], []) := by
  have step := walk_step_of_fits arena_index false sized fits nextIs read
  rw [if_pos fires] at step
  by_cases same : address = region_end
  · simp only [walk_from, if_pos same]
  · simp only [walk_from, if_neg same, step]

/-- In an intermediate heap the end-of-heap test fires at a chunk without its
    flag, when the next chunk ends at the bare word. -/
private theorem intermediate_fires {raws : List UInt64} {fencepost : UInt64} {lo fence : Nat}
    (heap : IntermediateHeap mem layout raws fencepost lo fence region_end) {header : UInt64}
    (flag : header &&& NON_MAIN_ARENA = 0) (next next_header : UInt64)
    (ends : next.toNat + (chunk_size next_header).toNat = fence + 2 * layout.word.toNat) :
    at_sentinel mem layout region_end false header next next_header = true := by
  have last := heap.bare_at
  have below : layout.word ≤ region_end := UInt64.le_iff_toNat_le.mpr (by omega)
  refine at_sentinel_iff.mpr ⟨rfl, flag, by omega, ?_⟩
  rw [← eq_ofNat (UInt64.toNat_sub_of_le _ _ below)]
  exact heap.bare_read

/-- With its last chunk flagged, an intermediate heap is walked to the fencepost. -/
theorem intermediate_complete (sized : layout.Sized) (arena_index : UInt32) {raws : List UInt64}
    {fencepost region_start : UInt64} {fence : Nat} (few : raws.length < MAX_CHUNKS)
    (heap : IntermediateHeap mem layout raws fencepost region_start.toNat fence region_end)
    (flagged : ∀ raw ∈ raws.getLast?, raw &&& NON_MAIN_ARENA ≠ 0) :
    walk_region mem layout arena_index region_start region_end false =
      (eventsOf layout region_start.toNat raws fencepost, []) := by
  have bound := region_end.toNat_lt
  have last := heap.bare_at
  have size := heap.fencepost_size
  have order := (heap.laid.span heap.chunks).1
  have wordPos := sized.word_toNat
  have below : layout.word ≤ region_end := UInt64.le_iff_toNat_le.mpr (by omega)
  have fenceIs : (UInt64.ofNat fence).toNat = fence := ofNat_toNat (by omega)
  have bareIs : (region_end - layout.word).toNat = fence + 2 * layout.word.toNat := by
    rw [UInt64.toNat_sub_of_le _ _ below]
    omega
  have readStart := heap.laid.read_head heap.fencepost_read
  rw [UInt64.ofNat_toNat] at readStart
  have quiet : ∀ raw ∈ raws.getLast?,
      at_sentinel mem layout region_end false raw (UInt64.ofNat fence) fencepost = false := fun raw member =>
    Bool.eq_false_iff.mpr fun fires => flagged raw member (at_sentinel_iff.mp fires).2.1
  obtain ⟨spare, room⟩ : ∃ spare, MAX_CHUNKS = raws.length + (spare + 1) :=
    ⟨MAX_CHUNKS - raws.length - 1, by omega⟩
  have run := walk_from_laid_out arena_index sized (spare + 1) heap.laid heap.chunks heap.fencepost_read
    (by omega) (fun _ _ _ => by omega) quiet
  have fits : Fits layout region_end (UInt64.ofNat fence) fencepost :=
    ⟨by omega, by rw [size], by rw [fenceIs]; omega⟩
  have bareSize : (chunk_size PREV_INUSE).toNat = 0 := by decide
  have fires := intermediate_fires heap heap.fencepost_flag (region_end - layout.word) PREV_INUSE (by omega)
  have ended := walk_from_sentinel arena_index sized spare fits (by omega) heap.bare_read fires
  rw [UInt64.ofNat_toNat, ended, List.append_nil, ← room] at run
  rw [walk_region_eq (UInt64.le_iff_toNat_le.mpr (by omega)) readStart, run]

/-- A last chunk that lost its flag is dropped: the test takes it for the fencepost. -/
private theorem intermediate_drops (sized : layout.Sized) (arena_index : UInt32) {front : List UInt64}
    {raw fencepost region_start : UInt64} {fence : Nat} (few : front.length < MAX_CHUNKS)
    (heap : IntermediateHeap mem layout (front ++ [raw]) fencepost region_start.toNat fence region_end)
    (flag : raw &&& NON_MAIN_ARENA = 0) :
    walk_region mem layout arena_index region_start region_end false =
      (eventsOf layout region_start.toNat front raw, []) := by
  have bound := region_end.toNat_lt
  have last := heap.bare_at
  have wordPos := sized.word_toNat
  have chunk := heap.chunks raw (by simp)
  have frontChunks : ∀ other ∈ front, IsChunk layout other := fun other member => heap.chunks other (by simp [member])
  obtain ⟨mid, laid, read, ends⟩ := LaidOut.append_iff.mp heap.laid
  have atFence : mid + (chunk_size raw).toNat = fence := ends
  have order := (laid.span frontChunks).1
  have midIs : (UInt64.ofNat mid).toNat = mid := ofNat_toNat (by omega)
  have fenceIs : (UInt64.ofNat fence).toNat = fence := ofNat_toNat (by omega)
  have readStart := laid.read_head read
  rw [UInt64.ofNat_toNat] at readStart
  have quiet : ∀ other ∈ front.getLast?,
      at_sentinel mem layout region_end false other (UInt64.ofNat mid) raw = false := fun other _ =>
    Bool.eq_false_iff.mpr fun fires => by
      have position := (at_sentinel_iff.mp fires).2.2.1
      omega
  obtain ⟨spare, room⟩ : ∃ spare, MAX_CHUNKS = front.length + (spare + 1) :=
    ⟨MAX_CHUNKS - front.length - 1, by omega⟩
  have run := walk_from_laid_out arena_index sized (spare + 1) laid frontChunks read (by omega)
    (fun _ _ _ => by omega) quiet
  have fits : Fits layout region_end (UInt64.ofNat mid) raw := ⟨chunk.minimum, chunk.aligned, by omega⟩
  have size := heap.fencepost_size
  have fires := intermediate_fires heap flag (UInt64.ofNat fence) fencepost (by omega)
  have ended := walk_from_sentinel arena_index sized spare fits (by omega) heap.fencepost_read fires
  rw [UInt64.ofNat_toNat, ended, List.append_nil, ← room] at run
  rw [walk_region_eq (UInt64.le_iff_toNat_le.mpr (by omega)) readStart, run]

end

/-- An intermediate heap is reported completely, and without a problem, exactly
    when its last chunk still carries `NON_MAIN_ARENA`. -/
theorem intermediate_heap_complete_iff (mem : MemReader) (layout : DetectedLayout) (sized : layout.Sized)
    (arena_index : UInt32) (raws : List UInt64) (fencepost region_start region_end : UInt64) (fence : Nat)
    (few : raws.length ≤ 9999999)
    (heap : IntermediateHeap mem layout raws fencepost region_start.toNat fence region_end) :
    walk_region mem layout arena_index region_start region_end false =
        (eventsOf layout region_start.toNat raws fencepost, []) ↔
      ∀ raw ∈ raws.getLast?, raw &&& NON_MAIN_ARENA ≠ 0 := by
  have room : raws.length < MAX_CHUNKS := by
    rw [MAX_CHUNKS]
    omega
  constructor
  · intro complete raw member flag
    obtain ⟨front, rfl⟩ := List.getLast?_eq_some_iff.mp member
    have dropped := intermediate_drops sized arena_index (by simp at room; omega) heap flag
    have lengths := congrArg (fun run => run.1.length) (complete.symm.trans dropped)
    simp at lengths
  · exact intermediate_complete sized arena_index room heap

/-- Two chunks of an intermediate heap, the fencepost and the bare word. The
    second chunk is free in an ordinary bin, so `NON_MAIN_ARENA` is clear on it. -/
def binned_last : MemReader := fake_mem [(0x100, 0x25), (0x120, 0x31), (0x150, 0x10), (0x160, 0x1)] []

/-- The same heap with the second chunk in use, so that it kept its flag. -/
def used_last : MemReader := fake_mem [(0x100, 0x25), (0x120, 0x35), (0x150, 0x11), (0x160, 0x1)] []

theorem intermediate_heap_complete_used_last :
    walk_region used_last (test_layout 8) 1 0x100 0x168 false =
        (eventsOf (test_layout 8) 0x100 [0x25, 0x35] 0x11, []) ↔
      ∀ raw ∈ [(0x25 : UInt64), 0x35].getLast?, raw &&& NON_MAIN_ARENA ≠ 0 :=
  intermediate_heap_complete_iff used_last (test_layout 8) test_layout_sized.1 1 [0x25, 0x35] 0x11 0x100 0x168 0x150
    (by decide)
    ⟨by
      intro raw member
      rcases List.mem_cons.mp member with rfl | member
      · exact ⟨by decide, by decide⟩
      · obtain rfl := List.mem_singleton.mp member
        exact ⟨by decide, by decide⟩,
      ⟨rfl, rfl, rfl⟩, rfl, by decide, by decide, by decide, rfl⟩

/-- Not every intermediate heap is reported completely: of two chunks the walk
    loses the second, which is free in an ordinary bin. -/
theorem intermediate_heap_incomplete :
    ¬ ∀ (mem : MemReader) (layout : DetectedLayout) (_ : layout.Sized) (arena_index : UInt32) (raws : List UInt64)
      (fencepost region_start region_end : UInt64) (fence : Nat), raws.length ≤ 9999999 →
      IntermediateHeap mem layout raws fencepost region_start.toNat fence region_end →
      walk_region mem layout arena_index region_start region_end false =
        (eventsOf layout region_start.toNat raws fencepost, []) := by
  intro complete
  have heap : IntermediateHeap binned_last (test_layout 8) [0x25, 0x31] 0x10 0x100 0x150 0x168 := by
    refine ⟨?_, ⟨rfl, rfl, rfl⟩, rfl, by decide, by decide, by decide, rfl⟩
    intro raw member
    rcases List.mem_cons.mp member with rfl | member
    · exact ⟨by decide, by decide⟩
    · obtain rfl := List.mem_singleton.mp member
      exact ⟨by decide, by decide⟩
  have walked := complete binned_last (test_layout 8) test_layout_sized.1 1 [0x25, 0x31] 0x10 0x100 0x168 0x150
    (by decide) heap
  revert walked
  decide

end HeapAnalyser.WalkLayout
