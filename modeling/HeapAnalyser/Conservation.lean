import HeapAnalyser.Analyze

/-!
Conservation for the main arena, end to end. The padding skip, the chunk walk,
the free-list walks and the totals compose: when none of them reports a
problem, every byte of the walked region is the payload of a chunk that is
counted once, as allocated or as free, or its header (`main_arena_conserved`).
-/
namespace HeapAnalyser.Conservation
open Machine Tiling Arenas HeapList Report Stats Tls Walk Analyze

/-- The report shares out chunks of that many bytes in all: each is counted once
    with its payload, and once with its header. -/
structure Accounted (layout : DetectedLayout) (report : ArenaReport) (bytes : Nat) : Prop where
  counts : report.allocated.count.toNat + report.free.count.toNat = report.overhead.count.toNat
  bytes : report.allocated.bytes.toNat + report.free.bytes.toNat + report.overhead.bytes.toNat = bytes
  headers : report.overhead.bytes.toNat = report.overhead.count.toNat * layout.header.toNat
  allocated : AddUp report.allocated.size_histogram report.allocated.count report.allocated.bytes
  free : AddUp report.free.size_histogram report.free.count report.free.bytes

/-- The report of an arena with one heap accounts for all of the heap's region;
    in front of it are zero words only. -/
structure Conserved (mem : MemReader) (layout : DetectedLayout) (arena : Arena) (heap : Heap) (report : ArenaReport) :
    Prop where
  order : heap.region_start ≤ heap.region_end
  accounted : Accounted layout report (heap.region_end.toNat - heap.region_start.toNat)
  total : ∀ top, mem.read_u64 (topField layout arena) = .ok top → top.toNat + layout.word.toNat < 2 ^ 64 →
    ∃ skipped, heap.region_start.toNat = heap.address.toNat + skipped * layout.word.toNat ∧
      (∀ i < skipped, mem.read_u64 (UInt64.ofNat (heap.address.toNat + i * layout.word.toNat)) = .ok 0) ∧
      report.allocated.bytes.toNat + report.free.bytes.toNat + report.overhead.bytes.toNat +
        skipped * layout.word.toNat = report.heaps.total_bytes.toNat + layout.word.toNat

section
variable {mem : MemReader} {layout : DetectedLayout} {arena_index : UInt32}

/-- A walk of the main arena without a problem covers its region. -/
theorem clean_walk_covers {region_start region_end : UInt64} (sized : layout.Sized)
    (clean : (walk_region mem layout arena_index region_start region_end true).2 = []) :
    region_start ≤ region_end ∧
    Sound mem layout region_end true region_start.toNat
      (walk_region mem layout arena_index region_start region_end true) region_end.toNat ∧
    (walk_region mem layout arena_index region_start region_end true).1.length ≤ MAX_CHUNKS := by
  obtain ⟨order, p, sound, capped⟩ := walk_region_clean sized clean
  refine ⟨order, ?_, capped⟩
  rcases sound.ending with complete | fencepost | cut
  · exact complete.2 ▸ sound
  · exact absurd fencepost.2.1 (by simp)
  · have one := cut.1
    simp [clean] at one

theorem payload_add_headers {events : List ChunkEvent} (reads : ∀ event ∈ events, ReadsAs mem layout event) :
    payload (sizesOf events) + events.length * layout.header.toNat = (events.map lengthOf).sum := by
  induction events with
  | nil => simp [sizesOf, payload]
  | cons event events ih =>
    have rest := ih fun later member => reads later (by simp [member])
    have size := (reads event (by simp)).user_size
    rw [payload_sizesOf] at rest ⊢
    simp only [List.map_cons, List.sum_cons, List.length_cons, Nat.succ_mul]
    show _ = event.full_size.toNat + _
    omega

/-- Where `accumulate` reports nothing, the report accounts for the chunks it was given. -/
theorem report_accounts {events : List ChunkEvent} (tcache_membership : TcacheMembership)
    (bins : List FreeList.FastbinBinResult) (is_main : Bool) (attached : List Int32) (heaps : List Heap)
    (reads : ∀ event ∈ events, ReadsAs mem layout event) (length : events.length < 2 ^ 64)
    (span : (events.map lengthOf).sum < 2 ^ 64)
    (clean : (accumulate layout arena_index events tcache_membership bins).2 = []) :
    Accounted layout (ArenaReport.build arena_index is_main attached heaps
      (accumulate layout arena_index events tcache_membership bins).1) (events.map lengthOf).sum := by
  have shares := payload_add_headers reads
  obtain ⟨allocated, free, whole, allocatedTallies, freeTallies⟩ :=
    accumulate_conserves layout arena_index tcache_membership bins length (by omega) clean
  have payloads := congrArg payload whole
  have cards := congrArg Multiset.card whole
  rw [payload_add] at payloads
  rw [Multiset.card_add, sizesOf_card] at cards
  have overheadCount : (accumulate layout arena_index events tcache_membership bins).1.overhead_count.toNat =
      events.length := ofNat_toNat length
  have overheadBytes : (accumulate layout arena_index events tcache_membership bins).1.overhead_bytes.toNat =
      events.length * layout.header.toNat := by
    show (saturating_mul (UInt64.ofNat events.length) layout.header).toNat = _
    rw [saturating_mul_toNat, ofNat_toNat length]
    exact min_eq_left (by omega)
  have allocatedBytes := allocatedTallies.bytes
  have freeBytes := freeTallies.bytes
  have allocatedCount := allocatedTallies.count
  have freeCount := freeTallies.count
  generalize accumulate layout arena_index events tcache_membership bins = tallied at *
  refine ⟨?_, ?_, ?_, buckets_of_tallies allocatedTallies (by omega), buckets_of_tallies freeTallies (by omega)⟩
  · show tallied.1.allocated.count.toNat + tallied.1.free.tally.count.toNat = tallied.1.overhead_count.toNat
    omega
  · show tallied.1.allocated.bytes.toNat + tallied.1.free.tally.bytes.toNat + tallied.1.overhead_bytes.toNat = _
    omega
  · show tallied.1.overhead_bytes.toNat = tallied.1.overhead_count.toNat * _
    rw [overheadBytes, overheadCount]

end

/-- Without a problem, the report of the main arena accounts for every chunk and
    every byte of the walked region once. -/
theorem main_arena_conserved (mem : MemReader) (layout : DetectedLayout) (sized : layout.Sized) (libc_addr : UInt64)
    (tls : TlsInfo) (threads : List Thread) (arena : Arena) (isMain : arena.is_main = true) (heap : Heap)
    (listed : HeapList.list mem layout libc_addr arena = some (.ok ([heap], []))) (report : ArenaReport)
    (clean : analyze_arena mem layout libc_addr tls threads arena = some (.ok (report, []))) :
    Conserved mem layout arena heap report := by
  simp only [analyze_arena, listed, walk_heaps, isMain, List.map_cons, List.map_nil, List.flatMap_cons,
    List.flatMap_nil, List.append_nil, List.nil_append, Option.some.injEq, Except.ok.injEq, Prod.mk.injEq,
    List.append_eq_nil_iff] at clean
  obtain ⟨rfl, ⟨walked, _⟩, balanced⟩ := clean
  rw [HeapList.list, isMain, if_pos rfl] at listed
  obtain ⟨top, readTop, main⟩ := list_main_spec listed
  obtain ⟨order, sound, capped⟩ := clean_walk_covers sized walked
  have inside := UInt64.le_iff_toNat_le.mp order
  have bound := heap.region_end.toNat_lt
  have covered := sound.tiles.hi_eq
  have accounted := report_accounts tls.tcache_membership (walk_arena_fastbins mem layout arena).1 true
    (attached_threads arena threads tls.thread_arena_map) [heap] sound.reads
    (lt_of_le_of_lt capped (by decide)) (by omega) balanced
  have span : ((walk_region mem layout arena.index heap.region_start heap.region_end true).1.map lengthOf).sum =
      heap.region_end.toNat - heap.region_start.toNat := by omega
  rw [span] at accounted
  refine ⟨order, accounted, ?_⟩
  intro other readOther noWrap
  obtain rfl : top = other := Except.ok.inj (readTop.symm.trans readOther)
  obtain ⟨skipped, reached, zeros⟩ := skip_covered sized.word_toNat main.region_start inside (sound.phase walked)
  refine ⟨skipped, reached, zeros, ?_⟩
  have ends : heap.region_end.toNat = top.toNat + layout.word.toNat := by
    rw [main.region_end]
    exact add_toNat noWrap
  have size := main.size
  have total : (saturating_add 0 heap.size).toNat = heap.size.toNat := by
    have below := heap.size.toNat_lt
    rw [saturating_add_toNat, show (0 : UInt64).toNat = 0 from rfl]
    omega
  rw [accounted.bytes]
  show _ = (saturating_add 0 heap.size).toNat + _
  omega

/-- A main arena of three chunks between its padding and the top. One chunk is
    in a fastbin, and one is in a tcache bin. -/
def small_main : MemReader :=
  fake_mem [(0x3048, 0x40000), (0x1060, 0x40060), (0x1010, 0x40020), (0x40030, 0x0), (0x40000, 0x0),
    (0x40008, 0x21), (0x40028, 0x21), (0x40048, 0x21), (0x40068, 0x1001)] [(0x40000, 0x41000)]

def one_fastbin : DetectedLayout := { test_layout 8 with mp := ⟨true, 0x2000, 0⟩, fastbin_count := 1 }

def small_heap : Heap := ⟨0x40000, 0x60, 0x60, 0x40008, 0x40068⟩

def small_tls : TlsInfo := ⟨(∅ : TcacheMembership).insert 0x40050 (7, 0), ∅⟩

/-- Its report. -/
def small_report : ArenaReport where
  index := 0
  is_main := true
  attached_threads := []
  heaps := ⟨1, 0x60, 0x60⟩
  allocated := ⟨1, 24, [⟨24, 1, 24⟩]⟩
  free := ⟨2, 48, [⟨0, 24, 1, 24⟩], ⟨[7], [⟨0, 24, 1, 24⟩]⟩, [⟨24, 2, 48⟩]⟩
  overhead := ⟨3, 24⟩

theorem main_arena_conserved_small : Conserved small_main one_fastbin ⟨0x1000, 0⟩ small_heap small_report :=
  main_arena_conserved small_main one_fastbin ⟨.inr rfl, rfl, rfl⟩ 0x1000 small_tls [] ⟨0x1000, 0⟩ rfl small_heap
    (by decide) small_report (by decide)

end HeapAnalyser.Conservation
