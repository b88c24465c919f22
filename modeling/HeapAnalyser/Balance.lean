import HeapAnalyser.Classification
import HeapAnalyser.Conservation
import HeapAnalyser.ProblemArenas

/-!
Every report adds up, of a corrupt memory as well (`report_balanced`). Each chunk
that an arena's walks emit is counted once, by its size, in one of two
histograms, unless a `StatsInconsistent` names the arena or its heaps' regions
overlap: as free where it is not in use or in a tcache, or where the fastbins
list it, and else as allocated. Where no problem names the arena its regions are
walked to their ends.
-/
namespace HeapAnalyser.Balance
open Machine Tiling Arenas HeapList HeapChain SecondaryHeaps FreeList Histogram Report Stats Tls Walk Analyze
open Classification Conservation Analysis

/-- The chunks that are walked in a heap. -/
def chunksOf (mem : MemReader) (layout : DetectedLayout) (arena : Arena) (heap : Heap) : List ChunkEvent :=
  (walk_region mem layout arena.index heap.region_start heap.region_end arena.is_main).1

/-- The problems do not call an arena's statistics inconsistent. -/
def Consistent (problems : List Problem) (index : UInt32) : Prop :=
  ∀ size reason, .StatsInconsistent index size reason ∉ problems

/-- No problem is about the arena. -/
def Quiet (problems : List Problem) (index : UInt32) : Prop := ∀ problem ∈ problems, arenaOf problem ≠ some index

/-- A chunk in use whose address is in a thread's tcache. -/
def cached (mem : MemReader) (layout : DetectedLayout) (libc_addr : UInt64) (threads : List Thread) (ev : ChunkEvent) :
    Bool :=
  ev.prev_inuse_says_in_use &&
    (layout.capabilities.has_tcache && decide (ev.user_addr ∈ (entriesOf mem layout libc_addr threads).map Prod.fst))

/-- The sizes that buckets hold, each as often as it is counted. -/
def sizesIn (buckets : List (UInt64 × UInt64)) : Multiset UInt64 :=
  (buckets.map fun bucket => Multiset.replicate bucket.2.toNat bucket.1).sum

def allocatedSizes (entry : ArenaReport) : Multiset UInt64 :=
  sizesIn (entry.allocated.size_histogram.map fun bucket => (bucket.size, bucket.count))

def freeSizes (entry : ArenaReport) : Multiset UInt64 :=
  sizesIn (entry.free.size_histogram.map fun bucket => (bucket.size, bucket.count))

def fastbinSizes (entry : ArenaReport) : Multiset UInt64 :=
  sizesIn (entry.free.fastbins.map fun bin => (bin.size, bin.count))

/-- An entry accounts for chunks: its two histograms share them out, each chunk
    once, and those that are free are the chunks not in use, those in a tcache and
    those that its fastbins list. -/
structure Balanced (layout : DetectedLayout) (isCached : ChunkEvent → Bool) (entry : ArenaReport)
    (chunks : List ChunkEvent) : Prop where
  accounted : Accounted layout entry (chunks.map lengthOf).sum
  counted : entry.overhead.count.toNat = chunks.length
  once : allocatedSizes entry + freeSizes entry = sizesOf chunks
  free : freeSizes entry = sizesOf (chunks.filter fun ev => !ev.prev_inuse_says_in_use) +
    sizesOf (chunks.filter isCached) + fastbinSizes entry
  parked : (entry.free.tcache.bins.map fun bin => bin.count.toNat).sum = (chunks.filter isCached).length

/-- What is said of an arena whose heaps are listed. -/
structure Surveyed (mem : MemReader) (layout : DetectedLayout) (isCached : ChunkEvent → Bool) (problems : List Problem)
    (arena : Arena) (entry : ArenaReport) (heaps : List Heap) : Prop where
  tiled : ∀ heap ∈ heaps, ∃ p, Tiles startOf lengthOf heap.region_start.toNat (chunksOf mem layout arena heap) p ∧
    (heap.region_start ≤ heap.region_end → p ≤ heap.region_end.toNat) ∧
    (Quiet problems arena.index → heap.region_start ≤ heap.region_end ∧ (p = heap.region_end.toNat ∨
      AtFencepost mem layout heap.region_end arena.is_main [] p))
  apart : arena.is_main = true ∨ (Quiet problems arena.index ∧ MappedInBlocks layout heaps) →
    heaps.Pairwise RegionsApart
  balanced : Consistent problems arena.index → heaps.Pairwise RegionsApart →
    Balanced layout isCached entry (heaps.flatMap (chunksOf mem layout arena))

/-- The entry of an arena in a report with some problems: a stub that a problem
    explains, or the survey of the arena's heaps. -/
def EntryBalanced (mem : MemReader) (layout : DetectedLayout) (libc_addr : UInt64) (threads : List Thread)
    (problems : List Problem) (arena : Arena) (entry : ArenaReport) : Prop :=
  (∃ e, HeapList.list mem layout libc_addr arena = some (.error e) ∧ arena.is_main = false ∧
    entry = ArenaReport.stub arena.index false entry.attached_threads ∧
    .HeapWalkTruncated arena.index "heap list start unreadable" ∈ problems) ∨
  ∃ heaps found, HeapList.list mem layout libc_addr arena = some (.ok (heaps, found)) ∧
    Surveyed mem layout (cached mem layout libc_addr threads) problems arena entry heaps

section
variable {layout : DetectedLayout} {arena_index : UInt32} {events : List ChunkEvent}
  {tcache_membership : TcacheMembership} {bins : List FastbinBinResult}

private theorem accumulate_says (length : events.length < 2 ^ 64) :
    ∀ problem ∈ (accumulate layout arena_index events tcache_membership bins).2,
      ∃ size reason, problem = .StatsInconsistent arena_index size reason := by
  intro problem member
  have classified := classify_run tcache_membership events length
  obtain ⟨_, fb, _, _, rfl⟩ := ((move_run arena_index
    (events.foldl (classify tcache_membership) ⟨default, default, ∅, ∅⟩).free classified.allocated bins).2
      problem).mp member
  exact ⟨_, _, rfl⟩

private theorem sizesIn_buckets {t : SizeTally} {sizes : Multiset UInt64} (tallies : Tallies t sizes) :
    sizesIn ((buckets t.histogram).map fun bucket => (bucket.size, bucket.count)) = sizes := by
  rw [buckets, List.map_map, sizesIn, List.map_map]
  exact tallies.buckets.sum_replicate

private theorem sizesIn_fastbins (bins : List FastbinBinResult) :
    sizesIn ((bins.filter fun fb => fb.count ≠ 0).map fun fb => (fb.size, fb.count)) = held bins := by
  induction bins with
  | nil => rfl
  | cons fb rest ih =>
    by_cases none : fb.count = 0
    · simpa [none, held_cons] using ih
    · have kept : sizesIn (((fb :: rest).filter fun fb => fb.count ≠ 0).map fun fb => (fb.size, fb.count)) =
          Multiset.replicate fb.count.toNat fb.size +
            sizesIn ((rest.filter fun fb => fb.count ≠ 0).map fun fb => (fb.size, fb.count)) := by
        simp [none, sizesIn]
      rw [kept, ih, held_cons]

/-- What is not allocated is not in use, or in a tcache. -/
theorem free_sizes {isCached : ChunkEvent → Bool}
    (owned : ∀ ev, isCached ev = (ev.prev_inuse_says_in_use && (tcache_membership[ev.user_addr]?).isSome)) :
    sizesOf (events.filter fun ev => !isAllocated tcache_membership ev) =
      sizesOf (events.filter fun ev => !ev.prev_inuse_says_in_use) + sizesOf (events.filter isCached) := by
  have unused : (events.filter fun ev => !isAllocated tcache_membership ev).filter (fun ev => !ev.prev_inuse_says_in_use) =
      events.filter fun ev => !ev.prev_inuse_says_in_use := by
    rw [List.filter_filter]
    refine List.filter_congr fun ev _ => ?_
    cases inUse : ev.prev_inuse_says_in_use <;> simp [isAllocated, inUse]
  have used : (events.filter fun ev => !isAllocated tcache_membership ev).filter (fun ev => !!ev.prev_inuse_says_in_use) =
      events.filter isCached := by
    rw [List.filter_filter]
    refine List.filter_congr fun ev _ => ?_
    cases inUse : ev.prev_inuse_says_in_use <;> simp [isAllocated, owned, inUse]
  rw [← sizesOf_split fun ev => !ev.prev_inuse_says_in_use, unused, used]

private theorem tcache_bins_sum {threads : Std.TreeSet Int32} {counts : Std.TreeMap UInt32 UInt64}
    {owners : List (Int32 × UInt32)} (parked : Parked owners threads counts) :
    ((counts.toList.map (tcache_bin layout)).map fun bin => bin.count.toNat).sum = owners.length := by
  have all : nonzero counts = counts.toList :=
    List.filter_eq_self.mpr fun entry member => decide_eq_true (parked.filled entry member)
  have total := parked.bins.sum_nonzero fun _ => 1
  simp only [all, one_mul, Multiset.map_const', Multiset.sum_replicate, smul_eq_mul, mul_one, Multiset.coe_card,
    List.length_map] at total
  rw [List.map_map]
  exact total

private theorem owners_length {isCached : ChunkEvent → Bool}
    (owned : ∀ ev, isCached ev = (ev.prev_inuse_says_in_use && (tcache_membership[ev.user_addr]?).isSome)) :
    (ownersOf tcache_membership events).length = (events.filter isCached).length := by
  rw [ownersOf, List.length_filterMap_eq_countP, ← List.countP_eq_length_filter]
  apply List.countP_congr
  intro ev _
  rw [owned, ownerOf]
  cases ev.prev_inuse_says_in_use <;> simp

end

/-! ## The chunks of an arena -/

section
variable {mem : MemReader} {layout : DetectedLayout} {libc_addr : UInt64} {arena : Arena} {heaps : List Heap}

private theorem chunksOf_reads (mem : MemReader) (arena : Arena) (sized : layout.Sized) (heap : Heap) :
    ∃ p, Tiles startOf lengthOf heap.region_start.toNat (chunksOf mem layout arena heap) p ∧
      (heap.region_start ≤ heap.region_end → p ≤ heap.region_end.toNat) ∧
      (∀ event ∈ chunksOf mem layout arena heap, startOf event + lengthOf event ≤ heap.region_end.toNat) ∧
      ∀ event ∈ chunksOf mem layout arena heap, ReadsAs mem layout event := by
  by_cases order : heap.region_start ≤ heap.region_end
  · obtain ⟨p, sound, _⟩ := walk_region_run mem arena.index arena.is_main sized order
    refine ⟨p, sound.tiles, fun _ => sound.inside, fun event member => ?_, sound.reads⟩
    exact (sound.tiles.mem_bounds member).2.trans sound.inside
  · have none : chunksOf mem layout arena heap = [] := by
      rw [chunksOf, walk_region_inverted (UInt64.not_le.mp order)]
    rw [none]
    exact ⟨_, rfl, fun le => absurd le order, by simp, by simp⟩

private theorem chunks_fit (mem : MemReader) (arena : Arena) (sized : layout.Sized)
    (apart : heaps.Pairwise RegionsApart) :
    ((heaps.flatMap (chunksOf mem layout arena)).map lengthOf).sum < 2 ^ 64 := by
  have pairwise : (heaps.flatMap (chunksOf mem layout arena)).Pairwise (Tiling.Apart startOf lengthOf) := by
    apply flatMap_apart heaps _ (fun heap => heap.region_start.toNat) (fun heap => heap.region_end.toNat)
    · intro heap _
      obtain ⟨p, tiles, _⟩ := chunksOf_reads mem arena sized heap
      exact tiles.pairwise_apart
    · intro heap _ event member
      obtain ⟨p, tiles, _, inside, _⟩ := chunksOf_reads mem arena sized heap
      exact ⟨(tiles.mem_bounds member).1, inside event member⟩
    · apply apart.imp
      intro a b either
      rwa [RegionsApart, UInt64.le_iff_toNat_le, UInt64.le_iff_toNat_le] at either
  have inside : ∀ event ∈ heaps.flatMap (chunksOf mem layout arena),
      0 ≤ startOf event ∧ startOf event + lengthOf event ≤ 2 ^ 64 - 1 := by
    intro event member
    obtain ⟨heap, _, inHeap⟩ := List.mem_flatMap.mp member
    obtain ⟨p, _, _, inside, _⟩ := chunksOf_reads mem arena sized heap
    have bound := heap.region_end.toNat_lt
    have ends := inside event inHeap
    omega
  have fit := sum_le_of_apart pairwise inside
  omega

private theorem chunks_read (mem : MemReader) (arena : Arena) (sized : layout.Sized) (heaps : List Heap) :
    ∀ event ∈ heaps.flatMap (chunksOf mem layout arena), ReadsAs mem layout event := by
  intro event member
  obtain ⟨heap, _, inHeap⟩ := List.mem_flatMap.mp member
  obtain ⟨p, _, _, _, reads⟩ := chunksOf_reads mem arena sized heap
  exact reads event inHeap

/-- Each chunk has a header, so they are fewer than their bytes. -/
theorem chunks_length (mem : MemReader) (arena : Arena) (sized : layout.Sized) (apart : heaps.Pairwise RegionsApart) :
    (heaps.flatMap (chunksOf mem layout arena)).length < 2 ^ 64 := by
  have span := chunks_fit mem arena sized apart
  have shares := payload_add_headers (chunks_read mem arena sized heaps)
  have header := sized.header_toNat
  have word := sized.word_toNat
  have few : (heaps.flatMap (chunksOf mem layout arena)).length ≤
      (heaps.flatMap (chunksOf mem layout arena)).length * layout.header.toNat := Nat.le_mul_of_pos_right _ (by omega)
  omega

private theorem chunksOf_quiet (sized : layout.Sized) {heap : Heap} {p : Nat}
    (tiles : Tiles startOf lengthOf heap.region_start.toNat (chunksOf mem layout arena heap) p)
    (clean : (walk_region mem layout arena.index heap.region_start heap.region_end arena.is_main).2 = []) :
    heap.region_start ≤ heap.region_end ∧ (p = heap.region_end.toNat ∨
      AtFencepost mem layout heap.region_end arena.is_main [] p) := by
  obtain ⟨order, q, sound, _⟩ := walk_region_clean sized clean
  obtain rfl : p = q := tiles.hi_eq.trans sound.tiles.hi_eq.symm
  refine ⟨order, ?_⟩
  rcases sound.ending with complete | fencepost | cut
  · exact .inl complete.2
  · exact .inr ⟨rfl, fencepost.2⟩
  · have one := cut.1
    simp [clean] at one

private theorem main_apart {found : List Problem} (main : arena.is_main = true)
    (listed : HeapList.list mem layout libc_addr arena = some (.ok (heaps, found))) : heaps.Pairwise RegionsApart := by
  rw [HeapList.list, if_pos main] at listed
  obtain ⟨_, _, ⟨rfl, _⟩ | ⟨rfl, _⟩ | ⟨heap, rfl, _⟩ | ⟨heap, rfl, _⟩⟩ := list_main_cases listed
  · exact .nil
  · exact .nil
  · exact List.pairwise_singleton _ _
  · exact List.pairwise_singleton _ _

/-- The chunks of an arena are accounted for where the statistics are clean. -/
theorem build_balanced (sized : layout.Sized) (apart : heaps.Pairwise RegionsApart) {isCached : ChunkEvent → Bool}
    {tcache_membership : TcacheMembership}
    (owned : ∀ ev, isCached ev = (ev.prev_inuse_says_in_use && (tcache_membership[ev.user_addr]?).isSome))
    (bins : List FastbinBinResult) (attached : List Int32)
    (clean : (accumulate layout arena.index (heaps.flatMap (chunksOf mem layout arena)) tcache_membership bins).2 = []) :
    Balanced layout isCached (ArenaReport.build arena.index arena.is_main attached heaps
      (accumulate layout arena.index (heaps.flatMap (chunksOf mem layout arena)) tcache_membership bins).1)
      (heaps.flatMap (chunksOf mem layout arena)) := by
  have span := chunks_fit mem arena sized apart
  have length := chunks_length mem arena sized apart
  have reads := chunks_read mem arena sized heaps
  have shares := payload_add_headers reads
  have parked := (classify_run tcache_membership _ length).parked
  obtain ⟨there, moves⟩ := accumulate_moves layout arena.index tcache_membership bins length (by omega) clean
  have allocated := sizesIn_buckets moves.allocated
  have free := sizesIn_buckets moves.free
  have fastbins : fastbinSizes (ArenaReport.build arena.index arena.is_main attached heaps
      (accumulate layout arena.index (heaps.flatMap (chunksOf mem layout arena)) tcache_membership bins).1) = held bins := by
    rw [← sizesIn_fastbins]
    simp only [fastbinSizes, ArenaReport.build, FreeSummary.from_free_stats, accumulate, move_run_fastbins,
      List.nil_append, List.map_map]
    rfl
  refine ⟨report_accounts tcache_membership bins arena.is_main attached heaps reads length span clean,
    ofNat_toNat length, ?_, ?_, ?_⟩
  · refine (congrArg₂ (· + ·) allocated free).trans ?_
    rw [add_comm _ (held bins), ← add_assoc, tsub_add_cancel_of_le there]
    exact sizesOf_split (isAllocated tcache_membership) _
  · rw [fastbins, ← free_sizes owned]
    exact free
  · rw [← owners_length owned, ← @tcache_bins_sum layout _ _ _ parked]
    simp only [ArenaReport.build, FreeSummary.from_free_stats, accumulate, List.map_map]
    rfl

/-- What is listed and walked without a problem has regions that are apart, where glibc maps heaps in blocks. -/
theorem quiet_apart (sized : layout.Sized) (listed : HeapList.list mem layout libc_addr arena = some (.ok (heaps, [])))
    (walked : (walk_heaps mem layout arena heaps).2 = []) (mapped : MappedInBlocks layout heaps) :
    heaps.Pairwise RegionsApart := by
  cases main : arena.is_main with
  | true => exact main_apart main listed
  | false =>
    rw [HeapList.list, if_neg (by simp [main])] at listed
    simp only [walk_heaps, List.flatMap_map, List.flatMap_eq_nil_iff, main] at walked
    exact regions_apart sized listed walked mapped

private theorem surveyed_of_listed (sized : layout.Sized) {found problems : List Problem}
    (listed : HeapList.list mem layout libc_addr arena = some (.ok (heaps, found))) {isCached : ChunkEvent → Bool}
    {tcache_membership : TcacheMembership}
    (owned : ∀ ev, isCached ev = (ev.prev_inuse_says_in_use && (tcache_membership[ev.user_addr]?).isSome))
    (bins : List FastbinBinResult) (attached : List Int32)
    (heapsKept : ∀ problem ∈ found ++ (walk_heaps mem layout arena heaps).2,
      problem ∈ problems ∧ arenaOf problem = some arena.index)
    (statsKept : ∀ problem ∈ (accumulate layout arena.index (walk_heaps mem layout arena heaps).1 tcache_membership
      bins).2, problem ∈ problems) :
    Surveyed mem layout isCached problems arena (ArenaReport.build arena.index arena.is_main attached heaps
      (accumulate layout arena.index (walk_heaps mem layout arena heaps).1 tcache_membership bins).1) heaps := by
  have chunks : (walk_heaps mem layout arena heaps).1 = heaps.flatMap (chunksOf mem layout arena) := by
    rw [walk_heaps, List.flatMap_map]
    rfl
  have silent (quiet : Quiet problems arena.index) : found = [] ∧ (walk_heaps mem layout arena heaps).2 = [] := by
    rw [← List.append_eq_nil_iff, List.eq_nil_iff_forall_not_mem]
    intro problem member
    exact quiet problem (heapsKept problem member).1 (heapsKept problem member).2
  refine ⟨?_, ?_, ?_⟩
  · intro heap member
    obtain ⟨p, tiles, inside, _, _⟩ := chunksOf_reads mem arena sized heap
    refine ⟨p, tiles, inside, fun quiet => chunksOf_quiet sized tiles ?_⟩
    have clean := (silent quiet).2
    simp only [walk_heaps, List.flatMap_map, List.flatMap_eq_nil_iff] at clean
    exact clean heap member
  · rintro (main | ⟨quiet, mapped⟩)
    · exact main_apart main listed
    · obtain ⟨rfl, walked⟩ := silent quiet
      exact quiet_apart sized listed walked mapped
  · intro consistent apart
    rw [chunks] at statsKept ⊢
    apply build_balanced sized apart owned
    have length := chunks_length mem arena sized apart
    rw [List.eq_nil_iff_forall_not_mem]
    intro problem member
    obtain ⟨size, reason, rfl⟩ := accumulate_says length problem member
    exact consistent size reason (statsKept _ member)

private theorem analyze_arena_balanced (sized : layout.Sized) {tls : TlsInfo} {threads : List Thread}
    {entry : ArenaReport} (owned : ∀ ev, cached mem layout libc_addr threads ev =
      (ev.prev_inuse_says_in_use && (tls.tcache_membership[ev.user_addr]?).isSome))
    {found problems : List Problem} (ran : analyze_arena mem layout libc_addr tls threads arena = some (.ok (entry, found)))
    (kept : ∀ problem ∈ found, problem ∈ problems) : EntryBalanced mem layout libc_addr threads problems arena entry := by
  have names : ∀ problem ∈ found, arenaOf problem = some arena.index := by
    rw [(analyze_arena_spec ran).2]
    exact ProblemArenas.arenaProblems_names tls
  unfold analyze_arena at ran
  unfold EntryBalanced
  rcases listed : HeapList.list mem layout libc_addr arena with _ | e | ⟨heaps, heap_problems⟩
  · simp [listed] at ran
  · cases main : arena.is_main with
    | true => simp [listed, main] at ran
    | false =>
      simp only [listed, main, Bool.false_eq_true, if_false, Option.some.injEq, Except.ok.injEq, Prod.mk.injEq] at ran
      obtain ⟨rfl, rfl⟩ := ran
      exact .inl ⟨e, rfl, rfl, rfl, kept _ (by simp)⟩
  · simp only [listed, Option.some.injEq, Except.ok.injEq, Prod.mk.injEq] at ran
    obtain ⟨rfl, rfl⟩ := ran
    refine .inr ⟨heaps, heap_problems, rfl, surveyed_of_listed sized listed owned _ _ ?_ ?_⟩
    · intro problem member
      exact ⟨kept problem (List.mem_append_left _ (List.mem_append_left _ member)),
        names problem (List.mem_append_left _ (List.mem_append_left _ member))⟩
    · intro problem member
      exact kept problem (List.mem_append_right _ member)

private theorem analyze_arenas_balanced (sized : layout.Sized) {tls : TlsInfo} {threads : List Thread}
    {arenas : List Arena} (owned : ∀ ev, cached mem layout libc_addr threads ev =
      (ev.prev_inuse_says_in_use && (tls.tcache_membership[ev.user_addr]?).isSome))
    {entries : List ArenaReport} {found problems : List Problem}
    (ran : analyze_arenas mem layout libc_addr tls threads arenas = some (.ok (entries, found)))
    (kept : ∀ problem ∈ found, problem ∈ problems) :
    List.Forall₂ (EntryBalanced mem layout libc_addr threads problems) arenas entries := by
  induction arenas generalizing entries found with
  | nil =>
    simp only [analyze_arenas, Option.some.injEq, Except.ok.injEq, Prod.mk.injEq] at ran
    obtain ⟨rfl, _⟩ := ran
    exact .nil
  | cons arena rest ih =>
    unfold analyze_arenas at ran
    rcases one : analyze_arena mem layout libc_addr tls threads arena with _ | e | ⟨entry, own⟩
    · simp [one] at ran
    · simp [one] at ran
    rcases others : analyze_arenas mem layout libc_addr tls threads rest with _ | e | ⟨reports, more⟩
    · simp [one, others] at ran
    · simp [one, others] at ran
    simp only [one, others, Option.some.injEq, Except.ok.injEq, Prod.mk.injEq] at ran
    obtain ⟨rfl, rfl⟩ := ran
    exact .cons (analyze_arena_balanced sized owned one fun problem member => kept problem (List.mem_append_left _ member))
      (ih others fun problem member => kept problem (List.mem_append_right _ member))

end

/-- Every report adds up, whatever the memory: an entry is a stub that a problem
    explains, or it counts each chunk that was walked in the arena's heaps once,
    unless its statistics are called inconsistent or heaps overlap. -/
theorem report_balanced (mem : MemReader) (layout : DetectedLayout) (sized : layout.Sized) (identity : Identity)
    (libc_addr : UInt64) (threads : List Thread) (report : Analysis.Report)
    (ran : analyze_core mem layout identity libc_addr threads = some (.ok report)) :
    ∃ arenas arena_problems, Arenas.list mem layout libc_addr = .ok (arenas, arena_problems) ∧
      List.Forall₂ (EntryBalanced mem layout libc_addr threads report.problems) arenas report.arenas := by
  unfold analyze_core at ran
  rcases listed : Arenas.list mem layout libc_addr with e | ⟨arenas, arena_problems⟩
  · simp [listed] at ran
  rcases each : analyze_arenas mem layout libc_addr (tlsOf mem layout libc_addr arenas threads).1 threads arenas with
    _ | e | ⟨entries, problems⟩
  · simp [listed, resolve_tls_frame, each] at ran
  · simp [listed, resolve_tls_frame, each] at ran
  simp only [listed, resolve_tls_frame, each, Option.some.injEq, Except.ok.injEq] at ran
  obtain rfl := ran
  have owned (ev : ChunkEvent) : cached mem layout libc_addr threads ev = (ev.prev_inuse_says_in_use &&
      ((tlsOf mem layout libc_addr arenas threads).1.tcache_membership[ev.user_addr]?).isSome) := by
    rw [cached, tlsOf, resolve_tls_owned]
  exact ⟨arenas, arena_problems, rfl,
    analyze_arenas_balanced sized owned each fun problem member => List.mem_append_right _ member⟩

/-- The report of a main arena whose ring is cut. -/
def cut_ring_report : Analysis.Report where
  problems := [.HeapWalkTruncated 1 "next pointer unreadable"]
  arenas := [
    { index := 0
      is_main := true
      attached_threads := []
      heaps := ⟨1, 0x60, 0x60⟩
      allocated := ⟨2, 48, [⟨24, 2, 48⟩]⟩
      free := ⟨1, 24, [⟨0, 24, 1, 24⟩], ⟨[], []⟩, [⟨24, 1, 24⟩]⟩
      overhead := ⟨3, 24⟩ }]

theorem cut_ring_balanced :
    ∃ arenas arena_problems, Arenas.list small_main one_fastbin 0x1000 = .ok (arenas, arena_problems) ∧
      List.Forall₂ (EntryBalanced small_main one_fastbin 0x1000 [] cut_ring_report.problems) arenas
        cut_ring_report.arenas :=
  report_balanced small_main one_fastbin ⟨.inr rfl, rfl, rfl⟩ (.BuildId []) 0x1000 [] cut_ring_report (by decide +kernel)

end HeapAnalyser.Balance
