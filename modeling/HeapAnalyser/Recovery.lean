import HeapAnalyser.StateReads

/-!
The analysis recovers the heap. Of a memory that stores the state of a process
the report has the arenas of the state, in order, each described chunk by
chunk, and no problem of its own (`analysis_recovers_state`). The description
leaves no choice, so that memories which store the same state, with
safe-linking or without, are analysed to the same report
(`analysis_of_state_alone`).
-/
namespace HeapAnalyser.Recovery
open Machine Arenas FreeList FirstOwner HeapList HeapState StateReads Report Stats Classification Tls Walk
open WalkLayout SecondaryHeaps Analyze Analysis

section
variable {mem : MemReader} {layout : DetectedLayout} {libc_addr : UInt64}

private theorem summarises_of_tallies {t : SizeTally} {chunks : List ChunkEvent} (tallies : Tallies t (sizesOf chunks))
    (fits : payload (sizesOf chunks) < 2 ^ 64) : Summarises t.count t.bytes (buckets t.histogram) chunks := by
  have adds := buckets_of_tallies tallies fits
  have counted := talliesChunks_of tallies fits
  refine ⟨counted.count, counted.bytes, ?_, adds.ascending⟩
  rintro ⟨size, n, bytes⟩
  rw [← and_assoc, ← counted.buckets]
  constructor
  · intro member
    have product := adds.bytes _ member
    obtain ⟨entry, inside, same⟩ := List.mem_map.mp member
    simp only [SizeBucket.mk.injEq] at same
    obtain ⟨rfl, rfl, _⟩ := same
    exact ⟨inside, product⟩
  · rintro ⟨inside, product⟩
    have member := List.mem_map_of_mem (f := fun entry : UInt64 × UInt64 =>
      SizeBucket.mk entry.1 entry.2 (saturating_mul entry.1 entry.2)) inside
    have same : bytes = saturating_mul size n := UInt64.toNat_inj.mp (product.trans (adds.bytes _ member).symm)
    rw [same]
    exact member

/-- The fastbins of an arena with what each holds. -/
def assignment (layout : DetectedLayout) (a : StoredArena) : List (FastbinBinResult × List ChunkEvent) :=
  (range_u32 layout.fastbin_count).map fun bin => (fastbinResult layout a bin, a.fastbins bin)

private theorem assignment_results (layout : DetectedLayout) (a : StoredArena) :
    (assignment layout a).map Prod.fst = (range_u32 layout.fastbin_count).map (fastbinResult layout a) := by
  rw [assignment, List.map_map]
  rfl

private theorem assignment_chunks (layout : DetectedLayout) (a : StoredArena) :
    (assignment layout a).flatMap Prod.snd = a.fastbinned layout := by
  rw [assignment, List.flatMap_map]
  rfl

section
variable {s : State} {a : StoredArena} {membership : TcacheMembership}

private theorem owner_eq (known : ∀ addr, membership[addr]? = firstOf (s.entries layout) addr) (ev : ChunkEvent) :
    ownerOf membership ev = s.owner layout ev := by
  rw [ownerOf, State.owner, known]

private theorem held_eq_stays (known : ∀ addr, membership[addr]? = firstOf (s.entries layout) addr) (ev : ChunkEvent) :
    staysAllocated membership ((assignment layout a).flatMap Prod.snd) ev = s.held layout a ev := by
  rw [staysAllocated, isAllocated, State.held, State.owner, known, assignment_chunks]
  cases ev.prev_inuse_says_in_use <;> rfl

private theorem fastbin_length (stored : FastbinsStored mem layout s a) {bin : UInt32}
    (member : bin ∈ range_u32 layout.fastbin_count) :
    (UInt64.ofNat (a.fastbins bin).length).toNat = (a.fastbins bin).length := by
  have few := (stored.lists bin member).few
  rw [List.length_map] at few
  exact ofNat_toNat (lt_of_le_of_lt few (by decide))

/-- The size that the code computes of a bin is that of its chunks. -/
theorem hasBinSize_iff (smallest : layout.header_size ≤ layout.minsize) {bin : UInt32} {size : UInt64} :
    HasBinSize layout bin size ↔ size = fastbin_index_to_size layout bin := by
  have order : layout.header_size.toUInt64 ≤ layout.minsize.toUInt64 := by
    rwa [UInt64.le_iff_toNat_le, UInt32.toNat_toUInt64, UInt32.toNat_toUInt64, ← UInt32.le_iff_toNat_le]
  have smaller := UInt32.le_iff_toNat_le.mp smallest
  have boundMin := layout.minsize.toNat_lt
  have product : bin.toNat * layout.malloc_alignment.toNat ≤ (2 ^ 32 - 1) * (2 ^ 32 - 1) :=
    Nat.mul_le_mul (Nat.le_pred_of_lt bin.toNat_lt) (Nat.le_pred_of_lt layout.malloc_alignment.toNat_lt)
  have base : (layout.minsize.toUInt64 - layout.header_size.toUInt64).toNat =
      layout.minsize.toNat - layout.header_size.toNat := by
    rw [UInt64.toNat_sub_of_le _ _ order, UInt32.toNat_toUInt64, UInt32.toNat_toUInt64]
  have steps : (bin.toUInt64 * layout.malloc_alignment.toUInt64).toNat = bin.toNat * layout.malloc_alignment.toNat := by
    rw [UInt64.toNat_mul, UInt32.toNat_toUInt64, UInt32.toNat_toUInt64, Nat.mod_eq_of_lt (by omega)]
  rw [← UInt64.toNat_inj, fastbin_index_to_size, add_toNat (by omega), base, steps, HasBinSize]
  omega

private theorem countsBin_iff (smallest : layout.header_size ≤ layout.minsize) {bucket : BinBucket} {count : Nat} :
    CountsBin layout bucket count ↔ 0 < bucket.count.toNat ∧ bucket.count.toNat = count ∧
      bucket.size = fastbin_index_to_size layout bucket.index ∧ bucket.bytes = saturating_mul bucket.size bucket.count := by
  rw [CountsBin, hasBinSize_iff smallest, ← saturating_mul_toNat, UInt64.toNat_inj]

/-- The buckets of the fastbins that are not empty count their chunks. -/
theorem fastbin_buckets (stored : FastbinsStored mem layout s a) (bucket : BinBucket) :
    bucket ∈ ((range_u32 layout.fastbin_count).filter fun bin => a.fastbins bin ≠ []).map (fun bin =>
      (⟨bin, fastbin_index_to_size layout bin, UInt64.ofNat (a.fastbins bin).length,
        saturating_mul (fastbin_index_to_size layout bin) (UInt64.ofNat (a.fastbins bin).length)⟩ : BinBucket)) ↔
      bucket.index < layout.fastbin_count ∧ CountsBin layout bucket (a.fastbins bucket.index).length := by
  rw [countsBin_iff stored.smallest, List.mem_map]
  constructor
  · rintro ⟨bin, member, rfl⟩
    obtain ⟨inRange, some⟩ := List.mem_filter.mp member
    have length := fastbin_length stored inRange
    refine ⟨mem_range_u32.mp inRange, ?_, length, rfl, rfl⟩
    rw [length]
    exact List.length_pos_iff.mpr (of_decide_eq_true some)
  · obtain ⟨index, size, count, bytes⟩ := bucket
    dsimp only
    rintro ⟨inRange, positive, same, rfl, rfl⟩
    have member := mem_range_u32.mpr inRange
    refine ⟨index, List.mem_filter.mpr ⟨member, ?_⟩, ?_⟩
    · exact decide_eq_true (List.length_pos_iff.mp (same ▸ positive))
    · obtain rfl : count = UInt64.ofNat (a.fastbins index).length := eq_ofNat same
      rfl

private theorem kept_fastbins (stored : FastbinsStored mem layout s a) :
    ((((range_u32 layout.fastbin_count).map (fastbinResult layout a)).filter fun fb => fb.count ≠ 0).map fun fb =>
      (⟨fb.index, fb.size, fb.count, saturating_mul fb.size fb.count⟩ : BinTally)).map BinBucket.from_tally =
      ((range_u32 layout.fastbin_count).filter fun bin => a.fastbins bin ≠ []).map fun bin =>
        ⟨bin, fastbin_index_to_size layout bin, UInt64.ofNat (a.fastbins bin).length,
          saturating_mul (fastbin_index_to_size layout bin) (UInt64.ofNat (a.fastbins bin).length)⟩ := by
  have same : (range_u32 layout.fastbin_count).filter ((fun fb : FastbinBinResult => decide (fb.count ≠ 0)) ∘
      fastbinResult layout a) = (range_u32 layout.fastbin_count).filter fun bin => a.fastbins bin ≠ [] := by
    apply List.filter_congr
    intro bin member
    have length := fastbin_length stored member
    have empty : (fastbinResult layout a bin).count = 0 ↔ a.fastbins bin = [] := by
      rw [← UInt64.toNat_inj, ← List.length_eq_zero_iff, ← length]
      rfl
    exact decide_eq_decide.mpr (not_congr empty)
  rw [List.filter_map, List.map_map, List.map_map, same]
  rfl

private theorem assignment_stored (stored : FastbinsStored mem layout s a)
    (known : ∀ addr, membership[addr]? = firstOf (s.entries layout) addr) :
    Assignment membership (a.chunks layout) (assignment layout a) := by
  refine ⟨?_, ?_, by rw [assignment_chunks]; exact stored.distinct⟩
  · intro entry member ev inEntry
    obtain ⟨bin, inRange, rfl⟩ := List.mem_map.mp member
    obtain ⟨inChunks, inUse, unowned, size⟩ := stored.members bin inRange ev inEntry
    refine ⟨inChunks, inUse, ?_, (hasBinSize_iff stored.smallest).mp size⟩
    rw [known]
    simpa [State.owner, inUse] using unowned
  · intro entry member
    obtain ⟨bin, inRange, rfl⟩ := List.mem_map.mp member
    exact fastbin_length stored inRange

private theorem tcache_bins_of_parked (smallest : layout.header_size ≤ layout.minsize) {events : List ChunkEvent}
    {threads : Std.TreeSet Int32} {counts : Std.TreeMap UInt32 UInt64}
    (parked : Parked (ownersOf membership events) threads counts) (bucket : BinBucket) :
    bucket ∈ (counts.toList.map (tcache_bin layout)).map BinBucket.from_tally ↔
      CountsBin layout bucket (events.countP fun ev => (ownerOf membership ev).map Prod.snd = some bucket.index) := by
  have exact_ := tcache_bins_exact layout parked bucket.index bucket.count
  rw [countsBin_iff smallest, ← and_assoc, ← exact_, List.map_map, List.map_map]
  simp only [List.mem_map, Function.comp_apply, tcache_bin, BinBucket.from_tally]
  constructor
  · rintro ⟨entry, inside, rfl⟩
    exact ⟨⟨entry, inside, rfl⟩, rfl, rfl⟩
  · rintro ⟨⟨entry, inside, same⟩, size, bytes⟩
    obtain ⟨index, count⟩ := Prod.mk.inj same
    refine ⟨entry, inside, ?_⟩
    rw [index, count, tcache_index_to_size, ← size, ← bytes]

private theorem threads_of_parked {events : List ChunkEvent} {threads : Std.TreeSet Int32}
    {counts : Std.TreeMap UInt32 UInt64} (parked : Parked (ownersOf membership events) threads counts) (id : Int32) :
    id ∈ threads.toList ↔ ∃ ev ∈ events, ∃ bin, ownerOf membership ev = some (id, bin) := by
  rw [Std.TreeSet.mem_toList, parked.threads]
  constructor
  · rintro ⟨⟨_, bin⟩, member, rfl⟩
    obtain ⟨ev, inEvents, owner⟩ := List.mem_filterMap.mp member
    exact ⟨ev, inEvents, bin, owner⟩
  · rintro ⟨ev, inEvents, bin, owner⟩
    exact ⟨(id, bin), List.mem_filterMap.mpr ⟨ev, inEvents, owner⟩, rfl⟩

end

/-- The report built from the chunks and the free lists of an arena describes it. -/
theorem build_describes {s : State} {a : StoredArena} {tls : TlsInfo} (index : UInt32) (attached : List Int32)
    (sized : layout.Sized) (laid : Laid mem layout (a.chunks layout)) (stored : FastbinsStored mem layout s a)
    (listed : a.heaps.length ≤ MAX_HEAPS) (known : ∀ addr, tls.tcache_membership[addr]? = firstOf (s.entries layout) addr)
    (isAttached : attached = s.attached layout a) :
    (accumulate layout index (a.chunks layout) tls.tcache_membership
      ((range_u32 layout.fastbin_count).map (fastbinResult layout a))).2 = [] ∧
    Describes layout s index a (ArenaReport.build index (decide (index = 0)) attached (a.heaps.map StoredHeap.heap)
      (accumulate layout index (a.chunks layout) tls.tcache_membership
        ((range_u32 layout.fastbin_count).map (fastbinResult layout a))).1) := by
  have room := laid.fits
  have wide : 0 < layout.header.toNat := by
    have wordPos := sized.word_toNat
    rw [sized.header_toNat]
    omega
  have few : (a.chunks layout).length ≤ (a.chunks layout).length * layout.header.toNat := Nat.le_mul_of_pos_right _ wide
  have sorts := accumulate_sorts layout index (by omega) (laid.addresses sized) (assignment_stored stored known) (by omega)
  rw [assignment_results] at sorts
  generalize accumulate layout index (a.chunks layout) tls.tcache_membership
    ((range_u32 layout.fastbin_count).map (fastbinResult layout a)) = tallied at sorts ⊢
  obtain ⟨counts, parked, tcacheBins⟩ := sorts.parked
  have stays : staysAllocated tls.tcache_membership ((assignment layout a).flatMap Prod.snd) = s.held layout a :=
    funext (held_eq_stays known)
  have owners : ownerOf tls.tcache_membership = s.owner layout := funext (owner_eq known)
  have parts := congrArg payload (sizesOf_split (s.held layout a) (a.chunks layout))
  rw [payload_add] at parts
  have allocated := sorts.allocated
  have free := sorts.free
  rw [stays] at allocated free
  have threads := threads_of_parked parked
  have bins := tcache_bins_of_parked stored.smallest parked
  rw [owners] at threads bins
  have fastbins := congrArg (List.map BinBucket.from_tally) sorts.fastbins
  rw [assignment_results, kept_fastbins stored] at fastbins
  have heaps (size : Heap → UInt64) := saturating_sum_toNat size (a.heaps.map StoredHeap.heap) 0
  simp only [UInt64.toNat_zero, Nat.zero_add, List.map_map] at heaps
  refine ⟨sorts.problems, rfl, rfl, isAttached, ?_, heaps Heap.size, heaps Heap.mprotect_size,
    summarises_of_tallies allocated (by omega), summarises_of_tallies free (by omega), ?_, ?_, ?_, ?_, ?_, ?_, ?_, ?_⟩
  · show (UInt64.ofNat (a.heaps.map StoredHeap.heap).length).toNat = _
    rw [List.length_map]
    exact ofNat_toNat (lt_of_le_of_lt listed (by decide))
  · intro bucket
    show bucket ∈ tallied.1.free.fastbins.map BinBucket.from_tally ↔ _
    rw [fastbins]
    exact fastbin_buckets stored bucket
  · show (tallied.1.free.fastbins.map BinBucket.from_tally).Pairwise _
    rw [fastbins, List.pairwise_map]
    exact (range_u32_ascending layout.fastbin_count).filter _
  · exact threads
  · exact Std.TreeSet.ordered_toList.imp fun less => Std.compare_eq_lt.mp less
  · intro bucket
    show bucket ∈ tallied.1.free.tcache_bins.map BinBucket.from_tally ↔ _
    rw [tcacheBins]
    exact bins bucket
  · show (tallied.1.free.tcache_bins.map BinBucket.from_tally).Pairwise _
    rw [tcacheBins, List.map_map]
    apply List.pairwise_map.mpr
    apply Std.TreeMap.ordered_keys_toList.imp
    intro a b less
    exact Std.compare_eq_lt.mp less
  · show tallied.1.overhead_count.toNat = _
    rw [sorts.overhead_count]
    exact ofNat_toNat (by omega)
  · show tallied.1.overhead_bytes.toNat = _
    rw [sorts.overhead_bytes, saturating_mul_toNat, ofNat_toNat (by omega)]
    exact min_eq_left (by omega)

/-- The heaps of an arena of the state, by its number. -/
structure ArenaStored (mem : MemReader) (layout : DetectedLayout) (libc_addr : UInt64) (s : State) (a : StoredArena)
    (index : UInt32) : Prop where
  listed : HeapList.list mem layout libc_addr ⟨a.address, index⟩ = some (.ok (a.heaps.map StoredHeap.heap, []))
  few : a.heaps.length ≤ MAX_HEAPS
  walks : ∀ h ∈ a.heaps, Walks mem layout index (decide (index = 0)) h
  apart : (a.heaps.map StoredHeap.heap).Pairwise RegionsApart
  fastbins : FastbinsStored mem layout s a

private theorem main_stored (sized : layout.Sized) {s : State} (stored : Stores mem layout libc_addr s) :
    ArenaStored mem layout libc_addr s s.main 0 := by
  refine ⟨list_main_stored sized 0 stored.main, ?_, ?_, stored.apart _ (by simp [State.arenas]),
    stored.fastbins _ (by simp [State.arenas])⟩
  · cases stored.main with
    | fresh sbrk_base base top unused heaps => simp [heaps]
    | grown h base top used mapped size mprotect_size region_end padded fills heaps => simp [heaps, MAX_HEAPS]
  · cases stored.main with
    | fresh sbrk_base base top unused heaps => simp [heaps]
    | grown h base top used mapped size mprotect_size region_end padded fills heaps =>
      rw [heaps]
      intro o member
      rw [List.mem_singleton.mp member]
      exact walks_filled sized 0 true fills

private theorem other_stored (sized : layout.Sized) {s : State} (stored : Stores mem layout libc_addr s) {a : StoredArena}
    (member : a ∈ s.others) {index : UInt32} (secondary : index ≠ 0) : ArenaStored mem layout libc_addr s a index := by
  have isOther : (⟨a.address, index⟩ : Arena).is_main = false := by simpa [Arena.is_main] using secondary
  refine ⟨?_, ?_, ?_, stored.apart a (by simp [State.arenas, member]),
    stored.fastbins a (by simp [State.arenas, member])⟩
  · rw [HeapList.list, isOther, if_neg (by simp)]
    exact list_secondary_stored sized index (stored.others a member)
  · cases stored.others a member with
    | fresh top heaps => simp [heaps]
    | grown h older top used newest region_end fills each linked distinct few heaps => exact heaps ▸ few
  · rw [decide_eq_false secondary]
    exact secondary_walks sized index (stored.others a member)

private theorem analyze_arena_stored (sized : layout.Sized) {s : State} {a : StoredArena} {index : UInt32} {tls : TlsInfo}
    (stored : ArenaStored mem layout libc_addr s a index) (resolves : Resolves layout s (tls, [])) :
    ∃ entry, analyze_arena mem layout libc_addr tls (s.threads.map StoredThread.thread) ⟨a.address, index⟩ =
      some (.ok (entry, [])) ∧ Describes layout s index a entry := by
  have laid := chunks_laid sized stored.walks stored.apart
  have fastbins := walk_arena_fastbins_stored stored.fastbins (laid.addresses sized) index
  have walked : walk_heaps mem layout ⟨a.address, index⟩ (a.heaps.map StoredHeap.heap) = (a.chunks layout, []) := by
    have each : a.heaps.map (fun h => walk_region mem layout index h.heap.region_start h.heap.region_end
        (decide (index = 0))) = a.heaps.map fun h => (h.chunks layout, []) :=
      List.map_congr_left fun h member => (stored.walks h member).walked
    have none : a.heaps.flatMap (fun _ => ([] : List Problem)) = [] := List.flatMap_eq_nil_iff.mpr fun _ _ => rfl
    simp only [walk_heaps, Arena.is_main, List.map_map, Function.comp_def, each, List.flatMap_map, none]
    rfl
  obtain ⟨clean, describes⟩ := build_describes index
    (attached_threads ⟨a.address, index⟩ (s.threads.map StoredThread.thread) tls.thread_arena_map) sized laid
    stored.fastbins stored.few resolves.membership (resolves.attached a index)
  refine ⟨_, ?_, describes⟩
  simp only [analyze_arena, stored.listed, walked, fastbins, clean, List.append_nil]
  rfl

/-- Stored arenas, numbered from an index on, are all analysed, without a problem. -/
theorem analyze_arenas_stored (sized : layout.Sized) {s : State} {tls : TlsInfo} (resolves : Resolves layout s (tls, []))
    (arenas : List StoredArena) (index : UInt32)
    (stored : ∀ k (inside : k < arenas.length), ArenaStored mem layout libc_addr s arenas[k] (index + UInt32.ofNat k)) :
    ∃ entries, analyze_arenas mem layout libc_addr tls (s.threads.map StoredThread.thread)
        (numbered index (arenas.map StoredArena.address)) = some (.ok (entries, [])) ∧
      entries.length = arenas.length ∧ ∀ k (inside : k < arenas.length) (within : k < entries.length),
        Describes layout s (index + UInt32.ofNat k) arenas[k] entries[k] := by
  induction arenas generalizing index with
  | nil => exact ⟨[], rfl, rfl, by simp⟩
  | cons a rest ih =>
    have zero : index + UInt32.ofNat 0 = index := UInt32.add_zero index
    have first : ArenaStored mem layout libc_addr s a index := zero ▸ stored 0 (by simp)
    obtain ⟨entry, ran, describes⟩ := analyze_arena_stored sized first resolves
    obtain ⟨entries, later, length, each⟩ := ih (index + 1) fun k inside => by
      rw [← index_step]
      exact stored (k + 1) (by simpa using inside)
    refine ⟨entry :: entries, ?_, by simp [length], ?_⟩
    · rw [List.map_cons, numbered, analyze_arenas, ran]
      simp only [later, List.append_nil]
    · intro k inside within
      cases k with
      | zero => exact zero.symm ▸ describes
      | succ k =>
        rw [index_step]
        exact each k (by simpa using inside) (by simpa using within)

end

/-- The report is the state's: its arenas, each with what the state has of it,
    and the problems of detection only. -/
structure Recovered (layout : DetectedLayout) (identity : Identity) (s : State) (report : Report) : Prop where
  problems : report.problems = detected layout identity
  length : report.arenas.length = s.arenas.length
  each : ∀ k (inside : k < s.arenas.length) (within : k < report.arenas.length),
    Describes layout s (UInt32.ofNat k) s.arenas[k] report.arenas[k]

theorem report_of_state {mem : MemReader} {layout : DetectedLayout} {libc_addr : UInt64} (sized : layout.Sized)
    (identity : Identity) {s : State} (reloc : layout.tp_off_reloc_addr ≠ none ∨ s.threads = [])
    (stored : Stores mem layout libc_addr s) :
    ∃ report, analyze_core mem layout identity libc_addr (s.threads.map StoredThread.thread) = some (.ok report) ∧
      Recovered layout identity s report := by
  have few : (s.arenas.map StoredArena.address).length < MAX_ARENAS := by simpa using stored.few
  have listed := list_ring stored.ring few.le
  rw [if_neg few.ne] at listed
  have resolves : Resolves layout s (tlsOf mem layout libc_addr (numbered 0 (s.arenas.map StoredArena.address))
      (s.threads.map StoredThread.thread)) := by
    rcases reloc with relocated | unthreaded
    · exact resolve_tls_stored relocated stored
    · exact resolve_tls_unthreaded unthreaded _
  have arenas : ∀ k (inside : k < s.arenas.length), ArenaStored mem layout libc_addr s s.arenas[k] (0 + UInt32.ofNat k) := by
    intro k inside
    have small := stored.few
    cases k with
    | zero => exact main_stored sized stored
    | succ k =>
      refine other_stored sized stored (List.getElem_mem _) ?_
      rw [UInt32.zero_add, ← UInt32.toNat_inj.ne, UInt32.toNat_ofNat']
      rw [MAX_ARENAS] at small
      change (k + 1) % 2 ^ 32 ≠ 0
      omega
  obtain ⟨entries, ran, length, each⟩ :=
    analyze_arenas_stored sized ⟨rfl, resolves.membership, resolves.attached⟩ s.arenas 0 arenas
  refine ⟨⟨detected layout identity, entries⟩, ?_, rfl, length, ?_⟩
  · simp only [analyze_core, listed, List.append_nil, resolve_tls_frame, resolves.problems, ran]
  · intro k inside within
    simpa only [UInt32.zero_add] using each k inside within

attribute [ext] HeapsSummary AllocatedSummary TcacheSummary FreeSummary OverheadSummary ArenaReport Analysis.Report

private theorem eq_of_ascending {α : Type} {less : α → α → Prop} (asymm : ∀ a b, less a b → ¬ less b a) {l m : List α}
    (ascendingL : l.Pairwise less) (ascendingM : m.Pairwise less) (members : ∀ a, a ∈ l ↔ a ∈ m) : l = m :=
  haveI : Std.Antisymm less := ⟨fun a b ab ba => absurd ba (asymm a b ab)⟩
  haveI : Std.Irrefl less := ⟨fun a aa => asymm a a aa aa⟩
  ascendingL.eq_of_mem_iff ascendingM members

private theorem summary_unique {count bytes count' bytes' : UInt64} {histogram histogram' : List SizeBucket}
    {chunks : List ChunkEvent} (one : Summarises count bytes histogram chunks)
    (other : Summarises count' bytes' histogram' chunks) : count = count' ∧ bytes = bytes' ∧ histogram = histogram' := by
  refine ⟨UInt64.toNat_inj.mp (one.count.trans other.count.symm), UInt64.toNat_inj.mp (one.bytes.trans other.bytes.symm), ?_⟩
  exact eq_of_ascending (fun _ _ less more => absurd less (UInt64.lt_asymm more)) one.ascending other.ascending
    fun bucket => (one.buckets bucket).trans (other.buckets bucket).symm

private theorem description_unique {layout : DetectedLayout} {s : State} {number : UInt32} {a : StoredArena}
    {entry entry' : ArenaReport} (one : Describes layout s number a entry) (other : Describes layout s number a entry') :
    entry = entry' := by
  obtain ⟨allocatedCount, allocatedBytes, allocatedSizes⟩ := summary_unique one.allocated other.allocated
  obtain ⟨freeCount, freeBytes, freeSizes⟩ := summary_unique one.free other.free
  have threads : entry.free.tcache.tcache_threads = entry'.free.tcache.tcache_threads :=
    eq_of_ascending (fun _ _ less more => absurd less (Int32.lt_asymm more)) one.threads_ascending other.threads_ascending
      fun id => (one.tcache_threads id).trans (other.tcache_threads id).symm
  have bins : entry.free.tcache.bins = entry'.free.tcache.bins :=
    eq_of_ascending (fun _ _ less more => absurd less (UInt32.lt_asymm more)) one.bins_ascending other.bins_ascending
      fun bucket => (one.tcache_bins bucket).trans (other.tcache_bins bucket).symm
  have fastbins : entry.free.fastbins = entry'.free.fastbins :=
    eq_of_ascending (fun _ _ less more => absurd less (UInt32.lt_asymm more)) one.fastbins_ascending
      other.fastbins_ascending fun bucket => (one.fastbins bucket).trans (other.fastbins bucket).symm
  refine ArenaReport.ext (one.index.trans other.index.symm) (one.is_main.trans other.is_main.symm)
    (one.attached.trans other.attached.symm) ?_ ?_ ?_ ?_
  · exact HeapsSummary.ext (UInt64.toNat_inj.mp (one.heaps.trans other.heaps.symm))
      (UInt64.toNat_inj.mp (one.total_bytes.trans other.total_bytes.symm))
      (UInt64.toNat_inj.mp (one.committed_bytes.trans other.committed_bytes.symm))
  · exact AllocatedSummary.ext allocatedCount allocatedBytes allocatedSizes
  · exact FreeSummary.ext freeCount freeBytes fastbins (TcacheSummary.ext threads bins) freeSizes
  · exact OverheadSummary.ext (UInt64.toNat_inj.mp (one.overhead_count.trans other.overhead_count.symm))
      (UInt64.toNat_inj.mp (one.overhead_bytes.trans other.overhead_bytes.symm))

/-- The same target with safe-linking or without. -/
def with_safe_linking (layout : DetectedLayout) (safe : Bool) : DetectedLayout :=
  { layout with capabilities := ⟨layout.capabilities.has_tcache, safe⟩ }

private theorem chunks_with_safe_linking (layout : DetectedLayout) (safe : Bool) :
    StoredArena.chunks (with_safe_linking layout safe) = StoredArena.chunks layout := by
  have events (lo : Nat) (raws : List UInt64) (last : UInt64) :
      eventsOf (with_safe_linking layout safe) lo raws last = eventsOf layout lo raws last := by
    induction raws generalizing lo with
    | nil => rfl
    | cons raw rest ih =>
      rw [eventsOf, eventsOf, ih]
      rfl
  funext a
  exact List.flatMap_congr fun h _ => events _ h.raws h.last

/-- What a state is described as does not look at safe-linking. -/
theorem describes_with_safe_linking {layout : DetectedLayout} {safe : Bool} {s : State} {number : UInt32}
    {a : StoredArena} {entry : ArenaReport} (described : Describes (with_safe_linking layout safe) s number a entry) :
    Describes layout s number a entry := by
  obtain ⟨index, is_main, attached, heaps, total, committed, allocated, free, fastbins, fastbinsAscending, threads,
    ascending, bins, binsAscending, count, bytes⟩ := described
  rw [chunks_with_safe_linking] at allocated free threads bins count bytes
  exact ⟨index, is_main, attached, heaps, total, committed, allocated, free, fastbins, fastbinsAscending, threads,
    ascending, bins, binsAscending, count, bytes⟩

/-- Two memories that store the same state, with or without safe-linking, are
    analysed to the same report. -/
theorem analysis_of_state_alone (mem mem' : MemReader) (layout : DetectedLayout) (safe : Bool) (sized : layout.Sized)
    (identity : Identity) (libc_addr : UInt64) (reloc : layout.tp_off_reloc_addr ≠ none) (s : State)
    (stored : Stores mem layout libc_addr s) (stored' : Stores mem' (with_safe_linking layout safe) libc_addr s) :
    analyze_core mem layout identity libc_addr (s.threads.map StoredThread.thread) =
      analyze_core mem' (with_safe_linking layout safe) identity libc_addr (s.threads.map StoredThread.thread) := by
  have sized' : (with_safe_linking layout safe).Sized := ⟨sized.word_size, sized.header_size, sized.malloc_alignment⟩
  obtain ⟨report, ran, recovered⟩ := report_of_state sized identity (.inl reloc) stored
  obtain ⟨report', ran', recovered'⟩ := report_of_state sized' identity (.inl reloc) stored'
  rw [ran, ran', Option.some.injEq, Except.ok.injEq]
  apply Report.ext
  · exact recovered.problems.trans recovered'.problems.symm
  · refine List.ext_getElem (recovered.length.trans recovered'.length.symm) fun k inside within => ?_
    have isArena : k < s.arenas.length := recovered.length ▸ inside
    exact description_unique (recovered.each k isArena inside)
      (describes_with_safe_linking (recovered'.each k isArena within))

/-- A 64-bit target with or without safe-linking, with one fastbin and one tcache bin. -/
def linked_layout (safe : Bool) : DetectedLayout :=
  { test_layout 8 with
    main_arena := ⟨true, 0, 2200⟩, mp := ⟨true, 0x2000, 0⟩, thread_arena := ⟨true, 8, 8⟩, fastbin_count := 1
    tcache_max_bins := 1, capabilities := ⟨true, safe⟩ }

/-- The null of the free lists, as it is stored in the main arena's first page. -/
def stored_null (safe : Bool) : UInt64 := if safe then 0x40 else 0

/-- The main arena has three chunks, of which one is in a fastbin and one in the
    tcache of the first thread; the arena of the other thread has two heaps. -/
def two_arena_process (safe : Bool) : MemReader :=
  fake_mem [(0x1000, 0x40), (0x1060, 0x40060), (0x1870, 0x9000), (0x3048, 0x40000), (0x1010, 0x40020),
    (0x40000, 0x0), (0x40008, 0x21), (0x40028, 0x21), (0x40030, stored_null safe), (0x40048, 0x21), (0x40050, stored_null safe),
    (0x40068, 0x1001), (0x7040, 0x8000), (0x7048, 0x0), (0x8080, 0x40050), (0x7140, 0x0), (0x7148, 0x9000),
    (0x9060, 0x8000038), (0x9870, 0x1000), (0x9010, 0x0), (0x8000008, 0x4000000), (0x8000010, 0x40),
    (0x8000018, 0x1000), (0x8000020, 0x25), (0x8000040, 0x1005), (0x4000008, 0x0), (0x4000010, 0x8f0),
    (0x4000018, 0x1000), (0x40008b8, 0x25), (0x40008d8, 0x10), (0x40008e8, 0x1)] [(0x40000, 0x41000)]

def main_heap : StoredHeap := ⟨⟨0x40000, 0x60, 0x60, 0x40008, 0x40068⟩, [0x21, 0x21, 0x21], 0x1001⟩
def newest_heap : StoredHeap := ⟨⟨0x8000000, 0x40, 0x1000, 0x8000020, 0x8000040⟩, [0x25], 0x1005⟩
def older_heap : StoredHeap := ⟨⟨0x4000000, 0x8f0, 0x1000, 0x40008b8, 0x40008f0⟩, [0x25], 0x10⟩

def two_arena_state : State where
  main := ⟨0x1000, 0x40060, [main_heap], fun bin => if bin = 0 then [⟨0x40028, 0x40030, 0x18, 0x20, true⟩] else []⟩
  others := [⟨0x9000, 0x8000038, [newest_heap, older_heap], fun _ => []⟩]
  threads := [⟨⟨7, 0x7000⟩, 0, 0x8000, fun bin => if bin = 0 then [0x40050] else []⟩, ⟨⟨8, 0x7100⟩, 0x9000, 0, fun _ => []⟩]

private theorem only_bin {bin : UInt32} (member : bin ∈ range_u32 1) : bin = 0 := by
  simpa [range_u32] using member

private theorem two_arena_main (safe : Bool) :
    MainStored (two_arena_process safe) (linked_layout safe) 0x1000 two_arena_state.main := by
  refine .grown main_heap rfl rfl ⟨by decide +revert, by decide +revert⟩ rfl rfl rfl rfl ⟨1, rfl, ?_⟩
    ⟨by decide +revert, ?_, ?_, rfl⟩ rfl
  · intro j first
    obtain rfl : j = 0 := by omega
    rfl
  · intro raw member
    obtain rfl : raw = 0x21 := by simpa [main_heap] using member
    exact ⟨by decide +revert, by decide +revert⟩
  · exact ⟨rfl, rfl, rfl, rfl⟩

private theorem flagged_chunk (safe : Bool) {raw : UInt64} (member : raw ∈ [(0x25 : UInt64)]) :
    IsChunk (linked_layout safe) raw := by
  obtain rfl := List.mem_singleton.mp member
  exact ⟨by decide +revert, by decide +revert⟩

private theorem no_padding (mem : MemReader) (word start : UInt64) : Padded mem word start start :=
  ⟨0, by simp, fun j none => absurd none (Nat.not_lt_zero j)⟩

private theorem two_arena_other (safe : Bool) :
    SecondaryStored (two_arena_process safe) (linked_layout safe)
      ⟨0x9000, 0x8000038, [newest_heap, older_heap], fun _ => []⟩ := by
  refine .grown newest_heap [older_heap] rfl (by decide +revert) (by decide +revert) rfl
    ⟨by decide +revert, fun _ => flagged_chunk safe, ⟨rfl, rfl⟩, rfl⟩ ?_
    ⟨rfl, no_padding _ _ _, rfl, no_padding _ _ _, trivial⟩
    (by decide +revert) (by decide +revert) rfl
  intro o member
  obtain rfl := List.mem_singleton.mp member
  refine ⟨by decide +revert, by decide +revert, by decide +revert,
    ⟨0x40008d8, fun _ => flagged_chunk safe, ⟨rfl, rfl⟩, rfl, ?_, ?_, ?_, ?_⟩, ?_⟩
  · cases safe <;> decide
  · decide
  · cases safe <;> decide
  · cases safe <;> rfl
  · intro raw isLast
    obtain rfl : (0x25 : UInt64) = raw := Option.some.inj isLast
    decide

private theorem two_arena_threads (safe : Bool) :
    ∀ t ∈ two_arena_state.threads, ThreadStored (two_arena_process safe) (linked_layout safe) 0x1000 t := by
  intro t member
  rcases List.mem_cons.mp member with rfl | member
  · refine ⟨by decide +revert, fun _ => rfl, fun _ => rfl, fun _ _ bin inRange => ?_, fun none => ?_⟩
    · obtain rfl := only_bin inRange
      exact ⟨rfl, by simp [MAX_CHAIN], by simp, rfl, trivial⟩
    · exact absurd none (by cases safe <;> decide)
  · obtain rfl := List.mem_singleton.mp member
    exact ⟨by decide +revert, fun _ => rfl, fun _ => rfl, fun _ used => absurd rfl used, fun _ _ _ => rfl⟩

private theorem two_arena_stored (safe : Bool) :
    Stores (two_arena_process safe) (linked_layout safe) 0x1000 two_arena_state := by
  refine ⟨⟨rfl, by decide +revert, by simp [State.arenas, two_arena_state], ⟨0x40060, rfl⟩, rfl, rfl, trivial⟩,
    by simp [State.arenas, two_arena_state, MAX_ARENAS], two_arena_main safe, ?_, ?_, ?_,
    two_arena_threads safe, by decide +revert, by decide +revert⟩
  · intro a member
    obtain rfl := List.mem_singleton.mp member
    exact two_arena_other safe
  · intro a member
    rcases List.mem_cons.mp member with rfl | member
    · simp [two_arena_state]
    · obtain rfl := List.mem_singleton.mp member
      exact List.pairwise_pair.mpr (.inr (by decide +revert))
  · intro a member
    rcases List.mem_cons.mp member with rfl | member
    · refine ⟨by cases safe <;> decide, ?_, ?_, by decide +revert⟩
      · intro bin inRange
        obtain rfl := only_bin inRange
        cases safe <;> exact ⟨rfl, by simp [two_arena_state, MAX_CHAIN],
          by simp [two_arena_state, chunkPtr, DetectedLayout.word, linked_layout, test_layout], rfl, trivial⟩
      · intro bin inRange
        obtain rfl := only_bin inRange
        cases safe <;> decide
    · obtain rfl := List.mem_singleton.mp member
      refine ⟨by cases safe <;> decide, ?_, by simp, by decide +revert⟩
      intro bin inRange
      obtain rfl := only_bin inRange
      exact ⟨rfl, by simp [MAX_CHAIN], by simp, trivial⟩

theorem analysis_of_two_arenas_alone :
    analyze_core (two_arena_process true) (linked_layout true) (.BuildId [1]) 0x1000 [⟨7, 0x7000⟩, ⟨8, 0x7100⟩] =
      analyze_core (two_arena_process false) (linked_layout false) (.BuildId [1]) 0x1000 [⟨7, 0x7000⟩, ⟨8, 0x7100⟩] :=
  analysis_of_state_alone (two_arena_process true) (two_arena_process false) (linked_layout true) false
    ⟨.inr rfl, rfl, rfl⟩ (.BuildId [1]) 0x1000 (by decide) two_arena_state (two_arena_stored true) (two_arena_stored false)

end HeapAnalyser.Recovery
