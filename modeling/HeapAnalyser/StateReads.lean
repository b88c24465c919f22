import HeapAnalyser.Conservation
import HeapAnalyser.HeapState

/-!
What the single steps of the analysis read from a memory that stores a state
(`HeapState.Stores`). The padding skip comes to the first chunk, every heap of
an arena is listed and walked to its chunks, these are apart and fit the address
space, the fastbins are counted, and TLS resolution places every tcache entry
with its owner (`Resolves`): all of it without a problem.
-/
namespace HeapAnalyser.StateReads
open Machine Tiling Arenas FreeList FirstOwner HeapList HeapState Stats Conservation Tls Walk
open WalkLayout PaddingSkip SecondaryHeaps Analyze Analysis ThreadArenas

section
variable {mem : MemReader} {layout : DetectedLayout} {libc_addr : UInt64}

/-- The padding skip comes to where the padding ends, if it stops there. -/
theorem skip_padded (sized : layout.Sized) {start stop region_end : UInt64} (padded : Padded mem layout.word start stop)
    (order : stop.toNat ≤ region_end.toNat) (stops : Stops mem region_end stop.toNat) :
    skip_zero_padding mem start region_end layout.word = some stop := by
  obtain ⟨k, reached, zeros⟩ := padded
  have wordPos := sized.word_toNat
  have bound := stop.toNat_lt
  have steps : k ≤ k * layout.word.toNat := Nat.le_mul_of_pos_right k (by omega)
  rw [reached] at stops
  have goesOn : ∀ j < k, ¬ Stops mem region_end (start.toNat + j * layout.word.toNat) := by
    intro j earlier
    rw [Stops, not_or, Nat.not_le, not_not]
    have before := Nat.mul_lt_mul_of_pos_right earlier (show 0 < layout.word.toNat by omega)
    exact ⟨by omega, zeros j earlier⟩
  rw [skip_zero_padding, skip_from_reaches (by omega) (by omega) stops goesOn, ← reached, UInt64.ofNat_toNat]

private theorem read_not_zero (sized : layout.Sized) {raw addr : UInt64} (read : mem.read_u64 addr = .ok raw)
    (size : 2 * layout.word.toNat ≤ (chunk_size raw).toNat) : mem.read_u64 addr ≠ .ok 0 := by
  intro zero
  have wordPos := sized.word_toNat
  obtain rfl : raw = 0 := Except.ok.inj (read.symm.trans zero)
  have none : (chunk_size 0).toNat = 0 := by decide
  omega

/-- The skip stops at the first chunk of a laid out list, or behind an empty one. -/
theorem laid_stops (sized : layout.Sized) {raws : List UInt64} {start hi : Nat} {region_end : UInt64}
    (chunks : ∀ raw ∈ raws, IsChunk layout raw) (laid : LaidOut mem start raws hi) (behind : Stops mem region_end hi) :
    Stops mem region_end start := by
  cases raws with
  | nil =>
    have same : start = hi := laid
    rwa [same]
  | cons raw rest => exact .inr (read_not_zero sized laid.1 (chunks raw (by simp)).minimum)

/-- The region of a stored heap is found and walked. -/
structure Walks (mem : MemReader) (layout : DetectedLayout) (index : UInt32) (is_main : Bool) (h : StoredHeap) : Prop where
  order : h.heap.region_start.toNat ≤ h.heap.region_end.toNat
  stops : Stops mem h.heap.region_end h.heap.region_start.toNat
  walked : walk_region mem layout index h.heap.region_start h.heap.region_end is_main = (h.chunks layout, [])

theorem walks_filled (sized : layout.Sized) (index : UInt32) (is_main : Bool) {h : StoredHeap}
    (fills : FillsRegion mem layout h) : Walks mem layout index is_main h :=
  ⟨(fills.laid.span fills.chunks).1, laid_stops sized fills.chunks fills.laid (.inl le_rfl),
    walk_region_laid_out sized index is_main fills.few fills.chunks fills.laid fills.read⟩

private theorem walks_fenced (sized : layout.Sized) (index : UInt32) {h : StoredHeap} (fills : FillsFenced mem layout h) :
    Walks mem layout index false h := by
  obtain ⟨few, ⟨fence, fenced⟩, flagged⟩ := fills
  have order := (fenced.laid.span fenced.chunks).1
  have last := fenced.bare_at
  refine ⟨by omega, ?_, intermediate_complete sized index few fenced flagged⟩
  exact laid_stops sized fenced.chunks fenced.laid (.inr (read_not_zero sized fenced.fencepost_read fenced.fencepost_size.ge))

theorem list_main_stored (sized : layout.Sized) (index : UInt32) {a : StoredArena}
    (stored : MainStored mem layout libc_addr a) :
    list_main mem layout libc_addr ⟨a.address, index⟩ = some (.ok (a.heaps.map StoredHeap.heap, [])) := by
  cases stored with
  | fresh sbrk_base base top unused heaps =>
    have readTop : mem.read_u64 (topField layout ⟨a.address, index⟩) = .ok a.top := top
    simp only [list_main, base, readTop, unused, if_true, heaps, List.map_nil]
  | grown h base top used mapped size mprotect_size region_end padded fills heaps =>
    have readTop : mem.read_u64 (topField layout ⟨a.address, index⟩) = .ok a.top := top
    have walks := walks_filled sized index true fills
    have skipped := skip_padded sized padded walks.order walks.stops
    have measured : checked_sub a.top h.heap.address = some h.heap.size := checked_sub_eq_some.mpr (by omega)
    have unset : ¬ (h.heap.address = 0 ∨ a.top = 0) := not_or.mpr used
    have whole : h.heap = ⟨h.heap.address, h.heap.size, h.heap.size, h.heap.region_start, h.heap.region_end⟩ :=
      congrArg (Heap.mk h.heap.address h.heap.size · h.heap.region_start h.heap.region_end) mprotect_size
    simp only [list_main, base, readTop, unset, if_false, main_heap_start, mapped, if_true, measured, ← region_end,
      skipped, Option.map_some, heaps, List.map_cons, List.map_nil, ← whole]

private theorem secondary_heap_stored (sized : layout.Sized) {top top_heap prev : UInt64} {index : UInt32}
    {h : StoredHeap} (info : read_heap_info mem layout h.heap.address = .ok ⟨h.heap.size, h.heap.mprotect_size, prev⟩)
    (ends : secondary_end layout top top_heap h.heap.address h.heap.size = some h.heap.region_end)
    (padded : Padded mem layout.word (secondary_start layout h.heap.address prev) h.heap.region_start)
    (walks : Walks mem layout index false h) : SecondaryHeap mem layout top top_heap h.heap prev :=
  ⟨info, ends, skip_padded sized padded walks.order walks.stops⟩

private theorem secondary_from_heap (arena : Arena) (remaining : Nat) {top top_heap prev : UInt64} {visited : List UInt64}
    (heaps : List Heap) {heap : Heap} (fresh : heap.address ∉ visited)
    (isHeap : SecondaryHeap mem layout top top_heap heap prev) :
    secondary_from mem layout arena top top_heap (remaining + 1) visited heaps heap.address =
      if prev = 0 then some (.ok (heaps ++ [heap], []))
      else secondary_from mem layout arena top top_heap remaining (heap.address :: visited) (heaps ++ [heap]) prev := by
  simp only [secondary_from, if_neg fresh, isHeap.info, isHeap.region_end, isHeap.region_start]

/-- From a heap of the chain on, the loop lists it and the older heaps. -/
theorem secondary_from_stored (sized : layout.Sized) (arena : Arena) {top top_heap : UInt64} (spare : Nat)
    {visited : List UInt64} (heaps : List Heap) {h : StoredHeap} {older : List StoredHeap}
    (linked : HeapsLinked mem layout (h :: older))
    (ends : ∀ o ∈ h :: older, secondary_end layout top top_heap o.heap.address o.heap.size = some o.heap.region_end)
    (walks : ∀ o ∈ h :: older, Walks mem layout arena.index false o) (nonzero : ∀ o ∈ older, o.heap.address ≠ 0)
    (distinct : ((h :: older).map fun o => o.heap.address).Nodup)
    (fresh : ∀ a ∈ (h :: older).map fun o => o.heap.address, a ∉ visited) :
    secondary_from mem layout arena top top_heap ((h :: older).length + spare) visited heaps h.heap.address =
      some (.ok (heaps ++ (h :: older).map StoredHeap.heap, [])) := by
  induction older generalizing h heaps visited with
  | nil =>
    obtain ⟨info, padded, _⟩ := linked
    have isHeap := secondary_heap_stored sized info (ends h (by simp)) padded (walks h (by simp))
    have unseen := fresh h.heap.address (by simp)
    rw [show [h].length + spare = spare + 1 by rw [List.length_singleton, Nat.add_comm],
      secondary_from_heap arena spare heaps unseen isHeap]
    simp [linkTo]
  | cons next older ih =>
    obtain ⟨info, padded, later⟩ := linked
    have isHeap := secondary_heap_stored sized info (ends h (by simp)) padded (walks h (by simp))
    have unseen := fresh h.heap.address (by simp)
    have goesOn : linkTo (next :: older) ≠ 0 := nonzero next (by simp)
    have tail := @ih (h.heap.address :: visited) (heaps ++ [h.heap]) next later
      (fun o member => ends o (List.mem_cons_of_mem h member)) (fun o member => walks o (List.mem_cons_of_mem h member))
      (fun o member => nonzero o (List.mem_cons_of_mem next member)) distinct.of_cons
      (Chase.fresh_tail distinct fresh)
    rw [List.length_cons, Nat.add_right_comm, secondary_from_heap arena _ heaps unseen isHeap, if_neg goesOn]
    show secondary_from mem layout arena top top_heap _ _ _ next.heap.address = _
    rw [tail, List.append_assoc]
    rfl

theorem secondary_walks (sized : layout.Sized) (index : UInt32) {a : StoredArena} (stored : SecondaryStored mem layout a) :
    ∀ h ∈ a.heaps, Walks mem layout index false h := by
  cases stored with
  | fresh top heaps => simp [heaps]
  | grown h older top used newest region_end fills each linked distinct few heaps =>
    rw [heaps]
    intro o member
    rcases List.mem_cons.mp member with rfl | later
    · exact walks_filled sized index false fills
    · exact walks_fenced sized index (each o later).fills

theorem list_secondary_stored (sized : layout.Sized) (index : UInt32) {a : StoredArena}
    (stored : SecondaryStored mem layout a) :
    list_secondary mem layout ⟨a.address, index⟩ = some (.ok (a.heaps.map StoredHeap.heap, [])) := by
  have walks := secondary_walks sized index stored
  cases stored with
  | fresh top heaps =>
    have readTop : mem.read_u64 (topField layout ⟨a.address, index⟩) = .ok 0 := top
    simp only [list_secondary, readTop, if_true, heaps, List.map_nil]
  | grown h older top used newest region_end fills each linked distinct few heaps =>
    have readTop : mem.read_u64 (topField layout ⟨a.address, index⟩) = .ok a.top := top
    rw [heaps] at walks ⊢
    have ends : ∀ o ∈ h :: older, secondary_end layout a.top (to_heap_start a.top layout.heap_max_size) o.heap.address
        o.heap.size = some o.heap.region_end := by
      intro o member
      rcases List.mem_cons.mp member with rfl | later
      · rw [secondary_end, if_pos newest, region_end]
      · have other : o.heap.address ≠ to_heap_start a.top layout.heap_max_size := by
          rw [← newest]
          intro same
          exact (List.nodup_cons.mp distinct).1 (List.mem_map.mpr ⟨o, later, same⟩)
        rw [secondary_end, if_neg other]
        exact checked_add_eq_some.mpr (each o later).ends.symm
    have fresh : ∀ addr ∈ (h :: older).map fun o => o.heap.address, addr ∉ ([] : List UInt64) := by simp
    have run := secondary_from_stored sized ⟨a.address, index⟩ (MAX_HEAPS - (h :: older).length) [] linked ends walks
      (fun o member => (each o member).nonzero) distinct fresh
    rw [Nat.add_sub_cancel' few, List.nil_append, newest] at run
    simp only [list_secondary, readTop, used, if_false, run]


/-! ## The chunks of an arena -/

/-- Chunks that are stored where they say, apart from each other. -/
structure Laid (mem : MemReader) (layout : DetectedLayout) (chunks : List ChunkEvent) : Prop where
  reads : ∀ ev ∈ chunks, ReadsAs mem layout ev
  apart : chunks.Pairwise (Apart startOf lengthOf)
  inside : ∀ ev ∈ chunks, startOf ev + lengthOf ev ≤ 2 ^ 64 - 1

/-- The chunks of heaps that are walked, with regions apart. -/
theorem chunks_laid (sized : layout.Sized) {index : UInt32} {is_main : Bool} {a : StoredArena}
    (walks : ∀ h ∈ a.heaps, Walks mem layout index is_main h)
    (apart : (a.heaps.map StoredHeap.heap).Pairwise RegionsApart) : Laid mem layout (a.chunks layout) := by
  have each : ∀ h ∈ a.heaps, ∃ p, Tiles startOf lengthOf h.heap.region_start.toNat (h.chunks layout) p ∧
      p ≤ h.heap.region_end.toNat ∧ ∀ ev ∈ h.chunks layout, ReadsAs mem layout ev := by
    intro h member
    have walked := (walks h member).walked
    obtain ⟨_, p, sound, _⟩ := walk_region_clean sized (by rw [walked])
    rw [walked] at sound
    exact ⟨p, sound.tiles, sound.inside, sound.reads⟩
  have inside : ∀ h ∈ a.heaps, ∀ ev ∈ h.chunks layout,
      h.heap.region_start.toNat ≤ startOf ev ∧ startOf ev + lengthOf ev ≤ h.heap.region_end.toNat := by
    intro h member ev inHeap
    obtain ⟨p, tiles, le, _⟩ := each h member
    have bounds := tiles.mem_bounds inHeap
    omega
  refine ⟨?_, ?_, ?_⟩
  · intro ev member
    obtain ⟨h, inArena, inHeap⟩ := List.mem_flatMap.mp member
    obtain ⟨_, _, _, reads⟩ := each h inArena
    exact reads ev inHeap
  · refine flatMap_apart a.heaps _ (fun h => h.heap.region_start.toNat) (fun h => h.heap.region_end.toNat) ?_ inside ?_
    · intro h member
      obtain ⟨_, tiles, _⟩ := each h member
      exact tiles.pairwise_apart
    · refine (List.pairwise_map.mp apart).imp ?_
      intro g h either
      rwa [RegionsApart, UInt64.le_iff_toNat_le, UInt64.le_iff_toNat_le] at either
  · intro ev member
    obtain ⟨h, inArena, inHeap⟩ := List.mem_flatMap.mp member
    have bounds := inside h inArena ev inHeap
    have wide := h.heap.region_end.toNat_lt
    omega

theorem Laid.addresses (sized : layout.Sized) {chunks : List ChunkEvent} (laid : Laid mem layout chunks) :
    (chunks.map ChunkEvent.user_addr).Nodup := by
  refine List.pairwise_map.mpr (laid.apart.imp_of_mem ?_)
  intro a b inA inB apart same
  have readA := laid.reads a inA
  have readB := laid.reads b inB
  have users := congrArg UInt64.toNat same
  have wordPos := sized.word_toNat
  have minimumA := readA.minimum
  have minimumB := readB.minimum
  rw [readA.user_addr, readB.user_addr] at users
  simp only [Apart, startOf, lengthOf] at apart
  omega

theorem Laid.fits {chunks : List ChunkEvent} (laid : Laid mem layout chunks) :
    payload (sizesOf chunks) + chunks.length * layout.header.toNat < 2 ^ 64 := by
  rw [payload_add_headers laid.reads]
  have sum := sum_le_of_apart laid.apart fun ev member => ⟨Nat.zero_le _, laid.inside ev member⟩
  omega

private theorem walk_fastbin_stored {head_addr : UInt64} {nodes : List UInt64} (arena_index bin : UInt32)
    (list : ListStored mem layout (fastbinSlot layout) head_addr nodes) (distinct : nodes.Nodup) :
    walk_fastbin mem layout (nodes.headD 0) arena_index bin =
      (⟨bin, fastbin_index_to_size layout bin, UInt64.ofNat nodes.length⟩, []) := by
  cases nodes with
  | nil => rfl
  | cons node rest =>
    obtain ⟨all, clean⟩ := chase_stored (fun slot => .FastbinChunkReadFailed arena_index bin (hex slot))
      (.FastbinCycleDetected arena_index bin) list.few distinct list.nonzero list.links
    simp only [List.headD_cons, walk_fastbin, if_neg (list.nonzero node (by simp)), fastbin_from_eq, all, clean,
      UInt64.zero_add]

private theorem walk_tcache_bin_stored {head_addr : UInt64} {nodes : List UInt64} (thread_id : Int32) (bin : UInt32)
    (list : ListStored mem layout tcacheSlot head_addr nodes) (distinct : nodes.Nodup) :
    walk_tcache_bin mem layout (nodes.headD 0) thread_id bin = (⟨bin, tcache_index_to_size layout bin, nodes⟩, []) := by
  cases nodes with
  | nil => rfl
  | cons node rest =>
    obtain ⟨all, clean⟩ := chase_stored (fun slot => .TcacheChunkReadFailed thread_id bin (hex slot))
      (.TcacheCycleDetected thread_id bin) list.few distinct list.nonzero list.links
    simp only [List.headD_cons, walk_tcache_bin, if_neg (list.nonzero node (by simp)), tcache_from_eq, all, clean,
      List.nil_append]

/-- What a fastbin of an arena is walked to. -/
def fastbinResult (layout : DetectedLayout) (a : StoredArena) (bin : UInt32) : FastbinBinResult :=
  ⟨bin, fastbin_index_to_size layout bin, UInt64.ofNat (a.fastbins bin).length⟩

/-- The chunks of a fastbin are known by different pointers. -/
theorem fastbin_pointers {s : State} {a : StoredArena} (stored : FastbinsStored mem layout s a)
    (addresses : ((a.chunks layout).map ChunkEvent.user_addr).Nodup) {bin : UInt32}
    (member : bin ∈ range_u32 layout.fastbin_count) : ((a.fastbins bin).map (chunkPtr layout)).Nodup := by
  refine List.Nodup.map_on ?_ ((List.nodup_flatMap.mp stored.distinct).1 bin member)
  intro ev inBin other inToo same
  have inChunks := (stored.members bin member ev inBin).1
  have otherIn := (stored.members bin member other inToo).1
  have users : ev.user_addr = other.user_addr := by
    simpa only [chunkPtr, UInt64.sub_left_inj] using same
  exact List.inj_on_of_nodup_map addresses inChunks otherIn users

theorem walk_arena_fastbins_stored {s : State} {a : StoredArena} (stored : FastbinsStored mem layout s a)
    (addresses : ((a.chunks layout).map ChunkEvent.user_addr).Nodup) (index : UInt32) :
    walk_arena_fastbins mem layout ⟨a.address, index⟩ =
      ((range_u32 layout.fastbin_count).map (fastbinResult layout a), []) := by
  have run (bins : List UInt32) (inside : ∀ bin ∈ bins, bin ∈ range_u32 layout.fastbin_count)
      (s : List FastbinBinResult × List Problem) :
      bins.foldl (walk_arena_fastbin mem layout ⟨a.address, index⟩) s =
        (s.1 ++ bins.map (fastbinResult layout a), s.2) := by
    induction bins generalizing s with
    | nil => simp
    | cons bin rest ih =>
      have list := stored.lists bin (inside bin (by simp))
      have head : mem.read_u64 (fastbinHead layout ⟨a.address, index⟩ bin) = _ := list.head
      have walked := walk_fastbin_stored index bin list (fastbin_pointers stored addresses (inside bin (by simp)))
      have turn : walk_arena_fastbin mem layout ⟨a.address, index⟩ s bin = (s.1 ++ [fastbinResult layout a bin], s.2) := by
        simp only [walk_arena_fastbin, head, walked, List.length_map, List.append_nil, fastbinResult]
      rw [List.foldl_cons, turn, ih fun later member => inside later (by simp [member]), List.map_cons,
        List.append_assoc, List.singleton_append]
  exact run (range_u32 layout.fastbin_count) (fun _ member => member) ([], [])

private theorem placeAll_new {entries : List Entry} (entry : Entry) (new : entry.1 ∉ entries.map Prod.fst) :
    (placeAll (entries ++ [entry])).1 = (placeAll entries).1.insert entry.1 entry.2 := by
  have none : (placeAll entries).1[entry.1]? = none := by
    rw [(placeAll_spec entries).1 entry.1]
    exact firstOf_eq_none.mpr new
  simp only [placeAll_concat, place, none]

private theorem record_new (thread_id : Int32) (bin : UInt32) (addrs : List UInt64) {entries : List Entry}
    (problems : List Problem)
    (distinct : ((entries ++ addrs.map fun addr => (addr, (thread_id, bin))).map Prod.fst).Nodup) :
    addrs.foldl (record_addr thread_id bin) ((placeAll entries).1, problems) =
      ((placeAll (entries ++ addrs.map fun addr => (addr, (thread_id, bin)))).1, problems) := by
  induction addrs generalizing entries with
  | nil => simp
  | cons addr rest ih =>
    have split : entries ++ (addr :: rest).map (fun addr => (addr, (thread_id, bin))) =
        (entries ++ [(addr, (thread_id, bin))]) ++ rest.map fun addr => (addr, (thread_id, bin)) := by simp
    rw [split] at distinct ⊢
    have front : ((entries ++ [(addr, (thread_id, bin))]).map Prod.fst).Nodup := by
      rw [List.map_append] at distinct
      exact distinct.of_append_left
    have new : addr ∉ entries.map Prod.fst := by
      rw [List.map_append, List.nodup_append] at front
      exact fun seen => front.2.2 addr seen addr (by simp) rfl
    have none : (placeAll entries).1[addr]? = none := by
      rw [(placeAll_spec entries).1 addr]
      exact firstOf_eq_none.mpr new
    rw [List.foldl_cons, ← ih distinct, placeAll_new (addr, (thread_id, bin)) new]
    simp only [record_addr, none]

private theorem collect_bins_stored {base entries_off : UInt64} (thread_id : Int32) {nodes : UInt32 → List UInt64}
    (bins : List UInt32) {entries : List Entry} (problems : List Problem)
    (lists : ∀ bin ∈ bins, ListStored mem layout tcacheSlot (headSlot base entries_off layout.word bin) (nodes bin))
    (distinct : ((entries ++ bins.flatMap fun bin => (nodes bin).map fun addr => (addr, (thread_id, bin))).map
      Prod.fst).Nodup) :
    bins.foldl (collect_bin mem layout base entries_off layout.word thread_id) ((placeAll entries).1, problems) =
      ((placeAll (entries ++ bins.flatMap fun bin => (nodes bin).map fun addr => (addr, (thread_id, bin)))).1,
        problems) := by
  induction bins generalizing entries with
  | nil => simp
  | cons bin rest ih =>
    have list := lists bin (by simp)
    rw [List.flatMap_cons, ← List.append_assoc] at distinct ⊢
    have front : ((entries ++ (nodes bin).map fun addr => (addr, (thread_id, bin))).map Prod.fst).Nodup := by
      rw [List.map_append] at distinct
      exact distinct.of_append_left
    have own : (nodes bin).Nodup := by
      have own := front
      rw [List.map_append, List.map_map] at own
      simpa [Function.comp_def] using own.of_append_right
    rw [List.foldl_cons, ← ih (fun later member => lists later (by simp [member])) distinct,
      ← record_new thread_id bin (nodes bin) problems front]
    simp only [collect_bin, list.head, walk_tcache_bin_stored thread_id bin list own, List.append_nil]

private theorem entries_none {t : StoredThread} (none : ∀ bin ∈ range_u32 layout.tcache_max_bins, t.bins bin = []) :
    t.entries layout = [] := by
  refine List.flatMap_eq_nil_iff.mpr fun bin member => ?_
  rw [none bin member, List.map_nil]

private theorem resolve_tcache_stored {t : StoredThread} (stored : ThreadStored mem layout libc_addr t)
    {entries : List Entry} (problems : List Problem) (distinct : ((entries ++ t.entries layout).map Prod.fst).Nodup) :
    resolve_tcache mem layout libc_addr t.thread ((placeAll entries).1, problems) =
      (((placeAll (entries ++ t.entries layout)).1, problems), false) := by
  by_cases tcache : layout.capabilities.has_tcache = true
  · by_cases null : t.tcache = 0
    · rw [entries_none (stored.none (.inr null)), List.append_nil]
      simp only [resolve_tcache, tcache, if_true, stored.tcache tcache, null]
    · have collected := collect_bins_stored t.thread.thread_id (range_u32 layout.tcache_max_bins) problems
        (stored.bins tcache null) distinct
      simp only [resolve_tcache, tcache, if_true, stored.tcache tcache, null, if_false, collect_tcache, collected,
        StoredThread.entries]
  · rw [entries_none (stored.none (.inl (Bool.eq_false_iff.mpr tcache))), List.append_nil]
    simp only [resolve_tcache, if_neg tcache]

private theorem resolve_thread_stored (main_addr : UInt64) {t : StoredThread}
    (stored : ThreadStored mem layout libc_addr t)
    {entries : List Entry} (map : Std.TreeMap Int32 UInt64) (problems : List Problem)
    (distinct : ((entries ++ t.entries layout).map Prod.fst).Nodup) :
    ∃ bound, resolve_thread mem layout libc_addr main_addr (⟨(placeAll entries).1, map⟩, problems) t.thread =
      (⟨(placeAll (entries ++ t.entries layout)).1, bound⟩, problems) ∧
      (layout.thread_arena.present = false → bound = map) := by
  have collected := resolve_tcache_stored stored problems distinct
  have read : (resolve_arena mem layout libc_addr main_addr t.thread map).2 = false := by
    by_cases present : layout.thread_arena.present = true
    · simp only [resolve_arena, present, if_true, stored.arena present]
    · simp only [resolve_arena, if_neg present]
  refine ⟨(resolve_arena mem layout libc_addr main_addr t.thread map).1, ?_, ?_⟩
  · simp only [resolve_thread, stored.tp, if_false, collected, read, Bool.or_self, Bool.false_eq_true]
  · intro absent
    simp only [resolve_arena, absent, Bool.false_eq_true, if_false]

private theorem resolve_threads_stored (main_addr : UInt64) {threads : List StoredThread}
    (stored : ∀ t ∈ threads, ThreadStored mem layout libc_addr t) {entries : List Entry}
    (map : Std.TreeMap Int32 UInt64) (problems : List Problem)
    (distinct : ((entries ++ threads.flatMap (StoredThread.entries layout)).map Prod.fst).Nodup) :
    ∃ bound, (threads.map StoredThread.thread).foldl (resolve_thread mem layout libc_addr main_addr)
        (⟨(placeAll entries).1, map⟩, problems) =
      (⟨(placeAll (entries ++ threads.flatMap (StoredThread.entries layout))).1, bound⟩, problems) ∧
      (layout.thread_arena.present = false → bound = map) := by
  induction threads generalizing entries map with
  | nil => exact ⟨map, by simp, fun _ => rfl⟩
  | cons t rest ih =>
    rw [List.flatMap_cons, ← List.append_assoc] at distinct ⊢
    have front : ((entries ++ t.entries layout).map Prod.fst).Nodup := by
      rw [List.map_append] at distinct
      exact distinct.of_append_left
    obtain ⟨next, turn, kept⟩ := resolve_thread_stored main_addr (stored t (by simp)) map problems front
    obtain ⟨bound, run, alsoKept⟩ := ih (fun later member => stored later (by simp [member])) next distinct
    exact ⟨bound, by rw [List.map_cons, List.foldl_cons, turn, run], fun absent => (alsoKept absent).trans (kept absent)⟩

/-- What the threads are resolved to, the arenas of the state being listed. -/
structure Resolves (layout : DetectedLayout) (s : State) (tls : TlsInfo × List Problem) : Prop where
  problems : tls.2 = []
  membership : ∀ addr, tls.1.tcache_membership[addr]? = firstOf (s.entries layout) addr
  attached : ∀ a index, attached_threads ⟨a.address, index⟩ (s.threads.map StoredThread.thread) tls.1.thread_arena_map =
    s.attached layout a

theorem resolve_tls_stored (reloc : layout.tp_off_reloc_addr ≠ none) {s : State}
    (stored : Stores mem layout libc_addr s) :
    Resolves layout s (tlsOf mem layout libc_addr (numbered 0 (s.arenas.map StoredArena.address))
      (s.threads.map StoredThread.thread)) := by
  have isMain : s.main.address = mainAddr layout libc_addr := by simpa [State.arenas] using stored.ring.first
  have first : (numbered 0 (s.arenas.map StoredArena.address)).head? = some ⟨mainAddr layout libc_addr, 0⟩ := by
    rw [← isMain]
    rfl
  have ids : ((s.threads.map StoredThread.thread).map Thread.thread_id).Nodup := by
    rw [List.map_map]
    exact stored.ids
  have bound {t : StoredThread} (member : t ∈ s.threads) (present : layout.thread_arena.present = true) :=
    resolve_tls_arena first ids (List.mem_map_of_mem member) ⟨(stored.threads t member).tp, reloc, present,
      (stored.threads t member).arena present⟩
  have entries : (([] ++ s.threads.flatMap (StoredThread.entries layout)).map Prod.fst).Nodup := stored.entries
  obtain ⟨map, run, unset⟩ := resolve_threads_stored (mainAddr layout libc_addr) stored.threads ∅ [] entries
  have same : tlsOf mem layout libc_addr (numbered 0 (s.arenas.map StoredArena.address))
      (s.threads.map StoredThread.thread) = (⟨(placeAll (s.entries layout)).1, map⟩, []) := by
    simp only [tlsOf, resolve_tls, reloc, if_false, first, Option.map_some, Option.getD_some]
    exact run
  rw [same] at bound ⊢
  refine ⟨rfl, (placeAll_spec (s.entries layout)).1, ?_⟩
  intro a index
  by_cases present : layout.thread_arena.present = true
  · simp only [State.attached, present, if_true, attached_threads, List.filter_map, List.map_map]
    congr 1
    apply List.filter_congr
    intro t member
    simp only [Function.comp_apply, bound member present, isMain, Option.some.injEq]
  · have empty : map = ∅ := unset (Bool.eq_false_iff.mpr present)
    simp [State.attached, present, attached_threads, empty]

/-- Without threads there is nothing to resolve. -/
theorem resolve_tls_unthreaded {s : State} (unthreaded : s.threads = []) (arenas : List Arena) :
    Resolves layout s (tlsOf mem layout libc_addr arenas (s.threads.map StoredThread.thread)) := by
  have same : tlsOf mem layout libc_addr arenas (s.threads.map StoredThread.thread) = (⟨∅, ∅⟩, []) := by
    rw [unthreaded]
    unfold tlsOf resolve_tls
    split <;> rfl
  rw [same]
  refine ⟨rfl, ?_, ?_⟩
  · simp [State.entries, unthreaded, firstOf]
  · simp [State.attached, attached_threads, unthreaded]

end

end HeapAnalyser.StateReads
