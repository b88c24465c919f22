import HeapAnalyser.ThreadArenas
import HeapAnalyser.WalkLayout
import HeapAnalyser.PaddingSkip
import HeapAnalyser.Classification

/-!
The heap of a process as glibc keeps it: arenas with their heaps and the chunks
in these, fastbins, and the threads with their tcaches (`State`). `Stores`
says how memory stores such a state, in the terms of malloc's own structures,
and `Describes` what a report has to say of it, in terms of the single chunks.
-/
namespace HeapAnalyser.HeapState
open Machine Tiling Arenas FreeList HeapList Report Stats Tls Walk WalkLayout SecondaryHeaps Analyze ThreadArenas

/-- A heap with the raw size fields of its chunks and the one behind them. -/
structure StoredHeap where
  heap : Heap
  raws : List UInt64
  last : UInt64

def StoredHeap.chunks (layout : DetectedLayout) (h : StoredHeap) : List ChunkEvent :=
  eventsOf layout h.heap.region_start.toNat h.raws h.last

/-- An arena: its heaps, the newest one first, and the chunks in each fastbin. -/
structure StoredArena where
  address : UInt64
  top : UInt64
  heaps : List StoredHeap
  fastbins : UInt32 → List ChunkEvent

namespace StoredArena

def chunks (layout : DetectedLayout) (a : StoredArena) : List ChunkEvent := a.heaps.flatMap (StoredHeap.chunks layout)

/-- The chunks in the arena's fastbins. -/
def fastbinned (layout : DetectedLayout) (a : StoredArena) : List ChunkEvent :=
  (range_u32 layout.fastbin_count).flatMap a.fastbins

end StoredArena

/-- A thread with its `thread_arena`, its `tcache_perthread_struct` and the user
    addresses in each bin of it. -/
structure StoredThread where
  thread : Thread
  arena : UInt64
  tcache : UInt64
  bins : UInt32 → List UInt64

/-- The user addresses in a thread's tcache, with their owner. -/
def StoredThread.entries (layout : DetectedLayout) (t : StoredThread) : List Entry :=
  (range_u32 layout.tcache_max_bins).flatMap fun bin => (t.bins bin).map fun addr => (addr, (t.thread.thread_id, bin))

/-- What malloc keeps of a whole process. -/
structure State where
  main : StoredArena
  others : List StoredArena
  threads : List StoredThread

namespace State

def arenas (s : State) : List StoredArena := s.main :: s.others

def entries (layout : DetectedLayout) (s : State) : List Entry := s.threads.flatMap (StoredThread.entries layout)

/-- The thread and the bin whose tcache a chunk is in. -/
def owner (layout : DetectedLayout) (s : State) (ev : ChunkEvent) : Option (Int32 × UInt32) :=
  if ev.prev_inuse_says_in_use then FirstOwner.firstOf (s.entries layout) ev.user_addr else none

/-- The program holds the chunk: it is in use, in no tcache and in no fastbin. -/
def held (layout : DetectedLayout) (s : State) (a : StoredArena) (ev : ChunkEvent) : Bool :=
  ev.prev_inuse_says_in_use && (s.owner layout ev).isNone && decide (ev ∉ a.fastbinned layout)

/-- The threads that use an arena; a null `thread_arena` is the main one. -/
def attached (layout : DetectedLayout) (s : State) (a : StoredArena) : List Int32 :=
  if layout.thread_arena.present then
    (s.threads.filter fun t => resolved s.main.address t.arena = a.address).map fun t => t.thread.thread_id
  else []

end State

section
variable (mem : MemReader) (layout : DetectedLayout) (libc_addr : UInt64)

/-- Zero words only lie between two addresses. -/
def Padded (word start stop : UInt64) : Prop :=
  ∃ k, stop.toNat = start.toNat + k * word.toNat ∧
    ∀ j < k, mem.read_u64 (UInt64.ofNat (start.toNat + j * word.toNat)) = .ok 0

/-- Chunks fill the region of an arena's newest heap, where top's size field follows. -/
structure FillsRegion (h : StoredHeap) : Prop where
  few : h.raws.length ≤ MAX_CHUNKS
  chunks : ∀ raw ∈ h.raws, IsChunk layout raw
  laid : LaidOut mem h.heap.region_start.toNat h.raws h.heap.region_end.toNat
  read : mem.read_u64 h.heap.region_end = .ok h.last

/-- Chunks fill the region of an older heap up to its fencepost, and the last
    one is in use or in a list that keeps its flags. -/
structure FillsFenced (h : StoredHeap) : Prop where
  few : h.raws.length < MAX_CHUNKS
  fenced : ∃ fence, IntermediateHeap mem layout h.raws h.last h.heap.region_start.toNat fence h.heap.region_end
  flagged : ∀ raw ∈ h.raws.getLast?, raw &&& NON_MAIN_ARENA ≠ 0

/-- The main arena: not grown yet, or one heap from `sbrk_base` to behind top. -/
inductive MainStored (a : StoredArena) : Prop
  | fresh (sbrk_base : UInt64)
      (base : mem.read_u64 (libc_addr + layout.mp.value + layout.mp_sbrk_base_offset.toUInt64) = .ok sbrk_base)
      (top : mem.read_u64 (topField layout ⟨a.address, 0⟩) = .ok a.top)
      (unused : sbrk_base = 0 ∨ a.top = 0) (heaps : a.heaps = [])
  | grown (h : StoredHeap)
      (base : mem.read_u64 (libc_addr + layout.mp.value + layout.mp_sbrk_base_offset.toUInt64) = .ok h.heap.address)
      (top : mem.read_u64 (topField layout ⟨a.address, 0⟩) = .ok a.top)
      (used : h.heap.address ≠ 0 ∧ a.top ≠ 0) (mapped : (mem.segment_start h.heap.address).isSome)
      (size : h.heap.address.toNat + h.heap.size.toNat = a.top.toNat) (mprotect_size : h.heap.mprotect_size = h.heap.size)
      (region_end : h.heap.region_end = a.top + layout.word)
      (padded : Padded mem layout.word h.heap.address h.heap.region_start)
      (fills : FillsRegion mem layout h) (heaps : a.heaps = [h])

/-- What the `prev` of a heap is, with the older heaps behind it. -/
def linkTo : List StoredHeap → UInt64
  | [] => 0
  | h :: _ => h.heap.address

/-- Each heap's `_heap_info` has its sizes and the link to the next older heap. -/
def HeapsLinked : List StoredHeap → Prop
  | [] => True
  | h :: older =>
    read_heap_info mem layout h.heap.address = .ok ⟨h.heap.size, h.heap.mprotect_size, linkTo older⟩ ∧
    Padded mem layout.word (secondary_start layout h.heap.address (linkTo older)) h.heap.region_start ∧
    HeapsLinked older

/-- A heap that is not its arena's newest. -/
structure OlderStored (h : StoredHeap) : Prop where
  nonzero : h.heap.address ≠ 0
  ends : h.heap.address.toNat + h.heap.size.toNat = h.heap.region_end.toNat
  fills : FillsFenced mem layout h

/-- A secondary arena: not used yet, or a chain of heaps from the one top is in. -/
inductive SecondaryStored (a : StoredArena) : Prop
  | fresh (top : mem.read_u64 (topField layout ⟨a.address, 1⟩) = .ok 0) (heaps : a.heaps = [])
  | grown (h : StoredHeap) (older : List StoredHeap)
      (top : mem.read_u64 (topField layout ⟨a.address, 1⟩) = .ok a.top) (used : a.top ≠ 0)
      (newest : h.heap.address = to_heap_start a.top layout.heap_max_size)
      (region_end : h.heap.region_end = a.top + layout.word) (fills : FillsRegion mem layout h)
      (each : ∀ o ∈ older, OlderStored mem layout o) (linked : HeapsLinked mem layout (h :: older))
      (distinct : ((h :: older).map fun o => o.heap.address).Nodup) (few : (h :: older).length ≤ MAX_HEAPS)
      (heaps : a.heaps = h :: older)

/-- A free list: a head pointer, and protected links from node to node. -/
structure ListStored (slot : UInt64 → UInt64) (head_addr : UInt64) (nodes : List UInt64) : Prop where
  head : mem.read_u64 head_addr = .ok (nodes.headD 0)
  few : nodes.length ≤ MAX_CHAIN
  nonzero : ∀ a ∈ nodes, a ≠ 0
  links : Stored mem layout slot nodes

/-- The pointer by which a fastbin knows a chunk. -/
def chunkPtr (ev : ChunkEvent) : UInt64 := ev.user_addr - 2 * layout.word

/-- A payload has the size of a bin's chunks: with its header, the smallest chunk
    and an alignment more for each bin in front. -/
def HasBinSize (bin : UInt32) (size : UInt64) : Prop :=
  size.toNat + layout.header_size.toNat = layout.minsize.toNat + bin.toNat * layout.malloc_alignment.toNat

instance (bin : UInt32) (size : UInt64) : Decidable (HasBinSize layout bin size) := inferInstanceAs (Decidable (_ = _))

/-- Every fastbin of an arena holds chunks of the arena, of its size, in use and in no tcache. -/
structure FastbinsStored (s : State) (a : StoredArena) : Prop where
  smallest : layout.header_size ≤ layout.minsize
  lists : ∀ bin ∈ range_u32 layout.fastbin_count, ListStored mem layout (fastbinSlot layout)
    (fastbinHead layout ⟨a.address, 0⟩ bin) ((a.fastbins bin).map (chunkPtr layout))
  members : ∀ bin ∈ range_u32 layout.fastbin_count, ∀ ev ∈ a.fastbins bin, ev ∈ a.chunks layout ∧
    ev.prev_inuse_says_in_use = true ∧ s.owner layout ev = none ∧ HasBinSize layout bin ev.user_size
  distinct : (a.fastbinned layout).Nodup

/-- A thread: its TLS has the arena and the tcache, whose bins are stored. Without
    tcache support, it has none. -/
structure ThreadStored (t : StoredThread) : Prop where
  tp : t.thread.tp ≠ 0
  arena : layout.thread_arena.present = true → read_thread_arena mem layout libc_addr t.thread.tp = .ok t.arena
  tcache : layout.capabilities.has_tcache = true → tcache_ptr mem layout libc_addr t.thread.tp = .ok t.tcache
  bins : layout.capabilities.has_tcache = true → t.tcache ≠ 0 → ∀ bin ∈ range_u32 layout.tcache_max_bins,
    ListStored mem layout tcacheSlot
      (headSlot t.tcache layout.tcache_entries_offset.toUInt64 layout.word bin) (t.bins bin)
  none : layout.capabilities.has_tcache = false ∨ t.tcache = 0 → ∀ bin ∈ range_u32 layout.tcache_max_bins, t.bins bin = []

/-- Memory stores a state. -/
structure Stores (s : State) : Prop where
  ring : Ring mem layout libc_addr (s.arenas.map StoredArena.address)
  few : s.arenas.length < MAX_ARENAS
  main : MainStored mem layout libc_addr s.main
  others : ∀ a ∈ s.others, SecondaryStored mem layout a
  apart : ∀ a ∈ s.arenas, (a.heaps.map StoredHeap.heap).Pairwise RegionsApart
  fastbins : ∀ a ∈ s.arenas, FastbinsStored mem layout s a
  threads : ∀ t ∈ s.threads, ThreadStored mem layout libc_addr t
  ids : (s.threads.map fun t => t.thread.thread_id).Nodup
  entries : ((s.entries layout).map Prod.fst).Nodup

end

/-! ## What a report says of a state -/

/-- A count, bytes and a histogram are those of some chunks. -/
structure Summarises (count bytes : UInt64) (size_histogram : List SizeBucket) (chunks : List ChunkEvent) : Prop where
  count : count.toNat = chunks.length
  bytes : bytes.toNat = (chunks.map fun ev => ev.user_size.toNat).sum
  buckets : ∀ bucket, bucket ∈ size_histogram ↔
    0 < bucket.count.toNat ∧ bucket.count.toNat = chunks.countP (fun ev => ev.user_size = bucket.size) ∧
    bucket.bytes.toNat = bucket.size.toNat * bucket.count.toNat
  ascending : size_histogram.Pairwise fun a b => a.size < b.size

/-- A bucket counts the chunks of its bin; a bin without chunks has no bucket. -/
def CountsBin (layout : DetectedLayout) (bucket : BinBucket) (count : Nat) : Prop :=
  0 < bucket.count.toNat ∧ bucket.count.toNat = count ∧ HasBinSize layout bucket.index bucket.size ∧
    bucket.bytes.toNat = min (bucket.size.toNat * bucket.count.toNat) (2 ^ 64 - 1)

/-- A report's entry, of a number, is what the state has of the arena, chunk by chunk. -/
structure Describes (layout : DetectedLayout) (s : State) (number : UInt32) (a : StoredArena) (entry : ArenaReport) :
    Prop where
  index : entry.index = number
  is_main : entry.is_main = decide (number = 0)
  attached : entry.attached_threads = s.attached layout a
  heaps : entry.heaps.count.toNat = a.heaps.length
  total_bytes : entry.heaps.total_bytes.toNat = min (a.heaps.map fun h => h.heap.size.toNat).sum (2 ^ 64 - 1)
  committed_bytes :
    entry.heaps.committed_bytes.toNat = min (a.heaps.map fun h => h.heap.mprotect_size.toNat).sum (2 ^ 64 - 1)
  allocated : Summarises entry.allocated.count entry.allocated.bytes entry.allocated.size_histogram
    ((a.chunks layout).filter (s.held layout a))
  free : Summarises entry.free.count entry.free.bytes entry.free.size_histogram
    ((a.chunks layout).filter fun ev => !s.held layout a ev)
  fastbins : ∀ bucket, bucket ∈ entry.free.fastbins ↔
    bucket.index < layout.fastbin_count ∧ CountsBin layout bucket (a.fastbins bucket.index).length
  fastbins_ascending : entry.free.fastbins.Pairwise fun a b => a.index < b.index
  tcache_threads : ∀ id, id ∈ entry.free.tcache.tcache_threads ↔
    ∃ ev ∈ a.chunks layout, ∃ bin, s.owner layout ev = some (id, bin)
  threads_ascending : entry.free.tcache.tcache_threads.Pairwise (· < ·)
  tcache_bins : ∀ bucket, bucket ∈ entry.free.tcache.bins ↔ CountsBin layout bucket
    ((a.chunks layout).countP fun ev => (s.owner layout ev).map Prod.snd = some bucket.index)
  bins_ascending : entry.free.tcache.bins.Pairwise fun a b => a.index < b.index
  overhead_count : entry.overhead.count.toNat = (a.chunks layout).length
  overhead_bytes : entry.overhead.bytes.toNat = (a.chunks layout).length * layout.header.toNat

end HeapAnalyser.HeapState
