import HeapAnalyser.Report
import HeapAnalyser.Tls

/-!
The analysis of one arena, the body of the loop over the arenas in `analyze.rs`:
list its heaps, walk each of them, walk its fastbins, fold it all into totals
and build its report. A main arena whose heaps cannot be listed fails the run; a
secondary one degrades to a stub.
-/
namespace HeapAnalyser.Analyze
open Machine Arenas FreeList HeapList Report Stats Tls Walk

/-- The slot of a fastbin's head in its arena. -/
def fastbinHead (layout : DetectedLayout) (arena : Arena) (bin : UInt32) : UInt64 :=
  arena.malloc_state_addr + layout.fastbin_array_offset.toUInt64 + bin.toUInt64 * layout.word

/-- One fastbin of the loop of `walk_arena_fastbins`. -/
def walk_arena_fastbin (mem : MemReader) (layout : DetectedLayout) (arena : Arena)
    (s : List FastbinBinResult × List Problem) (bin : UInt32) : List FastbinBinResult × List Problem :=
  let head_addr := fastbinHead layout arena bin
  match mem.read_u64 head_addr with
  | .error _ => (s.1, s.2 ++ [.FastbinChunkReadFailed arena.index bin (hex head_addr)])
  | .ok head =>
    let walked := walk_fastbin mem layout head arena.index bin
    (s.1 ++ [walked.1], s.2 ++ walked.2)

/-- The fastbins of an arena, and what its walks report. -/
def walk_arena_fastbins (mem : MemReader) (layout : DetectedLayout) (arena : Arena) :
    List FastbinBinResult × List Problem :=
  (range_u32 layout.fastbin_count).foldl (walk_arena_fastbin mem layout arena) ([], [])

/-- Threads bound to an arena. -/
def attached_threads (arena : Arena) (threads : List Thread) (thread_arena_map : Std.TreeMap Int32 UInt64) :
    List Int32 :=
  (threads.filter fun t => thread_arena_map[t.thread_id]? = some arena.malloc_state_addr).map Thread.thread_id

/-- The walks of an arena's heaps, in order. -/
def walk_heaps (mem : MemReader) (layout : DetectedLayout) (arena : Arena) (heaps : List Heap) :
    List ChunkEvent × List Problem :=
  let walked := heaps.map fun h => walk_region mem layout arena.index h.region_start h.region_end arena.is_main
  (walked.flatMap Prod.fst, walked.flatMap Prod.snd)

/-- One arena of the loop: its report and the problems it adds. -/
def analyze_arena (mem : MemReader) (layout : DetectedLayout) (libc_addr : UInt64) (tls : TlsInfo)
    (threads : List Thread) (arena : Arena) : Option (Except Error (ArenaReport × List Problem)) :=
  let attached := attached_threads arena threads tls.thread_arena_map
  match HeapList.list mem layout libc_addr arena with
  | none => none
  | some (.error e) =>
    if arena.is_main then some (.error e)
    else some (.ok (ArenaReport.stub arena.index arena.is_main attached,
      [.HeapWalkTruncated arena.index "heap list start unreadable"]))
  | some (.ok (heaps, heap_problems)) =>
    let walked := walk_heaps mem layout arena heaps
    let fastbins := walk_arena_fastbins mem layout arena
    let tallied := accumulate layout arena.index walked.1 tls.tcache_membership fastbins.1
    some (.ok (ArenaReport.build arena.index arena.is_main attached heaps tallied.1,
      heap_problems ++ walked.2 ++ fastbins.2 ++ tallied.2))

end HeapAnalyser.Analyze
