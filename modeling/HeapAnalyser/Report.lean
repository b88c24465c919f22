import HeapAnalyser.HeapList
import HeapAnalyser.Stats

/-!
The report of an arena (`report/model.rs`), built from its heaps and its
statistics. Buckets are the entries of a histogram that are not zero, in
ascending order; when the tally they come from is that of a multiset of sizes
whose bytes fit, they add up to its count and its bytes (`buckets_of_tallies`).
-/
namespace HeapAnalyser.Report
open Machine HeapList Histogram Stats

structure HeapsSummary where
  count : UInt64
  total_bytes : UInt64
  committed_bytes : UInt64
  deriving Repr, DecidableEq

def HeapsSummary.from_heaps (heaps : List Heap) : HeapsSummary where
  count := UInt64.ofNat heaps.length
  total_bytes := heaps.foldl (fun total h => saturating_add total h.size) 0
  committed_bytes := heaps.foldl (fun committed h => saturating_add committed h.mprotect_size) 0

structure SizeBucket where
  size : UInt64
  count : UInt64
  bytes : UInt64
  deriving Repr, DecidableEq

/-- Turn a histogram from size to count into ascending buckets. -/
def buckets (histogram : Std.TreeMap UInt64 UInt64) : List SizeBucket :=
  (nonzero histogram).map fun entry => ⟨entry.1, entry.2, saturating_mul entry.1 entry.2⟩

structure AllocatedSummary where
  count : UInt64
  bytes : UInt64
  size_histogram : List SizeBucket
  deriving Repr, DecidableEq

def AllocatedSummary.from_tally (t : SizeTally) : AllocatedSummary := ⟨t.count, t.bytes, buckets t.histogram⟩

structure BinBucket where
  index : UInt32
  size : UInt64
  count : UInt64
  bytes : UInt64
  deriving Repr, DecidableEq

def BinBucket.from_tally (b : BinTally) : BinBucket := ⟨b.index, b.size, b.count, b.bytes⟩

structure TcacheSummary where
  tcache_threads : List Int32
  bins : List BinBucket
  deriving Repr, DecidableEq

structure FreeSummary where
  count : UInt64
  bytes : UInt64
  fastbins : List BinBucket
  tcache : TcacheSummary
  size_histogram : List SizeBucket
  deriving Repr, DecidableEq

def FreeSummary.from_free_stats (f : FreeStats) : FreeSummary where
  count := f.tally.count
  bytes := f.tally.bytes
  fastbins := f.fastbins.map BinBucket.from_tally
  tcache := ⟨f.tcache_threads.toList, f.tcache_bins.map BinBucket.from_tally⟩
  size_histogram := buckets f.tally.histogram

structure OverheadSummary where
  count : UInt64
  bytes : UInt64
  deriving Repr, DecidableEq

structure ArenaReport where
  index : UInt32
  is_main : Bool
  attached_threads : List Int32
  heaps : HeapsSummary
  allocated : AllocatedSummary
  free : FreeSummary
  overhead : OverheadSummary
  deriving Repr, DecidableEq

namespace ArenaReport

def build (index : UInt32) (is_main : Bool) (attached_threads : List Int32) (heaps : List Heap) (stats : ArenaStats) :
    ArenaReport where
  index := index
  is_main := is_main
  attached_threads := attached_threads
  heaps := HeapsSummary.from_heaps heaps
  allocated := AllocatedSummary.from_tally stats.allocated
  free := FreeSummary.from_free_stats stats.free
  overhead := ⟨stats.overhead_count, stats.overhead_bytes⟩

/-- A placeholder for an arena that could not be walked. -/
def stub (index : UInt32) (is_main : Bool) (attached_threads : List Int32) : ArenaReport where
  index := index
  is_main := is_main
  attached_threads := attached_threads
  heaps := ⟨0, 0, 0⟩
  allocated := ⟨0, 0, []⟩
  free := ⟨0, 0, [], ⟨[], []⟩, []⟩
  overhead := ⟨0, 0⟩

end ArenaReport

/-- Ascending buckets, none empty, that add up to a count and to bytes without
    saturating. -/
structure AddUp (size_histogram : List SizeBucket) (count bytes : UInt64) : Prop where
  ascending : size_histogram.Pairwise fun a b => a.size < b.size
  positive : ∀ bucket ∈ size_histogram, 0 < bucket.count
  counts : (size_histogram.map fun bucket => bucket.count.toNat).sum = count.toNat
  products : (size_histogram.map fun bucket => bucket.size.toNat * bucket.count.toNat).sum = bytes.toNat
  bytes : ∀ bucket ∈ size_histogram, bucket.bytes.toNat = bucket.size.toNat * bucket.count.toNat

/-- The buckets of a tally whose bytes fit add up to it. -/
theorem buckets_of_tallies {t : SizeTally} {sizes : Multiset UInt64} (tallies : Tallies t sizes)
    (fits : payload sizes < 2 ^ 64) : AddUp (buckets t.histogram) t.count t.bytes := by
  have products : ((buckets t.histogram).map fun bucket => bucket.size.toNat * bucket.count.toNat).sum =
      payload sizes := by
    rw [buckets, List.map_map]
    exact tallies.buckets.sum_nonzero UInt64.toNat
  refine ⟨?_, ?_, ?_, ?_, ?_⟩
  · exact List.pairwise_map.mpr ((nonzero_ascending t.histogram).imp fun less => Std.compare_eq_lt.mp less)
  · intro bucket member
    obtain ⟨entry, inside, rfl⟩ := List.mem_map.mp member
    exact nonzero_positive t.histogram entry inside
  · have counts := tallies.buckets.sum_nonzero fun _ => 1
    simp only [one_mul, Multiset.map_const', Multiset.sum_replicate, smul_eq_mul, mul_one] at counts
    rw [tallies.count, ← counts, buckets, List.map_map]
    rfl
  · rw [products, tallies.bytes]
    omega
  · intro bucket member
    obtain ⟨entry, inside, rfl⟩ := List.mem_map.mp member
    have part : entry.1.toNat * entry.2.toNat ≤ payload sizes := by
      rw [← products]
      exact List.single_le_sum (by simp) _ (List.mem_map_of_mem member)
    rw [saturating_mul_toNat]
    exact min_eq_left (by omega)

end HeapAnalyser.Report
