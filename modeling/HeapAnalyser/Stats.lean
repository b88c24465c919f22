import HeapAnalyser.FreeList
import HeapAnalyser.Histogram
import HeapAnalyser.Walk

/-!
Folding chunk events and free-list results into the totals of an arena
(`heap/stats.rs`). A first pass counts each event as allocated or free
(`classify`), a second moves the chunks of the fastbins from allocated to free
by their nominal size (`move_fastbin`). A tally is read as a multiset of payload
sizes (`Tallies`): the first pass sums up the events (`classify_run`), and the
second takes what the fastbins hold from one multiset and gives it to the other
exactly when it reports nothing (`move_run_clean`). Then the two tallies share
out the events (`accumulate_conserves`).
-/
namespace HeapAnalyser.Stats
open Machine FreeList Histogram Walk

/-- A running count and byte total with a histogram from size to count. -/
structure SizeTally where
  count : UInt64
  bytes : UInt64
  histogram : Std.TreeMap UInt64 UInt64

instance : Inhabited SizeTally := ⟨0, 0, ∅⟩

namespace SizeTally

def add_n (t : SizeTally) (size n : UInt64) : SizeTally where
  count := saturating_add t.count n
  bytes := saturating_add t.bytes (saturating_mul size n)
  histogram := t.histogram.insert size (saturating_add (t.histogram.getD size 0) n)

def add (t : SizeTally) (size : UInt64) : SizeTally := t.add_n size 1

/-- Remove `n` chunks of `size`, and whether this would have gone negative. -/
def remove_n (t : SizeTally) (size n : UInt64) : SizeTally × Bool :=
  let bucket := t.histogram.getD size 0
  ({ count := saturating_sub t.count n
     bytes := saturating_sub t.bytes (saturating_mul size n)
     histogram := t.histogram.insert size (saturating_sub bucket n) },
   decide (t.count < n) || decide (bucket < n))

end SizeTally

structure BinTally where
  index : UInt32
  size : UInt64
  count : UInt64
  bytes : UInt64
  deriving Repr, DecidableEq

structure FreeStats where
  tally : SizeTally
  fastbins : List BinTally
  tcache_threads : Std.TreeSet Int32
  tcache_bins : List BinTally

structure ArenaStats where
  allocated : SizeTally
  free : FreeStats
  overhead_count : UInt64
  overhead_bytes : UInt64

/-- From user addresses to the thread and the bin that own them. -/
abbrev TcacheMembership := Std.TreeMap UInt64 (Int32 × UInt32)

/-- What the loop over the events keeps. -/
structure Classified where
  allocated : SizeTally
  free : SizeTally
  tcache_threads : Std.TreeSet Int32
  tcache_counts : Std.TreeMap UInt32 UInt64

/-- One event of the first loop of `accumulate`. -/
def classify (tcache_membership : TcacheMembership) (s : Classified) (ev : ChunkEvent) : Classified :=
  if ev.prev_inuse_says_in_use then
    match tcache_membership[ev.user_addr]? with
    | some (thread_id, bin_index) =>
      { s with
        free := s.free.add ev.user_size
        tcache_threads := s.tcache_threads.insert thread_id
        tcache_counts := s.tcache_counts.insert bin_index (saturating_add (s.tcache_counts.getD bin_index 0) 1) }
    | none => { s with allocated := s.allocated.add ev.user_size }
  else { s with free := s.free.add ev.user_size }

/-- What the loop over the fastbins keeps. -/
structure Moved where
  allocated : SizeTally
  free : SizeTally
  fastbins : List BinTally
  problems : List Problem

/-- One fastbin of the second loop of `accumulate`. -/
def move_fastbin (arena_index : UInt32) (s : Moved) (fb : FastbinBinResult) : Moved :=
  if fb.count = 0 then s
  else
    let removed := s.allocated.remove_n fb.size fb.count
    { allocated := removed.1
      free := s.free.add_n fb.size fb.count
      fastbins := s.fastbins ++ [⟨fb.index, fb.size, fb.count, saturating_mul fb.size fb.count⟩]
      problems :=
        if removed.2 then
          s.problems ++ [.StatsInconsistent arena_index fb.size "fastbin count exceeds allocated count for this size"]
        else s.problems }

/-- The tally of a tcache bin, by its nominal size. -/
def tcache_bin (layout : DetectedLayout) (entry : UInt32 × UInt64) : BinTally :=
  let size := tcache_index_to_size layout entry.1
  ⟨entry.1, size, entry.2, saturating_mul size entry.2⟩

/-- Fold the events and the fastbins of an arena into its statistics. -/
def accumulate (layout : DetectedLayout) (arena_index : UInt32) (events : List ChunkEvent)
    (tcache_membership : TcacheMembership) (fastbin_results : List FastbinBinResult) : ArenaStats × List Problem :=
  let classified := events.foldl (classify tcache_membership) ⟨default, default, ∅, ∅⟩
  let moved := fastbin_results.foldl (move_fastbin arena_index) ⟨classified.allocated, classified.free, [], []⟩
  let overhead_count := UInt64.ofNat events.length
  ({ allocated := moved.allocated
     free :=
       { tally := moved.free
         fastbins := moved.fastbins
         tcache_threads := classified.tcache_threads
         tcache_bins := classified.tcache_counts.toList.map (tcache_bin layout) }
     overhead_count := overhead_count
     overhead_bytes := saturating_mul overhead_count layout.header },
   moved.problems)

/-- The payload bytes of a multiset of sizes. -/
def payload (sizes : Multiset UInt64) : Nat := (sizes.map UInt64.toNat).sum

@[simp] theorem payload_add (a b : Multiset UInt64) : payload (a + b) = payload a + payload b := by
  simp [payload]

@[simp] theorem payload_replicate (n : Nat) (size : UInt64) :
    payload (Multiset.replicate n size) = n * size.toNat := by
  simp [payload]

/-- The tally is that of a multiset of payload sizes; the bytes stay at the
    largest word when they do not fit. -/
structure Tallies (t : SizeTally) (sizes : Multiset UInt64) : Prop where
  count : t.count.toNat = sizes.card
  bytes : t.bytes.toNat = min (payload sizes) (2 ^ 64 - 1)
  buckets : Counts t.histogram sizes

private theorem tallies_default : Tallies default 0 := ⟨rfl, rfl, counts_empty⟩

theorem Tallies.add_n {t : SizeTally} {sizes : Multiset UInt64} (tallies : Tallies t sizes) (size n : UInt64)
    (fits : sizes.card + n.toNat < 2 ^ 64) :
    Tallies (t.add_n size n) (sizes + Multiset.replicate n.toNat size) := by
  refine ⟨?_, ?_, ?_⟩
  · rw [SizeTally.add_n, saturating_add_toNat, tallies.count, Multiset.card_add, Multiset.card_replicate]
    omega
  · rw [SizeTally.add_n, saturating_add_toNat, saturating_mul_toNat, tallies.bytes, payload_add, payload_replicate,
      Nat.mul_comm size.toNat]
    omega
  · have := Multiset.count_le_card size sizes
    exact tallies.buckets.add size n (by omega)

theorem Tallies.add {t : SizeTally} {sizes : Multiset UInt64} (tallies : Tallies t sizes) (size : UInt64)
    (fits : sizes.card + 1 < 2 ^ 64) : Tallies (t.add size) (sizes + {size}) :=
  tallies.add_n size 1 fits

/-- A removal goes negative exactly when the total or the bucket is too small. -/
theorem remove_n_underflow {t : SizeTally} {size n : UInt64} :
    (t.remove_n size n).2 = true ↔ t.count.toNat < n.toNat ∨ (t.histogram.getD size 0).toNat < n.toNat := by
  simp [SizeTally.remove_n, UInt64.lt_iff_toNat_lt]

/-- Removing chunks that are there leaves the tally of the others. -/
theorem Tallies.remove_n {t : SizeTally} {sizes : Multiset UInt64} (tallies : Tallies t sizes) {size n : UInt64}
    (fits : payload sizes < 2 ^ 64) (there : Multiset.replicate n.toNat size ≤ sizes) :
    Tallies (t.remove_n size n).1 (sizes - Multiset.replicate n.toNat size) := by
  obtain ⟨others, rfl⟩ := Multiset.le_iff_exists_add.mp there
  rw [payload_add, payload_replicate] at fits
  have bytes := tallies.bytes
  rw [payload_add, payload_replicate] at bytes
  refine ⟨?_, ?_, tallies.buckets.remove size n⟩
  · rw [SizeTally.remove_n, saturating_sub_toNat, tallies.count, add_tsub_cancel_left, Multiset.card_add,
      Multiset.card_replicate]
    omega
  · rw [SizeTally.remove_n, saturating_sub_toNat, saturating_mul_toNat, bytes, add_tsub_cancel_left,
      Nat.mul_comm size.toNat]
    omega

/-! ## The first pass -/

/-- Who owns an event's chunk through a tcache bin, when it is in use. -/
def ownerOf (tcache_membership : TcacheMembership) (ev : ChunkEvent) : Option (Int32 × UInt32) :=
  if ev.prev_inuse_says_in_use then tcache_membership[ev.user_addr]? else none

/-- An event the first pass counts as allocated: in use and in no tcache bin. -/
def isAllocated (tcache_membership : TcacheMembership) (ev : ChunkEvent) : Bool :=
  ev.prev_inuse_says_in_use && (tcache_membership[ev.user_addr]?).isNone

/-- The payload sizes of events. -/
def sizesOf (events : List ChunkEvent) : Multiset UInt64 := events.map ChunkEvent.user_size

/-- The tcache owners met among the events, in order. -/
def ownersOf (tcache_membership : TcacheMembership) (events : List ChunkEvent) : List (Int32 × UInt32) :=
  events.filterMap (ownerOf tcache_membership)

@[simp] theorem sizesOf_append (a b : List ChunkEvent) : sizesOf (a ++ b) = sizesOf a + sizesOf b := by
  simp [sizesOf]

@[simp] theorem sizesOf_card (events : List ChunkEvent) : (sizesOf events).card = events.length := by
  simp [sizesOf]

theorem sizesOf_perm {a b : List ChunkEvent} (perm : a.Perm b) : sizesOf a = sizesOf b :=
  Multiset.coe_eq_coe.mpr (perm.map ChunkEvent.user_size)

theorem sizesOf_split (p : ChunkEvent → Bool) (events : List ChunkEvent) :
    sizesOf (events.filter p) + sizesOf (events.filter fun ev => !p ev) = sizesOf events := by
  rw [← sizesOf_append]
  exact sizesOf_perm (List.filter_append_perm p events)

theorem payload_sizesOf (chunks : List ChunkEvent) :
    payload (sizesOf chunks) = (chunks.map fun ev => ev.user_size.toNat).sum := by
  simp [payload, sizesOf, Function.comp_def]

/-- The threads and the bins of some tcache owners. -/
structure Parked (owners : List (Int32 × UInt32)) (threads : Std.TreeSet Int32)
    (counts : Std.TreeMap UInt32 UInt64) : Prop where
  threads : ∀ thread_id, thread_id ∈ threads ↔ ∃ owner ∈ owners, owner.1 = thread_id
  bins : Counts counts (owners.map Prod.snd : List UInt32)
  filled : ∀ entry ∈ counts.toList, 0 < entry.2

/-- What the first pass keeps after some events. -/
structure Classifies (tcache_membership : TcacheMembership) (events : List ChunkEvent) (s : Classified) : Prop where
  allocated : Tallies s.allocated (sizesOf (events.filter (isAllocated tcache_membership)))
  free : Tallies s.free (sizesOf (events.filter fun ev => !isAllocated tcache_membership ev))
  parked : Parked (ownersOf tcache_membership events) s.tcache_threads s.tcache_counts

/-- One owner more, of at most as many as a slice holds. -/
private theorem Parked.insert {owners : List (Int32 × UInt32)} {threads : Std.TreeSet Int32}
    {counts : Std.TreeMap UInt32 UInt64} (parked : Parked owners threads counts) (owner : Int32 × UInt32)
    (fits : owners.length + 1 < 2 ^ 64) :
    Parked (owners ++ [owner]) (threads.insert owner.1)
      (counts.insert owner.2 (saturating_add (counts.getD owner.2 0) 1)) := by
  have one : (1 : UInt64).toNat = 1 := rfl
  refine ⟨?_, ?_, ?_⟩
  · intro other
    rw [Std.TreeSet.mem_insert, Std.LawfulEqOrd.compare_eq_iff_eq, parked.threads other]
    constructor
    · rintro (same | ⟨early, member, same⟩)
      · exact ⟨owner, by simp, same⟩
      · exact ⟨early, by simp [member], same⟩
    · rintro ⟨found, member, same⟩
      rcases List.mem_append.mp member with early | last
      · exact .inr ⟨found, early, same⟩
      · exact .inl (by rw [← same, List.mem_singleton.mp last])
  · have few := Multiset.count_le_card owner.2 (owners.map Prod.snd : List UInt32)
    rw [Multiset.coe_card, List.length_map] at few
    rw [List.map_append, ← Multiset.coe_add]
    exact parked.bins.add owner.2 1 (by omega)
  · rintro ⟨index, n⟩ member
    rw [Std.TreeMap.mem_toList_iff_getElem?_eq_some, Std.TreeMap.getElem?_insert] at member
    by_cases same : compare owner.2 index = .eq
    · rw [if_pos same] at member
      obtain rfl := Option.some.inj member
      rw [UInt64.lt_iff_toNat_lt, saturating_add_toNat, one]
      show 0 < _
      omega
    · rw [if_neg same] at member
      exact parked.filled (index, n) (Std.TreeMap.mem_toList_iff_getElem?_eq_some.mpr member)

section
variable {tcache_membership : TcacheMembership}

/-- Where an event goes, by its owner and its class. -/
theorem classify_cases (tcache_membership : TcacheMembership) (s : Classified) (ev : ChunkEvent) :
    (isAllocated tcache_membership ev = true ∧ ownerOf tcache_membership ev = none ∧
      classify tcache_membership s ev = { s with allocated := s.allocated.add ev.user_size }) ∨
    (isAllocated tcache_membership ev = false ∧ ownerOf tcache_membership ev = none ∧
      classify tcache_membership s ev = { s with free := s.free.add ev.user_size }) ∨
    (isAllocated tcache_membership ev = false ∧ ∃ owner, ownerOf tcache_membership ev = some owner ∧
      classify tcache_membership s ev =
        { s with
          free := s.free.add ev.user_size
          tcache_threads := s.tcache_threads.insert owner.1
          tcache_counts := s.tcache_counts.insert owner.2 (saturating_add (s.tcache_counts.getD owner.2 0) 1) }) := by
  cases inUse : ev.prev_inuse_says_in_use with
  | false => exact .inr (.inl ⟨by simp [isAllocated, inUse], by simp [ownerOf, inUse], by simp [classify, inUse]⟩)
  | true =>
    cases found : tcache_membership[ev.user_addr]? with
    | none =>
      exact .inl ⟨by simp [isAllocated, inUse, found], by simp [ownerOf, inUse, found], by simp [classify, inUse, found]⟩
    | some owner =>
      exact .inr (.inr ⟨by simp [isAllocated, found], owner, by simp [ownerOf, inUse, found],
        by simp [classify, inUse, found]⟩)

private theorem classify_step {events : List ChunkEvent} {s : Classified} (ev : ChunkEvent)
    (fits : events.length + 1 < 2 ^ 64) (before : Classifies tcache_membership events s) :
    Classifies tcache_membership (events ++ [ev]) (classify tcache_membership s ev) := by
  have fewAllocated := List.length_filter_le (isAllocated tcache_membership) events
  have fewFree := List.length_filter_le (fun ev => !isAllocated tcache_membership ev) events
  have fewOwners := List.length_filterMap_le (ownerOf tcache_membership) events
  have freed (isFree : isAllocated tcache_membership ev = false) : Tallies (s.free.add ev.user_size)
      (sizesOf ((events ++ [ev]).filter fun ev => !isAllocated tcache_membership ev)) := by
    rw [List.filter_append, sizesOf_append]
    simpa [isFree, sizesOf] using before.free.add ev.user_size (by rw [sizesOf_card]; omega)
  have unowned (noOwner : ownerOf tcache_membership ev = none) :
      ownersOf tcache_membership (events ++ [ev]) = ownersOf tcache_membership events := by
    simp [ownersOf, noOwner]
  rcases classify_cases tcache_membership s ev with
    ⟨isUsed, noOwner, next⟩ | ⟨isFree, noOwner, next⟩ | ⟨isFree, owner, isOwner, next⟩
  · rw [next]
    refine ⟨?_, by simpa [isUsed] using before.free, by rw [unowned noOwner]; exact before.parked⟩
    rw [List.filter_append, sizesOf_append]
    simpa [isUsed, sizesOf] using before.allocated.add ev.user_size (by rw [sizesOf_card]; omega)
  · rw [next]
    exact ⟨by simpa [isFree] using before.allocated, freed isFree, by rw [unowned noOwner]; exact before.parked⟩
  · rw [next]
    refine ⟨by simpa [isFree] using before.allocated, freed isFree, ?_⟩
    have owned : ownersOf tcache_membership (events ++ [ev]) = ownersOf tcache_membership events ++ [owner] := by
      simp [ownersOf, isOwner]
    rw [owned]
    exact before.parked.insert owner (by rw [ownersOf]; omega)

/-- The first pass over any list of events a slice can hold. -/
theorem classify_run (tcache_membership : TcacheMembership) (events : List ChunkEvent) (fits : events.length < 2 ^ 64) :
    Classifies tcache_membership events
      (events.foldl (classify tcache_membership) ⟨default, default, ∅, ∅⟩) := by
  induction events using List.reverseRecOn with
  | nil => exact ⟨tallies_default, tallies_default, by simp [ownersOf], counts_empty, by simp⟩
  | append_singleton events ev ih =>
    rw [List.length_append, List.length_singleton] at fits
    rw [List.foldl_append]
    exact classify_step ev fits (ih (by omega))

end

/-- The totals after an event, by its class alone. -/
theorem classify_totals (tcache_membership : TcacheMembership) (s : Classified) (ev : ChunkEvent) :
    (classify tcache_membership s ev).allocated =
      (if isAllocated tcache_membership ev then s.allocated.add ev.user_size else s.allocated) ∧
    (classify tcache_membership s ev).free =
      (if isAllocated tcache_membership ev then s.free else s.free.add ev.user_size) := by
  rcases classify_cases tcache_membership s ev with ⟨used, _, next⟩ | ⟨unused, _, next⟩ | ⟨unused, _, _, next⟩
  · simp [next, used]
  · simp [next, unused]
  · simp [next, unused]

/-- Whether an address is in a tcache bin decides the totals; whose bin does not. -/
theorem classify_congr {a b : TcacheMembership}
    (same : ∀ addr : UInt64, (a[addr]?).isSome = (b[addr]?).isSome) (events : List ChunkEvent) {s t : Classified}
    (allocated : s.allocated = t.allocated) (free : s.free = t.free) :
    (events.foldl (classify a) s).allocated = (events.foldl (classify b) t).allocated ∧
    (events.foldl (classify a) s).free = (events.foldl (classify b) t).free := by
  induction events generalizing s t with
  | nil => exact ⟨allocated, free⟩
  | cons ev events ih =>
    have agree : isAllocated a ev = isAllocated b ev := by
      rw [isAllocated, isAllocated, ← Option.not_isSome, ← Option.not_isSome, same ev.user_addr]
    obtain ⟨allocatedA, freeA⟩ := classify_totals a s ev
    obtain ⟨allocatedB, freeB⟩ := classify_totals b t ev
    rw [List.foldl_cons, List.foldl_cons]
    exact ih (by rw [allocatedA, allocatedB, agree, allocated]) (by rw [freeA, freeB, agree, free])

/-! ## The second pass -/

/-- What fastbins hold, by their nominal sizes. -/
def held (bins : List FastbinBinResult) : Multiset UInt64 :=
  (bins.map fun fb => Multiset.replicate fb.count.toNat fb.size).sum

@[simp] theorem held_nil : held [] = 0 := rfl

theorem held_cons (fb : FastbinBinResult) (bins : List FastbinBinResult) :
    held (fb :: bins) = Multiset.replicate fb.count.toNat fb.size + held bins := by
  simp [held]

private theorem held_append (a b : List FastbinBinResult) : held (a ++ b) = held a + held b := by
  simp [held]

private theorem held_concat (bins : List FastbinBinResult) (fb : FastbinBinResult) :
    held (bins ++ [fb]) = held bins + Multiset.replicate fb.count.toNat fb.size := by
  simp [held]

/-- A fastbin that holds more than is left of its size, or of all sizes, once
    the bins in front of it are taken out. -/
def Overdrawn (sizes : Multiset UInt64) (front : List FastbinBinResult) (fb : FastbinBinResult) : Prop :=
  0 < fb.count.toNat ∧ (sizes.card < (held front).card + fb.count.toNat ∨
    sizes.count fb.size < (held front).count fb.size + fb.count.toNat)

/-- What is reported of an overdrawn fastbin. -/
def inconsistent (arena_index : UInt32) (fb : FastbinBinResult) : Problem :=
  .StatsInconsistent arena_index fb.size "fastbin count exceeds allocated count for this size"

/-- What is left of the allocated count and buckets after some fastbins, clamped at zero. -/
structure Drawn (sizes : Multiset UInt64) (bins : List FastbinBinResult) (t : SizeTally) : Prop where
  count : t.count.toNat = sizes.card - (held bins).card
  buckets : Counts t.histogram (sizes - held bins)

section
variable {arena_index : UInt32} {sizes free : Multiset UInt64} {bins : List FastbinBinResult} {s : Moved}

/-- One fastbin more: what it takes, and whether it is reported. -/
theorem move_fastbin_drawn (arena_index : UInt32) (drawn : Drawn sizes bins s.allocated) (fb : FastbinBinResult) :
    Drawn sizes (bins ++ [fb]) (move_fastbin arena_index s fb).allocated ∧
    ∀ problem, problem ∈ (move_fastbin arena_index s fb).problems ↔
      problem ∈ s.problems ∨ Overdrawn sizes bins fb ∧ problem = inconsistent arena_index fb := by
  by_cases none : fb.count = 0
  · have zero : fb.count.toNat = 0 := by rw [none]; rfl
    simp only [move_fastbin, none, if_true]
    refine ⟨⟨?_, ?_⟩, ?_⟩
    · simpa [held_concat, zero] using drawn.count
    · simpa [held_concat, zero] using drawn.buckets
    · intro problem
      simp [Overdrawn, zero]
  have some : 0 < fb.count.toNat :=
    Nat.pos_of_ne_zero fun zero => none (UInt64.toNat_inj.mp zero)
  have bucket := drawn.buckets fb.size
  rw [Multiset.count_sub] at bucket
  have verdict : (s.allocated.remove_n fb.size fb.count).2 = true ↔ Overdrawn sizes bins fb := by
    rw [remove_n_underflow, drawn.count, bucket, Overdrawn]
    omega
  simp only [move_fastbin, none, if_false]
  refine ⟨⟨?_, ?_⟩, ?_⟩
  · rw [SizeTally.remove_n, saturating_sub_toNat, drawn.count, held_concat, Multiset.card_add,
      Multiset.card_replicate, Nat.sub_sub]
  · have := drawn.buckets.remove fb.size fb.count
    rwa [tsub_tsub, ← held_concat] at this
  · intro problem
    by_cases overdrawn : Overdrawn sizes bins fb
    · rw [if_pos (verdict.mpr overdrawn), List.mem_append, List.mem_singleton]
      exact or_congr_right ⟨fun same => ⟨overdrawn, same⟩, fun both => both.2⟩
    · rw [if_neg (fun reported => overdrawn (verdict.mp reported))]
      exact ⟨.inl, fun either => either.resolve_right fun both => overdrawn both.1⟩

theorem move_run (arena_index : UInt32) {allocated : SizeTally} (free : SizeTally)
    (tallies : Tallies allocated sizes) (bins : List FastbinBinResult) :
    Drawn sizes bins (bins.foldl (move_fastbin arena_index) ⟨allocated, free, [], []⟩).allocated ∧
    ∀ problem, problem ∈ (bins.foldl (move_fastbin arena_index) ⟨allocated, free, [], []⟩).problems ↔
      ∃ front fb, front ++ [fb] <+: bins ∧ Overdrawn sizes front fb ∧ problem = inconsistent arena_index fb := by
  induction bins using List.reverseRecOn with
  | nil =>
    refine ⟨⟨by simp [tallies.count], by simpa using tallies.buckets⟩, ?_⟩
    intro problem
    simp
  | append_singleton bins last ih =>
    obtain ⟨drawn, reported⟩ := ih
    rw [List.foldl_append]
    obtain ⟨after, more⟩ := move_fastbin_drawn arena_index drawn last
    refine ⟨after, ?_⟩
    intro problem
    rw [List.foldl_cons, List.foldl_nil, more problem, reported problem]
    constructor
    · rintro (⟨front, fb, inside, why⟩ | why)
      · exact ⟨front, fb, inside.trans (List.prefix_append bins [last]), why⟩
      · exact ⟨bins, last, List.prefix_rfl, why⟩
    · rintro ⟨front, fb, inside, why⟩
      rcases List.prefix_concat_iff.mp inside with whole | inside
      · obtain ⟨rfl, same⟩ := List.append_inj' whole rfl
        obtain rfl : fb = last := by simpa using same
        exact .inr why
      · exact .inl ⟨front, fb, inside, why⟩

/-- Nothing is reported exactly when the allocated sizes hold all that the fastbins do. -/
theorem held_le_iff : held bins ≤ sizes ↔ ∀ front fb, front ++ [fb] <+: bins → ¬ Overdrawn sizes front fb := by
  constructor
  · rintro fits front fb ⟨back, rfl⟩ ⟨positive, short⟩
    have part : held (front ++ [fb]) ≤ sizes := by
      refine le_trans ?_ fits
      rw [held_append (front ++ [fb]) back]
      exact Multiset.le_add_right _ _
    rw [held_concat] at part
    have cards := Multiset.card_le_card part
    have counts := Multiset.count_le_of_le fb.size part
    rw [Multiset.card_add, Multiset.card_replicate] at cards
    rw [Multiset.count_add, Multiset.count_replicate_self] at counts
    omega
  · intro quiet
    induction bins using List.reverseRecOn with
    | nil => simp
    | append_singleton bins last ih =>
      have early := ih fun front fb inside => quiet front fb (inside.trans (List.prefix_append bins [last]))
      have fine := quiet bins last List.prefix_rfl
      rw [held_concat]
      apply Multiset.le_iff_count.mpr
      intro size
      have below := Multiset.count_le_of_le size early
      rw [Multiset.count_add, Multiset.count_replicate]
      by_cases same : last.size = size
      · subst same
        simp only [Overdrawn, not_and, not_or] at fine
        rw [if_pos rfl]
        omega
      · rw [if_neg same]
        omega

/-- What the second pass leaves when the allocated sizes hold all that the fastbins do. -/
structure Moves (sizes free : Multiset UInt64) (bins : List FastbinBinResult) (s : Moved) : Prop where
  allocated : Tallies s.allocated (sizes - held bins)
  free : Tallies s.free (free + held bins)
  problems : s.problems = []

private theorem move_fastbin_moves (arena_index : UInt32) (fb : FastbinBinResult) (moves : Moves sizes free bins s)
    (fits : payload sizes < 2 ^ 64) (room : sizes.card + free.card < 2 ^ 64) (there : held (bins ++ [fb]) ≤ sizes) :
    Moves sizes free (bins ++ [fb]) (move_fastbin arena_index s fb) := by
  by_cases none : fb.count = 0
  · have zero : fb.count.toNat = 0 := by rw [none]; rfl
    have same : held (bins ++ [fb]) = held bins := by simp [held_concat, zero]
    simp only [move_fastbin, none, if_true]
    exact ⟨same ▸ moves.allocated, same ▸ moves.free, moves.problems⟩
  have cards := Multiset.card_le_card there
  rw [held_concat] at there
  rw [held_concat, Multiset.card_add, Multiset.card_replicate] at cards
  have left : Multiset.replicate fb.count.toNat fb.size ≤ sizes - held bins := by
    rw [le_tsub_iff_left (le_trans (Multiset.le_add_right _ _) there)]
    exact there
  have small : payload (sizes - held bins) < 2 ^ 64 := by
    have whole := payload_add (sizes - held bins) (held bins)
    rw [tsub_add_cancel_of_le (le_trans (Multiset.le_add_right _ _) there)] at whole
    omega
  have fine : (s.allocated.remove_n fb.size fb.count).2 = false := by
    apply Bool.eq_false_iff.mpr
    intro underflow
    have fewer := Multiset.card_le_card left
    have within := Multiset.count_le_of_le fb.size left
    rw [Multiset.card_replicate, ← moves.allocated.count] at fewer
    rw [Multiset.count_replicate_self, ← moves.allocated.buckets fb.size] at within
    rcases remove_n_underflow.mp underflow with total | bucket
    · omega
    · omega
  simp only [move_fastbin, none, if_false, fine, Bool.false_eq_true]
  refine ⟨?_, ?_, moves.problems⟩
  · rw [held_concat, ← tsub_tsub]
    exact moves.allocated.remove_n small left
  · rw [held_concat, ← add_assoc]
    exact moves.free.add_n fb.size fb.count (by rw [Multiset.card_add]; omega)

/-- Fastbins whose chunks are all there move them, and report nothing. -/
theorem move_run_clean (arena_index : UInt32) {a f : SizeTally} (allocated : Tallies a sizes) (freed : Tallies f free)
    (fits : payload sizes < 2 ^ 64) (room : sizes.card + free.card < 2 ^ 64) (there : held bins ≤ sizes) :
    Moves sizes free bins (bins.foldl (move_fastbin arena_index) ⟨a, f, [], []⟩) := by
  induction bins using List.reverseRecOn with
  | nil => exact ⟨by simpa using allocated, by simpa using freed, rfl⟩
  | append_singleton bins last ih =>
    rw [List.foldl_append]
    refine move_fastbin_moves arena_index last (ih ?_) fits room there
    rw [held_concat] at there
    exact le_trans (Multiset.le_add_right _ _) there

end

/-- Where `accumulate` reports nothing, the fastbins hold chunks that the first pass saw allocated. -/
theorem accumulate_moves (layout : DetectedLayout) (arena_index : UInt32) {events : List ChunkEvent}
    (tcache_membership : TcacheMembership) (bins : List FastbinBinResult) (length : events.length < 2 ^ 64)
    (fits : payload (sizesOf events) < 2 ^ 64)
    (clean : (accumulate layout arena_index events tcache_membership bins).2 = []) :
    let classified := events.foldl (classify tcache_membership) ⟨default, default, ∅, ∅⟩
    held bins ≤ sizesOf (events.filter (isAllocated tcache_membership)) ∧
      Moves (sizesOf (events.filter (isAllocated tcache_membership)))
        (sizesOf (events.filter fun ev => !isAllocated tcache_membership ev)) bins
        (bins.foldl (move_fastbin arena_index) ⟨classified.allocated, classified.free, [], []⟩) := by
  have classified := classify_run tcache_membership events length
  have whole := sizesOf_split (isAllocated tcache_membership) events
  have payloads := congrArg payload whole
  have cards := congrArg Multiset.card whole
  rw [payload_add] at payloads
  rw [Multiset.card_add, sizesOf_card events] at cards
  have there := held_le_iff.mpr fun front fb inside overdrawn => by
    have reported := ((move_run arena_index
      (events.foldl (classify tcache_membership) ⟨default, default, ∅, ∅⟩).free classified.allocated bins).2
        (inconsistent arena_index fb)).mpr ⟨front, fb, inside, overdrawn, rfl⟩
    have none : inconsistent arena_index fb ∈ ([] : List Problem) := clean ▸ reported
    simp at none
  exact ⟨there, move_run_clean arena_index classified.allocated classified.free (by omega) (by omega) there⟩

/-- Where `accumulate` reports nothing, its two tallies share out the events. -/
theorem accumulate_conserves (layout : DetectedLayout) (arena_index : UInt32) {events : List ChunkEvent}
    (tcache_membership : TcacheMembership) (bins : List FastbinBinResult) (length : events.length < 2 ^ 64)
    (fits : payload (sizesOf events) < 2 ^ 64)
    (clean : (accumulate layout arena_index events tcache_membership bins).2 = []) :
    ∃ allocated free, allocated + free = sizesOf events ∧
      Tallies (accumulate layout arena_index events tcache_membership bins).1.allocated allocated ∧
      Tallies (accumulate layout arena_index events tcache_membership bins).1.free.tally free := by
  obtain ⟨there, moves⟩ := accumulate_moves layout arena_index tcache_membership bins length fits clean
  refine ⟨_, _, ?_, moves.allocated, moves.free⟩
  rw [add_comm _ (held bins), ← add_assoc, tsub_add_cancel_of_le there]
  exact sizesOf_split (isAllocated tcache_membership) events

end HeapAnalyser.Stats
