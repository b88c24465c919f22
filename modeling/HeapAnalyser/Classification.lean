import HeapAnalyser.Stats

/-!
The totals of an arena chunk by chunk. `accumulate` never looks at which chunks
a fastbin holds; still, when the fastbins hold chunks of the arena, each of its
bin's size, the totals are those of a classification of the single chunks
(`accumulate_refines`). When the counts do not fit, the report of a bin is
decided by what the bins in front of it have left of all sizes together, so
that it is about the bin's own size exactly while these stay within the total
(`stats_inconsistent_exact_iff`).
-/
namespace HeapAnalyser.Classification
open Machine FreeList Histogram Walk Stats

/-- The tally counts exactly these chunks. -/
structure TalliesChunks (t : SizeTally) (chunks : List ChunkEvent) : Prop where
  count : t.count.toNat = chunks.length
  bytes : t.bytes.toNat = (chunks.map fun ev => ev.user_size.toNat).sum
  buckets : ∀ size n, (size, n) ∈ nonzero t.histogram ↔
    0 < n.toNat ∧ n.toNat = chunks.countP fun ev => ev.user_size = size

/-- Fastbins with the chunks each holds: chunks of the arena that are in use, in
    no tcache bin, of the bin's size, and in no other fastbin. -/
structure Assignment (tcache_membership : TcacheMembership) (events : List ChunkEvent)
    (bins : List (FastbinBinResult × List ChunkEvent)) : Prop where
  members : ∀ bin ∈ bins, ∀ ev ∈ bin.2, ev ∈ events ∧ ev.prev_inuse_says_in_use = true ∧
    tcache_membership[ev.user_addr]? = none ∧ ev.user_size = bin.1.size
  counted : ∀ bin ∈ bins, bin.1.count.toNat = bin.2.length
  distinct : (bins.flatMap Prod.snd).Nodup

/-- A chunk the program holds: in use, in no tcache bin and in no fastbin. -/
def staysAllocated (tcache_membership : TcacheMembership) (fastbinned : List ChunkEvent) (ev : ChunkEvent) : Bool :=
  isAllocated tcache_membership ev && decide (ev ∉ fastbinned)

/-- The statistics are those of the single chunks, and nothing is reported. -/
structure Refines (tcache_membership : TcacheMembership) (events fastbinned : List ChunkEvent)
    (run : ArenaStats × List Problem) : Prop where
  problems : run.2 = []
  allocated : TalliesChunks run.1.allocated (events.filter (staysAllocated tcache_membership fastbinned))
  free : TalliesChunks run.1.free.tally (events.filter fun ev => !staysAllocated tcache_membership fastbinned ev)
  tcache_threads : ∀ thread_id, thread_id ∈ run.1.free.tcache_threads ↔
    ∃ ev ∈ events, ∃ bin_index, ownerOf tcache_membership ev = some (thread_id, bin_index)
  tcache_bins : ∀ index n, (index, n) ∈ run.1.free.tcache_bins.map (fun bin => (bin.index, bin.count)) ↔
    0 < n.toNat ∧ n.toNat = events.countP fun ev => (ownerOf tcache_membership ev).map Prod.snd = some index
  tcache_ascending : run.1.free.tcache_bins.Pairwise fun a b => a.index < b.index

private theorem count_sizesOf (size : UInt64) (chunks : List ChunkEvent) :
    (sizesOf chunks).count size = chunks.countP fun ev => ev.user_size = size := by
  rw [sizesOf, Multiset.coe_count, List.count_eq_countP, List.countP_map]
  refine List.countP_congr fun ev _ => ?_
  simp

theorem talliesChunks_of {t : SizeTally} {chunks : List ChunkEvent} (tallies : Tallies t (sizesOf chunks))
    (fits : payload (sizesOf chunks) < 2 ^ 64) : TalliesChunks t chunks := by
  refine ⟨by rw [tallies.count, sizesOf_card], ?_, fun size n => ?_⟩
  · rw [tallies.bytes, ← payload_sizesOf]
    omega
  · rw [tallies.buckets.mem_nonzero, count_sizesOf]

section
variable {tcache_membership : TcacheMembership} {events : List ChunkEvent}
  {bins : List (FastbinBinResult × List ChunkEvent)}

private theorem held_eq (assigned : Assignment tcache_membership events bins) :
    held (bins.map Prod.fst) = sizesOf (bins.flatMap Prod.snd) := by
  have each (bin : FastbinBinResult × List ChunkEvent) (member : bin ∈ bins) :
      Multiset.replicate bin.1.count.toNat bin.1.size = sizesOf bin.2 := by
    rw [assigned.counted bin member]
    refine (Multiset.eq_replicate.mpr ⟨sizesOf_card bin.2, fun size inside => ?_⟩).symm
    obtain ⟨ev, evMember, rfl⟩ := List.mem_map.mp (Multiset.mem_coe.mp inside)
    exact (assigned.members bin member ev evMember).2.2.2
  clear assigned
  induction bins with
  | nil => rfl
  | cons bin bins ih =>
    rw [List.map_cons, held_cons, List.flatMap_cons, sizesOf_append,
      ih fun later member => each later (by simp [member]), each bin (by simp)]

private theorem allocated_split (addresses : (events.map ChunkEvent.user_addr).Nodup)
    (assigned : Assignment tcache_membership events bins) :
    held (bins.map Prod.fst) + sizesOf (events.filter (staysAllocated tcache_membership (bins.flatMap Prod.snd))) =
      sizesOf (events.filter (isAllocated tcache_membership)) := by
  rw [held_eq assigned]
  have inFastbin : (events.filter (isAllocated tcache_membership)).filter (· ∈ bins.flatMap Prod.snd) |>.Perm
      (bins.flatMap Prod.snd) := by
    rw [List.perm_ext_iff_of_nodup ((addresses.of_map.filter _).filter _) assigned.distinct]
    intro ev
    simp only [List.mem_filter, decide_eq_true_eq]
    refine ⟨And.right, fun member => ⟨?_, member⟩⟩
    obtain ⟨bin, binMember, evMember⟩ := List.mem_flatMap.mp member
    obtain ⟨inEvents, inUse, unowned, _⟩ := assigned.members bin binMember ev evMember
    exact ⟨inEvents, by simp [isAllocated, inUse, unowned]⟩
  have outside : events.filter (staysAllocated tcache_membership (bins.flatMap Prod.snd)) =
      (events.filter (isAllocated tcache_membership)).filter fun ev => !decide (ev ∈ bins.flatMap Prod.snd) := by
    rw [List.filter_filter]
    apply List.filter_congr
    intro ev _
    simp [staysAllocated, Bool.and_comm]
  rw [← sizesOf_perm inFastbin, outside]
  exact sizesOf_split _ _

/-- The free chunks are those the first pass saw free and those in the fastbins. -/
private theorem free_split (addresses : (events.map ChunkEvent.user_addr).Nodup)
    (assigned : Assignment tcache_membership events bins) :
    sizesOf (events.filter fun ev => !isAllocated tcache_membership ev) + held (bins.map Prod.fst) =
      sizesOf (events.filter fun ev => !staysAllocated tcache_membership (bins.flatMap Prod.snd) ev) := by
  have whole := sizesOf_split (isAllocated tcache_membership) events
  rw [← sizesOf_split (staysAllocated tcache_membership (bins.flatMap Prod.snd)) events,
    ← allocated_split addresses assigned, add_comm (held _), add_assoc] at whole
  rw [add_comm]
  exact add_left_cancel whole

theorem tcache_bins_exact (layout : DetectedLayout) {threads : Std.TreeSet Int32}
    {counts : Std.TreeMap UInt32 UInt64} (parked : Parked (ownersOf tcache_membership events) threads counts)
    (index : UInt32) (n : UInt64) :
    (index, n) ∈ (counts.toList.map (tcache_bin layout)).map (fun bin => (bin.index, bin.count)) ↔
      0 < n.toNat ∧ n.toNat = events.countP fun ev => (ownerOf tcache_membership ev).map Prod.snd = some index := by
  have same : (counts.toList.map (tcache_bin layout)).map (fun bin => (bin.index, bin.count)) = nonzero counts := by
    rw [nonzero, List.filter_eq_self.mpr fun entry member => decide_eq_true (parked.filled entry member), List.map_map]
    exact List.map_id _
  have owners : ((ownersOf tcache_membership events).map Prod.snd).count index =
      events.countP fun ev => (ownerOf tcache_membership ev).map Prod.snd = some index := by
    rw [ownersOf, List.map_filterMap, List.count_filterMap]
    apply List.countP_congr
    intro ev _
    simp
  rw [same, parked.bins.mem_nonzero, Multiset.coe_count, owners]

/-- The tallies of an arena whose fastbins hold chunks of their size, by the
    chunks, with what the tcaches own. -/
structure Sorts (layout : DetectedLayout) (tcache_membership : TcacheMembership) (events : List ChunkEvent)
    (bins : List (FastbinBinResult × List ChunkEvent)) (run : ArenaStats × List Problem) : Prop where
  problems : run.2 = []
  allocated : Tallies run.1.allocated
    (sizesOf (events.filter (staysAllocated tcache_membership (bins.flatMap Prod.snd))))
  free : Tallies run.1.free.tally
    (sizesOf (events.filter fun ev => !staysAllocated tcache_membership (bins.flatMap Prod.snd) ev))
  fastbins : run.1.free.fastbins = ((bins.map Prod.fst).filter fun fb => fb.count ≠ 0).map fun fb =>
    ⟨fb.index, fb.size, fb.count, saturating_mul fb.size fb.count⟩
  parked : ∃ counts, Parked (ownersOf tcache_membership events) run.1.free.tcache_threads counts ∧
    run.1.free.tcache_bins = counts.toList.map (tcache_bin layout)
  overhead_count : run.1.overhead_count = UInt64.ofNat events.length
  overhead_bytes : run.1.overhead_bytes = saturating_mul (UInt64.ofNat events.length) layout.header

/-- The fastbins of the report are those that are not empty. -/
theorem move_run_fastbins (arena_index : UInt32) (bins : List FastbinBinResult) (s : Moved) :
    (bins.foldl (move_fastbin arena_index) s).fastbins = s.fastbins ++
      (bins.filter fun fb => fb.count ≠ 0).map fun fb => ⟨fb.index, fb.size, fb.count, saturating_mul fb.size fb.count⟩ := by
  induction bins generalizing s with
  | nil => simp
  | cons fb rest ih =>
    rw [List.foldl_cons, ih]
    by_cases none : fb.count = 0
    · simp [move_fastbin, none]
    · simp [move_fastbin, none]

theorem accumulate_sorts (layout : DetectedLayout) (arena_index : UInt32) {events : List ChunkEvent}
    (length : events.length < 2 ^ 64) {tcache_membership : TcacheMembership}
    {bins : List (FastbinBinResult × List ChunkEvent)} (addresses : (events.map ChunkEvent.user_addr).Nodup)
    (assigned : Assignment tcache_membership events bins) (fits : payload (sizesOf events) < 2 ^ 64) :
    Sorts layout tcache_membership events bins
      (accumulate layout arena_index events tcache_membership (bins.map Prod.fst)) := by
  have classified := classify_run tcache_membership events length
  have split := allocated_split addresses assigned
  have whole := sizesOf_split (isAllocated tcache_membership) events
  have payloads := congrArg payload whole
  have cards := congrArg Multiset.card whole
  rw [payload_add] at payloads
  rw [Multiset.card_add, sizesOf_card events] at cards
  have moves := move_run_clean arena_index classified.allocated classified.free (by omega) (by omega)
    (split ▸ Multiset.le_add_right _ _)
  have allocated := moves.allocated
  have free := moves.free
  rw [← split, add_tsub_cancel_left] at allocated
  rw [free_split addresses assigned] at free
  exact ⟨moves.problems, allocated, free, move_run_fastbins arena_index _ _, ⟨_, classified.parked, rfl⟩, rfl, rfl⟩

end

/-- With every fastbin holding chunks of its size, the totals are those of a
    classification chunk by chunk, and nothing is reported. -/
theorem accumulate_refines (layout : DetectedLayout) (arena_index : UInt32) (events : Slice ChunkEvent)
    (tcache_membership : TcacheMembership) (bins : List (FastbinBinResult × List ChunkEvent))
    (addresses : (events.val.map ChunkEvent.user_addr).Nodup)
    (assigned : Assignment tcache_membership events.val bins)
    (fits : (events.val.map fun ev => ev.user_size.toNat).sum < 2 ^ 64) :
    Refines tcache_membership events.val (bins.flatMap Prod.snd)
      (accumulate layout arena_index events.val tcache_membership (bins.map Prod.fst)) := by
  rw [← payload_sizesOf] at fits
  have sorts := accumulate_sorts layout arena_index events.length_lt addresses assigned fits
  obtain ⟨counts, parked, isBins⟩ := sorts.parked
  have parts := congrArg payload
    (sizesOf_split (staysAllocated tcache_membership (bins.flatMap Prod.snd)) events.val)
  rw [payload_add] at parts
  refine ⟨sorts.problems, talliesChunks_of sorts.allocated (by omega), talliesChunks_of sorts.free (by omega), ?_, ?_, ?_⟩
  · intro thread_id
    refine (parked.threads thread_id).trans ⟨?_, ?_⟩
    · rintro ⟨⟨_, bin_index⟩, member, rfl⟩
      obtain ⟨ev, inEvents, isOwner⟩ := List.mem_filterMap.mp member
      exact ⟨ev, inEvents, bin_index, isOwner⟩
    · rintro ⟨ev, inEvents, bin_index, isOwner⟩
      exact ⟨_, List.mem_filterMap.mpr ⟨ev, inEvents, isOwner⟩, rfl⟩
  · intro index n
    rw [isBins]
    exact tcache_bins_exact layout parked index n
  · rw [isBins]
    apply List.pairwise_map.mpr
    apply Std.TreeMap.ordered_keys_toList.imp
    intro a b less
    exact Std.compare_eq_lt.mp less

/-- An event of the source's tests: a user address, a payload size and the flag. -/
def event (user_addr user_size : UInt64) (in_use : Bool) : ChunkEvent :=
  ⟨user_addr - 8, user_addr, user_size, user_size + 8, in_use⟩

/-- Two allocated chunks, one that is in a tcache bin, and one free chunk. -/
def four_chunks : Slice ChunkEvent where
  val := [event 0x100 24 true, event 0x200 24 true, event 0x300 40 false, event 0x400 24 true]
  length_lt := by decide

def one_tcached : TcacheMembership := (∅ : TcacheMembership).insert 0x200 (7, 0)

theorem accumulate_refines_four_chunks :
    Refines one_tcached four_chunks.val [event 0x400 24 true]
      (accumulate (test_layout 8) 0 four_chunks.val one_tcached [⟨0, 24, 1⟩]) := by
  refine accumulate_refines (test_layout 8) 0 four_chunks one_tcached [(⟨0, 24, 1⟩, [event 0x400 24 true])]
    (by decide) ⟨?_, ?_, by decide⟩ (by decide)
  · intro bin member ev inside
    obtain rfl := List.mem_singleton.mp member
    obtain rfl := List.mem_singleton.mp inside
    decide
  · intro bin member
    obtain rfl := List.mem_singleton.mp member
    rfl

/-! ## The diagnostic -/

/-- The events of a size that are in use and in no tcache bin. -/
def allocatedOf (tcache_membership : TcacheMembership) (events : List ChunkEvent) (size : UInt64) : Nat :=
  events.countP fun ev => isAllocated tcache_membership ev && decide (ev.user_size = size)

/-- A problem about a size is among the problems. -/
def Reported (arena_index : UInt32) (problems : List Problem) (size : UInt64) : Prop :=
  ∃ reason, .StatsInconsistent arena_index size reason ∈ problems

private theorem count_allocated (tcache_membership : TcacheMembership) (events : List ChunkEvent) (size : UInt64) :
    (sizesOf (events.filter (isAllocated tcache_membership))).count size =
      allocatedOf tcache_membership events size := by
  rw [count_sizesOf, List.countP_filter]
  apply List.countP_congr
  intro ev _
  simp [and_comm]

private theorem card_held (bins : List FastbinBinResult) :
    (held bins).card = (bins.map fun fb => fb.count.toNat).sum := by
  induction bins with
  | nil => rfl
  | cons fb bins ih => rw [held_cons, Multiset.card_add, Multiset.card_replicate, ih, List.map_cons, List.sum_cons]

private theorem count_held_of_fresh {bins : List FastbinBinResult} {size : UInt64}
    (fresh : ∀ fb ∈ bins, fb.size ≠ size) : (held bins).count size = 0 := by
  induction bins with
  | nil => rfl
  | cons fb bins ih =>
    rw [held_cons, Multiset.count_add, ih fun other member => fresh other (by simp [member]),
      Multiset.count_replicate, if_neg (fresh fb (by simp))]

/-- What `accumulate` reports, on any input: the bins that are overdrawn once
    the bins in front of them are taken out. -/
theorem stats_inconsistent_iff (layout : DetectedLayout) (arena_index : UInt32) (events : Slice ChunkEvent)
    (tcache_membership : TcacheMembership) (bins : List FastbinBinResult) (size : UInt64) :
    Reported arena_index (accumulate layout arena_index events.val tcache_membership bins).2 size ↔
      ∃ front fb back, bins = front ++ fb :: back ∧ fb.size = size ∧
        Overdrawn (sizesOf (events.val.filter (isAllocated tcache_membership))) front fb := by
  have classified := classify_run tcache_membership events.val events.length_lt
  have reported := (move_run arena_index
    (events.val.foldl (classify tcache_membership) ⟨default, default, ∅, ∅⟩).free classified.allocated bins).2
  constructor
  · rintro ⟨reason, member⟩
    obtain ⟨front, fb, ⟨back, whole⟩, overdrawn, same⟩ := (reported _).mp member
    refine ⟨front, fb, back, by simpa using whole.symm, ?_, overdrawn⟩
    simp only [inconsistent, Problem.StatsInconsistent.injEq] at same
    exact same.2.1.symm
  · rintro ⟨front, fb, back, whole, rfl, overdrawn⟩
    exact ⟨_, (reported _).mpr ⟨front, fb, ⟨back, by simp [whole]⟩, overdrawn, rfl⟩⟩

/-- With distinct sizes, a bin is overdrawn by its own bucket or by the running total. -/
private theorem overdrawn_iff (tcache_membership : TcacheMembership) (events : List ChunkEvent)
    {front back : List FastbinBinResult} {fb : FastbinBinResult}
    (distinct : ((front ++ fb :: back).map FastbinBinResult.size).Nodup) :
    Overdrawn (sizesOf (events.filter (isAllocated tcache_membership))) front fb ↔
      0 < fb.count.toNat ∧ (events.countP (isAllocated tcache_membership) <
          (front.map fun fb => fb.count.toNat).sum + fb.count.toNat ∨
        allocatedOf tcache_membership events fb.size < fb.count.toNat) := by
  have fresh : ∀ other ∈ front, other.size ≠ fb.size := by
    intro other member same
    rw [List.map_append, List.nodup_append] at distinct
    exact distinct.2.2 other.size (List.mem_map_of_mem member) fb.size (by simp) same
  rw [Overdrawn, sizesOf_card, ← List.countP_eq_length_filter, card_held, count_allocated, count_held_of_fresh fresh,
    Nat.zero_add]

/-- The reports are exact, each about the overdrawn size itself, exactly when no
    bin that its own size covers is more, with the bins in front of it, than
    all that is allocated. -/
theorem stats_inconsistent_exact_iff (layout : DetectedLayout) (arena_index : UInt32) (events : Slice ChunkEvent)
    (tcache_membership : TcacheMembership) (bins : List FastbinBinResult)
    (distinct : (bins.map FastbinBinResult.size).Nodup) :
    (∀ size, Reported arena_index (accumulate layout arena_index events.val tcache_membership bins).2 size ↔
      ∃ fb ∈ bins, fb.size = size ∧ allocatedOf tcache_membership events.val size < fb.count.toNat) ↔
    ∀ front fb back, bins = front ++ fb :: back → 0 < fb.count.toNat →
      fb.count.toNat ≤ allocatedOf tcache_membership events.val fb.size →
      (front.map fun fb => fb.count.toNat).sum + fb.count.toNat ≤
        events.val.countP (isAllocated tcache_membership) := by
  constructor
  · rintro exact_ front fb back rfl positive covered
    by_contra beyond
    have overdrawn := (overdrawn_iff tcache_membership events.val distinct).mpr ⟨positive, .inl (by omega)⟩
    obtain ⟨other, member, same, short⟩ := (exact_ fb.size).mp
      ((stats_inconsistent_iff layout arena_index events tcache_membership _ fb.size).mpr
        ⟨front, fb, back, rfl, rfl, overdrawn⟩)
    obtain rfl : other = fb := List.inj_on_of_nodup_map distinct member (by simp) same
    omega
  · intro within size
    rw [stats_inconsistent_iff]
    constructor
    · rintro ⟨front, fb, back, rfl, rfl, overdrawn⟩
      obtain ⟨positive, short⟩ := (overdrawn_iff tcache_membership events.val distinct).mp overdrawn
      refine ⟨fb, by simp, rfl, ?_⟩
      by_contra covered
      have := within front fb back rfl positive (by omega)
      omega
    · rintro ⟨fb, member, rfl, short⟩
      obtain ⟨front, back, rfl⟩ := List.append_of_mem member
      exact ⟨front, fb, back, rfl, rfl, (overdrawn_iff tcache_membership events.val distinct).mpr ⟨by omega, .inr short⟩⟩

/-- Two allocated chunks of different sizes. -/
def two_sizes : Slice ChunkEvent where
  val := [event 0x100 24 true, event 0x200 40 true]
  length_lt := by decide

theorem stats_inconsistent_exact_two_sizes :
    (∀ size, Reported 1 (accumulate (test_layout 8) 1 two_sizes.val ∅ [⟨1, 40, 1⟩, ⟨0, 24, 2⟩]).2 size ↔
      ∃ fb ∈ ([⟨1, 40, 1⟩, ⟨0, 24, 2⟩] : List FastbinBinResult),
        fb.size = size ∧ allocatedOf ∅ two_sizes.val size < fb.count.toNat) ↔
    ∀ front fb back, ([⟨1, 40, 1⟩, ⟨0, 24, 2⟩] : List FastbinBinResult) = front ++ fb :: back → 0 < fb.count.toNat →
      fb.count.toNat ≤ allocatedOf ∅ two_sizes.val fb.size →
      (front.map fun fb => fb.count.toNat).sum + fb.count.toNat ≤ two_sizes.val.countP (isAllocated ∅) :=
  stats_inconsistent_exact_iff (test_layout 8) 1 two_sizes ∅ [⟨1, 40, 1⟩, ⟨0, 24, 2⟩] (by decide)

/-- An overdrawn bin in front makes a bin be reported that its own size covers. -/
theorem stats_inconsistent_of_other_size :
    ¬ ∀ (layout : DetectedLayout) (arena_index : UInt32) (events : Slice ChunkEvent) (tcache_membership : TcacheMembership)
      (bins : List FastbinBinResult), (bins.map FastbinBinResult.size).Nodup → ∀ size,
      (Reported arena_index (accumulate layout arena_index events.val tcache_membership bins).2 size ↔
        ∃ fb ∈ bins, fb.size = size ∧ allocatedOf tcache_membership events.val size < fb.count.toNat) := by
  intro exact_
  have reported : Reported 1 (accumulate (test_layout 8) 1 two_sizes.val ∅ [⟨0, 24, 2⟩, ⟨1, 40, 1⟩]).2 40 :=
    ⟨"fastbin count exceeds allocated count for this size", by decide⟩
  obtain ⟨fb, member, same, short⟩ :=
    (exact_ (test_layout 8) 1 two_sizes ∅ [⟨0, 24, 2⟩, ⟨1, 40, 1⟩] (by decide) 40).mp reported
  revert fb
  decide

end HeapAnalyser.Classification
