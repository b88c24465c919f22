import HeapAnalyser.Analysis

/-!
Whether the arena a problem names is in the report. The problems of an arena's
heaps, walks, fastbins and statistics name that arena, which has an entry, a
stub if need be (`arenaProblems_names`). The one problem of an arena list does
not: it is about the arena that would have come next, and names its index,
which no entry has. So every problem resolves exactly when the list has none
(`problems_resolve_iff`).
-/
namespace HeapAnalyser.ProblemArenas
open Machine Arenas ArenaList HeapList HeapChain FreeList Report Stats Tls Walk Analyze Analysis

/-- The problem names an arena by its index. -/
def Names (index : UInt32) (problem : Problem) : Prop := arenaOf problem = some index

/-- Every arena that a problem of the report names has an entry in it. -/
def Resolves (report : Report) : Prop :=
  ∀ problem ∈ report.problems, ∀ index, arenaOf problem = some index → ∃ entry ∈ report.arenas, entry.index = index

section
variable {mem : MemReader} {layout : DetectedLayout} {libc_addr : UInt64} {arena : Arena}

private theorem walk_step_names (arena_index : UInt32) {region_end address header : UInt64} {is_main_arena : Bool}
    {problems : List Problem}
    (step : walk_step mem layout arena_index region_end is_main_arena address header = .stop problems) :
    ∀ problem ∈ problems, Names arena_index problem := by
  unfold walk_step at step
  by_cases small : chunk_size header < 2 * layout.word
  · simp only [small, if_true, Step.stop.injEq] at step
    simp [← step, Names, arenaOf]
  by_cases unaligned : chunk_size header % layout.alignment ≠ 0
  · simp only [small, if_false, if_pos unaligned, Step.stop.injEq] at step
    simp [← step, Names, arenaOf]
  cases sum : checked_add address (chunk_size header) with
  | none =>
    simp only [small, unaligned, if_false, sum, Step.stop.injEq] at step
    simp [← step, Names, arenaOf]
  | some next =>
    by_cases past : next > region_end
    · simp only [small, unaligned, if_false, sum, past, if_true, Step.stop.injEq] at step
      simp [← step, Names, arenaOf]
    cases read : mem.read_u64 next with
    | error e =>
      simp only [small, unaligned, if_false, sum, past, read, Step.stop.injEq] at step
      simp [← step, Names, arenaOf]
    | ok next_header =>
      cases sentinel : at_sentinel mem layout region_end is_main_arena header next next_header with
      | true =>
        simp only [small, unaligned, if_false, sum, past, read, sentinel, if_true, Step.stop.injEq] at step
        simp [← step]
      | false => simp [small, unaligned, sum, past, read, sentinel] at step

private theorem walk_from_names (arena_index : UInt32) (region_end : UInt64) (is_main_arena : Bool) (remaining : Nat)
    (address header : UInt64) :
    ∀ problem ∈ (walk_from mem layout arena_index region_end is_main_arena remaining address header).2,
      Names arena_index problem := by
  induction remaining generalizing address header with
  | zero =>
    by_cases reached : address = region_end
    · simp [walk_from, reached]
    · simp [walk_from, reached, Names, arenaOf]
  | succ remaining ih =>
    by_cases reached : address = region_end
    · simp [walk_from, reached]
    cases step : walk_step mem layout arena_index region_end is_main_arena address header with
    | stop problems =>
      simp only [walk_from, if_neg reached, step]
      exact walk_step_names arena_index step
    | emit event next next_header =>
      simp only [walk_from, if_neg reached, step]
      exact ih next next_header

private theorem walk_region_names (arena_index : UInt32) (region_start region_end : UInt64) (is_main_arena : Bool) :
    ∀ problem ∈ (walk_region mem layout arena_index region_start region_end is_main_arena).2,
      Names arena_index problem := by
  unfold walk_region
  by_cases inverted : region_start > region_end
  · simp [inverted, Names, arenaOf]
  by_cases empty : region_start = region_end
  · simp [empty]
  cases read : mem.read_u64 region_start with
  | error e => simp [inverted, empty, Names, arenaOf]
  | ok header =>
    simp only [inverted, empty, if_false]
    exact walk_from_names arena_index region_end is_main_arena MAX_CHUNKS region_start header

private theorem fastbin_from_names (arena_index bin_index : UInt32) (remaining : Nat) (visited : List UInt64)
    (current count : UInt64) :
    ∀ problem ∈ (fastbin_from mem layout arena_index bin_index remaining visited current count).2,
      Names arena_index problem := by
  induction remaining generalizing visited current count with
  | zero => simp [fastbin_from, Names, arenaOf]
  | succ remaining ih =>
    by_cases seen : current ∈ visited
    · simp [fastbin_from, seen, Names, arenaOf]
    cases read : mem.read_u64 (current + 2 * layout.word) with
    | error e => simp [fastbin_from, seen, read, Names, arenaOf]
    | ok stored =>
      by_cases last : reveal layout (current + 2 * layout.word) stored = 0
      · simp [fastbin_from, seen, read, last]
      · simp only [fastbin_from, seen, if_false, read, last]
        exact ih _ _ _

private theorem walk_arena_fastbins_names :
    ∀ problem ∈ (walk_arena_fastbins mem layout arena).2, Names arena.index problem := by
  have each (bin : UInt32) (results : List FastbinBinResult) :
      Writes (Names arena.index) fun start => walk_arena_fastbin mem layout arena (results, start) bin := by
    cases read : mem.read_u64 (fastbinHead layout arena bin) with
    | error e =>
      simp only [walk_arena_fastbin, read]
      exact Writes.one results rfl
    | ok head =>
      simp only [walk_arena_fastbin, read]
      apply Writes.add
      by_cases null : head = 0
      · simp [walk_fastbin, null]
      · simp only [walk_fastbin, null, if_false]
        exact fastbin_from_names arena.index bin MAX_CHAIN [] head 0
  exact (Writes.foldl each (range_u32 layout.fastbin_count) []).each

private theorem move_fastbin_names (arena_index : UInt32) (s : Moved) (fb : FastbinBinResult)
    (each : ∀ problem ∈ s.problems, Names arena_index problem) :
    ∀ problem ∈ (move_fastbin arena_index s fb).problems, Names arena_index problem := by
  by_cases empty : fb.count = 0
  · simpa only [move_fastbin, empty, if_true] using each
  simp only [move_fastbin, empty, if_false]
  cases underflow : (s.allocated.remove_n fb.size fb.count).2 with
  | false => simpa using each
  | true =>
    intro problem member
    simp only [if_true] at member
    rcases List.mem_append.mp member with before | new
    · exact each problem before
    · rw [List.mem_singleton.mp new]
      rfl

private theorem accumulate_names (layout : DetectedLayout) (arena_index : UInt32) (events : List ChunkEvent)
    (membership : TcacheMembership) (fastbins : List FastbinBinResult) :
    ∀ problem ∈ (accumulate layout arena_index events membership fastbins).2, Names arena_index problem := by
  have run (s : Moved) (each : ∀ problem ∈ s.problems, Names arena_index problem) :
      ∀ problem ∈ (fastbins.foldl (move_fastbin arena_index) s).problems, Names arena_index problem := by
    induction fastbins generalizing s with
    | nil => exact each
    | cons fb rest ih => exact ih _ (move_fastbin_names arena_index s fb each)
  exact run _ (by simp)

private theorem list_main_names {heaps : List Heap} {problems : List Problem}
    (listed : list_main mem layout libc_addr arena = some (.ok (heaps, problems))) :
    ∀ problem ∈ problems, Names arena.index problem := by
  obtain ⟨_, _, ⟨_, none⟩ | ⟨_, cut⟩ | ⟨_, _, none, _⟩ | ⟨_, _, cut⟩⟩ := list_main_cases listed
  · simp [none]
  · simp [cut, Names, arenaOf]
  · simp [none]
  · simp [cut, Names, arenaOf]

private theorem list_secondary_names {heaps : List Heap} {problems : List Problem}
    (listed : list_secondary mem layout arena = some (.ok (heaps, problems))) :
    ∀ problem ∈ problems, Names arena.index problem := by
  unfold list_secondary at listed
  cases readTop : mem.read_u64 (topField layout arena) with
  | error e => simp [readTop] at listed
  | ok top =>
    by_cases unused : top = 0
    · simp only [readTop, unused, if_true, Option.some.injEq, Except.ok.injEq, Prod.mk.injEq] at listed
      simp [← listed.2]
    simp only [readTop, unused, if_false] at listed
    obtain ⟨_, _, traced, _⟩ := secondary_from_traced MAX_HEAPS listed
    obtain ⟨_, _, ⟨clean, _⟩ | ⟨⟨reason, cut⟩, _⟩⟩ := traced.path
    · simp [clean]
    · simp [cut, Names, arenaOf]

/-- Every problem of an arena names it. -/
theorem arenaProblems_names (tls : TlsInfo) :
    ∀ problem ∈ arenaProblems mem layout libc_addr tls arena, Names arena.index problem := by
  unfold arenaProblems
  rcases listed : HeapList.list mem layout libc_addr arena with _ | e | ⟨heaps, heap_problems⟩
  · simp [Names, arenaOf]
  · simp [Names, arenaOf]
  intro problem member
  simp only [List.mem_append] at member
  rcases member with ((heap | walked) | fastbin) | stat
  · cases main : arena.is_main with
    | true =>
      rw [HeapList.list, if_pos main] at listed
      exact list_main_names listed problem heap
    | false =>
      rw [HeapList.list, if_neg (by simp [main])] at listed
      exact list_secondary_names listed problem heap
  · simp only [walk_heaps, List.flatMap_map, List.mem_flatMap] at walked
    obtain ⟨region, _, inWalk⟩ := walked
    exact walk_region_names arena.index _ _ _ problem inWalk
  · exact walk_arena_fastbins_names problem fastbin
  · exact accumulate_names _ _ _ _ _ problem stat

/-! ## The problems of a report -/

private theorem entry_of_arena {threads : List Thread} {tls : TlsInfo} {arenas : List Arena} {entries : List ArenaReport}
    (each : List.Forall₂ (EntryOf threads tls) arenas entries) (member : arena ∈ arenas) :
    ∃ entry ∈ entries, entry.index = arena.index := by
  obtain ⟨i, inside, rfl⟩ := List.getElem_of_mem member
  have same := each.length_eq
  exact ⟨entries[i], List.getElem_mem (by omega), (each.get inside (by omega)).index⟩

/-- No entry has the index that the problem of an arena list names. -/
theorem next_index_unresolved {threads : List Thread} {tls : TlsInfo} {arenas : List Arena} {found : List Problem}
    {entries : List ArenaReport} (isList : Listed mem layout libc_addr arenas found)
    (each : List.Forall₂ (EntryOf threads tls) arenas entries) :
    ∀ entry ∈ entries, entry.index ≠ UInt32.ofNat arenas.length := by
  intro entry member same
  obtain ⟨i, inside, rfl⟩ := List.getElem_of_mem member
  have length := each.length_eq
  have index := (each.get (by omega) inside).index
  have few := isList.few
  have position := isList.indexed i (by omega)
  rw [MAX_ARENAS] at few
  simp only [List.get_eq_getElem] at index
  rw [← index, same, UInt32.toNat_ofNat_of_lt' (by rw [UInt32.size]; omega)] at position
  omega

end

/-- For a layout as it is detected, every problem of a returned report resolves
    if and only if the ring of arenas closes within the limit. -/
theorem problems_resolve_iff (mem : MemReader) (layout : DetectedLayout) (identity : Identity) (libc_addr : UInt64)
    (threads : List Thread) (report : Report) (detection : ∀ problem ∈ layout.problems, NoArena problem)
    (returned : analyze_core mem layout identity libc_addr threads = some (.ok report)) :
    Resolves report ↔ RingCloses mem layout libc_addr := by
  obtain ⟨arenas, arena_problems, listed, complete⟩ := analyze_core_spec returned
  have isList := list_listed listed
  rw [← list_clean_iff listed]
  constructor
  · intro resolves
    rcases isList.problems with clean | ⟨reason, cut⟩
    · exact clean
    · have inReport : .HeapWalkTruncated (UInt32.ofNat arenas.length) reason ∈ report.problems := by
        rw [complete.problems, cut]
        simp
      obtain ⟨entry, member, index⟩ := resolves _ inReport _ rfl
      exact absurd index (next_index_unresolved isList complete.entries entry member)
  · intro clean problem member index names
    have noArena {other : Problem} (none : NoArena other) : other ≠ problem := by
      rintro rfl
      rw [none] at names
      simp at names
    rw [complete.problems, clean, List.append_nil] at member
    rcases List.mem_append.mp member with early | ofArena
    · rcases List.mem_append.mp early with before | ofTls
      · have none : NoArena problem := by
          cases identity with
          | BuildId id => exact detection problem before
          | ContentHash hash =>
            rcases List.mem_append.mp before with inLayout | missing
            · exact detection problem inLayout
            · rw [List.mem_singleton.mp missing]
              rfl
        exact absurd rfl (noArena none)
      · exact absurd rfl (noArena ((resolve_tls_writes arenas threads).each problem ofTls))
    · obtain ⟨arena, inList, own⟩ := List.mem_flatMap.mp ofArena
      have same : some arena.index = some index := (arenaProblems_names _ problem own).symm.trans names
      rw [← Option.some.inj same]
      exact entry_of_arena complete.entries inList

/-- Two arenas in a closed ring: a fastbin of the main one leads to a chunk that
    cannot be read, and the walk of the other one stops at a chunk too small. -/
def torn_arenas : MemReader :=
  fake_mem [(0x1010, 0x40020), (0x1048, 0x40000), (0x1060, 0x40040), (0x1870, 0x9000), (0x40000, 0x0),
    (0x40008, 0x21), (0x40028, 0x21), (0x40048, 0x1001), (0x9010, 0x0), (0x9060, 0x80008d0), (0x9870, 0x1000),
    (0x8000008, 0x0), (0x8000010, 0x1000), (0x8000018, 0x1000), (0x80008b8, 0x5), (0x80008d8, 0x725)]
    [(0x40000, 0x41000)]

def one_fastbin_bin : DetectedLayout :=
  { test_layout 8 with fastbin_count := 1, main_arena := ⟨true, 0, 0x898⟩ }

/-- A problem of each of the two arenas is in the report, beside one of none. -/
theorem problems_resolve_iff_torn_arenas : ∃ report,
    analyze_core torn_arenas one_fastbin_bin (.ContentHash []) 0x1000 [] = some (.ok report) ∧ Resolves report ∧
    report.problems.map arenaOf = [none, some 0, some 1] := by
  obtain ⟨report, returned, named⟩ : ∃ report,
      analyze_core torn_arenas one_fastbin_bin (.ContentHash []) 0x1000 [] = some (.ok report) ∧
      report.problems.map arenaOf = [none, some 0, some 1] := ⟨_, rfl, rfl⟩
  have closes : RingCloses torn_arenas one_fastbin_bin 0x1000 :=
    ⟨[0x9000], by decide, by decide, by decide, rfl, 0x1000, rfl, .inl rfl⟩
  refine ⟨report, returned, ?_, named⟩
  exact (problems_resolve_iff torn_arenas one_fastbin_bin (.ContentHash []) 0x1000 [] report
    (by simp [one_fastbin_bin, test_layout]) returned).mpr closes

/-- A main arena not yet grown, with a `next` that cannot be read. -/
def cut_ring : MemReader := fake_mem [(0x1048, 0x0), (0x1060, 0x0)] []

/-- The problem about the unreadable `next` names an arena that has no entry. -/
theorem problem_unresolved : ∃ report,
    analyze_core cut_ring (test_layout 8) (.BuildId []) 0x1000 [] = some (.ok report) ∧ ¬ Resolves report := by
  refine ⟨_, rfl, ?_⟩
  intro resolves
  obtain ⟨entry, member, index⟩ := resolves (.HeapWalkTruncated 1 "next pointer unreadable") (by decide) 1 rfl
  rw [List.mem_singleton.mp member] at index
  exact absurd index (by decide)

end HeapAnalyser.ProblemArenas
