import HeapAnalyser.Analysis
import HeapAnalyser.CoreMemory

/-!
What the analysis does on a damaged core. With the two words it starts from
readable, the `top` of the main arena and the `sbrk_base` of `mp_`, no read can
make it fail: everything else degrades to a problem or a stub. The one thing
that keeps a report from being returned is a padding skip that never ends, in
the region of the main arena or of a heap a secondary arena's links lead to
(`list_eq_none`). The memory of a core has none (`not_endlessScan`), so that a
report is returned, and a complete one (`analysis_degrades`).
-/
namespace HeapAnalyser.Degradation
open Machine Arenas ArenaList HeapList HeapChain SecondaryHeaps CoreMemory Report Tls Analyze Analysis

/-- The region of the main arena starts with a padding that never ends. -/
def EndlessMain (mem : MemReader) (layout : DetectedLayout) (libc_addr : UInt64) (arena : Arena) : Prop :=
  ∃ sbrk_base top heap_start,
    mem.read_u64 (libc_addr + layout.mp.value + layout.mp_sbrk_base_offset.toUInt64) = .ok sbrk_base ∧
    mem.read_u64 (topField layout arena) = .ok top ∧ sbrk_base ≠ 0 ∧ top ≠ 0 ∧
    main_heap_start mem layout sbrk_base top = some heap_start ∧
    ZeroGrid mem heap_start (top + layout.word) layout.word

/-- The links of a secondary arena lead to a heap with a padding that never ends. -/
def EndlessSecondary (mem : MemReader) (layout : DetectedLayout) (arena : Arena) : Prop :=
  ∃ top rest last, ArenaChain mem layout arena top rest last ∧ Scanless mem layout top rest

/-- A padding in front of the arena's chunks never ends. -/
def EndlessScan (mem : MemReader) (layout : DetectedLayout) (libc_addr : UInt64) (arena : Arena) : Prop :=
  if arena.is_main then EndlessMain mem layout libc_addr arena else EndlessSecondary mem layout arena

/-- The words the analysis starts from are readable. -/
structure Started (mem : MemReader) (layout : DetectedLayout) (libc_addr : UInt64) : Prop where
  top : ∃ v, mem.read_u64 (mainAddr layout libc_addr + layout.malloc_state_top_offset.toUInt64) = .ok v
  sbrk_base : ∃ v, mem.read_u64 (libc_addr + layout.mp.value + layout.mp_sbrk_base_offset.toUInt64) = .ok v

section
variable {mem : MemReader} {layout : DetectedLayout} {libc_addr : UInt64} {arena : Arena}

private theorem list_main_eq_none :
    list_main mem layout libc_addr arena = none ↔ EndlessMain mem layout libc_addr arena := by
  unfold list_main EndlessMain
  cases readBase : mem.read_u64 (libc_addr + layout.mp.value + layout.mp_sbrk_base_offset.toUInt64) with
  | error e => simp
  | ok sbrk_base =>
    cases readTop : mem.read_u64 (topField layout arena) with
    | error e => simp
    | ok top =>
      by_cases fresh : sbrk_base = 0 ∨ top = 0
      · simp only [fresh, if_true, reduceCtorEq, false_iff]
        rintro ⟨base, end_top, heap_start, isBase, isTop, used, grown, _⟩
        rw [← Except.ok.inj isBase] at used
        rw [← Except.ok.inj isTop] at grown
        exact fresh.elim used grown
      obtain ⟨used, grown⟩ := not_or.mp fresh
      cases started : main_heap_start mem layout sbrk_base top with
      | none =>
        simp only [fresh, if_false, started, reduceCtorEq, false_iff]
        rintro ⟨base, end_top, heap_start, isBase, isTop, _, _, starts, _⟩
        rw [← Except.ok.inj isBase, ← Except.ok.inj isTop, started] at starts
        simp at starts
      | some heap_start =>
        simp only [fresh, if_false, started, Option.map_eq_none_iff, ← zeroGrid_iff]
        constructor
        · intro grid
          exact ⟨sbrk_base, top, heap_start, rfl, rfl, used, grown, started, grid⟩
        · rintro ⟨base, end_top, other_start, isBase, isTop, _, _, starts, grid⟩
          rw [← Except.ok.inj isBase, ← Except.ok.inj isTop, started] at starts
          rw [← Option.some.inj starts, ← Except.ok.inj isTop] at grid
          exact grid

/-- The heaps of an arena are not listed exactly when a padding never ends. -/
theorem list_eq_none :
    HeapList.list mem layout libc_addr arena = none ↔ EndlessScan mem layout libc_addr arena := by
  cases main : arena.is_main with
  | true => simp only [HeapList.list, EndlessScan, main, if_true, list_main_eq_none]
  | false => simp only [HeapList.list, EndlessScan, main, Bool.false_eq_true, if_false, list_secondary_eq_none,
      EndlessSecondary]

private theorem list_main_no_error (started : Started mem layout libc_addr) (e : Error) :
    list_main mem layout libc_addr ⟨mainAddr layout libc_addr, 0⟩ ≠ some (.error e) := by
  obtain ⟨top, readTop⟩ := started.top
  obtain ⟨sbrk_base, readBase⟩ := started.sbrk_base
  have readField : mem.read_u64 (topField layout ⟨mainAddr layout libc_addr, 0⟩) = .ok top := readTop
  unfold list_main
  by_cases fresh : sbrk_base = 0 ∨ top = 0
  · simp [readBase, readField, fresh]
  cases starts : main_heap_start mem layout sbrk_base top with
  | none => simp [readBase, readField, fresh, starts]
  | some heap_start => simp [readBase, readField, fresh, starts]

private theorem main_of_listed {arenas : List Arena} {problems : List Problem}
    (listed : Arenas.list mem layout libc_addr = .ok (arenas, problems)) (member : arena ∈ arenas)
    (main : arena.is_main = true) : arena = ⟨mainAddr layout libc_addr, 0⟩ := by
  have isList := list_listed listed
  obtain ⟨i, inside, rfl⟩ := List.getElem_of_mem member
  have index := isList.indexed i inside
  have zero : arenas[i].index = 0 := by simpa [Arena.is_main] using main
  rw [zero] at index
  obtain rfl : 0 = i := index
  have first := isList.first
  rw [List.head?_eq_getElem?, List.getElem?_eq_getElem inside] at first
  exact Option.some.inj first

private theorem analyze_arena_no_error (started : Started mem layout libc_addr) (tls : TlsInfo) (threads : List Thread)
    {arenas : List Arena} {problems : List Problem}
    (listed : Arenas.list mem layout libc_addr = .ok (arenas, problems)) (member : arena ∈ arenas) (e : Error) :
    analyze_arena mem layout libc_addr tls threads arena ≠ some (.error e) := by
  unfold analyze_arena
  rcases found : HeapList.list mem layout libc_addr arena with _ | other | heaps
  · simp
  · cases main : arena.is_main with
    | false => simp
    | true =>
      obtain rfl := main_of_listed listed member main
      rw [HeapList.list, if_pos main] at found
      exact absurd found (list_main_no_error started other)
  · simp

theorem analyze_arena_eq_none {tls : TlsInfo} {threads : List Thread} :
    analyze_arena mem layout libc_addr tls threads arena = none ↔ EndlessScan mem layout libc_addr arena := by
  rw [← list_eq_none]
  unfold analyze_arena
  rcases found : HeapList.list mem layout libc_addr arena with _ | e | heaps
  · simp
  · cases main : arena.is_main with
    | false => simp
    | true => simp
  · simp

/-- The loop ends with a report for each arena, or comes to one with an endless scan. -/
theorem analyze_arenas_cases (started : Started mem layout libc_addr) (tls : TlsInfo) (threads : List Thread)
    {arenas : List Arena} {problems : List Problem}
    (listed : Arenas.list mem layout libc_addr = .ok (arenas, problems)) {some : List Arena} (part : some ⊆ arenas) :
    ((∃ arena ∈ some, EndlessScan mem layout libc_addr arena) ∧
      analyze_arenas mem layout libc_addr tls threads some = none) ∨
    ((∀ arena ∈ some, ¬ EndlessScan mem layout libc_addr arena) ∧
      ∃ result, analyze_arenas mem layout libc_addr tls threads some = Option.some (.ok result)) := by
  induction some with
  | nil => exact .inr ⟨by simp, _, rfl⟩
  | cons arena rest ih =>
    have member : arena ∈ arenas := part (by simp)
    rcases one : analyze_arena mem layout libc_addr tls threads arena with _ | e | ⟨report, found⟩
    · exact .inl ⟨⟨arena, by simp, analyze_arena_eq_none.mp one⟩, by simp only [analyze_arenas, one]⟩
    · exact absurd one (analyze_arena_no_error started tls threads listed member e)
    have ends : ¬ EndlessScan mem layout libc_addr arena := by
      rw [← @analyze_arena_eq_none mem layout libc_addr arena tls threads, one]
      simp
    rcases ih fun a inRest => part (List.mem_cons_of_mem _ inRest) with
      ⟨⟨other, inRest, endless⟩, never⟩ | ⟨quiet, result, returns⟩
    · exact .inl ⟨⟨other, List.mem_cons_of_mem _ inRest, endless⟩, by simp only [analyze_arenas, one, never]⟩
    · refine .inr ⟨?_, _, by simp only [analyze_arenas, one, returns]; rfl⟩
      intro other inside
      rcases List.mem_cons.mp inside with rfl | inRest
      · exact ends
      · exact quiet other inRest

/-- A started analysis returns a report unless an arena listed has an endless scan. -/
theorem analyze_core_cases (started : Started mem layout libc_addr) (identity : Identity) (threads : List Thread)
    {arenas : List Arena} {problems : List Problem}
    (listed : Arenas.list mem layout libc_addr = .ok (arenas, problems)) :
    ((∃ arena ∈ arenas, EndlessScan mem layout libc_addr arena) ∧
      analyze_core mem layout identity libc_addr threads = none) ∨
    ((∀ arena ∈ arenas, ¬ EndlessScan mem layout libc_addr arena) ∧
      ∃ report, analyze_core mem layout identity libc_addr threads = some (.ok report)) := by
  rcases analyze_arenas_cases started (tlsOf mem layout libc_addr arenas threads).1 threads listed
    (List.Subset.refl arenas) with ⟨endless, never⟩ | ⟨quiet, result, returns⟩
  · exact .inl ⟨endless, by simp only [analyze_core, listed, resolve_tls_frame, never]⟩
  · refine .inr ⟨quiet, ?_⟩
    simp only [analyze_core, listed, resolve_tls_frame, returns]
    exact ⟨_, rfl⟩

theorem not_endlessScan (core : OfCore mem) (sized : layout.Sized) (arena : Arena) :
    ¬ EndlessScan mem layout libc_addr arena := by
  unfold EndlessScan
  split
  · rintro ⟨_, top, heap_start, _, readTop, _, _, _, grid⟩
    exact not_zeroGrid_of_top core sized readTop _ grid
  · rintro ⟨top, rest, last, chain, endless⟩
    exact not_scanless core sized chain endless

end

/-- The analysis returns a complete report. -/
def Degrades (mem : MemReader) (layout : DetectedLayout) (identity : Identity) (libc_addr : UInt64)
    (threads : List Thread) : Prop :=
  ∃ arenas arena_problems report, Arenas.list mem layout libc_addr = .ok (arenas, arena_problems) ∧
    analyze_core mem layout identity libc_addr threads = some (.ok report) ∧
    Complete mem layout identity libc_addr threads arenas arena_problems report

/-- Once started the analysis never returns an error, and of the memory of a core
    it returns a complete report. -/
theorem analysis_degrades (mem : MemReader) (layout : DetectedLayout) (identity : Identity) (libc_addr : UInt64)
    (threads : List Thread) (started : Started mem layout libc_addr) :
    (∀ e, analyze_core mem layout identity libc_addr threads ≠ some (.error e)) ∧
    (OfCore mem → layout.Sized → Degrades mem layout identity libc_addr threads) := by
  obtain ⟨top, readTop⟩ := started.top
  obtain ⟨arenas, arena_problems, listed⟩ : ∃ arenas arena_problems,
      Arenas.list mem layout libc_addr = .ok (arenas, arena_problems) := by
    simp only [Arenas.list, readTop]
    exact ⟨_, _, rfl⟩
  rcases analyze_core_cases started identity threads listed with
    ⟨⟨arena, member, endless⟩, never⟩ | ⟨_, report, returns⟩
  · refine ⟨by simp [never], ?_⟩
    intro core sized
    exact absurd endless (not_endlessScan core sized arena)
  · refine ⟨by simp [returns], ?_⟩
    intro _ _
    obtain ⟨others, other_problems, same, complete⟩ := analyze_core_spec returns
    rw [listed, Except.ok.injEq, Prod.mk.injEq] at same
    obtain ⟨rfl, rfl⟩ := same
    exact ⟨arenas, arena_problems, report, listed, returns, complete⟩

/-- A main arena with one chunk, whose ring goes on to an arena where nothing is readable but the next link. -/
def torn_ring : MemReader :=
  fake_mem [(0x1048, 0x8000), (0x1060, 0x8040), (0x1870, 0x9000), (0x8000, 0x0), (0x8008, 0x41), (0x8048, 0x21),
    (0x9870, 0x1000)] [(0x8000, 0x9000)]

theorem analysis_degrades_torn_ring : Degrades torn_ring (test_layout 8) (.BuildId []) 0x1000 [] := by
  have started : Started torn_ring (test_layout 8) 0x1000 := ⟨⟨0x8040, rfl⟩, ⟨0x8000, rfl⟩⟩
  exact (analysis_degrades torn_ring (test_layout 8) (.BuildId []) 0x1000 [] started).2 (fake_mem_ofCore (by simp))
    test_layout_sized.1

end HeapAnalyser.Degradation
