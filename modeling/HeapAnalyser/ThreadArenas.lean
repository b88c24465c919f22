import HeapAnalyser.Analysis

/-!
Which arena of the report a thread is attached to. TLS resolution binds every
thread to one address (`resolve_tls_arena`), and no two arenas of a list share
theirs, so that a thread is attached to at most one arena, and to one exactly
when its address is listed (`arenas_bind_threads_once`).
-/
namespace HeapAnalyser.ThreadArenas
open Machine Arenas ArenaList Report Tls Analyze Analysis

/-- A thread's `thread_arena` variable can be read, with a value. -/
structure ArenaRead (mem : MemReader) (layout : DetectedLayout) (libc_addr : UInt64) (thread : Thread)
    (addr : UInt64) : Prop where
  tp : thread.tp ≠ 0
  reloc : layout.tp_off_reloc_addr ≠ none
  present : layout.thread_arena.present = true
  read : read_thread_arena mem layout libc_addr thread.tp = .ok addr

/-- The arena a `thread_arena` value stands for: the main one for a null. -/
def resolved (main_addr addr : UInt64) : UInt64 := if addr = 0 then main_addr else addr

/-- In how many entries of a report a thread is attached. -/
def attachments (report : Report) (thread : Thread) : Nat :=
  report.arenas.countP fun entry => decide (thread.thread_id ∈ entry.attached_threads)

/-- How a report attaches threads: each at most once, and a thread whose arena
    could be read exactly once where that is listed. -/
structure BoundOnce (mem : MemReader) (layout : DetectedLayout) (libc_addr : UInt64) (threads : List Thread)
    (arenas : List Arena) (report : Report) : Prop where
  most : ∀ thread ∈ threads, attachments report thread ≤ 1
  once : ∀ thread ∈ threads, ∀ addr, ArenaRead mem layout libc_addr thread addr →
    (attachments report thread = 1 ↔ resolved (mainAddr layout libc_addr) addr ∈ addrsOf arenas)

section
variable {mem : MemReader} {layout : DetectedLayout} {libc_addr main_addr : UInt64}

private theorem resolve_thread_other (s : TlsInfo × List Problem) {thread : Thread} {id : Int32}
    (other : id ≠ thread.thread_id) :
    (resolve_thread mem layout libc_addr main_addr s thread).1.thread_arena_map[id]? = s.1.thread_arena_map[id]? := by
  by_cases unset : thread.tp = 0
  · simp only [resolve_thread, unset, if_true]
  simp only [resolve_thread, unset, if_false, resolve_arena]
  by_cases present : layout.thread_arena.present = true
  · cases read : read_thread_arena mem layout libc_addr thread.tp with
    | error e => simp only [present, if_true]
    | ok addr =>
      simp only [present, if_true, Std.TreeMap.getElem?_insert, Std.compare_eq_iff_eq]
      rw [if_neg fun same => other same.symm]
  · simp only [if_neg present]

private theorem resolve_thread_own (s : TlsInfo × List Problem) {thread : Thread} {addr : UInt64}
    (own : ArenaRead mem layout libc_addr thread addr) :
    (resolve_thread mem layout libc_addr main_addr s thread).1.thread_arena_map[thread.thread_id]? =
      some (resolved main_addr addr) := by
  simp only [resolve_thread, own.tp, if_false, resolve_arena, own.present, if_true, own.read]
  exact Std.TreeMap.getElem?_insert_self

private theorem foldl_other (threads : List Thread) (s : TlsInfo × List Problem) {id : Int32}
    (other : id ∉ threads.map Thread.thread_id) :
    (threads.foldl (resolve_thread mem layout libc_addr main_addr) s).1.thread_arena_map[id]? =
      s.1.thread_arena_map[id]? := by
  induction threads generalizing s with
  | nil => rfl
  | cons thread rest ih =>
    rw [List.map_cons, List.mem_cons, not_or] at other
    rw [List.foldl_cons, ih _ other.2, resolve_thread_other s other.1]

private theorem foldl_own {threads : List Thread} (s : TlsInfo × List Problem)
    (distinct : (threads.map Thread.thread_id).Nodup)
    {thread : Thread} (member : thread ∈ threads) {addr : UInt64} (own : ArenaRead mem layout libc_addr thread addr) :
    (threads.foldl (resolve_thread mem layout libc_addr main_addr) s).1.thread_arena_map[thread.thread_id]? =
      some (resolved main_addr addr) := by
  induction threads generalizing s with
  | nil => simp at member
  | cons first rest ih =>
    obtain ⟨absent, restDistinct⟩ := List.nodup_cons.mp distinct
    rw [List.foldl_cons]
    rcases List.mem_cons.mp member with rfl | later
    · rw [foldl_other rest _ absent]
      exact resolve_thread_own s own
    · exact ih _ restDistinct later

/-- Threads of distinct ids are bound to the arenas they read. -/
theorem resolve_tls_arena {arenas : List Arena} {threads : List Thread} {thread : Thread} {addr : UInt64}
    (first : arenas.head? = some ⟨mainAddr layout libc_addr, 0⟩) (distinct : (threads.map Thread.thread_id).Nodup)
    (member : thread ∈ threads) (own : ArenaRead mem layout libc_addr thread addr) :
    (tlsOf mem layout libc_addr arenas threads).1.thread_arena_map[thread.thread_id]? =
      some (resolved (mainAddr layout libc_addr) addr) := by
  simp only [tlsOf, resolve_tls, own.reloc, if_false, first, Option.map_some, Option.getD_some]
  exact foldl_own _ distinct member own

private theorem mem_attached_threads {arena : Arena} {threads : List Thread} {thread : Thread}
    {map : Std.TreeMap Int32 UInt64} (member : thread ∈ threads) :
    thread.thread_id ∈ attached_threads arena threads map ↔ map[thread.thread_id]? = some arena.malloc_state_addr := by
  simp only [attached_threads, List.mem_map, List.mem_filter, decide_eq_true_eq]
  constructor
  · rintro ⟨other, ⟨_, bound⟩, same⟩
    rwa [same] at bound
  · intro bound
    exact ⟨thread, ⟨member, bound⟩, rfl⟩

/-- A thread is attached as often as its address is listed. -/
theorem attachments_eq {threads : List Thread} {tls : TlsInfo} {arenas : List Arena} {entries : List ArenaReport}
    (each : List.Forall₂ (EntryOf threads tls) arenas entries) {thread : Thread} (member : thread ∈ threads) :
    (entries.countP fun entry => decide (thread.thread_id ∈ entry.attached_threads)) =
      (addrsOf arenas).countP fun addr => decide (tls.thread_arena_map[thread.thread_id]? = some addr) := by
  induction each with
  | nil => rfl
  | @cons arena entry arenas entries isEntry _ ih =>
    have attached : thread.thread_id ∈ entry.attached_threads ↔
        tls.thread_arena_map[thread.thread_id]? = some arena.malloc_state_addr := by
      rw [isEntry.attached]
      exact mem_attached_threads member
    have addrs : addrsOf (arena :: arenas) = arena.malloc_state_addr :: addrsOf arenas := rfl
    rw [List.countP_cons, ih, addrs, List.countP_cons]
    simp only [attached]

end

/-- An arena list is a chain of distinct arenas, and every report attaches each
    thread to at most one of them. -/
theorem arenas_bind_threads_once (mem : MemReader) (layout : DetectedLayout) (libc_addr : UInt64) (arenas : List Arena)
    (problems : List Problem) (listed : Arenas.list mem layout libc_addr = .ok (arenas, problems)) :
    Listed mem layout libc_addr arenas problems ∧
    ∀ identity threads report, (threads.map Thread.thread_id).Nodup →
      analyze_core mem layout identity libc_addr threads = some (.ok report) →
      BoundOnce mem layout libc_addr threads arenas report := by
  have isList := list_listed listed
  refine ⟨isList, ?_⟩
  intro identity threads report distinct ran
  obtain ⟨others, other_problems, same, complete⟩ := analyze_core_spec ran
  rw [listed, Except.ok.injEq, Prod.mk.injEq] at same
  obtain ⟨rfl, rfl⟩ := same
  have counted {thread : Thread} (member : thread ∈ threads) {addr : UInt64}
      (bound : (tlsOf mem layout libc_addr arenas threads).1.thread_arena_map[thread.thread_id]? = some addr) :
      attachments report thread = (addrsOf arenas).count addr := by
    rw [attachments, attachments_eq complete.entries member, bound, List.count]
    apply List.countP_congr
    intro other _
    rw [decide_eq_true_eq, beq_iff_eq, Option.some.injEq]
    exact eq_comm
  constructor
  · intro thread member
    cases bound : (tlsOf mem layout libc_addr arenas threads).1.thread_arena_map[thread.thread_id]? with
    | none =>
      rw [attachments, attachments_eq complete.entries member, bound]
      simp
    | some addr =>
      rw [counted member bound]
      exact List.nodup_iff_count_le_one.mp isList.distinct addr
  · intro thread member addr own
    rw [counted member (resolve_tls_arena isList.first distinct member own)]
    constructor
    · intro once
      exact List.count_pos_iff.mp (by omega)
    · intro inList
      exact List.count_eq_one_of_mem isList.distinct inList

/-- Two arenas of one heap each, and two threads: one uses the main arena, the
    other one the second. -/
def two_threads : MemReader :=
  fake_mem [(0x1000, 0x10), (0x1010, 0x0), (0x1048, 0x40000), (0x1060, 0x40040), (0x1870, 0x9000),
    (0x40000, 0x0), (0x40008, 0x21), (0x40028, 0x21), (0x40048, 0x1001), (0x9010, 0x0), (0x9060, 0x80008d0),
    (0x9870, 0x1000), (0x8000008, 0x0), (0x8000010, 0x1000), (0x8000018, 0x1000), (0x80008b8, 0x25),
    (0x80008d8, 0x725), (0x7010, 0x0), (0x7110, 0x9000)] [(0x40000, 0x41000)]

def without_tcache : DetectedLayout :=
  { test_layout 8 with fastbin_count := 1, main_arena := ⟨true, 0, 0x898⟩, capabilities := ⟨false, false⟩ }

theorem arenas_bind_threads_once_two_threads : ∃ report,
    analyze_core two_threads without_tcache (.BuildId []) 0x1000 [⟨7, 0x7000⟩, ⟨8, 0x7100⟩] = some (.ok report) ∧
    attachments report ⟨7, 0x7000⟩ = 1 ∧ attachments report ⟨8, 0x7100⟩ = 1 := by
  obtain ⟨report, returned⟩ : ∃ report,
      analyze_core two_threads without_tcache (.BuildId []) 0x1000 [⟨7, 0x7000⟩, ⟨8, 0x7100⟩] = some (.ok report) :=
    ⟨_, rfl⟩
  have bound := (arenas_bind_threads_once two_threads without_tcache 0x1000 [⟨0x1000, 0⟩, ⟨0x9000, 1⟩] [] rfl).2
    (.BuildId []) [⟨7, 0x7000⟩, ⟨8, 0x7100⟩] report (by decide) returned
  have main := bound.once ⟨7, 0x7000⟩ (by simp) 0 ⟨by decide, by decide, rfl, rfl⟩
  have second := bound.once ⟨8, 0x7100⟩ (by simp) 0x9000 ⟨by decide, by decide, rfl, rfl⟩
  exact ⟨report, returned, main.mpr (by decide), second.mpr (by decide)⟩

end HeapAnalyser.ThreadArenas
