import HeapAnalyser.Analyze
import HeapAnalyser.ArenaList
import HeapAnalyser.HeapChain

/-!
The analysis of a core, from the arena list to the last arena's report
(`analyze_core_with_debug` of `analyze.rs`, behind the loading of images). A
report that is returned has one entry for each arena listed, and its problems
are those of detection, of the list, of TLS resolution and of each arena in
turn (`analyze_core_spec`).
-/
namespace HeapAnalyser.Analysis
open Machine Arenas ArenaList HeapList HeapChain FreeList Report Stats Tls Walk Analyze
universe u v

/-- How the same libc is recognised: by its build-id, or by a hash of its first page. -/
inductive Identity where
  | BuildId (id : List UInt8)
  | ContentHash (hash : List UInt8)
  deriving Repr, DecidableEq

structure Report where
  problems : List Problem
  arenas : List ArenaReport
  deriving Repr, DecidableEq

/-- What detection leaves in the problem list, with a missing build-id. -/
def detected (layout : DetectedLayout) (identity : Identity) : List Problem :=
  match identity with
  | .ContentHash _ => layout.problems ++ [.MissingBuildId]
  | .BuildId _ => layout.problems

/-- The loop over the arenas; `none` if the analysis of one never ends. -/
def analyze_arenas (mem : MemReader) (layout : DetectedLayout) (libc_addr : UInt64) (tls : TlsInfo)
    (threads : List Thread) : List Arena → Option (Except Error (List ArenaReport × List Problem))
  | [] => some (.ok ([], []))
  | arena :: rest =>
    match analyze_arena mem layout libc_addr tls threads arena with
    | none => none
    | some (.error e) => some (.error e)
    | some (.ok (report, problems)) =>
      match analyze_arenas mem layout libc_addr tls threads rest with
      | none => none
      | some (.error e) => some (.error e)
      | some (.ok (reports, more)) => some (.ok (report :: reports, problems ++ more))

def analyze_core (mem : MemReader) (layout : DetectedLayout) (identity : Identity) (libc_addr : UInt64)
    (threads : List Thread) : Option (Except Error Report) :=
  match Arenas.list mem layout libc_addr with
  | .error e => some (.error e)
  | .ok (arenas, arena_problems) =>
    let resolved := resolve_tls mem layout libc_addr arenas threads (detected layout identity ++ arena_problems)
    match analyze_arenas mem layout libc_addr resolved.1 threads arenas with
    | none => none
    | some (.error e) => some (.error e)
    | some (.ok (arena_reports, problems)) => some (.ok ⟨resolved.2 ++ problems, arena_reports⟩)

/-- The run leaves the problems it starts with in front of some of its own, and
    depends on them in no other way. -/
def Writes {σ : Type u} (own : Problem → Prop) (run : List Problem → σ × List Problem) : Prop :=
  ∃ s new, (∀ problem ∈ new, own problem) ∧ ∀ start, run start = (s, start ++ new)

section
variable {σ : Type u} {ι : Type v} {own : Problem → Prop}

theorem Writes.pure (s : σ) : Writes own fun start => (s, start) := ⟨s, [], by simp, by simp⟩

theorem Writes.add (s : σ) {new : List Problem} (each : ∀ problem ∈ new, own problem) :
    Writes own fun start => (s, start ++ new) := ⟨s, new, each, fun _ => rfl⟩

theorem Writes.one (s : σ) {problem : Problem} (is : own problem) : Writes own fun start => (s, start ++ [problem]) :=
  Writes.add s (by simpa using is)

/-- What a run leaves to another one. -/
theorem Writes.bind {τ : Type v} {run : List Problem → σ × List Problem} {next : σ → List Problem → τ × List Problem}
    (first : Writes own run) (second : ∀ s, Writes own (next s)) :
    Writes own fun start => next (run start).1 (run start).2 := by
  obtain ⟨s, new, each, runs⟩ := first
  obtain ⟨t, more, eachMore, goesOn⟩ := second s
  refine ⟨t, new ++ more, ?_, ?_⟩
  · intro problem member
    rcases List.mem_append.mp member with early | late
    · exact each problem early
    · exact eachMore problem late
  · intro start
    simp only [runs, goesOn, List.append_assoc]

/-- A loop each turn of which writes. -/
theorem Writes.foldl {turn : σ × List Problem → ι → σ × List Problem}
    (each : ∀ i s, Writes own fun start => turn (s, start) i) (is : List ι) (s : σ) :
    Writes own fun start => is.foldl turn (s, start) := by
  induction is generalizing s with
  | nil => exact Writes.pure s
  | cons i is ih => exact (each i s).bind fun t => ih t

theorem Writes.frame {run : List Problem → σ × List Problem} (writes : Writes own run) (start : List Problem) :
    run start = ((run []).1, start ++ (run []).2) := by
  obtain ⟨s, new, _, runs⟩ := writes
  rw [runs, runs, List.nil_append]

theorem Writes.weaken {other : Problem → Prop} {run : List Problem → σ × List Problem} (writes : Writes own run)
    (isOther : ∀ problem, own problem → other problem) : Writes other run := by
  obtain ⟨s, new, each, runs⟩ := writes
  exact ⟨s, new, fun problem member => isOther problem (each problem member), runs⟩

theorem Writes.each {run : List Problem → σ × List Problem} (writes : Writes own run) :
    ∀ problem ∈ (run []).2, own problem := by
  obtain ⟨s, new, each, runs⟩ := writes
  rw [runs, List.nil_append]
  exact each

end

/-- The arena a problem names. -/
def arenaOf : Problem → Option UInt32
  | .FastbinCycleDetected arena _ => some arena
  | .FastbinChunkReadFailed arena _ _ => some arena
  | .ChunkReadFailed arena _ => some arena
  | .HeapWalkTruncated arena _ => some arena
  | .StatsInconsistent arena _ _ => some arena
  | _ => none

/-- The problem names no arena. -/
def NoArena (problem : Problem) : Prop := arenaOf problem = none

/-- The problem is about the TLS of a thread. -/
def OfThread : Problem → Prop
  | .TcacheCycleDetected _ _ => True
  | .TcacheChunkReadFailed _ _ _ => True
  | .DuplicateTcacheEntry _ _ _ => True
  | .ThreadTlsResolutionFailed _ => True
  | _ => False

private theorem noArena_of_ofThread {problem : Problem} (ofThread : OfThread problem) : NoArena problem := by
  cases problem <;> first | rfl | cases ofThread

section
variable {mem : MemReader} {layout : DetectedLayout} {libc_addr : UInt64}

private theorem tcache_from_ofThread (thread_id : Int32) (bin_index : UInt32) (remaining : Nat) (visited : List UInt64)
    (cur : UInt64) (user_addrs : List UInt64) :
    ∀ problem ∈ (tcache_from mem layout thread_id bin_index remaining visited cur user_addrs).2, OfThread problem := by
  induction remaining generalizing visited cur user_addrs with
  | zero => simp [tcache_from, OfThread]
  | succ remaining ih =>
    by_cases seen : cur ∈ visited
    · simp [tcache_from, seen, OfThread]
    cases read : mem.read_u64 cur with
    | error e => simp [tcache_from, seen, read, OfThread]
    | ok stored =>
      by_cases last : reveal layout cur stored = 0
      · simp [tcache_from, seen, read, last]
      · simp only [tcache_from, seen, if_false, read, last]
        exact ih (cur :: visited) (reveal layout cur stored) (user_addrs ++ [cur])

private theorem walk_tcache_bin_ofThread (head : UInt64) (thread_id : Int32) (bin_index : UInt32) :
    ∀ problem ∈ (walk_tcache_bin mem layout head thread_id bin_index).2, OfThread problem := by
  by_cases null : head = 0
  · simp [walk_tcache_bin, null]
  · simp only [walk_tcache_bin, null, if_false]
    exact tcache_from_ofThread thread_id bin_index MAX_CHAIN [] head []

private theorem record_addr_writes (thread_id : Int32) (bin : UInt32) (membership : TcacheMembership) (addr : UInt64) :
    Writes OfThread fun start => record_addr thread_id bin (membership, start) addr := by
  cases found : membership[addr]? with
  | some owner =>
    simp only [record_addr, found]
    exact Writes.one membership trivial
  | none =>
    simp only [record_addr, found]
    exact Writes.pure (membership.insert addr (thread_id, bin))

private theorem collect_bin_writes (base entries_off word : UInt64) (thread_id : Int32) (membership : TcacheMembership)
    (bin : UInt32) :
    Writes OfThread fun start => collect_bin mem layout base entries_off word thread_id (membership, start) bin := by
  cases read : mem.read_u64 (headSlot base entries_off word bin) with
  | error e =>
    simp only [collect_bin, read]
    exact Writes.one membership trivial
  | ok head =>
    simp only [collect_bin, read]
    exact (Writes.add membership (walk_tcache_bin_ofThread head thread_id bin)).bind fun s =>
      Writes.foldl (fun addr t => record_addr_writes thread_id bin t addr) _ s

private theorem resolve_tcache_writes (thread : Thread) (membership : TcacheMembership) :
    Writes OfThread fun start => (resolve_tcache mem layout libc_addr thread (membership, start)).1 := by
  by_cases tcache : layout.capabilities.has_tcache = true
  · cases pointer : tcache_ptr mem layout libc_addr thread.tp with
    | error e =>
      simp only [resolve_tcache, tcache, if_true, pointer]
      exact Writes.pure membership
    | ok base =>
      by_cases null : base = 0
      · simp only [resolve_tcache, tcache, if_true, pointer, null]
        exact Writes.pure membership
      · simp only [resolve_tcache, tcache, if_true, pointer, null, if_false, collect_tcache]
        exact Writes.foldl (fun bin s => collect_bin_writes _ _ _ thread.thread_id s bin) _ membership
  · simp only [resolve_tcache, if_neg tcache]
    exact Writes.pure membership

/-- Whether a thread's tcache pointer could be read does not depend on the problems. -/
theorem resolve_tcache_failed (thread : Thread) (s t : TcacheMembership × List Problem) :
    (resolve_tcache mem layout libc_addr thread s).2 = (resolve_tcache mem layout libc_addr thread t).2 := by
  by_cases tcache : layout.capabilities.has_tcache = true
  · cases pointer : tcache_ptr mem layout libc_addr thread.tp with
    | error e => simp only [resolve_tcache, tcache, if_true, pointer]
    | ok base => by_cases null : base = 0 <;> simp only [resolve_tcache, tcache, if_true, pointer, null, if_false]
  · simp only [resolve_tcache, if_neg tcache]

private theorem resolve_thread_writes (main_addr : UInt64) (info : TlsInfo) (thread : Thread) :
    Writes OfThread fun start => resolve_thread mem layout libc_addr main_addr (info, start) thread := by
  by_cases unset : thread.tp = 0
  · simp only [resolve_thread, unset, if_true]
    exact Writes.one info trivial
  obtain ⟨s, new, each, runs⟩ : Writes OfThread fun start =>
      (resolve_tcache mem layout libc_addr thread (info.tcache_membership, start)).1 := resolve_tcache_writes thread _
  have flag (start : List Problem) : (resolve_tcache mem layout libc_addr thread (info.tcache_membership, start)).2 =
      (resolve_tcache mem layout libc_addr thread (info.tcache_membership, [])).2 := resolve_tcache_failed thread _ _
  simp only [resolve_thread, unset, if_false, runs, flag]
  by_cases failed : ((resolve_arena mem layout libc_addr main_addr thread info.thread_arena_map).2 ||
      (resolve_tcache mem layout libc_addr thread (info.tcache_membership, [])).2) = true
  · simp only [failed, if_true, List.append_assoc]
    apply Writes.add
    intro problem member
    rcases List.mem_append.mp member with walked | last
    · exact each problem walked
    · rw [List.mem_singleton.mp last]
      trivial
  · simp only [failed]
    exact Writes.add _ each

theorem resolve_tls_ofThread (arenas : List Arena) (threads : List Thread) :
    Writes OfThread (resolve_tls mem layout libc_addr arenas threads) := by
  by_cases missing : layout.tp_off_reloc_addr = none
  · have same : resolve_tls mem layout libc_addr arenas threads = fun start => (⟨∅, ∅⟩, start) := by
      funext start
      simp only [resolve_tls, missing, if_true]
    rw [same]
    exact Writes.pure _
  · have same : resolve_tls mem layout libc_addr arenas threads = fun start =>
        threads.foldl (resolve_thread mem layout libc_addr ((arenas.head?.map Arena.malloc_state_addr).getD 0))
          (⟨∅, ∅⟩, start) := by
      funext start
      simp only [resolve_tls, missing, if_false]
    rw [same]
    exact Writes.foldl (fun thread info => resolve_thread_writes _ info thread) threads _

/-- TLS resolution adds problems of its own, which name no arena, to those it is given. -/
theorem resolve_tls_writes (arenas : List Arena) (threads : List Thread) :
    Writes NoArena (resolve_tls mem layout libc_addr arenas threads) :=
  (resolve_tls_ofThread arenas threads).weaken fun _ => noArena_of_ofThread

end

/-! ## What a report is -/

/-- The problems of one arena, whether it was walked or is a stub. -/
def arenaProblems (mem : MemReader) (layout : DetectedLayout) (libc_addr : UInt64) (tls : TlsInfo) (arena : Arena) :
    List Problem :=
  match HeapList.list mem layout libc_addr arena with
  | some (.ok (heaps, heap_problems)) =>
    let walked := walk_heaps mem layout arena heaps
    let fastbins := walk_arena_fastbins mem layout arena
    heap_problems ++ walked.2 ++ fastbins.2 ++
      (accumulate layout arena.index walked.1 tls.tcache_membership fastbins.1).2
  | _ => [.HeapWalkTruncated arena.index "heap list start unreadable"]

/-- The entry of an arena in a report. -/
structure EntryOf (threads : List Thread) (tls : TlsInfo) (arena : Arena) (entry : ArenaReport) : Prop where
  index : entry.index = arena.index
  is_main : entry.is_main = arena.is_main
  attached : entry.attached_threads = attached_threads arena threads tls.thread_arena_map

/-- What the threads' TLS is resolved to. -/
def tlsOf (mem : MemReader) (layout : DetectedLayout) (libc_addr : UInt64) (arenas : List Arena)
    (threads : List Thread) : TlsInfo × List Problem := resolve_tls mem layout libc_addr arenas threads []

theorem resolve_tls_frame (mem : MemReader) (layout : DetectedLayout) (libc_addr : UInt64) (arenas : List Arena)
    (threads : List Thread) (start : List Problem) : resolve_tls mem layout libc_addr arenas threads start =
      ((tlsOf mem layout libc_addr arenas threads).1, start ++ (tlsOf mem layout libc_addr arenas threads).2) :=
  (resolve_tls_writes arenas threads).frame start

/-- A report with one entry for each arena, in order, and with every problem. -/
structure Complete (mem : MemReader) (layout : DetectedLayout) (identity : Identity) (libc_addr : UInt64)
    (threads : List Thread) (arenas : List Arena) (arena_problems : List Problem) (report : Report) : Prop where
  entries : List.Forall₂ (EntryOf threads (tlsOf mem layout libc_addr arenas threads).1) arenas report.arenas
  problems : report.problems = detected layout identity ++ arena_problems ++
    (tlsOf mem layout libc_addr arenas threads).2 ++
    arenas.flatMap (arenaProblems mem layout libc_addr (tlsOf mem layout libc_addr arenas threads).1)

section
variable {mem : MemReader} {layout : DetectedLayout} {libc_addr : UInt64} {tls : TlsInfo} {threads : List Thread}

theorem analyze_arena_spec {arena : Arena} {report : ArenaReport} {problems : List Problem}
    (ran : analyze_arena mem layout libc_addr tls threads arena = some (.ok (report, problems))) :
    EntryOf threads tls arena report ∧ problems = arenaProblems mem layout libc_addr tls arena := by
  unfold analyze_arena at ran
  unfold arenaProblems
  cases listed : HeapList.list mem layout libc_addr arena with
  | none => simp [listed] at ran
  | some result =>
    cases result with
    | error e =>
      cases main : arena.is_main with
      | true => simp [listed, main] at ran
      | false =>
        simp only [listed, main, Bool.false_eq_true, if_false, Option.some.injEq, Except.ok.injEq, Prod.mk.injEq] at ran
        obtain ⟨rfl, rfl⟩ := ran
        exact ⟨⟨rfl, main.symm, rfl⟩, rfl⟩
    | ok found =>
      simp only [listed, Option.some.injEq, Except.ok.injEq, Prod.mk.injEq] at ran
      obtain ⟨rfl, rfl⟩ := ran
      exact ⟨⟨rfl, rfl, rfl⟩, rfl⟩

private theorem analyze_arenas_spec {arenas : List Arena} {reports : List ArenaReport} {problems : List Problem}
    (ran : analyze_arenas mem layout libc_addr tls threads arenas = some (.ok (reports, problems))) :
    List.Forall₂ (EntryOf threads tls) arenas reports ∧
      problems = arenas.flatMap (arenaProblems mem layout libc_addr tls) := by
  induction arenas generalizing reports problems with
  | nil =>
    simp only [analyze_arenas, Option.some.injEq, Except.ok.injEq, Prod.mk.injEq] at ran
    obtain ⟨rfl, rfl⟩ := ran
    exact ⟨.nil, rfl⟩
  | cons arena rest ih =>
    unfold analyze_arenas at ran
    rcases one : analyze_arena mem layout libc_addr tls threads arena with _ | e | ⟨report, found⟩
    · simp [one] at ran
    · simp [one] at ran
    rcases others : analyze_arenas mem layout libc_addr tls threads rest with _ | e | ⟨reports, more⟩
    · simp [one, others] at ran
    · simp [one, others] at ran
    simp only [one, others, Option.some.injEq, Except.ok.injEq, Prod.mk.injEq] at ran
    obtain ⟨rfl, rfl⟩ := ran
    obtain ⟨entry, isFound⟩ := analyze_arena_spec one
    obtain ⟨entries, isMore⟩ := ih others
    exact ⟨.cons entry entries, by rw [isFound, isMore, List.flatMap_cons]⟩

/-- A report that is returned is complete. -/
theorem analyze_core_spec {identity : Identity} {report : Report}
    (ran : analyze_core mem layout identity libc_addr threads = some (.ok report)) :
    ∃ arenas arena_problems, Arenas.list mem layout libc_addr = .ok (arenas, arena_problems) ∧
      Complete mem layout identity libc_addr threads arenas arena_problems report := by
  unfold analyze_core at ran
  cases listed : Arenas.list mem layout libc_addr with
  | error e => simp [listed] at ran
  | ok found =>
    obtain ⟨arenas, arena_problems⟩ := found
    rcases each : analyze_arenas mem layout libc_addr (tlsOf mem layout libc_addr arenas threads).1 threads arenas with
      _ | e | ⟨reports, problems⟩
    · simp [listed, resolve_tls_frame, each] at ran
    · simp [listed, resolve_tls_frame, each] at ran
    simp only [listed, resolve_tls_frame, each, Option.some.injEq, Except.ok.injEq] at ran
    obtain rfl := ran
    obtain ⟨entries, isProblems⟩ := analyze_arenas_spec each
    exact ⟨arenas, arena_problems, rfl, entries, by rw [isProblems]⟩

end

end HeapAnalyser.Analysis
