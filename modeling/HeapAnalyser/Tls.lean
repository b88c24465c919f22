import HeapAnalyser.Arenas
import HeapAnalyser.FirstOwner
import HeapAnalyser.Stats

/-!
The threads' TLS, resolved once for the whole analysis (`resolve_tls` and
`collect_tcache` of `analyze.rs`, with the TLS reads of `heap/tcache.rs`): each
thread's arena, and one map from the user addresses in all tcaches to their
owners. `entriesOf` is the stream of these addresses, thread by thread and bin
by bin, each with its owner. Every step of the nested loops places the part of
the stream it reads and reports its repeats, and nothing else it reports is a
`DuplicateTcacheEntry` (`Placed`).
-/
namespace HeapAnalyser.Tls
open Machine Arenas FreeList FirstOwner Stats Walk

/-- What the analysis uses of a thread. -/
structure Thread where
  thread_id : Int32
  tp : UInt64
  deriving Repr, DecidableEq

/-- The value of a TLS variable, at `*(thread_tp + *libc_tp_offset + var_offset)`. -/
def read_tls_var (mem : MemReader) (layout : DetectedLayout) (libc_addr thread_tp var_offset : UInt64) :
    Except Error UInt64 :=
  match layout.tp_off_reloc_addr with
  | none => .ok 0
  | some reloc =>
    match mem.read_u64 (libc_addr + reloc) with
    | .error e => .error e
    | .ok libc_tp_offset => mem.read_u64 (thread_tp + libc_tp_offset + var_offset)

/-- A thread's `tcache_perthread_struct`, null when it has none yet. -/
def tcache_ptr (mem : MemReader) (layout : DetectedLayout) (libc_addr thread_tp : UInt64) : Except Error UInt64 :=
  read_tls_var mem layout libc_addr thread_tp layout.tcache.value

/-- A thread's current `thread_arena`, a `malloc_state` address. -/
def read_thread_arena (mem : MemReader) (layout : DetectedLayout) (libc_addr thread_tp : UInt64) :
    Except Error UInt64 :=
  read_tls_var mem layout libc_addr thread_tp layout.thread_arena.value

/-- One address of a tcache bin: the first owner wins, a repeat is reported. -/
def record_addr (thread_id : Int32) (bin : UInt32) (s : TcacheMembership × List Problem) (addr : UInt64) :
    TcacheMembership × List Problem :=
  match s.1[addr]? with
  | some _ => (s.1, s.2 ++ [.DuplicateTcacheEntry thread_id bin (hex addr)])
  | none => (s.1.insert addr (thread_id, bin), s.2)

/-- The slot of a tcache bin's head. -/
def headSlot (base entries_off word : UInt64) (bin : UInt32) : UInt64 := base + entries_off + bin.toUInt64 * word

/-- One bin of the loop of `collect_tcache`. -/
def collect_bin (mem : MemReader) (layout : DetectedLayout) (base entries_off word : UInt64) (thread_id : Int32)
    (s : TcacheMembership × List Problem) (bin : UInt32) : TcacheMembership × List Problem :=
  let head_addr := headSlot base entries_off word bin
  match mem.read_u64 head_addr with
  | .error _ => (s.1, s.2 ++ [.TcacheChunkReadFailed thread_id bin (hex head_addr)])
  | .ok head =>
    let walked := walk_tcache_bin mem layout head thread_id bin
    walked.1.user_addrs.foldl (record_addr thread_id bin) (s.1, s.2 ++ walked.2)

/-- Walk the bins of one thread's tcache into the shared map. -/
def collect_tcache (mem : MemReader) (layout : DetectedLayout) (base entries_off word : UInt64) (thread_id : Int32)
    (membership : TcacheMembership) (problems : List Problem) : TcacheMembership × List Problem :=
  (range_u32 layout.tcache_max_bins).foldl (collect_bin mem layout base entries_off word thread_id)
    (membership, problems)

structure TlsInfo where
  tcache_membership : TcacheMembership
  thread_arena_map : Std.TreeMap Int32 UInt64

/-- The arena of one thread in the map, and whether its read failed. -/
def resolve_arena (mem : MemReader) (layout : DetectedLayout) (libc_addr main_addr : UInt64) (thread : Thread)
    (thread_arena_map : Std.TreeMap Int32 UInt64) : Std.TreeMap Int32 UInt64 × Bool :=
  if layout.thread_arena.present then
    match read_thread_arena mem layout libc_addr thread.tp with
    | .ok addr => (thread_arena_map.insert thread.thread_id (if addr = 0 then main_addr else addr), false)
    | .error _ => (thread_arena_map, true)
  else (thread_arena_map, false)

/-- The tcache of one thread in the map, and whether its pointer could not be read. -/
def resolve_tcache (mem : MemReader) (layout : DetectedLayout) (libc_addr : UInt64) (thread : Thread)
    (s : TcacheMembership × List Problem) : (TcacheMembership × List Problem) × Bool :=
  if layout.capabilities.has_tcache then
    match tcache_ptr mem layout libc_addr thread.tp with
    | .ok base =>
      if base = 0 then (s, false)
      else
        (collect_tcache mem layout base layout.tcache_entries_offset.toUInt64 layout.word thread.thread_id s.1 s.2,
         false)
    | .error _ => (s, true)
  else (s, false)

/-- One thread of the loop of `resolve_tls`. -/
def resolve_thread (mem : MemReader) (layout : DetectedLayout) (libc_addr main_addr : UInt64)
    (s : TlsInfo × List Problem) (thread : Thread) : TlsInfo × List Problem :=
  if thread.tp = 0 then (s.1, s.2 ++ [.ThreadTlsResolutionFailed thread.thread_id])
  else
    let bound := resolve_arena mem layout libc_addr main_addr thread s.1.thread_arena_map
    let collected := resolve_tcache mem layout libc_addr thread (s.1.tcache_membership, s.2)
    (⟨collected.1.1, bound.1⟩,
     if bound.2 || collected.2 then collected.1.2 ++ [.ThreadTlsResolutionFailed thread.thread_id]
     else collected.1.2)

/-- Resolve each thread's TLS once, and add what goes wrong to the problems. -/
def resolve_tls (mem : MemReader) (layout : DetectedLayout) (libc_addr : UInt64) (arenas : List Arena)
    (threads : List Thread) (problems : List Problem) : TlsInfo × List Problem :=
  if layout.tp_off_reloc_addr = none then (⟨∅, ∅⟩, problems)
  else
    let main_addr := (arenas.head?.map Arena.malloc_state_addr).getD 0
    threads.foldl (resolve_thread mem layout libc_addr main_addr) (⟨∅, ∅⟩, problems)

/-- An address in a tcache bin with the thread and the bin it is in. -/
abbrev Entry := UInt64 × (Int32 × UInt32)

/-- The entries of one bin, none when its head slot cannot be read. -/
def binEntries (mem : MemReader) (layout : DetectedLayout) (base entries_off word : UInt64) (thread_id : Int32)
    (bin : UInt32) : List Entry :=
  match mem.read_u64 (headSlot base entries_off word bin) with
  | .error _ => []
  | .ok head => (walk_tcache_bin mem layout head thread_id bin).1.user_addrs.map fun addr => (addr, (thread_id, bin))

/-- The entries of one thread, none unless its tcache pointer resolves to non-zero. -/
def threadEntries (mem : MemReader) (layout : DetectedLayout) (libc_addr : UInt64) (thread : Thread) : List Entry :=
  if thread.tp = 0 then []
  else match tcache_ptr mem layout libc_addr thread.tp with
    | .error _ => []
    | .ok base =>
      if base = 0 then []
      else (range_u32 layout.tcache_max_bins).flatMap
        (binEntries mem layout base layout.tcache_entries_offset.toUInt64 layout.word thread.thread_id)

/-- The entries of all threads, in order. -/
def entriesOf (mem : MemReader) (layout : DetectedLayout) (libc_addr : UInt64) (threads : List Thread) : List Entry :=
  threads.flatMap (threadEntries mem layout libc_addr)

def isDuplicate : Problem → Bool
  | .DuplicateTcacheEntry _ _ _ => true
  | _ => false

/-- What is reported of a repeated entry, with its own owner. -/
def duplicateOf (entry : Entry) : Problem := .DuplicateTcacheEntry entry.2.1 entry.2.2 (hex entry.1)

/-- The map and the problems after some entries: the entries are placed, and the
    duplicates reported since the start are their repeats. -/
structure Placed (start : List Problem) (entries : List Entry) (s : TcacheMembership × List Problem) : Prop where
  membership : s.1 = (placeAll entries).1
  kept : start <+: s.2
  duplicates : s.2.filter isDuplicate = start.filter isDuplicate ++ (placeAll entries).2.map duplicateOf

section
variable {mem : MemReader} {layout : DetectedLayout} {start : List Problem} {entries : List Entry}
  {s : TcacheMembership × List Problem}

theorem placeAll_concat (entries : List Entry) (entry : Entry) :
    placeAll (entries ++ [entry]) = place (placeAll entries) entry := by
  rw [placeAll, List.foldl_append]
  rfl

/-- Problems of other kinds change nothing. -/
theorem Placed.report (placed : Placed start entries s) {new : List Problem}
    (other : ∀ problem ∈ new, isDuplicate problem = false) : Placed start entries (s.1, s.2 ++ new) := by
  have none : new.filter isDuplicate = [] :=
    List.filter_eq_nil_iff.mpr fun problem member => by simp [other problem member]
  refine ⟨placed.membership, placed.kept.trans (List.prefix_append _ _), ?_⟩
  rw [List.filter_append, none, List.append_nil]
  exact placed.duplicates

theorem Placed.reportOne (placed : Placed start entries s) (problem : Problem) (other : isDuplicate problem = false) :
    Placed start entries (s.1, s.2 ++ [problem]) :=
  placed.report fun _ member => List.mem_singleton.mp member ▸ other

theorem Placed.record (placed : Placed start entries s) (thread_id : Int32) (bin : UInt32) (addr : UInt64) :
    Placed start (entries ++ [(addr, (thread_id, bin))]) (record_addr thread_id bin s addr) := by
  have same := placed.membership
  have reported := placed.duplicates
  cases found : s.1[addr]? with
  | some owner =>
    have next : place (placeAll entries) (addr, (thread_id, bin)) =
        ((placeAll entries).1, (placeAll entries).2 ++ [(addr, (thread_id, bin))]) := by
      simp only [place, ← same, found]
    simp only [record_addr, found]
    refine ⟨?_, placed.kept.trans (List.prefix_append _ _), ?_⟩
    · rw [placeAll_concat, next, same]
    · rw [placeAll_concat, next, List.filter_append, reported, List.map_append, List.append_assoc]
      rfl
  | none =>
    have next : place (placeAll entries) (addr, (thread_id, bin)) =
        ((placeAll entries).1.insert addr (thread_id, bin), (placeAll entries).2) := by
      simp only [place, ← same, found]
    simp only [record_addr, found]
    refine ⟨?_, placed.kept, ?_⟩
    · rw [placeAll_concat, next, same]
    · rw [placeAll_concat, next]
      exact reported

/-- A loop each turn of which places its own part of the stream places the whole. -/
theorem Placed.foldl {ι : Type} (turn : TcacheMembership × List Problem → ι → TcacheMembership × List Problem)
    (part : ι → List Entry)
    (each : ∀ i {entries s}, Placed start entries s → Placed start (entries ++ part i) (turn s i))
    (is : List ι) (placed : Placed start entries s) :
    Placed start (entries ++ is.flatMap part) (is.foldl turn s) := by
  induction is generalizing entries s with
  | nil => simpa using placed
  | cons i is ih =>
    rw [List.flatMap_cons, ← List.append_assoc, List.foldl_cons]
    exact ih (each i placed)

/-- No walk of a tcache bin reports a duplicate. -/
theorem walk_tcache_bin_other (mem : MemReader) (layout : DetectedLayout) (head : UInt64) (thread_id : Int32)
    (bin : UInt32) : ∀ problem ∈ (walk_tcache_bin mem layout head thread_id bin).2, isDuplicate problem = false := by
  intro problem member
  by_cases null : head = 0
  · simp [walk_tcache_bin, null] at member
  · obtain ⟨nodes, _, decoded⟩ := (walk_tcache_bin_exact mem layout thread_id bin).decoded head null
    rcases decoded.explained with clean | ⟨last, _, failed⟩ | cycle
    · rw [clean] at member
      simp at member
    · rw [failed] at member
      rw [List.mem_singleton.mp member]
      rfl
    · rw [cycle] at member
      rw [List.mem_singleton.mp member]
      rfl

theorem Placed.bin (base entries_off word : UInt64) (thread_id : Int32) (bin : UInt32) (placed : Placed start entries s) :
    Placed start (entries ++ binEntries mem layout base entries_off word thread_id bin)
      (collect_bin mem layout base entries_off word thread_id s bin) := by
  cases read : mem.read_u64 (headSlot base entries_off word bin) with
  | error e =>
    simp only [collect_bin, binEntries, read, List.append_nil]
    exact placed.reportOne _ rfl
  | ok head =>
    have walked := placed.report (walk_tcache_bin_other mem layout head thread_id bin)
    have whole := walked.foldl (record_addr thread_id bin) (fun addr => [(addr, (thread_id, bin))])
      (fun addr _ _ before => before.record thread_id bin addr)
      (walk_tcache_bin mem layout head thread_id bin).1.user_addrs
    rw [← List.map_eq_flatMap] at whole
    simpa only [collect_bin, binEntries, read] using whole

theorem Placed.tcache (base entries_off word : UInt64) (thread_id : Int32) (placed : Placed start entries s) :
    Placed start
      (entries ++ (range_u32 layout.tcache_max_bins).flatMap (binEntries mem layout base entries_off word thread_id))
      (collect_tcache mem layout base entries_off word thread_id s.1 s.2) :=
  placed.foldl _ _ (fun bin _ _ before => before.bin base entries_off word thread_id bin) _

theorem Placed.thread (mem : MemReader) (libc_addr main_addr : UInt64) (thread : Thread) {info : TlsInfo} {problems : List Problem}
    (placed : Placed start entries (info.tcache_membership, problems)) (tcache : layout.capabilities.has_tcache = true) :
    Placed start (entries ++ threadEntries mem layout libc_addr thread)
      ((resolve_thread mem layout libc_addr main_addr (info, problems) thread).1.tcache_membership,
       (resolve_thread mem layout libc_addr main_addr (info, problems) thread).2) := by
  by_cases unset : thread.tp = 0
  · simp only [resolve_thread, threadEntries, unset, if_true, List.append_nil]
    exact placed.reportOne _ rfl
  have collected : Placed start (entries ++ threadEntries mem layout libc_addr thread)
      (resolve_tcache mem layout libc_addr thread (info.tcache_membership, problems)).1 := by
    simp only [resolve_tcache, threadEntries, tcache, if_true, unset, if_false]
    cases tcache_ptr mem layout libc_addr thread.tp with
    | error e => simpa only [List.append_nil] using placed
    | ok base =>
      by_cases null : base = 0
      · simpa only [null, if_true, List.append_nil] using placed
      · simpa only [null, if_false] using
          placed.tcache base layout.tcache_entries_offset.toUInt64 layout.word thread.thread_id
  simp only [resolve_thread, unset, if_false]
  split
  · exact collected.reportOne _ rfl
  · exact collected

private theorem entriesOf_concat (mem : MemReader) (layout : DetectedLayout) (libc_addr : UInt64) (threads : List Thread)
    (thread : Thread) : entriesOf mem layout libc_addr (threads ++ [thread]) =
      entriesOf mem layout libc_addr threads ++ threadEntries mem layout libc_addr thread := by
  simp [entriesOf]

private theorem resolve_tls_placed (mem : MemReader) (layout : DetectedLayout) (libc_addr : UInt64) (arenas : List Arena)
    (threads : List Thread) (problems : List Problem) (reloc : layout.tp_off_reloc_addr ≠ none)
    (tcache : layout.capabilities.has_tcache = true) :
    Placed problems (entriesOf mem layout libc_addr threads)
      ((resolve_tls mem layout libc_addr arenas threads problems).1.tcache_membership,
       (resolve_tls mem layout libc_addr arenas threads problems).2) := by
  simp only [resolve_tls, reloc, if_false]
  induction threads using List.reverseRecOn with
  | nil => exact ⟨rfl, List.prefix_rfl, by simp [placeAll, entriesOf]⟩
  | append_singleton threads thread ih =>
    have next := ih.thread mem libc_addr ((arenas.head?.map Arena.malloc_state_addr).getD 0) thread tcache
    rw [List.foldl_append, entriesOf_concat]
    exact next

end

private theorem entriesOf_unrelocated {mem : MemReader} {layout : DetectedLayout} (libc_addr : UInt64)
    (threads : List Thread)
    (missing : layout.tp_off_reloc_addr = none) : entriesOf mem layout libc_addr threads = [] := by
  refine List.flatMap_eq_nil_iff.mpr fun thread _ => ?_
  simp only [threadEntries, tcache_ptr, read_tls_var, missing, if_true, ite_self]

private theorem resolve_tls_without_tcache {mem : MemReader} {layout : DetectedLayout} (libc_addr : UInt64)
    (arenas : List Arena) (threads : List Thread) (problems : List Problem)
    (without : layout.capabilities.has_tcache = false) :
    (resolve_tls mem layout libc_addr arenas threads problems).1.tcache_membership = ∅ := by
  by_cases missing : layout.tp_off_reloc_addr = none
  · simp only [resolve_tls, missing, if_true]
  simp only [resolve_tls, missing, if_false]
  induction threads using List.reverseRecOn with
  | nil => rfl
  | append_singleton threads thread ih =>
    rw [List.foldl_append]
    generalize threads.foldl _ _ = before at ih
    by_cases unset : thread.tp = 0
    · simpa only [List.foldl_cons, List.foldl_nil, resolve_thread, unset, if_true] using ih
    · simpa only [List.foldl_cons, List.foldl_nil, resolve_thread, unset, if_false, resolve_tcache, without,
        Bool.false_eq_true] using ih

/-- Which addresses are in a tcache, on any target. -/
theorem resolve_tls_owned (mem : MemReader) (layout : DetectedLayout) (libc_addr : UInt64) (arenas : List Arena)
    (threads : List Thread) (problems : List Problem) (addr : UInt64) :
    ((resolve_tls mem layout libc_addr arenas threads problems).1.tcache_membership[addr]?).isSome =
      (layout.capabilities.has_tcache && decide (addr ∈ (entriesOf mem layout libc_addr threads).map Prod.fst)) := by
  cases tcache : layout.capabilities.has_tcache with
  | false => simp [resolve_tls_without_tcache libc_addr arenas threads problems tcache]
  | true =>
    by_cases missing : layout.tp_off_reloc_addr = none
    · simp [resolve_tls, missing, entriesOf_unrelocated libc_addr threads missing]
    · have same : (resolve_tls mem layout libc_addr arenas threads problems).1.tcache_membership =
          (placeAll (entriesOf mem layout libc_addr threads)).1 :=
        (resolve_tls_placed mem layout libc_addr arenas threads problems missing tcache).membership
      rw [same, (placeAll_spec _).1 addr, Bool.eq_iff_iff, Option.isSome_iff_ne_none, ne_eq, firstOf_eq_none, not_not]
      simp

/-! ## First owners -/

/-- The map has the addresses of the stream, each with its first owner, and the
    duplicates reported are the other occurrences, in order, each as its own. -/
structure FirstOwnerWins (entries : List Entry) (start : List Problem) (run : TlsInfo × List Problem) : Prop where
  keys : ∀ addr, addr ∈ run.1.tcache_membership ↔ ∃ entry ∈ entries, entry.1 = addr
  owner : ∀ addr, run.1.tcache_membership[addr]? = firstOf entries addr
  kept : start <+: run.2
  duplicates : run.2.filter isDuplicate = start.filter isDuplicate ++ (repeats entries).map duplicateOf

/-- Two runs that disagree at most about who owns a tcache entry tally alike. -/
structure SameTotals (a b : TcacheMembership) : Prop where
  keys : ∀ addr, addr ∈ a ↔ addr ∈ b
  allocated : ∀ layout arena_index events fastbins,
    (accumulate layout arena_index events a fastbins).1.allocated =
      (accumulate layout arena_index events b fastbins).1.allocated
  free : ∀ layout arena_index events fastbins,
    (accumulate layout arena_index events a fastbins).1.free.tally =
      (accumulate layout arena_index events b fastbins).1.free.tally

/-- The totals depend only on which addresses are in a tcache bin. -/
theorem sameTotals_of_keys {a b : TcacheMembership} (keys : ∀ addr, addr ∈ a ↔ addr ∈ b) : SameTotals a b := by
  have present (addr : UInt64) : (a[addr]?).isSome = (b[addr]?).isSome := by
    rw [Bool.eq_iff_iff, ← Std.TreeMap.mem_iff_isSome_getElem?, ← Std.TreeMap.mem_iff_isSome_getElem?]
    exact keys addr
  have same (events : List ChunkEvent) :=
    classify_congr present events (s := ⟨default, default, ∅, ∅⟩) (t := ⟨default, default, ∅, ∅⟩) rfl rfl
  refine ⟨keys, ?_, ?_⟩
  · intro layout arena_index events fastbins
    simp only [accumulate, (same events).1, (same events).2]
  · intro layout arena_index events fastbins
    simp only [accumulate, (same events).1, (same events).2]

/-- Tcache membership loses no entry and the first owner wins; so the threads in
    another order give the same addresses and the same totals of every arena. -/
theorem tcache_membership_first_owner (mem : MemReader) (layout : DetectedLayout) (libc_addr : UInt64)
    (arenas : List Arena) (threads : List Thread) (problems : List Problem)
    (reloc : layout.tp_off_reloc_addr ≠ none) (tcache : layout.capabilities.has_tcache = true) :
    FirstOwnerWins (entriesOf mem layout libc_addr threads) problems
      (resolve_tls mem layout libc_addr arenas threads problems) ∧
    ∀ others, threads.Perm others →
      SameTotals (resolve_tls mem layout libc_addr arenas threads problems).1.tcache_membership
        (resolve_tls mem layout libc_addr arenas others problems).1.tcache_membership := by
  have wins (threads : List Thread) : FirstOwnerWins (entriesOf mem layout libc_addr threads) problems
      (resolve_tls mem layout libc_addr arenas threads problems) := by
    have placed := resolve_tls_placed mem layout libc_addr arenas threads problems reloc tcache
    obtain ⟨owners, others⟩ := placeAll_spec (entriesOf mem layout libc_addr threads)
    have owner (addr : UInt64) :
        (resolve_tls mem layout libc_addr arenas threads problems).1.tcache_membership[addr]? =
          firstOf (entriesOf mem layout libc_addr threads) addr := by
      have same : (resolve_tls mem layout libc_addr arenas threads problems).1.tcache_membership =
          (placeAll (entriesOf mem layout libc_addr threads)).1 := placed.membership
      rw [same]
      exact owners addr
    refine ⟨?_, owner, placed.kept, ?_⟩
    · intro addr
      rw [Std.TreeMap.mem_iff_isSome_getElem?, owner addr, Option.isSome_iff_ne_none, ne_eq, firstOf_eq_none, not_not,
        List.mem_map]
    · rw [← others]
      exact placed.duplicates
  refine ⟨wins threads, ?_⟩
  intro others perm
  apply sameTotals_of_keys
  intro addr
  rw [(wins threads).keys addr, (wins others).keys addr]
  have entries := perm.flatMap_right (threadEntries mem layout libc_addr)
  exact exists_congr fun entry => and_congr_left fun _ => entries.mem_iff

/-- Two threads whose tcaches, of one bin each, hold the same entry. -/
def shared_entry : MemReader :=
  fake_mem [(0x400000, 0x40), (0x7040, 0x8000), (0x9040, 0xa000), (0x8080, 0x1010), (0xa080, 0x1010), (0x1010, 0x0)] []

def one_bin : DetectedLayout := { test_layout 8 with tcache_max_bins := 1 }

theorem tcache_membership_first_owner_shared_entry :
    FirstOwnerWins (entriesOf shared_entry one_bin 0x400000 [⟨7, 0x7000⟩, ⟨8, 0x9000⟩]) []
      (resolve_tls shared_entry one_bin 0x400000 [⟨0x401000, 0⟩] [⟨7, 0x7000⟩, ⟨8, 0x9000⟩] []) ∧
    (resolve_tls shared_entry one_bin 0x400000 [⟨0x401000, 0⟩] [⟨7, 0x7000⟩, ⟨8, 0x9000⟩] []).2.filter isDuplicate =
      [.DuplicateTcacheEntry 8 0 "0x1010"] :=
  ⟨(tcache_membership_first_owner shared_entry one_bin 0x400000 [⟨0x401000, 0⟩] [⟨7, 0x7000⟩, ⟨8, 0x9000⟩] []
    (by decide) rfl).1, by decide⟩

end HeapAnalyser.Tls
