import HeapAnalyser.Layout
import HeapAnalyser.Chase

/-!
The free-list walkers (`heap/fastbin.rs`, `heap/tcache.rs`). Both follow a
singly linked list whose links are, with safe-linking, stored XORed with the
address they are stored at, shifted right by 12; a fastbin's link is two words
into the chunk, a tcache entry's at the entry itself. The two loops are written
separately and are the same chase (`fastbin_from_eq`, `tcache_from_eq`), so they
follow one law (`Decoded`).
-/
namespace HeapAnalyser.FreeList
open Chase

/-- Traversal cap of both walkers. -/
def MAX_CHAIN : Nat := 10000

/-- Nominal payload size of chunks in fastbin `i`. -/
def fastbin_index_to_size (layout : DetectedLayout) (i : UInt32) : UInt64 :=
  layout.minsize.toUInt64 - layout.header_size.toUInt64 + i.toUInt64 * layout.malloc_alignment.toUInt64

def tcache_index_to_size (layout : DetectedLayout) (i : UInt32) : UInt64 := fastbin_index_to_size layout i

/-- Undo safe-linking for a pointer stored at `location`. -/
def reveal (layout : DetectedLayout) (location stored : UInt64) : UInt64 :=
  if layout.capabilities.has_safe_linking then (location >>> 12) ^^^ stored else stored

structure FastbinBinResult where
  index : UInt32
  size : UInt64
  count : UInt64
  deriving Repr, DecidableEq

/-- The loop of `walk_fastbin`; the first argument is `MAX_CHAIN - visited.len()`. -/
def fastbin_from (mem : MemReader) (layout : DetectedLayout) (arena_index bin_index : UInt32) :
    Nat → List UInt64 → UInt64 → UInt64 → UInt64 × List Problem
  | 0, _, _, count => (count, [.FastbinCycleDetected arena_index bin_index])
  | remaining + 1, visited, current, count =>
    if current ∈ visited then (count, [.FastbinCycleDetected arena_index bin_index])
    else
      let fd_slot := current + 2 * layout.word
      match mem.read_u64 fd_slot with
      | .error _ => (count + 1, [.FastbinChunkReadFailed arena_index bin_index (hex fd_slot)])
      | .ok stored =>
        let next := reveal layout fd_slot stored
        if next = 0 then (count + 1, [])
        else fastbin_from mem layout arena_index bin_index remaining (current :: visited) next (count + 1)

/-- Walk one fastbin from `head`, a chunk pointer. -/
def walk_fastbin (mem : MemReader) (layout : DetectedLayout) (head : UInt64) (arena_index bin_index : UInt32) :
    FastbinBinResult × List Problem :=
  if head = 0 then (⟨bin_index, fastbin_index_to_size layout bin_index, 0⟩, [])
  else
    let walked := fastbin_from mem layout arena_index bin_index MAX_CHAIN [] head 0
    (⟨bin_index, fastbin_index_to_size layout bin_index, walked.1⟩, walked.2)

structure TcacheBinResult where
  index : UInt32
  size : UInt64
  user_addrs : List UInt64
  deriving Repr, DecidableEq

/-- The loop of `walk_tcache_bin`; the first argument is `MAX_CHAIN - visited.len()`. -/
def tcache_from (mem : MemReader) (layout : DetectedLayout) (thread_id : Int32) (bin_index : UInt32) :
    Nat → List UInt64 → UInt64 → List UInt64 → List UInt64 × List Problem
  | 0, _, _, user_addrs => (user_addrs, [.TcacheCycleDetected thread_id bin_index])
  | remaining + 1, visited, cur, user_addrs =>
    if cur ∈ visited then (user_addrs, [.TcacheCycleDetected thread_id bin_index])
    else match mem.read_u64 cur with
      | .error _ => (user_addrs ++ [cur], [.TcacheChunkReadFailed thread_id bin_index (hex cur)])
      | .ok stored =>
        let next := reveal layout cur stored
        if next = 0 then (user_addrs ++ [cur], [])
        else tcache_from mem layout thread_id bin_index remaining (cur :: visited) next (user_addrs ++ [cur])

/-- Walk one tcache bin from `head`, a user address. -/
def walk_tcache_bin (mem : MemReader) (layout : DetectedLayout) (head : UInt64) (thread_id : Int32)
    (bin_index : UInt32) : TcacheBinResult × List Problem :=
  if head = 0 then (⟨bin_index, tcache_index_to_size layout bin_index, []⟩, [])
  else
    let walked := tcache_from mem layout thread_id bin_index MAX_CHAIN [] head []
    (⟨bin_index, tcache_index_to_size layout bin_index, walked.1⟩, walked.2)

/-- Where a fastbin chunk stores its link. -/
def fastbinSlot (layout : DetectedLayout) (node : UInt64) : UInt64 := node + 2 * layout.word

/-- Where a tcache entry stores its link. -/
def tcacheSlot (node : UInt64) : UInt64 := node

/-- The node after `node`: the link stored at its slot, revealed. -/
def nodeAfter (mem : MemReader) (layout : DetectedLayout) (slot : UInt64 → UInt64) (node : UInt64) : Option UInt64 :=
  match mem.read_u64 (slot node) with
  | .ok stored => some (reveal layout (slot node) stored)
  | .error _ => none

/-- A null link ends a list. -/
def isNull (node : UInt64) : Bool := node = 0

/-- What a walker reports for an ending. -/
def problemsOf (readFailed : UInt64 → Problem) (cycle : Problem) (slot : UInt64 → UInt64) : Ending UInt64 → List Problem
  | .done => []
  | .broken last => [readFailed (slot last)]
  | .looped => [cycle]

private theorem ofNat_succ (n : Nat) : UInt64.ofNat (n + 1) = 1 + UInt64.ofNat n := by
  rw [Nat.add_comm, UInt64.ofNat_add]
  rfl

section
variable (mem : MemReader) (layout : DetectedLayout)

theorem fastbin_from_eq (arena_index bin_index : UInt32) (remaining : Nat) (visited : List UInt64)
    (current count : UInt64) :
    fastbin_from mem layout arena_index bin_index remaining visited current count =
      let run := chase (nodeAfter mem layout (fastbinSlot layout)) isNull remaining visited current
      (count + UInt64.ofNat run.1.length,
       problemsOf (fun slot => .FastbinChunkReadFailed arena_index bin_index (hex slot))
         (.FastbinCycleDetected arena_index bin_index) (fastbinSlot layout) run.2) := by
  induction remaining generalizing visited current count with
  | zero => simp [fastbin_from, chase, problemsOf]
  | succ remaining ih =>
    by_cases seen : current ∈ visited
    · simp [fastbin_from, chase, seen, problemsOf]
    cases read : mem.read_u64 (current + 2 * layout.word) with
    | error e => simp [fastbin_from, chase, seen, nodeAfter, fastbinSlot, read, problemsOf]
    | ok stored =>
      by_cases last : reveal layout (current + 2 * layout.word) stored = 0
      · simp [fastbin_from, chase, seen, nodeAfter, fastbinSlot, read, last, isNull, problemsOf]
      · have tail := ih (current :: visited) (reveal layout (current + 2 * layout.word) stored) (count + 1)
        simp only [fastbin_from, chase, seen, nodeAfter, fastbinSlot, read, last, isNull, if_false, decide_false,
          Bool.false_eq_true, tail, List.length_cons]
        rw [ofNat_succ, ← UInt64.add_assoc]

theorem tcache_from_eq (thread_id : Int32) (bin_index : UInt32) (remaining : Nat) (visited : List UInt64)
    (cur : UInt64) (user_addrs : List UInt64) :
    tcache_from mem layout thread_id bin_index remaining visited cur user_addrs =
      let run := chase (nodeAfter mem layout tcacheSlot) isNull remaining visited cur
      (user_addrs ++ run.1,
       problemsOf (fun slot => .TcacheChunkReadFailed thread_id bin_index (hex slot))
         (.TcacheCycleDetected thread_id bin_index) tcacheSlot run.2) := by
  induction remaining generalizing visited cur user_addrs with
  | zero => simp [tcache_from, chase, problemsOf]
  | succ remaining ih =>
    by_cases seen : cur ∈ visited
    · simp [tcache_from, chase, seen, problemsOf]
    cases read : mem.read_u64 cur with
    | error e => simp [tcache_from, chase, seen, nodeAfter, tcacheSlot, read, problemsOf]
    | ok stored =>
      by_cases last : reveal layout cur stored = 0
      · simp [tcache_from, chase, seen, nodeAfter, tcacheSlot, read, last, isNull, problemsOf]
      · have tail := ih (cur :: visited) (reveal layout cur stored) (user_addrs ++ [cur])
        simp only [tcache_from, chase, seen, nodeAfter, tcacheSlot, read, last, isNull, if_false, decide_false,
          Bool.false_eq_true, tail, List.append_assoc, List.singleton_append]

end

/-- The memory answers a read of the node's slot. -/
def Readable (mem : MemReader) (slot : UInt64 → UInt64) (node : UInt64) : Prop :=
  ∃ stored, mem.read_u64 (slot node) = .ok stored

/-- `nodes` are the first members of the chain from `head`, distinct, and the
    problems say which of the three stops ended it. -/
structure Decoded (mem : MemReader) (layout : DetectedLayout) (slot : UInt64 → UInt64)
    (readFailed : UInt64 → Problem) (cycle : Problem) (head : UInt64) (nodes : List UInt64)
    (problems : List Problem) : Prop where
  nonempty : 1 ≤ nodes.length
  capped : nodes.length ≤ MAX_CHAIN
  distinct : nodes.Nodup
  members : ∀ k (inside : k < nodes.length), follow (nodeAfter mem layout slot) head k = some nodes[k]
  complete : problems = [] ↔ (∀ node ∈ nodes, Readable mem slot node) ∧
    follow (nodeAfter mem layout slot) head nodes.length = some 0
  unreadable : ∀ last ∈ nodes.getLast?, problems = [readFailed (slot last)] ↔
    (∀ node ∈ nodes.dropLast, Readable mem slot node) ∧ ¬ Readable mem slot last
  repeated : problems = [cycle] ↔ (∀ node ∈ nodes, Readable mem slot node) ∧
    ∃ next, follow (nodeAfter mem layout slot) head nodes.length = some next ∧ next ≠ 0 ∧
      (next ∈ nodes ∨ nodes.length = MAX_CHAIN)
  explained : problems = [] ∨ (∃ last ∈ nodes.getLast?, problems = [readFailed (slot last)]) ∨ problems = [cycle]

/-- How glibc's `PROTECT_PTR` stores a link at `location`. -/
def protect (layout : DetectedLayout) (location ptr : UInt64) : UInt64 :=
  if layout.capabilities.has_safe_linking then (location >>> 12) ^^^ ptr else ptr

@[simp] theorem reveal_protect (layout : DetectedLayout) (location ptr : UInt64) :
    reveal layout location (protect layout location ptr) = ptr := by
  unfold reveal protect
  split
  · rw [← UInt64.xor_assoc, UInt64.xor_self, UInt64.zero_xor]
  · rfl

/-- Each node's slot stores the protected link to the next node, the last one's a null. -/
def Stored (mem : MemReader) (layout : DetectedLayout) (slot : UInt64 → UInt64) : List UInt64 → Prop
  | [] => True
  | node :: rest =>
    mem.read_u64 (slot node) = .ok (protect layout (slot node) (rest.headD 0)) ∧ Stored mem layout slot rest

/-- What a free-list walker does, whatever its result looks like: `shows` tells
    which nodes a result stands for. -/
structure WalksExactly {ρ : Type} (mem : MemReader) (layout : DetectedLayout) (slot : UInt64 → UInt64)
    (readFailed : UInt64 → Problem) (cycle : Problem) (shows : ρ → List UInt64 → Prop)
    (walk : UInt64 → ρ × List Problem) : Prop where
  empty : shows (walk 0).1 [] ∧ (walk 0).2 = []
  decoded : ∀ head, head ≠ 0 → ∃ nodes, shows (walk head).1 nodes ∧
    Decoded mem layout slot readFailed cycle head nodes (walk head).2
  recovers : ∀ node rest, (node :: rest).length ≤ MAX_CHAIN → (node :: rest).Nodup →
    (∀ a ∈ node :: rest, a ≠ 0) → Stored mem layout slot (node :: rest) →
    shows (walk node).1 (node :: rest) ∧ (walk node).2 = []

section
variable {mem : MemReader} {layout : DetectedLayout} {slot : UInt64 → UInt64}

private theorem isSome_nodeAfter {node : UInt64} : (nodeAfter mem layout slot node).isSome ↔ Readable mem slot node := by
  unfold nodeAfter Readable
  cases mem.read_u64 (slot node) with
  | ok stored => simp
  | error e => simp

/-- All nodes of a chase but the last are readable, and the last one is where
    the chain goes on. -/
private theorem chase_readable {remaining : Nat} {head last : UInt64} {nodes : List UInt64} {ending : Ending UInt64}
    (law : Law (nodeAfter mem layout slot) isNull remaining [] head nodes ending)
    (isLast : nodes.getLast? = some last) :
    (∀ node ∈ nodes.dropLast, Readable mem slot node) ∧
    (Readable mem slot last ↔ (follow (nodeAfter mem layout slot) head nodes.length).isSome) ∧
    ((∀ node ∈ nodes, Readable mem slot node) ↔
      (follow (nodeAfter mem layout slot) head nodes.length).isSome) := by
  have front : ∀ node ∈ nodes.dropLast, Readable mem slot node := fun node member =>
    isSome_nodeAfter.mp (law.front_linked node member)
  have goesOn : Readable mem slot last ↔ (follow (nodeAfter mem layout slot) head nodes.length).isSome := by
    rw [law.after_last isLast, isSome_nodeAfter]
  refine ⟨front, goesOn, ?_⟩
  constructor
  · intro all
    exact goesOn.mp (all last (List.mem_of_getLast? isLast))
  intro next node member
  obtain ⟨before, rfl⟩ := List.getLast?_eq_some_iff.mp isLast
  rcases List.mem_append.mp member with early | single
  · exact front node (by simpa using early)
  · exact List.mem_singleton.mp single ▸ goesOn.mpr next

/-- A lawful chase decodes the chain, whatever its ending. -/
private theorem law_decoded (readFailed : UInt64 → Problem) (cycle : Problem) (differ : ∀ a, readFailed a ≠ cycle)
    {head : UInt64} {nodes : List UInt64} {ending : Ending UInt64} (nonempty : 1 ≤ nodes.length)
    (law : Law (nodeAfter mem layout slot) isNull MAX_CHAIN [] head nodes ending) :
    Decoded mem layout slot readFailed cycle head nodes (problemsOf readFailed cycle slot ending) := by
  obtain ⟨last, isLast⟩ : ∃ last, nodes.getLast? = some last := by
    cases found : nodes.getLast? with
    | none => simp [List.getLast?_eq_none_iff.mp found] at nonempty
    | some last => exact ⟨last, rfl⟩
  obtain ⟨front, goesOn, whole⟩ := chase_readable law isLast
  have only (node : UInt64) (isNode : node ∈ nodes.getLast?) : node = last :=
    Option.some.inj (isNode.symm.trans isLast)
  have explained := law.explained
  cases ending with
  | done =>
    obtain ⟨next, follows, null⟩ := explained
    obtain rfl : next = 0 := by simpa [isNull] using null
    refine ⟨nonempty, law.capped, law.distinct, law.members, ?_, ?_, ?_, .inl rfl⟩
    · simp [problemsOf, whole, follows]
    · intro node isNode
      simp [only node isNode, problemsOf, goesOn, follows]
    · simp [problemsOf, follows]
  | broken node =>
    obtain ⟨isNode, ends⟩ := explained
    obtain rfl := only node isNode
    refine ⟨nonempty, law.capped, law.distinct, law.members, ?_, ?_, ?_, .inr (.inl ⟨node, isNode, rfl⟩)⟩
    · simp [problemsOf, ends]
    · intro other isOther
      simpa [only other isOther, problemsOf, goesOn, ends] using front
    · simp [problemsOf, differ, ends]
  | looped =>
    obtain ⟨next, follows, running, why⟩ := explained
    have notNull : next ≠ 0 := by
      have := running (List.ne_nil_of_length_pos nonempty)
      simpa [isNull] using this
    refine ⟨nonempty, law.capped, law.distinct, law.members, ?_, ?_, ?_, .inr (.inr rfl)⟩
    · simp [problemsOf, follows, notNull]
    · intro node isNode
      simp [only node isNode, problemsOf, (differ _).symm, goesOn, follows]
    · have again : next ∈ nodes ∨ nodes.length = MAX_CHAIN := why.resolve_left (by simp)
      simp [problemsOf, whole, follows, notNull, again]

private theorem chase_decoded (mem : MemReader) (layout : DetectedLayout) (slot : UInt64 → UInt64)
    (readFailed : UInt64 → Problem) (cycle : Problem) (differ : ∀ a, readFailed a ≠ cycle) (head : UInt64) :
    Decoded mem layout slot readFailed cycle head (chase (nodeAfter mem layout slot) isNull MAX_CHAIN [] head).1
      (problemsOf readFailed cycle slot (chase (nodeAfter mem layout slot) isNull MAX_CHAIN [] head).2) :=
  law_decoded readFailed cycle differ (chase_nonempty 9999 (by simp))
    (chase_law (nodeAfter mem layout slot) isNull MAX_CHAIN [] head)

/-- Nodes stored with protected links are linked, and the last one's link is null. -/
private theorem linked_of_stored {node : UInt64} {rest : List UInt64} (nonzero : ∀ a ∈ node :: rest, a ≠ 0)
    (stored : Stored mem layout slot (node :: rest)) : Linked (nodeAfter mem layout slot) isNull (node :: rest) := by
  induction rest generalizing node with
  | nil => exact ⟨0, by simp [nodeAfter, stored.1], rfl⟩
  | cons next rest ih =>
    obtain ⟨read, later⟩ := stored
    refine ⟨by simp [nodeAfter, read], ?_, ih (fun a member => nonzero a (by simp [member])) later⟩
    simpa [isNull] using nonzero next (by simp)

theorem chase_stored (readFailed : UInt64 → Problem) (cycle : Problem) {node : UInt64} {rest : List UInt64}
    (room : (node :: rest).length ≤ MAX_CHAIN) (distinct : (node :: rest).Nodup)
    (nonzero : ∀ a ∈ node :: rest, a ≠ 0) (stored : Stored mem layout slot (node :: rest)) :
    (chase (nodeAfter mem layout slot) isNull MAX_CHAIN [] node).1 = node :: rest ∧
    problemsOf readFailed cycle slot (chase (nodeAfter mem layout slot) isNull MAX_CHAIN [] node).2 = [] := by
  rw [chase_complete MAX_CHAIN [] node rest room distinct (by simp) (linked_of_stored nonzero stored)]
  exact ⟨rfl, rfl⟩

end

private theorem walk_fastbin_exact (mem : MemReader) (layout : DetectedLayout) (arena_index bin_index : UInt32) :
    WalksExactly mem layout (fastbinSlot layout)
      (fun slot => .FastbinChunkReadFailed arena_index bin_index (hex slot))
      (.FastbinCycleDetected arena_index bin_index)
      (fun result nodes => result.count.toNat = nodes.length)
      (fun head => walk_fastbin mem layout head arena_index bin_index) := by
  have counted (nodes : List UInt64) (capped : nodes.length ≤ MAX_CHAIN) :
      (0 + UInt64.ofNat nodes.length).toNat = nodes.length := by
    rw [UInt64.zero_add]
    exact Machine.ofNat_toNat (lt_of_le_of_lt capped (by decide))
  refine ⟨by simp [walk_fastbin], ?_, ?_⟩
  · intro head nonzero
    have decoded := chase_decoded mem layout (fastbinSlot layout)
      (fun slot => .FastbinChunkReadFailed arena_index bin_index (hex slot))
      (.FastbinCycleDetected arena_index bin_index) (by simp) head
    simp only [walk_fastbin, if_neg nonzero, fastbin_from_eq]
    exact ⟨_, counted _ decoded.capped, decoded⟩
  · intro node rest room distinct nonzero stored
    obtain ⟨all, clean⟩ := chase_stored (fun slot => .FastbinChunkReadFailed arena_index bin_index (hex slot))
      (.FastbinCycleDetected arena_index bin_index) room distinct nonzero stored
    simp only [walk_fastbin, if_neg (nonzero node (by simp)), fastbin_from_eq, all, clean]
    exact ⟨counted _ room, trivial⟩

theorem walk_tcache_bin_exact (mem : MemReader) (layout : DetectedLayout) (thread_id : Int32) (bin_index : UInt32) :
    WalksExactly mem layout tcacheSlot
      (fun slot => .TcacheChunkReadFailed thread_id bin_index (hex slot))
      (.TcacheCycleDetected thread_id bin_index)
      (fun result nodes => result.user_addrs = nodes)
      (fun head => walk_tcache_bin mem layout head thread_id bin_index) := by
  refine ⟨by simp [walk_tcache_bin], ?_, ?_⟩
  · intro head nonzero
    have decoded := chase_decoded mem layout tcacheSlot
      (fun slot => .TcacheChunkReadFailed thread_id bin_index (hex slot))
      (.TcacheCycleDetected thread_id bin_index) (by simp) head
    simp only [walk_tcache_bin, if_neg nonzero, tcache_from_eq, List.nil_append]
    exact ⟨_, rfl, decoded⟩
  · intro node rest room distinct nonzero stored
    obtain ⟨all, clean⟩ := chase_stored (fun slot => .TcacheChunkReadFailed thread_id bin_index (hex slot))
      (.TcacheCycleDetected thread_id bin_index) room distinct nonzero stored
    simp only [walk_tcache_bin, if_neg (nonzero node (by simp)), tcache_from_eq, all, clean]
    exact ⟨rfl, trivial⟩

/-- Both walkers decode every chain exactly and explain every stop, on any
    memory, with safe-linking on or off. -/
theorem free_lists_decoded (mem : MemReader) (layout : DetectedLayout) (arena_index bin_index : UInt32)
    (thread_id : Int32) :
    WalksExactly mem layout (fastbinSlot layout)
      (fun slot => .FastbinChunkReadFailed arena_index bin_index (hex slot))
      (.FastbinCycleDetected arena_index bin_index)
      (fun result nodes => result.count.toNat = nodes.length)
      (fun head => walk_fastbin mem layout head arena_index bin_index) ∧
    WalksExactly mem layout tcacheSlot
      (fun slot => .TcacheChunkReadFailed thread_id bin_index (hex slot))
      (.TcacheCycleDetected thread_id bin_index)
      (fun result nodes => result.user_addrs = nodes)
      (fun head => walk_tcache_bin mem layout head thread_id bin_index) :=
  ⟨walk_fastbin_exact mem layout arena_index bin_index, walk_tcache_bin_exact mem layout thread_id bin_index⟩

/-- A 64-bit target with safe-linking, and two tcache entries on it. -/
def safe_linked : DetectedLayout := { test_layout 8 with capabilities := ⟨true, true⟩ }
def two_entries : MemReader := fake_mem [(0x1010, 0x2011), (0x2010, 0x2)] []

theorem free_lists_decoded_two_entries :
    (walk_tcache_bin two_entries safe_linked 0x1010 7 0).1.user_addrs = [0x1010, 0x2010] ∧
    (walk_tcache_bin two_entries safe_linked 0x1010 7 0).2 = [] :=
  (free_lists_decoded two_entries safe_linked 0 0 7).2.recovers 0x1010 [0x2010] (by simp [MAX_CHAIN]) (by simp)
    (by simp) ⟨rfl, rfl, trivial⟩

end HeapAnalyser.FreeList
