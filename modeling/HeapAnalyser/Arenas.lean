import HeapAnalyser.Layout
import HeapAnalyser.Chase

/-!
Enumerating arenas by following `malloc_state.next` from `main_arena`
(`heap/arena.rs`). `list_from` is the loop; on a ring of distinct arenas it
lists the rest of the ring and then needs one turn more to see the link back to
`main_arena` (`list_from_ring`). A ring of `MAX_ARENAS` arenas leaves no such
turn: it is listed in full and reported all the same
(`arena_ring_clean_iff`).
-/
namespace HeapAnalyser.Arenas

/-- Defensive ceiling on the number of arenas. -/
def MAX_ARENAS : Nat := 1024

structure Arena where
  malloc_state_addr : UInt64
  index : UInt32
  deriving Repr, DecidableEq

def Arena.is_main (arena : Arena) : Bool := arena.index = 0

/-- Where an arena's `malloc_state` keeps its `next`. -/
def nextField (layout : DetectedLayout) (addr : UInt64) : UInt64 := addr + layout.malloc_state_next_offset.toUInt64

def mainAddr (layout : DetectedLayout) (libc_addr : UInt64) : UInt64 := libc_addr + layout.main_arena.value

/-- The loop of `list`; the first argument is `MAX_ARENAS - index`. -/
def list_from (mem : MemReader) (layout : DetectedLayout) (main_addr : UInt64) :
    Nat → List UInt64 → UInt64 → UInt32 → List Arena × List Problem
  | 0, _, _, index => ([], [.HeapWalkTruncated index "arena list did not cycle back within limit"])
  | remaining + 1, visited, current, index =>
    match mem.read_u64 (nextField layout current) with
    | .error _ => ([], [.HeapWalkTruncated index "next pointer unreadable"])
    | .ok next =>
      if next = main_addr ∨ next = 0 then ([], [])
      else if next ∈ visited then ([], [.HeapWalkTruncated index "arena next pointer forms a mid-chain cycle"])
      else match mem.read_u64 (nextField layout next) with
        | .error _ => ([], [.HeapWalkTruncated index "next arena malloc_state unreadable"])
        | .ok _ =>
          let rest := list_from mem layout main_addr remaining (next :: visited) next (index + 1)
          (⟨next, index⟩ :: rest.1, rest.2)

/-- List every arena, the main arena first. -/
def list (mem : MemReader) (layout : DetectedLayout) (libc_addr : UInt64) :
    Except Error (List Arena × List Problem) :=
  let main_addr := mainAddr layout libc_addr
  match mem.read_u64 (main_addr + layout.malloc_state_top_offset.toUInt64) with
  | .error e => .error e
  | .ok _ =>
    let rest := list_from mem layout main_addr (MAX_ARENAS - 1) [main_addr] main_addr 1
    .ok (⟨main_addr, 0⟩ :: rest.1, rest.2)

/-- Each address stores the one after it as its `next`, the last one `main_addr`. -/
def Links (mem : MemReader) (layout : DetectedLayout) (main_addr : UInt64) : List UInt64 → Prop
  | [] => True
  | a :: rest => mem.read_u64 (nextField layout a) = .ok (rest.headD main_addr) ∧ Links mem layout main_addr rest

/-- The addresses are those of a complete ring of arenas. -/
structure Ring (mem : MemReader) (layout : DetectedLayout) (libc_addr : UInt64) (addrs : List UInt64) : Prop where
  first : addrs.head? = some (mainAddr layout libc_addr)
  distinct : addrs.Nodup
  nonzero : ∀ a ∈ addrs, a ≠ 0
  top : ∃ v, mem.read_u64 (mainAddr layout libc_addr + layout.malloc_state_top_offset.toUInt64) = .ok v
  links : Links mem layout (mainAddr layout libc_addr) addrs

/-- The arenas of addresses, numbered from an index on. -/
def numbered : UInt32 → List UInt64 → List Arena
  | _, [] => []
  | index, a :: rest => ⟨a, index⟩ :: numbered (index + 1) rest

section
variable {mem : MemReader} {layout : DetectedLayout} {main_addr : UInt64}

/-- The arenas behind the next one stay new, and off the main arena and null. -/
theorem fresh_step {next : UInt64} {rest visited : List UInt64} (distinct : (next :: rest).Nodup)
    (fresh : ∀ a ∈ next :: rest, a ∉ visited ∧ a ≠ main_addr ∧ a ≠ 0) :
    ∀ a ∈ rest, a ∉ next :: visited ∧ a ≠ main_addr ∧ a ≠ 0 := by
  intro a member
  have unseen := Chase.fresh_tail distinct fun b inside => (fresh b inside).1
  exact ⟨unseen a member, (fresh a (List.mem_cons_of_mem _ member)).2⟩

/-- The number of the arena that comes behind the next one and some more. -/
theorem index_step (index : UInt32) (count : Nat) :
    index + UInt32.ofNat (count + 1) = index + 1 + UInt32.ofNat count := by
  rw [Nat.add_comm, UInt32.ofNat_add, ← UInt32.add_assoc]
  rfl

/-- The loop lists the rest of a ring, and is clean when a turn is left for the
    link back to the main arena. -/
theorem list_from_ring (spare : Nat) {rest visited : List UInt64} {current : UInt64} (index : UInt32)
    (links : Links mem layout main_addr (current :: rest)) (distinct : rest.Nodup)
    (fresh : ∀ a ∈ rest, a ∉ visited ∧ a ≠ main_addr ∧ a ≠ 0) :
    list_from mem layout main_addr (rest.length + spare) visited current index =
      (numbered index rest, if spare = 0 then
        [.HeapWalkTruncated (index + UInt32.ofNat rest.length) "arena list did not cycle back within limit"]
      else []) := by
  induction rest generalizing visited current index with
  | nil =>
    cases spare with
    | zero => simp [list_from, numbered]
    | succ spare =>
      have back : mem.read_u64 (nextField layout current) = .ok main_addr := links.1
      simp [list_from, back, numbered]
  | cons next rest ih =>
    obtain ⟨read, later⟩ := links
    have forward : mem.read_u64 (nextField layout current) = .ok next := read
    obtain ⟨unseen, notMain, nonzero⟩ := fresh next (by simp)
    have restFresh := fresh_step distinct fresh
    have tail := ih (index + 1) later distinct.of_cons restFresh
    have count : index + UInt32.ofNat (next :: rest).length = index + 1 + UInt32.ofNat rest.length := by
      rw [List.length_cons, index_step]
    rw [List.length_cons, Nat.add_right_comm, list_from, forward]
    simp only [notMain, nonzero, or_self, if_false, unseen, later.1, tail]
    rw [← List.length_cons (a := next), count, numbered]

/-- A ring of at most `MAX_ARENAS` arenas is listed in full, and reported when
    it has exactly as many. -/
theorem list_ring {libc_addr : UInt64} {addrs : List UInt64} (ring : Ring mem layout libc_addr addrs)
    (few : addrs.length ≤ MAX_ARENAS) :
    list mem layout libc_addr = .ok (numbered 0 addrs, if addrs.length = MAX_ARENAS then
      [.HeapWalkTruncated 1024 "arena list did not cycle back within limit"] else []) := by
  obtain ⟨main, rest, rfl⟩ : ∃ main rest, addrs = main :: rest := by
    cases addrs with
    | nil => exact absurd ring.first (by simp)
    | cons main rest => exact ⟨main, rest, rfl⟩
  have isMain : main = mainAddr layout libc_addr := by simpa using ring.first
  obtain ⟨top, read⟩ := ring.top
  rw [← isMain] at read
  obtain ⟨absent, distinct⟩ := List.nodup_cons.mp ring.distinct
  have fresh : ∀ a ∈ rest, a ∉ [main] ∧ a ≠ main ∧ a ≠ 0 := by
    intro a member
    have other : a ≠ main := fun same => absent (same ▸ member)
    exact ⟨by simpa using other, other, ring.nonzero a (by simp [member])⟩
  rw [List.length_cons] at few ⊢
  have room : MAX_ARENAS - 1 = rest.length + (MAX_ARENAS - 1 - rest.length) := by omega
  have links := ring.links
  rw [← isMain] at links
  have run := list_from_ring (MAX_ARENAS - 1 - rest.length) 1 links distinct fresh
  rw [← room] at run
  simp only [list, read, ← isMain, run, numbered]
  by_cases full : rest.length + 1 = MAX_ARENAS
  · have none : MAX_ARENAS - 1 - rest.length = 0 := by omega
    have length : rest.length = 1023 := by rw [MAX_ARENAS] at full; omega
    rw [if_pos none, if_pos full, length]
    rfl
  · have some : MAX_ARENAS - 1 - rest.length ≠ 0 := by omega
    rw [if_neg some, if_neg full]
    rfl

end

/-- A complete ring of at most `MAX_ARENAS` arenas is listed in full and without
    a problem exactly when it has fewer. -/
theorem arena_ring_clean_iff (mem : MemReader) (layout : DetectedLayout) (libc_addr : UInt64) (addrs : List UInt64)
    (ring : Ring mem layout libc_addr addrs) (few : addrs.length ≤ MAX_ARENAS) :
    list mem layout libc_addr = .ok (numbered 0 addrs, []) ↔ addrs.length < MAX_ARENAS := by
  rw [list_ring ring few]
  by_cases full : addrs.length = MAX_ARENAS
  · simp [full]
  · simpa [full] using lt_of_le_of_ne few full

/-- The two arenas of the source's test. -/
def two_arenas : MemReader := fake_mem [(0x1060, 0xdead), (0x1870, 0x50000), (0x50870, 0x1000)] []

theorem arena_ring_clean_two_arenas :
    list two_arenas (test_layout 8) 0x1000 = .ok (numbered 0 [0x1000, 0x50000], []) ↔
      [(0x1000 : UInt64), 0x50000].length < MAX_ARENAS :=
  arena_ring_clean_iff two_arenas (test_layout 8) 0x1000 [0x1000, 0x50000]
    ⟨rfl, by simp, by simp, ⟨0xdead, rfl⟩, rfl, rfl, trivial⟩ (by simp [MAX_ARENAS])

/-- A memory in which `n` arenas, 4096 bytes apart from 4096 on, form a ring. -/
def ring_of (n : Nat) : MemReader where
  read_u64 addr := .ok (if addr = nextField (test_layout 8) (UInt64.ofNat (0x1000 * n)) then 0x1000
    else addr - (test_layout 8).malloc_state_next_offset.toUInt64 + 0x1000)
  segment_start _ := none

/-- The addresses of `count` arenas of such a ring. -/
def ringAddrs (start count : Nat) : List UInt64 :=
  (List.range' start count).map fun i => UInt64.ofNat (0x1000 * i)

private theorem ring_addr_toNat {i : Nat} (small : i < 2 ^ 32) : (UInt64.ofNat (0x1000 * i)).toNat = 0x1000 * i :=
  UInt64.toNat_ofNat_of_lt' (by rw [UInt64.size]; omega)

private theorem ring_links {n : Nat} (small : n < 2 ^ 32) (start count : Nat) (last : start + count = n + 1) :
    Links (ring_of n) (test_layout 8) 0x1000 (ringAddrs start count) := by
  induction count generalizing start with
  | zero => trivial
  | succ count ih =>
    have next := ih (start + 1) (by omega)
    refine ⟨?_, next⟩
    show Except.ok (if nextField (test_layout 8) (UInt64.ofNat (0x1000 * start)) =
      nextField (test_layout 8) (UInt64.ofNat (0x1000 * n)) then _ else _) = _
    cases count with
    | zero =>
      obtain rfl : start = n := by omega
      rw [if_pos rfl]
      rfl
    | succ count =>
      have apart : nextField (test_layout 8) (UInt64.ofNat (0x1000 * start)) ≠
          nextField (test_layout 8) (UInt64.ofNat (0x1000 * n)) := by
        intro same
        have equal := congrArg UInt64.toNat (add_right_cancel same)
        rw [ring_addr_toNat (by omega), ring_addr_toNat small] at equal
        omega
      rw [if_neg apart, nextField, UInt64.add_sub_cancel]
      show _ = Except.ok (UInt64.ofNat (0x1000 * (start + 1)))
      rw [Nat.mul_succ, UInt64.ofNat_add]
      rfl

private theorem ring_of_ring {n : Nat} (some : 1 ≤ n) (small : n < 2 ^ 32) :
    Ring (ring_of n) (test_layout 8) 0x1000 (ringAddrs 1 n) := by
  obtain ⟨rest, rfl⟩ : ∃ rest, n = rest + 1 := ⟨n - 1, by omega⟩
  refine ⟨rfl, ?_, ?_, ⟨_, rfl⟩, ring_links small 1 (rest + 1) (by omega)⟩
  · refine List.Nodup.map_on ?_ List.nodup_range'
    intro i inside j within same
    have equal := congrArg UInt64.toNat same
    rw [List.mem_range'_1] at inside within
    rw [ring_addr_toNat (by omega), ring_addr_toNat (by omega)] at equal
    omega
  · intro a member zero
    obtain ⟨i, inside, rfl⟩ := List.mem_map.mp member
    have equal := congrArg UInt64.toNat zero
    rw [List.mem_range'_1] at inside
    rw [ring_addr_toNat (by omega)] at equal
    change 0x1000 * i = 0 at equal
    omega

/-- A complete ring of `MAX_ARENAS` arenas is reported as not cycling back. -/
theorem arena_ring_reported :
    ¬ ∀ (mem : MemReader) (layout : DetectedLayout) (libc_addr : UInt64) (addrs : List UInt64),
      Ring mem layout libc_addr addrs → addrs.length ≤ MAX_ARENAS →
      list mem layout libc_addr = .ok (numbered 0 addrs, []) := by
  intro clean
  have length : (ringAddrs 1 1024).length = MAX_ARENAS := by simp [ringAddrs, MAX_ARENAS]
  have ring := ring_of_ring (n := 1024) (by decide) (by decide)
  have reported := list_ring ring length.le
  rw [clean _ _ _ _ ring length.le, if_pos length] at reported
  simp at reported

end HeapAnalyser.Arenas
