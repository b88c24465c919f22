import HeapAnalyser.Arenas
import HeapAnalyser.Checks

/-!
The heap regions of an arena (`heap/heap_list.rs`): the single region of the
main arena, and the `prev` chain of `_heap_info` blocks of a secondary one. A
loop whose end is not bounded by the code, the padding skip, runs on fuel: the
cursor takes at most `2 ^ 64` values, so that a loop which runs out of that much
fuel never ends (`skip_never_ends`), and `none` stands for such a run. Where the
region of a skip is left on a whole number of words, the skip did not wrap
(`skip_covered`), and a listed chain has distinct heaps, each with the region
its own fields give (`list_secondary_spec`).
-/
namespace HeapAnalyser.HeapList
open Machine Arenas

/-- Guard against a corrupt `prev` chain. -/
def MAX_HEAPS : Nat := 10000

structure Heap where
  address : UInt64
  size : UInt64
  mprotect_size : UInt64
  region_start : UInt64
  region_end : UInt64
  deriving Repr, DecidableEq

/-- What listing the heaps can do: not end, fail, or yield heaps and problems. -/
abbrev Listing := Option (Except Error (List Heap × List Problem))

/-- The loop of `skip_zero_padding`, on fuel. -/
def skip_from (mem : MemReader) (region_end word : UInt64) : Nat → UInt64 → Option UInt64
  | 0, _ => none
  | fuel + 1, start =>
    if start < region_end then
      if mem.read_u64 start = .ok 0 then skip_from mem region_end word fuel (start + word) else some start
    else some start

/-- Advance past the zero words to the first size field; `none` if it never ends. -/
def skip_zero_padding (mem : MemReader) (start region_end word : UInt64) : Option UInt64 :=
  skip_from mem region_end word (2 ^ 64) start

/-- The start of the `heap_max_size`-aligned region of an address. -/
def to_heap_start (addr heap_max_size : UInt64) : UInt64 := addr &&& ~~~(heap_max_size - 1)

structure HeapInfo where
  size : UInt64
  mprotect_size : UInt64
  prev : UInt64

def read_heap_info (mem : MemReader) (layout : DetectedLayout) (addr : UInt64) : Except Error HeapInfo := do
  let size ← mem.read_u64 (addr + layout.heap_info_size_offset.toUInt64)
  let mprotect_size ← mem.read_u64 (addr + layout.heap_info_mprotect_size_offset.toUInt64)
  let prev ← mem.read_u64 (addr + layout.heap_info_prev_offset.toUInt64)
  return ⟨size, mprotect_size, prev⟩

theorem read_heap_info_eq_ok {mem : MemReader} {layout : DetectedLayout} {addr : UInt64} {info : HeapInfo} :
    read_heap_info mem layout addr = .ok info ↔
      mem.read_u64 (addr + layout.heap_info_size_offset.toUInt64) = .ok info.size ∧
      mem.read_u64 (addr + layout.heap_info_mprotect_size_offset.toUInt64) = .ok info.mprotect_size ∧
      mem.read_u64 (addr + layout.heap_info_prev_offset.toUInt64) = .ok info.prev := by
  simp only [read_heap_info, Checks.bind_eq_ok]
  constructor
  · rintro ⟨size, readSize, mprotect_size, readMprotect, prev, readPrev, same⟩
    obtain rfl := Except.ok.inj same
    exact ⟨readSize, readMprotect, readPrev⟩
  · rintro ⟨readSize, readMprotect, readPrev⟩
    exact ⟨_, readSize, _, readMprotect, _, readPrev, rfl⟩

/-- Where an arena's `malloc_state` keeps its `top`. -/
def topField (layout : DetectedLayout) (arena : Arena) : UInt64 :=
  arena.malloc_state_addr + layout.malloc_state_top_offset.toUInt64

/-- The start of the main arena's region, where it can be determined. -/
def main_heap_start (mem : MemReader) (layout : DetectedLayout) (sbrk_base top : UInt64) : Option UInt64 :=
  if (mem.segment_start sbrk_base).isSome then some sbrk_base
  else (mem.segment_start top).map fun seg_start =>
    max seg_start (saturating_sub top (saturating_mul layout.heap_max_size 4))

def list_main (mem : MemReader) (layout : DetectedLayout) (libc_addr : UInt64) (arena : Arena) : Listing :=
  match mem.read_u64 (libc_addr + layout.mp.value + layout.mp_sbrk_base_offset.toUInt64) with
  | .error e => some (.error e)
  | .ok sbrk_base =>
    match mem.read_u64 (topField layout arena) with
    | .error e => some (.error e)
    | .ok top =>
      if sbrk_base = 0 ∨ top = 0 then some (.ok ([], []))
      else
        let last_address := top + layout.word
        match main_heap_start mem layout sbrk_base top with
        | none => some (.ok ([], [.HeapWalkTruncated arena.index "main arena heap start undeterminable"]))
        | some heap_start =>
          let measured : UInt64 × List Problem := match checked_sub top heap_start with
            | some size => (size, [])
            | none => (0, [.HeapWalkTruncated arena.index "top is below heap start"])
          (skip_zero_padding mem heap_start last_address layout.word).map fun region_start =>
            .ok ([⟨heap_start, measured.1, measured.1, region_start, last_address⟩], measured.2)

/-- The first address a heap's chunks can be at: after its `_heap_info`, and
    after the `malloc_state` embedded in the first heap. -/
def secondary_start (layout : DetectedLayout) (current prev : UInt64) : UInt64 :=
  let heap_start := current + layout.heap_info_size.toUInt64
  if prev = 0 then heap_start + layout.main_arena.size else heap_start

/-- The end of a heap's region, unless its size overflows it. -/
def secondary_end (layout : DetectedLayout) (top top_heap current size : UInt64) : Option UInt64 :=
  if current = top_heap then some (top + layout.word) else checked_add current size

/-- The loop of `list_secondary`; the first argument is `MAX_HEAPS - heaps.len()`. -/
def secondary_from (mem : MemReader) (layout : DetectedLayout) (arena : Arena) (top top_heap : UInt64) :
    Nat → List UInt64 → List Heap → UInt64 → Listing
  | 0, _, heaps, _ => some (.ok (heaps, [.HeapWalkTruncated arena.index "heap_info prev chain exceeded limit"]))
  | remaining + 1, visited, heaps, current =>
    if current ∈ visited then
      some (.ok (heaps, [.HeapWalkTruncated arena.index "heap_info prev chain forms a cycle"]))
    else match read_heap_info mem layout current with
      | .error e =>
        if heaps = [] then some (.error e)
        else some (.ok (heaps, [.HeapWalkTruncated arena.index "heap_info unreadable"]))
      | .ok info =>
        match secondary_end layout top top_heap current info.size with
        | none => some (.ok (heaps, [.HeapWalkTruncated arena.index "heap_info size overflows its region"]))
        | some region_end =>
          match skip_zero_padding mem (secondary_start layout current info.prev) region_end layout.word with
          | none => none
          | some region_start =>
            let heaps := heaps ++ [⟨current, info.size, info.mprotect_size, region_start, region_end⟩]
            if info.prev = 0 then some (.ok (heaps, []))
            else secondary_from mem layout arena top top_heap remaining (current :: visited) heaps info.prev

def list_secondary (mem : MemReader) (layout : DetectedLayout) (arena : Arena) : Listing :=
  match mem.read_u64 (topField layout arena) with
  | .error e => some (.error e)
  | .ok top =>
    if top = 0 then some (.ok ([], []))
    else
      let top_heap := to_heap_start top layout.heap_max_size
      secondary_from mem layout arena top top_heap MAX_HEAPS [] [] top_heap

/-- The heaps of an arena, with the region of each that the walker scans. -/
def list (mem : MemReader) (layout : DetectedLayout) (libc_addr : UInt64) (arena : Arena) : Listing :=
  if arena.is_main then list_main mem layout libc_addr arena else list_secondary mem layout arena

section
variable {mem : MemReader} {region_end word start r : UInt64}

/-- A skip runs out of fuel exactly when every word it comes to is a zero inside the region. -/
theorem skip_from_eq_none {fuel : Nat} : skip_from mem region_end word fuel start = none ↔
    ∀ k < fuel, start + UInt64.ofNat k * word < region_end ∧
      mem.read_u64 (start + UInt64.ofNat k * word) = .ok 0 := by
  induction fuel generalizing start with
  | zero => simp [skip_from]
  | succ fuel ih =>
    have shift (k : Nat) : start + word + UInt64.ofNat k * word = start + UInt64.ofNat (k + 1) * word := by
      rw [UInt64.ofNat_add, UInt64.add_mul, UInt64.add_assoc, UInt64.add_comm word]
      simp
    have split : (∀ k < fuel + 1, start + UInt64.ofNat k * word < region_end ∧
          mem.read_u64 (start + UInt64.ofNat k * word) = .ok 0) ↔
        (start < region_end ∧ mem.read_u64 start = .ok 0) ∧
        ∀ k < fuel, start + UInt64.ofNat (k + 1) * word < region_end ∧
          mem.read_u64 (start + UInt64.ofNat (k + 1) * word) = .ok 0 := by
      constructor
      · intro all
        exact ⟨by simpa using all 0 (by omega), fun k inside => all (k + 1) (by omega)⟩
      · rintro ⟨first, later⟩ k inside
        cases k with
        | zero => simpa using first
        | succ k => exact later k (by omega)
    rw [split, skip_from]
    by_cases below : start < region_end
    · by_cases zero : mem.read_u64 start = .ok 0
      · simp [below, zero, ih, shift]
      · simp [below, zero]
    · simp [below]

/-- A skip that runs out of `2 ^ 64` fuel runs out of any: its cursor has come
    round to the words it has seen. -/
theorem skip_never_ends : skip_zero_padding mem start region_end word = none ↔
    ∀ fuel, skip_from mem region_end word fuel start = none := by
  constructor
  · intro endless fuel
    have zeros := skip_from_eq_none.mp endless
    apply skip_from_eq_none.mpr
    intro k _
    have again : UInt64.ofNat k = UInt64.ofNat (k % 2 ^ 64) := by
      rw [← UInt64.toNat_inj, UInt64.toNat_ofNat', UInt64.toNat_ofNat', Nat.mod_mod]
    rw [again]
    exact zeros (k % 2 ^ 64) (Nat.mod_lt k (by decide))
  · intro never
    exact never (2 ^ 64)

/-- A skip moves by whole words, and the address space is a whole number of them. -/
theorem skip_phase (whole : word.toNat ∣ 2 ^ 64) {fuel : Nat}
    (skipped : skip_from mem region_end word fuel start = some r) :
    r.toNat % word.toNat = start.toNat % word.toNat := by
  induction fuel generalizing start with
  | zero => simp [skip_from] at skipped
  | succ fuel ih =>
    by_cases below : start < region_end
    · by_cases zero : mem.read_u64 start = .ok 0
      · rw [skip_from, if_pos below, if_pos zero] at skipped
        rw [ih skipped, UInt64.toNat_add, Nat.mod_mod_of_dvd _ whole, Nat.add_mod_right]
      · rw [skip_from, if_pos below, if_neg zero] at skipped
        rw [Option.some.inj skipped]
    · rw [skip_from, if_neg below] at skipped
      rw [Option.some.inj skipped]

/-- In a region of whole words a skip passes zero words only, and does not wrap. -/
theorem skip_whole {fuel : Nat} (skipped : skip_from mem region_end word fuel start = some r)
    (le : start.toNat ≤ region_end.toNat) (whole : word.toNat ∣ region_end.toNat - start.toNat) :
    ∃ k, r.toNat = start.toNat + k * word.toNat ∧
      ∀ i < k, mem.read_u64 (UInt64.ofNat (start.toNat + i * word.toNat)) = .ok 0 := by
  induction fuel generalizing start with
  | zero => simp [skip_from] at skipped
  | succ fuel ih =>
    by_cases below : start < region_end
    · by_cases zero : mem.read_u64 start = .ok 0
      · rw [skip_from, if_pos below, if_pos zero] at skipped
        have inside := UInt64.lt_iff_toNat_lt.mp below
        have room := Nat.le_of_dvd (by omega) whole
        have bound := region_end.toNat_lt
        have next : (start + word).toNat = start.toNat + word.toNat := add_toNat (by omega)
        obtain ⟨k, reached, zeros⟩ := ih skipped (by omega) (by
          rw [next, ← Nat.sub_sub]
          exact Nat.dvd_sub whole (Nat.dvd_refl _))
        refine ⟨k + 1, by rw [reached, next, Nat.add_mul]; omega, ?_⟩
        intro i inside
        cases i with
        | zero => rw [Nat.zero_mul, Nat.add_zero, UInt64.ofNat_toNat]; exact zero
        | succ i =>
          have earlier := zeros i (by omega)
          rw [next] at earlier
          rw [Nat.succ_mul, Nat.add_comm (i * _), ← Nat.add_assoc]
          exact earlier
      · rw [skip_from, if_pos below, if_neg zero] at skipped
        exact ⟨0, by rw [Option.some.inj skipped]; simp, by simp⟩
    · rw [skip_from, if_neg below] at skipped
      exact ⟨0, by rw [Option.some.inj skipped]; simp, by simp⟩

/-- A skip to a point from which the region is a whole number of words did not
    wrap: it passed that many zero words. -/
theorem skip_covered (wide : word.toNat = 4 ∨ word.toNat = 8) {fuel : Nat}
    (skipped : skip_from mem region_end word fuel start = some r)
    (le : r.toNat ≤ region_end.toNat) (whole : word.toNat ∣ region_end.toNat - r.toNat) :
    ∃ k, r.toNat = start.toNat + k * word.toNat ∧
      ∀ i < k, mem.read_u64 (UInt64.ofNat (start.toNat + i * word.toNat)) = .ok 0 := by
  have space : word.toNat ∣ 2 ^ 64 := by
    rcases wide with four | eight
    · rw [four]; decide
    · rw [eight]; decide
  have phase := skip_phase space skipped
  have order : start.toNat ≤ region_end.toNat := by
    by_contra past
    cases fuel with
    | zero => simp [skip_from] at skipped
    | succ fuel =>
      rw [skip_from, if_neg (by rw [UInt64.lt_iff_toNat_lt]; omega)] at skipped
      rw [Option.some.inj skipped] at past
      exact past le
  apply skip_whole skipped order
  have same : region_end.toNat ≡ start.toNat [MOD word.toNat] :=
    ((Nat.modEq_iff_dvd' le).mpr whole).symm.trans phase
  exact (Nat.modEq_iff_dvd' order).mp same.symm

end

/-! ## What is listed -/

/-- A region of the main arena that is listed without a problem. -/
structure MainHeap (mem : MemReader) (layout : DetectedLayout) (top : UInt64) (heap : Heap) : Prop where
  size : heap.size.toNat + heap.address.toNat = top.toNat
  mprotect_size : heap.mprotect_size = heap.size
  region_end : heap.region_end = top + layout.word
  region_start : skip_zero_padding mem heap.address heap.region_end layout.word = some heap.region_start

/-- A heap of a secondary arena: its region is what its own fields give. -/
structure SecondaryHeap (mem : MemReader) (layout : DetectedLayout) (top top_heap : UInt64) (heap : Heap)
    (prev : UInt64) : Prop where
  info : read_heap_info mem layout heap.address = .ok ⟨heap.size, heap.mprotect_size, prev⟩
  region_end : secondary_end layout top top_heap heap.address heap.size = some heap.region_end
  region_start : skip_zero_padding mem (secondary_start layout heap.address prev) heap.region_end layout.word =
    some heap.region_start

section
variable {mem : MemReader} {layout : DetectedLayout} {arena : Arena}

/-- What a listing of the main arena that returns has found: no heap yet, a heap
    without a start, or one heap, with a problem where its top lies below its start. -/
theorem list_main_cases {libc_addr : UInt64} {heaps : List Heap} {problems : List Problem}
    (listed : list_main mem layout libc_addr arena = some (.ok (heaps, problems))) :
    ∃ top, mem.read_u64 (topField layout arena) = .ok top ∧
      (heaps = [] ∧ problems = [] ∨
       heaps = [] ∧ problems = [.HeapWalkTruncated arena.index "main arena heap start undeterminable"] ∨
       (∃ heap, heaps = [heap] ∧ problems = [] ∧ MainHeap mem layout top heap) ∨
       ∃ heap, heaps = [heap] ∧ problems = [.HeapWalkTruncated arena.index "top is below heap start"]) := by
  unfold list_main at listed
  cases readBase : mem.read_u64 (libc_addr + layout.mp.value + layout.mp_sbrk_base_offset.toUInt64) with
  | error e => simp [readBase] at listed
  | ok sbrk_base =>
    cases readTop : mem.read_u64 (topField layout arena) with
    | error e => simp [readBase, readTop] at listed
    | ok top =>
      refine ⟨top, rfl, ?_⟩
      by_cases fresh : sbrk_base = 0 ∨ top = 0
      · simp only [readBase, readTop, fresh, if_true, Option.some.injEq, Except.ok.injEq, Prod.mk.injEq] at listed
        exact .inl ⟨listed.1.symm, listed.2.symm⟩
      cases started : main_heap_start mem layout sbrk_base top with
      | none =>
        simp only [readBase, readTop, fresh, if_false, started, Option.some.injEq, Except.ok.injEq,
          Prod.mk.injEq] at listed
        exact .inr (.inl ⟨listed.1.symm, listed.2.symm⟩)
      | some heap_start =>
        simp only [readBase, readTop, fresh, if_false, started, Option.map_eq_some_iff, Except.ok.injEq,
          Prod.mk.injEq] at listed
        obtain ⟨region_start, skipped, rfl, rfl⟩ := listed
        cases below : checked_sub top heap_start with
        | none => exact .inr (.inr (.inr ⟨_, rfl, rfl⟩))
        | some size =>
          exact .inr (.inr (.inl ⟨_, rfl, rfl, checked_sub_eq_some.mp below, rfl, rfl, skipped⟩))

theorem list_main_spec {libc_addr : UInt64} {heap : Heap}
    (listed : list_main mem layout libc_addr arena = some (.ok ([heap], []))) :
    ∃ top, mem.read_u64 (topField layout arena) = .ok top ∧ MainHeap mem layout top heap := by
  obtain ⟨top, readTop, ⟨none, _⟩ | ⟨none, _⟩ | ⟨other, one, _, main⟩ | ⟨other, _, cut⟩⟩ := list_main_cases listed
  · simp at none
  · simp at none
  · obtain rfl : heap = other := by simpa using one
    exact ⟨top, readTop, main⟩
  · simp at cut

/-- Heaps added to a list from an address on, with addresses that are new and
    distinct, each with the region its fields give. -/
def Extends (mem : MemReader) (layout : DetectedLayout) (top top_heap : UInt64) (visited : List UInt64)
    (heaps : List Heap) (current : UInt64) (all : List Heap) : Prop :=
  ∃ new, all = heaps ++ new ∧ (∀ heap ∈ new.head?, heap.address = current) ∧ (new.map Heap.address).Nodup ∧
    (∀ heap ∈ new, heap.address ∉ visited) ∧ ∀ heap ∈ new, ∃ prev, SecondaryHeap mem layout top top_heap heap prev

theorem Extends.refl {top top_heap : UInt64} (visited : List UInt64) (heaps : List Heap) (current : UInt64) :
    Extends mem layout top top_heap visited heaps current heaps :=
  ⟨[], by simp, by simp, by simp, by simp, by simp⟩

theorem Extends.cons {top top_heap prev : UInt64} {visited : List UInt64} {heaps all : List Heap} {heap : Heap}
    (fresh : heap.address ∉ visited) (isHeap : SecondaryHeap mem layout top top_heap heap prev)
    (rest : ∃ next, Extends mem layout top top_heap (heap.address :: visited) (heaps ++ [heap]) next all) :
    Extends mem layout top top_heap visited heaps heap.address all := by
  obtain ⟨_, new, rfl, _, distinct, unseen, each⟩ := rest
  refine ⟨heap :: new, by simp, by simp, ?_, ?_, ?_⟩
  · refine List.nodup_cons.mpr ⟨?_, distinct⟩
    intro member
    obtain ⟨other, inNew, same⟩ := List.mem_map.mp member
    exact unseen other inNew (by simp [same])
  · intro other member
    rcases List.mem_cons.mp member with rfl | later
    · exact fresh
    · exact fun seen => unseen other later (by simp [seen])
  · intro other member
    rcases List.mem_cons.mp member with rfl | later
    · exact ⟨prev, isHeap⟩
    · exact each other later

/-- A turn that returns has added nothing, or the heap at its address, which was
    not visited. -/
theorem secondary_from_turn {top top_heap : UInt64} {remaining : Nat} {visited : List UInt64} {heaps all : List Heap}
    {current : UInt64} {problems : List Problem}
    (listed : secondary_from mem layout arena top top_heap (remaining + 1) visited heaps current =
      some (.ok (all, problems))) :
    all = heaps ∨ ∃ heap prev, heap.address = current ∧ current ∉ visited ∧
      SecondaryHeap mem layout top top_heap heap prev ∧ (all = heaps ++ [heap] ∨
        secondary_from mem layout arena top top_heap remaining (current :: visited) (heaps ++ [heap]) prev =
          some (.ok (all, problems))) := by
  rw [secondary_from] at listed
  by_cases seen : current ∈ visited
  · simp only [seen, if_true, Option.some.injEq, Except.ok.injEq, Prod.mk.injEq] at listed
    exact .inl listed.1.symm
  rw [if_neg seen] at listed
  cases read : read_heap_info mem layout current with
  | error e =>
    by_cases none : heaps = []
    · simp [read, none] at listed
    · simp only [read, none, if_false, Option.some.injEq, Except.ok.injEq, Prod.mk.injEq] at listed
      exact .inl listed.1.symm
  | ok info =>
    cases ends : secondary_end layout top top_heap current info.size with
    | none =>
      simp only [read, ends, Option.some.injEq, Except.ok.injEq, Prod.mk.injEq] at listed
      exact .inl listed.1.symm
    | some region_end =>
      cases skipped : skip_zero_padding mem (secondary_start layout current info.prev) region_end layout.word with
      | none => simp [read, ends, skipped] at listed
      | some region_start =>
        simp only [read, ends, skipped] at listed
        refine .inr ⟨⟨current, info.size, info.mprotect_size, region_start, region_end⟩, info.prev, rfl, seen,
          ⟨read, ends, skipped⟩, ?_⟩
        by_cases oldest : info.prev = 0
        · simp only [oldest, if_true, Option.some.injEq, Except.ok.injEq, Prod.mk.injEq] at listed
          exact .inl listed.1.symm
        · rw [if_neg oldest] at listed
          exact .inr listed

/-- However the loop ends, it has added such heaps. -/
theorem secondary_from_spec {top top_heap : UInt64} (remaining : Nat) {visited : List UInt64} {heaps all : List Heap}
    {current : UInt64} {problems : List Problem}
    (listed : secondary_from mem layout arena top top_heap remaining visited heaps current =
      some (.ok (all, problems))) : Extends mem layout top top_heap visited heaps current all := by
  induction remaining generalizing visited heaps current with
  | zero =>
    simp only [secondary_from, Option.some.injEq, Except.ok.injEq, Prod.mk.injEq] at listed
    exact listed.1 ▸ Extends.refl visited heaps current
  | succ remaining ih =>
    rcases secondary_from_turn listed with rfl | ⟨heap, prev, rfl, fresh, isHeap, last | later⟩
    · exact Extends.refl visited all current
    · exact Extends.cons fresh isHeap ⟨prev, last ▸ Extends.refl _ _ prev⟩
    · exact Extends.cons fresh isHeap ⟨prev, ih later⟩

/-- The heaps of a secondary arena have distinct addresses, the first one that
    of the top's heap, and their regions are what their own fields give. -/
theorem list_secondary_spec {heaps : List Heap} {problems : List Problem}
    (listed : list_secondary mem layout arena = some (.ok (heaps, problems))) :
    heaps = [] ∨ ∃ top, mem.read_u64 (topField layout arena) = .ok top ∧ (heaps.map Heap.address).Nodup ∧
      (∀ heap ∈ heaps.head?, heap.address = to_heap_start top layout.heap_max_size) ∧
      ∀ heap ∈ heaps, ∃ prev, SecondaryHeap mem layout top (to_heap_start top layout.heap_max_size) heap prev := by
  unfold list_secondary at listed
  cases readTop : mem.read_u64 (topField layout arena) with
  | error e => simp [readTop] at listed
  | ok top =>
    by_cases null : top = 0
    · simp only [readTop, null, if_true, Option.some.injEq, Except.ok.injEq, Prod.mk.injEq] at listed
      exact .inl listed.1.symm
    · simp only [readTop, null, if_false] at listed
      obtain ⟨new, rfl, first, distinct, _, each⟩ := secondary_from_spec MAX_HEAPS listed
      exact .inr ⟨top, rfl, by simpa using distinct, by simpa using first, by simpa using each⟩

end

end HeapAnalyser.HeapList
