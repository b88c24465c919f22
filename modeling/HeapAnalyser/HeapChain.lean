import HeapAnalyser.SecondaryHeaps

/-!
The `prev` chain of a secondary arena on any memory. A listing that returns has
followed the chain from the top's heap on, and says by a problem whether it was
cut (`list_secondary_followed`). It does return, and with all heaps of a chain
that ends (`list_secondary_complete`), unless the padding in front of a heap's
chunks never does: the padding skip wraps round the address space, so that a
grid of zeros below the end of the region keeps it going (`zeroGrid_iff`).
-/
namespace HeapAnalyser.HeapChain
open Machine Arenas HeapList SecondaryHeaps

/-- Every word from a start on, all the way round the address space, is a zero
    below the end of the region. -/
def ZeroGrid (mem : MemReader) (start region_end word : UInt64) : Prop :=
  ∀ k : UInt64, start + k * word < region_end ∧ mem.read_u64 (start + k * word) = .ok 0

/-- The padding of the heap at an address never ends. -/
def EndlessPadding (mem : MemReader) (layout : DetectedLayout) (top top_heap addr : UInt64) : Prop :=
  ∃ info region_end, read_heap_info mem layout addr = .ok info ∧
    secondary_end layout top top_heap addr info.size = some region_end ∧
    ZeroGrid mem (secondary_start layout addr info.prev) region_end layout.word

/-- The heap at an address is readable, its size does not overflow, and `prev`
    is its link. -/
def Links (mem : MemReader) (layout : DetectedLayout) (top top_heap addr prev : UInt64) : Prop :=
  ∃ info region_end, read_heap_info mem layout addr = .ok info ∧
    secondary_end layout top top_heap addr info.size = some region_end ∧ info.prev = prev

/-- Heaps from an address on, each linked to the one after it, the last one to
    `last`. -/
def Chain (mem : MemReader) (layout : DetectedLayout) (top top_heap : UInt64) : UInt64 → List UInt64 → UInt64 → Prop
  | a, [], last => Links mem layout top top_heap a last
  | a, b :: rest, last => Links mem layout top top_heap a b ∧ b ≠ 0 ∧ Chain mem layout top top_heap b rest last

/-- Listed heaps from an address on, each with the region its own fields give
    and linked to the one after it, the last one to `last`. -/
def Path (mem : MemReader) (layout : DetectedLayout) (top top_heap : UInt64) : UInt64 → List Heap → UInt64 → Prop
  | current, [], last => last = current
  | current, heap :: rest, last => heap.address = current ∧
    ∃ prev, SecondaryHeap mem layout top top_heap heap prev ∧ (rest ≠ [] → prev ≠ 0) ∧
      Path mem layout top top_heap prev rest last

/-- A padding skip never ends exactly when it meets a grid of zeros. -/
theorem zeroGrid_iff {mem : MemReader} {start region_end word : UInt64} :
    ZeroGrid mem start region_end word ↔ skip_zero_padding mem start region_end word = none := by
  rw [skip_never_ends]
  constructor
  · intro grid fuel
    apply skip_from_eq_none.mpr
    intro k _
    exact grid (UInt64.ofNat k)
  · intro never k
    have one := skip_from_eq_none.mp (never (k.toNat + 1)) k.toNat (Nat.lt_succ_self _)
    rwa [UInt64.ofNat_toNat] at one

section
variable {mem : MemReader} {layout : DetectedLayout} {arena : Arena} {top top_heap : UInt64}

theorem Path.each {current last : UInt64} {heaps : List Heap} (path : Path mem layout top top_heap current heaps last) :
    ∀ heap ∈ heaps, ∃ prev, SecondaryHeap mem layout top top_heap heap prev := by
  induction heaps generalizing current with
  | nil => simp
  | cons heap rest ih =>
    obtain ⟨_, prev, isHeap, _, later⟩ := path
    intro other member
    rcases List.mem_cons.mp member with rfl | inRest
    · exact ⟨prev, isHeap⟩
    · exact ih later other inRest

private theorem not_endless_of_listed {heap : Heap} {prev : UInt64}
    (isHeap : SecondaryHeap mem layout top top_heap heap prev) :
    ¬ EndlessPadding mem layout top top_heap heap.address := by
  rintro ⟨info, region_end, read, ends, grid⟩
  obtain rfl : (⟨heap.size, heap.mprotect_size, prev⟩ : HeapInfo) = info := Except.ok.inj (isHeap.info.symm.trans read)
  obtain rfl : heap.region_end = region_end := Option.some.inj (isHeap.region_end.symm.trans ends)
  have endless := zeroGrid_iff.mp grid
  rw [isHeap.region_start] at endless
  simp at endless

private theorem secondary_from_links (arena : Arena) (remaining : Nat) {visited : List UInt64} (heaps : List Heap)
    {current prev : UInt64} (fresh : current ∉ visited) (links : Links mem layout top top_heap current prev) :
    EndlessPadding mem layout top top_heap current ∧
      secondary_from mem layout arena top top_heap (remaining + 1) visited heaps current = none ∨
    ∃ heap, heap.address = current ∧ SecondaryHeap mem layout top top_heap heap prev ∧
      secondary_from mem layout arena top top_heap (remaining + 1) visited heaps current =
        if prev = 0 then some (.ok (heaps ++ [heap], []))
        else secondary_from mem layout arena top top_heap remaining (current :: visited) (heaps ++ [heap]) prev := by
  obtain ⟨info, region_end, read, ends, rfl⟩ := links
  cases skipped : skip_zero_padding mem (secondary_start layout current info.prev) region_end layout.word with
  | none =>
    refine .inl ⟨⟨info, region_end, read, ends, zeroGrid_iff.mpr skipped⟩, ?_⟩
    simp only [secondary_from, if_neg fresh, read, ends, skipped]
  | some region_start =>
    refine .inr ⟨⟨current, info.size, info.mprotect_size, region_start, region_end⟩, rfl, ⟨read, ends, skipped⟩, ?_⟩
    simp only [secondary_from, if_neg fresh, read, ends, skipped]

/-- Where the loop stops short of a heap. -/
def Stuck (mem : MemReader) (layout : DetectedLayout) (top top_heap : UInt64) (visited : List UInt64)
    (heaps : List Heap) (current : UInt64) : Prop :=
  current ∈ visited ∨ heaps ≠ [] ∨
    ∃ info, read_heap_info mem layout current = .ok info ∧ secondary_end layout top top_heap current info.size = none

/-- A turn stops short of a heap with a problem, fails when there is no heap
    yet, or comes to a new heap that links. -/
theorem secondary_from_cases (remaining : Nat) (visited : List UInt64) (heaps : List Heap) (current : UInt64) :
    (Stuck mem layout top top_heap visited heaps current ∧ ∃ reason,
      secondary_from mem layout arena top top_heap (remaining + 1) visited heaps current =
        some (.ok (heaps, [.HeapWalkTruncated arena.index reason]))) ∨
    (∃ e, secondary_from mem layout arena top top_heap (remaining + 1) visited heaps current = some (.error e)) ∨
    (current ∉ visited ∧ ∃ prev, Links mem layout top top_heap current prev) := by
  by_cases seen : current ∈ visited
  · exact .inl ⟨.inl seen, _, by simp only [secondary_from, if_pos seen]; rfl⟩
  cases read : read_heap_info mem layout current with
  | error e =>
    by_cases none : heaps = []
    · exact .inr (.inl ⟨e, by simp only [secondary_from, if_neg seen, read, if_pos none]⟩)
    · exact .inl ⟨.inr (.inl none), _, by simp only [secondary_from, if_neg seen, read, if_neg none]; rfl⟩
  | ok info =>
    cases ends : secondary_end layout top top_heap current info.size with
    | none =>
      exact .inl ⟨.inr (.inr ⟨info, read, ends⟩), _, by simp only [secondary_from, if_neg seen, read, ends]; rfl⟩
    | some region_end => exact .inr (.inr ⟨seen, info.prev, info, region_end, read, ends, rfl⟩)

/-! ## Runs of the loop -/

/-- What a run adds to the heaps it has: a path of new heaps, and a problem
    unless the path ends in a null link. -/
structure Traced (mem : MemReader) (layout : DetectedLayout) (arena : Arena) (top top_heap : UInt64) (remaining : Nat)
    (visited : List UInt64) (current : UInt64) (new : List Heap) (problems : List Problem) : Prop where
  few : new.length ≤ remaining
  distinct : (new.map Heap.address).Nodup
  fresh : ∀ heap ∈ new, heap.address ∉ visited
  path : ∃ last, Path mem layout top top_heap current new last ∧
    (problems = [] ∧ new ≠ [] ∧ last = 0 ∨
      (∃ reason, problems = [.HeapWalkTruncated arena.index reason]) ∧ (new ≠ [] → last ≠ 0))

private theorem Traced.stopped (remaining : Nat) (visited : List UInt64) (current : UInt64) (reason : String) :
    Traced mem layout arena top top_heap remaining visited current [] [.HeapWalkTruncated arena.index reason] :=
  ⟨by simp, by simp, by simp, current, rfl, .inr ⟨⟨reason, rfl⟩, by simp⟩⟩

private theorem Traced.last {remaining : Nat} {visited : List UInt64} {heap : Heap} (fresh : heap.address ∉ visited)
    (isHeap : SecondaryHeap mem layout top top_heap heap 0) :
    Traced mem layout arena top top_heap (remaining + 1) visited heap.address [heap] [] :=
  ⟨by simp, by simp, by simpa using fresh, 0, ⟨rfl, 0, isHeap, by simp, rfl⟩, .inl ⟨rfl, by simp, rfl⟩⟩

private theorem Traced.cons {remaining : Nat} {visited : List UInt64} {heap : Heap} {prev : UInt64} {new : List Heap}
    {problems : List Problem} (fresh : heap.address ∉ visited) (isHeap : SecondaryHeap mem layout top top_heap heap prev)
    (linked : prev ≠ 0)
    (rest : Traced mem layout arena top top_heap remaining (heap.address :: visited) prev new problems) :
    Traced mem layout arena top top_heap (remaining + 1) visited heap.address (heap :: new) problems := by
  obtain ⟨last, path, ending⟩ := rest.path
  refine ⟨by simpa using rest.few, ?_, ?_, last, ⟨rfl, prev, isHeap, fun _ => linked, path⟩, ?_⟩
  · refine List.nodup_cons.mpr ⟨?_, rest.distinct⟩
    intro member
    obtain ⟨other, inNew, same⟩ := List.mem_map.mp member
    exact rest.fresh other inNew (by simp [same])
  · intro other member
    rcases List.mem_cons.mp member with rfl | later
    · exact fresh
    · exact fun seen => rest.fresh other later (by simp [seen])
  · rcases ending with ⟨clean, _, null⟩ | ⟨cut, nonzero⟩
    · exact .inl ⟨clean, by simp, null⟩
    · refine .inr ⟨cut, fun _ => ?_⟩
      by_cases none : new = []
      · subst none
        obtain rfl : last = prev := path
        exact linked
      · exact nonzero none

/-- However a run returns, it has followed the links. -/
theorem secondary_from_traced (remaining : Nat) {visited : List UInt64} {heaps all : List Heap} {current : UInt64}
    {problems : List Problem}
    (listed : secondary_from mem layout arena top top_heap remaining visited heaps current =
      some (.ok (all, problems))) :
    ∃ new, all = heaps ++ new ∧ Traced mem layout arena top top_heap remaining visited current new problems ∧
      (new = [] → remaining = 0 ∨ Stuck mem layout top top_heap visited heaps current) := by
  induction remaining generalizing visited heaps current with
  | zero =>
    simp only [secondary_from, Option.some.injEq, Except.ok.injEq, Prod.mk.injEq] at listed
    obtain ⟨rfl, rfl⟩ := listed
    exact ⟨[], by simp, Traced.stopped 0 visited current _, fun _ => .inl rfl⟩
  | succ remaining ih =>
    rcases @secondary_from_cases mem layout arena top top_heap remaining visited heaps current with
      ⟨stuck, reason, stops⟩ | ⟨e, fails⟩ | ⟨fresh, prev, links⟩
    · rw [stops] at listed
      simp only [Option.some.injEq, Except.ok.injEq, Prod.mk.injEq] at listed
      obtain ⟨rfl, rfl⟩ := listed
      exact ⟨[], by simp, Traced.stopped _ visited current reason, fun _ => .inr stuck⟩
    · rw [fails] at listed
      simp at listed
    · rcases secondary_from_links arena remaining heaps fresh links with
        ⟨_, endless⟩ | ⟨heap, rfl, isHeap, turn⟩
      · rw [endless] at listed
        simp at listed
      · rw [turn] at listed
        by_cases oldest : prev = 0
        · subst oldest
          simp only [if_true, Option.some.injEq, Except.ok.injEq, Prod.mk.injEq] at listed
          obtain ⟨rfl, rfl⟩ := listed
          exact ⟨[heap], rfl, Traced.last fresh isHeap, by simp⟩
        · rw [if_neg oldest] at listed
          obtain ⟨new, rfl, traced, _⟩ := ih listed
          exact ⟨heap :: new, by simp, traced.cons fresh isHeap oldest, by simp⟩

private theorem secondary_from_chain (arena : Arena) {remaining : Nat} {visited rest : List UInt64} (heaps : List Heap)
    {current last : UInt64} (few : rest.length < remaining) (distinct : (current :: rest).Nodup)
    (fresh : ∀ a ∈ current :: rest, a ∉ visited) (chain : Chain mem layout top top_heap current rest last) :
    (∃ a ∈ current :: rest, EndlessPadding mem layout top top_heap a) ∧
      secondary_from mem layout arena top top_heap remaining visited heaps current = none ∨
    (∀ a ∈ current :: rest, ¬ EndlessPadding mem layout top top_heap a) ∧
      (last = 0 → ∃ new, new.map Heap.address = current :: rest ∧
        secondary_from mem layout arena top top_heap remaining visited heaps current = some (.ok (heaps ++ new, []))) := by
  induction rest generalizing remaining visited heaps current with
  | nil =>
    obtain ⟨spare, rfl⟩ : ∃ spare, remaining = spare + 1 := ⟨remaining - 1, by simp at few; omega⟩
    rcases secondary_from_links arena spare heaps (fresh current (by simp)) chain with
      ⟨endless, never⟩ | ⟨heap, rfl, isHeap, turn⟩
    · exact .inl ⟨⟨current, by simp, endless⟩, never⟩
    · refine .inr ⟨by simpa using not_endless_of_listed isHeap, ?_⟩
      rintro rfl
      exact ⟨[heap], rfl, by rw [turn, if_pos rfl]⟩
  | cons next rest ih =>
    obtain ⟨spare, rfl⟩ : ∃ spare, remaining = spare + 1 := ⟨remaining - 1, by simp at few; omega⟩
    obtain ⟨links, linked, later⟩ := chain
    rcases secondary_from_links arena spare heaps (fresh current (by simp)) links with
      ⟨endless, never⟩ | ⟨heap, rfl, isHeap, turn⟩
    · exact .inl ⟨⟨current, by simp, endless⟩, never⟩
    rw [if_neg linked] at turn
    have restFresh := Chase.fresh_tail distinct fresh
    have room : rest.length < spare := by simpa using few
    rcases ih (heaps ++ [heap]) room distinct.of_cons restFresh later with ⟨⟨a, member, endless⟩, never⟩ | ⟨quiet, lists⟩
    · exact .inl ⟨⟨a, List.mem_cons_of_mem _ member, endless⟩, turn.trans never⟩
    · refine .inr ⟨?_, ?_⟩
      · intro a member
        rcases List.mem_cons.mp member with rfl | inRest
        · exact not_endless_of_listed isHeap
        · exact quiet a inRest
      · intro null
        obtain ⟨new, addresses, run⟩ := lists null
        exact ⟨heap :: new, by rw [List.map_cons, addresses], by rw [turn, run, List.append_assoc]; rfl⟩

/-- A run that never ends has come along a chain to a padding that does not. -/
theorem secondary_from_endless (arena : Arena) (remaining : Nat) {visited : List UInt64} {heaps : List Heap}
    {current : UInt64} (never : secondary_from mem layout arena top top_heap remaining visited heaps current = none) :
    ∃ rest last, rest.length < remaining ∧ (current :: rest).Nodup ∧ (∀ a ∈ current :: rest, a ∉ visited) ∧
      Chain mem layout top top_heap current rest last ∧
      ∃ a ∈ current :: rest, EndlessPadding mem layout top top_heap a := by
  induction remaining generalizing visited heaps current with
  | zero => simp [secondary_from] at never
  | succ remaining ih =>
    rcases @secondary_from_cases mem layout arena top top_heap remaining visited heaps current with
      ⟨_, reason, stops⟩ | ⟨e, fails⟩ | ⟨fresh, prev, links⟩
    · rw [stops] at never
      simp at never
    · rw [fails] at never
      simp at never
    · rcases secondary_from_links arena remaining heaps fresh links with ⟨endless, _⟩ | ⟨heap, rfl, isHeap, turn⟩
      · exact ⟨[], prev, by simp, by simp, by simpa using fresh, links, current, by simp, endless⟩
      rw [turn] at never
      by_cases oldest : prev = 0
      · simp [oldest] at never
      rw [if_neg oldest] at never
      obtain ⟨rest, last, few, distinct, unseen, chain, a, member, endless⟩ := ih never
      refine ⟨prev :: rest, last, by simpa using few, ?_, ?_, ⟨links, oldest, chain⟩, a,
        List.mem_cons_of_mem _ member, endless⟩
      · refine List.nodup_cons.mpr ⟨?_, distinct⟩
        intro again
        exact unseen _ again (by simp)
      · intro b inside
        rcases List.mem_cons.mp inside with rfl | later
        · exact fresh
        · exact fun seen => unseen b later (by simp [seen])

end

/-- A chain of new heaps from the top's heap on, as many as are followed. -/
structure ArenaChain (mem : MemReader) (layout : DetectedLayout) (arena : Arena) (top : UInt64) (rest : List UInt64)
    (last : UInt64) : Prop where
  readTop : mem.read_u64 (topField layout arena) = .ok top
  used : top ≠ 0
  few : rest.length < MAX_HEAPS
  distinct : (to_heap_start top layout.heap_max_size :: rest).Nodup
  chain : Chain mem layout top (to_heap_start top layout.heap_max_size) (to_heap_start top layout.heap_max_size)
    rest last

/-- A heap of such a chain has a padding that never ends. -/
def Scanless (mem : MemReader) (layout : DetectedLayout) (top : UInt64) (rest : List UInt64) : Prop :=
  ∃ a ∈ to_heap_start top layout.heap_max_size :: rest,
    EndlessPadding mem layout top (to_heap_start top layout.heap_max_size) a

/-- What the listing of a used secondary arena is. -/
structure Followed (mem : MemReader) (layout : DetectedLayout) (arena : Arena) (top : UInt64) (heaps : List Heap)
    (problems : List Problem) : Prop where
  distinct : (heaps.map Heap.address).Nodup
  few : heaps.length ≤ MAX_HEAPS
  first : heaps.head?.map Heap.address = some (to_heap_start top layout.heap_max_size)
  rounded : ∀ k, layout.heap_max_size.toNat = 2 ^ k →
    (to_heap_start top layout.heap_max_size).toNat = top.toNat / 2 ^ k * 2 ^ k
  path : ∃ last, Path mem layout top (to_heap_start top layout.heap_max_size)
    (to_heap_start top layout.heap_max_size) heaps last ∧ (problems = [] ↔ last = 0)
  first_end : ∀ heap ∈ heaps.head?, heap.region_end = top + layout.word
  other_ends : ∀ heap ∈ heaps.tail, heap.region_end.toNat = heap.address.toNat + heap.size.toNat
  most : problems.length ≤ 1

section
variable {mem : MemReader} {layout : DetectedLayout} {arena : Arena} {top : UInt64}

private theorem list_secondary_used (readTop : mem.read_u64 (topField layout arena) = .ok top) (used : top ≠ 0) :
    list_secondary mem layout arena =
      secondary_from mem layout arena top (to_heap_start top layout.heap_max_size) MAX_HEAPS [] []
        (to_heap_start top layout.heap_max_size) := by
  simp only [list_secondary, readTop, if_neg used]

theorem list_secondary_followed {heaps : List Heap} {problems : List Problem}
    (readTop : mem.read_u64 (topField layout arena) = .ok top) (used : top ≠ 0)
    (listed : list_secondary mem layout arena = some (.ok (heaps, problems))) :
    Followed mem layout arena top heaps problems := by
  rw [list_secondary_used readTop used] at listed
  obtain ⟨_, rfl, traced, started⟩ := secondary_from_traced MAX_HEAPS listed
  obtain ⟨last, path, ending⟩ := traced.path
  have some : heaps ≠ [] := by
    intro none
    rcases started none with capped | seen | listed | ⟨info, _, overflows⟩
    · exact absurd capped (by decide)
    · simp at seen
    · simp at listed
    · simp [secondary_end] at overflows
  obtain ⟨head, tail, rfl⟩ := List.exists_cons_of_ne_nil some
  have each := path.each
  have ⟨isTop, prev, headIs, _⟩ := path
  refine ⟨traced.distinct, traced.few, by simp [isTop], ?_, ⟨last, path, ?_⟩, ?_, ?_, ?_⟩
  · intro k block
    exact to_heap_start_toNat block top
  · rcases ending with ⟨clean, _, null⟩ | ⟨⟨reason, cut⟩, nonzero⟩
    · simp [clean, null]
    · simp [cut, nonzero some]
  · intro heap first
    obtain rfl : head = heap := by simpa using first
    have ends := headIs.region_end
    rw [secondary_end, if_pos isTop] at ends
    exact (Option.some.inj ends).symm
  · intro heap later
    obtain ⟨_, isHeap⟩ := each heap (List.mem_cons_of_mem _ later)
    have other : heap.address ≠ to_heap_start top layout.heap_max_size := by
      intro same
      have distinct := (List.nodup_cons.mp traced.distinct).1
      exact distinct (isTop.trans same.symm ▸ List.mem_map_of_mem later)
    have ends := isHeap.region_end
    rw [secondary_end, if_neg other] at ends
    exact checked_add_eq_some.mp ends
  · rcases ending with ⟨clean, _⟩ | ⟨⟨reason, cut⟩, _⟩
    · simp [clean]
    · simp [cut]

theorem list_secondary_complete {rest : List UInt64} (chain : ArenaChain mem layout arena top rest 0)
    (ends : ¬ Scanless mem layout top rest) : ∃ heaps, list_secondary mem layout arena = some (.ok (heaps, [])) ∧
      heaps.map Heap.address = to_heap_start top layout.heap_max_size :: rest := by
  rcases secondary_from_chain arena [] chain.few chain.distinct (fun _ _ => List.not_mem_nil) chain.chain with
    ⟨endless, _⟩ | ⟨_, lists⟩
  · exact absurd endless ends
  · obtain ⟨heaps, addresses, run⟩ := lists rfl
    exact ⟨heaps, by rw [list_secondary_used chain.readTop chain.used, run]; rfl, addresses⟩

/-- The listing of a secondary arena never ends exactly when its chain comes to
    a padding that does not. -/
theorem list_secondary_eq_none : list_secondary mem layout arena = none ↔
    ∃ top rest last, ArenaChain mem layout arena top rest last ∧ Scanless mem layout top rest := by
  constructor
  · intro never
    cases readTop : mem.read_u64 (topField layout arena) with
    | error e => simp [list_secondary, readTop] at never
    | ok top =>
      by_cases unused : top = 0
      · simp [list_secondary, readTop, unused] at never
      rw [list_secondary_used readTop unused] at never
      obtain ⟨rest, last, few, distinct, _, chain, endless⟩ := secondary_from_endless arena MAX_HEAPS never
      exact ⟨top, rest, last, ⟨readTop, unused, few, distinct, chain⟩, endless⟩
  · rintro ⟨top, rest, last, chain, endless⟩
    rw [list_secondary_used chain.readTop chain.used]
    rcases secondary_from_chain arena [] chain.few chain.distinct (fun _ _ => List.not_mem_nil) chain.chain with
      ⟨_, never⟩ | ⟨quiet, _⟩
    · exact never
    · obtain ⟨a, member, never⟩ := endless
      exact absurd never (quiet a member)

end

end HeapAnalyser.HeapChain
