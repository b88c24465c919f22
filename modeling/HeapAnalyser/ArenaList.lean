import HeapAnalyser.Arenas

/-!
The arena list on any memory. However the loop ends, what it has listed is a
chain of distinct `next` links from the main arena (`list_from_chained`). It
ends without a problem exactly when the chain comes back to the main arena, or
to a null, with a turn to spare (`list_clean_iff`).
-/
namespace HeapAnalyser.ArenaList
open Arenas

/-- Each address stores the one after it as its `next`. -/
def Linked (mem : MemReader) (layout : DetectedLayout) : UInt64 → List UInt64 → Prop
  | _, [] => True
  | a, b :: rest => mem.read_u64 (nextField layout a) = .ok b ∧ Linked mem layout b rest

/-- Each address stores the one after it as its `next`, and the last one the
    main arena or a null. -/
def Closes (mem : MemReader) (layout : DetectedLayout) (main_addr : UInt64) : UInt64 → List UInt64 → Prop
  | a, [] => ∃ next, mem.read_u64 (nextField layout a) = .ok next ∧ (next = main_addr ∨ next = 0)
  | a, b :: rest => mem.read_u64 (nextField layout a) = .ok b ∧ Closes mem layout main_addr b rest

/-- Following `next` from the main arena comes back to it, or to a null, past
    distinct arenas, fewer than `MAX_ARENAS` in all. -/
def RingCloses (mem : MemReader) (layout : DetectedLayout) (libc_addr : UInt64) : Prop :=
  ∃ rest, rest.length + 1 < MAX_ARENAS ∧ (mainAddr layout libc_addr :: rest).Nodup ∧ 0 ∉ rest ∧
    Closes mem layout (mainAddr layout libc_addr) (mainAddr layout libc_addr) rest

/-- The addresses of some arenas. -/
def addrsOf (arenas : List Arena) : List UInt64 := arenas.map Arena.malloc_state_addr

/-- How a list ended: closed with a turn to spare, or with one problem, about
    the arena that would have come next. -/
def Ended (mem : MemReader) (layout : DetectedLayout) (main_addr : UInt64) (remaining : Nat) (current : UInt64)
    (index : UInt32) (new : List Arena) (problems : List Problem) : Prop :=
  problems = [] ∧ new.length < remaining ∧ Closes mem layout main_addr current (addrsOf new) ∨
  ∃ reason, problems = [.HeapWalkTruncated (index + UInt32.ofNat new.length) reason]

/-- What the loop adds to the arenas it has visited. -/
structure Chained (mem : MemReader) (layout : DetectedLayout) (main_addr : UInt64) (remaining : Nat)
    (visited : List UInt64) (current : UInt64) (index : UInt32) (new : List Arena) (problems : List Problem) : Prop where
  numbered : new = numbered index (addrsOf new)
  few : new.length ≤ remaining
  linked : Linked mem layout current (addrsOf new)
  readable : ∀ a ∈ addrsOf new, ∃ next, mem.read_u64 (nextField layout a) = .ok next
  distinct : (addrsOf new).Nodup
  fresh : ∀ a ∈ addrsOf new, a ∉ visited ∧ a ≠ main_addr ∧ a ≠ 0
  ending : Ended mem layout main_addr remaining current index new problems

section
variable {mem : MemReader} {layout : DetectedLayout} {main_addr : UInt64}

theorem Closes.linked {a : UInt64} {rest : List UInt64} (closes : Closes mem layout main_addr a rest) :
    Linked mem layout a rest := by
  induction rest generalizing a with
  | nil => trivial
  | cons b rest ih => exact ⟨closes.1, ih closes.2⟩

theorem Closes.readable {a : UInt64} {rest : List UInt64} (closes : Closes mem layout main_addr a rest) :
    ∀ b ∈ a :: rest, ∃ next, mem.read_u64 (nextField layout b) = .ok next := by
  induction rest generalizing a with
  | nil =>
    obtain ⟨next, read, _⟩ := closes
    simpa using ⟨next, read⟩
  | cons b rest ih =>
    intro other member
    rcases List.mem_cons.mp member with rfl | later
    · exact ⟨b, closes.1⟩
    · exact ih closes.2 other later

theorem Closes.last {a : UInt64} {rest : List UInt64} (closes : Closes mem layout main_addr a rest) :
    ∃ next, mem.read_u64 (nextField layout ((a :: rest).getLast (by simp))) = .ok next ∧
      (next = main_addr ∨ next = 0) := by
  induction rest generalizing a with
  | nil => exact closes
  | cons b rest ih =>
    rw [List.getLast_cons_cons]
    exact ih closes.2

@[simp] theorem addrsOf_numbered (index : UInt32) (addrs : List UInt64) : addrsOf (numbered index addrs) = addrs := by
  induction addrs generalizing index with
  | nil => rfl
  | cons a rest ih =>
    show a :: addrsOf (numbered (index + 1) rest) = a :: rest
    rw [ih]

private theorem numbered_index {index : UInt32} {addrs : List UInt64} {i : Nat}
    (inside : i < (numbered index addrs).length)
    (fits : index.toNat + addrs.length ≤ 2 ^ 32) : (numbered index addrs)[i].index.toNat = index.toNat + i := by
  induction addrs generalizing index i with
  | nil => simp [numbered] at inside
  | cons a rest ih =>
    cases i with
    | zero => rfl
    | succ i =>
      rw [List.length_cons] at fits
      by_cases last : rest = []
      · subst last
        simp [numbered] at inside
      have more : 0 < rest.length := List.length_pos_iff.mpr last
      have next : (index + 1).toNat = index.toNat + 1 := by
        rw [UInt32.toNat_add]
        exact Nat.mod_eq_of_lt (by simp only [UInt32.reduceToNat]; omega)
      have inRest : i < (numbered (index + 1) rest).length := by simpa [numbered] using inside
      have found := ih inRest (by omega)
      rw [next] at found
      simp only [numbered, List.getElem_cons_succ, found]
      omega

private theorem stopped (remaining : Nat) (visited : List UInt64) (current : UInt64) (index : UInt32) (reason : String) :
    Chained mem layout main_addr remaining visited current index [] [.HeapWalkTruncated index reason] :=
  ⟨rfl, by simp, trivial, by simp [addrsOf], by simp [addrsOf], by simp [addrsOf], .inr ⟨reason, by simp⟩⟩

private theorem Chained.cons {remaining : Nat} {visited : List UInt64} {current next : UInt64} {index : UInt32}
    {new : List Arena} {problems : List Problem} (read : mem.read_u64 (nextField layout current) = .ok next)
    (probe : ∃ after, mem.read_u64 (nextField layout next) = .ok after) (unseen : next ∉ visited)
    (notMain : next ≠ main_addr) (nonzero : next ≠ 0)
    (rest : Chained mem layout main_addr remaining (next :: visited) next (index + 1) new problems) :
    Chained mem layout main_addr (remaining + 1) visited current index (⟨next, index⟩ :: new) problems := by
  refine ⟨?_, by simpa using rest.few, ⟨read, rest.linked⟩, ?_, ?_, ?_, ?_⟩
  · show _ = ⟨next, index⟩ :: Arenas.numbered (index + 1) (addrsOf new)
    rw [← rest.numbered]
  · intro a member
    rcases List.mem_cons.mp member with rfl | later
    · exact probe
    · exact rest.readable a later
  · refine List.nodup_cons.mpr ⟨?_, rest.distinct⟩
    intro member
    exact (rest.fresh next member).1 (by simp)
  · intro a member
    rcases List.mem_cons.mp member with rfl | later
    · exact ⟨unseen, notMain, nonzero⟩
    · obtain ⟨fresh, others⟩ := rest.fresh a later
      exact ⟨fun seen => fresh (by simp [seen]), others⟩
  · rcases rest.ending with ⟨clean, spare, closes⟩ | ⟨reason, one⟩
    · exact .inl ⟨clean, by simpa using spare, read, closes⟩
    · exact .inr ⟨reason, by rw [List.length_cons, index_step, one]⟩

/-- However the loop ends, it has added a chain of new arenas. -/
theorem list_from_chained (remaining : Nat) (visited : List UInt64) (current : UInt64) (index : UInt32) :
    Chained mem layout main_addr remaining visited current index
      (list_from mem layout main_addr remaining visited current index).1
      (list_from mem layout main_addr remaining visited current index).2 := by
  induction remaining generalizing visited current index with
  | zero => exact stopped 0 visited current index _
  | succ remaining ih =>
    cases read : mem.read_u64 (nextField layout current) with
    | error e =>
      simp only [list_from, read]
      exact stopped _ visited current index _
    | ok next =>
      by_cases ends : next = main_addr ∨ next = 0
      · simp only [list_from, read, ends, if_true]
        exact ⟨rfl, by simp, trivial, by simp [addrsOf], by simp [addrsOf], by simp [addrsOf],
          .inl ⟨rfl, by simp, next, read, ends⟩⟩
      by_cases seen : next ∈ visited
      · simp only [list_from, read, ends, if_false, seen, if_true]
        exact stopped _ visited current index _
      cases probe : mem.read_u64 (nextField layout next) with
      | error e =>
        simp only [list_from, read, ends, if_false, seen, probe]
        exact stopped _ visited current index _
      | ok after =>
        simp only [list_from, read, ends, if_false, seen, probe]
        obtain ⟨notMain, nonzero⟩ := not_or.mp ends
        exact (ih (next :: visited) next (index + 1)).cons read ⟨after, probe⟩ seen notMain nonzero

/-- Along a chain of new arenas the loop lists them all and goes on from the last. -/
theorem list_from_linked (spare : Nat) {visited rest : List UInt64} {current : UInt64} (index : UInt32)
    (links : Linked mem layout current rest)
    (readable : ∀ a ∈ rest, ∃ next, mem.read_u64 (nextField layout a) = .ok next) (distinct : rest.Nodup)
    (fresh : ∀ a ∈ rest, a ∉ visited ∧ a ≠ main_addr ∧ a ≠ 0) :
    ∃ seen, list_from mem layout main_addr (rest.length + spare) visited current index =
      (numbered index rest ++
        (list_from mem layout main_addr spare seen ((current :: rest).getLast (by simp))
          (index + UInt32.ofNat rest.length)).1,
       (list_from mem layout main_addr spare seen ((current :: rest).getLast (by simp))
          (index + UInt32.ofNat rest.length)).2) := by
  induction rest generalizing visited current index with
  | nil => exact ⟨visited, by simp [numbered]⟩
  | cons next rest ih =>
    obtain ⟨read, later⟩ := links
    obtain ⟨unseen, notMain, nonzero⟩ := fresh next (by simp)
    have restFresh := fresh_step distinct fresh
    obtain ⟨after, probe⟩ := readable next (by simp)
    obtain ⟨seen, tail⟩ := ih (index + 1) later (fun a member => readable a (by simp [member])) distinct.of_cons
      restFresh
    refine ⟨seen, ?_⟩
    rw [List.length_cons, Nat.add_right_comm, list_from, read]
    simp only [notMain, nonzero, or_self, if_false, unseen, probe, tail, numbered, List.getLast_cons_cons, index_step,
      List.cons_append]

/-- A chain that closes with a turn to spare is listed in full and clean. -/
theorem list_from_closes {remaining : Nat} {visited rest : List UInt64} {current : UInt64} (index : UInt32)
    (room : rest.length < remaining) (closes : Closes mem layout main_addr current rest) (distinct : rest.Nodup)
    (fresh : ∀ a ∈ rest, a ∉ visited ∧ a ≠ main_addr ∧ a ≠ 0) :
    list_from mem layout main_addr remaining visited current index = (numbered index rest, []) := by
  obtain ⟨spare, rfl⟩ : ∃ spare, remaining = rest.length + (spare + 1) := ⟨remaining - rest.length - 1, by omega⟩
  obtain ⟨seen, run⟩ := list_from_linked (spare + 1) index closes.linked
    (fun a member => closes.readable a (List.mem_cons_of_mem _ member)) distinct fresh
  obtain ⟨next, read, ends⟩ := closes.last
  rw [run]
  simp only [list_from, read, ends, if_true, List.append_nil]

end

/-- What an arena list is, on any memory on which it succeeds. -/
structure Listed (mem : MemReader) (layout : DetectedLayout) (libc_addr : UInt64) (arenas : List Arena)
    (found : List Problem) : Prop where
  first : arenas.head? = some ⟨mainAddr layout libc_addr, 0⟩
  indexed : ∀ i (inside : i < arenas.length), arenas[i].index.toNat = i
  few : arenas.length ≤ MAX_ARENAS
  distinct : (addrsOf arenas).Nodup
  linked : Linked mem layout (mainAddr layout libc_addr) (addrsOf arenas.tail)
  readable : ∀ a ∈ addrsOf arenas.tail, ∃ next, mem.read_u64 (nextField layout a) = .ok next
  nonzero : ∀ arena ∈ arenas.tail, arena.malloc_state_addr ≠ 0
  problems : found = [] ∨ ∃ reason, found = [.HeapWalkTruncated (UInt32.ofNat arenas.length) reason]
  closed : found = [] → Closes mem layout (mainAddr layout libc_addr) (mainAddr layout libc_addr)
    (addrsOf arenas.tail)

section
variable {mem : MemReader} {layout : DetectedLayout} {libc_addr : UInt64} {arenas : List Arena}
  {problems : List Problem}

/-- A list that succeeds is the main arena in front of the loop's arenas. -/
private theorem list_loop (listed : list mem layout libc_addr = .ok (arenas, problems)) :
    arenas = ⟨mainAddr layout libc_addr, 0⟩ ::
        (list_from mem layout (mainAddr layout libc_addr) 1023 [mainAddr layout libc_addr]
          (mainAddr layout libc_addr) 1).1 ∧
      problems = (list_from mem layout (mainAddr layout libc_addr) 1023 [mainAddr layout libc_addr]
        (mainAddr layout libc_addr) 1).2 := by
  unfold list at listed
  cases readTop : mem.read_u64 (mainAddr layout libc_addr + layout.malloc_state_top_offset.toUInt64) with
  | error e => simp [readTop] at listed
  | ok top =>
    simp only [readTop, Except.ok.injEq, Prod.mk.injEq] at listed
    exact ⟨listed.1.symm, listed.2.symm⟩

theorem list_listed (listed : list mem layout libc_addr = .ok (arenas, problems)) :
    Listed mem layout libc_addr arenas problems := by
  obtain ⟨rfl, rfl⟩ := list_loop listed
  have chained := @list_from_chained mem layout (mainAddr layout libc_addr) 1023 [mainAddr layout libc_addr]
    (mainAddr layout libc_addr) 1
  generalize (list_from mem layout (mainAddr layout libc_addr) 1023 [mainAddr layout libc_addr]
    (mainAddr layout libc_addr) 1).1 = new at chained ⊢
  generalize (list_from mem layout (mainAddr layout libc_addr) 1023 [mainAddr layout libc_addr]
    (mainAddr layout libc_addr) 1).2 = found at chained ⊢
  have few := chained.few
  have length : (addrsOf new).length = new.length := by simp [addrsOf]
  refine ⟨rfl, ?_, by rw [List.length_cons, MAX_ARENAS]; omega, ?_, chained.linked, chained.readable, ?_, ?_, ?_⟩
  · have whole : (⟨mainAddr layout libc_addr, 0⟩ :: new : List Arena) =
        numbered 0 (mainAddr layout libc_addr :: addrsOf new) := by
      rw [numbered, chained.numbered, addrsOf_numbered]
      rfl
    rw [whole]
    intro i inside
    rw [numbered_index inside (by rw [List.length_cons, length]; change 0 + _ ≤ _; omega)]
    exact Nat.zero_add i
  · refine List.nodup_cons.mpr ⟨?_, chained.distinct⟩
    intro member
    exact (chained.fresh _ member).2.1 rfl
  · intro arena member
    exact (chained.fresh _ (List.mem_map_of_mem member)).2.2
  · rcases chained.ending with ⟨clean, _⟩ | ⟨reason, one⟩
    · exact .inl clean
    · refine .inr ⟨reason, ?_⟩
      rw [one, List.length_cons, Nat.add_comm, UInt32.ofNat_add]
      rfl
  · intro clean
    rcases chained.ending with ⟨_, _, closes⟩ | ⟨reason, one⟩
    · exact closes
    · simp [clean] at one

/-- Distinct addresses behind the main arena are new to a run that starts there. -/
theorem fresh_of_distinct {main_addr : UInt64} {rest : List UInt64} (distinct : (main_addr :: rest).Nodup)
    (nonzero : 0 ∉ rest) : ∀ a ∈ rest, a ∉ [main_addr] ∧ a ≠ main_addr ∧ a ≠ 0 := by
  intro a member
  have other : a ≠ main_addr := by
    rintro rfl
    exact (List.nodup_cons.mp distinct).1 member
  refine ⟨by simpa using other, other, ?_⟩
  rintro rfl
  exact nonzero member

/-- An arena list is clean exactly when the ring closes with a turn to spare. -/
theorem list_clean_iff (listed : list mem layout libc_addr = .ok (arenas, problems)) :
    problems = [] ↔ RingCloses mem layout libc_addr := by
  obtain ⟨rfl, rfl⟩ := list_loop listed
  constructor
  · intro clean
    have chained := @list_from_chained mem layout (mainAddr layout libc_addr) 1023 [mainAddr layout libc_addr]
      (mainAddr layout libc_addr) 1
    rcases chained.ending with ⟨_, spare, closes⟩ | ⟨reason, one⟩
    · refine ⟨_, ?_, ?_, ?_, closes⟩
      · rw [addrsOf, List.length_map, MAX_ARENAS]
        omega
      · refine List.nodup_cons.mpr ⟨?_, chained.distinct⟩
        intro member
        exact (chained.fresh _ member).2.1 rfl
      · intro member
        exact (chained.fresh 0 member).2.2 rfl
    · simp [clean] at one
  · rintro ⟨rest, few, distinct, nonzero, closes⟩
    rw [list_from_closes 1 (by rw [MAX_ARENAS] at few; omega) closes distinct.of_cons
      (fresh_of_distinct distinct nonzero)]

end

end HeapAnalyser.ArenaList
