import HeapAnalyser.Walk

/-!
What the chunk walk depends on. A turn of the loop reads the next size field
and, at most, the word the end-of-heap test looks at; both lie between the
current size field and the end of the region (`walk_step_congr`,
`at_sentinel_congr`). So two memories that agree on the region are walked alike,
and two that agree up to a chunk's next size field give the same events up to
there, as long as the end-of-heap test cannot fire (`walk_region_confined`).
-/
namespace HeapAnalyser.WalkConfined
open Machine Walk

/-- The two memories answer alike at every address of `[lo, hi]`. -/
def AgreeOn (a b : MemReader) (lo hi : UInt64) : Prop :=
  ∀ addr, lo ≤ addr → addr ≤ hi → a.read_u64 addr = b.read_u64 addr

theorem AgreeOn.mono {a b : MemReader} {lo hi lo' hi' : UInt64} (agree : AgreeOn a b lo hi) (above : lo ≤ lo')
    (below : hi' ≤ hi) : AgreeOn a b lo' hi' := by
  intro addr after before
  exact agree addr (UInt64.le_trans above after) (UInt64.le_trans before below)

/-- The size-field address that follows some events of a walk from `start`. -/
def addressAfter (start : UInt64) (events : List ChunkEvent) : UInt64 :=
  (events.getLast?.map fun event => event.size_field_addr + event.full_size).getD start

/-- The size field of an event's chunk carries `NON_MAIN_ARENA`. -/
def Flagged (mem : MemReader) (event : ChunkEvent) : Prop :=
  ∃ raw, mem.read_u64 event.size_field_addr = .ok raw ∧ raw &&& NON_MAIN_ARENA ≠ 0

private theorem addressAfter_cons (start : UInt64) (event : ChunkEvent) (rest : List ChunkEvent) :
    addressAfter start (event :: rest) = addressAfter (event.size_field_addr + event.full_size) rest := by
  cases rest with
  | nil => rfl
  | cons second tail =>
    simp only [addressAfter, List.getLast?_cons_cons]
    cases found : (second :: tail).getLast? with
    | none => simp at found
    | some last => rfl

section
variable {a b mem : MemReader} {layout : DetectedLayout} {arena_index : UInt32} {region_end : UInt64}
  {is_main_arena : Bool}

private theorem at_sentinel_congr {current next_cursor next_header : UInt64}
    (agree : AgreeOn a b next_cursor region_end) :
    at_sentinel a layout region_end is_main_arena current next_cursor next_header =
      at_sentinel b layout region_end is_main_arena current next_cursor next_header := by
  unfold at_sentinel
  cases sum : checked_add next_cursor (chunk_size next_header) with
  | none => rfl
  | some sentinel_addr =>
    by_cases last : checked_add sentinel_addr layout.word = some region_end
    · have after : next_cursor ≤ sentinel_addr := by
        have position := checked_add_eq_some.mp sum
        rw [UInt64.le_iff_toNat_le]
        omega
      have before : sentinel_addr ≤ region_end := by
        have position := checked_add_eq_some.mp last
        rw [UInt64.le_iff_toNat_le]
        omega
      simp only [agree sentinel_addr after before]
    · simp [last]

/-- The end-of-heap test never fires in the main arena or at a flagged chunk. -/
theorem at_sentinel_quiet {current : UInt64} (quiet : is_main_arena = true ∨ current &&& NON_MAIN_ARENA ≠ 0)
    (next_cursor next_header : UInt64) :
    at_sentinel mem layout region_end is_main_arena current next_cursor next_header = false := by
  unfold at_sentinel
  rcases quiet with main | flag
  · simp [main]
  · simp [flag]

private theorem walk_step_congr {address header : UInt64}
    (reads : ∀ next, next.toNat = address.toNat + (chunk_size header).toNat → next ≤ region_end →
      a.read_u64 next = b.read_u64 next)
    (tests : ∀ next next_header, next.toNat = address.toNat + (chunk_size header).toNat →
      at_sentinel a layout region_end is_main_arena header next next_header =
        at_sentinel b layout region_end is_main_arena header next next_header) :
    walk_step a layout arena_index region_end is_main_arena address header =
      walk_step b layout arena_index region_end is_main_arena address header := by
  cases sum : checked_add address (chunk_size header) with
  | none => simp only [walk_step, sum]
  | some next =>
    have position := checked_add_eq_some.mp sum
    by_cases past : next > region_end
    · simp only [walk_step, sum, past, if_true]
    · simp only [walk_step, sum, past, if_false, reads next position (UInt64.not_lt.mp past)]
      cases b.read_u64 next with
      | error e => rfl
      | ok next_header => simp only [tests next next_header position]

private theorem walk_step_emit {address header next next_header : UInt64} {event : ChunkEvent}
    (step : walk_step mem layout arena_index region_end is_main_arena address header =
      .emit event next next_header) :
    event = chunk_event layout address header next_header ∧
      next.toNat = address.toNat + (chunk_size header).toNat ∧ next ≤ region_end ∧
      mem.read_u64 next = .ok next_header := by
  unfold walk_step at step
  by_cases small : chunk_size header < 2 * layout.word
  · simp [small] at step
  by_cases unaligned : chunk_size header % layout.alignment ≠ 0
  · simp [small, unaligned] at step
  cases sum : checked_add address (chunk_size header) with
  | none => simp [small, unaligned, sum] at step
  | some reached =>
    by_cases past : reached > region_end
    · simp [small, unaligned, sum, past] at step
    cases read : mem.read_u64 reached with
    | error e => simp [small, unaligned, sum, past, read] at step
    | ok found =>
      by_cases sentinel : at_sentinel mem layout region_end is_main_arena header reached found = true
      · simp [small, unaligned, sum, past, read, sentinel] at step
      · simp only [small, unaligned, sum, past, read, sentinel, if_false, Bool.false_eq_true, Step.emit.injEq] at step
        obtain ⟨rfl, rfl, rfl⟩ := step
        exact ⟨rfl, checked_add_eq_some.mp sum, UInt64.not_lt.mp past, read⟩

private theorem walk_step_next {address header next next_header : UInt64} {event : ChunkEvent}
    (step : walk_step mem layout arena_index region_end is_main_arena address header =
      .emit event next next_header) :
    event.size_field_addr + event.full_size = next ∧ address ≤ next := by
  obtain ⟨rfl, position, _⟩ := walk_step_emit step
  constructor
  · have bound := next.toNat_lt
    rw [← UInt64.toNat_inj, position]
    exact add_toNat (a := address) (b := chunk_size header) (by omega)
  · rw [UInt64.le_iff_toNat_le]
    omega

private theorem walk_from_congr (remaining : Nat) {address : UInt64} (header : UInt64)
    (agree : AgreeOn a b address region_end) :
    walk_from a layout arena_index region_end is_main_arena remaining address header =
      walk_from b layout arena_index region_end is_main_arena remaining address header := by
  induction remaining generalizing address header with
  | zero => rfl
  | succ remaining ih =>
    by_cases same : address = region_end
    · simp only [walk_from, if_pos same]
    have after {next : UInt64} (position : next.toNat = address.toNat + (chunk_size header).toNat) :
        address ≤ next := by
      rw [UInt64.le_iff_toNat_le]
      omega
    have step : walk_step a layout arena_index region_end is_main_arena address header =
        walk_step b layout arena_index region_end is_main_arena address header := by
      apply walk_step_congr
      · intro next position inside
        exact agree next (after position) inside
      · intro next next_header position
        exact at_sentinel_congr (agree.mono (after position) (UInt64.le_refl region_end))
    simp only [walk_from, if_neg same, step]
    cases next : walk_step b layout arena_index region_end is_main_arena address header with
    | stop problems => rfl
    | emit event reached found =>
      have rest := ih found (agree.mono (walk_step_next next).2 (UInt64.le_refl region_end))
      simp only [rest]

private theorem le_addressAfter (remaining k : Nat) (address header : UInt64) :
    address ≤ addressAfter address
      ((walk_from mem layout arena_index region_end is_main_arena remaining address header).1.take k) := by
  induction remaining generalizing address header k with
  | zero =>
    by_cases same : address = region_end
    · simp [walk_from, same, addressAfter]
    · simp [walk_from, same, addressAfter]
  | succ remaining ih =>
    by_cases same : address = region_end
    · simp [walk_from, same, addressAfter]
    cases k with
    | zero => simp [addressAfter]
    | succ k =>
      cases next : walk_step mem layout arena_index region_end is_main_arena address header with
      | stop problems => simp [walk_from, same, next, addressAfter]
      | emit event reached found =>
        obtain ⟨goesOn, grows⟩ := walk_step_next next
        simp only [walk_from, if_neg same, next, List.take_succ_cons, addressAfter_cons, goesOn]
        exact UInt64.le_trans grows (ih k reached found)

/-- A turn whose end-of-heap test cannot fire depends on the size field it comes to. -/
theorem walk_step_stable {address header reached found : UInt64} {event : ChunkEvent}
    (step : walk_step a layout arena_index region_end is_main_arena address header = .emit event reached found)
    (same : a.read_u64 reached = b.read_u64 reached) (silent : is_main_arena = true ∨ header &&& NON_MAIN_ARENA ≠ 0) :
    walk_step b layout arena_index region_end is_main_arena address header = .emit event reached found := by
  obtain ⟨_, position, _, _⟩ := walk_step_emit step
  rw [← step]
  symm
  apply walk_step_congr
  · intro other isNext _
    obtain rfl : other = reached := UInt64.toNat_inj.mp (isNext.trans position.symm)
    exact same
  · intro other other_header _
    rw [at_sentinel_quiet silent, at_sentinel_quiet silent]

/-- Memories that agree up to the size field after the first `k` events give
    those events, where the end-of-heap test cannot fire on them. -/
theorem walk_from_stable (remaining k : Nat) {address header : UInt64} (read : a.read_u64 address = .ok header)
    (few : k ≤ (walk_from a layout arena_index region_end is_main_arena remaining address header).1.length)
    (agree : AgreeOn a b address (addressAfter address
      ((walk_from a layout arena_index region_end is_main_arena remaining address header).1.take k)))
    (quiet : is_main_arena = true ∨
      ∀ event ∈ (walk_from a layout arena_index region_end is_main_arena remaining address header).1.take k,
        Flagged a event) :
    (walk_from b layout arena_index region_end is_main_arena remaining address header).1.take k =
      (walk_from a layout arena_index region_end is_main_arena remaining address header).1.take k := by
  induction k generalizing remaining address header with
  | zero => simp
  | succ k ih =>
    have unfinished : address ≠ region_end := by
      intro same
      cases remaining <;> simp [walk_from, same] at few
    cases remaining with
    | zero => simp [walk_from, unfinished] at few
    | succ remaining =>
      cases next : walk_step a layout arena_index region_end is_main_arena address header with
      | stop problems => simp [walk_from, unfinished, next] at few
      | emit event reached found =>
        obtain ⟨isEvent, _, _, readNext⟩ := walk_step_emit next
        obtain ⟨goesOn, grows⟩ := walk_step_next next
        simp only [walk_from, if_neg unfinished, next, List.length_cons, List.take_succ_cons, addressAfter_cons,
          goesOn] at few agree quiet ⊢
        have behind : reached ≤ addressAfter reached
            ((walk_from a layout arena_index region_end is_main_arena remaining reached found).1.take k) :=
          le_addressAfter remaining k reached found
        have silent : is_main_arena = true ∨ header &&& NON_MAIN_ARENA ≠ 0 := by
          refine quiet.imp_right fun flagged => ?_
          obtain ⟨raw, readRaw, flag⟩ := flagged event (by simp)
          rw [isEvent] at readRaw
          obtain rfl : header = raw := Except.ok.inj (read.symm.trans readRaw)
          exact flag
        have step := walk_step_stable next (agree reached grows behind) silent
        have rest := ih remaining readNext (by omega) (agree.mono grows (UInt64.le_refl _))
          (quiet.imp_right fun flagged other member => flagged other (by simp [member]))
        simp only [step, List.take_succ_cons, rest]

end

/-- What the walk of a region owes to two memories: it is confined to the
    region, and damage behind a chunk's next size field does not reach it. -/
structure Confined (a b : MemReader) (layout : DetectedLayout) (arena_index : UInt32)
    (region_start region_end : UInt64) (is_main_arena : Bool) : Prop where
  confined : AgreeOn a b region_start region_end →
    walk_region a layout arena_index region_start region_end is_main_arena =
      walk_region b layout arena_index region_start region_end is_main_arena
  stable : ∀ k ≤ (walk_region a layout arena_index region_start region_end is_main_arena).1.length,
    AgreeOn a b region_start (addressAfter region_start
      ((walk_region a layout arena_index region_start region_end is_main_arena).1.take k)) →
    (is_main_arena = true ∨
      ∀ event ∈ (walk_region a layout arena_index region_start region_end is_main_arena).1.take k, Flagged a event) →
    (walk_region b layout arena_index region_start region_end is_main_arena).1.take k =
      (walk_region a layout arena_index region_start region_end is_main_arena).1.take k

/-- Nothing outside its region influences a walk, and corruption behind the
    size field after a chunk neither costs nor alters the chunks up to there. -/
theorem walk_region_confined (a b : MemReader) (layout : DetectedLayout) (arena_index : UInt32)
    (region_start region_end : UInt64) (is_main_arena : Bool) :
    Confined a b layout arena_index region_start region_end is_main_arena := by
  by_cases inverted : region_start > region_end
  · simp only [gt_iff_lt] at inverted
    exact ⟨fun _ => by simp [walk_region, inverted], fun k few _ _ => by simp [walk_region, inverted]⟩
  by_cases same : region_start = region_end
  · subst same
    exact ⟨fun _ => by simp [walk_region], fun k few _ _ => by simp [walk_region]⟩
  have order : region_start ≤ region_end := UInt64.not_lt.mp inverted
  constructor
  · intro agree
    have first := agree region_start (UInt64.le_refl _) order
    simp only [walk_region, inverted, same, if_false, first]
    cases b.read_u64 region_start with
    | error e => rfl
    | ok header => exact walk_from_congr MAX_CHUNKS header agree
  · intro k few agree quiet
    cases read : a.read_u64 region_start with
    | error e =>
      have none : k = 0 := by simpa [walk_region, inverted, same, read] using few
      simp [none]
    | ok header =>
      simp only [walk_region, inverted, same, if_false, read] at few agree quiet ⊢
      have behind : region_start ≤ addressAfter region_start
          ((walk_from a layout arena_index region_end is_main_arena MAX_CHUNKS region_start header).1.take k) :=
        le_addressAfter MAX_CHUNKS k region_start header
      rw [← agree region_start (UInt64.le_refl _) behind, read]
      exact walk_from_stable MAX_CHUNKS k read few agree quiet

/-- The three chunks with the third one's size field overwritten. -/
def third_damaged : MemReader := fake_mem [(0x100, 0x21), (0x120, 0x21), (0x140, 0x8), (0x160, 0x21)] []

theorem walk_region_confined_damaged :
    (walk_region third_damaged (test_layout 8) 0 0x100 0x160 true).1.take 1 =
      (walk_region three_chunks (test_layout 8) 0 0x100 0x160 true).1.take 1 := by
  refine (walk_region_confined three_chunks third_damaged (test_layout 8) 0 0x100 0x160 true).stable 1 (by decide) ?_
    (.inl rfl)
  intro addr _ before
  have first : addressAfter 0x100
      ((walk_region three_chunks (test_layout 8) 0 0x100 0x160 true).1.take 1) = 0x120 := by decide
  rw [first] at before
  have other : (addr == 0x140) = false := by
    apply beq_eq_false_iff_ne.mpr
    rintro rfl
    exact absurd before (by decide)
  simp [three_chunks, third_damaged, fake_mem, List.lookup_cons, other]

end HeapAnalyser.WalkConfined
