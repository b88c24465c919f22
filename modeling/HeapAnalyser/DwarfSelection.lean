import HeapAnalyser.DwarfMembers

/-!
The selection of `glibc/dwarf.rs` does not depend on order or repetition:
`select` gives a layout exactly where it is the only one among those that the
candidates are valid for (`select_eq_ok`), so `assemble_layout` gives one exactly
where every required target has one such layout (`assemble_layout_unambiguous`).
-/
namespace HeapAnalyser.DwarfSelection
open Checks Dwarf DwarfMembers

/-- The candidates of a target. -/
def listed (index : TypeIndex) (target : Target) : List Structure := (index.candidates target).getD []

/-- What the candidates of a target are validated to. -/
def Layout : Target → Type
  | .MallocState => MallocStateLayout
  | .MallocPar => MallocParLayout
  | .HeapInfo => HeapInfoLayout
  | .Tcache => TcacheLayout

/-- The validator of a target. -/
def validate (word : UInt64) : (target : Target) → Structure → Except DwarfLayoutError (Layout target)
  | .MallocState => fun struct => validate_malloc_state struct word
  | .MallocPar => fun struct => validate_malloc_par struct word
  | .HeapInfo => fun struct => validate_heap_info struct word
  | .Tcache => fun struct => validate_tcache struct word

/-- The distinct layouts that the candidates of a target are valid for. -/
def validLayouts (index : TypeIndex) (word : UInt64) (target : Target) : Set (Layout target) :=
  outcomes (validate word target) (listed index target)

/-- Only old glibc versions have no tcache. -/
def Required (require_tcache : Bool) (target : Target) : Prop := target = .Tcache → require_tcache = true

/-- A layout that consists of the numbers of four structures' layouts. -/
structure MadeOf (layout : DwarfLayout) (malloc_state : MallocStateLayout) (malloc_par : MallocParLayout)
    (heap_info : HeapInfoLayout) (tcache : Option TcacheLayout) : Prop where
  malloc_state_size : layout.malloc_state_size.toNat = malloc_state.size.toNat
  fastbin_array_offset : layout.fastbin_array_offset.toNat = malloc_state.fastbins.toNat
  fastbin_count : layout.fastbin_count.toNat = malloc_state.fastbin_count.toNat
  malloc_state_top_offset : layout.malloc_state_top_offset.toNat = malloc_state.top.toNat
  malloc_state_next_offset : layout.malloc_state_next_offset.toNat = malloc_state.next.toNat
  mp_arena_max_offset : layout.mp_arena_max_offset.map UInt32.toNat = malloc_par.arena_max.map UInt64.toNat
  mp_sbrk_base_offset : layout.mp_sbrk_base_offset.toNat = malloc_par.sbrk_base.toNat
  mp_tcache_bins_offset : layout.mp_tcache_bins_offset.map UInt32.toNat = malloc_par.tcache_bins.map UInt64.toNat
  heap_info_size : layout.heap_info_size.toNat = heap_info.size.toNat
  heap_info_ar_ptr_offset : layout.heap_info_ar_ptr_offset.toNat = heap_info.ar_ptr.toNat
  heap_info_prev_offset : layout.heap_info_prev_offset.toNat = heap_info.prev.toNat
  heap_info_size_offset : layout.heap_info_size_offset.toNat = heap_info.current_size.toNat
  heap_info_mprotect_size_offset : layout.heap_info_mprotect_size_offset.toNat = heap_info.mprotect_size.toNat
  tcache_entries_offset : layout.tcache_entries_offset.map UInt32.toNat = tcache.map (·.entries.toNat)
  tcache_max_bins : layout.tcache_max_bins.map UInt32.toNat = tcache.map (·.bins.toNat)

/-- Every required target has one valid layout, and these are the layout's. -/
structure SelectedFrom (index : TypeIndex) (word : UInt64) (require_tcache : Bool) (layout : DwarfLayout)
    (malloc_state : MallocStateLayout) (malloc_par : MallocParLayout) (heap_info : HeapInfoLayout)
    (tcache : Option TcacheLayout) : Prop where
  malloc_state_only : validLayouts index word .MallocState = {malloc_state}
  malloc_par_only : validLayouts index word .MallocPar = {malloc_par}
  heap_info_only : validLayouts index word .HeapInfo = {heap_info}
  tcache_only : require_tcache = true → ∃ layout, tcache = some layout ∧ validLayouts index word .Tcache = {layout}
  tcache_none : require_tcache = false → tcache = none
  made : MadeOf layout malloc_state malloc_par heap_info tcache

/-- A change of an index that has no say in what its candidates are valid for:
    an edit of a target's candidates, or another error for a target. -/
inductive IndexEdit (word : UInt64) (index : TypeIndex) : TypeIndex → Prop where
  | candidates (target : Target) {others : List Structure}
      (edit : Edit (validate word target) (listed index target) others) :
    IndexEdit word index { index with candidates := Function.update index.candidates target (some others) }
  | error (target : Target) (error : DwarfLayoutError) :
    IndexEdit word index { index with errors := Function.update index.errors target (some error) }

/-- The layout that is assembled of an index is the one that the candidates of
    each required target agree on. -/
structure Unambiguous (index : TypeIndex) (word : UInt64) (require_tcache : Bool) : Prop where
  selected : ∀ layout, assemble_layout index word require_tcache = .ok layout ↔
    ∃ malloc_state malloc_par heap_info tcache,
      SelectedFrom index word require_tcache layout malloc_state malloc_par heap_info tcache
  returned : (∃ layout, assemble_layout index word require_tcache = .ok layout) ↔
    ∀ target, Required require_tcache target → ∃ only, validLayouts index word target = {only}
  edited : ∀ other layout, Relation.ReflTransGen (IndexEdit word) index other →
    assemble_layout index word require_tcache = .ok layout → assemble_layout other word require_tcache = .ok layout
  conflicting : ∀ target, Required require_tcache target → ∀ first ∈ validLayouts index word target,
    ∀ second ∈ validLayouts index word target, first ≠ second →
      ∀ layout, assemble_layout index word require_tcache ≠ .ok layout

/-- The loop of `select` collects the valid layouts, each of them once. -/
theorem select_from_values {T : Type} [DecidableEq T] (check : Structure → Except DwarfLayoutError T)
    (candidates : List Structure) {valid : List T} (nodup : valid.Nodup) (first_error : Option DwarfLayoutError) :
    (select_from check candidates valid first_error).1.Nodup ∧
    ∀ v, v ∈ (select_from check candidates valid first_error).1 ↔ v ∈ valid ∨ v ∈ outcomes check candidates := by
  induction candidates generalizing valid first_error with
  | nil =>
    refine ⟨nodup, fun v => ?_⟩
    simp [select_from, outcomes]
  | cons candidate rest ih =>
    have split (v : T) : v ∈ outcomes check (candidate :: rest) ↔
        check candidate = .ok v ∨ v ∈ outcomes check rest := by
      simp [outcomes]
    cases checked : check candidate with
    | error error =>
      simp only [select_from, checked, split, reduceCtorEq, false_or]
      exact ih nodup _
    | ok value =>
      by_cases known : value ∈ valid
      · obtain ⟨later, members⟩ := ih nodup first_error
        simp only [select_from, checked, if_pos known, split, Except.ok.injEq]
        refine ⟨later, fun v => ?_⟩
        rw [members v]
        constructor
        · rintro (old | new)
          · exact .inl old
          · exact .inr (.inr new)
        · rintro (old | rfl | new)
          · exact .inl old
          · exact .inl known
          · exact .inr new
      · have longer : (valid ++ [value]).Nodup := nodup.append (List.nodup_singleton value) (by simpa using known)
        obtain ⟨later, members⟩ := ih longer first_error
        simp only [select_from, checked, if_neg known, split, Except.ok.injEq]
        refine ⟨later, fun v => ?_⟩
        rw [members v, List.mem_append, List.mem_singleton, or_assoc, eq_comm]

private theorem select_eq_ok {T : Type} [DecidableEq T] {index : TypeIndex} {target : Target}
    {check : Structure → Except DwarfLayoutError T} {v : T} :
    select index target check = .ok v ↔ outcomes check (listed index target) = {v} := by
  cases entry : index.candidates target with
  | none =>
    have empty : outcomes check (listed index target) = ∅ := by simp [listed, entry, outcomes]
    rw [empty]
    simp [select, entry, Set.ext_iff]
  | some candidates =>
    obtain ⟨nodup, members⟩ := select_from_values check candidates List.nodup_nil none
    have same : {w | w ∈ (select_from check candidates [] none).1} = outcomes check (listed index target) := by
      ext w
      simp [members, listed, entry]
    rw [← same, ← eq_singleton_iff_of_nodup nodup]
    simp only [select, entry]
    rcases select_from check candidates [] none with ⟨_ | ⟨first, _ | ⟨second, rest⟩⟩, first_error⟩ <;> simp [invalid]

private theorem checked_u32_eq_ok {value : UInt64} {field : String} {narrow : UInt32} :
    checked_u32 value field = .ok narrow ↔ narrow.toNat = value.toNat := by
  have bound := narrow.toNat_lt
  by_cases fits : value.toNat < 2 ^ 32
  · rw [checked_u32, if_pos fits, Except.ok.injEq, ← UInt32.toNat_inj, UInt64.toNat_toUInt32, Nat.mod_eq_of_lt fits]
    exact eq_comm
  · simp only [checked_u32, if_neg fits, invalid, reduceCtorEq, false_iff]
    omega

private theorem transpose_u32_eq_ok {T : Type} {value : Option T} {number : T → UInt64} {field : String}
    {narrow : Option UInt32} : transpose (value.map fun v => checked_u32 (number v) field) = .ok narrow ↔
      narrow.map UInt32.toNat = value.map fun v => (number v).toNat := by
  rw [transpose_eq_ok]
  cases value with
  | none => cases narrow <;> simp
  | some v =>
    cases narrow with
    | none => simp
    | some n => simp [checked_u32_eq_ok]

private theorem narrow_layout_eq_ok {layout : DwarfLayout} {malloc_state : MallocStateLayout}
    {malloc_par : MallocParLayout} {heap_info : HeapInfoLayout} {tcache : Option TcacheLayout} :
    narrow_layout malloc_state malloc_par heap_info tcache = .ok layout ↔
      MadeOf layout malloc_state malloc_par heap_info tcache := by
  simp only [narrow_layout, bind_eq_ok, checked_u32_eq_ok, transpose_u32_eq_ok, pure, Except.pure, Except.ok.injEq]
  constructor
  · rintro ⟨_, size, _, fastbins, _, count, _, top, _, next, _, arena_max, _, sbrk_base, _, tcache_bins, _, info_size, _,
      ar_ptr, _, prev, _, current_size, _, mprotect_size, _, entries, _, bins, rfl⟩
    exact ⟨size, fastbins, count, top, next, arena_max, sbrk_base, tcache_bins, info_size, ar_ptr, prev, current_size,
      mprotect_size, entries, bins⟩
  · rintro ⟨size, fastbins, count, top, next, arena_max, sbrk_base, tcache_bins, info_size, ar_ptr, prev, current_size,
      mprotect_size, entries, bins⟩
    exact ⟨_, size, _, fastbins, _, count, _, top, _, next, _, arena_max, _, sbrk_base, _, tcache_bins, _, info_size, _,
      ar_ptr, _, prev, _, current_size, _, mprotect_size, _, entries, _, bins, rfl⟩

/-- Of a tcache that is not required nothing is selected. -/
theorem select_tcache_eq_ok {index : TypeIndex} {word : UInt64} {require_tcache : Bool} {tcache : Option TcacheLayout} :
    (if require_tcache then (select index .Tcache (validate_tcache · word)).map some else .ok none) = .ok tcache ↔
      (require_tcache = true → ∃ layout, tcache = some layout ∧ validLayouts index word .Tcache = {layout}) ∧
      (require_tcache = false → tcache = none) := by
  cases require_tcache with
  | false => simp [eq_comm]
  | true =>
    simp only [if_true, forall_const, reduceCtorEq, false_implies, and_true]
    constructor
    · intro mapped
      cases selected : select index .Tcache (validate_tcache · word) with
      | error error =>
        rw [selected] at mapped
        cases mapped
      | ok value =>
        rw [selected] at mapped
        cases mapped
        have only := select_eq_ok.mp selected
        exact ⟨value, rfl, only⟩
    · rintro ⟨value, rfl, only⟩
      have selected : select index .Tcache (validate_tcache · word) = .ok value := select_eq_ok.mpr only
      rw [selected]
      rfl

/-- A layout is assembled of the only valid ones. -/
theorem assemble_layout_eq_ok {index : TypeIndex} {word : UInt64} {require_tcache : Bool} {layout : DwarfLayout} :
    assemble_layout index word require_tcache = .ok layout ↔ (word = 4 ∨ word = 8) ∧
      ∃ malloc_state malloc_par heap_info tcache,
        SelectedFrom index word require_tcache layout malloc_state malloc_par heap_info tcache := by
  simp only [assemble_layout, bind_eq_ok, refuse_eq_ok, not_not, select_eq_ok, narrow_layout_eq_ok,
    select_tcache_eq_ok]
  constructor
  · rintro ⟨_, isWord, malloc_state, state_only, malloc_par, par_only, heap_info, info_only, tcache,
      ⟨required, absent⟩, made⟩
    exact ⟨isWord, malloc_state, malloc_par, heap_info, tcache, state_only, par_only, info_only, required, absent, made⟩
  · rintro ⟨isWord, malloc_state, malloc_par, heap_info, tcache, state_only, par_only, info_only, required, absent, made⟩
    exact ⟨⟨⟩, isWord, malloc_state, state_only, malloc_par, par_only, heap_info, info_only, tcache,
      ⟨required, absent⟩, made⟩

theorem validate_struct_size_ok {size : UInt64} {word : UInt8} {done : Unit}
    (accepted : validate_struct_size size word = .ok done) : size ≤ MAX_STRUCT_SIZE := by
  rw [validate_struct_size, refuse_eq_ok, not_or, not_or, UInt64.not_lt] at accepted
  exact accepted.2.1

private theorem narrow_toNat {v : UInt64} (small : v.toNat < 2 ^ 32) : v.toUInt32.toNat = v.toNat := by
  rw [UInt64.toNat_toUInt32, Nat.mod_eq_of_lt small]

private theorem narrow_map {T : Type} (number : T → UInt64) {value : Option T}
    (small : ∀ v ∈ value, (number v).toNat < 2 ^ 32) :
    (value.map fun v => (number v).toUInt32).map UInt32.toNat = value.map fun v => (number v).toNat := by
  cases value with
  | none => rfl
  | some v => rw [Option.map_some, Option.map_some, Option.map_some, narrow_toNat (small v rfl)]

private theorem optionalWord_small {struct : Structure} {word : Nat} {name : String} {offset : Option UInt64}
    (optional : OptionalWord struct word name (offset.map UInt64.toNat)) (bounded : struct.byte_size ≤ MAX_STRUCT_SIZE) :
    ∀ v ∈ offset, v.toNat < 2 ^ 32 := by
  intro v isOffset
  rw [Option.mem_def] at isOffset
  rw [isOffset] at optional
  have stop_le := optional.2.2
  have limit : struct.byte_size.toNat ≤ 2 ^ 20 := UInt64.le_iff_toNat_le.mp bounded
  omega

section narrowing
variable {index : TypeIndex} {word : UInt64}
  (bounded : ∀ target, ∀ candidate ∈ listed index target, candidate.byte_size ≤ MAX_STRUCT_SIZE)
include bounded

private theorem malloc_state_small {layout : MallocStateLayout} (valid : layout ∈ validLayouts index word .MallocState) :
    layout.size.toNat < 2 ^ 32 ∧ layout.fastbins.toNat < 2 ^ 32 ∧ layout.fastbin_count.toNat < 2 ^ 32 ∧
    layout.top.toNat < 2 ^ 32 ∧ layout.next.toNat < 2 ^ 32 := by
  obtain ⟨candidate, member, accepted⟩ := valid
  have facts := validate_malloc_state_ok accepted
  have limit : candidate.byte_size.toNat ≤ 2 ^ 20 := UInt64.le_iff_toNat_le.mp (bounded _ candidate member)
  have size_eq := facts.size_eq
  have fastbins_inside := facts.fastbins_inside
  have few := facts.count_range.2
  have top_inside := facts.top_word.2
  have next_inside := facts.next_word.2
  omega

private theorem malloc_par_small {layout : MallocParLayout} (valid : layout ∈ validLayouts index word .MallocPar) :
    (∀ v ∈ layout.arena_max, v.toNat < 2 ^ 32) ∧ layout.sbrk_base.toNat < 2 ^ 32 ∧
    ∀ v ∈ layout.tcache_bins, v.toNat < 2 ^ 32 := by
  obtain ⟨candidate, member, accepted⟩ := valid
  have facts := validate_malloc_par_ok accepted
  have limit : candidate.byte_size.toNat ≤ 2 ^ 20 := UInt64.le_iff_toNat_le.mp (bounded _ candidate member)
  have inside := facts.sbrk_base_word.2
  exact ⟨optionalWord_small facts.arena_max_word (bounded _ candidate member), by omega,
    optionalWord_small facts.tcache_bins_word (bounded _ candidate member)⟩

theorem heap_info_small {layout : HeapInfoLayout} (valid : layout ∈ validLayouts index word .HeapInfo) :
    layout.size.toNat < 2 ^ 32 ∧ layout.ar_ptr.toNat < 2 ^ 32 ∧ layout.prev.toNat < 2 ^ 32 ∧
    layout.current_size.toNat < 2 ^ 32 ∧ layout.mprotect_size.toNat < 2 ^ 32 := by
  obtain ⟨candidate, member, accepted⟩ := valid
  have facts := validate_heap_info_ok accepted
  have limit : candidate.byte_size.toNat ≤ 2 ^ 20 := UInt64.le_iff_toNat_le.mp (bounded _ candidate member)
  have size_eq := facts.size_eq
  have words := facts.words
  simp only [List.forall_mem_cons, WordAt] at words
  omega

private theorem tcache_small {layout : TcacheLayout} (valid : layout ∈ validLayouts index word .Tcache) :
    layout.entries.toNat < 2 ^ 32 ∧ layout.bins.toNat < 2 ^ 32 := by
  obtain ⟨candidate, member, accepted⟩ := valid
  have facts := validate_tcache_ok accepted
  have limit : candidate.byte_size.toNat ≤ 2 ^ 20 := UInt64.le_iff_toNat_le.mp (bounded _ candidate member)
  have inside := facts.entries_inside
  have few := facts.count_range.2
  omega

/-- The valid layouts of bounded structures fit `u32` offsets. -/
theorem exists_madeOf {malloc_state : MallocStateLayout} {malloc_par : MallocParLayout} {heap_info : HeapInfoLayout}
    {tcache : Option TcacheLayout} (state_valid : malloc_state ∈ validLayouts index word .MallocState)
    (par_valid : malloc_par ∈ validLayouts index word .MallocPar)
    (info_valid : heap_info ∈ validLayouts index word .HeapInfo)
    (tcache_valid : ∀ layout ∈ tcache, layout ∈ validLayouts index word .Tcache) :
    ∃ layout, MadeOf layout malloc_state malloc_par heap_info tcache := by
  obtain ⟨size, fastbins, fastbin_count, top, next⟩ := malloc_state_small bounded state_valid
  obtain ⟨arena_max, sbrk_base, tcache_bins⟩ := malloc_par_small bounded par_valid
  obtain ⟨info_size, ar_ptr, prev, current_size, mprotect_size⟩ := heap_info_small bounded info_valid
  have small (layout) (isTcache : layout ∈ tcache) := tcache_small bounded (tcache_valid layout isTcache)
  exact ⟨⟨_, _, _, _, _, _, _, _, _, _, _, _, _, _, _⟩, narrow_toNat size, narrow_toNat fastbins,
    narrow_toNat fastbin_count, narrow_toNat top, narrow_toNat next, narrow_map id arena_max, narrow_toNat sbrk_base,
    narrow_map id tcache_bins, narrow_toNat info_size, narrow_toNat ar_ptr, narrow_toNat prev,
    narrow_toNat current_size, narrow_toNat mprotect_size,
    narrow_map TcacheLayout.entries fun layout isTcache => (small layout isTcache).1,
    narrow_map TcacheLayout.bins fun layout isTcache => (small layout isTcache).2⟩

end narrowing

/-! ## Selection -/

private theorem validLayouts_edit {word : UInt64} {index other : TypeIndex} (edit : IndexEdit word index other)
    (target : Target) : validLayouts other word target = validLayouts index word target := by
  cases edit with
  | error changed error => rfl
  | @candidates changed others edit =>
    by_cases same : target = changed
    · subst same
      have edited : listed { index with candidates := Function.update index.candidates target (some others) } target =
          others := by simp [listed]
      rw [validLayouts, edited, outcomes_edit edit, validLayouts]
    · have kept : listed { index with candidates := Function.update index.candidates changed (some others) } target =
          listed index target := by simp [listed, Function.update_of_ne same]
      rw [validLayouts, kept, validLayouts]

private theorem validLayouts_edits {word : UInt64} {index other : TypeIndex}
    (edits : Relation.ReflTransGen (IndexEdit word) index other) (target : Target) :
    validLayouts other word target = validLayouts index word target := by
  induction edits with
  | refl => rfl
  | tail _ edit ih => rw [validLayouts_edit edit, ih]

/-- A required target has one valid layout where a layout is selected. -/
theorem SelectedFrom.only {index : TypeIndex} {word : UInt64} {require_tcache : Bool} {layout : DwarfLayout}
    {malloc_state : MallocStateLayout} {malloc_par : MallocParLayout} {heap_info : HeapInfoLayout}
    {tcache : Option TcacheLayout}
    (selected : SelectedFrom index word require_tcache layout malloc_state malloc_par heap_info tcache)
    {target : Target} (required : Required require_tcache target) : ∃ only, validLayouts index word target = {only} := by
  cases target with
  | MallocState => exact ⟨malloc_state, selected.malloc_state_only⟩
  | MallocPar => exact ⟨malloc_par, selected.malloc_par_only⟩
  | HeapInfo => exact ⟨heap_info, selected.heap_info_only⟩
  | Tcache =>
    obtain ⟨value, _, only⟩ := selected.tcache_only (required rfl)
    exact ⟨value, only⟩

/-- Where the required targets of bounded structures have one valid layout each, one is assembled. -/
theorem assemble_layout_returns {index : TypeIndex} {word : UInt64} {require_tcache : Bool} (isWord : word = 4 ∨ word = 8)
    (bounded : ∀ target, ∀ candidate ∈ listed index target, candidate.byte_size ≤ MAX_STRUCT_SIZE)
    (agreed : ∀ target, Required require_tcache target → ∃ only, validLayouts index word target = {only}) :
    ∃ layout, assemble_layout index word require_tcache = .ok layout := by
  obtain ⟨malloc_state, state_only⟩ := agreed .MallocState (by simp [Required])
  obtain ⟨malloc_par, par_only⟩ := agreed .MallocPar (by simp [Required])
  obtain ⟨heap_info, info_only⟩ := agreed .HeapInfo (by simp [Required])
  obtain ⟨tcache, required, absent, valid⟩ : ∃ tcache : Option TcacheLayout,
      (require_tcache = true → ∃ layout, tcache = some layout ∧ validLayouts index word .Tcache = {layout}) ∧
      (require_tcache = false → tcache = none) ∧ ∀ layout ∈ tcache, layout ∈ validLayouts index word .Tcache := by
    cases require_tcache with
    | false => exact ⟨none, by simp, by simp, by simp⟩
    | true =>
      obtain ⟨value, only⟩ := agreed .Tcache (by simp [Required])
      refine ⟨some value, fun _ => ⟨value, rfl, only⟩, by simp, ?_⟩
      intro layout isValue
      obtain rfl := Option.some.inj isValue
      exact (Set.eq_singleton_iff_unique_mem.mp only).1
  have state_valid := (Set.eq_singleton_iff_unique_mem.mp state_only).1
  have par_valid := (Set.eq_singleton_iff_unique_mem.mp par_only).1
  have info_valid := (Set.eq_singleton_iff_unique_mem.mp info_only).1
  obtain ⟨layout, made⟩ := exists_madeOf bounded state_valid par_valid info_valid valid
  exact ⟨layout, assemble_layout_eq_ok.mpr ⟨isWord, malloc_state, malloc_par, heap_info, tcache, state_only, par_only,
    info_only, required, absent, made⟩⟩

theorem assemble_layout_unambiguous (index : TypeIndex) (word : UInt64) (require_tcache : Bool)
    (isWord : word = 4 ∨ word = 8)
    (bounded : ∀ target, ∀ candidate ∈ listed index target, candidate.byte_size ≤ MAX_STRUCT_SIZE) :
    Unambiguous index word require_tcache := by
  refine ⟨?_, ?_, ?_, ?_⟩
  · intro layout
    rw [assemble_layout_eq_ok, and_iff_right isWord]
  · constructor
    · rintro ⟨layout, accepted⟩ target required
      obtain ⟨_, _, _, _, _, selected⟩ := assemble_layout_eq_ok.mp accepted
      exact selected.only required
    · intro agreed
      exact assemble_layout_returns isWord bounded agreed
  · intro other layout edits accepted
    obtain ⟨_, malloc_state, malloc_par, heap_info, tcache, selected⟩ := assemble_layout_eq_ok.mp accepted
    refine assemble_layout_eq_ok.mpr ⟨isWord, malloc_state, malloc_par, heap_info, tcache, ?_⟩
    have same := validLayouts_edits edits
    exact ⟨(same _).trans selected.malloc_state_only, (same _).trans selected.malloc_par_only,
      (same _).trans selected.heap_info_only, fun required => same .Tcache ▸ selected.tcache_only required,
      selected.tcache_none, selected.made⟩
  · intro target required first first_valid second second_valid differ layout accepted
    obtain ⟨_, _, _, _, _, selected⟩ := assemble_layout_eq_ok.mp accepted
    obtain ⟨only, isOnly⟩ := selected.only required
    rw [isOnly] at first_valid second_valid
    exact differ (first_valid.trans second_valid.symm)

def member (name : String) (offset : UInt64) (ty : TypeInfo) : Member := ⟨name, offset, ty⟩

def scalar_type (kind : TypeKind) (byte_size : UInt64) : TypeInfo := ⟨kind, some byte_size, none, none, none⟩

def array_type (element_kind : TypeKind) (element_size count : UInt64) : TypeInfo :=
  ⟨.Array, some (element_size * count), some element_kind, some element_size, some count⟩

/-- An index with one definition of each target. -/
def valid_index (count_kind : TypeKind) (count_width entry_bins : UInt64) : TypeIndex where
  candidates
    | .MallocState => some [⟨112, [member "fastbinsY" 16 (array_type .Pointer 8 10),
        member "top" 96 (scalar_type .Pointer 8), member "next" 104 (scalar_type .Pointer 8)]⟩]
    | .MallocPar => some [⟨24, [member "arena_max" 0 (scalar_type .Unsigned 8),
        member "sbrk_base" 8 (scalar_type .Pointer 8), member "tcache_bins" 16 (scalar_type .Unsigned 8)]⟩]
    | .HeapInfo => some [⟨32, [member "ar_ptr" 0 (scalar_type .Pointer 8), member "prev" 8 (scalar_type .Pointer 8),
        member "size" 16 (scalar_type .Unsigned 8), member "mprotect_size" 24 (scalar_type .Unsigned 8)]⟩]
    | .Tcache => some [⟨count_width * 64 + entry_bins * 8, [member "counts" 0 (array_type count_kind count_width 64),
        member "entries" (count_width * 64) (array_type .Pointer 8 entry_bins)]⟩]
  errors := fun _ => none

theorem assemble_layout_unambiguous_valid_index : Unambiguous (valid_index .Unsigned 2 64) 8 true :=
  assemble_layout_unambiguous _ 8 true (.inr rfl) fun target => by cases target <;> decide

end HeapAnalyser.DwarfSelection
