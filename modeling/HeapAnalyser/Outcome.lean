import HeapAnalyser.Degradation
import HeapAnalyser.EndToEnd

/-!
The outcome of a run. The one loop of the traversals without a cap is the padding
skip, and it goes on for ever only over zeros all the way round the address
space, which segments of less than 2^64 bytes cannot hold
(`not_zeroGrid_of_backed`). So on a core of such segments the command ends, with
a report if and only if its files are usable, the libc is found and the two words
that the traversals start from are readable (`report_returned_iff`).
-/
namespace HeapAnalyser.Outcome
open Machine Checks Arenas HeapList HeapChain Image MappedFiles Version Detection DebugLink Diagnosis CoreMemory
open Degradation Tls Analyze Analysis Locate Pipeline Agreement EndToEnd

section
variable {mem : MemReader} {layout : DetectedLayout} {libc_addr : UInt64}

private theorem analyze_arenas_ends (quiet : ∀ arena, ¬ EndlessScan mem layout libc_addr arena) (tls : TlsInfo)
    (threads : List Tls.Thread) (arenas : List Arena) :
    ∃ result, analyze_arenas mem layout libc_addr tls threads arenas = some result := by
  induction arenas with
  | nil => exact ⟨_, rfl⟩
  | cons arena rest ih =>
    obtain ⟨later, returns⟩ := ih
    rcases one : analyze_arena mem layout libc_addr tls threads arena with _ | e | ⟨report, problems⟩
    · exact absurd (analyze_arena_eq_none.mp one) (quiet arena)
    · exact ⟨.error e, by simp only [analyze_arenas, one]⟩
    · cases later with
      | error e => exact ⟨.error e, by simp only [analyze_arenas, one, returns]⟩
      | ok found => exact ⟨_, by simp only [analyze_arenas, one, returns]; rfl⟩

private theorem analyze_core_ends (quiet : ∀ arena, ¬ EndlessScan mem layout libc_addr arena) (identity : Identity)
    (threads : List Tls.Thread) : ∃ result, analyze_core mem layout identity libc_addr threads = some result := by
  unfold analyze_core
  cases Arenas.list mem layout libc_addr with
  | error e => exact ⟨_, rfl⟩
  | ok listed =>
    obtain ⟨arenas, arena_problems⟩ := listed
    obtain ⟨result, returns⟩ := analyze_arenas_ends quiet
      (resolve_tls mem layout libc_addr arenas threads (detected layout identity ++ arena_problems)).1 threads arenas
    simp only [returns]
    cases result with
    | error e => exact ⟨_, rfl⟩
    | ok found => exact ⟨_, rfl⟩

/-- Without the words it starts from there is no report. -/
theorem started_of_report {identity : Identity} {threads : List Tls.Thread} {report : Analysis.Report}
    (ran : analyze_core mem layout identity libc_addr threads = some (.ok report)) : Started mem layout libc_addr := by
  unfold analyze_core at ran
  cases readTop : mem.read_u64 (mainAddr layout libc_addr + layout.malloc_state_top_offset.toUInt64) with
  | error e => simp [Arenas.list, readTop] at ran
  | ok top =>
    cases readBase : mem.read_u64 (libc_addr + layout.mp.value + layout.mp_sbrk_base_offset.toUInt64) with
    | ok sbrk_base => exact ⟨⟨top, readTop⟩, ⟨sbrk_base, readBase⟩⟩
    | error e =>
      -- the main arena is the first, and fails
      have fails : ∀ tls, analyze_arena mem layout libc_addr tls threads ⟨mainAddr layout libc_addr, 0⟩ =
          some (.error e) := by
        intro tls
        have main : (⟨mainAddr layout libc_addr, 0⟩ : Arena).is_main = true := rfl
        simp only [analyze_arena, HeapList.list, main, if_true, list_main, readBase]
      simp only [Arenas.list, readTop, analyze_arenas, fails] at ran
      cases ran

private theorem report_of_started (started : Started mem layout libc_addr)
    (quiet : ∀ arena, ¬ EndlessScan mem layout libc_addr arena) (identity : Identity) (threads : List Tls.Thread) :
    ∃ report, analyze_core mem layout identity libc_addr threads = some (.ok report) := by
  obtain ⟨top, readTop⟩ := started.top
  have listed : ∃ arenas problems, Arenas.list mem layout libc_addr = .ok (arenas, problems) := by
    simp only [Arenas.list, readTop]
    exact ⟨_, _, rfl⟩
  obtain ⟨arenas, problems, listed⟩ := listed
  rcases analyze_core_cases started identity threads listed with ⟨⟨arena, _, endless⟩, _⟩ | ⟨_, returns⟩
  · exact absurd endless (quiet arena)
  · exact returns

end

section
variable {world : World} {core_path : String} {libc_ref_path force_libc libc_debug_path : Option String}
  {core reference : Object} {arch : Handler} {mapped : List MappedFile} {debug : Option Object}

private theorem chosen_of_located (listed : mapped_files (notes core.toElf) core.is_64 = .ok mapped)
    {located : LocatedLibc}
    (found : locate world core.toElf force_libc (compute_identity world.sha256 reference.toElf) = .ok located) :
    ∃ m, Chosen world core reference mapped m force_libc ∧
      located = ⟨m.start, strip_deleted m.path, force_libc.isNone⟩ := by
  have isListed := mappings_eq_ok.mpr listed
  cases force_libc with
  | none =>
    simp only [locate, NtFileLocator.locate, isListed, ok_bind] at found
    cases first : (libc_candidates mapped).find? fun m => identity_matches world.sha256 core.toElf m.start
        (compute_identity world.sha256 reference.toElf) with
    | none =>
      rw [first] at found
      cases found
    | some m =>
      rw [first] at found
      exact ⟨m, candidate_found.mp first, (Except.ok.inj found).symm⟩
  | some path =>
    simp only [locate, ForcePathLocator.locate, isListed, ok_bind] at found
    cases first : force_select mapped path with
    | none =>
      rw [first] at found
      cases found
    | some m =>
      rw [first] at found
      exact ⟨m, forced_found.mp first, (Except.ok.inj found).symm⟩

/-- The libc that is loaded is the one that is given, or that the core names. -/
theorem reference_of_loaded (loaded : load_reference world mapped libc_ref_path >>= world.parse = .ok reference) :
    ∃ path, world.elf path = .ok reference ∧
      (libc_ref_path = some path ∨ (libc_ref_path = none ∧ recorded_libc mapped = some path)) := by
  cases libc_ref_path with
  | some path => exact ⟨path, loaded, .inl rfl⟩
  | none =>
    obtain ⟨image, isImage, parsed⟩ := bind_eq_ok.mp loaded
    obtain ⟨path, recorded, isFile⟩ := bind_eq_ok.mp isImage
    refine ⟨path, ?_, .inr ⟨rfl, ok_or_eq_ok.mp recorded⟩⟩
    cases own : world.load path with
    | error failure =>
      rw [own] at isFile
      cases isFile
    | ok data =>
      rw [own] at isFile
      obtain rfl := Except.ok.inj isFile
      simp only [World.elf, own, ok_bind]
      exact parsed

private theorem debug_of_loaded (loaded : load_debug world reference libc_debug_path = .ok debug) :
    (libc_debug_path = none ∧ debug = none) ∨ ∃ path own, libc_debug_path = some path ∧ debug = some own ∧
      world.elf path = .ok own ∧ verify_debug_matches_runtime world.crc32 reference own = .ok () := by
  cases libc_debug_path with
  | none => exact .inl ⟨rfl, (Except.ok.inj loaded).symm⟩
  | some path =>
    obtain ⟨own, isOwn, verified⟩ := bind_eq_ok.mp loaded
    obtain ⟨done, matched, isDebug⟩ := bind_eq_ok.mp verified
    refine .inr ⟨path, own, rfl, (Except.ok.inj isDebug).symm, isOwn, ?_⟩
    cases check : verify_debug_matches_runtime world.crc32 reference own with
    | error reason =>
      rw [check] at matched
      cases matched
    | ok value => rfl

/-- A run is prepared exactly from usable files in which the libc is found. -/
theorem prepare_eq_ok {p : Prepared} : prepare world core_path libc_ref_path force_libc libc_debug_path = .ok p ↔
    ∃ core arch threads mapped reference debug m,
      Supplied world core_path libc_ref_path libc_debug_path core arch threads mapped reference debug ∧
      Chosen world core reference mapped m force_libc ∧
      p = ⟨core, threads, detect_with_debug world.toTools reference debug arch,
        compute_identity world.sha256 reference.toElf, ⟨m.start, strip_deleted m.path, force_libc.isNone⟩⟩ := by
  constructor
  · intro ready
    obtain ⟨core, isCore, ready⟩ := bind_eq_ok.mp ready
    obtain ⟨arch, known, ready⟩ := bind_eq_ok.mp ready
    obtain ⟨threads, isThreads, ready⟩ := bind_eq_ok.mp ready
    obtain ⟨mapped, listed, ready⟩ := bind_eq_ok.mp ready
    obtain ⟨image, isImage, ready⟩ := bind_eq_ok.mp ready
    obtain ⟨reference, parsed, ready⟩ := bind_eq_ok.mp ready
    obtain ⟨debug, isDebug, ready⟩ := bind_eq_ok.mp ready
    by_cases missing : ∃ symbol, .MissingSymbol symbol ∈ (detect_with_debug world.toTools reference debug arch).problems
    · obtain ⟨symbol, _, refused⟩ := @prepare_with_missing world core arch threads _ _ force_libc missing
      rw [refused] at ready
      cases ready
    rw [prepare_with_found missing] at ready
    obtain ⟨located, isLocated, isPrepared⟩ := bind_eq_ok.mp ready
    have listing := mappings_eq_ok.mp listed
    obtain ⟨m, chosen, rfl⟩ := chosen_of_located listing isLocated
    have threadsRead : Threads.threads (notes core.toElf) arch.toArch = .ok threads := by
      cases own : Threads.threads (notes core.toElf) arch.toArch with
      | error e =>
        rw [own] at isThreads
        cases isThreads
      | ok found =>
        rw [own] at isThreads
        exact congrArg Except.ok (Except.ok.inj isThreads)
    exact ⟨core, arch, threads, mapped, reference, debug, m,
      ⟨⟨isCore, ok_or_eq_ok.mp known, threadsRead⟩, listing, reference_of_loaded (bind_eq_ok.mpr ⟨image, isImage, parsed⟩),
        debug_of_loaded isDebug, fun gap => missing ⟨_, mem_missing_symbol.mpr (.inl ⟨rfl, gap⟩)⟩,
        fun gap => missing ⟨_, mem_missing_symbol.mpr (.inr ⟨rfl, gap⟩)⟩⟩,
      chosen, (Except.ok.inj isPrepared).symm⟩
  · rintro ⟨core, arch, threads, mapped, reference, debug, m, supplied, chosen, rfl⟩
    exact prepare_supplied supplied chosen

end

private theorem sized_not_endless {world : World} {core reference : Object} {debug : Option Object} {arch : Handler}
    {libc_addr : UInt64} (small : backed core.toElf < 2 ^ 64) (arena : Arena) :
    ¬ EndlessScan core.toElf.reader (detect_with_debug world.toTools reference debug arch).toDetectedLayout libc_addr
      arena := by
  exact not_endlessScan (.inr ⟨_, rfl, small⟩) (detected_words world.toTools reference debug arch).1 arena

theorem analyze_ends {world : World} {core_path : String} {libc_ref_path force_libc libc_debug_path : Option String}
    (small : ∀ core, world.elf core_path = .ok core → backed core.toElf < 2 ^ 64) :
    ∃ result, analyze_core_with_debug world core_path libc_ref_path force_libc libc_debug_path = some result := by
  unfold analyze_core_with_debug
  cases ready : prepare world core_path libc_ref_path force_libc libc_debug_path with
  | error failure => exact ⟨_, rfl⟩
  | ok p =>
    obtain ⟨core, arch, threads, mapped, reference, debug, m, supplied, chosen, rfl⟩ := prepare_eq_ok.mp ready
    obtain ⟨result, ends⟩ := analyze_core_ends (sized_not_endless (small core supplied.opened.elf))
      (compute_identity world.sha256 reference.toElf) (threads.map tlsThread)
    simp only [finish, analyze_prepared]
    rw [ends]
    exact ⟨_, rfl⟩

/-- On a core whose segments have less than 2^64 bytes the command always ends, and
    it returns a report if and only if the files are usable, the libc is found in
    the core, and there the two words that the traversals start from are readable. -/
theorem report_returned_iff (world : World) (core_path : String)
    (libc_ref_path force_libc libc_debug_path : Option String)
    (small : ∀ core, world.elf core_path = .ok core → backed core.toElf < 2 ^ 64) :
    (∃ result, analyze_core_with_debug world core_path libc_ref_path force_libc libc_debug_path = some result) ∧
    ((∃ report, analyze_core_with_debug world core_path libc_ref_path force_libc libc_debug_path = some (.ok report)) ↔
      ∃ core arch threads mapped reference debug m,
        Supplied world core_path libc_ref_path libc_debug_path core arch threads mapped reference debug ∧
        Chosen world core reference mapped m force_libc ∧
        Started core.toElf.reader (detect_with_debug world.toTools reference debug arch).toDetectedLayout m.start) := by
  refine ⟨analyze_ends small, ?_⟩
  unfold analyze_core_with_debug
  cases ready : prepare world core_path libc_ref_path force_libc libc_debug_path with
  | error failure =>
    constructor
    · rintro ⟨report, returned⟩
      cases returned
    · rintro ⟨core, arch, threads, mapped, reference, debug, m, supplied, chosen, _⟩
      rw [prepare_supplied supplied chosen] at ready
      cases ready
  | ok p =>
    obtain ⟨core, arch, threads, mapped, reference, debug, m, supplied, chosen, rfl⟩ := prepare_eq_ok.mp ready
    simp only [finish, analyze_prepared]
    constructor
    · rintro ⟨report, returned⟩
      obtain ⟨result, ran, isReport⟩ := Option.map_eq_some_iff.mp returned
      cases result with
      | error e => cases isReport
      | ok own =>
        exact ⟨core, arch, threads, mapped, reference, debug, m, supplied, chosen, started_of_report ran⟩
    · rintro ⟨other, _, _, _, _, _, _, others, isChosen, started⟩
      have same := prepare_supplied others isChosen
      rw [ready, Except.ok.injEq, Prepared.mk.injEq, LocatedLibc.mk.injEq] at same
      obtain ⟨rfl, _, isLayout, _, isStart, _⟩ := same
      rw [← isLayout, ← isStart] at started
      obtain ⟨own, ran⟩ := report_of_started started (sized_not_endless (small core supplied.opened.elf))
        (compute_identity world.sha256 reference.toElf) (threads.map tlsThread)
      rw [ran]
      exact ⟨_, rfl⟩

theorem small_core_backed : ∀ core, small_world.elf "core" = .ok core → backed core.toElf < 2 ^ 64 := by
  intro core isCore
  obtain rfl := Except.ok.inj (small_core_loaded.symm.trans isCore)
  decide +kernel

theorem small_report_returned :
    ∃ report, analyze_core_with_debug small_world "core" none none none = some (.ok report) := by
  have started : Started small_core_elf.toElf.reader small_layout 0x7000 :=
    ⟨⟨0, by decide +kernel⟩, ⟨0, by decide +kernel⟩⟩
  exact (report_returned_iff small_world "core" none none none small_core_backed).2.mpr
    ⟨small_core_elf, x86_64, [], [libc_mapping], small_libc_elf, none, libc_mapping, small_supplied, small_chosen, started⟩

end HeapAnalyser.Outcome
