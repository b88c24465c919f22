import HeapAnalyser.Diagnosis
import HeapAnalyser.Locate
import HeapAnalyser.ProblemArenas
import HeapAnalyser.Recovery

/-!
The two commands, from the files to their reports: `analyze_core_with_debug` of
`analyze.rs` in front of the traversals, and `commands/check.rs`. What lies
outside (files, the ELF parser, hashes) is given by a `World`. A report has the
problems of detection, and then those of the traversals, which are of other
kinds (`analysis_problems`).
-/
namespace HeapAnalyser.Pipeline
open Machine Elf Checks Selection MappedFiles Version SymbolScan Detection Diagnosis DebugLink Locate Analysis

/-- What a run asks of the code outside: the files, the ELF parser and hashes. -/
structure World extends Tools where
  file : String → Option Buffer
  parse_elf : Buffer → Except String Object
  crc32 : List UInt8 → UInt32
  sha256 : List UInt8 → List UInt8

def check_magic (data : Buffer) (path : String) : Except Failure Buffer :=
  if [0x7f, 0x45, 0x4c, 0x46] <+: data.bytes then .ok data else .error (.NotElf path)

namespace World

/-- `Image::load`. -/
def load (world : World) (path : String) : Except Failure Buffer :=
  match world.file path with
  | some data => check_magic data path
  | none => .error (.Io path)

/-- `Image::parse`. -/
def parse (world : World) (image : Buffer) : Except Failure Object := (world.parse_elf image).mapError .ElfParse

/-- The ELF in a file. -/
def elf (world : World) (path : String) : Except Failure Object := do
  let image ← world.load path
  world.parse image

theorem elf_of_file (world : World) {path : String} {data : Buffer} {elf : Object} (isFile : world.file path = some data)
    (magic : [0x7f, 0x45, 0x4c, 0x46] <+: data.bytes) (parsed : world.parse_elf data = .ok elf) :
    world.elf path = .ok elf := by
  have loaded : world.load path = .ok data := by
    unfold load check_magic
    simp only [isFile, if_pos magic]
  unfold World.elf World.parse
  rw [loaded]
  change (world.parse_elf data).mapError Failure.ElfParse = .ok elf
  rw [parsed]
  rfl

end World

def SCHEMA_VERSION : UInt32 := 1
def TOOL_VERSION : String := "0.1.0"

/-- Lowercase hex without separators. -/
def to_hex (bytes : List UInt8) : String :=
  String.ofList (bytes.flatMap fun b => [(b.toNat / 16).digitChar, (b.toNat % 16).digitChar])

example : to_hex [0x1b, 0x2c, 0xff, 0x00] = "1b2cff00" := by decide

inductive IdentityJson where
  | BuildId (value : String)
  | ContentHash (value : String)
  deriving Repr, DecidableEq

def IdentityJson.from : Identity → IdentityJson
  | .BuildId bytes => .BuildId (to_hex bytes)
  | .ContentHash hash => .ContentHash (to_hex hash)

structure LibcInfo where
  path : String
  identity : IdentityJson
  verified : Bool
  deriving Repr, DecidableEq

def LibcInfo.new (located : LocatedLibc) (identity : Identity) : LibcInfo :=
  ⟨located.path, .from identity, located.verified⟩

structure GlibcCapabilitiesJson where
  layout_source : String
  has_tcache : Bool
  has_safe_linking : Bool
  version_source : String
  deriving Repr, DecidableEq

def LayoutSource.as_str : LayoutSource → String
  | .Builtin => "builtin"
  | .Dwarf => "dwarf"

def VersionSource.as_str : VersionSource → String
  | .Detected _ => "gnu_version_d"
  | .AssumedDefault => "assumed_default"

def GlibcCapabilitiesJson.from_layout (layout : Detected) : GlibcCapabilitiesJson where
  layout_source := LayoutSource.as_str layout.layout_source
  has_tcache := layout.capabilities.has_tcache
  has_safe_linking := layout.capabilities.has_safe_linking
  version_source := VersionSource.as_str layout.version_source

/-- The whole report, with the part that the traversals give. -/
structure CoreReport extends Analysis.Report where
  schema_version : UInt32
  tool_version : String
  core_path : String
  libc : LibcInfo
  glibc_capabilities : GlibcCapabilitiesJson
  deriving Repr, DecidableEq

/-- A reason for a fatal problem, for the error message. -/
def describe : Problem → String
  | .MissingSymbol symbol => "missing required symbol '" ++ symbol ++ "'"
  | .UnsupportedArch machine => "unsupported architecture e_machine=" ++ hex machine.toUInt64
  | _ => "reference libc unusable"

/-- The libc that the core itself names, without the kernel's suffix. -/
def recorded_libc (mapped : List MappedFile) : Option String :=
  (mapped.find? fun m => m.file_offset = 0 && looks_like_libc m.path).map fun m => strip_deleted m.path

/-- Use the explicit runtime libc, or open the path recorded in the core. -/
def load_reference (world : World) (mapped : List MappedFile) : Option String → Except Failure Buffer
  | some path => world.load path
  | none => do
    let path ← ok_or (recorded_libc mapped) (.LibcNotFound "no libc mapping in core; pass --libc")
    (world.load path).mapError fun _ => .LibcNotFound ("could not open " ++ path ++ "; pass --libc")

/-- Debuginfo, where there is a path for it, that belongs to the runtime libc. -/
def load_debug (world : World) (reference : Object) : Option String → Except Failure (Option Object)
  | none => .ok none
  | some path => do
    let debug ← world.elf path
    let _ ← (verify_debug_matches_runtime world.crc32 reference debug).mapError Failure.UnusableLibc
    return some debug

/-- What the traversals start from. -/
structure Prepared where
  core : Object
  threads : List Threads.Thread
  layout : Detected
  identity : Identity
  located : LocatedLibc

/-- The locator that the arguments ask for. -/
def locate (world : World) (core : Image.Elf) (force_libc : Option String) (want : Identity) :
    Except Failure LocatedLibc :=
  match force_libc with
  | some path => ForcePathLocator.locate path core
  | none => NtFileLocator.locate world.sha256 core want

/-- The part of `prepare` behind the loading of images. -/
def prepare_with (world : World) (core : Object) (arch : Handler) (threads : List Threads.Thread) (reference : Object)
    (debug : Option Object) (force_libc : Option String) : Except Failure Prepared :=
  let layout := detect_with_debug world.toTools reference debug arch
  match layout.problems.find? is_fatal with
  | some fatal => .error (.UnusableLibc (describe fatal))
  | none => do
    let identity := compute_identity world.sha256 reference.toElf
    let located ← locate world core.toElf force_libc identity
    return ⟨core, threads, layout, identity, located⟩

/-- `analyze_core_with_debug` up to the arena list. -/
def prepare (world : World) (core_path : String) (libc_ref_path force_libc libc_debug_path : Option String) :
    Except Failure Prepared := do
  let core ← world.elf core_path
  let arch ← ok_or (by_elf_machine core.machine) (.UnsupportedArch core.machine)
  let threads ← (Threads.threads (notes core.toElf) arch.toArch).mapError .Core
  let mapped ← mappings core.toElf
  let ref_image ← load_reference world mapped libc_ref_path
  let reference ← world.parse ref_image
  let debug ← load_debug world reference libc_debug_path
  prepare_with world core arch threads reference debug force_libc

/-- A thread as TLS resolution uses it. -/
def tlsThread (thread : Threads.Thread) : Tls.Thread := ⟨thread.thread_id, thread.tp⟩

/-- The traversals of a prepared core; `none` if one never ends. -/
def analyze_prepared (core_path : String) (p : Prepared) : Option (Except Failure CoreReport) :=
  (analyze_core p.core.toElf.reader p.layout.toDetectedLayout p.identity p.located.load_addr
    (p.threads.map tlsThread)).map fun result =>
      match result with
      | .error e => .error (.Core e)
      | .ok report => .ok
        { report with
          schema_version := SCHEMA_VERSION
          tool_version := TOOL_VERSION
          core_path := core_path
          libc := .new p.located p.identity
          glibc_capabilities := .from_layout p.layout }

/-- The result behind the loading of images. -/
def finish (core_path : String) : Except Failure Prepared → Option (Except Failure CoreReport)
  | .error failure => some (.error failure)
  | .ok p => analyze_prepared core_path p

def analyze_core_with_debug (world : World) (core_path : String)
    (libc_ref_path force_libc libc_debug_path : Option String) : Option (Except Failure CoreReport) :=
  finish core_path (prepare world core_path libc_ref_path force_libc libc_debug_path)

structure SymbolJson where
  present : Bool
  value : Option UInt64
  size : Option UInt64
  deriving Repr, DecidableEq

def SymbolJson.from (s : SymbolInfo) : SymbolJson where
  present := s.present
  value := if s.present then some s.value else none
  size := if s.present then some s.size else none

structure CheckReport where
  schema_version : UInt32
  tool_version : String
  libc_path : String
  arch : String
  word_size : UInt32
  identity : IdentityJson
  glibc_capabilities : Option GlibcCapabilitiesJson
  supported : Bool
  symbols : List (String × SymbolJson)
  problems : List Problem
  deriving Repr, DecidableEq

/-- The symbols by their names, in the order of the names. -/
def symbol_map (layout : Detected) : List (String × SymbolJson) :=
  [("main_arena", .from layout.main_arena), ("mp_", .from layout.mp), ("narenas", .from layout.narenas),
    ("narenas_limit", .from layout.narenas_limit), ("tcache", .from layout.tcache),
    ("tcache_key", .from layout.tcache_key), ("thread_arena", .from layout.thread_arena)]

/-- The problem of an identity that is a hash. -/
def missing_build_id : Identity → List Problem
  | .ContentHash _ => [.MissingBuildId]
  | .BuildId _ => []

def unsupported_report (elf : Object) (libc_path : String) (identity : Identity) : CheckReport where
  schema_version := SCHEMA_VERSION
  tool_version := TOOL_VERSION
  libc_path := libc_path
  arch := "unknown(" ++ hex elf.machine.toUInt64 ++ ")"
  word_size := if elf.is_64 then 8 else 4
  identity := .from identity
  glibc_capabilities := none
  supported := false
  symbols := []
  problems := .UnsupportedArch elf.machine :: missing_build_id identity

def supported_report (world : World) (elf : Object) (debug : Option Object) (arch : Handler) (libc_path : String)
    (identity : Identity) : CheckReport :=
  let layout := detect_with_debug world.toTools elf debug arch
  let problems := layout.problems ++ missing_build_id identity
  { schema_version := SCHEMA_VERSION
    tool_version := TOOL_VERSION
    libc_path := libc_path
    arch := arch.name
    word_size := layout.word_size
    identity := .from identity
    glibc_capabilities := some (.from_layout layout)
    supported := !problems.any is_fatal
    symbols := symbol_map layout
    problems := problems }

/-- The report of a check, with the exit code. -/
def check (world : World) (libc : String) (libc_debug : Option String) : Except Failure (CheckReport × Int32) := do
  let elf ← world.elf libc
  let identity := compute_identity world.sha256 elf.toElf
  match by_elf_machine elf.machine with
  | none => return (unsupported_report elf libc identity, 1)
  | some arch => do
    let debug ← load_debug world elf libc_debug
    let report := supported_report world elf debug arch libc identity
    return (report, if report.supported then 0 else 1)

theorem ok_bind {α β : Type} (value : α) (next : α → Except Failure β) : (Except.ok value >>= next) = next value := rfl

/-! ## What a report tells of the libc -/

/-- A problem of detection, which the check reports as well. -/
def ofDetection : Problem → Bool
  | .MissingSymbol _ => true
  | .DuplicateSymbol _ => true
  | .MissingRelocation => true
  | .UnsupportedArch _ => true
  | .MissingBuildId => true
  | .UnknownGlibcVersion => true
  | .DwarfLayoutFallback _ => true
  | _ => false

theorem detected_eq (layout : Detected) (identity : Identity) :
    detected layout.toDetectedLayout identity = layout.problems ++ missing_build_id identity := by
  cases identity with
  | BuildId id => exact (List.append_nil _).symm
  | ContentHash hash => rfl

private theorem not_ofDetection_of_names {index : UInt32} {problem : Problem}
    (names : ProblemArenas.Names index problem) : ofDetection problem = false := by
  unfold ProblemArenas.Names at names
  cases problem <;> first | rfl | cases names

private theorem not_ofDetection_of_thread {problem : Problem} (ofThread : OfThread problem) :
    ofDetection problem = false := by
  cases problem <;> first | rfl | cases ofThread

/-- The traversals add problems of other kinds to those of detection. -/
theorem analysis_problems {mem : MemReader} {layout : DetectedLayout} {identity : Identity} {libc_addr : UInt64}
    {threads : List Tls.Thread} {report : Analysis.Report}
    (ran : analyze_core mem layout identity libc_addr threads = some (.ok report)) :
    ∃ new, report.problems = detected layout identity ++ new ∧ ∀ problem ∈ new, ofDetection problem = false := by
  obtain ⟨arenas, arena_problems, listed, complete⟩ := analyze_core_spec ran
  refine ⟨_, by rw [complete.problems, List.append_assoc, List.append_assoc], ?_⟩
  intro problem member
  rcases List.mem_append.mp member with ofList | later
  · rcases (ArenaList.list_listed listed).problems with none | ⟨reason, cut⟩
    · rw [none] at ofList
      cases ofList
    · rw [cut] at ofList
      rw [List.mem_singleton.mp ofList]
      rfl
  · rcases List.mem_append.mp later with ofTls | ofArena
    · exact not_ofDetection_of_thread ((resolve_tls_ofThread arenas threads).each problem ofTls)
    · obtain ⟨arena, _, own⟩ := List.mem_flatMap.mp ofArena
      exact not_ofDetection_of_names (ProblemArenas.arenaProblems_names _ problem own)

section
variable {tools : Tools} {elf : Object} {debug : Option Object} {arch : Handler} {identity : Identity}

theorem detection_kept : ∀ problem ∈ (detect_with_debug tools elf debug arch).problems ++ missing_build_id identity,
    ofDetection problem = true := by
  intro problem member
  rcases List.mem_append.mp member with found | ofIdentity
  · rcases detected_kinds found with ⟨symbol, rfl⟩ | ⟨symbol, rfl⟩ | rfl | rfl | ⟨reason, rfl⟩ <;> rfl
  · cases identity with
    | BuildId id => cases ofIdentity
    | ContentHash hash =>
      rw [List.mem_singleton.mp ofIdentity]
      rfl

/-- Whether there is a fatal problem does not depend on the identity, and not on the architecture. -/
theorem any_fatal : ((detect_with_debug tools elf debug arch).problems ++ missing_build_id identity).any is_fatal = true ↔
    ∃ symbol, .MissingSymbol symbol ∈ (detect_with_debug tools elf debug arch).problems := by
  have none : (missing_build_id identity).any is_fatal = false := by cases identity <;> rfl
  rw [List.any_append, none, Bool.or_false, List.any_eq_true]
  simp only [fatal_iff_missing_symbol]
  constructor
  · rintro ⟨_, symbol, _, member⟩
    exact ⟨symbol, member⟩
  · rintro ⟨symbol, member⟩
    exact ⟨_, symbol, rfl, member⟩

end

section
open Bytes

/-- An x86-64 ELF header in front of its program headers. -/
def elf_header (e_type shoff phnum shnum shstrndx : Nat) : List UInt8 :=
  [0x7f, 0x45, 0x4c, 0x46, 2, 1, 1] ++ List.replicate 9 0 ++ bytesOf 2 e_type ++ bytesOf 2 62 ++ bytesOf 4 1 ++
    bytesOf 8 0 ++ bytesOf 8 64 ++ bytesOf 8 shoff ++ bytesOf 4 0 ++ bytesOf 2 64 ++ bytesOf 2 56 ++ bytesOf 2 phnum ++
    bytesOf 2 64 ++ bytesOf 2 shnum ++ bytesOf 2 shstrndx

def program_header (p_type offset vaddr filesz : Nat) : List UInt8 :=
  bytesOf 4 p_type ++ bytesOf 4 4 ++ bytesOf 8 offset ++ bytesOf 8 vaddr ++ bytesOf 8 vaddr ++ bytesOf 8 filesz ++
    bytesOf 8 filesz ++ bytesOf 8 1

def section_header (name sh_type offset size link entsize : Nat) : List UInt8 :=
  bytesOf 4 name ++ bytesOf 4 sh_type ++ bytesOf 8 0 ++ bytesOf 8 0 ++ bytesOf 8 offset ++ bytesOf 8 size ++
    bytesOf 4 link ++ bytesOf 4 0 ++ bytesOf 8 1 ++ bytesOf 8 entsize

def symbol (name shndx value size : Nat) : List UInt8 :=
  bytesOf 4 name ++ [0, 0] ++ bytesOf 2 shndx ++ bytesOf 8 value ++ bytesOf 8 size

/-- A libc with a build-id and the two required symbols. -/
def small_libc_bytes : List UInt8 :=
  elf_header 3 244 1 3 2 ++ program_header 4 120 120 20 ++ Notes.record ⟨"GNU", 3, [1, 2, 3, 4]⟩ ++
    symbol 0 0 0 0 ++ symbol 1 1 0x1000 2200 ++ symbol 12 1 0x1898 104 ++
    Notes.as_bytes "\x00main_arena\x00mp_\x00.symtab\x00.strtab\x00" ++
    section_header 0 0 0 0 0 0 ++ section_header 16 2 140 72 2 24 ++ section_header 24 3 212 32 0 0

def libc_mapping : MappedFile := ⟨0x7000, 0x8000, 0, "/lib/libc.so.6"⟩

/-- A core with its libc at 0x7000 and a main arena that was not used yet. -/
def small_core_bytes : List UInt8 :=
  elf_header 4 0 3 0 0 ++ program_header 4 232 0 76 ++ program_header 1 308 0x7000 436 ++
    program_header 1 744 0x8000 2304 ++ Notes.record ⟨"CORE", NT_FILE, encode true 0x1000 [libc_mapping]⟩ ++
    small_libc_bytes ++ List.replicate 2160 0 ++ bytesOf 8 0x8000 ++ List.replicate 136 0

def small_libc_image : Buffer := ⟨small_libc_bytes, by decide +kernel⟩
def small_core_image : Buffer := ⟨small_core_bytes, by decide +kernel⟩

def small_libc_elf : Object where
  is_64 := true
  program_headers := [⟨⟨4, 120, 20⟩, 120⟩]
  data := small_libc_image
  machine := 62
  little_endian := true
  sections := [⟨⟨some "", 0, 0, 0⟩, 0⟩, ⟨⟨some ".symtab", 0, 140, 72⟩, 2⟩, ⟨⟨some ".strtab", 0, 212, 32⟩, 3⟩]
  syms := [⟨some "", 0, 0, 0⟩, ⟨some "main_arena", 1, 0x1000, 2200⟩, ⟨some "mp_", 1, 0x1898, 104⟩]
  dynrelas := []
  verdef := none

def small_core_elf : Object where
  is_64 := true
  program_headers := [⟨⟨4, 232, 76⟩, 0⟩, ⟨⟨1, 308, 436⟩, 0x7000⟩, ⟨⟨1, 744, 2304⟩, 0x8000⟩]
  data := small_core_image
  machine := 62
  little_endian := true
  sections := []
  syms := []
  dynrelas := []
  verdef := none

/-- The files of the run, and what is parsed of these two. -/
def small_world : World where
  toTools := no_tools
  file path := if path = "core" then some small_core_image
    else if path = "/lib/libc.so.6" then some small_libc_image else none
  parse_elf data := if data.bytes = small_libc_bytes then .ok small_libc_elf
    else if data.bytes = small_core_bytes then .ok small_core_elf else .error "malformed"
  crc32 _ := 0
  sha256 _ := []

theorem small_core_loaded : small_world.elf "core" = .ok small_core_elf := by
  have other : small_core_image.bytes ≠ small_libc_bytes := by decide +kernel
  have own : small_core_image.bytes = small_core_bytes := rfl
  have isFile : small_world.file "core" = some small_core_image := by simp [small_world]
  refine small_world.elf_of_file isFile (by decide +kernel) ?_
  simp only [small_world]
  rw [if_neg other, if_pos own]

theorem small_libc_loaded : small_world.elf "/lib/libc.so.6" = .ok small_libc_elf := by
  have own : small_libc_image.bytes = small_libc_bytes := rfl
  have isFile : small_world.file "/lib/libc.so.6" = some small_libc_image := by simp [small_world]
  refine small_world.elf_of_file isFile (by decide +kernel) ?_
  simp only [small_world]
  rw [if_pos own]

end

end HeapAnalyser.Pipeline
