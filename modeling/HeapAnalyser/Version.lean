import HeapAnalyser.DwarfSections
import HeapAnalyser.Numerals

/-!
glibc version detection (`glibc/version.rs`) and the capabilities that follow
(`detect_capabilities` of `glibc/mod.rs`). Among the labels that a library
defines, those of the form `GLIBC_<major>.<minor>` denote versions, and no other
label has a say: neither private tags nor a third component. The version is the
greatest that is denoted, and safe-linking is off only where every version that
is denoted is older than 2.32 (`capabilities_exact`).
-/
namespace HeapAnalyser.Version
open Numerals DwarfSections

/-- What detection uses of a symbol, with the name that the string table has for it. -/
structure Sym where
  name : Option String
  st_shndx : Nat
  st_value : UInt64
  st_size : UInt64
  deriving Repr, DecidableEq

/-- What detection uses of a dynamic relocation. -/
structure Reloc where
  r_type : UInt32
  r_addend : Option Int64
  r_offset : UInt64
  deriving Repr, DecidableEq

/-- A section header with its type. -/
structure Section extends SectionHeader where
  sh_type : UInt32
  deriving Repr, DecidableEq

/-- A libc or its debuginfo, as it is parsed. The version definitions are given
    by the names of their auxiliary entries. -/
structure Object extends Image.Elf where
  machine : UInt16
  little_endian : Bool
  sections : List Section
  syms : List Sym
  dynrelas : List Reloc
  verdef : Option (List (List (Option String)))

/-- What the debuginfo sections are loaded from. -/
def Object.sectioned (elf : Object) : SectionedElf :=
  { elf.toElf with section_headers := elf.sections.map Section.toSectionHeader }

structure GlibcVersion where
  major : UInt32
  minor : UInt32
  deriving Repr, DecidableEq

/-- Versions are ordered by their major number, and then by their minor one. -/
instance : LinearOrder GlibcVersion :=
  LinearOrder.lift' (fun v => toLex (v.major.toNat, v.minor.toNat)) fun a b same => by
    obtain ⟨major, minor⟩ := Prod.mk.inj same
    cases a
    cases b
    simp_all [UInt32.toNat_inj]

/-- `str::parse` of a `u32`. -/
def parse_u32 (text : List Char) : Option UInt32 := (read_numeral (2 ^ 32) text).map UInt32.ofNat

/-- `"GLIBC_2.34"` as `(2, 34)`; a tag that is not numeric gives nothing. -/
def parse_glibc_version (s : String) : Option GlibcVersion := do
  let rest ← "GLIBC_".toList.isPrefixOf? s.toList
  match rest.span (· ≠ '.') with
  | (_, []) => none
  | (major, _ :: minor) => do
    let major ← parse_u32 major
    let minor ← parse_u32 minor
    return ⟨major, minor⟩

/-- A label denotes a version: two numerals with a dot between them. -/
def Denotes (s : String) (v : GlibcVersion) : Prop :=
  ∃ major minor, s.toList = "GLIBC_".toList ++ major ++ '.' :: minor ∧ Numeral major v.major.toNat ∧
    Numeral minor v.minor.toNat

private theorem parse_u32_eq_some {text : List Char} {n : UInt32} : parse_u32 text = some n ↔ Numeral text n.toNat := by
  unfold parse_u32
  rw [Option.map_eq_some_iff]
  constructor
  · rintro ⟨value, read, rfl⟩
    obtain ⟨numeral, fits⟩ := (read_numeral_eq_some (by omega)).mp read
    rwa [UInt32.toNat_ofNat_of_lt' fits]
  · intro numeral
    exact ⟨n.toNat, (read_numeral_eq_some (by omega)).mpr ⟨numeral, n.toNat_lt⟩, UInt32.ofNat_toNat⟩

private theorem span_numeral {major minor : List Char} {n : Nat} (numeral : Numeral major n) :
    (major ++ '.' :: minor).span (· ≠ '.') = (major, '.' :: minor) := by
  have undotted : ∀ c ∈ major, decide (c ≠ '.') = true := by
    intro c member
    have different : c ≠ '.' := fun dot => numeral.not_mem_dot (dot ▸ member)
    exact decide_eq_true different
  rw [List.span_eq_takeWhile_dropWhile, List.takeWhile_append_of_pos undotted,
    List.dropWhile_append_of_pos undotted]
  simp

private theorem parse_glibc_version_eq_some {s : String} {v : GlibcVersion} :
    parse_glibc_version s = some v ↔ Denotes s v := by
  unfold parse_glibc_version
  constructor
  · intro parsed
    obtain ⟨rest, stripped, parsed⟩ := Option.bind_eq_some_iff.mp parsed
    have whole := List.append_eq_of_isPrefixOf?_eq_some stripped
    have parts := List.takeWhile_append_dropWhile (p := (· ≠ '.')) (l := rest)
    rw [List.span_eq_takeWhile_dropWhile] at parsed
    cases behind : rest.dropWhile (· ≠ '.') with
    | nil =>
      rw [behind] at parsed
      cases parsed
    | cons dot minor =>
      have isDot : dot = '.' := by
        have stops := List.head?_dropWhile_not (· ≠ '.') rest
        rw [behind] at stops
        simpa using stops
      rw [behind, isDot] at parsed parts
      obtain ⟨majorValue, isMajor, parsed⟩ := Option.bind_eq_some_iff.mp parsed
      obtain ⟨minorValue, isMinor, made⟩ := Option.bind_eq_some_iff.mp parsed
      cases made
      refine ⟨rest.takeWhile (· ≠ '.'), minor, ?_, parse_u32_eq_some.mp isMajor, parse_u32_eq_some.mp isMinor⟩
      calc s.toList
          _ = "GLIBC_".toList ++ rest := whole.symm
          _ = "GLIBC_".toList ++ (rest.takeWhile (· ≠ '.') ++ '.' :: minor) := by rw [parts]
          _ = "GLIBC_".toList ++ rest.takeWhile (· ≠ '.') ++ '.' :: minor := (List.append_assoc _ _ _).symm
  · rintro ⟨major, minor, written, isMajor, isMinor⟩
    have stripped : "GLIBC_".toList.isPrefixOf? s.toList = some (major ++ '.' :: minor) := by
      rw [List.isPrefixOf?_eq_some_iff_append_eq, written, List.append_assoc]
    rw [stripped, Option.bind_eq_bind, Option.bind_some, span_numeral isMajor]
    simp only [parse_u32_eq_some.mpr isMajor, parse_u32_eq_some.mpr isMinor, Option.bind_eq_bind, Option.bind_some]
    rfl

theorem Denotes.unique {s : String} {v w : GlibcVersion} (first : Denotes s v) (second : Denotes s w) : v = w :=
  Option.some.inj ((parse_glibc_version_eq_some.mpr first).symm.trans (parse_glibc_version_eq_some.mpr second))

example : parse_glibc_version "GLIBC_PRIVATE" = none ∧ parse_glibc_version "GLIBC_2.2.5" = none := by decide

/-- A turn of the loops of `detect`, for the name of an auxiliary entry. -/
def detect_turn (best : Option GlibcVersion) (name : Option String) : Option GlibcVersion :=
  match name.bind parse_glibc_version with
  | some v => some (match best with
    | some cur => max cur v
    | none => v)
  | none => best

/-- The version that a library defines last. -/
def detect (elf : Object) : Option GlibcVersion := do
  let verdef ← elf.verdef
  verdef.foldl (fun best entry => entry.foldl detect_turn best) none

/-- The labels that a library defines. -/
def labels (elf : Object) : List String := (elf.verdef.getD []).flatten.reduceOption

/-- The versions that some labels denote. -/
def denoted (names : List String) : Set GlibcVersion := {v | ∃ s ∈ names, Denotes s v}

/-- What is found among versions: nothing among none, and else the greatest. -/
def Greatest (versions : Set GlibcVersion) : Option GlibcVersion → Prop
  | none => versions = ∅
  | some v => IsGreatest versions v

theorem Greatest.eq_some_iff {versions : Set GlibcVersion} {best : Option GlibcVersion}
    (greatest : Greatest versions best) (v : GlibcVersion) : best = some v ↔ IsGreatest versions v := by
  cases best with
  | none =>
    have empty : versions = ∅ := greatest
    rw [empty]
    constructor
    · intro none
      cases none
    · intro isGreatest
      exact absurd isGreatest.1 (Set.notMem_empty v)
  | some cur =>
    constructor
    · rintro ⟨⟩
      exact greatest
    · intro other
      rw [IsGreatest.unique greatest other]

/-- One name more: the greatest stays or the version of the name takes its place. -/
theorem detect_turn_greatest {best : Option GlibcVersion} {names : List String} (name : Option String)
    (greatest : Greatest (denoted names) best) :
    Greatest (denoted (names ++ name.toList)) (detect_turn best name) := by
  cases parsed : name.bind parse_glibc_version with
  | none =>
    have same : denoted (names ++ name.toList) = denoted names := by
      ext v
      constructor
      · rintro ⟨s, listed, denotes⟩
        rcases List.mem_append.mp listed with listed | last
        · exact ⟨s, listed, denotes⟩
        · have isName : name = some s := by simpa using last
          rw [isName, Option.bind_some, parse_glibc_version_eq_some.mpr denotes] at parsed
          cases parsed
      · rintro ⟨s, listed, denotes⟩
        exact ⟨s, List.mem_append_left _ listed, denotes⟩
    rw [detect_turn, parsed, same]
    exact greatest
  | some v =>
    obtain ⟨s, isName, isVersion⟩ := Option.bind_eq_some_iff.mp parsed
    have more : denoted (names ++ name.toList) = insert v (denoted names) := by
      ext w
      simp only [denoted, isName, Option.toList_some, List.mem_append, List.mem_singleton, Set.mem_ofPred_eq,
        Set.mem_insert_iff]
      constructor
      · rintro ⟨other, listed | rfl, denotes⟩
        · exact .inr ⟨other, listed, denotes⟩
        · exact .inl (denotes.unique (parse_glibc_version_eq_some.mp isVersion))
      · rintro (rfl | ⟨other, listed, denotes⟩)
        · exact ⟨s, .inr rfl, parse_glibc_version_eq_some.mp isVersion⟩
        · exact ⟨other, .inl listed, denotes⟩
    rw [detect_turn, parsed, more]
    cases best with
    | none =>
      have empty : denoted names = ∅ := greatest
      rw [empty, insert_empty_eq]
      exact isGreatest_singleton
    | some cur =>
      have isCur : IsGreatest (denoted names) cur := greatest
      have merged := isCur.insert v
      rwa [max_comm] at merged

private theorem detect_run_greatest {best : Option GlibcVersion} {names : List String} (rest : List (Option String))
    (greatest : Greatest (denoted names) best) :
    Greatest (denoted (names ++ rest.reduceOption)) (rest.foldl detect_turn best) := by
  induction rest generalizing best names with
  | nil => simpa using greatest
  | cons name rest ih =>
    have later := ih (detect_turn_greatest name greatest)
    rw [List.append_assoc] at later
    cases name <;> simpa using later

/-- What `detect` finds is the greatest version among the labels that are defined. -/
theorem detect_greatest (elf : Object) : Greatest (denoted (labels elf)) (detect elf) := by
  have start : Greatest (denoted []) none := by simp [Greatest, denoted]
  unfold detect labels
  cases elf.verdef with
  | none => simpa using start
  | some verdef =>
    have run := detect_run_greatest verdef.flatten start
    rw [List.foldl_flatten] at run
    simpa using run

/-- glibc gained safe-linked free lists in 2.32. -/
def SAFE_LINKING_SINCE : GlibcVersion := ⟨2, 32⟩

inductive VersionSource where
  | Detected (version : GlibcVersion)
  | AssumedDefault
  deriving Repr, DecidableEq

/-- The capabilities with where the version is from. -/
structure Capabilities extends GlibcCapabilities where
  version_source : VersionSource
  deriving Repr, DecidableEq

def detect_capabilities (elf : Object) (has_tcache : Bool) (problems : List Problem) :
    Capabilities × List Problem :=
  match detect elf with
  | some v => (⟨⟨has_tcache, decide (SAFE_LINKING_SINCE ≤ v)⟩, .Detected v⟩, problems)
  | none => (⟨⟨has_tcache, true⟩, .AssumedDefault⟩, problems ++ [.UnknownGlibcVersion])

/-- The capabilities of a library by the versions that its labels denote,
    whatever their order and the other labels. -/
theorem capabilities_exact (elf : Object) (has_tcache : Bool) (problems : List Problem) :
    (∀ v, (detect_capabilities elf has_tcache problems).1.version_source = .Detected v ↔
      IsGreatest (denoted (labels elf)) v) ∧
    ((detect_capabilities elf has_tcache problems).1.has_safe_linking = false ↔
      (denoted (labels elf)).Nonempty ∧ ∀ v ∈ denoted (labels elf), v < SAFE_LINKING_SINCE) ∧
    (detect_capabilities elf has_tcache problems).1.has_tcache = has_tcache ∧
    ((denoted (labels elf)).Nonempty → (detect_capabilities elf has_tcache problems).2 = problems) ∧
    (denoted (labels elf) = ∅ →
      (detect_capabilities elf has_tcache problems).2 = problems ++ [.UnknownGlibcVersion]) := by
  have greatest := detect_greatest elf
  unfold detect_capabilities
  cases found : detect elf with
  | none =>
    rw [found] at greatest
    have empty : denoted (labels elf) = ∅ := greatest
    refine ⟨fun v => ?_, ?_, rfl, fun nonempty => absurd empty nonempty.ne_empty, fun _ => rfl⟩
    · rw [← greatest.eq_some_iff v]
      simp
    · simp [empty]
  | some best =>
    rw [found] at greatest
    have isBest : IsGreatest (denoted (labels elf)) best := greatest
    have nonempty : (denoted (labels elf)).Nonempty := ⟨best, isBest.1⟩
    refine ⟨fun v => ?_, ?_, rfl, fun _ => rfl, fun empty => absurd empty nonempty.ne_empty⟩
    · rw [← greatest.eq_some_iff v, VersionSource.Detected.injEq, Option.some.injEq]
    · rw [decide_eq_false_iff_not, not_le]
      constructor
      · intro old
        exact ⟨nonempty, fun v member => lt_of_le_of_lt (isBest.2 member) old⟩
      · intro both
        exact both.2 best isBest.1

end HeapAnalyser.Version
