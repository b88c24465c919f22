import HeapAnalyser.DwarfScan
import HeapAnalyser.DwarfSections

/-!
Extracting the layout from debuginfo (`extract_layout` and `scan_unit` of
`glibc/dwarf.rs`), over what the decoder gives for the loaded sections: a stream
of unit headers, and for each unit a stream of entries. The counters of entries
and candidates run over all units, and so does the index. A layout is extracted
if and only if every unit is read to its end, within the limits, and the valid
definitions of each target, in whatever units they are, agree; and then it is
the layout that they agree on (`extract_layout_exact`).
-/
namespace HeapAnalyser.DwarfExtract
open Checks Dwarf DwarfSelection DwarfSections DwarfTypes DwarfScan

def MAX_DIES : Nat := 2000000
def MAX_UNITS : Nat := 200000
def MAX_TARGET_CANDIDATES : Nat := 4096

inductive UnitType where
  | Compilation
  | Partial
  | Type
  | SplitType
  | Skeleton
  | SplitCompilation
  deriving Repr, DecidableEq

structure Header extends UnitHeader where
  type_ : UnitType
  deriving Repr, DecidableEq

/-- An entry of a unit's tree, in depth-first order. -/
structure Entry where
  offset : Nat
  tag : Tag
  name : Except String (Option AttributeValue)

/-- A unit with what the scan reads of it. -/
structure ParsedUnit extends DwarfUnit where
  dwo_id : Option UInt64
  dwo_name : Except String (Option AttributeValue)
  entries : List (Except String Entry)

/-- The debuginfo of some sections. The unit headers end with an error where one
    cannot be read, and so do the entries of a unit. -/
structure Decoded where
  headers : List (Except String Header)
  unit : Nat → Except String ParsedUnit

/-- What resolving types uses of the debuginfo, with the headers that were read. -/
def Decoded.info (decoded : Decoded) (headers : List Header) : DebugInfo where
  headers := headers.map Header.toUnitHeader
  unit offset := (decoded.unit offset).map ParsedUnit.toDwarfUnit

/-- The characters with the Unicode property `White_Space`. -/
def is_whitespace (c : Char) : Bool :=
  (9 ≤ c.toNat && c.toNat ≤ 13) || (0x2000 ≤ c.toNat && c.toNat ≤ 0x200a) ||
    c.toNat ∈ [0x20, 0x85, 0xa0, 0x1680, 0x2028, 0x2029, 0x202f, 0x205f, 0x3000]

/-- `str::trim`. -/
def trim (text : List Char) : List Char := (text.dropWhile is_whitespace).rdropWhile is_whitespace

/-- The names of a target. -/
def names : Target → List String
  | .MallocState => ["malloc_state", "_malloc_state"]
  | .MallocPar => ["malloc_par"]
  | .HeapInfo => ["heap_info", "_heap_info"]
  | .Tcache => ["tcache_perthread_struct"]

/-- The target that a name is for. -/
def target_name (name : String) : Option Target :=
  let trimmed := trim name.toList
  let bare := (("struct ".toList.isPrefixOf? trimmed).or ("class ".toList.isPrefixOf? trimmed)).getD trimmed
  [Target.MallocState, .MallocPar, .HeapInfo, .Tcache].find? fun target => String.ofList bare ∈ names target

example : target_name "struct _malloc_state" = some .MallocState ∧ target_name "malloc_state_extra" = none := by
  decide

/-- The loop over the unit headers. -/
def collect_headers : List (Except String Header) → List Header → Except DwarfLayoutError (List Header)
  | [], headers => .ok headers
  | next :: rest, headers => do
    let header ← parse_error next
    refuse (MAX_UNITS ≤ headers.length) (.Limit "unit count")
    match header.type_ with
    | .Compilation | .Partial => collect_headers rest (headers ++ [header])
    | .Type | .SplitType => .error (.Unsupported "type unit")
    | .Skeleton | .SplitCompilation => .error (.Unsupported "split DWARF")

/-- The counters that the units share. They stay at their limits, so adding one does not overflow. -/
structure Counters where
  dies : Nat
  candidate_count : Nat
  deriving Repr, DecidableEq

/-- The target that an entry is named for; entries of other tags are not looked into. -/
def entry_target (entry : Entry) : Except DwarfLayoutError (Option Target) :=
  if entry.tag = .structure_type ∨ entry.tag = .class_type ∨ entry.tag = .typedef then do
    let value ← parse_error entry.name
    let name ← entry_name value
    return name.bind target_name
  else .ok none

/-- The first loop of `scan_unit`. -/
def find_targets : List (Except String Entry) → Counters → List (Target × Nat) →
    Except DwarfLayoutError (Counters × List (Target × Nat))
  | [], counters, found => .ok (counters, found)
  | next :: rest, counters, found => do
    let entry ← parse_error next
    refuse (MAX_DIES < counters.dies + 1) (.Limit "DIE count")
    match ← entry_target entry with
    | none => find_targets rest { counters with dies := counters.dies + 1 } found
    | some target => do
      refuse (MAX_TARGET_CANDIDATES < counters.candidate_count + 1) (.Limit "target type candidates")
      find_targets rest ⟨counters.dies + 1, counters.candidate_count + 1⟩ (found ++ [(target, entry.offset)])

def scan_unit (dwarf : DebugInfo) (offset : Nat) (unit : ParsedUnit) (counters : Counters) (index : TypeIndex) :
    Except DwarfLayoutError (Counters × TypeIndex) := do
  let (counters, found) ← find_targets unit.entries counters []
  let index ← scan_found dwarf offset found [] index
  return (counters, index)

/-- A unit that is in one file: it has neither a split id nor a split name. -/
def refuse_split (unit : ParsedUnit) : Except DwarfLayoutError Unit := do
  refuse (unit.dwo_id.isSome = true) (.Unsupported "split DWARF")
  let dwo_name ← parse_error unit.dwo_name
  refuse (dwo_name.isSome = true) (.Unsupported "split DWARF")

/-- The loop of `extract_layout` over the units. -/
def scan_units (decoded : Decoded) (dwarf : DebugInfo) :
    List Header → Counters → TypeIndex → Except DwarfLayoutError TypeIndex
  | [], _, index => .ok index
  | header :: rest, counters, index => do
    let unit ← parse_error (decoded.unit header.offset)
    refuse_split unit
    let (counters, index) ← scan_unit dwarf header.offset unit counters index
    scan_units decoded dwarf rest counters index

/-- `TypeIndex::default`. -/
def no_types : TypeIndex := ⟨fun _ => none, fun _ => none⟩

/-- The bytes of a section, none where it is not loaded. -/
def section_bytes (sections : List (String × List UInt8)) (name : String) : List UInt8 := (sections.lookup name).getD []

/-- The index of all units. -/
def index_types (decoded : Decoded) : Except DwarfLayoutError TypeIndex := do
  let headers ← collect_headers decoded.headers []
  scan_units decoded (decoded.info headers) headers ⟨0, 0⟩ no_types

/-- The word of an ELF in bytes. -/
def elf_word (elf : SectionedElf) : UInt64 := if elf.is_64 then 8 else 4

/-- The complete set of offsets that the heap analysis uses. -/
def extract_layout (host : Host) (decode : List (String × List UInt8) → Decoded) (elf : SectionedElf)
    (require_tcache : Bool) : Except DwarfLayoutError DwarfLayout := do
  let sections ← load_sections host elf
  refuse (section_bytes sections ".debug_info" = []) .Unavailable
  refuse (section_bytes sections ".debug_types" ≠ []) (.Unsupported "DWARF4 type units")
  let index ← index_types (decode sections)
  assemble_layout index (elf_word elf) require_tcache

/-- A unit of a plain file. -/
def Plain (header : Header) : Prop := header.type_ = .Compilation ∨ header.type_ = .Partial

private theorem parse_error_eq_ok {α : Type} {value : Except String α} {v : α} :
    parse_error value = .ok v ↔ value = .ok v := by
  cases value <;> simp [parse_error]

private theorem collect_headers_eq_ok {stream : List (Except String Header)} {headers result : List Header}
    (few : headers.length ≤ MAX_UNITS) :
    collect_headers stream headers = .ok result ↔ ∃ more : List Header, stream = more.map Except.ok ∧
      result = headers ++ more ∧ (∀ header ∈ more, Plain header) ∧ result.length ≤ MAX_UNITS := by
  induction stream generalizing headers with
  | nil =>
    rw [collect_headers, Except.ok.injEq]
    constructor
    · rintro rfl
      exact ⟨[], rfl, (List.append_nil _).symm, by simp, few⟩
    · rintro ⟨more, isEnd, rfl, _⟩
      rw [List.map_eq_nil_iff.mp isEnd.symm, List.append_nil]
  | cons next rest ih =>
    rw [collect_headers]
    simp only [bind_eq_ok, parse_error_eq_ok, refuse_eq_ok, not_le]
    constructor
    · rintro ⟨header, rfl, _, room, run⟩
      have pushed : (headers ++ [header]).length ≤ MAX_UNITS := by
        rw [List.length_append, List.length_singleton]
        omega
      cases isType : header.type_ with
      | Compilation | Partial =>
        rw [isType] at run
        obtain ⟨more, rfl, rfl, plain, short⟩ := (ih pushed).mp run
        refine ⟨header :: more, rfl, by rw [List.append_assoc, List.singleton_append], ?_, short⟩
        exact List.forall_mem_cons.mpr ⟨by simp [Plain, isType], plain⟩
      | _ =>
        rw [isType] at run
        cases run
    · rintro ⟨more, isStream, rfl, plain, short⟩
      cases more with
      | nil => cases isStream
      | cons header more =>
        obtain ⟨rfl, rfl⟩ := List.cons.inj isStream
        obtain ⟨isPlain, plain⟩ := List.forall_mem_cons.mp plain
        have room : headers.length < MAX_UNITS := by
          rw [List.length_append, List.length_cons] at short
          omega
        have pushed : (headers ++ [header]).length ≤ MAX_UNITS := by
          rw [List.length_append, List.length_singleton]
          omega
        refine ⟨header, rfl, ⟨⟩, room, ?_⟩
        have run := (ih pushed).mpr ⟨more, rfl, by rw [List.append_assoc, List.singleton_append], plain, short⟩
        rcases isPlain with isType | isType
        · rw [isType]
          exact run
        · rw [isType]
          exact run

private theorem refuse_split_eq_ok {unit : ParsedUnit} {done : Unit} :
    refuse_split unit = .ok done ↔ unit.dwo_id = none ∧ unit.dwo_name = .ok none := by
  simp only [refuse_split, bind_eq_ok, parse_error_eq_ok, refuse_eq_ok, Bool.not_eq_true, Option.isSome_eq_false_iff,
    Option.isNone_iff_eq_none]
  constructor
  · rintro ⟨_, whole, name, isName, rfl⟩
    exact ⟨whole, isName⟩
  · rintro ⟨whole, isName⟩
    exact ⟨⟨⟩, whole, none, isName, rfl⟩

/-! ## A unit that is read to its end -/

/-- The entries that are named for a target. -/
def foundIn (items : List (Entry × Option Target)) : List (Target × Nat) :=
  items.filterMap fun item => item.2.map fun target => (target, item.1.offset)

/-- The counters are at most at their limits. -/
structure Counters.Within (counters : Counters) : Prop where
  dies : counters.dies ≤ MAX_DIES
  candidate_count : counters.candidate_count ≤ MAX_TARGET_CANDIDATES

/-- The counters behind some entries. -/
def Counters.behind (counters : Counters) (items : List (Entry × Option Target)) : Counters :=
  ⟨counters.dies + items.length, counters.candidate_count + (foundIn items).length⟩

theorem Counters.behind_cons (counters : Counters) (entry : Entry) (target : Option Target)
    (items : List (Entry × Option Target)) : counters.behind ((entry, target) :: items) =
      (⟨counters.dies + 1, counters.candidate_count + target.toList.length⟩ : Counters).behind items := by
  unfold behind foundIn
  cases target with
  | none => simp [Nat.add_assoc, Nat.add_comm 1]
  | some target => simp [Nat.add_assoc, Nat.add_comm 1]

/-- The first loop gives its results where every entry is read and named, within the limits. -/
theorem find_targets_eq_ok {stream : List (Except String Entry)} {counters after : Counters}
    {found all : List (Target × Nat)} (within : counters.Within) :
    find_targets stream counters found = .ok (after, all) ↔ ∃ items : List (Entry × Option Target),
      stream = items.map (fun item => .ok item.1) ∧ (∀ item ∈ items, entry_target item.1 = .ok item.2) ∧
      all = found ++ foundIn items ∧ after = counters.behind items ∧ after.Within := by
  induction stream generalizing counters found with
  | nil =>
    rw [find_targets, Except.ok.injEq, Prod.mk.injEq]
    constructor
    · rintro ⟨rfl, rfl⟩
      exact ⟨[], rfl, by simp, by simp [foundIn], by simp [Counters.behind, foundIn], within⟩
    · rintro ⟨items, isEnd, _, rfl, rfl, _⟩
      obtain rfl := List.map_eq_nil_iff.mp isEnd.symm
      simp [Counters.behind, foundIn]
  | cons next rest ih =>
    rw [find_targets]
    simp only [bind_eq_ok, parse_error_eq_ok, refuse_eq_ok, not_lt]
    constructor
    · rintro ⟨entry, rfl, _, fewDies, target, named, run⟩
      cases target with
      | none =>
        have next : Counters.Within ⟨counters.dies + 1, counters.candidate_count⟩ := ⟨fewDies, within.candidate_count⟩
        obtain ⟨items, rfl, each, rfl, rfl, bounded⟩ := (ih next).mp run
        refine ⟨(entry, none) :: items, rfl, List.forall_mem_cons.mpr ⟨named, each⟩, rfl, ?_, bounded⟩
        rw [Counters.behind_cons]
        rfl
      | some target =>
        simp only [bind_eq_ok, refuse_eq_ok, not_lt] at run
        obtain ⟨_, fewCandidates, run⟩ := run
        have next : Counters.Within ⟨counters.dies + 1, counters.candidate_count + 1⟩ := ⟨fewDies, fewCandidates⟩
        obtain ⟨items, rfl, each, rfl, rfl, bounded⟩ := (ih next).mp run
        refine ⟨(entry, some target) :: items, rfl, List.forall_mem_cons.mpr ⟨named, each⟩, ?_, ?_, bounded⟩
        · rw [List.append_assoc]
          rfl
        · rw [Counters.behind_cons]
          rfl
    · rintro ⟨items, isStream, named, rfl, rfl, bounded⟩
      cases items with
      | nil => cases isStream
      | cons item items =>
        obtain ⟨entry, target⟩ := item
        obtain ⟨rfl, rfl⟩ := List.cons.inj isStream
        obtain ⟨isNamed, each⟩ := List.forall_mem_cons.mp named
        have behind := Counters.behind_cons counters entry target items
        have fewDies := bounded.dies
        have fewCandidates := bounded.candidate_count
        rw [behind] at fewDies fewCandidates
        simp only [Counters.behind] at fewDies fewCandidates
        refine ⟨entry, rfl, ⟨⟩, by omega, target, isNamed, ?_⟩
        cases target with
        | none =>
          have next : Counters.Within ⟨counters.dies + 1, counters.candidate_count⟩ :=
            ⟨by simp only; omega, within.candidate_count⟩
          exact (ih next).mpr ⟨items, rfl, each, rfl, behind, bounded⟩
        | some target =>
          simp only [bind_eq_ok, refuse_eq_ok, not_lt]
          rw [Option.toList_some, List.length_singleton] at fewCandidates
          have next : Counters.Within ⟨counters.dies + 1, counters.candidate_count + 1⟩ :=
            ⟨by simp only; omega, by simp only; omega⟩
          refine ⟨⟨⟩, by omega, (ih next).mpr ⟨items, rfl, each, ?_, behind, bounded⟩⟩
          rw [List.append_assoc]
          rfl

/-- Reading the structure behind an entry that is named for a target. -/
def read_definition (dwarf : DebugInfo) (unit : Nat) (item : Target × Nat) : Except DwarfLayoutError Structure := do
  let id ← resolve_structure dwarf MAX_REFERENCE_DEPTH [] (unit, item.2)
  parse_structure dwarf id item.1

/-- A resource limit, which ends the extraction. -/
def Limited {α : Type} (result : Except DwarfLayoutError α) : Prop := ∃ resource, result = .error (.Limit resource)

/-- The structures that some entries of a unit are read as for a target. -/
def readAs (dwarf : DebugInfo) (unit : Nat) (found : List (Target × Nat)) (target : Target) : Set Structure :=
  {struct | ∃ offset, (target, offset) ∈ found ∧ read_definition dwarf unit (target, offset) = .ok struct}

/-- What was seen is in the index, unless it could not be parsed. -/
def SeenIn (dwarf : DebugInfo) (seen : List (Target × DieId)) (index : TypeIndex) : Prop :=
  ∀ target id, (target, id) ∈ seen → ¬ Limited (parse_structure dwarf id target) ∧
    ∀ struct, parse_structure dwarf id target = .ok struct → struct ∈ listed index target

section
variable {dwarf : DebugInfo} {unit : Nat}

private theorem seenIn_nil (index : TypeIndex) : SeenIn dwarf [] index := fun _ _ member => absurd member List.not_mem_nil

private theorem readAs_singleton {item : Target × Nat} {target : Target} {struct : Structure} :
    struct ∈ readAs dwarf unit [item] target ↔ target = item.1 ∧ read_definition dwarf unit item = .ok struct := by
  obtain ⟨own, offset⟩ := item
  constructor
  · rintro ⟨other, listed, read⟩
    cases List.mem_singleton.mp listed
    exact ⟨rfl, read⟩
  · rintro ⟨rfl, read⟩
    exact ⟨offset, List.mem_singleton_self _, read⟩

private theorem readAs_cons {item : Target × Nat} {rest : List (Target × Nat)} {target : Target} {struct : Structure} :
    struct ∈ readAs dwarf unit (item :: rest) target ↔
      struct ∈ readAs dwarf unit [item] target ∨ struct ∈ readAs dwarf unit rest target := by
  constructor
  · rintro ⟨offset, listed, read⟩
    rcases List.mem_cons.mp listed with rfl | later
    · exact .inl ⟨offset, List.mem_singleton_self _, read⟩
    · exact .inr ⟨offset, later, read⟩
  · rintro (⟨offset, listed, read⟩ | ⟨offset, listed, read⟩)
    · exact ⟨offset, List.mem_cons.mpr (.inl (List.mem_singleton.mp listed)), read⟩
    · exact ⟨offset, List.mem_cons_of_mem _ listed, read⟩

/-- What an item of the second loop does: a limit ends the loop, and otherwise it goes
    on with an index that has what the item was read as. -/
def Turned (dwarf : DebugInfo) (unit : Nat) (seen : List (Target × DieId)) (index : TypeIndex) (item : Target × Nat) :
    Prop :=
  (Limited (read_definition dwarf unit item) ∧
    ∀ rest result, scan_found dwarf unit (item :: rest) seen index ≠ .ok result) ∨
  (¬ Limited (read_definition dwarf unit item) ∧ ∃ seenAfter indexAfter, SeenIn dwarf seenAfter indexAfter ∧
    (∀ target struct, struct ∈ listed indexAfter target ↔
      struct ∈ listed index target ∨ struct ∈ readAs dwarf unit [item] target) ∧
    ∀ rest, scan_found dwarf unit (item :: rest) seen index = scan_found dwarf unit rest seenAfter indexAfter)

/-- An item that fails: its error is routed, and no candidate is added. -/
theorem turned_of_error {seen : List (Target × DieId)} {index : TypeIndex} {item : Target × Nat}
    (seenAfter : List (Target × DieId)) (error : DwarfLayoutError)
    (fails : read_definition dwarf unit item = .error error)
    (known : (∀ resource, error ≠ .Limit resource) → SeenIn dwarf seenAfter index)
    (goes : ∀ rest, scan_found dwarf unit (item :: rest) seen index =
      route index item.1 error >>= fun index => scan_found dwarf unit rest seenAfter index) :
    Turned dwarf unit seen index item := by
  by_cases limit : ∃ resource, error = .Limit resource
  · obtain ⟨resource, rfl⟩ := limit
    refine .inl ⟨⟨resource, fails⟩, fun rest result => ?_⟩
    rw [goes]
    simp [route, bind, Except.bind]
  · have harmless : ∀ resource, error ≠ .Limit resource := fun resource same => limit ⟨resource, same⟩
    have routed : route index item.1 error = .ok (record_error index item.1 error) := by
      cases error with
      | Limit resource => exact absurd rfl (harmless resource)
      | _ => rfl
    refine .inr ⟨?_, seenAfter, record_error index item.1 error, known harmless, fun target struct => ?_,
      fun rest => ?_⟩
    · rintro ⟨resource, isLimit⟩
      rw [fails] at isLimit
      exact harmless resource (Except.error.inj isLimit)
    · rw [readAs_singleton, fails]
      simp [listed, record_error]
    · rw [goes, routed]
      rfl

private theorem scan_found_turn {seen : List (Target × DieId)} {index : TypeIndex} (item : Target × Nat)
    (known : SeenIn dwarf seen index) : Turned dwarf unit seen index item := by
  obtain ⟨target, offset⟩ := item
  cases resolved : resolve_structure dwarf MAX_REFERENCE_DEPTH [] (unit, offset) with
  | error error =>
    refine turned_of_error seen error ?_ (fun _ => known) fun rest => ?_
    · simp only [read_definition, resolved, bind, Except.bind]
    · rw [scan_found, resolved]
  | ok id =>
    have read : read_definition dwarf unit (target, offset) = parse_structure dwarf id target := by
      simp only [read_definition, resolved, bind, Except.bind]
    by_cases again : (target, id) ∈ seen
    · obtain ⟨unlimited, inIndex⟩ := known target id again
      refine .inr ⟨read ▸ unlimited, seen, index, known, fun other struct => ?_, fun rest => ?_⟩
      · rw [readAs_singleton, read]
        constructor
        · exact .inl
        · rintro (old | ⟨rfl, parsed⟩)
          · exact old
          · exact inIndex struct parsed
      · rw [scan_found, resolved]
        simp only [if_pos again]
    · cases parsed : parse_structure dwarf id target with
      | error error =>
        refine turned_of_error ((target, id) :: seen) error (read.trans parsed) ?_ fun rest => ?_
        · intro harmless other otherId member
          rcases List.mem_cons.mp member with same | old
          · cases same
            rw [parsed]
            refine ⟨?_, fun _ => by simp⟩
            rintro ⟨resource, isLimit⟩
            exact harmless resource (Except.error.inj isLimit)
          · exact known other otherId old
        · rw [scan_found, resolved]
          simp only [if_neg again, parsed]
      | ok candidate =>
        have pushed : ∀ other struct, struct ∈ listed (push_candidate index target candidate) other ↔
            struct ∈ listed index other ∨ other = target ∧ struct = candidate := by
          intro other struct
          by_cases same : other = target
          · subst same
            rw [listed_push, List.mem_append, List.mem_singleton]
            simp
          · rw [listed_push_other candidate same]
            simp [same]
        refine .inr ⟨?_, (target, id) :: seen, push_candidate index target candidate, ?_, fun other struct => ?_,
          fun rest => ?_⟩
        · rw [read, parsed]
          rintro ⟨resource, ⟨⟩⟩
        · intro other otherId member
          rcases List.mem_cons.mp member with same | old
          · cases same
            rw [parsed]
            refine ⟨fun limited => ?_, fun struct isCandidate => ?_⟩
            · obtain ⟨resource, isLimit⟩ := limited
              cases isLimit
            exact (pushed _ _).mpr (.inr ⟨rfl, (Except.ok.inj isCandidate).symm⟩)
          · obtain ⟨unlimited, inIndex⟩ := known other otherId old
            exact ⟨unlimited, fun struct parsed => (pushed _ _).mpr (.inl (inIndex struct parsed))⟩
        · rw [pushed, readAs_singleton, read, parsed, Except.ok.injEq, eq_comm (a := candidate)]
        · rw [scan_found, resolved]
          simp only [if_neg again, parsed]

/-- The second loop ends where no item comes to a limit, with what the items were read as. -/
theorem scan_found_exact {found : List (Target × Nat)} {seen : List (Target × DieId)} {index : TypeIndex}
    (known : SeenIn dwarf seen index) :
    (∀ result, scan_found dwarf unit found seen index = .ok result →
      ∀ item ∈ found, ¬ Limited (read_definition dwarf unit item)) ∧
    ((∀ item ∈ found, ¬ Limited (read_definition dwarf unit item)) →
      ∃ result, scan_found dwarf unit found seen index = .ok result ∧
        ∀ target struct, struct ∈ listed result target ↔
          struct ∈ listed index target ∨ struct ∈ readAs dwarf unit found target) := by
  induction found generalizing seen index with
  | nil =>
    refine ⟨fun _ _ => by simp, fun _ => ⟨index, rfl, fun target struct => ?_⟩⟩
    simp [readAs]
  | cons item rest ih =>
    rcases scan_found_turn item known with ⟨limited, fails⟩ | ⟨unlimited, seenAfter, indexAfter, later, members, goes⟩
    · refine ⟨fun result run => absurd run (fails rest result), fun none => ?_⟩
      exact absurd limited (none item List.mem_cons_self)
    · obtain ⟨sound, complete⟩ := ih later
      simp only [goes]
      refine ⟨fun result run => List.forall_mem_cons.mpr ⟨unlimited, sound result run⟩, fun all => ?_⟩
      obtain ⟨result, run, has⟩ := complete (List.forall_mem_cons.mp all).2
      refine ⟨result, run, fun target struct => ?_⟩
      rw [has, members, or_assoc, ← readAs_cons]

end

/-- A unit with its header, and its entries with what they are named for. -/
structure UnitScan where
  header : Header
  unit : ParsedUnit
  entries : List (Entry × Option Target)

def UnitScan.found (scan : UnitScan) : List (Target × Nat) := foundIn scan.entries

/-- A unit that is decoded to its end, and whose candidates are within the limits of resolving. -/
structure UnitScan.Complete (decoded : Decoded) (dwarf : DebugInfo) (scan : UnitScan) : Prop where
  loaded : decoded.unit scan.header.offset = .ok scan.unit
  whole : scan.unit.dwo_id = none ∧ scan.unit.dwo_name = .ok none
  entries : scan.unit.entries = scan.entries.map fun item => .ok item.1
  named : ∀ item ∈ scan.entries, entry_target item.1 = .ok item.2
  unlimited : ∀ item ∈ scan.found, ¬ Limited (read_definition dwarf scan.header.offset item)

/-- The counters behind some units. -/
def Counters.behindUnits (counters : Counters) (scans : List UnitScan) : Counters :=
  ⟨counters.dies + (scans.map fun scan => scan.entries.length).sum,
    counters.candidate_count + (scans.map fun scan => scan.found.length).sum⟩

theorem Counters.behindUnits_cons (counters : Counters) (scan : UnitScan) (scans : List UnitScan) :
    counters.behindUnits (scan :: scans) = (counters.behind scan.entries).behindUnits scans := by
  unfold behindUnits behind UnitScan.found
  simp [Nat.add_assoc]

theorem Counters.within_of_behindUnits {counters : Counters} {scans : List UnitScan}
    (within : (counters.behindUnits scans).Within) : counters.Within :=
  ⟨le_trans (Nat.le_add_right _ _) within.dies, le_trans (Nat.le_add_right _ _) within.candidate_count⟩

section
variable {decoded : Decoded} {dwarf : DebugInfo}

/-- A unit is scanned where it is complete, within the limits. -/
theorem scan_unit_sound {header : Header} {unit : ParsedUnit} {counters after : Counters} {index result : TypeIndex}
    (within : counters.Within) (loaded : decoded.unit header.offset = .ok unit)
    (whole : unit.dwo_id = none ∧ unit.dwo_name = .ok none)
    (scanned : scan_unit dwarf header.offset unit counters index = .ok (after, result)) :
    ∃ scan : UnitScan, scan.header = header ∧ scan.Complete decoded dwarf ∧ after = counters.behind scan.entries ∧
      after.Within := by
  simp only [scan_unit, bind_eq_ok] at scanned
  obtain ⟨⟨reached, found⟩, targets, next, run, made⟩ := scanned
  cases made
  obtain ⟨items, isStream, named, rfl, rfl, bounded⟩ := (find_targets_eq_ok within).mp targets
  have unlimited := (scan_found_exact (seenIn_nil index)).1 _ run
  exact ⟨⟨header, unit, items⟩, rfl, ⟨loaded, whole, isStream, named, unlimited⟩, rfl, bounded⟩

private theorem scan_unit_complete {scan : UnitScan} {counters : Counters} (index : TypeIndex) (within : counters.Within)
    (bounded : (counters.behind scan.entries).Within) (complete : scan.Complete decoded dwarf) :
    ∃ result, scan_unit dwarf scan.header.offset scan.unit counters index =
        .ok (counters.behind scan.entries, result) ∧
      ∀ target struct, struct ∈ listed result target ↔
        struct ∈ listed index target ∨ struct ∈ readAs dwarf scan.header.offset scan.found target := by
  have targets : find_targets scan.unit.entries counters [] = .ok (counters.behind scan.entries, scan.found) :=
    (find_targets_eq_ok within).mpr ⟨scan.entries, complete.entries, complete.named, rfl, rfl, bounded⟩
  obtain ⟨result, run, members⟩ := (scan_found_exact (seenIn_nil index)).2 complete.unlimited
  refine ⟨result, ?_, members⟩
  simp only [scan_unit, targets, run, bind, Except.bind, pure, Except.pure]

/-- The units are scanned where each is complete, within the limits of all together. -/
theorem scan_units_sound {headers : List Header} {counters : Counters} {index result : TypeIndex}
    (within : counters.Within) (scanned : scan_units decoded dwarf headers counters index = .ok result) :
    ∃ scans : List UnitScan, headers = scans.map UnitScan.header ∧ (∀ scan ∈ scans, scan.Complete decoded dwarf) ∧
      (counters.behindUnits scans).Within := by
  induction headers generalizing counters index with
  | nil => exact ⟨[], rfl, by simp, within⟩
  | cons header rest ih =>
    simp only [scan_units, bind_eq_ok, parse_error_eq_ok] at scanned
    obtain ⟨unit, loaded, _, split, ⟨after, next⟩, own, later⟩ := scanned
    obtain ⟨scan, rfl, complete, rfl, bounded⟩ := scan_unit_sound within loaded (refuse_split_eq_ok.mp split) own
    obtain ⟨scans, rfl, each, all⟩ := ih bounded later
    refine ⟨scan :: scans, rfl, List.forall_mem_cons.mpr ⟨complete, each⟩, ?_⟩
    rwa [Counters.behindUnits_cons]

private theorem scan_units_complete {scans : List UnitScan} {counters : Counters} (index : TypeIndex)
    (within : counters.Within) (bounded : (counters.behindUnits scans).Within)
    (each : ∀ scan ∈ scans, scan.Complete decoded dwarf) :
    ∃ result, scan_units decoded dwarf (scans.map UnitScan.header) counters index = .ok result ∧
      ∀ target struct, struct ∈ listed result target ↔ struct ∈ listed index target ∨
        ∃ scan ∈ scans, struct ∈ readAs dwarf scan.header.offset scan.found target := by
  induction scans generalizing counters index with
  | nil => exact ⟨index, rfl, fun target struct => by simp⟩
  | cons scan rest ih =>
    obtain ⟨complete, each⟩ := List.forall_mem_cons.mp each
    rw [Counters.behindUnits_cons] at bounded
    have ownBound := Counters.within_of_behindUnits bounded
    obtain ⟨next, own, members⟩ := scan_unit_complete index within ownBound complete
    obtain ⟨result, later, all⟩ := ih next ownBound bounded each
    refine ⟨result, ?_, fun target struct => ?_⟩
    · have split : refuse_split scan.unit = .ok () := refuse_split_eq_ok.mpr complete.whole
      simp only [List.map_cons, scan_units, complete.loaded, parse_error, split, own, later, bind, Except.bind]
    · rw [all, members, List.exists_mem_cons_iff, or_assoc]

end

/-! ## The index -/

/-- The debuginfo is read to its end, as the scans of its units. -/
structure Scanned (decoded : Decoded) (scans : List UnitScan) : Prop where
  headers : decoded.headers = scans.map fun scan => .ok scan.header
  plain : ∀ scan ∈ scans, Plain scan.header
  few_units : scans.length ≤ MAX_UNITS
  complete : ∀ scan ∈ scans, scan.Complete decoded (decoded.info (scans.map UnitScan.header))
  few_dies : (scans.map fun scan => scan.entries.length).sum ≤ MAX_DIES
  few_candidates : (scans.map fun scan => scan.found.length).sum ≤ MAX_TARGET_CANDIDATES

/-- The structures that a target is defined as, in whatever units. -/
def definitions (decoded : Decoded) (scans : List UnitScan) (target : Target) : Set Structure :=
  {struct | ∃ scan ∈ scans, struct ∈
    readAs (decoded.info (scans.map UnitScan.header)) scan.header.offset scan.found target}

/-- The layouts that the definitions of a target are valid for. -/
def definedLayouts (decoded : Decoded) (scans : List UnitScan) (word : UInt64) (target : Target) :
    Set (Layout target) :=
  {layout | ∃ struct ∈ definitions decoded scans target, validate word target struct = .ok layout}

section
variable {decoded : Decoded}

private theorem start_within : Counters.Within ⟨0, 0⟩ := ⟨Nat.zero_le _, Nat.zero_le _⟩

private theorem index_types_sound {index : TypeIndex} (indexed : index_types decoded = .ok index) :
    ∃ scans, Scanned decoded scans := by
  simp only [index_types, bind_eq_ok] at indexed
  obtain ⟨headers, collected, scanned⟩ := indexed
  obtain ⟨more, isStream, isAll, plain, few⟩ := (collect_headers_eq_ok (Nat.zero_le _)).mp collected
  obtain rfl : headers = more := isAll
  obtain ⟨scans, rfl, complete, bounded⟩ := scan_units_sound start_within scanned
  have dies := bounded.dies
  have candidates := bounded.candidate_count
  simp only [Counters.behindUnits, Nat.zero_add] at dies candidates
  rw [List.map_map] at isStream
  rw [List.length_map] at few
  exact ⟨scans, isStream, by simpa using plain, few, complete, dies, candidates⟩

private theorem index_types_complete {scans : List UnitScan} (scanned : Scanned decoded scans) :
    ∃ index, index_types decoded = .ok index ∧
      ∀ target struct, struct ∈ listed index target ↔ struct ∈ definitions decoded scans target := by
  have collected : collect_headers decoded.headers [] = .ok (scans.map UnitScan.header) := by
    refine (collect_headers_eq_ok (Nat.zero_le _)).mpr ⟨scans.map UnitScan.header, ?_, rfl, ?_, ?_⟩
    · rw [scanned.headers, List.map_map]
      rfl
    · simpa using scanned.plain
    · rw [List.length_map]
      exact scanned.few_units
  have bounded : (Counters.behindUnits ⟨0, 0⟩ scans).Within :=
    ⟨by simpa [Counters.behindUnits] using scanned.few_dies,
      by simpa [Counters.behindUnits] using scanned.few_candidates⟩
  obtain ⟨index, run, members⟩ := scan_units_complete no_types start_within bounded scanned.complete
  refine ⟨index, ?_, fun target struct => ?_⟩
  · simp only [index_types, collected, run, bind, Except.bind]
  · rw [members]
    simp [listed, no_types, definitions]

/-- What is valid in the index is what the definitions are valid for. -/
theorem validLayouts_eq {scans : List UnitScan} {index : TypeIndex}
    (members : ∀ target struct, struct ∈ listed index target ↔ struct ∈ definitions decoded scans target)
    (word : UInt64) (target : Target) : validLayouts index word target = definedLayouts decoded scans word target := by
  ext layout
  unfold validLayouts outcomes definedLayouts
  constructor
  · rintro ⟨struct, member, valid⟩
    exact ⟨struct, (members target struct).mp member, valid⟩
  · rintro ⟨struct, member, valid⟩
    exact ⟨struct, (members target struct).mpr member, valid⟩

/-- A definition has a bounded size. -/
theorem definitions_bounded {scans : List UnitScan} {target : Target} {struct : Structure}
    (defined : struct ∈ definitions decoded scans target) : struct.byte_size ≤ MAX_STRUCT_SIZE := by
  obtain ⟨scan, _, offset, _, read⟩ := defined
  simp only [read_definition, bind_eq_ok] at read
  obtain ⟨id, _, parsed⟩ := read
  exact parse_structure_bounded parsed

end

/-- A layout that all valid definitions of the targets agree on. -/
structure AgreedOn (decoded : Decoded) (scans : List UnitScan) (word : UInt64) (require_tcache : Bool)
    (layout : DwarfLayout) (malloc_state : MallocStateLayout) (malloc_par : MallocParLayout)
    (heap_info : HeapInfoLayout) (tcache : Option TcacheLayout) : Prop where
  malloc_state_only : definedLayouts decoded scans word .MallocState = {malloc_state}
  malloc_par_only : definedLayouts decoded scans word .MallocPar = {malloc_par}
  heap_info_only : definedLayouts decoded scans word .HeapInfo = {heap_info}
  tcache_only : require_tcache = true →
    ∃ layout, tcache = some layout ∧ definedLayouts decoded scans word .Tcache = {layout}
  tcache_none : require_tcache = false → tcache = none
  made : MadeOf layout malloc_state malloc_par heap_info tcache

/-- What selection takes from an index is what the definitions in it agree on. -/
theorem selectedFrom_iff_agreedOn {decoded : Decoded} {scans : List UnitScan} {index : TypeIndex} {word : UInt64}
    {require_tcache : Bool} {layout : DwarfLayout} {malloc_state : MallocStateLayout} {malloc_par : MallocParLayout}
    {heap_info : HeapInfoLayout} {tcache : Option TcacheLayout}
    (defined : ∀ target, validLayouts index word target = definedLayouts decoded scans word target) :
    SelectedFrom index word require_tcache layout malloc_state malloc_par heap_info tcache ↔
      AgreedOn decoded scans word require_tcache layout malloc_state malloc_par heap_info tcache := by
  constructor
  · rintro ⟨state, par, info, some_tcache, no_tcache, made⟩
    simp only [defined] at state par info some_tcache
    exact ⟨state, par, info, some_tcache, no_tcache, made⟩
  · rintro ⟨state, par, info, some_tcache, no_tcache, made⟩
    simp only [← defined] at state par info some_tcache
    exact ⟨state, par, info, some_tcache, no_tcache, made⟩

section
variable {host : Host} {decode : List (String × List UInt8) → Decoded} {elf : SectionedElf} {require_tcache : Bool}

/-- Debuginfo that a layout can be extracted from: there are entries, no type units,
    and it is read to its end. -/
structure Extractable (host : Host) (decode : List (String × List UInt8) → Decoded) (elf : SectionedElf)
    (sections : List (String × List UInt8)) (scans : List UnitScan) : Prop where
  loaded : load_sections host elf = .ok sections
  info : section_bytes sections ".debug_info" ≠ []
  types : section_bytes sections ".debug_types" = []
  scanned : Scanned (decode sections) scans

theorem extract_layout_sound {layout : DwarfLayout}
    (extracted : extract_layout host decode elf require_tcache = .ok layout) :
    ∃ sections scans index, Extractable host decode elf sections scans ∧
      (∀ target, validLayouts index (elf_word elf) target =
        definedLayouts (decode sections) scans (elf_word elf) target) ∧
      assemble_layout index (elf_word elf) require_tcache = .ok layout := by
  simp only [extract_layout, bind_eq_ok, refuse_eq_ok, not_not] at extracted
  obtain ⟨sections, loaded, _, info, _, types, index, indexed, assembled⟩ := extracted
  obtain ⟨scans, scanned⟩ := index_types_sound indexed
  obtain ⟨own, same, members⟩ := index_types_complete scanned
  obtain rfl := Except.ok.inj (same.symm.trans indexed)
  exact ⟨sections, scans, own, ⟨loaded, info, types, scanned⟩, validLayouts_eq members (elf_word elf), assembled⟩

private theorem extract_layout_of_extractable (require_tcache : Bool) {sections : List (String × List UInt8)}
    {scans : List UnitScan} (extractable : Extractable host decode elf sections scans) :
    ∃ index, extract_layout host decode elf require_tcache = assemble_layout index (elf_word elf) require_tcache ∧
      (∀ target, validLayouts index (elf_word elf) target =
        definedLayouts (decode sections) scans (elf_word elf) target) ∧
      ∀ target, ∀ candidate ∈ listed index target, candidate.byte_size ≤ MAX_STRUCT_SIZE := by
  obtain ⟨index, indexed, members⟩ := index_types_complete extractable.scanned
  refine ⟨index, ?_, validLayouts_eq members (elf_word elf), fun target candidate member => ?_⟩
  · simp only [extract_layout, extractable.loaded, refuse, if_neg extractable.info, extractable.types, indexed, bind,
      Except.bind, ne_eq, not_true_eq_false, if_false]
  · exact definitions_bounded ((members target candidate).mp member)

private theorem elf_word_cases (elf : SectionedElf) : elf_word elf = 4 ∨ elf_word elf = 8 := by
  unfold elf_word
  cases elf.is_64
  · exact .inl rfl
  · exact .inr rfl

/-- For every decoder: a layout is extracted if and only if there is plain
    debuginfo that is read to its end within the limits, and the layout is the one
    that all valid definitions agree on; and there is such a layout if and only if
    each required target has definitions that agree. -/
theorem extract_layout_exact (host : Host) (decode : List (String × List UInt8) → Decoded) (elf : SectionedElf)
    (require_tcache : Bool) :
    (∀ layout, extract_layout host decode elf require_tcache = .ok layout ↔
      ∃ sections scans, Extractable host decode elf sections scans ∧
        ∃ malloc_state malloc_par heap_info tcache, AgreedOn (decode sections) scans (elf_word elf) require_tcache
          layout malloc_state malloc_par heap_info tcache) ∧
    ((∃ layout, extract_layout host decode elf require_tcache = .ok layout) ↔
      ∃ sections scans, Extractable host decode elf sections scans ∧
        ∀ target, Required require_tcache target →
          ∃ only, definedLayouts (decode sections) scans (elf_word elf) target = {only}) := by
  have isWord := elf_word_cases elf
  refine ⟨fun layout => ⟨fun extracted => ?_, ?_⟩, ⟨?_, ?_⟩⟩
  · obtain ⟨sections, scans, index, extractable, defined, assembled⟩ := extract_layout_sound extracted
    obtain ⟨_, malloc_state, malloc_par, heap_info, tcache, selected⟩ := assemble_layout_eq_ok.mp assembled
    exact ⟨sections, scans, extractable, malloc_state, malloc_par, heap_info, tcache,
      (selectedFrom_iff_agreedOn defined).mp selected⟩
  · rintro ⟨sections, scans, extractable, malloc_state, malloc_par, heap_info, tcache, agreed⟩
    obtain ⟨index, assembles, defined, _⟩ := extract_layout_of_extractable require_tcache extractable
    rw [assembles]
    exact assemble_layout_eq_ok.mpr ⟨isWord, malloc_state, malloc_par, heap_info, tcache,
      (selectedFrom_iff_agreedOn defined).mpr agreed⟩
  · rintro ⟨layout, extracted⟩
    obtain ⟨sections, scans, index, extractable, defined, assembled⟩ := extract_layout_sound extracted
    obtain ⟨_, malloc_state, malloc_par, heap_info, tcache, selected⟩ := assemble_layout_eq_ok.mp assembled
    refine ⟨sections, scans, extractable, fun target required => ?_⟩
    rw [← defined]
    exact selected.only required
  · rintro ⟨sections, scans, extractable, agreed⟩
    obtain ⟨index, assembles, defined, bounded⟩ := extract_layout_of_extractable require_tcache extractable
    rw [assembles]
    refine assemble_layout_returns isWord bounded fun target required => ?_
    rw [defined]
    exact agreed target required

end

end HeapAnalyser.DwarfExtract
