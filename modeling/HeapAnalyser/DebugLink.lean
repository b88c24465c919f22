import HeapAnalyser.BuildId
import HeapAnalyser.Version

/-!
Whether separate debuginfo belongs to the runtime libc
(`verify_debug_matches_runtime` of `glibc/mod.rs`). Two build-ids decide, and
where one is missing the `.gnu_debuglink` section of the runtime does, which has
a file name, up to three bytes of padding and a CRC of the debuginfo. Debuginfo
is accepted exactly on equal build-ids, or without them on the CRC of the one
link there is; and a link as it is written has its CRC, in either byte order
(`verify_exact`).
-/
namespace HeapAnalyser.DebugLink
open Bytes Elf Notes Checks BuildId Version

def SHT_NOTE : UInt32 := 7

/-- The bytes of a section, where it lies in the file. -/
def section_data (elf : Object) (header : Section) : Option (List UInt8) := do
  let stop ← checked_add_usize header.sh_offset.toNat header.sh_size.toNat
  slice elf.data.bytes header.sh_offset.toNat stop

/-- The notes of a parsed ELF. -/
def notes (elf : Image.Elf) : List Note :=
  walk_all_notes (elf.program_headers.map Image.ProgramHeader.toProgramHeader) elf.data.bytes

/-- The build-id in a note section; one that cannot be sliced is passed over. -/
def build_id_from_note_sections (elf : Object) : Option (List UInt8) :=
  elf.sections.findSome? fun header =>
    if header.sh_type ≠ SHT_NOTE then none else (section_data elf header).bind fun bytes => build_id (walked bytes)

/-- The build-id of an ELF; an empty one does not count. -/
def elf_build_id (elf : Object) : Option (List UInt8) :=
  ((build_id (notes elf.toElf)).or (build_id_from_note_sections elf)).filter (· ≠ [])

def malformed : String := "runtime libc has malformed .gnu_debuglink data"

/-- The CRC behind the name and its padding. -/
def parse_debuglink_crc (data : List UInt8) (little_endian : Bool) : Except String UInt32 := do
  let nul ← ok_or ((data.findIdx? (· = 0)).filter (0 < ·)) malformed
  let crc_offset ← ok_or ((checked_add_usize nul 1).bind align4) malformed
  let crc_end ← ok_or (checked_add_usize crc_offset 4) malformed
  let bytes ← ok_or (slice data crc_offset crc_end) malformed
  return UInt32.ofNat (number (if little_endian then bytes else bytes.reverse))

/-- The loop of `debuglink_crc`. -/
def crc_from (elf : Object) : List Section → Option UInt32 → Except String (Option UInt32)
  | [], result => .ok result
  | header :: rest, result =>
    if header.name ≠ some ".gnu_debuglink" then crc_from elf rest result
    else do
      refuse (result.isSome = true) "runtime libc has duplicate .gnu_debuglink sections"
      let stop ← ok_or (checked_add_usize header.sh_offset.toNat header.sh_size.toNat)
        "runtime libc has invalid .gnu_debuglink range"
      let data ← ok_or (slice elf.data.bytes header.sh_offset.toNat stop)
        "runtime libc has truncated .gnu_debuglink data"
      let crc ← parse_debuglink_crc data elf.little_endian
      crc_from elf rest (some crc)

def debuglink_crc (elf : Object) : Except String (Option UInt32) := crc_from elf elf.sections none

def verify_debuglink_crc (crc32 : List UInt8 → UInt32) (expected : UInt32) (debug : List UInt8) : Except String Unit :=
  if crc32 debug = expected then .ok () else .error "debuginfo .gnu_debuglink CRC does not match the runtime libc"

/-- Check that debuginfo belongs to the runtime libc; the CRC is that of the code outside. -/
def verify_debug_matches_runtime (crc32 : List UInt8 → UInt32) (runtime debug : Object) : Except String Unit := do
  refuse (runtime.machine ≠ debug.machine ∨ runtime.is_64 ≠ debug.is_64)
    "debuginfo ABI does not match the runtime libc"
  match elf_build_id runtime, elf_build_id debug with
  | some runtime_id, some debug_id =>
    if runtime_id = debug_id then .ok () else .error "debuginfo build-id does not match the runtime libc"
  | _, _ => do
    let found ← debuglink_crc runtime
    let expected_crc ← ok_or found "runtime libc and debuginfo have no matching build-id or .gnu_debuglink CRC"
    verify_debuglink_crc crc32 expected_crc debug.data.bytes

/-- The bytes of a CRC in a byte order. -/
def crcBytes (little_endian : Bool) (crc : UInt32) : List UInt8 :=
  if little_endian then bytesOf 4 crc.toNat else (bytesOf 4 crc.toNat).reverse

/-- The data of a link: a name with its NUL, what fills it up to a multiple of four
    bytes, a CRC, and anything. -/
def LinkSays (little_endian : Bool) (data : List UInt8) (crc : UInt32) : Prop :=
  ∃ name fill behind, data = name ++ 0 :: fill ++ crcBytes little_endian crc ++ behind ∧ name ≠ [] ∧ 0 ∉ name ∧
    (name.length + 1 + fill.length) % 4 = 0 ∧ fill.length < 4

private theorem crcBytes_length (little_endian : Bool) (crc : UInt32) : (crcBytes little_endian crc).length = 4 := by
  unfold crcBytes
  cases little_endian <;> simp

private theorem number_crcBytes (little_endian : Bool) (crc : UInt32) :
    UInt32.ofNat (number (if little_endian then crcBytes little_endian crc else (crcBytes little_endian crc).reverse)) =
      crc := by
  have back : number (bytesOf 4 crc.toNat) = crc.toNat := number_bytesOf crc.toNat_lt
  cases little_endian
  · simp [crcBytes, back]
  · simp [crcBytes, back]

private theorem crcBytes_number {little_endian : Bool} {bytes : List UInt8} (four : bytes.length = 4) :
    crcBytes little_endian (UInt32.ofNat (number (if little_endian then bytes else bytes.reverse))) = bytes := by
  have whole : ∀ part : List UInt8, part.length = 4 → bytesOf 4 (UInt32.ofNat (number part)).toNat = part := by
    intro part length
    have small : number part < 2 ^ 32 := by
      have bound := number_lt part
      rw [length] at bound
      exact bound
    rw [UInt32.toNat_ofNat_of_lt' small]
    have same := bytesOf_number part
    rwa [length] at same
  cases little_endian
  · simp only [crcBytes, Bool.false_eq_true, if_false]
    rw [whole bytes.reverse (by simpa using four), List.reverse_reverse]
  · simp only [crcBytes, if_true]
    exact whole bytes four

/-- The first NUL is behind the bytes in front of it. -/
theorem findIdx?_nul_eq_some {data : List UInt8} {nul : Nat} : data.findIdx? (· = 0) = some nul ↔
    ∃ name rest, data = name ++ 0 :: rest ∧ 0 ∉ name ∧ nul = name.length := by
  constructor
  · intro found
    obtain ⟨within, isNul, before⟩ := List.findIdx?_eq_some_iff_getElem.mp found
    have zero : data[nul] = 0 := by simpa using isNul
    refine ⟨data.take nul, data.drop (nul + 1), ?_, ?_, ?_⟩
    · rw [← zero, List.cons_getElem_drop_succ, List.take_append_drop]
    · intro member
      obtain ⟨j, inside, isZero⟩ := List.getElem_of_mem member
      rw [List.length_take] at inside
      rw [List.getElem_take] at isZero
      exact before j (by omega) (by simpa using isZero)
    · rw [List.length_take]
      omega
  · rintro ⟨name, rest, rfl, clean, rfl⟩
    have none : name.findIdx? (· = 0) = none := by
      rw [List.findIdx?_eq_none_iff]
      intro byte member
      exact decide_eq_false fun zero => clean (zero ▸ member)
    rw [List.findIdx?_append, none, List.findIdx?_cons]
    simp

/-- The CRC that is parsed is the one that the data has. -/
theorem parse_debuglink_crc_eq_ok {data : List UInt8} {little_endian : Bool} {crc : UInt32}
    (bounded : data.length ≤ MAX_SLICE) :
    parse_debuglink_crc data little_endian = .ok crc ↔ LinkSays little_endian data crc := by
  simp only [parse_debuglink_crc, bind_eq_ok, ok_or_eq_ok, Option.filter_eq_some_iff, findIdx?_nul_eq_some,
    Option.bind_eq_some_iff, checked_add_usize_eq_some]
  constructor
  · rintro ⟨nul, ⟨⟨name, rest, rfl, clean, rfl⟩, named⟩, crc_offset, ⟨_, ⟨_, rfl⟩, upTo⟩, _, ⟨_, rfl⟩, bytes, sliced,
      made⟩
    cases made
    obtain ⟨_, rfl⟩ := align4_eq_some.mp upTo
    obtain ⟨_, inside, isPart⟩ := slice_eq_some.mp sliced
    have four := slice_length sliced
    rw [Nat.add_sub_cancel_left] at four isPart
    simp only [List.length_append, List.length_cons] at inside
    -- What is between the NUL and the CRC.
    obtain ⟨k, isFill⟩ : ∃ k, aligned (name.length + 1) = name.length + 1 + k := by
      unfold aligned
      exact ⟨(name.length + 1 + 3) / 4 * 4 - (name.length + 1), by omega⟩
    have small : k < 4 ∧ (name.length + 1 + k) % 4 = 0 := by
      unfold aligned at isFill
      omega
    have dropped : (name ++ 0 :: rest).drop (aligned (name.length + 1)) = rest.drop k := by
      rw [isFill, Nat.add_assoc, List.drop_length_add_append, Nat.add_comm 1, List.drop_succ_cons]
    rw [dropped] at isPart
    have filled : (rest.take k).length = k := by
      rw [List.length_take]
      omega
    refine ⟨name, rest.take k, (rest.drop k).drop 4, ?_, by simpa [List.length_pos_iff] using named, clean, ?_, ?_⟩
    · rw [crcBytes_number four, isPart]
      simp [List.append_assoc]
    · rw [filled]
      exact small.2
    · rw [filled]
      exact small.1
  · rintro ⟨name, fill, behind, rfl, named, clean, upTo, short⟩
    have length := crcBytes_length little_endian crc
    simp only [List.length_append, List.length_cons, length, MAX_SLICE] at bounded
    have isOffset : aligned (name.length + 1) = (name ++ 0 :: fill).length := by
      rw [List.length_append, List.length_cons]
      unfold aligned
      omega
    refine ⟨name.length, ⟨⟨name, fill ++ crcBytes little_endian crc ++ behind, by simp, clean, rfl⟩, ?_⟩,
      (name ++ 0 :: fill).length, ⟨_, ⟨by omega, rfl⟩, align4_eq_some.mpr ⟨by omega, isOffset⟩⟩, _, ⟨?_, rfl⟩,
      crcBytes little_endian crc, ?_, ?_⟩
    · simpa [List.length_pos_iff] using named
    · rw [List.length_append, List.length_cons]
      omega
    · have found := slice_append (name ++ 0 :: fill) (crcBytes little_endian crc) behind
      rwa [length] at found
    · simp only [number_crcBytes]
      rfl

/-- A header of a link. -/
def IsLink (header : Section) : Prop := header.name = some ".gnu_debuglink"

/-- The one link of an ELF says a CRC. -/
def OneLink (elf : Object) (crc : UInt32) : Prop :=
  ∃ front link back data, elf.sections = front ++ link :: back ∧ IsLink link ∧
    (∀ header ∈ front ++ back, ¬ IsLink header) ∧
    section_data elf link = some data ∧ LinkSays elf.little_endian data crc

private theorem section_data_eq_some {elf : Object} {header : Section} {data : List UInt8} :
    section_data elf header = some data ↔
      ∃ stop, checked_add_usize header.sh_offset.toNat header.sh_size.toNat = some stop ∧
        slice elf.data.bytes header.sh_offset.toNat stop = some data := by
  unfold section_data
  exact Option.bind_eq_some_iff

private theorem section_data_bounded {elf : Object} {header : Section} {data : List UInt8}
    (sliced : section_data elf header = some data) : data.length ≤ MAX_SLICE := by
  obtain ⟨stop, _, inFile⟩ := section_data_eq_some.mp sliced
  have length := slice_length inFile
  obtain ⟨_, inside, _⟩ := slice_eq_some.mp inFile
  have whole := elf.data.length_le
  omega

private theorem crc_from_some {elf : Object} {headers : List Section} {crc : UInt32} {result : Option UInt32} :
    crc_from elf headers (some crc) = .ok result ↔ result = some crc ∧ ∀ header ∈ headers, ¬ IsLink header := by
  induction headers with
  | nil =>
    rw [crc_from, Except.ok.injEq]
    simp [eq_comm]
  | cons header rest ih =>
    rw [crc_from, List.forall_mem_cons]
    by_cases other : header.name ≠ some ".gnu_debuglink"
    · rw [if_pos other, ih]
      simp [IsLink, other]
    · rw [if_neg other]
      have isLink : IsLink header := not_not.mp other
      simp [bind_eq_ok, refuse_eq_ok, isLink]

/-- In front of a link the loop goes on, and takes the first. -/
theorem crc_from_none {elf : Object} {headers : List Section} {crc : UInt32} :
    crc_from elf headers none = .ok (some crc) ↔ ∃ front link back data, headers = front ++ link :: back ∧ IsLink link ∧
      (∀ header ∈ front ++ back, ¬ IsLink header) ∧ section_data elf link = some data ∧
      LinkSays elf.little_endian data crc := by
  induction headers with
  | nil => simp [crc_from]
  | cons header rest ih =>
    rw [crc_from]
    by_cases other : header.name ≠ some ".gnu_debuglink"
    · rw [if_pos other, ih]
      constructor
      · rintro ⟨front, link, back, data, rfl, isLink, none, found⟩
        exact ⟨header :: front, link, back, data, rfl, isLink, List.forall_mem_cons.mpr ⟨other, none⟩, found⟩
      · rintro ⟨front, link, back, data, split, isLink, none, found⟩
        cases front with
        | nil =>
          obtain ⟨rfl, rfl⟩ := List.cons.inj split
          exact absurd isLink other
        | cons first front =>
          obtain ⟨rfl, rfl⟩ := List.cons.inj split
          exact ⟨front, link, back, data, rfl, isLink, (List.forall_mem_cons.mp none).2, found⟩
    · have isLink : IsLink header := not_not.mp other
      rw [if_neg other]
      simp only [bind_eq_ok, refuse_eq_ok, ok_or_eq_ok, crc_from_some, Option.some.injEq]
      constructor
      · rintro ⟨_, _, stop, fits, data, sliced, own, parsed, rfl, none⟩
        have isData := section_data_eq_some.mpr ⟨stop, fits, sliced⟩
        exact ⟨[], header, rest, data, rfl, isLink, none, isData,
          (parse_debuglink_crc_eq_ok (section_data_bounded isData)).mp parsed⟩
      · rintro ⟨front, link, back, data, split, _, none, isData, stated⟩
        cases front with
        | cons first front =>
          obtain ⟨rfl, rfl⟩ := List.cons.inj split
          exact absurd isLink (List.forall_mem_cons.mp none).1
        | nil =>
          obtain ⟨rfl, rfl⟩ := List.cons.inj split
          obtain ⟨stop, fits, sliced⟩ := section_data_eq_some.mp isData
          exact ⟨⟨⟩, by simp, stop, fits, data, sliced, crc,
            (parse_debuglink_crc_eq_ok (section_data_bounded isData)).mpr stated, rfl, none⟩

theorem verify_eq_ok {crc32 : List UInt8 → UInt32} {runtime debug : Object} :
    verify_debug_matches_runtime crc32 runtime debug = .ok () ↔
      runtime.machine = debug.machine ∧ runtime.is_64 = debug.is_64 ∧
      ((∃ id, elf_build_id runtime = some id ∧ elf_build_id debug = some id) ∨
        ((elf_build_id runtime = none ∨ elf_build_id debug = none) ∧ OneLink runtime (crc32 debug.data.bytes))) := by
  have linked : (∃ found, debuglink_crc runtime = .ok found ∧ ∃ expected, found = some expected ∧
      verify_debuglink_crc crc32 expected debug.data.bytes = .ok ()) ↔ OneLink runtime (crc32 debug.data.bytes) := by
    rw [OneLink, ← crc_from_none]
    constructor
    · rintro ⟨_, found, expected, rfl, same⟩
      unfold verify_debuglink_crc at same
      by_cases agrees : crc32 debug.data.bytes = expected
      · rw [agrees]
        exact found
      · rw [if_neg agrees] at same
        cases same
    · intro found
      exact ⟨_, found, _, rfl, by rw [verify_debuglink_crc, if_pos rfl]⟩
  simp only [verify_debug_matches_runtime, bind_eq_ok, refuse_eq_ok, not_or, not_not]
  have crc : (do
      let found ← debuglink_crc runtime
      let expected_crc ← ok_or found "runtime libc and debuginfo have no matching build-id or .gnu_debuglink CRC"
      verify_debuglink_crc crc32 expected_crc debug.data.bytes) = .ok () ↔
        OneLink runtime (crc32 debug.data.bytes) := by
    simp only [bind_eq_ok, ok_or_eq_ok]
    exact linked
  cases elf_build_id runtime with
  | none => simp [crc, and_assoc]
  | some runtime_id =>
    cases elf_build_id debug with
    | none => simp [crc, and_assoc]
    | some debug_id =>
      by_cases same : runtime_id = debug_id
      · simp [same]
      · simp [same, Ne.symm same]

/-- The data of a link as it is written: the padding is zero. -/
def written (little_endian : Bool) (name : List UInt8) (crc : UInt32) : List UInt8 :=
  name ++ 0 :: List.replicate ((4 - (name.length + 1) % 4) % 4) 0 ++ crcBytes little_endian crc

private theorem written_says {little_endian : Bool} {name : List UInt8} {crc : UInt32} (named : name ≠ [])
    (clean : 0 ∉ name) : LinkSays little_endian (written little_endian name crc) crc := by
  refine ⟨name, List.replicate ((4 - (name.length + 1) % 4) % 4) 0, [], by simp [written], named, clean, ?_, ?_⟩
  · rw [List.length_replicate]
    omega
  · rw [List.length_replicate]
    omega

private theorem oneLink_unique {elf : Object} {crc other : UInt32} (one : OneLink elf crc) (another : OneLink elf other) :
    crc = other := by
  have first := crc_from_none.mpr one
  have second := crc_from_none.mpr another
  exact Option.some.inj (Except.ok.inj (first.symm.trans second))

/-- Debuginfo is accepted exactly where machine and class are the same and the
    build-ids are equal, or one is missing and the one link of the runtime has the
    CRC of the debuginfo. So without build-ids a link as it is written decides on
    its CRC, in either byte order and whatever the file name. -/
theorem verify_exact (crc32 : List UInt8 → UInt32) (runtime debug : Object) :
    (verify_debug_matches_runtime crc32 runtime debug = .ok () ↔
      runtime.machine = debug.machine ∧ runtime.is_64 = debug.is_64 ∧
      ((∃ id, elf_build_id runtime = some id ∧ elf_build_id debug = some id) ∨
        ((elf_build_id runtime = none ∨ elf_build_id debug = none) ∧ OneLink runtime (crc32 debug.data.bytes)))) ∧
    (∀ front link back name crc, runtime.sections = front ++ link :: back → IsLink link →
      (∀ header ∈ front ++ back, ¬ IsLink header) → name ≠ [] → 0 ∉ name →
      section_data runtime link = some (written runtime.little_endian name crc) →
      runtime.machine = debug.machine → runtime.is_64 = debug.is_64 →
      (elf_build_id runtime = none ∨ elf_build_id debug = none) →
      (verify_debug_matches_runtime crc32 runtime debug = .ok () ↔ crc32 debug.data.bytes = crc)) := by
  refine ⟨verify_eq_ok, ?_⟩
  intro front link back name crc sections isLink only named clean stored machine is_64 unidentified
  have own : OneLink runtime crc := ⟨front, link, back, _, sections, isLink, only, stored, written_says named clean⟩
  rw [verify_eq_ok]
  constructor
  · rintro ⟨_, _, ⟨id, isRuntime, isDebug⟩ | ⟨_, linked⟩⟩
    · rcases unidentified with none | none
      · rw [none] at isRuntime
        cases isRuntime
      · rw [none] at isDebug
        cases isDebug
    · exact oneLink_unique linked own
  · rintro rfl
    exact ⟨machine, is_64, .inr ⟨unidentified, own⟩⟩

end HeapAnalyser.DebugLink
