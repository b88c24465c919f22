import HeapAnalyser.Notes

/-!
The two readers of a build-id (`elf/notes.rs`): one over the program headers of
a parsed file, one over the raw first bytes of its mapping. Both search the
`PT_NOTE` headers in order; the one over the file passes over a segment it
cannot slice, the raw one gives up there. So they agree unless, in front of the
header that has the build-id, there is a `PT_NOTE` segment that does not lie in
the mapped bytes (`build_id_agrees_iff`).
-/
namespace HeapAnalyser.BuildId
open Bytes Elf Notes

def PT_NOTE : UInt32 := 4
def NT_GNU_BUILD_ID : UInt32 := 3

/-- What the readers use of a program header. -/
structure ProgramHeader where
  p_type : UInt32
  p_offset : UInt64
  p_filesz : UInt64
  deriving Repr, DecidableEq

/-- The notes of a segment, whose walk always returns. -/
def walked (segment : List UInt8) : List Note := (walk_note_segment segment).getD []

/-- The bytes `[p_offset, p_offset + p_filesz)` of a file or a buffer. -/
def segment (data : List UInt8) (ph : ProgramHeader) : Option (List UInt8) := do
  let stop ← checked_add_usize ph.p_offset.toNat ph.p_filesz.toNat
  slice data ph.p_offset.toNat stop

/-- The notes of every `PT_NOTE` segment of a parsed file. -/
def walk_all_notes (program_headers : List ProgramHeader) (data : List UInt8) : List Note :=
  program_headers.flatMap fun ph =>
    if ph.p_type ≠ PT_NOTE then []
    else match segment data ph with
      | some bytes => walked bytes
      | none => []

/-- The GNU build-id, if present. -/
def build_id (notes : List Note) : Option (List UInt8) :=
  (notes.find? fun n => n.note_type = NT_GNU_BUILD_ID ∧ n.name = "GNU").map Note.desc

/-- The loop of `build_id_from_raw_buffer`, over the indices of the program
    headers. `i * phentsize` is a product of two 16-bit numbers, which fits, and
    where a type was read the offsets of the fields behind it fit. -/
def raw_from (buf : List UInt8) (is_64 : Bool) (phoff phentsize : Nat) : List Nat → Option (List UInt8)
  | [] => none
  | i :: rest => do
    let ph ← checked_add_usize phoff (i * phentsize)
    let p_type ← read_u32_le buf ph
    if p_type ≠ PT_NOTE then raw_from buf is_64 phoff phentsize rest
    else
      let p_offset ← read_word buf (ph + if is_64 then 8 else 4) is_64
      let p_filesz ← read_word buf (ph + if is_64 then 32 else 16) is_64
      let bytes ← segment buf ⟨p_type, p_offset, p_filesz⟩
      match build_id (walked bytes) with
      | some id => some id
      | none => raw_from buf is_64 phoff phentsize rest

/-- The class of an ELF image, 64-bit or not, from its magic and `EI_CLASS`. -/
def elf_class (buf : List UInt8) : Option Bool :=
  if ¬ [0x7f, 0x45, 0x4c, 0x46] <+: buf then none
  else match (buf[4]? : Option UInt8) with
    | some 1 => some false
    | some 2 => some true
    | _ => none

/-- Where an ELF header has its `e_phoff`, `e_phentsize` and `e_phnum`. -/
def phoff_off (is_64 : Bool) : Nat := if is_64 then 0x20 else 0x1c
def phentsize_off (is_64 : Bool) : Nat := if is_64 then 0x36 else 0x2a
def phnum_off (is_64 : Bool) : Nat := if is_64 then 0x38 else 0x2c

/-- A build-id straight from a raw buffer that starts with an ELF header. -/
def build_id_from_raw_buffer (buf : List UInt8) : Option (List UInt8) := do
  let is_64 ← elf_class buf
  let e_phoff ← read_word buf (phoff_off is_64) is_64
  let phentsize ← read_u16_le buf (phentsize_off is_64)
  let phnum ← read_u16_le buf (phnum_off is_64)
  raw_from buf is_64 e_phoff.toNat phentsize.toNat (List.range phnum.toNat)

/-- The standard size of an ELF header. -/
def ehdr_size (is_64 : Bool) : Nat := if is_64 then 64 else 52

/-- The standard size of a program header. -/
def phdr_size (is_64 : Bool) : Nat := if is_64 then 56 else 32

/-- The program header stored at an offset. -/
def program_header (data : List UInt8) (is_64 : Bool) (off : Nat) : Option ProgramHeader := do
  let p_type ← read_u32_le data off
  let p_offset ← read_word data (off + if is_64 then 8 else 4) is_64
  let p_filesz ← read_word data (off + if is_64 then 32 else 16) is_64
  return ⟨p_type, p_offset, p_filesz⟩

/-- A little-endian image of standard entry size with its program headers, and
    the first bytes of it that are mapped: these have the whole table. -/
structure Mapped (f w : Buffer) (is_64 : Bool) (headers : List ProgramHeader) : Prop where
  front : w.bytes <+: f.bytes
  header : ehdr_size is_64 ≤ w.bytes.length
  is_class : elf_class f.bytes = some is_64
  entsize : read_u16_le f.bytes (phentsize_off is_64) = some (UInt16.ofNat (phdr_size is_64))
  table : ∃ e_phoff e_phnum, read_word f.bytes (phoff_off is_64) is_64 = some e_phoff ∧
    read_u16_le f.bytes (phnum_off is_64) = some e_phnum ∧
    e_phoff.toNat + e_phnum.toNat * phdr_size is_64 ≤ w.bytes.length ∧ headers.length = e_phnum.toNat ∧
    ∀ i (inside : i < headers.length),
      program_header f.bytes is_64 (e_phoff.toNat + i * phdr_size is_64) = some headers[i]

/-- The build-id in the segment of a program header. -/
def idOf (data : List UInt8) (ph : ProgramHeader) : Option (List UInt8) :=
  if ph.p_type ≠ PT_NOTE then none else (segment data ph).bind fun bytes => build_id (walked bytes)

/-- The full parse finds the build-id in the segment of `ph`, behind `front`. -/
def FoundAt (f : List UInt8) (headers front : List ProgramHeader) (ph : ProgramHeader) : Prop :=
  (∃ back, headers = front ++ ph :: back) ∧ (∀ other ∈ front, idOf f other = none) ∧ idOf f ph ≠ none

/-- The segment of a program header lies in the mapped bytes. -/
def InView (w : List UInt8) (ph : ProgramHeader) : Prop := ∃ bytes, segment w ph = some bytes

/-- The search of the raw reader, over decoded program headers. -/
def search (w : List UInt8) : List ProgramHeader → Option (List UInt8)
  | [] => none
  | ph :: rest =>
    if ph.p_type ≠ PT_NOTE then search w rest
    else match segment w ph with
      | none => none
      | some bytes =>
        match build_id (walked bytes) with
        | some id => some id
        | none => search w rest

section
variable {f w : List UInt8}

private theorem segment_of_prefix (front : w <+: f) {ph : ProgramHeader} {bytes : List UInt8}
    (found : segment w ph = some bytes) : segment f ph = some bytes := by
  simp only [segment, Option.bind_eq_bind, Option.bind_eq_some_iff] at found ⊢
  obtain ⟨stop, sum, isSlice⟩ := found
  exact ⟨stop, sum, slice_of_prefix front isSlice⟩

theorem build_id_walk_all_notes (headers : List ProgramHeader) (data : List UInt8) :
    build_id (walk_all_notes headers data) = headers.findSome? (idOf data) := by
  induction headers with
  | nil => rfl
  | cons ph rest ih =>
    have split : build_id (walk_all_notes (ph :: rest) data) =
        (idOf data ph).or (build_id (walk_all_notes rest data)) := by
      rw [walk_all_notes, List.flatMap_cons, build_id, List.find?_append, Option.map_or]
      congr 1
      by_cases note : ph.p_type ≠ PT_NOTE
      · simp [idOf, note]
      · cases found : segment data ph with
        | none => simp [idOf, note, found]
        | some bytes => simp [idOf, note, found, build_id]
    rw [split, ih, List.findSome?_cons]
    cases idOf data ph with
    | none => rfl
    | some id => rfl

/-! ## The two searches -/

private theorem foundAt_exists {headers : List ProgramHeader} :
    headers.findSome? (idOf f) ≠ none ↔ ∃ before ph, FoundAt f headers before ph := by
  constructor
  · intro found
    obtain ⟨id, isId⟩ := Option.ne_none_iff_exists'.mp found
    obtain ⟨before, ph, back, split, own, others⟩ := List.findSome?_eq_some_iff.mp isId
    exact ⟨before, ph, ⟨back, split⟩, others, by simp [own]⟩
  · rintro ⟨before, ph, ⟨back, rfl⟩, others, own⟩
    rw [List.findSome?_append, List.findSome?_eq_none_iff.mpr others, List.findSome?_cons]
    cases isId : idOf f ph with
    | none => exact absurd isId own
    | some id => simp

theorem foundAt_first {headers before : List ProgramHeader} {ph other : ProgramHeader} (own : idOf f ph ≠ none)
    (found : FoundAt f (ph :: headers) before other) : before = [] := by
  obtain ⟨⟨back, split⟩, others, _⟩ := found
  cases before with
  | nil => rfl
  | cons first rest =>
    obtain ⟨rfl, _⟩ := List.cons.inj split
    exact absurd (others ph (by simp)) own

private theorem foundAt_later {headers before : List ProgramHeader} {ph other : ProgramHeader} (none : idOf f ph = none) :
    FoundAt f (ph :: headers) before other ↔ ∃ rest, before = ph :: rest ∧ FoundAt f headers rest other := by
  constructor
  · rintro ⟨⟨back, split⟩, others, own⟩
    cases before with
    | nil =>
      obtain ⟨rfl, _⟩ := List.cons.inj split
      exact absurd none own
    | cons first rest =>
      obtain ⟨rfl, tail⟩ := List.cons.inj split
      exact ⟨rest, rfl, ⟨back, tail⟩, fun e member => others e (by simp [member]), own⟩
  · rintro ⟨rest, rfl, ⟨back, rfl⟩, others, own⟩
    refine ⟨⟨back, rfl⟩, ?_, own⟩
    intro e member
    rcases List.mem_cons.mp member with rfl | later
    · exact none
    · exact others e later

/-- Every `PT_NOTE` segment in front of what the full parse finds is in view. -/
def Unblocked (f w : List UInt8) (headers : List ProgramHeader) : Prop :=
  ∀ before ph, FoundAt f headers before ph → ∀ other ∈ before, other.p_type = PT_NOTE → InView w other

private theorem unblocked_later {headers : List ProgramHeader} {ph : ProgramHeader} (none : idOf f ph = none)
    (clear : ph.p_type = PT_NOTE → InView w ph) : Unblocked f w (ph :: headers) ↔ Unblocked f w headers := by
  constructor
  · intro unblocked before found_ph found other member note
    exact unblocked (ph :: before) found_ph ((foundAt_later none).mpr ⟨before, rfl, found⟩) other (by simp [member]) note
  · intro unblocked before found_ph found other member note
    obtain ⟨rest, rfl, later⟩ := (foundAt_later none).mp found
    rcases List.mem_cons.mp member with rfl | inRest
    · exact clear note
    · exact unblocked rest found_ph later other inRest note

/-- In front of a segment that is not in view the raw search has lost nothing
    exactly where the full one finds nothing behind it. -/
theorem unblocked_gap {rest : List ProgramHeader} {ph : ProgramHeader} (silent : idOf f ph = none)
    (note : ph.p_type = PT_NOTE) (gap : segment w ph = none) :
    Unblocked f w (ph :: rest) ↔ rest.findSome? (idOf f) = none := by
  constructor
  · intro unblocked
    by_contra found
    obtain ⟨before, other, inRest⟩ := foundAt_exists.mp found
    obtain ⟨bytes, inView⟩ := unblocked (ph :: before) other ((foundAt_later silent).mpr ⟨before, rfl, inRest⟩) ph
      (by simp) note
    rw [gap] at inView
    simp at inView
  · intro nothing before other isFound
    obtain ⟨before, rfl, inRest⟩ := (foundAt_later silent).mp isFound
    exact absurd nothing (foundAt_exists.mpr ⟨before, other, inRest⟩)

/-- The raw search takes the build-id of the first header, where that has one in view. -/
theorem search_own (front : w <+: f) (rest : List ProgramHeader) {ph : ProgramHeader} (own : idOf f ph ≠ none)
    (inView : InView w ph) : search w (ph :: rest) = idOf f ph := by
  obtain ⟨bytes, inView⟩ := inView
  have note : ¬ ph.p_type ≠ PT_NOTE := by
    intro other
    rw [idOf, if_pos other] at own
    exact own rfl
  have isId : idOf f ph = build_id (walked bytes) := by
    rw [idOf, if_neg note, segment_of_prefix front inView]
    rfl
  obtain ⟨id, found⟩ := Option.ne_none_iff_exists'.mp own
  rw [isId] at found
  simp only [search, if_neg note, inView, found, isId]

/-- The raw search agrees with the full one unless it gives up in front of what
    that finds. -/
theorem search_eq_iff (front : w <+: f) (headers : List ProgramHeader)
    (whole : ∀ before ph, FoundAt f headers before ph → InView w ph) :
    search w headers = headers.findSome? (idOf f) ↔ Unblocked f w headers := by
  induction headers with
  | nil =>
    constructor
    · rintro _ before ph ⟨⟨back, none⟩, _⟩
      simp at none
    · intro _
      rfl
  | cons ph rest ih =>
    by_cases own : idOf f ph = none
    · have later := ih fun before other found =>
        whole (ph :: before) other ((foundAt_later own).mpr ⟨before, rfl, found⟩)
      rw [List.findSome?_cons, own]
      by_cases note : ph.p_type ≠ PT_NOTE
      · rw [search, if_pos note, unblocked_later own fun is => absurd is note]
        exact later
      cases found : segment w ph with
      | some bytes =>
        have silent : build_id (walked bytes) = none := by
          rw [idOf, if_neg note, segment_of_prefix front found] at own
          exact own
        simp only [search, if_neg note, found, silent]
        rw [unblocked_later own fun _ => ⟨bytes, found⟩]
        exact later
      | none =>
        simp only [search, if_neg note, found]
        rw [unblocked_gap own (not_not.mp note) found, eq_comm]
    · have inView := whole [] ph ⟨⟨rest, rfl⟩, by simp, own⟩
      have unblocked : Unblocked f w (ph :: rest) := by
        intro before other isFound earlier member
        rw [foundAt_first own isFound] at member
        simp at member
      obtain ⟨id, found⟩ := Option.ne_none_iff_exists'.mp own
      rw [search_own front rest own inView, List.findSome?_cons, found]
      simp only [unblocked]

/-- A program header that lies in view is decoded from the mapped bytes. -/
theorem program_header_in_view (front : w <+: f) {is_64 : Bool} {off : Nat} {ph : ProgramHeader}
    (decodes : program_header f is_64 off = some ph) (inside : off + phdr_size is_64 ≤ w.length) :
    program_header w is_64 off = some ph := by
  simp only [program_header, Option.bind_eq_bind, Option.bind_eq_some_iff, Option.pure_def] at decodes ⊢
  obtain ⟨p_type, readType, p_offset, readOffset, p_filesz, readSize, isHeader⟩ := decodes
  cases is_64 with
  | true =>
    change off + 56 ≤ w.length at inside
    exact ⟨p_type, read_u32_le_in_prefix front readType (by omega), p_offset,
      read_word_in_prefix front readOffset (by change off + 8 + 8 ≤ _; omega), p_filesz,
      read_word_in_prefix front readSize (by change off + 32 + 8 ≤ _; omega), isHeader⟩
  | false =>
    change off + 32 ≤ w.length at inside
    exact ⟨p_type, read_u32_le_in_prefix front readType (by omega), p_offset,
      read_word_in_prefix front readOffset (by change off + 4 + 4 ≤ _; omega), p_filesz,
      read_word_in_prefix front readSize (by change off + 16 + 4 ≤ _; omega), isHeader⟩

/-- Over a table in view the loop searches the decoded headers. -/
theorem raw_from_eq_search (is_64 : Bool) {phoff : Nat} (headers : List ProgramHeader) (i : Nat)
    (decodes : ∀ j (inside : j < headers.length),
      program_header w is_64 (phoff + (i + j) * phdr_size is_64) = some headers[j]) :
    raw_from w is_64 phoff (phdr_size is_64) (List.range' i headers.length) = search w headers := by
  induction headers generalizing i with
  | nil => rfl
  | cons ph rest ih =>
    have first := decodes 0 (by simp)
    simp only [Nat.add_zero, List.getElem_cons_zero, program_header, Option.bind_eq_bind, Option.bind_eq_some_iff,
      Option.pure_def, Option.some.injEq] at first
    obtain ⟨p_type, readType, p_offset, readOffset, p_filesz, readSize, rfl⟩ := first
    have later := ih (i + 1) fun j inside => by
      have next := decodes (j + 1) (by simpa using inside)
      rw [← Nat.add_assoc, Nat.add_right_comm] at next
      exact next
    have small := (read_le_eq_some.mp (read_u32_le_eq_some.mp readType)).1
    have sum : checked_add_usize phoff (i * phdr_size is_64) = some (phoff + i * phdr_size is_64) :=
      checked_add_usize_eq_some.mpr ⟨by omega, rfl⟩
    rw [List.length_cons, List.range'_succ]
    simp only [raw_from, Option.bind_eq_bind, sum, Option.bind_some, readType, readOffset, readSize, later, search]
    by_cases note : p_type ≠ PT_NOTE
    · simp only [if_pos note]
    simp only [if_neg note]
    cases segment w ⟨p_type, p_offset, p_filesz⟩ with
    | none => rfl
    | some bytes => rfl

theorem elf_class_of_prefix {is_64 : Bool} (front : w <+: f) (header : ehdr_size is_64 ≤ w.length)
    (isClass : elf_class f = some is_64) : elf_class w = some is_64 := by
  have five : 5 ≤ w.length := by
    cases is_64 with
    | true => change 64 ≤ _ at header; omega
    | false => change 52 ≤ _ at header; omega
  have magic : [0x7f, 0x45, 0x4c, 0x46] <+: w ↔ [0x7f, 0x45, 0x4c, 0x46] <+: f := by
    constructor
    · exact fun starts => starts.trans front
    · exact fun starts => List.prefix_of_prefix_length_le starts front (by simp only [List.length_cons, List.length_nil]; omega)
  have fifth : w[4]? = f[4]? := by
    obtain ⟨rest, rfl⟩ := front
    rw [List.getElem?_append_left (by omega)]
  rw [← isClass, elf_class, elf_class, fifth]
  simp only [magic]

end

theorem header_fields (is_64 : Bool) : phoff_off is_64 + word_size is_64 ≤ ehdr_size is_64 ∧
    phentsize_off is_64 + 2 ≤ ehdr_size is_64 ∧ phnum_off is_64 + 2 ≤ ehdr_size is_64 := by
  cases is_64 <;> decide

/-- The raw reader agrees with the full parse if and only if every `PT_NOTE`
    segment in front of the one that has the build-id is in view. -/
theorem build_id_agrees_iff (f w : Buffer) (is_64 : Bool) (headers : List ProgramHeader)
    (mapped : Mapped f w is_64 headers) (whole : ∀ before ph, FoundAt f.bytes headers before ph → InView w.bytes ph) :
    build_id_from_raw_buffer w.bytes = build_id (walk_all_notes headers f.bytes) ↔
      Unblocked f.bytes w.bytes headers := by
  have header := mapped.header
  obtain ⟨e_phoff, e_phnum, readOff, readNum, table, count, decodes⟩ := mapped.table
  have readSize := mapped.entsize
  have raw : build_id_from_raw_buffer w.bytes = search w.bytes headers := by
    have isClass := elf_class_of_prefix mapped.front header mapped.is_class
    have off := read_word_in_prefix mapped.front readOff (Nat.le_trans (header_fields is_64).1 header)
    have size := read_u16_le_in_prefix mapped.front readSize (Nat.le_trans (header_fields is_64).2.1 header)
    have num := read_u16_le_in_prefix mapped.front readNum (Nat.le_trans (header_fields is_64).2.2 header)
    have entry : (UInt16.ofNat (phdr_size is_64)).toNat = phdr_size is_64 := by cases is_64 <;> rfl
    have inView : ∀ j (inside : j < headers.length),
        program_header w.bytes is_64 (e_phoff.toNat + (0 + j) * phdr_size is_64) = some headers[j] := by
      intro j inside
      rw [Nat.zero_add]
      apply program_header_in_view mapped.front (decodes j inside)
      have entries := Nat.mul_le_mul_right (phdr_size is_64) (show j + 1 ≤ e_phnum.toNat by omega)
      rw [Nat.succ_mul] at entries
      omega
    have run := raw_from_eq_search is_64 headers 0 inView
    rw [count, ← List.range_eq_range'] at run
    simp only [build_id_from_raw_buffer, Option.bind_eq_bind, isClass, off, size, num, Option.bind_some, entry, run]
  rw [raw, build_id_walk_all_notes]
  exact search_eq_iff mapped.front headers whole

/-- A 64-bit program header of a note segment. -/
def note_header (offset size : Nat) : List UInt8 :=
  bytesOf 4 4 ++ bytesOf 4 0 ++ bytesOf 8 offset ++ List.replicate 16 0 ++ bytesOf 8 size ++ List.replicate 16 0

/-- The mapped bytes of an image: its header, two program headers and a GNU build-id note. -/
def two_notes (first second : Nat × Nat) : List UInt8 :=
  [0x7f, 0x45, 0x4c, 0x46, 2, 1] ++ List.replicate 26 0 ++ bytesOf 8 64 ++ List.replicate 14 0 ++ bytesOf 2 56 ++
    bytesOf 2 2 ++ List.replicate 6 0 ++ note_header first.1 first.2 ++ note_header second.1 second.2 ++
    record ⟨"GNU", 3, [1, 2, 3, 4]⟩

/-- An image whose build-id is in the first of two notes, the second of which is not mapped. -/
def id_first : Buffer := ⟨two_notes (176, 20) (196, 4) ++ [0, 0, 0, 0], by decide +kernel⟩
def id_first_mapped : Buffer := ⟨two_notes (176, 20) (196, 4), by decide +kernel⟩

theorem build_id_agrees_iff_id_first :
    build_id_from_raw_buffer id_first_mapped.bytes =
      build_id (walk_all_notes [⟨4, 176, 20⟩, ⟨4, 196, 4⟩] id_first.bytes) := by
  have own : idOf id_first.bytes ⟨4, 176, 20⟩ ≠ none := by decide +kernel
  have inFront {before : List ProgramHeader} {ph : ProgramHeader}
      (found : FoundAt id_first.bytes [⟨4, 176, 20⟩, ⟨4, 196, 4⟩] before ph) : before = [] := foundAt_first own found
  have mapped : Mapped id_first id_first_mapped true [⟨4, 176, 20⟩, ⟨4, 196, 4⟩] :=
    ⟨List.prefix_append _ _, by decide +kernel, by decide +kernel, by decide +kernel, 64, 2, by decide +kernel,
      by decide +kernel, by decide +kernel, rfl, by decide +kernel⟩
  refine (build_id_agrees_iff id_first id_first_mapped true _ mapped ?_).mpr ?_
  · intro before ph found
    obtain rfl := inFront found
    obtain ⟨⟨back, split⟩, _⟩ := found
    obtain ⟨rfl, _⟩ := List.cons.inj split
    exact ⟨record ⟨"GNU", 3, [1, 2, 3, 4]⟩, by decide +kernel⟩
  · intro before ph found other member
    rw [inFront found] at member
    simp at member

/-- The same image with its program headers the other way round. -/
def id_second : Buffer := ⟨two_notes (196, 4) (176, 20) ++ [0, 0, 0, 0], by decide +kernel⟩
def id_second_mapped : Buffer := ⟨two_notes (196, 4) (176, 20), by decide +kernel⟩

/-- The raw reader gives up at the note that is not mapped. -/
theorem build_id_missed : Mapped id_second id_second_mapped true [⟨4, 196, 4⟩, ⟨4, 176, 20⟩] ∧
    (∀ before ph, FoundAt id_second.bytes [⟨4, 196, 4⟩, ⟨4, 176, 20⟩] before ph → InView id_second_mapped.bytes ph) ∧
    build_id (walk_all_notes [⟨4, 196, 4⟩, ⟨4, 176, 20⟩] id_second.bytes) = some [1, 2, 3, 4] ∧
    build_id_from_raw_buffer id_second_mapped.bytes = none := by
  refine ⟨⟨List.prefix_append _ _, by decide +kernel, by decide +kernel, by decide +kernel, 64, 2, by decide +kernel,
    by decide +kernel, by decide +kernel, rfl, by decide +kernel⟩, ?_, by decide +kernel, by decide +kernel⟩
  rintro before ph ⟨⟨back, split⟩, _, own⟩
  have member : ph ∈ [(⟨4, 196, 4⟩ : ProgramHeader), ⟨4, 176, 20⟩] := by
    rw [split]
    simp
  rcases List.mem_cons.mp member with rfl | second
  · exact absurd (show idOf id_second.bytes ⟨4, 196, 4⟩ = none by decide +kernel) own
  · rw [List.mem_singleton.mp second]
    exact ⟨record ⟨"GNU", 3, [1, 2, 3, 4]⟩, by decide +kernel⟩

end HeapAnalyser.BuildId
