import HeapAnalyser.BuildId
import HeapAnalyser.Layout

/-!
A core as memory (`elf/image.rs`): a virtual address is looked up in the
`PT_LOAD` table, once to read the bytes there (`read_bytes`) and once for the
bounds of its segment (`segment_bounds`). The read is exact: it gives the bytes
of the first segment that holds them all. The other lookup gives up at a
segment whose end does not fit in 64 bits, so the two agree if and only if a
segment in front of each such one contains the address (`lookups_agree_iff`).
-/
namespace HeapAnalyser.Image
open Machine Bytes Elf

/-- The type of a loadable segment. -/
def PT_LOAD : UInt32 := 1

/-- What the lookups use of a program header. -/
structure ProgramHeader extends BuildId.ProgramHeader where
  p_vaddr : UInt64
  deriving Repr, DecidableEq

/-- A parsed ELF with the bytes of its file. -/
structure Elf where
  is_64 : Bool
  program_headers : List ProgramHeader
  data : Buffer

/-- The loop of `segment_bounds`. -/
def bounds_from (addr : UInt64) : List ProgramHeader → Option (UInt64 × UInt64)
  | [] => none
  | ph :: rest =>
    if ph.p_type ≠ PT_LOAD then bounds_from addr rest
    else
      match checked_add ph.p_vaddr ph.p_filesz with
      | none => none
      | some stop => if ph.p_vaddr ≤ addr ∧ addr < stop then some (ph.p_vaddr, stop) else bounds_from addr rest

/-- A turn of the loop of `read_bytes`: the bytes, or nothing where it goes on. -/
def bytes_in (data : List UInt8) (addr : UInt64) (len : Nat) (ph : ProgramHeader) : Option (List UInt8) :=
  if ph.p_type ≠ PT_LOAD then none
  else if addr < ph.p_vaddr then none
  else do
    let off_in_seg := addr - ph.p_vaddr
    let past ← checked_add off_in_seg (UInt64.ofNat len)
    if past > ph.p_filesz then none
    else
      let file_off ← checked_add ph.p_offset off_in_seg
      let stop ← checked_add_usize file_off.toNat len
      slice data file_off.toNat stop

namespace Elf

/-- The file-backed range of the segment that contains an address. -/
def segment_bounds (elf : Elf) (addr : UInt64) : Option (UInt64 × UInt64) := bounds_from addr elf.program_headers

/-- Read `len` bytes at a virtual address. -/
def read_bytes (elf : Elf) (addr : UInt64) (len : Nat) : Except Error (List UInt8) :=
  match elf.program_headers.findSome? (bytes_in elf.data.bytes addr len) with
  | some bytes => .ok bytes
  | none => .error (.AddressNotMapped addr)

/-- Read a little-endian `u64` at a virtual address. -/
def read_u64 (elf : Elf) (addr : UInt64) : Except Error UInt64 :=
  match elf.read_bytes addr 8 with
  | .error e => .error e
  | .ok bytes => if bytes.length = 8 then .ok (UInt64.ofNat (number bytes)) else .error (.AddressNotMapped addr)

/-- An ELF as the memory that the traversals read. -/
def reader (elf : Elf) : MemReader where
  read_u64 := elf.read_u64
  segment_start addr := (elf.segment_bounds addr).map Prod.fst

end Elf

/-- A segment has the bytes at an address in its file-backed part, and the file
    has them. -/
structure Holds (data : List UInt8) (addr : UInt64) (len : Nat) (ph : ProgramHeader) : Prop where
  load : ph.p_type = PT_LOAD
  starts : ph.p_vaddr.toNat ≤ addr.toNat
  backed : addr.toNat - ph.p_vaddr.toNat + len ≤ ph.p_filesz.toNat
  in_file : ph.p_offset.toNat + (addr.toNat - ph.p_vaddr.toNat) + len ≤ data.length

/-- The bytes of the file at an address of a segment. -/
def file_bytes (data : List UInt8) (addr : UInt64) (len : Nat) (ph : ProgramHeader) : List UInt8 :=
  (data.drop (ph.p_offset.toNat + (addr.toNat - ph.p_vaddr.toNat))).take len

/-- The first segment that holds the bytes at an address. -/
def FirstHolder (data : List UInt8) (addr : UInt64) (len : Nat) (headers : List ProgramHeader) (ph : ProgramHeader) :
    Prop :=
  ∃ before after, headers = before ++ ph :: after ∧ Holds data addr len ph ∧
    ∀ other ∈ before, ¬ Holds data addr len other

section
variable {data : Buffer} {addr : UInt64} {len : Nat}

theorem FirstHolder.holds {bytes : List UInt8} {headers : List ProgramHeader} {ph : ProgramHeader}
    (first : FirstHolder bytes addr len headers ph) : Holds bytes addr len ph := by
  obtain ⟨_, _, _, holds, _⟩ := first
  exact holds

private theorem holds_of_bytes_in (fits : len < 2 ^ 64) {ph : ProgramHeader} {bytes : List UInt8}
    (found : bytes_in data.bytes addr len ph = some bytes) :
    Holds data.bytes addr len ph ∧ bytes = file_bytes data.bytes addr len ph := by
  by_cases load : ph.p_type ≠ PT_LOAD
  · rw [bytes_in, if_pos load] at found
    cases found
  by_cases below : addr < ph.p_vaddr
  · rw [bytes_in, if_neg load, if_pos below] at found
    cases found
  have starts := UInt64.le_iff_toNat_le.mp (UInt64.not_lt.mp below)
  have offset : (addr - ph.p_vaddr).toNat = addr.toNat - ph.p_vaddr.toNat :=
    UInt64.toNat_sub_of_le _ _ (UInt64.not_lt.mp below)
  simp only [bytes_in, if_neg load, if_neg below, Option.bind_eq_bind, Option.bind_eq_some_iff, checked_add_eq_some,
    offset, ofNat_toNat fits] at found
  obtain ⟨past, isPast, found⟩ := found
  by_cases outside : past > ph.p_filesz
  · rw [if_pos outside] at found
    cases found
  rw [if_neg outside] at found
  have backed := UInt64.le_iff_toNat_le.mp (UInt64.not_lt.mp outside)
  simp only [Option.bind_eq_some_iff, checked_add_eq_some, checked_add_usize_eq_some, offset] at found
  obtain ⟨file_off, isOffset, stop, ⟨_, rfl⟩, inFile⟩ := found
  obtain ⟨_, inside, rfl⟩ := slice_eq_some.mp inFile
  refine ⟨⟨not_not.mp load, starts, by omega, by omega⟩, ?_⟩
  rw [file_bytes, isOffset, Nat.add_sub_cancel_left]

private theorem bytes_in_of_holds (fits : len < 2 ^ 64) {ph : ProgramHeader} (holds : Holds data.bytes addr len ph) :
    bytes_in data.bytes addr len ph = some (file_bytes data.bytes addr len ph) := by
  obtain ⟨load, starts, backed, inFile⟩ := holds
  have file := data.length_le
  unfold MAX_SLICE at file
  have small := ph.p_filesz.toNat_lt
  have order : ph.p_vaddr ≤ addr := UInt64.le_iff_toNat_le.mpr starts
  have offset : (addr - ph.p_vaddr).toNat = addr.toNat - ph.p_vaddr.toNat := UInt64.toNat_sub_of_le _ _ order
  simp only [bytes_in, if_neg (not_not.mpr load), if_neg (UInt64.not_lt.mpr order), Option.bind_eq_bind,
    Option.bind_eq_some_iff, checked_add_eq_some, offset, ofNat_toNat fits]
  have isPast : (UInt64.ofNat (addr.toNat - ph.p_vaddr.toNat + len)).toNat = addr.toNat - ph.p_vaddr.toNat + len :=
    ofNat_toNat (by omega)
  have isOffset : (UInt64.ofNat (ph.p_offset.toNat + (addr.toNat - ph.p_vaddr.toNat))).toNat =
      ph.p_offset.toNat + (addr.toNat - ph.p_vaddr.toNat) := ofNat_toNat (by omega)
  refine ⟨_, isPast, ?_⟩
  rw [if_neg (UInt64.not_lt.mpr (UInt64.le_iff_toNat_le.mpr (by omega)))]
  simp only [Option.bind_eq_some_iff, checked_add_eq_some, checked_add_usize_eq_some, offset]
  refine ⟨_, isOffset, _, ⟨by omega, rfl⟩, slice_eq_some.mpr ⟨by omega, by omega, ?_⟩⟩
  rw [file_bytes, isOffset, Nat.add_sub_cancel_left]

private theorem bytes_in_eq_some (fits : len < 2 ^ 64) {ph : ProgramHeader} {bytes : List UInt8} :
    bytes_in data.bytes addr len ph = some bytes ↔
      Holds data.bytes addr len ph ∧ bytes = file_bytes data.bytes addr len ph := by
  constructor
  · exact holds_of_bytes_in fits
  · rintro ⟨holds, rfl⟩
    exact bytes_in_of_holds fits holds

private theorem bytes_in_eq_none (fits : len < 2 ^ 64) {ph : ProgramHeader} :
    bytes_in data.bytes addr len ph = none ↔ ¬ Holds data.bytes addr len ph := by
  rw [Option.eq_none_iff_forall_ne_some]
  constructor
  · exact fun never holds => never _ ((bytes_in_eq_some fits).mpr ⟨holds, rfl⟩)
  · exact fun outside bytes found => outside ((bytes_in_eq_some fits).mp found).1

/-- A read gives the bytes of the first segment that holds them. -/
theorem read_bytes_eq_ok {elf : Elf} (fits : len < 2 ^ 64) {bytes : List UInt8} :
    elf.read_bytes addr len = .ok bytes ↔ ∃ ph, FirstHolder elf.data.bytes addr len elf.program_headers ph ∧
      bytes = file_bytes elf.data.bytes addr len ph := by
  have found : elf.read_bytes addr len = .ok bytes ↔
      elf.program_headers.findSome? (bytes_in elf.data.bytes addr len) = some bytes := by
    rw [Elf.read_bytes]
    cases elf.program_headers.findSome? (bytes_in elf.data.bytes addr len) <;> simp
  rw [found, List.findSome?_eq_some_iff]
  constructor
  · rintro ⟨before, ph, after, split, own, others⟩
    obtain ⟨holds, isBytes⟩ := (bytes_in_eq_some fits).mp own
    exact ⟨ph, ⟨before, after, split, holds, fun other earlier => (bytes_in_eq_none fits).mp (others other earlier)⟩,
      isBytes⟩
  · rintro ⟨ph, ⟨before, after, split, holds, others⟩, isBytes⟩
    exact ⟨before, ph, after, split, (bytes_in_eq_some fits).mpr ⟨holds, isBytes⟩,
      fun other earlier => (bytes_in_eq_none fits).mpr (others other earlier)⟩

/-- A read fails where no segment holds the bytes, and names the address. -/
theorem read_bytes_eq_error {elf : Elf} (fits : len < 2 ^ 64) {e : Error} :
    elf.read_bytes addr len = .error e ↔
      e = .AddressNotMapped addr ∧ ∀ ph ∈ elf.program_headers, ¬ Holds elf.data.bytes addr len ph := by
  have found : elf.read_bytes addr len = .error e ↔
      e = .AddressNotMapped addr ∧ elf.program_headers.findSome? (bytes_in elf.data.bytes addr len) = none := by
    rw [Elf.read_bytes]
    cases elf.program_headers.findSome? (bytes_in elf.data.bytes addr len) with
    | none => simp [eq_comm]
    | some bytes => simp
  rw [found, List.findSome?_eq_none_iff]
  simp only [bytes_in_eq_none fits]

/-- A read succeeds exactly where some segment holds the bytes. -/
theorem read_bytes_succeeds {elf : Elf} (fits : len < 2 ^ 64) :
    (∃ bytes, elf.read_bytes addr len = .ok bytes) ↔ ∃ ph ∈ elf.program_headers, Holds elf.data.bytes addr len ph := by
  constructor
  · rintro ⟨bytes, read⟩
    obtain ⟨ph, ⟨before, after, split, holds, _⟩, _⟩ := (read_bytes_eq_ok fits).mp read
    exact ⟨ph, by simp [split], holds⟩
  · rintro ⟨ph, listed, holds⟩
    cases read : elf.read_bytes addr len with
    | ok bytes => exact ⟨bytes, rfl⟩
    | error e => exact absurd holds (((read_bytes_eq_error fits).mp read).2 ph listed)

theorem file_bytes_length {bytes : List UInt8} {ph : ProgramHeader} (holds : Holds bytes addr len ph) :
    (file_bytes bytes addr len ph).length = len := by
  have inFile := holds.in_file
  rw [file_bytes, List.length_take, List.length_drop]
  omega

theorem read_bytes_length {elf : Elf} (fits : len < 2 ^ 64) {bytes : List UInt8}
    (read : elf.read_bytes addr len = .ok bytes) : bytes.length = len := by
  obtain ⟨ph, first, rfl⟩ := (read_bytes_eq_ok fits).mp read
  exact file_bytes_length first.holds

end

/-- A loaded segment whose file-backed range, in unbounded numbers, has an address. -/
structure Contains (addr : UInt64) (ph : ProgramHeader) : Prop where
  load : ph.p_type = PT_LOAD
  starts : ph.p_vaddr.toNat ≤ addr.toNat
  ends : addr.toNat < ph.p_vaddr.toNat + ph.p_filesz.toNat

/-- A loaded segment whose end does not fit in 64 bits. -/
def Overflows (ph : ProgramHeader) : Prop := ph.p_type = PT_LOAD ∧ 2 ^ 64 ≤ ph.p_vaddr.toNat + ph.p_filesz.toNat

/-- In front of every segment whose end does not fit there is one that contains the address. -/
def Clear (addr : UInt64) (headers : List ProgramHeader) : Prop :=
  ∀ before ph after, headers = before ++ ph :: after → Overflows ph → ∃ other ∈ before, Contains addr other

section
variable {addr : UInt64} {ph : ProgramHeader} {rest : List ProgramHeader}

private theorem holds_contains {data : List UInt8} {len : Nat} (positive : 1 ≤ len) (holds : Holds data addr len ph) :
    Contains addr ph := by
  obtain ⟨load, starts, backed, _⟩ := holds
  exact ⟨load, starts, by omega⟩

private theorem clear_skip (fits : ¬ Overflows ph) (outside : ¬ Contains addr ph) :
    Clear addr (ph :: rest) ↔ Clear addr rest := by
  constructor
  · intro clear before wide after split overflows
    obtain ⟨other, listed, contains⟩ := clear (ph :: before) wide after (by rw [split, List.cons_append]) overflows
    rcases List.mem_cons.mp listed with rfl | inRest
    · exact absurd contains outside
    · exact ⟨other, inRest, contains⟩
  · intro clear before wide after split overflows
    cases before with
    | nil =>
      obtain ⟨rfl, _⟩ := List.cons.inj split
      exact absurd overflows fits
    | cons first before =>
      obtain ⟨rfl, tail⟩ := List.cons.inj split
      obtain ⟨other, listed, contains⟩ := clear before wide after tail overflows
      exact ⟨other, List.mem_cons_of_mem _ listed, contains⟩

private theorem clear_found (fits : ¬ Overflows ph) (contains : Contains addr ph) : Clear addr (ph :: rest) := by
  intro before wide after split overflows
  cases before with
  | nil =>
    obtain ⟨rfl, _⟩ := List.cons.inj split
    exact absurd overflows fits
  | cons first before =>
    obtain ⟨rfl, _⟩ := List.cons.inj split
    exact ⟨ph, List.mem_cons_self, contains⟩

private theorem not_clear (overflows : Overflows ph) : ¬ Clear addr (ph :: rest) := by
  intro clear
  obtain ⟨other, listed, _⟩ := clear [] ph rest rfl overflows
  cases listed

/-- The loop goes on at a segment that does not contain the address. -/
theorem bounds_from_skip (fits : ¬ Overflows ph) (outside : ¬ Contains addr ph) :
    bounds_from addr (ph :: rest) = bounds_from addr rest := by
  by_cases load : ph.p_type ≠ PT_LOAD
  · rw [bounds_from, if_pos load]
  rw [bounds_from, if_neg load]
  cases sum : checked_add ph.p_vaddr ph.p_filesz with
  | none => exact absurd ⟨not_not.mp load, checked_add_eq_none.mp sum⟩ fits
  | some limit =>
    have isLimit := checked_add_eq_some.mp sum
    have notInside : ¬ (ph.p_vaddr ≤ addr ∧ addr < limit) := by
      rintro ⟨starts, ends⟩
      have starts := UInt64.le_iff_toNat_le.mp starts
      have ends := UInt64.lt_iff_toNat_lt.mp ends
      exact outside ⟨not_not.mp load, starts, by omega⟩
    simp only [if_neg notInside]

theorem bounds_from_found (fits : ¬ Overflows ph) (contains : Contains addr ph) :
    ∃ stop, bounds_from addr (ph :: rest) = some (ph.p_vaddr, stop) ∧
      stop.toNat = ph.p_vaddr.toNat + ph.p_filesz.toNat := by
  obtain ⟨load, starts, ends⟩ := contains
  rw [bounds_from, if_neg (not_not.mpr load)]
  cases sum : checked_add ph.p_vaddr ph.p_filesz with
  | none => exact absurd ⟨load, checked_add_eq_none.mp sum⟩ fits
  | some limit =>
    have isLimit := checked_add_eq_some.mp sum
    have inside : ph.p_vaddr ≤ addr ∧ addr < limit :=
      ⟨UInt64.le_iff_toNat_le.mpr starts, UInt64.lt_iff_toNat_lt.mpr (by omega)⟩
    refine ⟨limit, ?_, isLimit⟩
    simp only [if_pos inside]

/-- The loop ends without bounds at a segment whose end does not fit. -/
theorem bounds_from_stuck (overflows : Overflows ph) : bounds_from addr (ph :: rest) = none := by
  obtain ⟨load, wide⟩ := overflows
  rw [bounds_from, if_neg (not_not.mpr load), checked_add_eq_none.mpr wide]

/-- The bounds found are those of a segment that contains the address. -/
theorem bounds_from_contains {headers : List ProgramHeader} {start stop : UInt64}
    (found : bounds_from addr headers = some (start, stop)) :
    ∃ ph ∈ headers, Contains addr ph ∧ start = ph.p_vaddr ∧ stop.toNat = ph.p_vaddr.toNat + ph.p_filesz.toNat := by
  induction headers with
  | nil => cases found
  | cons ph rest ih =>
    by_cases overflows : Overflows ph
    · rw [bounds_from_stuck overflows] at found
      cases found
    by_cases contains : Contains addr ph
    · obtain ⟨limit, own, isLimit⟩ := @bounds_from_found addr ph rest overflows contains
      rw [own] at found
      obtain ⟨rfl, rfl⟩ := Prod.mk.inj (Option.some.inj found)
      exact ⟨ph, List.mem_cons_self, contains, rfl, isLimit⟩
    · rw [bounds_from_skip overflows contains] at found
      obtain ⟨other, listed, isSegment⟩ := ih found
      exact ⟨other, List.mem_cons_of_mem _ listed, isSegment⟩

/-- Bounds are found exactly where a segment contains the address and one does
    so in front of every segment whose end does not fit. -/
theorem bounds_from_ne_none (headers : List ProgramHeader) :
    bounds_from addr headers ≠ none ↔ (∃ ph ∈ headers, Contains addr ph) ∧ Clear addr headers := by
  induction headers with
  | nil => simp [bounds_from]
  | cons ph rest ih =>
    by_cases overflows : Overflows ph
    · rw [bounds_from_stuck overflows]
      exact ⟨fun found => absurd rfl found, fun both => absurd both.2 (not_clear overflows)⟩
    by_cases contains : Contains addr ph
    · obtain ⟨limit, own, _⟩ := @bounds_from_found addr ph rest overflows contains
      rw [own]
      exact ⟨fun _ => ⟨⟨ph, List.mem_cons_self, contains⟩, clear_found overflows contains⟩, fun _ => by simp⟩
    · rw [bounds_from_skip overflows contains, ih, clear_skip overflows contains, List.exists_mem_cons_iff]
      simp only [contains, false_or]

end

/-! ## Agreement -/

/-- Reads are exact, and where one succeeds its address has a segment. -/
structure LookupsAgree (elf : Elf) (addr : UInt64) (len : Nat) : Prop where
  succeeds : (∃ bytes, elf.read_bytes addr len = .ok bytes) ↔
    ∃ ph ∈ elf.program_headers, Holds elf.data.bytes addr len ph
  first : ∀ bytes, elf.read_bytes addr len = .ok bytes → ∃ ph,
    FirstHolder elf.data.bytes addr len elf.program_headers ph ∧ bytes.length = len ∧
      bytes = file_bytes elf.data.bytes addr len ph
  bounded : ∀ bytes, elf.read_bytes addr len = .ok bytes → ∃ start stop,
    elf.segment_bounds addr = some (start, stop) ∧ start ≤ addr ∧ addr < stop

/-- The lookups agree if and only if the read fails or a segment in front of
    each one whose end does not fit contains the address. -/
theorem lookups_agree_iff (elf : Elf) (addr : UInt64) (len : Nat) (positive : 1 ≤ len) (fits : len < 2 ^ 64) :
    LookupsAgree elf addr len ↔
      (∀ ph ∈ elf.program_headers, ¬ Holds elf.data.bytes addr len ph) ∨ Clear addr elf.program_headers := by
  constructor
  · intro agree
    by_cases held : ∃ ph ∈ elf.program_headers, Holds elf.data.bytes addr len ph
    · right
      obtain ⟨bytes, read⟩ := agree.succeeds.mpr held
      obtain ⟨start, stop, found, _⟩ := agree.bounded bytes read
      rw [Elf.segment_bounds] at found
      exact ((bounds_from_ne_none elf.program_headers).mp (by simp [found])).2
    · left
      exact fun ph listed holds => held ⟨ph, listed, holds⟩
  · intro clear
    refine ⟨read_bytes_succeeds fits, ?_, ?_⟩
    · intro bytes read
      obtain ⟨ph, first, isBytes⟩ := (read_bytes_eq_ok fits).mp read
      exact ⟨ph, first, read_bytes_length fits read, isBytes⟩
    · intro bytes read
      obtain ⟨ph, listed, holds⟩ := (read_bytes_succeeds fits).mp ⟨bytes, read⟩
      rcases clear with never | clear
      · exact absurd holds (never ph listed)
      have found := (bounds_from_ne_none elf.program_headers).mpr ⟨⟨ph, listed, holds_contains positive holds⟩, clear⟩
      obtain ⟨⟨start, stop⟩, found⟩ := Option.ne_none_iff_exists'.mp found
      obtain ⟨other, _, contains, rfl, isStop⟩ := bounds_from_contains found
      have ends := contains.ends
      exact ⟨other.p_vaddr, stop, found, UInt64.le_iff_toNat_le.mpr contains.starts,
        UInt64.lt_iff_toNat_lt.mpr (by omega)⟩

/-- A core of sixteen bytes with the given program headers. -/
def small_core (headers : List ProgramHeader) : Elf :=
  ⟨true, headers, ⟨bytesOf 8 0x21 ++ bytesOf 8 0x1000, by decide⟩⟩

/-- A segment of the core's bytes at `0x1000`. -/
def good : ProgramHeader := ⟨⟨PT_LOAD, 0, 16⟩, 0x1000⟩

/-- A segment whose end does not fit. -/
def wide : ProgramHeader := ⟨⟨PT_LOAD, 0, 2⟩, 0xffffffffffffffff⟩

theorem lookups_agree_iff_good : LookupsAgree (small_core [good, wide]) 0x1000 8 := by
  refine (lookups_agree_iff _ _ _ (by decide) (by decide)).mpr (.inr ?_)
  have contains : Contains 0x1000 good := ⟨rfl, by decide, by decide⟩
  exact clear_found (by rintro ⟨_, overflow⟩; exact absurd overflow (by decide)) contains

/-- Behind a segment whose end does not fit, an address that is read has no segment. -/
theorem readable_without_segment : (small_core [wide, good]).read_bytes 0x1000 8 = .ok (bytesOf 8 0x21) ∧
    (small_core [wide, good]).segment_bounds 0x1000 = none ∧ ¬ LookupsAgree (small_core [wide, good]) 0x1000 8 := by
  have read : (small_core [wide, good]).read_bytes 0x1000 8 = .ok (bytesOf 8 0x21) := by decide +kernel
  have lost : (small_core [wide, good]).segment_bounds 0x1000 = none := by decide +kernel
  refine ⟨read, lost, ?_⟩
  intro agree
  obtain ⟨start, stop, found, _⟩ := agree.bounded _ read
  rw [lost] at found
  cases found

end HeapAnalyser.Image
