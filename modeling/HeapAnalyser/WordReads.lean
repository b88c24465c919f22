import HeapAnalyser.Image
import HeapAnalyser.WalkLayout

/-!
The traversals over an image of either class. The reader of an ELF reads eight
bytes at every address (`Elf::read_u64`), although the words of a 32-bit image
have four. Where a list of chunks is stored as words of the image, the walk
emits its events if and only if the eight bytes at every size field give the
same size and, behind the first one, the same in-use bit; on a 64-bit image they
always do (`words_honoured_iff`).
-/
namespace HeapAnalyser.WordReads
open Machine Bytes Elf Image Walk WalkLayout

/-- The image as memory of its own words, read as `read_word` reads those of the notes. -/
def words (elf : Image.Elf) : MemReader where
  read_u64 addr :=
    match elf.read_bytes addr (word_size elf.is_64) with
    | .error e => .error e
    | .ok bytes =>
      match read_word bytes 0 elf.is_64 with
      | some word => .ok word
      | none => .error (.AddressNotMapped addr)
  segment_start := elf.reader.segment_start

/-- The number of the bytes of the file at an address, in the first segment that holds them. -/
def Stored (elf : Image.Elf) (width : Nat) (addr word : UInt64) : Prop :=
  ∃ ph, FirstHolder elf.data.bytes addr width elf.program_headers ph ∧
    word = UInt64.ofNat (number (file_bytes elf.data.bytes addr width ph))

/-- What is stored at an address is the number of the bytes that a read gives there. -/
theorem stored_iff {elf : Image.Elf} {width : Nat} {addr word : UInt64} (fits : width < 2 ^ 64) :
    Stored elf width addr word ↔
      ∃ bytes, elf.read_bytes addr width = .ok bytes ∧ bytes.length = width ∧ UInt64.ofNat (number bytes) = word := by
  constructor
  · rintro ⟨ph, first, rfl⟩
    exact ⟨_, (read_bytes_eq_ok fits).mpr ⟨ph, first, rfl⟩, file_bytes_length first.holds, rfl⟩
  · rintro ⟨bytes, read, _, rfl⟩
    obtain ⟨ph, first, rfl⟩ := (read_bytes_eq_ok fits).mp read
    exact ⟨ph, first, rfl⟩

theorem read_u64_eq_ok {elf : Image.Elf} {addr word : UInt64} :
    elf.read_u64 addr = .ok word ↔ Stored elf 8 addr word := by
  have eight : 8 < 2 ^ 64 := by omega
  rw [stored_iff eight, Elf.read_u64]
  cases read : elf.read_bytes addr 8 with
  | error e => simp
  | ok bytes => simp [read_bytes_length eight read]

private theorem read_word_all {is_64 : Bool} {bytes : List UInt8} (length : bytes.length = word_size is_64) :
    read_word bytes 0 is_64 = some (UInt64.ofNat (number bytes)) := by
  have whole : slice bytes 0 (0 + bytes.length) = some bytes := by
    rw [slice_eq_some]
    exact ⟨by omega, by omega, by simp⟩
  cases is_64 with
  | true =>
    have eight : bytes.length = 8 := length
    rw [eight] at whole
    have read : read_le 8 bytes 0 = some (number bytes) := read_le_eq_some.mpr ⟨by decide, bytes, whole, rfl⟩
    simp only [read_word, if_true, read_u64_le, read, Option.map_some]
  | false =>
    have four : bytes.length = 4 := length
    rw [four] at whole
    have read : read_le 4 bytes 0 = some (number bytes) := read_le_eq_some.mpr ⟨by decide, bytes, whole, rfl⟩
    have small : number bytes < 2 ^ 32 := by
      have bound := number_lt bytes
      rw [four] at bound
      exact bound
    simp only [read_word, Bool.false_eq_true, if_false, read_u32_le, read, Option.map_some, Option.some.injEq]
    rw [← UInt64.toNat_inj, UInt32.toNat_toUInt64, UInt32.toNat_ofNat_of_lt' small, ofNat_toNat (by omega)]

/-- A word of the image is read from as many bytes as its class has. -/
theorem words_eq_ok {elf : Image.Elf} {addr word : UInt64} :
    (words elf).read_u64 addr = .ok word ↔ Stored elf (word_size elf.is_64) addr word := by
  have small : word_size elf.is_64 < 2 ^ 64 := by
    cases elf.is_64 with
    | true => exact (by omega : 8 < 2 ^ 64)
    | false => exact (by omega : 4 < 2 ^ 64)
  rw [stored_iff small]
  cases read : elf.read_bytes addr (word_size elf.is_64) with
  | error e => simp [words, read]
  | ok bytes =>
    have length := read_bytes_length small read
    simp [words, read, read_word_all length, length]

private theorem words_of_is_64 {elf : Image.Elf} (is_64 : elf.is_64 = true) {addr word : UInt64} :
    (words elf).read_u64 addr = .ok word ↔ elf.read_u64 addr = .ok word := by
  rw [words_eq_ok, read_u64_eq_ok, is_64]
  rfl

/-- Behind a word of four bytes the segment that is read has four zero bytes. -/
def ZeroBehind (elf : Image.Elf) (addr word : UInt64) : Prop :=
  ∃ ph, FirstHolder elf.data.bytes addr 8 elf.program_headers ph ∧
    file_bytes elf.data.bytes addr 8 ph = bytesOf 4 word.toNat ++ List.replicate 4 0

/-- A number of four bytes, with four zero bytes behind it. -/
theorem bytesOf_eight {v : Nat} (small : v < 2 ^ 32) : bytesOf 8 v = bytesOf 4 v ++ List.replicate 4 0 := by
  have high : v / 256 ^ 4 = 0 := Nat.div_eq_of_lt small
  rw [show 8 = 4 + 4 from rfl, bytesOf_add, high, bytesOf_zero]

/-- A word of a 32-bit image is read right exactly where zeros stand behind it. -/
theorem read_four_iff {elf : Image.Elf} (is_32 : elf.is_64 = false) {addr word : UInt64}
    (stored : (words elf).read_u64 addr = .ok word) :
    elf.read_u64 addr = .ok word ↔ ZeroBehind elf addr word := by
  obtain ⟨own, first, rfl⟩ := words_eq_ok.mp stored
  rw [is_32] at first ⊢
  obtain ⟨value, isValue⟩ : ∃ value, value = number (file_bytes elf.data.bytes addr (word_size false) own) := ⟨_, rfl⟩
  have small : value < 2 ^ 32 := by
    have bound := number_lt (file_bytes elf.data.bytes addr (word_size false) own)
    rw [file_bytes_length first.holds, ← isValue] at bound
    exact bound
  rw [← isValue, read_u64_eq_ok]
  have isWord : (UInt64.ofNat value).toNat = value := ofNat_toNat (by omega)
  constructor
  · rintro ⟨ph, holder, same⟩
    refine ⟨ph, holder, ?_⟩
    have length := file_bytes_length holder.holds
    have bound := number_lt (file_bytes elf.data.bytes addr 8 ph)
    rw [length] at bound
    have equal : value = number (file_bytes elf.data.bytes addr 8 ph) := by
      rw [← UInt64.toNat_inj, isWord, ofNat_toNat bound] at same
      exact same
    rw [isWord, ← bytesOf_eight small, equal]
    have again := bytesOf_number (file_bytes elf.data.bytes addr 8 ph)
    rw [length] at again
    exact again.symm
  · rintro ⟨ph, holder, bytes⟩
    refine ⟨ph, holder, ?_⟩
    have fits : value < 256 ^ 8 := Nat.lt_of_lt_of_le small (by decide)
    rw [bytes, isWord, ← bytesOf_eight small, number_bytesOf fits]

/-! ## The walk -/

/-- Two size fields with the same in-use bit. -/
def SameFlag (raw other : UInt64) : Prop := raw &&& PREV_INUSE ≠ 0 ↔ other &&& PREV_INUSE ≠ 0

/-- At every size field behind the first chunk, eight bytes are read that give the
    same in-use bit and, but for the last one, the same size. -/
def FieldsRead (elf : Image.Elf) : Nat → List UInt64 → UInt64 → Prop
  | lo, [], top => ∃ field, Stored elf 8 (UInt64.ofNat lo) field ∧ SameFlag top field
  | lo, raw :: rest, top =>
    (∃ field, Stored elf 8 (UInt64.ofNat lo) field ∧ chunk_size raw = chunk_size field ∧ SameFlag raw field) ∧
      FieldsRead elf (lo + (chunk_size raw).toNat) rest top

/-- What is read behind the words of the chunks does no harm: the first size
    field has the right size, and `FieldsRead` holds of the others. -/
def Harmless (elf : Image.Elf) (lo : Nat) (raws : List UInt64) (top : UInt64) : Prop :=
  match raws with
  | [] => True
  | raw :: rest => (∃ field, Stored elf 8 (UInt64.ofNat lo) field ∧ chunk_size raw = chunk_size field) ∧
    FieldsRead elf (lo + (chunk_size raw).toNat) rest top

/-- Chunks that are stored as words of the image, up to the end of a region,
    where the size field of `top` is stored. -/
structure StoredChunks (elf : Image.Elf) (layout : DetectedLayout) (raws : List UInt64)
    (region_start region_end top : UInt64) : Prop where
  width : layout.word.toNat = word_size elf.is_64
  chunks : ∀ raw ∈ raws, IsChunk layout raw
  laid : LaidOut (words elf) region_start.toNat raws region_end.toNat
  top_stored : (words elf).read_u64 region_end = .ok top

private theorem forall₂_source {R : UInt64 → UInt64 → Prop} {raws others : List UInt64}
    (pairs : List.Forall₂ R raws others) {other : UInt64} (member : other ∈ others) : ∃ raw ∈ raws, R raw other := by
  induction pairs with
  | nil => cases member
  | cons head _ ih =>
    rcases List.mem_cons.mp member with rfl | later
    · exact ⟨_, List.mem_cons_self, head⟩
    · obtain ⟨raw, listed, related⟩ := ih later
      exact ⟨raw, List.mem_cons_of_mem _ listed, related⟩

section
variable {elf : Image.Elf} {layout : DetectedLayout} {lo hi : Nat} {raws : List UInt64} {top : UInt64}

private theorem eventAt_congr {raw other next nextOther : UInt64} (size : chunk_size raw = chunk_size other)
    (flag : SameFlag next nextOther) : eventAt layout lo raw next = eventAt layout lo other nextOther := by
  have bit : decide (next &&& PREV_INUSE ≠ 0) = decide (nextOther &&& PREV_INUSE ≠ 0) := decide_eq_decide.mpr flag
  simp only [eventAt, size, bit]

private theorem eventsOf_congr {others : List UInt64} {topOther : UInt64}
    (same : List.Forall₂ (fun raw other => chunk_size raw = chunk_size other ∧ SameFlag raw other) raws others)
    (flag : SameFlag top topOther) :
    eventsOf layout lo raws top = eventsOf layout lo others topOther ∧ SameFlag (raws.headD top) (others.headD topOther) := by
  induction same generalizing lo with
  | nil => exact ⟨rfl, flag⟩
  | @cons raw other rest others head _ ih =>
    refine ⟨?_, head.2⟩
    obtain ⟨events, next⟩ := @ih (lo + (chunk_size raw).toNat)
    rw [eventsOf, eventsOf, eventAt_congr head.1 next, events, head.1]

/-- What the traversals read of fields that are read without harm. -/
theorem laidOut_of_fieldsRead (read : FieldsRead elf lo raws top) (laid : LaidOut (words elf) lo raws hi) :
    ∃ fields field,
      List.Forall₂ (fun raw other => chunk_size raw = chunk_size other ∧ SameFlag raw other) raws fields ∧
        LaidOut elf.reader lo fields hi ∧ elf.read_u64 (UInt64.ofNat hi) = .ok field ∧ SameFlag top field := by
  induction raws generalizing lo with
  | nil =>
    obtain rfl : lo = hi := laid
    obtain ⟨field, stored, flag⟩ := read
    exact ⟨[], field, .nil, rfl, read_u64_eq_ok.mpr stored, flag⟩
  | cons raw rest ih =>
    obtain ⟨⟨own, stored, size, flag⟩, later⟩ := read
    obtain ⟨fields, field, same, laidRest, isField, topFlag⟩ := ih later laid.2
    refine ⟨own :: fields, field, .cons ⟨size, flag⟩ same, ⟨read_u64_eq_ok.mpr stored, ?_⟩, isField, topFlag⟩
    rw [← size]
    exact laidRest

/-- Events that are read from the image leave its fields read without harm. -/
theorem fieldsRead_of_events {first : UInt64}
    (reads : ∀ event ∈ eventsOf layout lo (first :: raws) top, ReadsAs elf.reader layout event)
    (flags : ∀ event ∈ eventsOf layout lo (first :: raws) top, FlagRead elf.reader event) :
    FieldsRead elf (lo + (chunk_size first).toNat) raws top := by
  induction raws generalizing lo first with
  | nil =>
    obtain ⟨field, isRead, flag⟩ := flags _ List.mem_cons_self
    refine ⟨field, ?_, decide_eq_decide.mp flag⟩
    rw [UInt64.ofNat_add, UInt64.ofNat_toNat]
    exact read_u64_eq_ok.mp isRead
  | cons raw rest ih =>
    refine ⟨?_, ih (fun event member => reads event (List.mem_cons_of_mem _ member))
      fun event member => flags event (List.mem_cons_of_mem _ member)⟩
    obtain ⟨field, isRead, flag⟩ := flags _ List.mem_cons_self
    obtain ⟨⟨again, isAgain, size⟩, _⟩ := reads _ (List.mem_cons_of_mem _ List.mem_cons_self)
    have address : UInt64.ofNat (lo + (chunk_size first).toNat) = UInt64.ofNat lo + chunk_size first := by
      rw [UInt64.ofNat_add, UInt64.ofNat_toNat]
    have sameRead : elf.reader.read_u64 (UInt64.ofNat (lo + (chunk_size first).toNat)) = .ok field := by
      rw [address]
      exact isRead
    have same : again = field := by
      have both := isAgain.symm.trans sameRead
      exact Except.ok.inj both
    exact ⟨field, read_u64_eq_ok.mp sameRead, same ▸ size, decide_eq_decide.mp flag⟩

/-- Where the fields are read without harm, the walk emits the events of the words. -/
theorem walk_of_harmless (sized : layout.Sized) (arena_index : UInt32) (is_main_arena : Bool)
    {region_start region_end : UInt64} (stored : StoredChunks elf layout raws region_start region_end top)
    (few : raws.length ≤ MAX_CHUNKS) (harmless : Harmless elf region_start.toNat raws top) :
    walk_region elf.reader layout arena_index region_start region_end is_main_arena =
      (eventsOf layout region_start.toNat raws top, []) := by
  obtain ⟨_, chunks, laid, _⟩ := stored
  cases raws with
  | nil =>
    have same : region_start = region_end := UInt64.toNat_inj.mp laid
    simp [walk_region, same, eventsOf]
  | cons raw rest =>
    obtain ⟨⟨own, isStored, size⟩, later⟩ := harmless
    obtain ⟨fields, field, same, laidRest, isField, flag⟩ := laidOut_of_fieldsRead later laid.2
    have laidRead : LaidOut elf.reader region_start.toNat (own :: fields) region_end.toNat := by
      refine ⟨read_u64_eq_ok.mpr isStored, ?_⟩
      rw [← size]
      exact laidRest
    have chunksRead : ∀ other ∈ own :: fields, IsChunk layout other := by
      have pairs : List.Forall₂ (fun raw other => chunk_size raw = chunk_size other) (raw :: rest) (own :: fields) :=
        .cons size (same.imp fun _ _ both => both.1)
      intro other member
      obtain ⟨source, listed, equal⟩ := forall₂_source pairs member
      obtain ⟨aligned, minimum⟩ := chunks source listed
      exact ⟨equal ▸ aligned, equal ▸ minimum⟩
    have count : (own :: fields).length ≤ MAX_CHUNKS := by
      rw [List.length_cons, ← same.length_eq]
      exact few
    rw [UInt64.ofNat_toNat] at isField
    rw [walk_region_laid_out sized arena_index is_main_arena count chunksRead laidRead isField, eventsOf, eventsOf]
    obtain ⟨events, next⟩ := @eventsOf_congr layout (region_start.toNat + (chunk_size raw).toNat) _ _ _ _ same flag
    rw [eventAt_congr size next, events, size]

private theorem harmless_of_walk (sized : layout.Sized) (arena_index : UInt32) (is_main_arena : Bool)
    {region_start region_end : UInt64} (stored : StoredChunks elf layout raws region_start region_end top)
    (walk : walk_region elf.reader layout arena_index region_start region_end is_main_arena =
      (eventsOf layout region_start.toNat raws top, [])) :
    raws.length ≤ MAX_CHUNKS ∧ Harmless elf region_start.toNat raws top := by
  have order := UInt64.le_iff_toNat_le.mpr (stored.laid.span stored.chunks).1
  obtain ⟨_, sound, count⟩ := walk_region_run elf.reader arena_index is_main_arena sized order
  have flags : ∀ event ∈ (walk_region elf.reader layout arena_index region_start region_end is_main_arena).1,
      FlagRead elf.reader event := walk_region_flags arena_index is_main_arena sized region_start
  have reads := sound.reads
  rw [walk] at count reads flags
  rw [eventsOf_length] at count
  refine ⟨count, ?_⟩
  cases raws with
  | nil => trivial
  | cons raw rest =>
    obtain ⟨⟨field, isRead, size⟩, _⟩ := reads _ List.mem_cons_self
    exact ⟨⟨field, read_u64_eq_ok.mp isRead, size⟩, fieldsRead_of_events reads flags⟩

private theorem harmless_of_is_64 (is_64 : elf.is_64 = true) (laid : LaidOut (words elf) lo raws hi)
    (top_stored : (words elf).read_u64 (UInt64.ofNat hi) = .ok top) : Harmless elf lo raws top := by
  have readStored {addr word : UInt64} (stored : (words elf).read_u64 addr = .ok word) : Stored elf 8 addr word :=
    read_u64_eq_ok.mp ((words_of_is_64 is_64).mp stored)
  have fields (rest : List UInt64) (lo : Nat) (laid : LaidOut (words elf) lo rest hi) : FieldsRead elf lo rest top := by
    induction rest generalizing lo with
    | nil =>
      obtain rfl : lo = hi := laid
      exact ⟨top, readStored top_stored, Iff.rfl⟩
    | cons raw rest ih => exact ⟨⟨raw, readStored laid.1, rfl, Iff.rfl⟩, ih _ laid.2⟩
  cases raws with
  | nil => trivial
  | cons raw rest => exact ⟨⟨raw, readStored laid.1, rfl⟩, fields rest _ laid.2⟩

end

/-- The traversals honour the words of an image: the walk emits the events of the
    chunks stored in it if and only if there are at most `MAX_CHUNKS` and, on a
    32-bit image, what is read behind their words does no harm; and the number
    read at a word is the word if and only if, there, zeros stand behind it. -/
theorem words_honoured_iff (elf : Image.Elf) (layout : DetectedLayout) (sized : layout.Sized) (arena_index : UInt32)
    (is_main_arena : Bool) (raws : List UInt64) (region_start region_end top : UInt64)
    (stored : StoredChunks elf layout raws region_start region_end top) :
    (walk_region elf.reader layout arena_index region_start region_end is_main_arena =
        (eventsOf layout region_start.toNat raws top, []) ↔
      raws.length ≤ MAX_CHUNKS ∧ (elf.is_64 = true ∨ Harmless elf region_start.toNat raws top)) ∧
    ∀ addr word, (words elf).read_u64 addr = .ok word →
      (elf.read_u64 addr = .ok word ↔ elf.is_64 = true ∨ ZeroBehind elf addr word) := by
  constructor
  · constructor
    · intro walk
      obtain ⟨few, harmless⟩ := harmless_of_walk sized arena_index is_main_arena stored walk
      exact ⟨few, .inr harmless⟩
    · rintro ⟨few, is_64 | harmless⟩
      · have topStored := stored.top_stored
        rw [← UInt64.ofNat_toNat (x := region_end)] at topStored
        exact walk_of_harmless sized arena_index is_main_arena stored few (harmless_of_is_64 is_64 stored.laid topStored)
      · exact walk_of_harmless sized arena_index is_main_arena stored few harmless
  · intro addr word isWord
    by_cases is_64 : elf.is_64 = true
    · exact ⟨fun _ => .inl is_64, fun _ => (words_of_is_64 is_64).mp isWord⟩
    · rw [read_four_iff (Bool.eq_false_iff.mpr is_64) isWord]
      exact ⟨.inr, fun either => either.resolve_left is_64⟩

/-- An image of the given class, one segment of which has the bytes at `0x1000`. -/
def image (is_64 : Bool) (data : List UInt8) (small : data.length ≤ MAX_SLICE) : Image.Elf :=
  ⟨is_64, [⟨⟨PT_LOAD, 0, UInt64.ofNat data.length⟩, 0x1000⟩], ⟨data, small⟩⟩

/-- Three chunks in front of the top, of which the second is free, in words of eight bytes. -/
def long_image : Image.Elf :=
  image true (bytesOf 8 0x21 ++ List.replicate 24 0x41 ++ bytesOf 8 0x31 ++ List.replicate 40 0x42 ++ bytesOf 8 0x20 ++
    List.replicate 24 0x43 ++ bytesOf 8 0x1001) (by decide +kernel)

/-- Two chunks in front of the top, in words of four bytes, with zeros behind each. -/
def zeroed_image : Image.Elf :=
  image false (bytesOf 8 0x11 ++ List.replicate 8 0x41 ++ bytesOf 8 0x19 ++ List.replicate 16 0x42 ++ bytesOf 8 0x1001)
    (by decide +kernel)

/-- A chunk of 16 bytes in front of the top, in words of four bytes. -/
def short_image : Image.Elf :=
  image false (bytesOf 4 0x11 ++ List.replicate 12 0x41 ++ bytesOf 4 0x1001 ++ List.replicate 4 0) (by decide)

private theorem long_stored : StoredChunks long_image (test_layout 8) [0x21, 0x31, 0x20] 0x1000 0x1070 0x1001 := by
  refine ⟨rfl, ?_, ⟨by decide +kernel, by decide +kernel, by decide +kernel, rfl⟩, by decide +kernel⟩
  intro raw member
  rcases List.mem_cons.mp member with rfl | member
  · exact ⟨by decide, by decide⟩
  rcases List.mem_pair.mp member with rfl | rfl <;> exact ⟨by decide, by decide⟩

private theorem zeroed_stored : StoredChunks zeroed_image (test_layout 4) [0x11, 0x19] 0x1000 0x1028 0x1001 := by
  refine ⟨rfl, ?_, ⟨by decide +kernel, by decide +kernel, rfl⟩, by decide +kernel⟩
  intro raw member
  rcases List.mem_pair.mp member with rfl | rfl <;> exact ⟨by decide, by decide⟩

private theorem zeroed_harmless : Harmless zeroed_image 0x1000 [0x11, 0x19] 0x1001 := by
  have first : zeroed_image.read_u64 0x1000 = .ok 0x11 := by decide +kernel
  have second : zeroed_image.read_u64 0x1010 = .ok 0x19 := by decide +kernel
  have top : zeroed_image.read_u64 0x1028 = .ok 0x1001 := by decide +kernel
  exact ⟨⟨0x11, read_u64_eq_ok.mp first, rfl⟩, ⟨0x19, read_u64_eq_ok.mp second, rfl, Iff.rfl⟩,
    0x1001, read_u64_eq_ok.mp top, Iff.rfl⟩

private theorem short_stored : StoredChunks short_image (test_layout 4) [0x11] 0x1000 0x1010 0x1001 := by
  refine ⟨rfl, ?_, ⟨by decide +kernel, rfl⟩, by decide +kernel⟩
  intro raw member
  obtain rfl := List.mem_singleton.mp member
  exact ⟨by decide, by decide⟩

theorem words_honoured_iff_two_images :
    walk_region long_image.reader (test_layout 8) 0 0x1000 0x1070 true =
      (eventsOf (test_layout 8) 0x1000 [0x21, 0x31, 0x20] 0x1001, []) ∧
    walk_region zeroed_image.reader (test_layout 4) 1 0x1000 0x1028 false =
      (eventsOf (test_layout 4) 0x1000 [0x11, 0x19] 0x1001, []) :=
  ⟨(words_honoured_iff long_image (test_layout 8) test_layout_sized.1 0 true [0x21, 0x31, 0x20] 0x1000 0x1070 0x1001
      long_stored).1.mpr ⟨by decide, .inl rfl⟩,
    (words_honoured_iff zeroed_image (test_layout 4) test_layout_sized.2 1 false [0x11, 0x19] 0x1000 0x1028 0x1001
      zeroed_stored).1.mpr ⟨by decide, .inr zeroed_harmless⟩⟩

/-- On a 32-bit image the size field is read with the payload behind it. -/
theorem payload_read : StoredChunks short_image (test_layout 4) [0x11] 0x1000 0x1010 0x1001 ∧
    (words short_image).read_u64 0x1000 = .ok 0x11 ∧ short_image.read_u64 0x1000 = .ok 0x4141414100000011 ∧
    walk_region short_image.reader (test_layout 4) 0 0x1000 0x1010 true =
      ([], [.HeapWalkTruncated 0 "chunk extends past region end"]) ∧
    walk_region short_image.reader (test_layout 4) 0 0x1000 0x1010 true ≠
      (eventsOf (test_layout 4) 0x1000 [0x11] 0x1001, []) := by
  have cut : walk_region short_image.reader (test_layout 4) 0 0x1000 0x1010 true =
      ([], [.HeapWalkTruncated 0 "chunk extends past region end"]) := by decide +kernel
  refine ⟨short_stored, by decide +kernel, by decide +kernel, cut, ?_⟩
  rw [cut]
  simp

end HeapAnalyser.WordReads
