import HeapAnalyser.Elf

/-!
Walking a note segment (`walk_note_segment` of `elf/notes.rs`). A turn of the
loop takes one record, behind a header check whose sum is not a checked one: a
walk in which it overflowed, or that did not end, would be `none`, and no walk
of a buffer is (`walk_note_segment_returns`). What a turn takes of a buffer it
takes of every longer one (`walk_turn_of_prefix`), so that truncation costs
notes at the end only; and it takes a record as it is written, with or without
the padding behind it (`walk_turn_body`).
-/
namespace HeapAnalyser.Notes
open Bytes Elf

structure Note where
  name : String
  note_type : UInt32
  desc : List UInt8
  deriving DecidableEq

/-- `std::str::from_utf8`. -/
def from_utf8 (bytes : List UInt8) : Option String := String.fromUTF8? bytes.toByteArray

/-- The bytes of a string. -/
def as_bytes (s : String) : List UInt8 := s.toByteArray.data.toList

/-- Round up to the next multiple of 4, or nothing on overflow. -/
def align4 (n : Nat) : Option Nat := (checked_add_usize n 3).map fun x => x / 4 * 4

/-- A name up to its first NUL. -/
def trimmed (name_bytes : List UInt8) : List UInt8 :=
  match name_bytes.findIdx? (· = 0) with
  | some nul => name_bytes.take nul
  | none => name_bytes

/-- One record of the loop: its note, if its name is UTF-8, and where the next
    one starts; nothing where the loop breaks off. -/
def walk_turn (data : List UInt8) (off : Nat) : Option (Option Note × Nat) := do
  let namesz ← read_u32_le data off
  let descsz ← read_u32_le data (off + 4)
  let ntype ← read_u32_le data (off + 8)
  let name_start := off + 12
  let name_end ← checked_add_usize name_start namesz.toNat
  let name_bytes ← slice data name_start name_end
  let desc_start ← align4 name_end
  let desc_end ← checked_add_usize desc_start descsz.toNat
  let desc ← slice data desc_start desc_end
  let next ← align4 desc_end
  return ((from_utf8 (trimmed name_bytes)).map fun name => ⟨name, ntype, desc⟩, next)

/-- The loop of `walk_note_segment`, on fuel. -/
def walk_from (data : List UInt8) : Nat → Nat → Option (List Note)
  | 0, _ => none
  | fuel + 1, off =>
    match checked_add_usize off 12 with
    | none => none
    | some header_end =>
      if header_end ≤ data.length then
        match walk_turn data off with
        | none => some []
        | some (note, next) => (walk_from data fuel next).map (note.toList ++ ·)
      else some []

/-- Walk a note segment; `none` if the walk overflows or never ends. -/
def walk_note_segment (data : List UInt8) : Option (List Note) := walk_from data (data.length + 1) 0

/-- The zero bytes that pad a length to a multiple of 4. -/
def padding (length : Nat) : List UInt8 := List.replicate ((4 - length % 4) % 4) 0

/-- A name as it is stored, with its NUL. -/
def storedName (note : Note) : List UInt8 := as_bytes note.name ++ [0]

/-- The header of a record: `namesz`, `descsz` and the type. -/
def header (note : Note) : List UInt8 :=
  bytesOf 4 (storedName note).length ++ bytesOf 4 note.desc.length ++ bytesOf 4 note.note_type.toNat

/-- A record without the padding behind its descriptor. -/
def body (note : Note) : List UInt8 :=
  header note ++ (storedName note ++ padding (storedName note).length) ++ note.desc

def record (note : Note) : List UInt8 := body note ++ padding note.desc.length

/-- The records of some notes, one behind the other. -/
def records (notes : List Note) : List UInt8 := notes.flatMap record

/-- A note that can be written: a name without NUL, and lengths that fit their fields. -/
structure Writable (note : Note) : Prop where
  name : 0 ∉ as_bytes note.name
  namesz : (storedName note).length < 2 ^ 32
  descsz : note.desc.length < 2 ^ 32

/-- A number rounded up to the next multiple of 4. -/
def aligned (n : Nat) : Nat := (n + 3) / 4 * 4

theorem align4_eq_some {n m : Nat} : align4 n = some m ↔ n + 3 < 2 ^ 64 ∧ aligned n = m := by
  simp only [align4, Option.map_eq_some_iff, checked_add_usize_eq_some, aligned]
  constructor
  · rintro ⟨x, ⟨fits, rfl⟩, same⟩
    exact ⟨fits, same⟩
  · rintro ⟨fits, same⟩
    exact ⟨n + 3, ⟨fits, rfl⟩, same⟩

@[simp] theorem header_length (note : Note) : (header note).length = 12 := by simp [header]

@[simp] theorem padding_length (n : Nat) : (padding n).length = (4 - n % 4) % 4 := by simp [padding]

theorem read_u32_le_eq_some {buf : List UInt8} {off : Nat} {v : UInt32} :
    read_u32_le buf off = some v ↔ read_le 4 buf off = some v.toNat := by
  rw [read_u32_le, Option.map_eq_some_iff]
  constructor
  · rintro ⟨n, read, rfl⟩
    have bound := (read_le_inside read).2
    rwa [UInt32.toNat_ofNat_of_lt' (by rw [UInt32.size]; omega)]
  · intro read
    exact ⟨v.toNat, read, UInt32.ofNat_toNat⟩

private theorem from_utf8_as_bytes (s : String) : from_utf8 (as_bytes s) = some s := by
  have same : (as_bytes s).toByteArray = s.toByteArray := by
    apply ByteArray.ext
    simp [as_bytes]
  rw [from_utf8, same, String.fromUTF8?, dif_pos s.isValidUTF8]
  rfl

private theorem trimmed_storedName {note : Note} (noNul : 0 ∉ as_bytes note.name) :
    trimmed (storedName note) = as_bytes note.name := by
  have first : (storedName note).findIdx? (· = 0) = some (as_bytes note.name).length := by
    rw [storedName, List.findIdx?_append, List.findIdx?_eq_none_iff.mpr]
    · simp
    · intro byte member
      have other : byte ≠ 0 := by
        rintro rfl
        exact noNul member
      simpa using other
  rw [trimmed, first, storedName]
  exact List.take_left

private theorem walk_turn_eq_some {data : List UInt8} {off next : Nat} {note : Option Note} :
    walk_turn data off = some (note, next) ↔ ∃ namesz descsz ntype : UInt32, ∃ name_bytes desc : List UInt8,
      read_le 4 data off = some namesz.toNat ∧ read_le 4 data (off + 4) = some descsz.toNat ∧
      read_le 4 data (off + 8) = some ntype.toNat ∧
      slice data (off + 12) (off + 12 + namesz.toNat) = some name_bytes ∧
      slice data (aligned (off + 12 + namesz.toNat)) (aligned (off + 12 + namesz.toNat) + descsz.toNat) = some desc ∧
      aligned (off + 12 + namesz.toNat) + descsz.toNat + 3 < 2 ^ 64 ∧
      note = (from_utf8 (trimmed name_bytes)).map (fun name => ⟨name, ntype, desc⟩) ∧
      next = aligned (aligned (off + 12 + namesz.toNat) + descsz.toNat) := by
  simp only [walk_turn, Option.bind_eq_bind, Option.bind_eq_some_iff, read_u32_le_eq_some, checked_add_usize_eq_some,
    align4_eq_some, Option.pure_def, Option.some.injEq, Prod.mk.injEq]
  constructor
  · rintro ⟨namesz, readName, descsz, readDesc, ntype, readType, _, ⟨_, rfl⟩, name_bytes, nameIs, _, ⟨_, rfl⟩, _,
      ⟨_, rfl⟩, desc, descIs, _, ⟨fits, rfl⟩, rfl, rfl⟩
    exact ⟨namesz, descsz, ntype, name_bytes, desc, readName, readDesc, readType, nameIs, descIs, fits, rfl, rfl⟩
  · rintro ⟨namesz, descsz, ntype, name_bytes, desc, readName, readDesc, readType, nameIs, descIs, fits, rfl, rfl⟩
    have grows : off + 12 + namesz.toNat ≤ aligned (off + 12 + namesz.toNat) := by
      rw [aligned]
      omega
    exact ⟨namesz, readName, descsz, readDesc, ntype, readType, _, ⟨by omega, rfl⟩, name_bytes, nameIs, _,
      ⟨by omega, rfl⟩, _, ⟨by omega, rfl⟩, desc, descIs, _, ⟨fits, rfl⟩, rfl, rfl⟩

/-- What a turn takes of a buffer it takes of every longer one. -/
theorem walk_turn_of_prefix {short data : List UInt8} {off : Nat} {turn : Option Note × Nat} (front : short <+: data)
    (takes : walk_turn short off = some turn) : walk_turn data off = some turn := by
  obtain ⟨note, next⟩ := turn
  obtain ⟨namesz, descsz, ntype, name_bytes, desc, readName, readDesc, readType, nameIs, descIs, fits, noteIs, nextIs⟩ :=
    walk_turn_eq_some.mp takes
  exact walk_turn_eq_some.mpr ⟨namesz, descsz, ntype, name_bytes, desc, read_le_of_prefix front readName,
    read_le_of_prefix front readDesc, read_le_of_prefix front readType, slice_of_prefix front nameIs,
    slice_of_prefix front descIs, fits, noteIs, nextIs⟩

/-- A turn goes on behind its header, and at most three bytes behind the buffer. -/
theorem walk_turn_next {data : List UInt8} {off next : Nat} {note : Option Note}
    (takes : walk_turn data off = some (note, next)) : off + 12 ≤ next ∧ next ≤ data.length + 3 := by
  obtain ⟨namesz, descsz, ntype, name_bytes, desc, _, _, _, _, descIs, _, _, rfl⟩ := walk_turn_eq_some.mp takes
  obtain ⟨_, inside, _⟩ := slice_eq_some.mp descIs
  simp only [aligned] at inside ⊢
  omega

private theorem header_words (front back : List UInt8) {note : Note} (writable : Writable note)
    (small : front.length + 12 < 2 ^ 64) :
    read_le 4 (front ++ header note ++ back) front.length = some (storedName note).length ∧
    read_le 4 (front ++ header note ++ back) (front.length + 4) = some note.desc.length ∧
    read_le 4 (front ++ header note ++ back) (front.length + 8) = some note.note_type.toNat := by
  refine ⟨?_, ?_, ?_⟩
  · have read := read_le_append 4 front (bytesOf 4 note.desc.length ++ bytesOf 4 note.note_type.toNat ++ back)
      writable.namesz (by omega)
    simpa only [header, List.append_assoc] using read
  · have read := read_le_append 4 (front ++ bytesOf 4 (storedName note).length) (bytesOf 4 note.note_type.toNat ++ back)
      writable.descsz (by rw [List.length_append, bytesOf_length]; omega)
    simpa only [header, List.append_assoc, List.length_append, bytesOf_length] using read
  · have read := read_le_append 4 (front ++ (bytesOf 4 (storedName note).length ++ bytesOf 4 note.desc.length)) back
      note.note_type.toNat_lt (by simp only [List.length_append, bytesOf_length]; omega)
    simpa only [header, List.append_assoc, List.length_append, bytesOf_length] using read

/-- A turn takes a record as it is written, whatever is behind its descriptor. -/
theorem walk_turn_body (front back : List UInt8) {note : Note} (writable : Writable note)
    (phase : front.length % 4 = 0) (small : (front ++ body note ++ back).length + 3 < 2 ^ 64) :
    walk_turn (front ++ body note ++ back) front.length =
      some (some note, front.length + (record note).length) := by
  have namesz : (UInt32.ofNat (storedName note).length).toNat = (storedName note).length :=
    UInt32.toNat_ofNat_of_lt' writable.namesz
  have descsz : (UInt32.ofNat note.desc.length).toNat = note.desc.length :=
    UInt32.toNat_ofNat_of_lt' writable.descsz
  simp only [body, List.length_append, header_length, padding_length] at small
  obtain ⟨readName, readDesc, readType⟩ := header_words front
    ((storedName note ++ padding (storedName note).length) ++ note.desc ++ back) writable (by omega)
  have nameEnd : aligned (front.length + 12 + (storedName note).length) =
      front.length + 12 + (storedName note).length + (4 - (storedName note).length % 4) % 4 := by
    rw [aligned]
    omega
  refine walk_turn_eq_some.mpr ⟨UInt32.ofNat (storedName note).length, UInt32.ofNat note.desc.length, note.note_type,
    storedName note, note.desc, ?_, ?_, ?_, ?_, ?_, ?_, ?_, ?_⟩
  · rw [namesz]
    simpa only [body, List.append_assoc] using readName
  · rw [descsz]
    simpa only [body, List.append_assoc] using readDesc
  · simpa only [body, List.append_assoc] using readType
  · rw [namesz]
    have found := slice_append (front ++ header note) (storedName note)
      (padding (storedName note).length ++ note.desc ++ back)
    simpa only [body, List.append_assoc, List.length_append, header_length] using found
  · rw [namesz, descsz, nameEnd]
    have found := slice_append (front ++ header note ++ storedName note ++ padding (storedName note).length) note.desc
      back
    simpa only [body, List.append_assoc, List.length_append, header_length, padding_length, Nat.add_assoc] using found
  · rw [namesz, descsz, nameEnd]
    omega
  · rw [trimmed_storedName writable.name, from_utf8_as_bytes]
    rfl
  · rw [namesz, descsz, nameEnd, aligned]
    simp only [record, body, List.length_append, header_length, padding_length]
    omega

/-- A record without a descriptor ends with the padding behind its name. It is
    not taken where bytes of that are missing. -/
theorem walk_turn_cut (front back : List UInt8) {note : Note} {missing : Nat} (writable : Writable note)
    (empty : note.desc = []) (phase : front.length % 4 = 0) (lacks : 0 < missing)
    (small : (front ++ body note).length + 3 < 2 ^ 64) (isBody : back ++ List.replicate missing 0 = body note) :
    walk_turn (front ++ back) front.length = none := by
  cases takes : walk_turn (front ++ back) front.length with
  | none => rfl
  | some turn =>
    obtain ⟨found, next⟩ := turn
    have whole : walk_turn (front ++ body note) front.length = some (found, next) :=
      walk_turn_of_prefix ⟨List.replicate missing 0, by rw [List.append_assoc, isBody]⟩ takes
    have taken := walk_turn_body front [] writable phase (by simpa using small)
    rw [List.append_nil, whole, Option.some.injEq, Prod.mk.injEq] at taken
    obtain ⟨rfl, rfl⟩ := taken
    obtain ⟨namesz, descsz, ntype, name_bytes, desc, _, _, _, _, descIs, _, noteIs, nextIs⟩ := walk_turn_eq_some.mp takes
    obtain ⟨name, _, isNote⟩ := Option.map_eq_some_iff.mp noteIs.symm
    obtain rfl : desc = [] := by rw [← empty, ← isNote]
    -- the descriptor would start where the record ends, behind the cut
    have none := slice_length descIs
    obtain ⟨_, inside, _⟩ := slice_eq_some.mp descIs
    have length := congrArg List.length isBody
    simp only [List.length_append, List.length_replicate, List.length_nil, record, empty, padding, aligned]
      at length inside none nextIs
    omega

private theorem walk_from_returns {data : List UInt8} (small : data.length ≤ MAX_SLICE) (fuel : Nat) {off : Nat}
    (inside : off ≤ data.length + 3) (enough : data.length + 1 ≤ fuel + off ∧ 0 < fuel) :
    ∃ notes, walk_from data fuel off = some notes := by
  rw [MAX_SLICE] at small
  induction fuel generalizing off with
  | zero => omega
  | succ fuel ih =>
    have sum : checked_add_usize off 12 = some (off + 12) := checked_add_usize_eq_some.mpr ⟨by omega, rfl⟩
    by_cases header : off + 12 ≤ data.length
    · cases takes : walk_turn data off with
      | none => exact ⟨[], by simp only [walk_from, sum, header, if_true, takes]⟩
      | some turn =>
        obtain ⟨note, next⟩ := turn
        obtain ⟨goesOn, within⟩ := walk_turn_next takes
        obtain ⟨rest, returns⟩ := ih within (by omega)
        exact ⟨note.toList ++ rest, by simp only [walk_from, sum, header, if_true, takes, returns, Option.map_some]⟩
    · exact ⟨[], by simp only [walk_from, sum, header, if_false]⟩

private theorem walk_note_segment_returns (data : Buffer) : ∃ notes, walk_note_segment data.bytes = some notes :=
  walk_from_returns data.length_le (data.bytes.length + 1) (by omega) (by omega)

/-- Of a shorter buffer the loop returns the first of the notes. -/
theorem walk_from_prefix {short data : List UInt8} (front : short <+: data) (fuel more : Nat) {off : Nat}
    {notes all : List Note} (cut : walk_from short fuel off = some notes) (whole : walk_from data more off = some all) :
    notes <+: all := by
  induction fuel generalizing more off notes all with
  | zero => simp [walk_from] at cut
  | succ fuel ih =>
    cases more with
    | zero => simp [walk_from] at whole
    | succ more =>
      cases sum : checked_add_usize off 12 with
      | none => simp [walk_from, sum] at cut
      | some header_end =>
        by_cases header : header_end ≤ short.length
        · cases takes : walk_turn short off with
          | none =>
            simp only [walk_from, sum, header, if_true, takes, Option.some.injEq] at cut
            exact cut ▸ List.nil_prefix
          | some turn =>
            obtain ⟨note, next⟩ := turn
            have later : header_end ≤ data.length := Nat.le_trans header front.length_le
            simp only [walk_from, sum, header, if_true, takes, Option.map_eq_some_iff] at cut
            simp only [walk_from, sum, later, if_true, walk_turn_of_prefix front takes, Option.map_eq_some_iff] at whole
            obtain ⟨rest, cutRest, rfl⟩ := cut
            obtain ⟨allRest, wholeRest, rfl⟩ := whole
            exact List.prefix_append_right_inj _ |>.mpr (ih more cutRest wholeRest)
        · simp only [walk_from, sum, header, if_false, Option.some.injEq] at cut
          exact cut ▸ List.nil_prefix

private theorem walk_from_done {data : List UInt8} (fuel : Nat) {off : Nat} (behind : data.length < off + 12)
    (small : off + 12 < 2 ^ 64) : walk_from data (fuel + 1) off = some [] := by
  have sum : checked_add_usize off 12 = some (off + 12) := checked_add_usize_eq_some.mpr ⟨small, rfl⟩
  simp only [walk_from, sum, if_neg (Nat.not_le.mpr behind)]

/-- At a record as it is written the loop adds its note and goes on behind it. -/
theorem walk_from_body (fuel : Nat) (front back : List UInt8) {note : Note} (writable : Writable note)
    (phase : front.length % 4 = 0) (small : (front ++ body note ++ back).length ≤ MAX_SLICE) :
    walk_from (front ++ body note ++ back) (fuel + 1) front.length =
      (walk_from (front ++ body note ++ back) fuel (front.length + (record note).length)).map (note :: ·) := by
  rw [MAX_SLICE] at small
  have takes := walk_turn_body front back writable phase (by omega)
  have header : front.length + 12 ≤ (front ++ body note ++ back).length := by
    simp only [body, List.length_append, header_length]
    omega
  have sum : checked_add_usize front.length 12 = some (front.length + 12) :=
    checked_add_usize_eq_some.mpr ⟨by omega, rfl⟩
  simp only [walk_from, sum, header, if_true, takes]
  rfl

private theorem record_length (note : Note) : (record note).length % 4 = 0 ∧ 12 ≤ (record note).length ∧
    (record note).length = (body note).length + (padding note.desc.length).length := by
  simp only [record, body, List.length_append, header_length, padding_length]
  refine ⟨by omega, by omega, trivial⟩

private theorem walk_from_records (fuel : Nat) (front : List UInt8) (notes : List Note) (back : List UInt8)
    (writable : ∀ note ∈ notes, Writable note) (phase : front.length % 4 = 0)
    (small : (front ++ records notes ++ back).length ≤ MAX_SLICE) :
    walk_from (front ++ records notes ++ back) (notes.length + fuel) front.length =
      (walk_from (front ++ records notes ++ back) fuel (front.length + (records notes).length)).map (notes ++ ·) := by
  induction notes generalizing front with
  | nil => simp [records]
  | cons note rest ih =>
    have split : front ++ records (note :: rest) ++ back =
        front ++ body note ++ (padding note.desc.length ++ records rest ++ back) := by
      simp only [records, List.flatMap_cons, record, List.append_assoc]
    have again : front ++ records (note :: rest) ++ back = front ++ record note ++ records rest ++ back := by
      simp only [records, List.flatMap_cons, List.append_assoc]
    obtain ⟨whole, _, _⟩ := record_length note
    have step := walk_from_body (rest.length + fuel) front (padding note.desc.length ++ records rest ++ back)
      (writable note (by simp)) phase (split ▸ small)
    have later := ih (front ++ record note) (fun other member => writable other (by simp [member]))
      (by rw [List.length_append]; omega) (again ▸ small)
    rw [← again, List.length_append] at later
    rw [← split] at step
    rw [List.length_cons, Nat.add_right_comm, step, later, Option.map_map]
    simp only [records, List.flatMap_cons, List.length_append, Nat.add_assoc, Function.comp_def, List.cons_append]

private theorem length_le_records (notes : List Note) : 12 * notes.length ≤ (records notes).length := by
  induction notes with
  | nil => simp
  | cons note rest ih =>
    obtain ⟨_, header, _⟩ := record_length note
    simp only [records, List.flatMap_cons, List.length_append, List.length_cons] at ih ⊢
    omega

private theorem records_length (notes : List Note) : (records notes).length % 4 = 0 := by
  induction notes with
  | nil => rfl
  | cons note rest ih =>
    obtain ⟨whole, _, _⟩ := record_length note
    simp only [records, List.flatMap_cons, List.length_append] at ih ⊢
    omega

/-! ## Note segments -/

theorem walk_note_segment_records {notes : List Note} (writable : ∀ note ∈ notes, Writable note)
    (small : (records notes).length ≤ MAX_SLICE) : walk_note_segment (records notes) = some notes := by
  have count := length_le_records notes
  obtain ⟨fuel, enough⟩ : ∃ fuel, (records notes).length + 1 = notes.length + (fuel + 1) :=
    ⟨(records notes).length - notes.length, by omega⟩
  have run := walk_from_records (fuel + 1) [] notes [] writable rfl (by simpa using small)
  simp only [List.nil_append, List.append_nil, List.length_nil, Nat.zero_add] at run
  rw [MAX_SLICE] at small
  rw [walk_note_segment, enough, run, walk_from_done fuel (by omega) (by omega), Option.map_some, List.append_nil]

/-- A segment that lacks bytes of its last padding has the last record's body whole. -/
theorem body_of_missing {data : List UInt8} {notes : List Note} {last : Note} {missing : Nat}
    (few : missing ≤ (padding last.desc.length).length)
    (isRecords : data ++ List.replicate missing 0 = records (notes ++ [last])) :
    ∃ back, data = records notes ++ body last ++ back ∧ back.length ≤ (padding last.desc.length).length := by
  have split : records (notes ++ [last]) = records notes ++ body last ++ padding last.desc.length := by
    simp [records, record]
  have same := congrArg List.length (isRecords.trans split)
  rw [List.length_append, List.length_replicate, List.length_append] at same
  obtain ⟨back, rfl⟩ : records notes ++ body last <+: data :=
    List.prefix_of_prefix_length_le ⟨padding last.desc.length, split.symm.trans isRecords.symm⟩
      (List.prefix_append data _) (by omega)
  rw [List.length_append] at same
  exact ⟨back, rfl, by omega⟩

/-- The walk of written records, the last of which may lack bytes of its padding. -/
theorem walk_note_segment_body {notes : List Note} {last : Note} {back : List UInt8}
    (writable : ∀ note ∈ notes ++ [last], Writable note) (few : back.length ≤ (padding last.desc.length).length)
    (small : (records notes ++ body last ++ back).length ≤ MAX_SLICE) :
    walk_note_segment (records notes ++ body last ++ back) = some (notes ++ [last]) := by
  obtain ⟨whole, header, length⟩ := record_length last
  have count := length_le_records notes
  have bound : (records notes ++ body last ++ back).length =
      (records notes).length + (body last).length + back.length := by
    rw [List.length_append, List.length_append]
  have pad : (padding last.desc.length).length ≤ 3 := by
    rw [padding_length]
    omega
  obtain ⟨fuel, enough⟩ : ∃ fuel, (records notes ++ body last ++ back).length + 1 = notes.length + (fuel + 1 + 1) :=
    ⟨(records notes ++ body last ++ back).length - notes.length - 1, by omega⟩
  have run := walk_from_records (fuel + 1 + 1) [] notes (body last ++ back)
    (fun note member => writable note (by simp [member])) rfl (by simpa using small)
  simp only [List.nil_append, List.length_nil, Nat.zero_add, ← List.append_assoc] at run
  have step := walk_from_body (fuel + 1) (records notes) back (writable last (by simp)) (records_length notes) small
  rw [MAX_SLICE] at small
  rw [walk_note_segment, enough, run, step, walk_from_done fuel (by omega) (by omega), Option.map_some,
    Option.map_some]

/-- The walk of written records, the last of which lacks bytes of the padding
    behind its name and has no descriptor. -/
theorem walk_note_segment_cut {notes : List Note} {last : Note} {back : List UInt8} {missing : Nat}
    (writable : ∀ note ∈ notes ++ [last], Writable note) (empty : last.desc = []) (lacks : 0 < missing ∧ missing ≤ 3)
    (small : (records notes ++ back).length ≤ MAX_SLICE) (isBody : back ++ List.replicate missing 0 = body last) :
    walk_note_segment (records notes ++ back) = some notes := by
  have count := length_le_records notes
  have length := congrArg List.length isBody
  rw [List.length_append, List.length_replicate] at length
  have bound : (records notes ++ back).length = (records notes).length + back.length := List.length_append
  obtain ⟨fuel, enough⟩ : ∃ fuel, (records notes ++ back).length + 1 = notes.length + (fuel + 1) :=
    ⟨(records notes ++ back).length - notes.length, by omega⟩
  have run := walk_from_records (fuel + 1) [] notes back (fun note member => writable note (by simp [member])) rfl
    (by simpa using small)
  simp only [List.nil_append, List.length_nil, Nat.zero_add] at run
  rw [MAX_SLICE] at small
  have breaks := walk_turn_cut (records notes) back (writable last (by simp)) empty (records_length notes) lacks.1
    (by rw [List.length_append]; omega) isBody
  have sum : checked_add_usize (records notes).length 12 = some ((records notes).length + 12) :=
    checked_add_usize_eq_some.mpr ⟨by omega, rfl⟩
  have ends : walk_from (records notes ++ back) (fuel + 1) (records notes).length = some [] := by
    simp only [walk_from, sum, breaks, ite_self]
  rw [walk_note_segment, enough, run, ends, Option.map_some, List.append_nil]

/-- What the walk of a note segment returns: the notes that were written, also
    where bytes of the padding behind the last descriptor are missing, but
    without the last one where it has no descriptor and bytes of the padding
    behind its name are missing; and of the first bytes of any segment the first
    of its notes. -/
structure WalkedExactly (data : Buffer) : Prop where
  written : ∀ notes, (∀ note ∈ notes, Writable note) → data.bytes = records notes →
    walk_note_segment data.bytes = some notes
  unpadded : ∀ notes last missing, (∀ note ∈ notes ++ [last], Writable note) →
    missing ≤ (padding last.desc.length).length →
    data.bytes ++ List.replicate missing 0 = records (notes ++ [last]) →
    walk_note_segment data.bytes = some (notes ++ [last])
  unnamed : ∀ notes last missing, (∀ note ∈ notes ++ [last], Writable note) → last.desc = [] →
    0 < missing → missing ≤ (padding (storedName last).length).length →
    data.bytes ++ List.replicate missing 0 = records (notes ++ [last]) → walk_note_segment data.bytes = some notes
  truncated : ∀ k, ∃ some_notes notes, walk_note_segment (data.bytes.take k) = some some_notes ∧
    walk_note_segment data.bytes = some notes ∧ some_notes <+: notes

/-- Note parsing is exact and tolerates truncation; it never overflows and always ends. -/
theorem walk_note_segment_exact (data : Buffer) : WalkedExactly data := by
  have small := data.length_le
  refine ⟨?_, ?_, ?_, ?_⟩
  · intro notes writable isRecords
    rw [isRecords] at small ⊢
    exact walk_note_segment_records writable small
  · intro notes last missing writable few isRecords
    obtain ⟨back, isBody, short⟩ := body_of_missing few isRecords
    rw [isBody] at small ⊢
    exact walk_note_segment_body writable short small
  · intro notes last missing writable empty lacks few isRecords
    have pad : missing ≤ 3 := by
      rw [padding_length] at few
      omega
    have split : records (notes ++ [last]) = records notes ++ body last := by
      simp [records, record, empty, padding]
    obtain ⟨_, enough, length⟩ := record_length last
    rw [empty, padding_length] at length
    have total := congrArg List.length (isRecords.trans split)
    rw [List.length_append, List.length_append, List.length_replicate] at total
    obtain ⟨back, isBack⟩ : records notes <+: data.bytes :=
      List.prefix_of_prefix_length_le ⟨body last, (isRecords.trans split).symm⟩ (List.prefix_append _ _) (by omega)
    rw [← isBack, split, List.append_assoc, List.append_cancel_left_eq] at isRecords
    rw [← isBack] at small ⊢
    exact walk_note_segment_cut writable empty ⟨lacks, pad⟩ small isRecords
  · intro k
    obtain ⟨notes, whole⟩ := walk_note_segment_returns data
    have short : (data.bytes.take k).length ≤ MAX_SLICE := Nat.le_trans (List.length_take_le' k _) small
    obtain ⟨some_notes, cut⟩ := walk_note_segment_returns ⟨data.bytes.take k, short⟩
    exact ⟨some_notes, notes, cut, whole, walk_from_prefix (List.take_prefix k data.bytes) _ _ cut whole⟩

/-- The padding that a record ends with. -/
def final_padding (note : Note) : List UInt8 :=
  if note.desc = [] then padding (storedName note).length else padding note.desc.length

/-- Not every last record is taken without its final padding: a note without a
    descriptor, whose name takes five bytes, is lost. -/
theorem unpadded_note_lost : ¬ ∀ (data : Buffer) (notes : List Note) (last : Note) (missing : Nat),
    (∀ note ∈ notes ++ [last], Writable note) → missing ≤ (final_padding last).length →
    data.bytes ++ List.replicate missing 0 = records (notes ++ [last]) →
    walk_note_segment data.bytes = some (notes ++ [last]) := by
  intro claimed
  have lost := claimed ⟨[5, 0, 0, 0, 0, 0, 0, 0, 1, 0, 0, 0, 67, 79, 82, 69, 0], by decide⟩ [] ⟨"CORE", 1, []⟩ 3
    (by simpa using ⟨by decide, by decide, by decide⟩) (by decide) (by decide)
  exact absurd lost (by decide)

end HeapAnalyser.Notes
