import HeapAnalyser.Notes
import HeapAnalyser.Problem

/-!
The file-backed mappings of an `NT_FILE` note (`mapped_files` of
`elf/coredump.rs`): `count` triples of words, then as many NUL-terminated paths,
all read from one moving offset. The paths are read from behind the last triple
that was read. Where that is the last triple of all, they are the mappings'
paths, as far as the descriptor has them; where triples are left, over the cap
or cut, the strings are made of the bytes of those (`mapped_files_exact_iff`).
-/
namespace HeapAnalyser.MappedFiles
open Bytes Elf Notes

def NT_FILE : UInt32 := 0x46494c45

/-- Upper bound on `NT_FILE` entries. -/
def MAX_MAPPINGS : Nat := 100000

structure MappedFile where
  start : UInt64
  stop : UInt64
  file_offset : UInt64
  path : String
  deriving DecidableEq

/-- A continuation byte, where there is one. -/
def continues (byte : Option UInt8) : Bool :=
  match byte with
  | some b => decide (0x80 ≤ b ∧ b ≤ 0xbf)
  | none => false

/-- A second byte that can follow the first one of three or four. -/
def second_fits (first : UInt8) (byte : Option UInt8) : Bool :=
  match byte with
  | some b =>
    if first = 0xe0 then decide (0xa0 ≤ b ∧ b ≤ 0xbf)
    else if first = 0xed then decide (0x80 ≤ b ∧ b ≤ 0x9f)
    else if first = 0xf0 then decide (0x90 ≤ b ∧ b ≤ 0xbf)
    else if first = 0xf4 then decide (0x80 ≤ b ∧ b ≤ 0x8f)
    else decide (0x80 ≤ b ∧ b ≤ 0xbf)
  | none => false

/-- How many bytes one replacement character stands for, where no character
    starts: the longest part that could start one. -/
def invalid_length : List UInt8 → Nat
  | [] => 0
  | first :: rest =>
    if 0xe0 ≤ first ∧ first ≤ 0xef then if second_fits first rest[0]? then 2 else 1
    else if 0xf0 ≤ first ∧ first ≤ 0xf4 then
      if second_fits first rest[0]? then if continues rest[1]? then 3 else 2 else 1
    else 1

/-- The characters of bytes, on as much fuel as there are bytes. -/
def lossy_chars : Nat → List UInt8 → List Char
  | 0, _ => []
  | _ + 1, [] => []
  | fuel + 1, first :: rest =>
    match (first :: rest).toByteArray.utf8DecodeChar? 0 with
    | some c => c :: lossy_chars fuel ((first :: rest).drop c.utf8Size)
    | none => Char.ofNat 0xfffd :: lossy_chars fuel ((first :: rest).drop (invalid_length (first :: rest)))

/-- `String::from_utf8_lossy`. -/
def from_utf8_lossy (bytes : List UInt8) : String := String.ofList (lossy_chars bytes.length bytes)

/-- Read a NUL-terminated string at an offset, and where the next one starts. -/
def read_cstr (buf : List UInt8) (off : Nat) : Option (String × Nat) :=
  if off ≤ buf.length then
    let rest := buf.drop off
    match rest.findIdx? (· = 0) with
    | some nul => some (from_utf8_lossy (rest.take nul), off + (nul + 1))
    | none => none
  else none

/-- The first loop of `mapped_files`: at most `count` triples, and the offset
    behind them. -/
def read_ranges (desc : List UInt8) (is_64bit : Bool) : Nat → Nat → List (UInt64 × UInt64 × UInt64) × Nat
  | 0, off => ([], off)
  | count + 1, off =>
    match read_word desc off is_64bit, read_word desc (off + word_size is_64bit) is_64bit,
        read_word desc (off + 2 * word_size is_64bit) is_64bit with
    | some start, some stop, some file_offset =>
      let rest := read_ranges desc is_64bit count (off + 3 * word_size is_64bit)
      ((start, stop, file_offset) :: rest.1, rest.2)
    | _, _, _ => ([], off)

/-- The second loop of `mapped_files`: a path for each triple. -/
def read_paths (desc : List UInt8) : List (UInt64 × UInt64 × UInt64) → Nat → List MappedFile
  | [], _ => []
  | (start, stop, file_offset) :: rest, off =>
    match read_cstr desc off with
    | none => []
    | some (path, next) => ⟨start, stop, file_offset, path⟩ :: read_paths desc rest next

/-- The mappings of the `NT_FILE` note, as many as parse cleanly. -/
def mapped_files (notes : List Note) (is_64bit : Bool) : Except Error (List MappedFile) :=
  match notes.find? fun n => n.note_type = NT_FILE with
  | none => .ok []
  | some note =>
    match read_word note.desc 0 is_64bit with
    | none => .ok []
    | some count =>
      let ranges := read_ranges note.desc is_64bit (min count.toNat MAX_MAPPINGS) (2 * word_size is_64bit)
      .ok (read_paths note.desc ranges.1 ranges.2)

/-- A word of the target. -/
def word_bytes (is_64bit : Bool) (v : UInt64) : List UInt8 := bytesOf (word_size is_64bit) v.toNat

/-- The triple of a mapping. -/
def triple (is_64bit : Bool) (file : MappedFile) : List UInt8 :=
  word_bytes is_64bit file.start ++ word_bytes is_64bit file.stop ++ word_bytes is_64bit file.file_offset

/-- The triples of some mappings, one behind the other. -/
def triples (is_64bit : Bool) (files : List MappedFile) : List UInt8 := files.flatMap (triple is_64bit)

/-- The paths of some mappings, each with its NUL. -/
def paths (files : List MappedFile) : List UInt8 := files.flatMap fun file => as_bytes file.path ++ [0]

/-- The descriptor of an `NT_FILE` note with some mappings. -/
def encode (is_64bit : Bool) (page_size : UInt64) (files : List MappedFile) : List UInt8 :=
  bytesOf (word_size is_64bit) files.length ++ word_bytes is_64bit page_size ++ triples is_64bit files ++ paths files

/-- Mappings that can be encoded: words in range, paths without NUL, and a
    count that fits its word. -/
structure Encodable (is_64bit : Bool) (files : List MappedFile) : Prop where
  words : ∀ file ∈ files, file.start.toNat < 256 ^ word_size is_64bit ∧ file.stop.toNat < 256 ^ word_size is_64bit ∧
    file.file_offset.toNat < 256 ^ word_size is_64bit
  names : ∀ file ∈ files, 0 ∉ as_bytes file.path
  count : files.length < 256 ^ word_size is_64bit

/-- The NUL-terminated strings of some bytes; the first argument is what the
    first one starts with. -/
def cstrings : List UInt8 → List UInt8 → List (List UInt8)
  | _, [] => []
  | start, byte :: rest => if byte = 0 then start :: cstrings [] rest else cstrings (start ++ [byte]) rest

/-- The bytes of a string decode to its characters. -/
theorem lossy_chars_encoded (chars : List Char) {fuel : Nat}
    (enough : (chars.flatMap String.utf8EncodeChar).length ≤ fuel) :
    lossy_chars fuel (chars.flatMap String.utf8EncodeChar) = chars := by
  induction chars generalizing fuel with
  | nil => cases fuel <;> rfl
  | cons c rest ih =>
    rw [List.flatMap_cons, List.length_append, String.length_utf8EncodeChar] at enough
    have positive := c.utf8Size_pos
    obtain ⟨spare, rfl⟩ : ∃ spare, fuel = spare + 1 := ⟨fuel - 1, by omega⟩
    obtain ⟨first, tail, split⟩ := List.exists_cons_of_ne_nil (String.utf8EncodeChar_ne_nil (c := c))
    have whole : (c :: rest).flatMap String.utf8EncodeChar = first :: (tail ++ rest.flatMap String.utf8EncodeChar) := by
      rw [List.flatMap_cons, split, List.cons_append]
    have decodes : (first :: (tail ++ rest.flatMap String.utf8EncodeChar)).toByteArray.utf8DecodeChar? 0 = some c := by
      rw [← whole]
      exact List.utf8DecodeChar?_utf8Encode_cons
    have drops : (first :: (tail ++ rest.flatMap String.utf8EncodeChar)).drop c.utf8Size =
        rest.flatMap String.utf8EncodeChar := by
      rw [← whole, List.flatMap_cons, ← String.length_utf8EncodeChar, List.drop_left]
    rw [whole]
    simp only [lossy_chars, decodes, drops]
    rw [ih (by omega)]

private theorem as_bytes_eq (s : String) : as_bytes s = s.toList.flatMap String.utf8EncodeChar := by
  have same : s.toByteArray = s.toList.utf8Encode := by
    rw [← String.toByteArray_ofList, String.ofList_toList]
  rw [as_bytes, same, List.utf8Encode]
  simp

private theorem from_utf8_lossy_as_bytes (s : String) : from_utf8_lossy (as_bytes s) = s := by
  rw [from_utf8_lossy, as_bytes_eq, lossy_chars_encoded _ (Nat.le_refl _), String.ofList_toList]

private theorem cstrings_of_noNul {bytes : List UInt8} (noNul : 0 ∉ bytes) (start : List UInt8) :
    cstrings start bytes = [] := by
  induction bytes generalizing start with
  | nil => rfl
  | cons byte rest ih =>
    rw [List.mem_cons, not_or] at noNul
    rw [cstrings, if_neg (Ne.symm noNul.1), ih noNul.2]

private theorem cstrings_append {bytes : List UInt8} (noNul : 0 ∉ bytes) (start rest : List UInt8) :
    cstrings start (bytes ++ 0 :: rest) = (start ++ bytes) :: cstrings [] rest := by
  induction bytes generalizing start with
  | nil => rw [List.nil_append, cstrings, if_pos rfl, List.append_nil]
  | cons byte more ih =>
    rw [List.mem_cons, not_or] at noNul
    rw [List.cons_append, cstrings, if_neg (Ne.symm noNul.1), ih noNul.2, List.append_assoc, List.singleton_append]

/-- A string is read where the bytes have one, and the next one behind its NUL. -/
theorem read_cstr_cases (buf : List UInt8) (off : Nat) :
    (read_cstr buf off = none ∧ cstrings [] (buf.drop off) = []) ∨
    ∃ bytes next, read_cstr buf off = some (from_utf8_lossy bytes, next) ∧
      cstrings [] (buf.drop off) = bytes :: cstrings [] (buf.drop next) := by
  by_cases inside : off ≤ buf.length
  · cases found : (buf.drop off).findIdx? (· = 0) with
    | none =>
      refine .inl ⟨by simp only [read_cstr, inside, if_true, found], cstrings_of_noNul ?_ []⟩
      intro nul
      have nonzero := List.findIdx?_eq_none_iff.mp found 0 nul
      simp at nonzero
    | some nul =>
      refine .inr ⟨(buf.drop off).take nul, off + (nul + 1), by simp only [read_cstr, inside, if_true, found], ?_⟩
      obtain ⟨within, isNul, before⟩ := List.findIdx?_eq_some_iff_getElem.mp found
      have noNul : 0 ∉ (buf.drop off).take nul := by
        intro zero
        obtain ⟨i, small, isZero⟩ := List.getElem_of_mem zero
        rw [List.length_take] at small
        rw [List.getElem_take] at isZero
        have other := before i (by omega)
        simp [isZero] at other
      have split : buf.drop off = (buf.drop off).take nul ++ 0 :: buf.drop (off + (nul + 1)) := by
        have isZero : (buf.drop off)[nul] = 0 := by simpa using isNul
        rw [← List.drop_drop, ← isZero, List.getElem_cons_drop, List.take_append_drop]
      conv => lhs; rw [split]
      rw [cstrings_append noNul, List.nil_append]
  · refine .inl ⟨by simp only [read_cstr, inside, if_false], ?_⟩
    rw [List.drop_eq_nil_of_le (by omega)]
    rfl

/-- The paths that are read are the strings from the offset on. -/
theorem read_paths_eq (desc : List UInt8) (ranges : List (UInt64 × UInt64 × UInt64)) (off : Nat) :
    read_paths desc ranges off = List.zipWith (fun range path => ⟨range.1, range.2.1, range.2.2, path⟩) ranges
      ((cstrings [] (desc.drop off)).map from_utf8_lossy) := by
  induction ranges generalizing off with
  | nil => rfl
  | cons range rest ih =>
    obtain ⟨start, stop, file_offset⟩ := range
    rcases read_cstr_cases desc off with ⟨ends, none⟩ | ⟨bytes, next, read, more⟩
    · simp only [read_paths, ends, none, List.map_nil, List.zipWith_nil_right]
    · simp only [read_paths, read, more, List.map_cons, List.zipWith_cons_cons, ih]

/-- Of bytes that hold paths the strings are the first of these. -/
theorem cstrings_paths {files : List MappedFile} (names : ∀ file ∈ files, 0 ∉ as_bytes file.path) (k : Nat) :
    cstrings [] ((paths files).take k) <+: files.map (fun file => as_bytes file.path) ∧
    ((paths files).length ≤ k → cstrings [] ((paths files).take k) = files.map fun file => as_bytes file.path) := by
  induction files generalizing k with
  | nil => simp [paths, cstrings]
  | cons file rest ih =>
    have noNul := names file (by simp)
    have split : paths (file :: rest) = as_bytes file.path ++ 0 :: paths rest := by
      simp [paths]
    have length : (paths (file :: rest)).length = (as_bytes file.path).length + 1 + (paths rest).length := by
      rw [split, List.length_append, List.length_cons]
      omega
    by_cases short : k ≤ (as_bytes file.path).length
    · have cut : (paths (file :: rest)).take k = (as_bytes file.path).take k := by
        rw [split, List.take_append_of_le_length short]
      rw [cut, cstrings_of_noNul fun nul => noNul (List.mem_of_mem_take nul)]
      exact ⟨List.nil_prefix, fun whole => by omega⟩
    · obtain ⟨later, whole⟩ := ih (fun other member => names other (by simp [member]))
        (k - (as_bytes file.path).length - 1)
      obtain ⟨more, isMore⟩ : ∃ more, k - (as_bytes file.path).length = more + 1 :=
        ⟨k - (as_bytes file.path).length - 1, by omega⟩
      have cut : (paths (file :: rest)).take k =
          as_bytes file.path ++ 0 :: (paths rest).take (k - (as_bytes file.path).length - 1) := by
        rw [split, List.take_append, List.take_of_length_le (by omega), isMore, List.take_succ_cons]
        rfl
      rw [cut, cstrings_append noNul, List.nil_append, List.map_cons]
      exact ⟨List.cons_prefix_cons.mpr ⟨rfl, later⟩, fun enough => by rw [whole (by omega)]⟩

/-- The words of a mapping. -/
def rangeOf (file : MappedFile) : UInt64 × UInt64 × UInt64 := (file.start, file.stop, file.file_offset)

/-- How many triples behind an offset lie in the first bytes of a buffer. -/
def fitting (is_64bit : Bool) (off k : Nat) : Nat := (k - off) / (3 * word_size is_64bit)

private theorem fitting_succ {is_64bit : Bool} {off k : Nat} (room : off + 3 * word_size is_64bit ≤ k) :
    fitting is_64bit off k = fitting is_64bit (off + 3 * word_size is_64bit) k + 1 := by
  rw [fitting, fitting]
  cases is_64bit with
  | true =>
    change off + 3 * 8 ≤ k at room
    show (k - off) / (3 * 8) = (k - (off + 3 * 8)) / (3 * 8) + 1
    omega
  | false =>
    change off + 3 * 4 ≤ k at room
    show (k - off) / (3 * 4) = (k - (off + 3 * 4)) / (3 * 4) + 1
    omega

private theorem fitting_zero {is_64bit : Bool} {off k : Nat} (full : k < off + 3 * word_size is_64bit) :
    fitting is_64bit off k = 0 := by
  have positive : 0 < 3 * word_size is_64bit := by cases is_64bit <;> decide
  exact Nat.div_eq_of_lt (by omega)

private theorem triple_length (is_64bit : Bool) (file : MappedFile) :
    (triple is_64bit file).length = 3 * word_size is_64bit := by
  simp only [triple, word_bytes, List.length_append, bytesOf_length]
  omega

private theorem triples_length (is_64bit : Bool) (files : List MappedFile) :
    (triples is_64bit files).length = 3 * word_size is_64bit * files.length := by
  induction files with
  | nil => rfl
  | cons file rest ih =>
    rw [triples, List.flatMap_cons, List.length_append, triple_length, ← triples, ih, List.length_cons, Nat.mul_succ]
    omega

private theorem triple_read {is_64bit : Bool} (front back : List UInt8) {file : MappedFile} {k : Nat}
    (words : file.start.toNat < 256 ^ word_size is_64bit ∧ file.stop.toNat < 256 ^ word_size is_64bit ∧
      file.file_offset.toNat < 256 ^ word_size is_64bit)
    (small : ((front ++ triple is_64bit file ++ back).take k).length ≤ MAX_SLICE)
    (room : front.length + 3 * word_size is_64bit ≤ k) :
    read_word ((front ++ triple is_64bit file ++ back).take k) front.length is_64bit = some file.start ∧
    read_word ((front ++ triple is_64bit file ++ back).take k) (front.length + word_size is_64bit) is_64bit =
      some file.stop ∧
    read_word ((front ++ triple is_64bit file ++ back).take k) (front.length + 2 * word_size is_64bit) is_64bit =
      some file.file_offset := by
  obtain ⟨start, stop, file_offset⟩ := words
  have inside : front.length + 3 * word_size is_64bit ≤
      ((front ++ triple is_64bit file ++ back).take k).length := by
    simp only [List.length_take, List.length_append, triple_length]
    omega
  have below : front.length + 3 * word_size is_64bit ≤ 2 ^ 63 - 1 := Nat.le_trans inside small
  have shorter := List.take_prefix k (front ++ triple is_64bit file ++ back)
  refine ⟨?_, ?_, ?_⟩
  · refine read_word_in_prefix shorter ?_ (by omega)
    have read := read_word_append is_64bit front (word_bytes is_64bit file.stop ++ word_bytes is_64bit file.file_offset ++
      back) start (by omega)
    simpa only [triple, word_bytes, List.append_assoc] using read
  · refine read_word_in_prefix shorter ?_ (by omega)
    have read := read_word_append is_64bit (front ++ word_bytes is_64bit file.start)
      (word_bytes is_64bit file.file_offset ++ back) stop
      (by rw [List.length_append, word_bytes, bytesOf_length]; omega)
    simpa only [triple, word_bytes, List.append_assoc, List.length_append, bytesOf_length] using read
  · refine read_word_in_prefix shorter ?_ (by omega)
    have read := read_word_append is_64bit (front ++ (word_bytes is_64bit file.start ++ word_bytes is_64bit file.stop))
      back file_offset (by simp only [List.length_append, word_bytes, bytesOf_length]; omega)
    simpa only [triple, word_bytes, List.append_assoc, List.length_append, bytesOf_length, Nat.two_mul] using read

private theorem read_ranges_stop {desc : List UInt8} {is_64bit : Bool} {off : Nat} (count : Nat)
    (short : desc.length < off + 3 * word_size is_64bit) : read_ranges desc is_64bit (count + 1) off = ([], off) := by
  have third : read_word desc (off + 2 * word_size is_64bit) is_64bit = none := by
    refine Option.eq_none_iff_forall_ne_some.mpr fun v read => ?_
    have inside := read_word_inside read
    omega
  cases first : read_word desc off is_64bit with
  | none => simp only [read_ranges, first]
  | some start =>
    cases second : read_word desc (off + word_size is_64bit) is_64bit with
    | none => simp only [read_ranges, first, second]
    | some stop => simp only [read_ranges, first, second, third]

/-- The first loop reads the triples that lie in the first bytes of a buffer. -/
theorem read_ranges_take {is_64bit : Bool} (count : Nat) (front : List UInt8) {files : List MappedFile}
    (back : List UInt8) (k : Nat)
    (words : ∀ file ∈ files, file.start.toNat < 256 ^ word_size is_64bit ∧ file.stop.toNat < 256 ^ word_size is_64bit ∧
      file.file_offset.toNat < 256 ^ word_size is_64bit)
    (small : ((front ++ triples is_64bit files ++ back).take k).length ≤ MAX_SLICE) (few : count ≤ files.length) :
    read_ranges ((front ++ triples is_64bit files ++ back).take k) is_64bit count front.length =
      ((files.take (min count (fitting is_64bit front.length k))).map rangeOf,
       front.length + 3 * word_size is_64bit * min count (fitting is_64bit front.length k)) := by
  induction count generalizing front files with
  | zero => simp [read_ranges]
  | succ count ih =>
    by_cases room : front.length + 3 * word_size is_64bit ≤ k
    · cases files with
      | nil => simp at few
      | cons file rest =>
        have split : front ++ triples is_64bit (file :: rest) ++ back =
            front ++ triple is_64bit file ++ (triples is_64bit rest ++ back) := by
          simp only [triples, List.flatMap_cons, List.append_assoc]
        have again : front ++ triples is_64bit (file :: rest) ++ back =
            front ++ triple is_64bit file ++ triples is_64bit rest ++ back := by
          simp only [triples, List.flatMap_cons, List.append_assoc]
        obtain ⟨start, stop, file_offset⟩ := triple_read front (triples is_64bit rest ++ back) (words file (by simp))
          (split ▸ small) room
        have later := ih (front ++ triple is_64bit file) (fun other member => words other (by simp [member]))
          (again ▸ small) (by simpa using few)
        rw [← split] at start stop file_offset
        rw [← again, List.length_append, triple_length] at later
        have count_succ : min (count + 1) (fitting is_64bit front.length k) =
            min count (fitting is_64bit (front.length + 3 * word_size is_64bit) k) + 1 := by
          rw [fitting_succ room]
          omega
        simp only [read_ranges, start, stop, file_offset, later, count_succ, List.take_succ_cons, List.map_cons, rangeOf,
          Nat.mul_succ]
        refine Prod.ext rfl ?_
        simp only
        omega
    · rw [read_ranges_stop count (by rw [List.length_take]; omega), fitting_zero (by omega), Nat.min_zero, List.take_zero]
      rfl

/-! ## Encoded mappings -/

/-- How many triples are read of the first `k` bytes of a descriptor. -/
def triplesRead (is_64bit : Bool) (files : List MappedFile) (k : Nat) : Nat :=
  min (min files.length MAX_MAPPINGS) (fitting is_64bit (2 * word_size is_64bit) k)

/-- What the first `k` bytes of a descriptor hold behind these: the triples that
    are left, and the paths. -/
def leftOver (is_64bit : Bool) (files : List MappedFile) (k : Nat) : List UInt8 :=
  (triples is_64bit (files.drop (triplesRead is_64bit files k)) ++ paths files).take
    (k - (2 * word_size is_64bit + 3 * word_size is_64bit * triplesRead is_64bit files k))

/-- All triples are read: the cap admits them, and the first `k` bytes hold them. -/
def AllRead (is_64bit : Bool) (files : List MappedFile) (k : Nat) : Prop :=
  files.length ≤ MAX_MAPPINGS ∧ 2 * word_size is_64bit + 3 * word_size is_64bit * files.length ≤ k

/-- The strings in the bytes that are left happen to be the first of the paths. -/
def Coincide (is_64bit : Bool) (files : List MappedFile) (k : Nat) : Prop :=
  ((cstrings [] (leftOver is_64bit files k)).map from_utf8_lossy).take (triplesRead is_64bit files k) <+:
    files.map MappedFile.path

/-- Decoding the first `k` bytes of a descriptor gives the first of its mappings,
    and the whole descriptor all of them, up to the cap. -/
def Decodes (notes : List Note) (is_64bit : Bool) (page_size : UInt64) (files : List MappedFile) (k : Nat) : Prop :=
  ∃ found, mapped_files notes is_64bit = .ok found ∧ found <+: files ∧
    ((encode is_64bit page_size files).length ≤ k → files.length ≤ MAX_MAPPINGS → found = files)

/-- Ranges with paths are the first mappings where the paths are these mappings'. -/
theorem zipWith_prefix_iff (files more : List MappedFile) (names : List String) :
    List.zipWith (fun range path => (⟨range.1, range.2.1, range.2.2, path⟩ : MappedFile)) (files.map rangeOf) names <+:
      files ++ more ↔ names.take files.length <+: (files ++ more).map MappedFile.path := by
  induction files generalizing names with
  | nil => simp
  | cons file rest ih =>
    cases names with
    | nil => simp
    | cons name names =>
      simp only [List.map_cons, List.zipWith_cons_cons, List.cons_append, List.length_cons, List.take_succ_cons,
        List.cons_prefix_cons, ih, rangeOf]
      refine and_congr_left fun _ => ?_
      cases file
      simp

theorem encode_length (is_64bit : Bool) (page_size : UInt64) (files : List MappedFile) :
    (encode is_64bit page_size files).length =
      2 * word_size is_64bit + 3 * word_size is_64bit * files.length + (paths files).length := by
  simp only [encode, word_bytes, List.length_append, bytesOf_length, triples_length]
  omega

/-- Behind the triples that are read stands what is left over. -/
theorem drop_encode (is_64bit : Bool) (page_size : UInt64) (files : List MappedFile) (k : Nat) :
    ((encode is_64bit page_size files).take k).drop
      (2 * word_size is_64bit + 3 * word_size is_64bit * triplesRead is_64bit files k) = leftOver is_64bit files k := by
  have few : triplesRead is_64bit files k ≤ files.length := by
    rw [triplesRead]
    omega
  have split : encode is_64bit page_size files =
      bytesOf (word_size is_64bit) files.length ++ word_bytes is_64bit page_size ++
        triples is_64bit (files.take (triplesRead is_64bit files k)) ++
        (triples is_64bit (files.drop (triplesRead is_64bit files k)) ++ paths files) := by
    rw [encode, ← List.append_assoc, List.append_assoc _ (triples _ _) (triples _ _), triples, triples, triples,
      ← List.flatMap_append, List.take_append_drop]
  rw [List.drop_take, leftOver, split, List.drop_left']
  simp only [List.length_append, word_bytes, bytesOf_length, triples_length, List.length_take, Nat.min_eq_left few]
  omega

section decoding
variable {notes : List Note} {note : Note} {is_64bit : Bool} {page_size : UInt64} {files : List MappedFile} {k : Nat}

/-- Of the first `k` bytes of a descriptor the ranges are the mappings', and the
    paths the strings in what is left over. -/
theorem mapped_files_eq (encodable : Encodable is_64bit files)
    (found : notes.find? (fun n => n.note_type = NT_FILE) = some note)
    (desc : note.desc = (encode is_64bit page_size files).take k) (small : note.desc.length ≤ MAX_SLICE) :
    mapped_files notes is_64bit = .ok (List.zipWith (fun range path => ⟨range.1, range.2.1, range.2.2, path⟩)
      ((files.take (triplesRead is_64bit files k)).map rangeOf)
      ((cstrings [] (leftOver is_64bit files k)).map from_utf8_lossy)) := by
  have length := encode_length is_64bit page_size files
  by_cases short : k < word_size is_64bit
  · have unread : read_word note.desc 0 is_64bit = none := by
      refine Option.eq_none_iff_forall_ne_some.mpr fun v read => ?_
      have inside := read_word_inside read
      rw [desc, List.length_take] at inside
      omega
    have nothing : triplesRead is_64bit files k = 0 := by
      rw [triplesRead, fitting_zero (by omega), Nat.min_zero]
    simp only [mapped_files, found, unread, nothing, List.take_zero, List.map_nil, List.zipWith_nil_left]
  · have narrow : 256 ^ word_size is_64bit ≤ 2 ^ 64 := by cases is_64bit <;> decide
    have isCount : (UInt64.ofNat files.length).toNat = files.length :=
      UInt64.toNat_ofNat_of_lt' (Nat.lt_of_lt_of_le encodable.count narrow)
    have count : read_word note.desc 0 is_64bit = some (UInt64.ofNat files.length) := by
      have read := read_word_append is_64bit [] (word_bytes is_64bit page_size ++ triples is_64bit files ++ paths files)
        (isCount.symm ▸ encodable.count) (by cases is_64bit <;> decide)
      rw [isCount, List.nil_append, ← List.append_assoc, ← List.append_assoc] at read
      rw [desc]
      refine read_word_in_prefix (List.take_prefix _ _) read ?_
      rw [List.length_take, length]
      omega
    have ranges := read_ranges_take (min files.length MAX_MAPPINGS)
      (bytesOf (word_size is_64bit) files.length ++ word_bytes is_64bit page_size) (paths files) k encodable.words
      (desc ▸ small) (Nat.min_le_left _ _)
    rw [← encode, ← desc, List.length_append, word_bytes, bytesOf_length, bytesOf_length, ← Nat.two_mul,
      ← triplesRead] at ranges
    simp only [mapped_files, found, count, isCount, ranges, read_paths_eq]
    rw [desc, drop_encode]

theorem triplesRead_of_allRead (all : AllRead is_64bit files k) : triplesRead is_64bit files k = files.length := by
  obtain ⟨few, room⟩ := all
  have positive : 0 < 3 * word_size is_64bit := by cases is_64bit <;> decide
  have fit : files.length ≤ fitting is_64bit (2 * word_size is_64bit) k := by
    rw [fitting, Nat.le_div_iff_mul_le positive, Nat.mul_comm]
    omega
  rw [triplesRead]
  omega

/-- Where all triples are read, the strings are the first paths, and all of them
    where the paths are whole. -/
theorem strings_of_allRead (encodable : Encodable is_64bit files) (all : AllRead is_64bit files k) :
    (cstrings [] (leftOver is_64bit files k)).map from_utf8_lossy <+: files.map MappedFile.path ∧
    (2 * word_size is_64bit + 3 * word_size is_64bit * files.length + (paths files).length ≤ k →
      (cstrings [] (leftOver is_64bit files k)).map from_utf8_lossy = files.map MappedFile.path) := by
  have names : files.map MappedFile.path = (files.map fun file => as_bytes file.path).map from_utf8_lossy := by
    simp [from_utf8_lossy_as_bytes]
  have left : leftOver is_64bit files k = (paths files).take
      (k - (2 * word_size is_64bit + 3 * word_size is_64bit * files.length)) := by
    rw [leftOver, triplesRead_of_allRead all, List.drop_length]
    rfl
  obtain ⟨first, whole⟩ := cstrings_paths encodable.names
    (k - (2 * word_size is_64bit + 3 * word_size is_64bit * files.length))
  rw [left, names]
  refine ⟨first.map from_utf8_lossy, fun enough => ?_⟩
  rw [whole (by omega)]

end decoding

/-- Decoding undoes encoding exactly where the paths are read from where they
    start, or what is read instead happens to be the same. -/
theorem mapped_files_exact_iff (notes : List Note) (note : Note) (is_64bit : Bool) (page_size : UInt64)
    (files : List MappedFile) (k : Nat) (encodable : Encodable is_64bit files)
    (found : notes.find? (fun n => n.note_type = NT_FILE) = some note)
    (desc : note.desc = (encode is_64bit page_size files).take k) (small : note.desc.length ≤ MAX_SLICE) :
    Decodes notes is_64bit page_size files k ↔ AllRead is_64bit files k ∨ Coincide is_64bit files k := by
  have decoded := mapped_files_eq encodable found desc small
  have few : triplesRead is_64bit files k ≤ files.length := by
    rw [triplesRead]
    omega
  have isPrefix := zipWith_prefix_iff (files.take (triplesRead is_64bit files k))
    (files.drop (triplesRead is_64bit files k)) ((cstrings [] (leftOver is_64bit files k)).map from_utf8_lossy)
  rw [List.take_append_drop, List.length_take, Nat.min_eq_left few] at isPrefix
  constructor
  · rintro ⟨result, isResult, front, -⟩
    rw [decoded] at isResult
    cases isResult
    exact .inr (isPrefix.mp front)
  · intro either
    have coincide : Coincide is_64bit files k := by
      rcases either with all | coincide
      · exact (List.take_prefix _ _).trans (strings_of_allRead encodable all).1
      · exact coincide
    refine ⟨_, decoded, isPrefix.mpr coincide, fun whole admitted => ?_⟩
    rw [encode_length] at whole
    have all : AllRead is_64bit files k := ⟨admitted, by omega⟩
    refine (isPrefix.mpr coincide).eq_of_length ?_
    rw [(strings_of_allRead encodable all).2 whole, triplesRead_of_allRead all]
    simp

/-- The mappings of a program and of a library it uses. -/
def victim : List MappedFile :=
  [⟨0x400000, 0x401000, 0, "/bin/victim"⟩, ⟨0x7ffff7a00000, 0x7ffff7c00000, 0, "/lib/libc.so.6"⟩]

theorem victim_encodable : Encodable true victim := ⟨by decide +kernel, by decide +kernel, by decide⟩

/-- The note with the first `k` bytes of their descriptor. -/
def victim_note (k : Nat) : Note := ⟨"CORE", NT_FILE, (encode true 0x1000 victim).take k⟩

theorem mapped_files_exact_iff_victim : Decodes [victim_note 91] true 0x1000 victim 91 :=
  (mapped_files_exact_iff [victim_note 91] (victim_note 91) true 0x1000 victim 91 victim_encodable rfl rfl
    (by decide +kernel)).mpr (.inl ⟨by decide, by decide⟩)

/-- Cut behind the first byte of its second triple, the descriptor gives the
    program an empty path. -/
theorem mapped_files_wrong_path : Encodable true victim ∧ (victim_note 41).desc <+: encode true 0x1000 victim ∧
    mapped_files [victim_note 41] true = .ok [⟨0x400000, 0x401000, 0, ""⟩] ∧
    ¬ [(⟨0x400000, 0x401000, 0, ""⟩ : MappedFile)] <+: victim :=
  ⟨victim_encodable, List.take_prefix _ _, by decide +kernel, by decide +kernel⟩

end HeapAnalyser.MappedFiles
