import HeapAnalyser.Analysis
import HeapAnalyser.DebugLink
import HeapAnalyser.Image
import HeapAnalyser.MappedFiles
import HeapAnalyser.Selection

/-!
Where the reference libc is loaded in a core (`locate.rs`). A mapping is chosen
among those that are named for a libc and start at the front of their file: the
first of the lowest whose first page has the identity of the reference, or, with
a forced path, the first of the lowest of that path (`located_exact`). A
reference whose program headers and notes are in view in its first page is
recognised where it is mapped, so it is found there or below
(`reference_located_iff`).
-/
namespace HeapAnalyser.Locate
open Machine Elf Image MappedFiles BuildId Selection Analysis DebugLink

/-- The hard failures of a run (`error.rs`): those of reading the core, and the others. -/
inductive Failure where
  | Core (error : Error)
  | Io (path : String)
  | NotElf (path : String)
  | ElfParse (reason : String)
  | UnsupportedArch (machine : UInt16)
  | LibcNotFound (reason : String)
  | UnusableLibc (reason : String)
  | Json (reason : String)
  deriving Repr, DecidableEq

/-- Bytes hashed for the content-hash fallback, and compared in the core. -/
def IDENTITY_WINDOW : Nat := 4096

/-- The identity of the reference libc; the hash is that of the code outside. -/
def compute_identity (sha256 : List UInt8 → List UInt8) (elf : Image.Elf) : Identity :=
  match build_id (notes elf) with
  | some id => .BuildId id
  | none => .ContentHash (sha256 (elf.data.bytes.take IDENTITY_WINDOW))

structure LocatedLibc where
  load_addr : UInt64
  path : String
  verified : Bool
  deriving Repr, DecidableEq

/-- A path without the suffix of the kernel for a file that was replaced. -/
def strip_deleted (path : String) : String :=
  match " (deleted)".toList.isSuffixOf? path.toList with
  | some stripped => String.ofList stripped
  | none => path

/-- What is behind the last slash of a path. -/
def basename (path : List Char) : List Char := (path.reverse.takeWhile (· ≠ '/')).reverse

/-- Whether the path of a mapping names the C library itself. -/
def looks_like_libc (path : String) : Bool :=
  let base := basename (strip_deleted path).toList
  "libc.so".toList.isPrefixOf base || "libc-".toList.isPrefixOf base

def libc_candidates (mapped : List MappedFile) : List MappedFile :=
  sort_by_key (·.start.toNat) (mapped.filter fun m => m.file_offset = 0 && looks_like_libc m.path)

/-- The lowest mapping of a path, which is the first one where several are as low. -/
def force_select (mapped : List MappedFile) (wanted : String) : Option MappedFile :=
  (mapped.filter fun m => m.file_offset = 0 ∧ strip_deleted m.path = strip_deleted wanted).argmin (·.start.toNat)

/-- Read the first page of the mapping at `start` and check it against `want`. -/
def identity_matches (sha256 : List UInt8 → List UInt8) (core : Image.Elf) (start : UInt64) (want : Identity) : Bool :=
  match core.segment_bounds start with
  | none => false
  | some (_, seg_end) =>
    match core.read_bytes start (min (saturating_sub seg_end start).toNat IDENTITY_WINDOW) with
    | .error _ => false
    | .ok buf =>
      match want with
      | .BuildId id => build_id_from_raw_buffer buf = some id
      | .ContentHash hash => sha256 buf = hash

/-- The mapped files of a core. -/
def mappings (core : Image.Elf) : Except Failure (List MappedFile) :=
  (mapped_files (notes core) core.is_64).mapError .Core

/-- Locate libc by the mapped files, each candidate checked against `want`. -/
def NtFileLocator.locate (sha256 : List UInt8 → List UInt8) (core : Image.Elf) (want : Identity) :
    Except Failure LocatedLibc := do
  let candidates := libc_candidates (← mappings core)
  match candidates.find? fun m => identity_matches sha256 core m.start want with
  | some m => .ok ⟨m.start, strip_deleted m.path, true⟩
  | none => .error (.LibcNotFound ("tried " ++ toString candidates.length ++
      " libc mapping(s), none matched the reference identity"))

/-- Trust a path: match the mapping by name, without an identity check. -/
def ForcePathLocator.locate (path : String) (core : Image.Elf) : Except Failure LocatedLibc := do
  match force_select (← mappings core) path with
  | some m => .ok ⟨m.start, strip_deleted m.path, false⟩
  | none => .error (.LibcNotFound ("no mapping matches forced path '" ++ path ++ "'"))

/-- A path names the C library: behind its last slash stands a name of it. -/
def NamesLibc (path : String) : Prop :=
  ∃ dir base, path.toList = dir ++ base ∧ (dir = [] ∨ dir.getLast? = some '/') ∧ '/' ∉ base ∧
    ("libc.so".toList <+: base ∨ "libc-".toList <+: base)

/-- A mapping that the reference may be at. -/
def Candidate (m : MappedFile) : Prop := m.file_offset = 0 ∧ NamesLibc m.path

/-- The basename is the part without a slash that fills the path behind a directory. -/
theorem basename_eq {path base : List Char} :
    basename path = base ↔ ∃ dir, path = dir ++ base ∧ (dir = [] ∨ dir.getLast? = some '/') ∧ '/' ∉ base := by
  unfold basename
  constructor
  · rintro rfl
    refine ⟨(path.reverse.dropWhile (· ≠ '/')).reverse, ?_, ?_, ?_⟩
    · rw [← List.reverse_append, List.takeWhile_append_dropWhile, List.reverse_reverse]
    · cases rest : path.reverse.dropWhile (· ≠ '/') with
      | nil => exact .inl rfl
      | cons c tail =>
        have stops := List.head?_dropWhile_not (fun c => decide (c ≠ '/')) path.reverse
        rw [rest] at stops
        have slash : c = '/' := by simpa using stops
        right
        rw [List.getLast?_reverse, List.head?_cons, slash]
    · intro member
      have kept := List.mem_takeWhile_imp (List.mem_reverse.mp member)
      simp at kept
  · rintro ⟨dir, rfl, ends, clean⟩
    have all : ∀ c ∈ base.reverse, decide (c ≠ '/') = true := by
      intro c member
      exact decide_eq_true fun slash => clean (slash ▸ List.mem_reverse.mp member)
    rw [List.reverse_append, List.takeWhile_append_of_pos all]
    rcases ends with rfl | ends
    · simp
    · rw [← List.head?_reverse] at ends
      cases rest : dir.reverse with
      | nil =>
        rw [rest] at ends
        cases ends
      | cons c tail =>
        rw [rest, List.head?_cons, Option.some.injEq] at ends
        simp [ends]

/-- The suffix is taken off where it is there. -/
theorem strip_deleted_cases (path : String) :
    path.toList = (strip_deleted path).toList ++ " (deleted)".toList ∨ strip_deleted path = path := by
  unfold strip_deleted
  cases stripped : " (deleted)".toList.isSuffixOf? path.toList with
  | none => exact .inr rfl
  | some rest =>
    left
    have reversed : " (deleted)".toList.reverse.isPrefixOf? path.toList.reverse = some rest.reverse := by
      rw [List.isSuffixOf?, Option.map_eq_some_iff] at stripped
      obtain ⟨tail, isTail, rfl⟩ := stripped
      rw [isTail, List.reverse_reverse]
    have whole := List.append_eq_of_isPrefixOf?_eq_some reversed
    rw [String.toList_ofList, ← List.reverse_reverse path.toList, ← whole, List.reverse_append]
    simp only [List.reverse_reverse]

/-- A name without a blank is not hidden by the suffix, which starts with one. -/
theorem prefix_of_suffixed {name base : List Char} (named : ' ' ∉ name) :
    name <+: base ++ " (deleted)".toList ↔ name <+: base := by
  constructor
  · intro starts
    rcases List.prefix_or_prefix_of_prefix starts (List.prefix_append base _) with within | longer
    · exact within
    · obtain ⟨rest, rfl⟩ := longer
      obtain ⟨tail, split⟩ := starts
      rw [List.append_assoc, List.append_cancel_left_eq] at split
      cases rest with
      | nil => simp
      | cons c more =>
        obtain ⟨rfl, _⟩ := List.cons.inj split
        exact absurd (List.mem_append_right _ List.mem_cons_self) named
  · exact fun starts => starts.trans (List.prefix_append _ _)

/-- Whether a path names the C library does not depend on the suffix of the kernel. -/
theorem looks_like_libc_iff (path : String) : looks_like_libc path = true ↔ NamesLibc path := by
  have own : looks_like_libc path = true ↔ NamesLibc (strip_deleted path) := by
    unfold looks_like_libc NamesLibc
    simp only [Bool.or_eq_true, List.isPrefixOf_iff_prefix]
    constructor
    · intro named
      obtain ⟨dir, split, ends, clean⟩ := basename_eq.mp (rfl : basename (strip_deleted path).toList = _)
      exact ⟨dir, _, split, ends, clean, named⟩
    · rintro ⟨dir, base, split, ends, clean, named⟩
      rwa [basename_eq.mpr ⟨dir, split, ends, clean⟩]
  rw [own]
  rcases strip_deleted_cases path with suffixed | same
  · have part : ∀ dir base, (strip_deleted path).toList = dir ++ base →
        path.toList = dir ++ (base ++ " (deleted)".toList) := by
      intro dir base split
      rw [suffixed, split, List.append_assoc]
    unfold NamesLibc
    constructor
    · rintro ⟨dir, base, split, ends, clean, named⟩
      refine ⟨dir, _, part dir base split, ends, by simp [clean], ?_⟩
      rwa [prefix_of_suffixed (by decide), prefix_of_suffixed (by decide)]
    · rintro ⟨dir, base, split, ends, clean, named⟩
      obtain ⟨front, isStripped, frontEnds, frontClean⟩ :=
        basename_eq.mp (rfl : basename (strip_deleted path).toList = _)
      have isBase : base = basename (strip_deleted path).toList ++ " (deleted)".toList := by
        rw [← basename_eq.mpr ⟨dir, split, ends, clean⟩]
        exact basename_eq.mpr ⟨front, part front _ isStripped, frontEnds, by simp [frontClean]⟩
      rw [isBase, prefix_of_suffixed (by decide), prefix_of_suffixed (by decide)] at named
      exact ⟨front, _, isStripped, frontEnds, frontClean, named⟩
  · rw [same]

private theorem candidate_iff {m : MappedFile} :
    (decide (m.file_offset = 0) && looks_like_libc m.path) = true ↔ Candidate m := by
  rw [Bool.and_eq_true, decide_eq_true_eq, looks_like_libc_iff]
  rfl

instance : DecidablePred Candidate := fun _ => decidable_of_iff _ candidate_iff

/-- The first segment that contains an address, with no segment in front of it
    whose end does not fit. -/
def FirstSegment (headers : List Image.ProgramHeader) (addr : UInt64) (ph : Image.ProgramHeader) : Prop :=
  ∃ before after, headers = before ++ ph :: after ∧ Contains addr ph ∧ ¬ Overflows ph ∧
    ∀ other ∈ before, ¬ Contains addr other ∧ ¬ Overflows other

/-- The page at an address: what the file has of its segment from there on, up to the window. -/
def PageAt (core : Image.Elf) (start : UInt64) (page : List UInt8) : Prop :=
  ∃ ph, FirstSegment core.program_headers start ph ∧ ∃ holder,
    let len := min (ph.p_vaddr.toNat + ph.p_filesz.toNat - start.toNat) IDENTITY_WINDOW
    FirstHolder core.data.bytes start len core.program_headers holder ∧
      page = file_bytes core.data.bytes start len holder

/-- A page has an identity. -/
def HasIdentity (sha256 : List UInt8 → List UInt8) (page : List UInt8) : Identity → Prop
  | .BuildId id => build_id_from_raw_buffer page = some id
  | .ContentHash hash => sha256 page = hash

/-- A mapping whose page has the identity that is wanted. -/
def Recognised (sha256 : List UInt8 → List UInt8) (core : Image.Elf) (want : Identity) (m : MappedFile) : Prop :=
  ∃ page, PageAt core m.start page ∧ HasIdentity sha256 page want

/-- The bounds of an address are those of the first segment that contains it. -/
theorem bounds_from_eq_some {headers : List Image.ProgramHeader} {addr low high : UInt64} :
    bounds_from addr headers = some (low, high) ↔ ∃ ph, FirstSegment headers addr ph ∧ low = ph.p_vaddr ∧
      high.toNat = ph.p_vaddr.toNat + ph.p_filesz.toNat := by
  induction headers with
  | nil =>
    constructor
    · intro found
      cases found
    · rintro ⟨ph, ⟨before, after, split, _⟩, _⟩
      simp at split
  | cons ph rest ih =>
    by_cases overflows : Overflows ph
    · rw [bounds_from_stuck overflows]
      constructor
      · intro found
        cases found
      · rintro ⟨other, ⟨before, after, split, _, fits, others⟩, _⟩
        cases before with
        | nil =>
          obtain ⟨rfl, _⟩ := List.cons.inj split
          exact absurd overflows fits
        | cons first before =>
          obtain ⟨rfl, _⟩ := List.cons.inj split
          exact absurd overflows (others ph List.mem_cons_self).2
    by_cases contains : Contains addr ph
    · obtain ⟨stop, own, isStop⟩ := @bounds_from_found addr ph rest overflows contains
      rw [own, Option.some.injEq, Prod.mk.injEq]
      constructor
      · rintro ⟨rfl, rfl⟩
        exact ⟨ph, ⟨[], rest, rfl, contains, overflows, by simp⟩, rfl, isStop⟩
      · rintro ⟨other, ⟨before, after, split, _, _, others⟩, isLow, isHigh⟩
        cases before with
        | nil =>
          obtain ⟨rfl, _⟩ := List.cons.inj split
          exact ⟨isLow.symm, UInt64.toNat_inj.mp (isStop.trans isHigh.symm)⟩
        | cons first before =>
          obtain ⟨rfl, _⟩ := List.cons.inj split
          exact absurd contains (others ph List.mem_cons_self).1
    · rw [bounds_from_skip overflows contains, ih]
      refine exists_congr fun other => and_congr_left fun _ => ?_
      constructor
      · rintro ⟨before, after, rfl, inside, fits, others⟩
        exact ⟨ph :: before, after, rfl, inside, fits, List.forall_mem_cons.mpr ⟨⟨contains, overflows⟩, others⟩⟩
      · rintro ⟨before, after, split, inside, fits, others⟩
        cases before with
        | nil =>
          obtain ⟨rfl, _⟩ := List.cons.inj split
          exact absurd inside contains
        | cons first before =>
          obtain ⟨rfl, rfl⟩ := List.cons.inj split
          exact ⟨before, after, rfl, inside, fits, (List.forall_mem_cons.mp others).2⟩

theorem FirstSegment.bounds {headers : List Image.ProgramHeader} {addr : UInt64} {ph : Image.ProgramHeader}
    (first : FirstSegment headers addr ph) :
    ∃ high, bounds_from addr headers = some (ph.p_vaddr, high) ∧ high.toNat = ph.p_vaddr.toNat + ph.p_filesz.toNat := by
  have fits : ph.p_vaddr.toNat + ph.p_filesz.toNat < 2 ^ 64 := by
    obtain ⟨_, _, _, contains, fits, _⟩ := first
    exact not_le.mp fun wide => fits ⟨contains.load, wide⟩
  have isHigh := UInt64.toNat_ofNat_of_lt' fits
  exact ⟨_, bounds_from_eq_some.mpr ⟨ph, first, rfl, isHigh⟩, isHigh⟩

private theorem pageAt_iff {core : Image.Elf} {start : UInt64} {page : List UInt8} :
    PageAt core start page ↔ ∃ low high, core.segment_bounds start = some (low, high) ∧
      core.read_bytes start (min (saturating_sub high start).toNat IDENTITY_WINDOW) = .ok page := by
  have small : ∀ n, min n IDENTITY_WINDOW < 2 ^ 64 := by
    intro n
    unfold IDENTITY_WINDOW
    omega
  have left : ∀ {ph : Image.ProgramHeader} {high : UInt64}, FirstSegment core.program_headers start ph →
      high.toNat = ph.p_vaddr.toNat + ph.p_filesz.toNat →
      (saturating_sub high start).toNat = ph.p_vaddr.toNat + ph.p_filesz.toNat - start.toNat := by
    intro ph high first isHigh
    obtain ⟨_, _, _, contains, _⟩ := first
    have le : start ≤ high := UInt64.le_iff_toNat_le.mpr (isHigh ▸ contains.ends.le)
    rw [saturating_sub, if_pos le, UInt64.toNat_sub_of_le _ _ le, isHigh]
  unfold PageAt Elf.segment_bounds
  simp only [read_bytes_eq_ok (small _)]
  constructor
  · rintro ⟨ph, first, holder, holds, isPage⟩
    obtain ⟨high, found, isHigh⟩ := first.bounds
    rw [← left first isHigh] at holds isPage
    exact ⟨_, high, found, holder, holds, isPage⟩
  · rintro ⟨low, high, found, holder, holds, isPage⟩
    obtain ⟨ph, first, _, isHigh⟩ := bounds_from_eq_some.mp found
    rw [left first isHigh] at holds isPage
    exact ⟨ph, first, holder, holds, isPage⟩

private theorem identity_matches_iff {sha256 : List UInt8 → List UInt8} {core : Image.Elf} {want : Identity}
    {m : MappedFile} :
    identity_matches sha256 core m.start want = true ↔ Recognised sha256 core want m := by
  unfold identity_matches Recognised
  simp only [pageAt_iff]
  cases core.segment_bounds m.start with
  | none => simp
  | some range =>
    obtain ⟨low, high⟩ := range
    simp only [Option.some.injEq, Prod.mk.injEq]
    generalize isRead : core.read_bytes m.start (min (saturating_sub high m.start).toNat IDENTITY_WINDOW) = read
    have bounded : ∀ page, (∃ low' high', (low = low' ∧ high = high') ∧
        core.read_bytes m.start (min (saturating_sub high' m.start).toNat IDENTITY_WINDOW) = .ok page) ↔
        read = .ok page := by
      intro page
      rw [← isRead]
      constructor
      · rintro ⟨_, _, ⟨rfl, rfl⟩, found⟩
        exact found
      · exact fun found => ⟨low, high, ⟨rfl, rfl⟩, found⟩
    simp only [bounded]
    cases read with
    | error e => simp
    | ok page => cases want <;> simp [HasIdentity]

/-! ## The choice -/

theorem mappings_eq_ok {core : Image.Elf} {mapped : List MappedFile} :
    mappings core = .ok mapped ↔ mapped_files (notes core) core.is_64 = .ok mapped := by
  unfold mappings
  cases mapped_files (notes core) core.is_64 <;> simp [Except.mapError]

/-- Mappings that do not parse are left out, without a failure. -/
theorem mappings_exist (core : Image.Elf) : ∃ mapped, mappings core = .ok mapped := by
  simp only [mappings_eq_ok]
  unfold mapped_files
  cases (notes core).find? fun n => n.note_type = NT_FILE with
  | none => exact ⟨_, rfl⟩
  | some note =>
    simp only
    cases read_word note.desc 0 core.is_64 with
    | none => exact ⟨_, rfl⟩
    | some count => exact ⟨_, rfl⟩

section
variable {sha256 : List UInt8 → List UInt8} {core : Image.Elf} {want : Identity} {mapped : List MappedFile}

theorem candidate_found {m : MappedFile} :
    (libc_candidates mapped).find? (fun m => identity_matches sha256 core m.start want) = some m ↔
      LowestMatch (·.start.toNat) (fun m => Candidate m ∧ Recognised sha256 core want m) mapped m := by
  unfold libc_candidates
  rw [find?_sort_by_key, lowestMatch_filter]
  exact lowestMatch_congr fun m => and_congr candidate_iff identity_matches_iff

private theorem candidate_missed :
    (libc_candidates mapped).find? (fun m => identity_matches sha256 core m.start want) = none ↔
      ∀ m ∈ mapped, ¬ (Candidate m ∧ Recognised sha256 core want m) := by
  rw [List.find?_eq_none]
  unfold libc_candidates sort_by_key
  simp only [List.mem_mergeSort, List.mem_filter, candidate_iff, identity_matches_iff, and_imp, not_and]

/-- A mapping of a path, from the front of its file. -/
def OfPath (path : String) (m : MappedFile) : Prop :=
  m.file_offset = 0 ∧ strip_deleted m.path = strip_deleted path

theorem forced_found {path : String} {m : MappedFile} :
    force_select mapped path = some m ↔ LowestMatch (·.start.toNat) (OfPath path) mapped m := by
  unfold force_select
  rw [argmin_filter_eq_some]
  exact lowestMatch_congr fun m => decide_eq_true_iff

end

/-- The program headers of an ELF as its notes are read. -/
def noteHeaders (elf : Image.Elf) : List BuildId.ProgramHeader :=
  elf.program_headers.map Image.ProgramHeader.toProgramHeader

/-- A page shows a reference: it is the front of its file, with the program headers
    and the segment that has the build-id. -/
structure Shows (reference : Image.Elf) (page : Buffer) : Prop where
  mapped : Mapped reference.data page reference.is_64 (noteHeaders reference)
  whole : ∀ before ph, FoundAt reference.data.bytes (noteHeaders reference) before ph → InView page.bytes ph

/-- Every `PT_NOTE` segment in front of the one with the build-id is in the page. -/
def NotesInPage (reference : Image.Elf) (page : Buffer) : Prop :=
  Unblocked reference.data.bytes page.bytes (noteHeaders reference)

/-- Of a table in view the raw reader decodes the fields that the search uses. -/
theorem raw_buffer_eq_search {f w : Buffer} {is_64 : Bool} {headers : List BuildId.ProgramHeader}
    (mapped : Mapped f w is_64 headers) : build_id_from_raw_buffer w.bytes = search w.bytes headers := by
  obtain ⟨front, header, isClass, entsize, e_phoff, e_phnum, readOff, readNum, table, count, decodes⟩ := mapped
  have fields := header_fields is_64
  have entry : (UInt16.ofNat (phdr_size is_64)).toNat = phdr_size is_64 := by cases is_64 <;> rfl
  have inView : ∀ j (inside : j < headers.length),
      program_header w.bytes is_64 (e_phoff.toNat + (0 + j) * phdr_size is_64) = some headers[j] := by
    intro j inside
    have upTo : (j + 1) * phdr_size is_64 ≤ e_phnum.toNat * phdr_size is_64 := Nat.mul_le_mul_right _ (by omega)
    rw [Nat.succ_mul] at upTo
    rw [Nat.zero_add]
    exact program_header_in_view front (decodes j inside) (by omega)
  have run := raw_from_eq_search is_64 headers 0 inView
  rw [count, ← List.range_eq_range'] at run
  simp only [build_id_from_raw_buffer, Option.bind_eq_bind, elf_class_of_prefix front header isClass,
    read_word_in_prefix front readOff (by omega), read_u16_le_in_prefix front entsize (by omega),
    read_u16_le_in_prefix front readNum (by omega), Option.bind_some, entry, run]

section
variable {sha256 : List UInt8 → List UInt8} {reference : Image.Elf} {page : Buffer}

/-- A page that shows a reference has its identity unless a note segment is not in it. -/
theorem shown_identity (shows : Shows reference page) {id : List UInt8} (has : build_id (notes reference) = some id) :
    HasIdentity sha256 page.bytes (compute_identity sha256 reference) ↔ NotesInPage reference page := by
  have own : build_id (notes reference) = (noteHeaders reference).findSome? (idOf reference.data.bytes) :=
    build_id_walk_all_notes _ _
  have agrees := search_eq_iff shows.mapped.front (noteHeaders reference) shows.whole
  rw [← own, has, ← raw_buffer_eq_search shows.mapped] at agrees
  unfold compute_identity
  rw [has]
  exact agrees

private theorem pageAt_unique {core : Image.Elf} {start : UInt64} {one other : List UInt8} (isOne : PageAt core start one)
    (isOther : PageAt core start other) : one = other := by
  obtain ⟨low, high, found, read⟩ := pageAt_iff.mp isOne
  obtain ⟨low', high', found', read'⟩ := pageAt_iff.mp isOther
  obtain ⟨rfl, rfl⟩ := Prod.mk.inj (Option.some.inj (found.symm.trans found'))
  exact Except.ok.inj (read.symm.trans read')

/-- A mapping that shows the reference is recognised unless a note segment is not in its page. -/
theorem shown_recognised {core : Image.Elf} {m : MappedFile} (shown : PageAt core m.start page.bytes)
    (shows : Shows reference page) {id : List UInt8} (has : build_id (notes reference) = some id) :
    Recognised sha256 core (compute_identity sha256 reference) m ↔ NotesInPage reference page := by
  rw [← @shown_identity sha256 _ _ shows _ has]
  constructor
  · rintro ⟨other, isPage, identity⟩
    rwa [pageAt_unique shown isPage]
  · exact fun identity => ⟨_, shown, identity⟩

end

section
variable {sha256 : List UInt8 → List UInt8} {core : Image.Elf} {want : Identity} {mapped : List MappedFile}

private theorem recognised_located (listed : mapped_files (notes core) core.is_64 = .ok mapped) {m : MappedFile}
    (member : m ∈ mapped) (candidate : Candidate m) (recognised : Recognised sha256 core want m) :
    ∃ o ∈ mapped, Candidate o ∧ Recognised sha256 core want o ∧ o.start ≤ m.start ∧
      NtFileLocator.locate sha256 core want = .ok ⟨o.start, strip_deleted o.path, true⟩ := by
  cases found : (libc_candidates mapped).find? fun m => identity_matches sha256 core m.start want with
  | none => exact absurd ⟨candidate, recognised⟩ (candidate_missed.mp found m member)
  | some o =>
    have chosen := candidate_found.mp found
    refine ⟨o, chosen.mem, chosen.has.1, chosen.has.2, ?_, ?_⟩
    · exact UInt64.le_iff_toNat_le.mpr (chosen.least m member ⟨candidate, recognised⟩)
    · simp only [NtFileLocator.locate, mappings_eq_ok.mpr listed, bind, Except.bind, found]

private theorem located_recognised (listed : mapped_files (notes core) core.is_64 = .ok mapped) {found : LocatedLibc}
    (located : NtFileLocator.locate sha256 core want = .ok found) :
    ∃ o ∈ mapped, Candidate o ∧ Recognised sha256 core want o ∧ found = ⟨o.start, strip_deleted o.path, true⟩ := by
  simp only [NtFileLocator.locate, mappings_eq_ok.mpr listed, bind, Except.bind] at located
  cases first : (libc_candidates mapped).find? fun m => identity_matches sha256 core m.start want with
  | none =>
    rw [first] at located
    cases located
  | some o =>
    rw [first] at located
    have chosen := candidate_found.mp first
    exact ⟨o, chosen.mem, chosen.has.1, chosen.has.2, (Except.ok.inj located).symm⟩

end

/-- Where a reference with a build-id is mapped and shown, it is recognised exactly
    if no note segment in front of its build-id is outside of the page: then it is
    found there or below, and if no other mapping is recognised it is found or
    missed by that alone. -/
theorem reference_located_iff (sha256 : List UInt8 → List UInt8) (core reference : Image.Elf) (mapped : List MappedFile)
    (listed : mapped_files (notes core) core.is_64 = .ok mapped) (m : MappedFile) (member : m ∈ mapped)
    (candidate : Candidate m) (page : Buffer) (shown : PageAt core m.start page.bytes) (shows : Shows reference page)
    (id : List UInt8) (has : build_id (notes reference) = some id) :
    (NotesInPage reference page → ∃ found,
      NtFileLocator.locate sha256 core (compute_identity sha256 reference) = .ok found ∧
        found.load_addr ≤ m.start) ∧
    ((∀ o ∈ mapped, Candidate o → Recognised sha256 core (compute_identity sha256 reference) o → o.start = m.start) →
      ((∃ path, NtFileLocator.locate sha256 core (compute_identity sha256 reference) = .ok ⟨m.start, path, true⟩) ↔
        NotesInPage reference page)) := by
  have own : Recognised sha256 core (compute_identity sha256 reference) m ↔ NotesInPage reference page :=
    shown_recognised shown shows has
  rw [← own]
  constructor
  · intro recognised
    obtain ⟨o, _, _, _, below, located⟩ := recognised_located listed member candidate recognised
    exact ⟨_, located, below⟩
  · intro only
    constructor
    · rintro ⟨path, located⟩
      obtain ⟨o, _, _, ⟨other, isPage, identity⟩, same⟩ := located_recognised listed located
      have isStart : m.start = o.start := congrArg LocatedLibc.load_addr same
      exact ⟨other, isStart ▸ isPage, identity⟩
    · intro recognised
      obtain ⟨o, isMapped, isCandidate, isRecognised, _, located⟩ :=
        recognised_located listed member candidate recognised
      rw [only o isMapped isCandidate isRecognised] at located
      exact ⟨_, located⟩

/-- A reference whose build-id is in the first of its notes. -/
def small_reference : Image.Elf where
  is_64 := true
  program_headers := [⟨⟨4, 176, 20⟩, 0⟩, ⟨⟨4, 196, 4⟩, 0⟩]
  data := id_first

/-- A core that has its first bytes, and lists the mapping. -/
def small_mapping : MappedFile := ⟨0x7000, 0x8000, 0, "/lib/libc.so.6 (deleted)"⟩

def core_with_reference : Image.Elf where
  is_64 := true
  program_headers := [⟨⟨PT_NOTE, 0, 88⟩, 0⟩, ⟨⟨PT_LOAD, 88, 196⟩, 0x7000⟩]
  data := ⟨Notes.record ⟨"CORE", NT_FILE, encode true 0x1000 [small_mapping]⟩ ++ id_first_mapped.bytes, by decide +kernel⟩

theorem small_reference_located : ∃ path, NtFileLocator.locate (fun _ => []) core_with_reference
    (compute_identity (fun _ => []) small_reference) = .ok ⟨0x7000, path, true⟩ := by
  have own : idOf id_first.bytes ⟨4, 176, 20⟩ ≠ none := by decide +kernel
  have shows : Shows small_reference id_first_mapped :=
    ⟨⟨List.prefix_append _ _, by decide +kernel, by decide +kernel, by decide +kernel, 64, 2, by decide +kernel,
      by decide +kernel, by decide +kernel, rfl, by decide +kernel⟩, fun before ph found => by
        obtain rfl := foundAt_first own found
        obtain ⟨⟨back, split⟩, _⟩ := found
        obtain ⟨rfl, _⟩ := List.cons.inj split
        exact ⟨Notes.record ⟨"GNU", 3, [1, 2, 3, 4]⟩, by decide +kernel⟩⟩
  have inPage : NotesInPage small_reference id_first_mapped := by
    intro before ph found other member
    rw [foundAt_first own found] at member
    cases member
  have shown : PageAt core_with_reference 0x7000 id_first_mapped.bytes :=
    pageAt_iff.mpr ⟨0x7000, 0x70c4, by decide +kernel, by decide +kernel⟩
  exact ((reference_located_iff (fun _ => []) core_with_reference small_reference [small_mapping] (by decide +kernel)
    small_mapping List.mem_cons_self (candidate_iff.mp (by decide +kernel)) id_first_mapped shown shows [1, 2, 3, 4]
    (by decide +kernel)).2 (fun o member _ _ => by rw [List.mem_singleton.mp member])).mpr inPage

end HeapAnalyser.Locate
