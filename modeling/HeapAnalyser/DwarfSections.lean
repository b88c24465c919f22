import HeapAnalyser.Dwarf
import HeapAnalyser.Image

/-!
The debuginfo sections that are loaded (`load_sections` of `glibc/dwarf.rs`):
stored as they are in the file, or expanded by zlib behind one of three headers.
Each is charged to a budget before it is expanded, with the size that its header
declares, and what comes out has that size. A run tells the decompressions that
it makes (`Loading`), each with every buffer it has held. So what is stored is
within the budget, and no decompression of a run holds more than one byte over
the declared size, whatever the decoder gives (`load_sections_bounded`).
-/
namespace HeapAnalyser.DwarfSections
open Machine Bytes Elf Checks Dwarf

def MAX_SECTION_BYTES : UInt64 := 64 * 1024 * 1024
def MAX_TOTAL_DWARF_BYTES : UInt64 := 256 * 1024 * 1024
def SHF_COMPRESSED : UInt64 := 0x800

/-- What `load_sections` uses of a section header, with the name that the string
    table has for it. -/
structure SectionHeader where
  name : Option String
  sh_flags : UInt64
  sh_offset : UInt64
  sh_size : UInt64
  deriving Repr, DecidableEq

/-- A parsed ELF with its section headers. -/
structure SectionedElf extends Image.Elf where
  section_headers : List SectionHeader

/-- What a zlib decoder gives for a payload: the bytes of its reads one after
    another, and behind them the end of the stream or an error. -/
structure Inflated where
  reads : List (List UInt8)
  error : Option String

/-- The code outside: the decoder, and whether the allocator has so many bytes. -/
structure Host where
  inflate : List UInt8 → Inflated
  try_reserve : Nat → Bool

/-- A decompression: the size that was declared, and every buffer it has held. -/
structure Expansion where
  declared : UInt64
  held : List (List UInt8)

/-- A part of a run: the decompressions it has made, and how it ends. -/
structure Loading (α : Type) where
  expansions : List Expansion
  result : Except DwarfLayoutError α

instance : Monad Loading where
  pure value := ⟨[], .ok value⟩
  bind run next :=
    match run.result with
    | .error error => ⟨run.expansions, .error error⟩
    | .ok value => ⟨run.expansions ++ (next value).expansions, (next value).result⟩

/-- A check decompresses nothing. -/
instance : MonadLift (Except DwarfLayoutError) Loading where
  monadLift checked := ⟨[], checked⟩

section
variable {α β : Type}

@[simp] theorem pure_result (value : α) : (pure value : Loading α).result = .ok value := rfl

@[simp] theorem pure_expansions (value : α) : (pure value : Loading α).expansions = [] := rfl

@[simp] theorem lift_result (checked : Except DwarfLayoutError α) : (liftM checked : Loading α).result = checked := rfl

@[simp] theorem lift_expansions (checked : Except DwarfLayoutError α) : (liftM checked : Loading α).expansions = [] := rfl

@[simp] theorem bind_result (run : Loading α) (next : α → Loading β) :
    (run >>= next).result = run.result >>= fun value => (next value).result := by
  cases run with
  | mk expansions result => cases result <;> rfl

private theorem mem_bind {run : Loading α} {next : α → Loading β} {expansion : Expansion} :
    expansion ∈ (run >>= next).expansions ↔
      expansion ∈ run.expansions ∨ ∃ value, run.result = .ok value ∧ expansion ∈ (next value).expansions := by
  cases run with
  | mk expansions result =>
    cases result with
    | error error => simp [bind]
    | ok value => simp [bind]

end

/-- `read_to_end` of the first `limit` bytes of a stream: every buffer it has
    held, and how it ends. -/
def read_to_end (error : Option String) : Nat → List UInt8 → List (List UInt8) → List (List UInt8) × Except String (List UInt8)
  | 0, held, _ => ([held], .ok held)
  | _ + 1, held, [] =>
    match error with
    | some e => ([held], .error e)
    | none => ([held], .ok held)
  | limit + 1, held, chunk :: rest =>
    if chunk = [] then ([held], .ok held)
    else
      let part := chunk.take (limit + 1)
      let run := read_to_end error (limit + 1 - part.length) (held ++ part) rest
      (held :: run.1, run.2)

/-- Reading a payload, up to a limit. -/
def reading (host : Host) (payload : List UInt8) (limit : Nat) : List (List UInt8) × Except String (List UInt8) :=
  read_to_end (host.inflate payload).error limit [] (host.inflate payload).reads

/-- Expand a payload, with one byte to spare to notice a size that is too small. -/
def decompress (host : Host) (payload : List UInt8) (declared : UInt64) : Loading (List UInt8) := do
  refuse (host.try_reserve declared.toNat = false) (DwarfLayoutError.Limit "section allocation")
  let limit ← ok_or (checked_add declared 1) (DwarfLayoutError.Limit "section bytes")
  let run := reading host payload limit.toNat
  ⟨[⟨declared, run.1⟩],
    match run.2 with
    | .error e => .error (.Parse ("zlib: " ++ e))
    | .ok output =>
      if output.length ≠ declared.toNat then invalid "decompressed size differs from section header" else .ok output⟩

/-- The declared size of a compressed section and the bytes behind its header. -/
def compressed_payload (is_64bit : Bool) (input : List UInt8) (legacy : Bool) :
    Except DwarfLayoutError (UInt64 × List UInt8) :=
  if legacy then
    if input.length < 12 ∨ input.take 4 ≠ [0x5a, 0x4c, 0x49, 0x42] then invalid "invalid legacy compressed section header"
    else .ok (UInt64.ofNat (number ((input.drop 4).take 8).reverse), input.drop 12)
  else if is_64bit then
    if input.length < 24 then invalid "short ELF64 compression header"
    else if number (input.take 4) ≠ 1 then .error (.Unsupported "non-zlib compression")
    else .ok (UInt64.ofNat (number ((input.drop 8).take 8)), input.drop 24)
  else
    if input.length < 12 then invalid "short ELF32 compression header"
    else if number (input.take 4) ≠ 1 then .error (.Unsupported "non-zlib compression")
    else .ok (UInt64.ofNat (number ((input.drop 4).take 4)), input.drop 12)

/-- The sections that types, names and members are decoded from. -/
def is_layout_section (name : String) : Bool :=
  name ∈ [".debug_abbrev", ".debug_addr", ".debug_info", ".debug_line", ".debug_line_str", ".debug_str",
    ".debug_str_offsets", ".debug_types"]

def legacy_compressed (name : String) : Bool := ".zdebug_".toList.isPrefixOf name.toList

/-- A `.zdebug_` name as a `.debug_` one. -/
def canonical_name (name : String) : String :=
  if legacy_compressed name then ".debug_" ++ String.ofList (name.toList.drop 8) else name

/-- Charge a section to the budget. -/
def reserve_section (total size : UInt64) : Except DwarfLayoutError UInt64 := do
  refuse (MAX_SECTION_BYTES < size) (.Limit "DWARF section bytes")
  let total ← ok_or (checked_add total size) (.Limit "total DWARF bytes")
  refuse (MAX_TOTAL_DWARF_BYTES < total) (.Limit "total DWARF bytes")
  return total

/-- The bytes of a section in the file. -/
def section_input (elf : SectionedElf) (header : SectionHeader) : Except DwarfLayoutError (List UInt8) := do
  let stop ← ok_or (checked_add_usize header.sh_offset.toNat header.sh_size.toNat) (.Limit "section range")
  ok_or (slice elf.data.bytes header.sh_offset.toNat stop) (.Invalid "section is outside ELF")

/-- A section is expanded. -/
def is_compressed (name : String) (header : SectionHeader) : Prop :=
  legacy_compressed name = true ∨ header.sh_flags &&& SHF_COMPRESSED ≠ 0

instance (name : String) (header : SectionHeader) : Decidable (is_compressed name header) :=
  inferInstanceAs (Decidable (_ ∨ _))

/-- The data of a section, expanded where it is compressed, and the budget behind it. -/
def section_data (host : Host) (elf : SectionedElf) (name : String) (header : SectionHeader) (total : UInt64) :
    Loading (List UInt8 × UInt64) := do
  let input ← section_input elf header
  if is_compressed name header then do
    let (declared, payload) ← compressed_payload elf.is_64 input (legacy_compressed name)
    let total ← reserve_section total declared
    let data ← decompress host payload declared
    return (data, total)
  else do
    let total ← reserve_section total header.sh_size
    return (input, total)

/-- The loop of `load_sections`. -/
def load_from (host : Host) (elf : SectionedElf) :
    List SectionHeader → UInt64 → List (String × List UInt8) → Loading (List (String × List UInt8))
  | [], _, sections => pure sections
  | header :: rest, total, sections =>
    match header.name with
    | none => load_from host elf rest total sections
    | some name =>
      if is_layout_section (canonical_name name) then do
        let (data, total) ← section_data host elf name header total
        if canonical_name name ∈ sections.map Prod.fst then liftM (invalid "duplicate canonical DWARF section")
        else load_from host elf rest total (sections ++ [(canonical_name name, data)])
      else load_from host elf rest total sections

/-- The run of `load_sections`. -/
def load_run (host : Host) (elf : SectionedElf) : Loading (List (String × List UInt8)) :=
  load_from host elf elf.section_headers 0 []

/-- The sections of the debuginfo by their canonical names. -/
def load_sections (host : Host) (elf : SectionedElf) : Except DwarfLayoutError (List (String × List UInt8)) :=
  (load_run host elf).result

/-! ## What is charged, and what is held -/

section
variable {host : Host} {elf : SectionedElf}

private theorem reserve_section_ok {total size after : UInt64} (reserved : reserve_section total size = .ok after) :
    after.toNat = total.toNat + size.toNat ∧ size.toNat ≤ MAX_SECTION_BYTES.toNat ∧
      after.toNat ≤ MAX_TOTAL_DWARF_BYTES.toNat := by
  simp only [reserve_section, bind_eq_ok, refuse_eq_ok, ok_or_eq_ok, checked_add_eq_some] at reserved
  obtain ⟨_, small, sum, isSum, _, within, same⟩ := reserved
  obtain rfl : sum = after := Except.ok.inj same
  exact ⟨isSum, UInt64.le_iff_toNat_le.mp (UInt64.not_lt.mp small), UInt64.le_iff_toNat_le.mp (UInt64.not_lt.mp within)⟩

/-- A read of up to `limit` bytes holds no more than these and what it held before. -/
theorem read_to_end_held (error : Option String) (limit : Nat) (held : List UInt8) (reads : List (List UInt8)) :
    ∀ buffer ∈ (read_to_end error limit held reads).1, buffer.length ≤ held.length + limit := by
  induction reads generalizing limit held with
  | nil =>
    intro buffer member
    have same : buffer = held := by
      cases limit with
      | zero => simpa [read_to_end] using member
      | succ limit => cases error <;> simpa [read_to_end] using member
    rw [same]
    omega
  | cons chunk rest ih =>
    cases limit with
    | zero =>
      intro buffer member
      obtain rfl : buffer = held := by simpa [read_to_end] using member
      omega
    | succ limit =>
      by_cases ended : chunk = []
      · intro buffer member
        obtain rfl : buffer = held := by simpa [read_to_end, ended] using member
        omega
      · rw [read_to_end, if_neg ended]
        intro buffer member
        rcases List.mem_cons.mp member with rfl | later
        · omega
        · have bound := ih _ _ buffer later
          have part : (chunk.take (limit + 1)).length ≤ limit + 1 := List.length_take_le _ _
          rw [List.length_append] at bound
          omega

/-- What is expanded has the declared size. -/
theorem decompress_length {payload output : List UInt8} {declared : UInt64}
    (expanded : (decompress host payload declared).result = .ok output) : output.length = declared.toNat := by
  simp only [decompress, bind_result, lift_result, bind_eq_ok] at expanded
  obtain ⟨_, _, limit, _, ended⟩ := expanded
  cases run : (reading host payload limit.toNat).2 with
  | error e => simp [run] at ended
  | ok bytes =>
    simp only [run] at ended
    by_cases wrong : bytes.length ≠ declared.toNat
    · simp [if_pos wrong, invalid] at ended
    · rw [if_neg wrong] at ended
      obtain rfl : bytes = output := Except.ok.inj ended
      exact not_not.mp wrong

private theorem section_input_length {header : SectionHeader} {input : List UInt8}
    (found : section_input elf header = .ok input) : input.length = header.sh_size.toNat := by
  simp only [section_input, bind_eq_ok, ok_or_eq_ok, checked_add_usize_eq_some] at found
  obtain ⟨stop, ⟨_, isStop⟩, inFile⟩ := found
  rw [slice_length inFile]
  omega

/-- A header contributes a section. -/
def contributes (header : SectionHeader) : Bool := header.name.any fun name => is_layout_section (canonical_name name)

/-- A stored section is the one of its header: the bytes of the file, `sh_size`
    of them, or what they expand to, as many as their header declares. -/
def Loaded (host : Host) (elf : SectionedElf) (header : SectionHeader) (entry : String × List UInt8) : Prop :=
  ∃ name input, header.name = some name ∧ entry.1 = canonical_name name ∧ section_input elf header = .ok input ∧
    (¬ is_compressed name header → entry.2 = input ∧ entry.2.length = header.sh_size.toNat) ∧
    (is_compressed name header → ∃ declared payload,
      compressed_payload elf.is_64 input (legacy_compressed name) = .ok (declared, payload) ∧
        (decompress host payload declared).result = .ok entry.2 ∧ entry.2.length = declared.toNat)

/-- The bytes of stored sections. -/
def stored_bytes (sections : List (String × List UInt8)) : Nat := (sections.map fun entry => entry.2.length).sum

/-- Stored sections that were charged `total` bytes. -/
structure Charged (total : UInt64) (sections : List (String × List UInt8)) : Prop where
  spent : total.toNat = stored_bytes sections
  within : stored_bytes sections ≤ MAX_TOTAL_DWARF_BYTES.toNat
  each : ∀ entry ∈ sections, entry.2.length ≤ MAX_SECTION_BYTES.toNat
  names : (sections.map Prod.fst).Nodup

/-- The data of a section is charged for, byte by byte, and is that of its header. -/
theorem section_data_ok {name : String} {header : SectionHeader} {total after : UInt64} {data : List UInt8}
    (named : header.name = some name) (loaded : (section_data host elf name header total).result = .ok (data, after)) :
    (after.toNat = total.toNat + data.length ∧ data.length ≤ MAX_SECTION_BYTES.toNat ∧
      after.toNat ≤ MAX_TOTAL_DWARF_BYTES.toNat) ∧ Loaded host elf header (canonical_name name, data) := by
  simp only [section_data, bind_result, lift_result, bind_eq_ok] at loaded
  obtain ⟨input, isInput, loaded⟩ := loaded
  by_cases compressed : is_compressed name header
  · simp only [if_pos compressed, bind_result, lift_result, pure_result, bind_eq_ok] at loaded
    obtain ⟨⟨declared, payload⟩, isPayload, sum, reserved, output, expanded, result⟩ := loaded
    obtain ⟨rfl, rfl⟩ := Prod.mk.inj (Except.ok.inj result)
    have length := decompress_length expanded
    refine ⟨?_, name, input, named, rfl, isInput, fun plain => absurd compressed plain, fun _ => ?_⟩
    · rw [length]
      exact reserve_section_ok reserved
    · exact ⟨declared, payload, isPayload, expanded, length⟩
  · simp only [if_neg compressed, bind_result, lift_result, pure_result, bind_eq_ok] at loaded
    obtain ⟨sum, reserved, result⟩ := loaded
    obtain ⟨rfl, rfl⟩ := Prod.mk.inj (Except.ok.inj result)
    have length := section_input_length isInput
    refine ⟨?_, name, input, named, rfl, isInput, fun _ => ⟨rfl, length⟩, fun is => absurd is compressed⟩
    rw [length]
    exact reserve_section_ok reserved

theorem Charged.store {total after : UInt64} {sections : List (String × List UInt8)} {name : String} {data : List UInt8}
    (charged : Charged total sections) (sum : after.toNat = total.toNat + data.length)
    (small : data.length ≤ MAX_SECTION_BYTES.toNat) (within : after.toNat ≤ MAX_TOTAL_DWARF_BYTES.toNat)
    (fresh : name ∉ sections.map Prod.fst) : Charged after (sections ++ [(name, data)]) := by
  have bytes : stored_bytes (sections ++ [(name, data)]) = stored_bytes sections + data.length := by
    simp [stored_bytes]
  have spent := charged.spent
  refine ⟨by omega, by omega, ?_, ?_⟩
  · intro entry member
    rcases List.mem_append.mp member with earlier | last
    · exact charged.each entry earlier
    · rw [List.mem_singleton.mp last]
      exact small
  · rw [List.map_append]
    apply charged.names.append (List.nodup_singleton _)
    intro other earlier last
    rw [List.mem_singleton.mp last] at earlier
    exact fresh earlier

/-- A header that does not contribute is passed over. -/
theorem load_from_silent {header : SectionHeader} {rest : List SectionHeader} {total : UInt64}
    {sections : List (String × List UInt8)} (silent : contributes header = false) :
    load_from host elf (header :: rest) total sections = load_from host elf rest total sections := by
  cases named : header.name with
  | none => simp only [load_from, named]
  | some name =>
    have unused : ¬ is_layout_section (canonical_name name) = true := by simpa [contributes, named] using silent
    simp only [load_from, named, if_neg unused]

/-- A header that contributes stores its section under a new name, and charges for it. -/
theorem load_from_stores {header : SectionHeader} {rest : List SectionHeader} {total : UInt64}
    {sections store : List (String × List UInt8)} (charged : Charged total sections)
    (contributing : contributes header = true)
    (loaded : (load_from host elf (header :: rest) total sections).result = .ok store) :
    ∃ after entry, Charged after (sections ++ [entry]) ∧ Loaded host elf header entry ∧
      (load_from host elf rest after (sections ++ [entry])).result = .ok store := by
  cases named : header.name with
  | none => simp [contributes, named] at contributing
  | some name =>
    have used : is_layout_section (canonical_name name) = true := by simpa [contributes, named] using contributing
    simp only [load_from, named, if_pos used, bind_result, bind_eq_ok] at loaded
    obtain ⟨⟨data, after⟩, isData, loaded⟩ := loaded
    obtain ⟨⟨isSum, small, within⟩, own⟩ := section_data_ok named isData
    by_cases again : canonical_name name ∈ sections.map Prod.fst
    · simp [if_pos again, invalid] at loaded
    simp only [if_neg again] at loaded
    exact ⟨after, (canonical_name name, data), charged.store isSum small within again, own, loaded⟩

/-- The loop keeps the budget, and stores one section for each header that contributes. -/
theorem load_from_charged (headers : List SectionHeader) {total : UInt64} {sections store : List (String × List UInt8)}
    (charged : Charged total sections) (loaded : (load_from host elf headers total sections).result = .ok store) :
    ∃ after added, Charged after store ∧ store = sections ++ added ∧
      List.Forall₂ (Loaded host elf) (headers.filter contributes) added := by
  induction headers generalizing total sections with
  | nil =>
    obtain rfl : sections = store := Except.ok.inj loaded
    exact ⟨total, [], charged, by simp, .nil⟩
  | cons header rest ih =>
    cases contributing : contributes header with
    | false =>
      rw [load_from_silent contributing] at loaded
      rw [List.filter_cons_of_neg (by simp [contributing])]
      exact ih charged loaded
    | true =>
      obtain ⟨spent, entry, isCharged, own, loaded⟩ := load_from_stores charged contributing loaded
      obtain ⟨after, added, storeCharged, isStore, later⟩ := ih isCharged loaded
      refine ⟨after, entry :: added, storeCharged, ?_, ?_⟩
      · rw [isStore, List.append_assoc, List.singleton_append]
      · rw [List.filter_cons_of_pos contributing]
        exact .cons own later

end

/-- The memory of sections that were loaded is within the budget. -/
structure WithinBudget (host : Host) (elf : SectionedElf) (store : List (String × List UInt8)) : Prop where
  each : ∀ entry ∈ store, entry.2.length ≤ MAX_SECTION_BYTES.toNat
  total : stored_bytes store ≤ MAX_TOTAL_DWARF_BYTES.toNat
  sizes : List.Forall₂ (Loaded host elf) (elf.section_headers.filter contributes) store
  names : (store.map Prod.fst).Nodup

/-- A decompression of a section of the file. It never holds more than the size
    that the section declares, and one byte. -/
structure Expanded (host : Host) (elf : SectionedElf) (expansion : Expansion) : Prop where
  declares : ∃ header ∈ elf.section_headers, ∃ name input payload, header.name = some name ∧
    section_input elf header = .ok input ∧
    compressed_payload elf.is_64 input (legacy_compressed name) = .ok (expansion.declared, payload) ∧
    expansion ∈ (decompress host payload expansion.declared).expansions
  held : ∀ buffer ∈ expansion.held, buffer.length ≤ expansion.declared.toNat + 1

section
variable {host : Host} {elf : SectionedElf} {expansion : Expansion}

private theorem decompress_held {payload : List UInt8} {declared : UInt64}
    (member : expansion ∈ (decompress host payload declared).expansions) :
    expansion.declared = declared ∧ ∀ buffer ∈ expansion.held, buffer.length ≤ declared.toNat + 1 := by
  simp only [decompress, mem_bind, lift_expansions, lift_result, ok_or_eq_ok, checked_add_eq_some] at member
  rcases member with none | ⟨_, _, none | ⟨limit, sum, own⟩⟩
  · simp at none
  · simp at none
  · rw [List.mem_singleton.mp own]
    refine ⟨rfl, ?_⟩
    intro buffer isHeld
    have bound := read_to_end_held _ _ _ _ buffer isHeld
    rw [List.length_nil, sum] at bound
    simpa using bound

private theorem section_data_expanded {name : String} {header : SectionHeader} {total : UInt64}
    (listed : header ∈ elf.section_headers) (named : header.name = some name)
    (member : expansion ∈ (section_data host elf name header total).expansions) : Expanded host elf expansion := by
  simp only [section_data, mem_bind, lift_expansions, lift_result] at member
  rcases member with none | ⟨input, isInput, member⟩
  · simp at none
  by_cases compressed : is_compressed name header
  · simp only [if_pos compressed, mem_bind, lift_expansions, lift_result, pure_expansions] at member
    rcases member with none | ⟨⟨declared, payload⟩, isPayload, none | ⟨_, _, own | ⟨_, _, none⟩⟩⟩
    · simp at none
    · simp at none
    · obtain ⟨rfl, held⟩ := decompress_held own
      exact ⟨⟨header, listed, name, input, payload, named, isInput, isPayload, own⟩, held⟩
    · simp at none
  · simp [if_neg compressed, mem_bind] at member

private theorem load_from_expanded (headers : List SectionHeader) (listed : headers ⊆ elf.section_headers)
    {total : UInt64}
    {sections : List (String × List UInt8)} (member : expansion ∈ (load_from host elf headers total sections).expansions) :
    Expanded host elf expansion := by
  induction headers generalizing total sections with
  | nil => simp [load_from] at member
  | cons header rest ih =>
    have later := List.subset_of_cons_subset listed
    cases named : header.name with
    | none =>
      simp only [load_from, named] at member
      exact ih later member
    | some name =>
      by_cases used : is_layout_section (canonical_name name) = true
      · simp only [load_from, named, if_pos used, mem_bind] at member
        rcases member with own | ⟨⟨data, after⟩, _, member⟩
        · exact section_data_expanded (listed List.mem_cons_self) named own
        · by_cases again : canonical_name name ∈ sections.map Prod.fst
          · simp [if_pos again] at member
          · rw [if_neg again] at member
            exact ih later member
      · simp only [load_from, named, if_neg used] at member
        exact ih later member

end

/-- No decompression of a run of `load_sections` holds more than its declared size
    and one byte. Where the sections are loaded, they are within the budget, each
    of its declared size, and no name is contributed twice. -/
theorem load_sections_bounded (host : Host) (elf : SectionedElf) :
    (∀ expansion ∈ (load_run host elf).expansions, Expanded host elf expansion) ∧
    ∀ store, load_sections host elf = .ok store → WithinBudget host elf store := by
  constructor
  · intro expansion member
    exact load_from_expanded elf.section_headers (List.Subset.refl _) member
  · intro store loaded
    have nothing : Charged 0 [] := ⟨rfl, by simp [stored_bytes], by simp, List.nodup_nil⟩
    obtain ⟨after, added, charged, isStore, sizes⟩ := load_from_charged elf.section_headers nothing loaded
    rw [List.nil_append] at isStore
    exact ⟨charged.each, charged.within, isStore ▸ sizes, charged.names⟩

/-- The five bytes of `DWARF` as a zlib stream of one stored block. -/
def stored_block : List UInt8 :=
  [0x78, 0x01, 0x01, 0x05, 0x00, 0xfa, 0xff, 0x44, 0x57, 0x41, 0x52, 0x46, 0x04, 0x62, 0x01, 0x75]

/-- A host with memory, whose decoder is given that stream. -/
def one_stream : Host where
  inflate payload := if payload = stored_block then ⟨[[0x44, 0x57], [0x41, 0x52, 0x46]], none⟩
    else ⟨[], some "corrupt deflate stream"⟩
  try_reserve _ := true

/-- A file with a plain and a legacy compressed section. -/
def two_sections : SectionedElf where
  is_64 := true
  program_headers := []
  data := ⟨[0x61, 0] ++ [0x5a, 0x4c, 0x49, 0x42, 0, 0, 0, 0, 0, 0, 0, 5] ++ stored_block, by decide⟩
  section_headers := [⟨some ".debug_str", 0, 0, 2⟩, ⟨some ".text", 0, 0, 0x1000⟩, ⟨some ".zdebug_info", 0, 2, 28⟩]

theorem load_sections_bounded_two : WithinBudget one_stream two_sections
    [(".debug_str", [0x61, 0]), (".debug_info", [0x44, 0x57, 0x41, 0x52, 0x46])] :=
  (load_sections_bounded one_stream two_sections).2 _ (by decide +kernel)

end HeapAnalyser.DwarfSections
