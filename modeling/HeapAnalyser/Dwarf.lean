import HeapAnalyser.Machine
import HeapAnalyser.Checks

/-!
The malloc layout that debuginfo describes (`glibc/dwarf.rs`, from the index of
candidate structures on): each target's candidates are validated one by one,
the valid ones have to agree (`select`), and what they agree on is narrowed to
`u32` offsets (`assemble_layout`). The maps of the index, from which nothing but
one target's entry is ever read, are functions.
-/
namespace HeapAnalyser.Dwarf
open Machine Checks

def MAX_STRUCT_SIZE : UInt64 := 1024 * 1024
def MAX_FIELD_OFFSET : UInt64 := 1024 * 1024
def MAX_ARRAY_BYTES : UInt64 := 1024 * 1024
def MAX_FASTBINS : UInt64 := 256
def MAX_TCACHE_BINS : UInt64 := 1024

structure DwarfLayout where
  malloc_state_size : UInt32
  fastbin_array_offset : UInt32
  fastbin_count : UInt32
  malloc_state_top_offset : UInt32
  malloc_state_next_offset : UInt32
  mp_arena_max_offset : Option UInt32
  mp_sbrk_base_offset : UInt32
  mp_tcache_bins_offset : Option UInt32
  heap_info_size : UInt32
  heap_info_ar_ptr_offset : UInt32
  heap_info_prev_offset : UInt32
  heap_info_size_offset : UInt32
  heap_info_mprotect_size_offset : UInt32
  tcache_entries_offset : Option UInt32
  tcache_max_bins : Option UInt32
  deriving Repr, DecidableEq

inductive DwarfLayoutError where
  | Unavailable
  | Unsupported (feature : String)
  | Limit (resource : String)
  | Invalid (reason : String)
  | Parse (reason : String)
  deriving Repr, DecidableEq

inductive Target where
  | MallocState
  | MallocPar
  | HeapInfo
  | Tcache
  deriving Repr, DecidableEq

def Target.name : Target → String
  | MallocState => "malloc_state"
  | MallocPar => "malloc_par"
  | HeapInfo => "heap_info"
  | Tcache => "tcache_perthread_struct"

inductive TypeKind where
  | Pointer
  | Unsigned
  | Signed
  | Array
  | Structure
  | Other
  deriving Repr, DecidableEq

structure TypeInfo where
  kind : TypeKind
  byte_size : Option UInt64
  element_kind : Option TypeKind
  element_size : Option UInt64
  element_count : Option UInt64
  deriving Repr, DecidableEq

structure Member where
  name : String
  offset : UInt64
  ty : TypeInfo
  deriving Repr, DecidableEq

structure Structure where
  byte_size : UInt64
  members : List Member
  deriving Repr, DecidableEq

structure TypeIndex where
  candidates : Target → Option (List Structure)
  errors : Target → Option DwarfLayoutError

def invalid {α : Type} (reason : String) : Except DwarfLayoutError α := .error (.Invalid reason)

def required_member (struct : Structure) (name : String) : Except DwarfLayoutError Member :=
  match struct.members.filter fun member => member.name = name with
  | [] => invalid ("missing required member " ++ name)
  | [member] => .ok member
  | _ => invalid ("member " ++ name ++ " is ambiguous")

def field_range (member : Member) (struct_size : UInt64) : Except DwarfLayoutError Unit := do
  let size ← ok_or member.ty.byte_size (.Invalid (member.name ++ " has no byte size"))
  let stop ← ok_or (checked_add member.offset size) (.Limit "field range")
  refuse (size = 0 ∨ MAX_FIELD_OFFSET < member.offset ∨ struct_size < stop)
    (.Invalid (member.name ++ " is outside its structure"))

/-- What `pointer` and `unsigned_word` check, each for its kind. -/
def word_member (member : Member) (struct_size word : UInt64) (kind : TypeKind) (reason : String) :
    Except DwarfLayoutError Unit := do
  field_range member struct_size
  refuse (member.ty.kind ≠ kind ∨ member.ty.byte_size ≠ some word ∨ member.offset % word ≠ 0)
    (.Invalid (member.name ++ reason))

def pointer (member : Member) (struct_size word : UInt64) : Except DwarfLayoutError Unit :=
  word_member member struct_size word .Pointer " is not a word-aligned pointer"

def unsigned_word (member : Member) (struct_size word : UInt64) : Except DwarfLayoutError Unit :=
  word_member member struct_size word .Unsigned " is not a word-aligned unsigned integer"

def optional_word_member (struct : Structure) (name : String) (word : UInt64) :
    Except DwarfLayoutError (Option UInt64) :=
  match struct.members.filter fun member => member.name = name with
  | [] => .ok none
  | [member] => do
    unsigned_word member struct.byte_size word
    return some member.offset
  | _ => invalid ("member " ++ name ++ " is ambiguous")

/-- The width and the number of the elements. -/
def array (member : Member) (struct_size : UInt64) (kind : TypeKind) (expected_width : Option UInt64) :
    Except DwarfLayoutError (UInt64 × UInt64) := do
  field_range member struct_size
  refuse (member.ty.kind ≠ .Array ∨ member.ty.element_kind ≠ some kind)
    (.Invalid (member.name ++ " has the wrong array element type"))
  let width ← ok_or member.ty.element_size (.Invalid (member.name ++ " has no element size"))
  let count ← ok_or member.ty.element_count (.Invalid (member.name ++ " has no element count"))
  refuse (width = 0 ∨ count = 0 ∨ expected_width.any fun expected => expected ≠ width)
    (.Invalid (member.name ++ " has an invalid array shape"))
  let bytes ← ok_or (checked_mul width count) (.Limit "array byte size")
  refuse (MAX_ARRAY_BYTES < bytes ∨ member.ty.byte_size ≠ some bytes)
    (.Invalid (member.name ++ " array byte size is inconsistent"))
  return (width, count)

def pointer_array (member : Member) (struct_size word : UInt64) : Except DwarfLayoutError (UInt64 × UInt64) :=
  array member struct_size .Pointer (some word)

def integer_array (member : Member) (struct_size : UInt64) : Except DwarfLayoutError (UInt64 × UInt64) :=
  match member.ty.element_kind with
  | some .Unsigned => array member struct_size .Unsigned none
  | some .Signed => array member struct_size .Signed none
  | _ => invalid (member.name ++ " is not an integer array")

/-- The inner loop of `no_overlap`. -/
def no_overlap_with (left : Member) : List Member → Except DwarfLayoutError Unit
  | [] => .ok ()
  | right :: rest =>
    let left_end := saturating_add left.offset (left.ty.byte_size.getD 0)
    let right_end := saturating_add right.offset (right.ty.byte_size.getD 0)
    if left.offset < right_end ∧ right.offset < left_end then
      invalid (left.name ++ " and " ++ right.name ++ " overlap")
    else no_overlap_with left rest

def no_overlap : List Member → Except DwarfLayoutError Unit
  | [] => .ok ()
  | left :: rest => do
    no_overlap_with left rest
    no_overlap rest

def validate_struct_size (size : UInt64) (word : UInt8) : Except DwarfLayoutError Unit :=
  refuse (size = 0 ∨ MAX_STRUCT_SIZE < size ∨ ¬ (word.toUInt64 = 4 ∨ word.toUInt64 = 8) ∨ size % word.toUInt64 ≠ 0)
    (.Invalid "structure size is zero, unaligned, or over the limit")

def checked_u32 (value : UInt64) (field : String) : Except DwarfLayoutError UInt32 :=
  if value.toNat < 2 ^ 32 then .ok value.toUInt32 else invalid (field ++ " does not fit u32")

structure MallocStateLayout where
  size : UInt64
  fastbins : UInt64
  fastbin_count : UInt64
  top : UInt64
  next : UInt64
  deriving Repr, DecidableEq

def validate_malloc_state (struct : Structure) (word : UInt64) : Except DwarfLayoutError MallocStateLayout := do
  let fastbins ← required_member struct "fastbinsY"
  let (_, fastbin_count) ← pointer_array fastbins struct.byte_size word
  refuse (fastbin_count = 0 ∨ MAX_FASTBINS < fastbin_count) (.Invalid "fastbinsY element count is out of range")
  let top ← required_member struct "top"
  pointer top struct.byte_size word
  let next ← required_member struct "next"
  pointer next struct.byte_size word
  no_overlap [fastbins, top, next]
  return ⟨struct.byte_size, fastbins.offset, fastbin_count, top.offset, next.offset⟩

structure MallocParLayout where
  arena_max : Option UInt64
  sbrk_base : UInt64
  tcache_bins : Option UInt64
  deriving Repr, DecidableEq

def validate_malloc_par (struct : Structure) (word : UInt64) : Except DwarfLayoutError MallocParLayout := do
  let sbrk_base ← required_member struct "sbrk_base"
  pointer sbrk_base struct.byte_size word
  let arena_max ← optional_word_member struct "arena_max" word
  let tcache_bins ← optional_word_member struct "tcache_bins" word
  return ⟨arena_max, sbrk_base.offset, tcache_bins⟩

structure HeapInfoLayout where
  size : UInt64
  ar_ptr : UInt64
  prev : UInt64
  current_size : UInt64
  mprotect_size : UInt64
  deriving Repr, DecidableEq

def validate_heap_info (struct : Structure) (word : UInt64) : Except DwarfLayoutError HeapInfoLayout := do
  let ar_ptr ← required_member struct "ar_ptr"
  pointer ar_ptr struct.byte_size word
  let prev ← required_member struct "prev"
  pointer prev struct.byte_size word
  let size ← required_member struct "size"
  unsigned_word size struct.byte_size word
  let mprotect_size ← required_member struct "mprotect_size"
  unsigned_word mprotect_size struct.byte_size word
  no_overlap [ar_ptr, prev, size, mprotect_size]
  return ⟨struct.byte_size, ar_ptr.offset, prev.offset, size.offset, mprotect_size.offset⟩

structure TcacheLayout where
  entries : UInt64
  bins : UInt64
  deriving Repr, DecidableEq

def validate_tcache (struct : Structure) (word : UInt64) : Except DwarfLayoutError TcacheLayout := do
  let counts ← required_member struct "counts"
  let (count_width, count_bins) ← integer_array counts struct.byte_size
  refuse (¬ (count_width = 1 ∨ count_width = 2 ∨ count_width = 4 ∨ count_width = 8))
    (.Invalid "tcache counts uses an unsupported integer width")
  let entries ← required_member struct "entries"
  let (_, entry_bins) ← pointer_array entries struct.byte_size word
  refuse (count_bins = 0 ∨ count_bins ≠ entry_bins ∨ MAX_TCACHE_BINS < entry_bins)
    (.Invalid "tcache counts and entries dimensions differ or are out of range")
  no_overlap [counts, entries]
  return ⟨entries.offset, entry_bins⟩

/-- The loop of `select`: the distinct valid layouts in order, and the first error. -/
def select_from {T : Type} [DecidableEq T] (validate : Structure → Except DwarfLayoutError T) :
    List Structure → List T → Option DwarfLayoutError → List T × Option DwarfLayoutError
  | [], valid, first_error => (valid, first_error)
  | candidate :: rest, valid, first_error =>
    match validate candidate with
    | .ok value =>
      if value ∈ valid then select_from validate rest valid first_error
      else select_from validate rest (valid ++ [value]) first_error
    | .error error => select_from validate rest valid (some (first_error.getD error))

/-- The one layout that the valid candidates of a target agree on. -/
def select {T : Type} [DecidableEq T] (index : TypeIndex) (target : Target)
    (validate : Structure → Except DwarfLayoutError T) : Except DwarfLayoutError T :=
  match index.candidates target with
  | none => .error ((index.errors target).getD (.Invalid ("missing DWARF type " ++ target.name)))
  | some candidates =>
    match select_from validate candidates [] none with
    | ([value], _) => .ok value
    | ([], first_error) => .error (first_error.getD (.Invalid ("no usable " ++ target.name ++ " definition")))
    | _ => invalid ("ambiguous " ++ target.name ++ " definitions")

/-- The layout of the selected structures, the last expression of `assemble_layout`. -/
def narrow_layout (malloc_state : MallocStateLayout) (malloc_par : MallocParLayout) (heap_info : HeapInfoLayout)
    (tcache : Option TcacheLayout) : Except DwarfLayoutError DwarfLayout := do
  let malloc_state_size ← checked_u32 malloc_state.size "malloc_state size"
  let fastbin_array_offset ← checked_u32 malloc_state.fastbins "fastbinsY offset"
  let fastbin_count ← checked_u32 malloc_state.fastbin_count "fastbin count"
  let malloc_state_top_offset ← checked_u32 malloc_state.top "top offset"
  let malloc_state_next_offset ← checked_u32 malloc_state.next "next offset"
  let mp_arena_max_offset ← transpose (malloc_par.arena_max.map (checked_u32 · "arena_max offset"))
  let mp_sbrk_base_offset ← checked_u32 malloc_par.sbrk_base "sbrk_base offset"
  let mp_tcache_bins_offset ← transpose (malloc_par.tcache_bins.map (checked_u32 · "tcache_bins offset"))
  let heap_info_size ← checked_u32 heap_info.size "heap_info size"
  let heap_info_ar_ptr_offset ← checked_u32 heap_info.ar_ptr "ar_ptr offset"
  let heap_info_prev_offset ← checked_u32 heap_info.prev "prev offset"
  let heap_info_size_offset ← checked_u32 heap_info.current_size "size offset"
  let heap_info_mprotect_size_offset ← checked_u32 heap_info.mprotect_size "mprotect_size offset"
  let tcache_entries_offset ← transpose (tcache.map (checked_u32 ·.entries "tcache entries offset"))
  let tcache_max_bins ← transpose (tcache.map (checked_u32 ·.bins "tcache bin count"))
  return { malloc_state_size, fastbin_array_offset, fastbin_count, malloc_state_top_offset, malloc_state_next_offset,
           mp_arena_max_offset, mp_sbrk_base_offset, mp_tcache_bins_offset, heap_info_size, heap_info_ar_ptr_offset,
           heap_info_prev_offset, heap_info_size_offset, heap_info_mprotect_size_offset, tcache_entries_offset,
           tcache_max_bins }

def assemble_layout (index : TypeIndex) (word_size : UInt64) (require_tcache : Bool) :
    Except DwarfLayoutError DwarfLayout := do
  refuse (¬ (word_size = 4 ∨ word_size = 8)) (.Invalid "unsupported target word size")
  let malloc_state ← select index .MallocState (validate_malloc_state · word_size)
  let malloc_par ← select index .MallocPar (validate_malloc_par · word_size)
  let heap_info ← select index .HeapInfo (validate_heap_info · word_size)
  let tcache ← (if require_tcache then (select index .Tcache (validate_tcache · word_size)).map some else .ok none)
  narrow_layout malloc_state malloc_par heap_info tcache

end HeapAnalyser.Dwarf
