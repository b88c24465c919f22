import HeapAnalyser.Pipeline

/-!
The documents that are printed (`report/model.rs`, and the report of
`commands/check.rs`), as the values that are given to the JSON library: field
names are the schema, and a problem is an object with its kind in front. A
consumer that knows the schema reads the very same report from a value
(`reads_back`), so no two reports have one document (`serialize_injective`).
-/
namespace HeapAnalyser.Schema
open Report Analysis Pipeline

/-- A JSON value; every number of the documents is whole. -/
inductive Value where
  | null
  | bool (b : Bool)
  | number (n : Int)
  | string (s : String)
  | array (items : List Value)
  | object (members : List (String × Value))
  deriving Repr

/-- What `derive(Serialize)` makes of a type. -/
class Serialize (α : Type) where
  serialize : α → Value

export Serialize (serialize)

section
variable {α : Type} [Serialize α]

instance : Serialize UInt16 := ⟨fun n => .number n.toNat⟩
instance : Serialize UInt32 := ⟨fun n => .number n.toNat⟩
instance : Serialize UInt64 := ⟨fun n => .number n.toNat⟩
instance : Serialize Int32 := ⟨fun n => .number n.toInt⟩
instance : Serialize Bool := ⟨.bool⟩
instance : Serialize String := ⟨.string⟩
instance : Serialize (List α) := ⟨fun items => .array (items.map serialize)⟩

instance : Serialize (Option α) where
  serialize
    | none => .null
    | some value => serialize value

/-- A map from names, in their order. -/
instance : Serialize (List (String × α)) where
  serialize entries := .object (entries.map fun entry => (entry.1, serialize entry.2))

end

/-- A variant of an enum, as an object with its kind in front of its fields. -/
def tagged (kind : String) (fields : List (String × Value)) : Value := .object (("kind", .string kind) :: fields)

instance : Serialize HeapsSummary where
  serialize s := .object
    [("count", serialize s.count), ("total_bytes", serialize s.total_bytes),
      ("committed_bytes", serialize s.committed_bytes)]

instance : Serialize SizeBucket where
  serialize b := .object [("size", serialize b.size), ("count", serialize b.count), ("bytes", serialize b.bytes)]

instance : Serialize AllocatedSummary where
  serialize s := .object
    [("count", serialize s.count), ("bytes", serialize s.bytes), ("size_histogram", serialize s.size_histogram)]

instance : Serialize BinBucket where
  serialize b := .object
    [("index", serialize b.index), ("size", serialize b.size), ("count", serialize b.count),
      ("bytes", serialize b.bytes)]

instance : Serialize TcacheSummary where
  serialize s := .object [("tcache_threads", serialize s.tcache_threads), ("bins", serialize s.bins)]

instance : Serialize FreeSummary where
  serialize s := .object
    [("count", serialize s.count), ("bytes", serialize s.bytes), ("fastbins", serialize s.fastbins),
      ("tcache", serialize s.tcache), ("size_histogram", serialize s.size_histogram)]

instance : Serialize OverheadSummary where
  serialize s := .object [("count", serialize s.count), ("bytes", serialize s.bytes)]

instance : Serialize ArenaReport where
  serialize a := .object
    [("index", serialize a.index), ("is_main", serialize a.is_main),
      ("attached_threads", serialize a.attached_threads), ("heaps", serialize a.heaps),
      ("allocated", serialize a.allocated), ("free", serialize a.free), ("overhead", serialize a.overhead)]

instance : Serialize IdentityJson where
  serialize
    | .BuildId value => tagged "build_id" [("value", serialize value)]
    | .ContentHash value => tagged "content_hash" [("value", serialize value)]

instance : Serialize LibcInfo where
  serialize l := .object
    [("path", serialize l.path), ("identity", serialize l.identity), ("verified", serialize l.verified)]

instance : Serialize GlibcCapabilitiesJson where
  serialize c := .object
    [("layout_source", serialize c.layout_source), ("has_tcache", serialize c.has_tcache),
      ("has_safe_linking", serialize c.has_safe_linking), ("version_source", serialize c.version_source)]

instance : Serialize Problem where
  serialize
    | .MissingSymbol symbol => tagged "missing_symbol" [("symbol", serialize symbol)]
    | .DuplicateSymbol symbol => tagged "duplicate_symbol" [("symbol", serialize symbol)]
    | .MissingRelocation => tagged "missing_relocation" []
    | .UnsupportedArch machine => tagged "unsupported_arch" [("machine", serialize machine)]
    | .MissingBuildId => tagged "missing_build_id" []
    | .UnknownGlibcVersion => tagged "unknown_glibc_version" []
    | .DwarfLayoutFallback reason => tagged "dwarf_layout_fallback" [("reason", serialize reason)]
    | .FastbinCycleDetected arena bin_index =>
      tagged "fastbin_cycle_detected" [("arena", serialize arena), ("bin_index", serialize bin_index)]
    | .FastbinChunkReadFailed arena bin_index address =>
      tagged "fastbin_chunk_read_failed"
        [("arena", serialize arena), ("bin_index", serialize bin_index), ("address", serialize address)]
    | .TcacheCycleDetected thread_id bin_index =>
      tagged "tcache_cycle_detected" [("thread_id", serialize thread_id), ("bin_index", serialize bin_index)]
    | .TcacheChunkReadFailed thread_id bin_index address =>
      tagged "tcache_chunk_read_failed"
        [("thread_id", serialize thread_id), ("bin_index", serialize bin_index), ("address", serialize address)]
    | .DuplicateTcacheEntry thread_id bin_index address =>
      tagged "duplicate_tcache_entry"
        [("thread_id", serialize thread_id), ("bin_index", serialize bin_index), ("address", serialize address)]
    | .ChunkReadFailed arena address =>
      tagged "chunk_read_failed" [("arena", serialize arena), ("address", serialize address)]
    | .HeapWalkTruncated arena reason =>
      tagged "heap_walk_truncated" [("arena", serialize arena), ("reason", serialize reason)]
    | .StatsInconsistent arena size reason =>
      tagged "stats_inconsistent" [("arena", serialize arena), ("size", serialize size), ("reason", serialize reason)]
    | .ThreadTlsResolutionFailed thread_id =>
      tagged "thread_tls_resolution_failed" [("thread_id", serialize thread_id)]

instance : Serialize CoreReport where
  serialize r := .object
    [("schema_version", serialize r.schema_version), ("tool_version", serialize r.tool_version),
      ("core_path", serialize r.core_path), ("libc", serialize r.libc),
      ("glibc_capabilities", serialize r.glibc_capabilities), ("problems", serialize r.problems),
      ("arenas", serialize r.arenas)]

instance : Serialize SymbolJson where
  serialize s := .object [("present", serialize s.present), ("value", serialize s.value), ("size", serialize s.size)]

instance : Serialize CheckReport where
  serialize r := .object
    [("schema_version", serialize r.schema_version), ("tool_version", serialize r.tool_version),
      ("libc_path", serialize r.libc_path), ("arch", serialize r.arch), ("word_size", serialize r.word_size),
      ("identity", serialize r.identity), ("glibc_capabilities", serialize r.glibc_capabilities),
      ("supported", serialize r.supported), ("symbols", serialize r.symbols), ("problems", serialize r.problems)]

/-! ## Reading back -/

/-- A type that a consumer of the schema reads from a value, with what makes it right. -/
class Readable (α : Type) [Serialize α] where
  deserialize : Value → Option α
  reads_back : ∀ value, deserialize (serialize value) = some value

export Readable (deserialize reads_back)
attribute [simp] reads_back

private theorem mapM_map {α β : Type} {write : α → β} {read : β → Option α} (inverse : ∀ a, read (write a) = some a)
    (items : List α) : (items.map write).mapM read = some items := by
  induction items with
  | nil => rfl
  | cons a rest ih =>
    rw [List.map_cons, List.mapM_cons, inverse, ih]
    rfl

/-- A whole number from some range. -/
def number_in (low high : Int) : Value → Option Int
  | .number n => if low ≤ n ∧ n < high then some n else none
  | _ => none

private theorem number_in_number {low high n : Int} (inside : low ≤ n ∧ n < high) :
    number_in low high (.number n) = some n := if_pos inside

instance : Readable UInt16 where
  deserialize v := (number_in 0 (2 ^ 16) v).map fun n => UInt16.ofNat n.toNat
  reads_back n := by
    have bound := n.toNat_lt
    rw [serialize, instSerializeUInt16, number_in_number (by omega), Option.map_some, Int.toNat_natCast, UInt16.ofNat_toNat]

instance : Readable UInt32 where
  deserialize v := (number_in 0 (2 ^ 32) v).map fun n => UInt32.ofNat n.toNat
  reads_back n := by
    have bound := n.toNat_lt
    rw [serialize, instSerializeUInt32, number_in_number (by omega), Option.map_some, Int.toNat_natCast, UInt32.ofNat_toNat]

instance : Readable UInt64 where
  deserialize v := (number_in 0 (2 ^ 64) v).map fun n => UInt64.ofNat n.toNat
  reads_back n := by
    have bound := n.toNat_lt
    rw [serialize, instSerializeUInt64, number_in_number (by omega), Option.map_some, Int.toNat_natCast, UInt64.ofNat_toNat]

instance : Readable Int32 where
  deserialize v := (number_in (-2 ^ 31) (2 ^ 31) v).map Int32.ofInt
  reads_back n := by
    have low := n.le_toInt
    have high := n.toInt_lt
    rw [serialize, instSerializeInt32, number_in_number (by omega), Option.map_some, Int32.ofInt_toInt]

instance : Readable Bool where
  deserialize
    | .bool b => some b
    | _ => none
  reads_back _ := rfl

instance : Readable String where
  deserialize
    | .string s => some s
    | _ => none
  reads_back _ := rfl

section
variable {α : Type} [Serialize α] [Readable α]

instance : Readable (List α) where
  deserialize
    | .array items => items.mapM deserialize
    | _ => none
  reads_back items := mapM_map reads_back items

instance : Readable (List (String × α)) where
  deserialize
    | .object members => members.mapM fun entry => (deserialize entry.2).map fun value => (entry.1, value)
    | _ => none
  reads_back entries := by
    have inverse : ∀ entry : String × α, (deserialize (serialize entry.2)).map (fun value : α => (entry.1, value)) =
        some entry := fun entry => by rw [reads_back, Option.map_some]
    exact @mapM_map _ _ (fun entry : String × α => (entry.1, serialize entry.2)) _ inverse entries

/-- A value or `null`, which is no value of the type. -/
def deserialize_option : Value → Option (Option α)
  | .null => some none
  | v => (deserialize v).map some

private theorem reads_back_option (solid : ∀ value : α, serialize value ≠ .null) (value : Option α) :
    deserialize_option (serialize value) = some value := by
  cases value with
  | none => rfl
  | some value =>
    have own : deserialize (serialize value) = some value := reads_back value
    change deserialize_option (serialize value) = _
    unfold deserialize_option
    split
    · exact absurd ‹_› (solid value)
    · rw [own, Option.map_some]

/-- The member of an object by its name. -/
def member (name : String) : Value → Option Value
  | .object members => members.lookup name
  | _ => none

def read_member (α : Type) [Serialize α] [Readable α] (name : String) (v : Value) : Option α :=
  member name v >>= deserialize

@[simp] theorem read_member_head {name : String} {value : α} {rest : List (String × Value)} :
    read_member α name (.object ((name, serialize value) :: rest)) = some value := by
  rw [read_member, member, List.lookup_cons_self]
  exact reads_back value

@[simp] theorem read_member_tail {name other : String} {v : Value} {rest : List (String × Value)} (ne : name ≠ other) :
    read_member α name (.object ((other, v) :: rest)) = read_member α name (.object rest) := by
  rw [read_member, read_member, member, member, List.lookup_cons, beq_eq_false_iff_ne.mpr ne]

@[simp] theorem read_member_kind {kind : String} {fields : List (String × Value)} :
    read_member String "kind" (tagged kind fields) = some kind := rfl

@[simp] theorem read_member_tagged {name kind : String} {fields : List (String × Value)} (ne : name ≠ "kind") :
    read_member α name (tagged kind fields) = read_member α name (.object fields) := read_member_tail ne

end

instance : Readable HeapsSummary where
  deserialize v := do
    return ⟨← read_member _ "count" v, ← read_member _ "total_bytes" v, ← read_member _ "committed_bytes" v⟩
  reads_back s := by
    rw [serialize, instSerializeHeapsSummary]
    simp

instance : Readable SizeBucket where
  deserialize v := do
    return ⟨← read_member _ "size" v, ← read_member _ "count" v, ← read_member _ "bytes" v⟩
  reads_back b := by
    rw [serialize, instSerializeSizeBucket]
    simp

instance : Readable AllocatedSummary where
  deserialize v := do
    return ⟨← read_member _ "count" v, ← read_member _ "bytes" v, ← read_member _ "size_histogram" v⟩
  reads_back s := by
    rw [serialize, instSerializeAllocatedSummary]
    simp

instance : Readable BinBucket where
  deserialize v := do
    return ⟨← read_member _ "index" v, ← read_member _ "size" v, ← read_member _ "count" v, ← read_member _ "bytes" v⟩
  reads_back b := by
    rw [serialize, instSerializeBinBucket]
    simp

instance : Readable TcacheSummary where
  deserialize v := do
    return ⟨← read_member _ "tcache_threads" v, ← read_member _ "bins" v⟩
  reads_back s := by
    rw [serialize, instSerializeTcacheSummary]
    simp

instance : Readable FreeSummary where
  deserialize v := do
    return ⟨← read_member _ "count" v, ← read_member _ "bytes" v, ← read_member _ "fastbins" v,
      ← read_member _ "tcache" v, ← read_member _ "size_histogram" v⟩
  reads_back s := by
    rw [serialize, instSerializeFreeSummary]
    simp

instance : Readable OverheadSummary where
  deserialize v := do
    return ⟨← read_member _ "count" v, ← read_member _ "bytes" v⟩
  reads_back s := by
    rw [serialize, instSerializeOverheadSummary]
    simp

instance : Readable ArenaReport where
  deserialize v := do
    return ⟨← read_member _ "index" v, ← read_member _ "is_main" v, ← read_member _ "attached_threads" v,
      ← read_member _ "heaps" v, ← read_member _ "allocated" v, ← read_member _ "free" v,
      ← read_member _ "overhead" v⟩
  reads_back a := by
    rw [serialize, instSerializeArenaReport]
    simp

instance : Readable IdentityJson where
  deserialize v := do
    match ← read_member String "kind" v with
    | "build_id" => return .BuildId (← read_member _ "value" v)
    | "content_hash" => return .ContentHash (← read_member _ "value" v)
    | _ => none
  reads_back id := by
    cases id with
    | BuildId value =>
      rw [serialize, instSerializeIdentityJson]
      simp
    | ContentHash value =>
      rw [serialize, instSerializeIdentityJson]
      simp

instance : Readable LibcInfo where
  deserialize v := do
    return ⟨← read_member _ "path" v, ← read_member _ "identity" v, ← read_member _ "verified" v⟩
  reads_back l := by
    rw [serialize, instSerializeLibcInfo]
    simp

instance : Readable GlibcCapabilitiesJson where
  deserialize v := do
    return ⟨← read_member _ "layout_source" v, ← read_member _ "has_tcache" v, ← read_member _ "has_safe_linking" v,
      ← read_member _ "version_source" v⟩
  reads_back c := by
    rw [serialize, instSerializeGlibcCapabilitiesJson]
    simp

instance : Readable Problem where
  deserialize v := do
    match ← read_member String "kind" v with
    | "missing_symbol" => return .MissingSymbol (← read_member _ "symbol" v)
    | "duplicate_symbol" => return .DuplicateSymbol (← read_member _ "symbol" v)
    | "missing_relocation" => return .MissingRelocation
    | "unsupported_arch" => return .UnsupportedArch (← read_member _ "machine" v)
    | "missing_build_id" => return .MissingBuildId
    | "unknown_glibc_version" => return .UnknownGlibcVersion
    | "dwarf_layout_fallback" => return .DwarfLayoutFallback (← read_member _ "reason" v)
    | "fastbin_cycle_detected" =>
      return .FastbinCycleDetected (← read_member _ "arena" v) (← read_member _ "bin_index" v)
    | "fastbin_chunk_read_failed" =>
      return .FastbinChunkReadFailed (← read_member _ "arena" v) (← read_member _ "bin_index" v)
        (← read_member _ "address" v)
    | "tcache_cycle_detected" =>
      return .TcacheCycleDetected (← read_member _ "thread_id" v) (← read_member _ "bin_index" v)
    | "tcache_chunk_read_failed" =>
      return .TcacheChunkReadFailed (← read_member _ "thread_id" v) (← read_member _ "bin_index" v)
        (← read_member _ "address" v)
    | "duplicate_tcache_entry" =>
      return .DuplicateTcacheEntry (← read_member _ "thread_id" v) (← read_member _ "bin_index" v)
        (← read_member _ "address" v)
    | "chunk_read_failed" => return .ChunkReadFailed (← read_member _ "arena" v) (← read_member _ "address" v)
    | "heap_walk_truncated" => return .HeapWalkTruncated (← read_member _ "arena" v) (← read_member _ "reason" v)
    | "stats_inconsistent" =>
      return .StatsInconsistent (← read_member _ "arena" v) (← read_member _ "size" v) (← read_member _ "reason" v)
    | "thread_tls_resolution_failed" => return .ThreadTlsResolutionFailed (← read_member _ "thread_id" v)
    | _ => none
  reads_back problem := by
    cases problem <;>
    · rw [serialize, instSerializeProblem]
      simp

instance : Readable CoreReport where
  deserialize v := do
    return {
      schema_version := ← read_member _ "schema_version" v
      tool_version := ← read_member _ "tool_version" v
      core_path := ← read_member _ "core_path" v
      libc := ← read_member _ "libc" v
      glibc_capabilities := ← read_member _ "glibc_capabilities" v
      problems := ← read_member _ "problems" v
      arenas := ← read_member _ "arenas" v }
  reads_back r := by
    rw [serialize, instSerializeCoreReport]
    simp

instance : Readable (Option UInt64) := ⟨deserialize_option, reads_back_option fun _ => Value.noConfusion⟩

instance : Readable (Option GlibcCapabilitiesJson) := ⟨deserialize_option, reads_back_option fun _ => Value.noConfusion⟩

instance : Readable SymbolJson where
  deserialize v := do
    return ⟨← read_member _ "present" v, ← read_member _ "value" v, ← read_member _ "size" v⟩
  reads_back s := by
    rw [serialize, instSerializeSymbolJson]
    simp

instance : Readable CheckReport where
  deserialize v := do
    return {
      schema_version := ← read_member _ "schema_version" v
      tool_version := ← read_member _ "tool_version" v
      libc_path := ← read_member _ "libc_path" v
      arch := ← read_member _ "arch" v
      word_size := ← read_member _ "word_size" v
      identity := ← read_member _ "identity" v
      glibc_capabilities := ← read_member _ "glibc_capabilities" v
      supported := ← read_member _ "supported" v
      symbols := ← read_member _ "symbols" v
      problems := ← read_member _ "problems" v }
  reads_back r := by
    rw [serialize, instSerializeCheckReport]
    simp

/-- Reports of one document are the same. -/
theorem serialize_injective {α : Type} [Serialize α] [Readable α] {report other : α}
    (same : serialize report = serialize other) : report = other := by
  have read : deserialize (serialize report) = some report := reads_back report
  rw [same, reads_back, Option.some.injEq] at read
  exact read.symm

end HeapAnalyser.Schema
