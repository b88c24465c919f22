import HeapAnalyser.DwarfSelection
import HeapAnalyser.DwarfTypes
import HeapAnalyser.Notes

/-!
Collecting the candidates of a unit (`parse_structure` and the second loop of
`scan_unit` in `glibc/dwarf.rs`). A resource limit ends the extraction; every
other error is kept for its target and costs that candidate alone
(`scan_found_error`). A cycle of aliases is such an error, so it is no limit
(`types_resolve`).
-/
namespace HeapAnalyser.DwarfScan
open Machine Checks Dwarf DwarfSelection Chase DwarfTypes

def MAX_STRING_BYTES : Nat := 1024 * 1024

/-- The members that are read of a target. -/
def wanted_members : Target → List String
  | .MallocState => ["fastbinsY", "top", "next"]
  | .MallocPar => ["arena_max", "sbrk_base", "tcache_bins"]
  | .HeapInfo => ["ar_ptr", "prev", "size", "mprotect_size"]
  | .Tcache => ["counts", "entries"]

/-- The name of an entry, if it has one. -/
def entry_name (value : Option AttributeValue) : Except DwarfLayoutError (Option String) :=
  match value with
  | none => .ok none
  | some .DebugStrRefSup => .error (.Unsupported "supplementary DWARF string")
  | some (.Text text) => do
    let bytes ← parse_error text
    refuse (MAX_STRING_BYTES < bytes.length) (.Limit "DWARF string length")
    let name ← ok_or (Notes.from_utf8 bytes) (.Invalid "non-UTF-8 DWARF name")
    return some name
  | some _ => .error (.Parse "ExpectedStringAttributeValue")

/-- One operation of an expression. -/
def next_operation : List (Except String Operation) → Except DwarfLayoutError (Option Operation)
  | [] => .ok none
  | operation :: _ => (parse_error operation).map some

/-- Where a member is in its structure. -/
def member_location (member : Child) : Except DwarfLayoutError UInt64 := do
  let value ← ok_or member.data_member_location (.Invalid "member has no location")
  match udata_value value, value with
  | some offset, _ => return offset
  | none, .Exprloc operations => do
    let first ← next_operation operations
    let second ← next_operation (operations.drop 1)
    match first, second with
    | some (.PlusConstant offset), none => return offset
    | _, _ => .error (.Unsupported "member location expression")
  | none, _ => .error (.Unsupported "non-constant member location")

/-- A member that is wanted, with its type. -/
def parse_member (dwarf : DebugInfo) (unit : Nat) (wanted : List String) (member : Child) :
    Except DwarfLayoutError (Option Member) :=
  if member.tag ≠ .member then .ok none
  else do
    match ← entry_name member.name with
    | none => return none
    | some name =>
      if name ∉ wanted then return none
      else do
        let offset ← member_location member
        let value ← ok_or member.type_ref (.Invalid (name ++ " has no type"))
        let type_id ← attribute_die_ref dwarf unit value
        let ty ← resolve_type dwarf MAX_REFERENCE_DEPTH [] type_id
        return some ⟨name, offset, ty⟩

/-- A flag that is set. -/
def is_declaration (value : Option AttributeValue) : Bool :=
  match value with
  | some (.Flag flag) => flag
  | some other => (udata_value other).any (· ≠ 0)
  | none => false

deriving instance Ord for TypeKind
deriving instance Ord for TypeInfo
deriving instance Ord for Member

/-- A structure with its wanted members, sorted and each once. -/
def parse_structure (dwarf : DebugInfo) (id : DieId) (target : Target) : Except DwarfLayoutError Structure := do
  let (die, address_size) ← entry dwarf id
  refuse (is_declaration die.declaration = true) (.Invalid "target is only a declaration")
  let byte_size ← ok_or (die.byte_size.bind udata_value) (.Invalid "structure has no byte size")
  validate_struct_size byte_size address_size
  let members ← die.children.filterMapM (parse_member dwarf id.1 (wanted_members target))
  return ⟨byte_size, (members.mergeSort fun a b => (compare a b).isLE).destutter (· ≠ ·)⟩

/-- A candidate is pushed for its target. -/
def push_candidate (index : TypeIndex) (target : Target) (candidate : Structure) : TypeIndex :=
  { index with
    candidates := Function.update index.candidates target (some ((index.candidates target).getD [] ++ [candidate])) }

/-- An error is kept for its target, unless there is one. -/
def record_error (index : TypeIndex) (target : Target) (error : DwarfLayoutError) : TypeIndex :=
  { index with errors := Function.update index.errors target ((index.errors target).or (some error)) }

/-- A limit ends the extraction, and another error is recorded. -/
def route (index : TypeIndex) (target : Target) (error : DwarfLayoutError) : Except DwarfLayoutError TypeIndex :=
  match error with
  | .Limit resource => .error (.Limit resource)
  | other => .ok (record_error index target other)

/-- The loop over the targets that were found in a unit, by their offsets. -/
def scan_found (dwarf : DebugInfo) (unit : Nat) :
    List (Target × Nat) → List (Target × DieId) → TypeIndex → Except DwarfLayoutError TypeIndex
  | [], _, index => .ok index
  | (target, offset) :: rest, seen, index =>
    match resolve_structure dwarf MAX_REFERENCE_DEPTH [] (unit, offset) with
    | .error error => do
      let index ← route index target error
      scan_found dwarf unit rest seen index
    | .ok id =>
      if (target, id) ∈ seen then scan_found dwarf unit rest seen index
      else
        match parse_structure dwarf id target with
        | .error error => do
          let index ← route index target error
          scan_found dwarf unit rest ((target, id) :: seen) index
        | .ok candidate => scan_found dwarf unit rest ((target, id) :: seen) (push_candidate index target candidate)

section
variable {dwarf : DebugInfo} {unit : Nat} {target : Target} {offset : Nat} {rest : List (Target × Nat)}
  {seen : List (Target × DieId)} {index : TypeIndex}

/-- A target that does not resolve, for another reason than a limit, is passed over. -/
theorem scan_found_error {error : DwarfLayoutError}
    (fails : resolve_structure dwarf MAX_REFERENCE_DEPTH [] (unit, offset) = .error error)
    (harmless : ∀ resource, error ≠ .Limit resource) :
    scan_found dwarf unit ((target, offset) :: rest) seen index =
      scan_found dwarf unit rest seen (record_error index target error) := by
  have routed : route index target error = .ok (record_error index target error) := by
    cases error with
    | Limit resource => exact absurd rfl (harmless resource)
    | _ => rfl
  rw [scan_found, fails]
  simp only [routed, bind, Except.bind]

/-- A target that comes back to an entry of its aliases is passed over. -/
theorem scan_found_cycle {node : DieId} {i j : Nat} (first : follow (alias_link dwarf) (unit, offset) i = some node)
    (second : follow (alias_link dwarf) (unit, offset) j = some node) (order : i < j) (short : j < MAX_REFERENCE_DEPTH) :
    scan_found dwarf unit ((target, offset) :: rest) seen index =
      scan_found dwarf unit rest seen (record_error index target (.Invalid "type reference cycle")) :=
  scan_found_error (resolve_structure_guarded.loops first second order short) fun _ => by simp

end

section
variable {dwarf : DebugInfo} {target : Target} {index : TypeIndex}

theorem parse_structure_bounded {id : DieId} {candidate : Structure}
    (parsed : parse_structure dwarf id target = .ok candidate) : candidate.byte_size ≤ MAX_STRUCT_SIZE := by
  simp only [parse_structure, bind_eq_ok] at parsed
  obtain ⟨_, _, _, _, byte_size, _, _, valid, members, run, made⟩ := parsed
  cases made
  exact validate_struct_size_ok valid

theorem listed_push (candidate : Structure) :
    listed (push_candidate index target candidate) target = listed index target ++ [candidate] := by
  simp [listed, push_candidate]

theorem listed_push_other {other : Target} (candidate : Structure) (differ : other ≠ target) :
    listed (push_candidate index target candidate) other = listed index other := by
  simp [listed, push_candidate, differ]

end

/-- What resolving types promises of any debuginfo. An entry that is no alias has no
    `alias_link`; where there is one, `follow` is the chain of aliases. -/
structure Resolves (dwarf : DebugInfo) : Prop where
  structure_through : ∀ start stop k, follow (alias_link dwarf) start k = some stop → alias_link dwarf stop = none →
    k < MAX_REFERENCE_DEPTH →
    resolve_structure dwarf MAX_REFERENCE_DEPTH [] start = resolve_structure dwarf MAX_REFERENCE_DEPTH [] stop
  type_through : ∀ start stop k, follow (alias_link dwarf) start k = some stop → alias_link dwarf stop = none →
    k < MAX_REFERENCE_DEPTH →
    resolve_type dwarf MAX_REFERENCE_DEPTH [] start =
        resolve_type dwarf (MAX_REFERENCE_DEPTH - k) (trail (alias_link dwarf) k [] start) stop ∧
      ((∀ die size, entry dwarf stop = .ok (die, size) → die.tag ≠ .array_type) →
        resolve_type dwarf MAX_REFERENCE_DEPTH [] start = resolve_type dwarf MAX_REFERENCE_DEPTH [] stop)
  cycle : ∀ start node i j, follow (alias_link dwarf) start i = some node → follow (alias_link dwarf) start j = some node →
    i < j → j < MAX_REFERENCE_DEPTH →
    resolve_structure dwarf MAX_REFERENCE_DEPTH [] start = .error (.Invalid "type reference cycle") ∧
      resolve_type dwarf MAX_REFERENCE_DEPTH [] start = .error (.Invalid "type reference cycle")
  passed_over : ∀ unit target offset rest seen index node i j, follow (alias_link dwarf) (unit, offset) i = some node →
    follow (alias_link dwarf) (unit, offset) j = some node → i < j → j < MAX_REFERENCE_DEPTH →
    scan_found dwarf unit ((target, offset) :: rest) seen index =
      scan_found dwarf unit rest seen (record_error index target (.Invalid "type reference cycle"))
  arrays : ∀ remaining visited id die size info, entry dwarf id = .ok (die, size) → die.tag = .array_type →
    resolve_type dwarf remaining visited id = .ok info → ArrayInfo die info

/-- Types are resolved through their aliases, cycles of aliases cost one candidate,
    and the number of an array's elements is exact if and only if its subranges are
    plain. -/
theorem types_resolve (dwarf : DebugInfo) : Resolves dwarf where
  structure_through _ _ _ reached ends short := resolve_structure_through reached ends short
  type_through _ _ _ reached ends short := resolve_type_through reached ends short
  cycle _ _ _ _ first second order short :=
    ⟨resolve_structure_guarded.loops first second order short, resolve_type_guarded.loops first second order short⟩
  passed_over _ _ _ _ _ _ _ _ _ first second order short := scan_found_cycle first second order short
  arrays _ _ _ _ _ _ found isArray resolved := element_count_exact_iff found isArray resolved

/-- An array of unsigned words whose count is negative and whose last index is 4. -/
def negative_count : Die where
  tag := .array_type
  type_ref := some (.UnitRef 2)
  children := [{ tag := .subrange_type, count := some (.Sdata (-5)), upper_bound := some (.Udata 4) }]

/-- A unit with the array at 1 and its element type at 2. -/
def small_unit : DwarfUnit where
  address_size := 8
  entry offset :=
    if offset = 1 then .ok negative_count
    else if offset = 2 then .ok { tag := .base_type, byte_size := some (.Udata 8), encoding := some (.Encoding 7) }
    else .error "NoEntryAtGivenOffset"

def one_unit : DebugInfo where
  headers := [⟨0, 1, 3⟩]
  unit offset := if offset = 0 then .ok small_unit else .error "UnexpectedEof"

/-- A negative count is not taken, and so does not conflict with the bounds. -/
theorem negative_count_lost :
    resolve_type one_unit MAX_REFERENCE_DEPTH [] (0, 1) = .ok ⟨.Array, some 40, some .Unsigned, some 8, some 5⟩ ∧
      ¬ ExactCount negative_count 5 := by
  refine ⟨by decide +kernel, ?_⟩
  rintro ⟨dimensions, _, each, _⟩
  have subrange : subranges negative_count =
      [{ tag := .subrange_type, count := some (.Sdata (-5)), upper_bound := some (.Udata 4) }] := by decide
  rw [subrange] at each
  cases each with
  | cons head _ =>
    have counted := head.counted _ rfl
    obtain ⟨upper, lower, isUpper, isLower, same⟩ := head.bounded _ rfl
    have isFive : (-5 : Int64).toInt = -5 := by decide
    simp only [numberOf, Option.some.injEq, isFive] at counted isUpper
    simp only [LowerIs] at isLower
    have four : (4 : UInt64).toNat = 4 := rfl
    omega

end HeapAnalyser.DwarfScan
