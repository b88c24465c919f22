import HeapAnalyser.Chase
import HeapAnalyser.Dwarf

/-!
Resolving the types of debuginfo (`resolve_structure` and `resolve_type` of
`glibc/dwarf.rs`) over the entries that the decoder gives. A reference is a unit
and an offset in it, which is also what the set of visited entries has
(`global_die_id`). Aliases are passed over, up to `MAX_REFERENCE_DEPTH`, and an
alias that comes again is an error of that type alone (`resolve_structure_guarded`,
`resolve_type_guarded`). The number of an array's elements is the product of what
is read of its dimensions, and that is exact if and only if each count is given
as a number that is not negative, and each bound as a number
(`element_count_exact_iff`).
-/
namespace HeapAnalyser.DwarfTypes
open Machine Checks Dwarf Chase

def MAX_REFERENCE_DEPTH : Nat := 64

inductive Tag where
  | typedef
  | const_type
  | volatile_type
  | restrict_type
  | atomic_type
  | pointer_type
  | reference_type
  | array_type
  | base_type
  | enumeration_type
  | structure_type
  | class_type
  | subrange_type
  | member
  | other
  deriving Repr, DecidableEq

inductive Operation where
  | PlusConstant (value : UInt64)
  | other
  deriving Repr, DecidableEq

/-- What the decoder gives for an attribute, as far as the reader tells it apart;
    the unsigned constants of all widths are `Udata`. -/
inductive AttributeValue where
  | Udata (value : UInt64)
  | Sdata (value : Int64)
  | Encoding (value : UInt8)
  | Flag (value : Bool)
  | Exprloc (operations : List (Except String Operation))
  | DebugStrRefSup
  | Text (bytes : Except String (List UInt8))
  | UnitRef (offset : Nat)
  | DebugInfoRef (offset : Nat)
  | DebugInfoRefSup
  | DebugTypesRef
  | Other
  deriving DecidableEq

/-- The unsigned constant of an attribute, if it is one. -/
def udata_value : AttributeValue → Option UInt64
  | .Udata value => some value
  | .Sdata value => if value < 0 then none else some value.toUInt64
  | _ => none

/-- A child of an entry, with what is read of the members of a structure and the
    subranges of an array. -/
structure Child where
  tag : Tag
  name : Option AttributeValue := none
  type_ref : Option AttributeValue := none
  data_member_location : Option AttributeValue := none
  count : Option AttributeValue := none
  lower_bound : Option AttributeValue := none
  upper_bound : Option AttributeValue := none
  deriving DecidableEq

/-- An entry, with what is read of it. -/
structure Die where
  tag : Tag
  declaration : Option AttributeValue := none
  byte_size : Option AttributeValue := none
  type_ref : Option AttributeValue := none
  encoding : Option AttributeValue := none
  children : List Child := []
  deriving DecidableEq

/-- A unit, with the entry at each of its offsets or the decoder's error. -/
structure DwarfUnit where
  address_size : UInt8
  entry : Nat → Except String Die

/-- The header of a unit: its offset in `.debug_info`, and the offsets in the
    unit between which its entries are. -/
structure UnitHeader where
  offset : Nat
  entries_start : Nat
  entries_end : Nat
  deriving Repr, DecidableEq

/-- The debuginfo: the headers in order, and the unit at each offset. -/
structure DebugInfo where
  headers : List UnitHeader
  unit : Nat → Except String DwarfUnit

/-- An entry by the offset of its unit and its own. -/
abbrev DieId := Nat × Nat

/-- An error of the decoder. -/
def parse_error {α : Type} : Except String α → Except DwarfLayoutError α
  | .error e => .error (.Parse e)
  | .ok value => .ok value

/-- An entry, and the size of an address in its unit. -/
def entry (dwarf : DebugInfo) (id : DieId) : Except DwarfLayoutError (Die × UInt8) := do
  let unit ← parse_error (dwarf.unit id.1)
  let die ← parse_error (unit.entry id.2)
  return (die, unit.address_size)

/-- The unit that is referred to. -/
def reload_unit (dwarf : DebugInfo) (unit : Nat) : Except DwarfLayoutError Nat := do
  let _ ← parse_error (dwarf.unit unit)
  return unit

/-- The entry at an absolute offset, in the last unit that starts at or before it. -/
def load_unit_at (dwarf : DebugInfo) (absolute : Nat) : Except DwarfLayoutError DieId :=
  match (dwarf.headers.takeWhile fun header => header.offset ≤ absolute).getLast? with
  | none => invalid "cross-unit reference is outside debug_info"
  | some header =>
    let offset := absolute - header.offset
    if header.entries_start ≤ offset ∧ offset < header.entries_end then do
      let unit ← reload_unit dwarf header.offset
      return (unit, offset)
    else invalid "cross-unit reference is outside debug_info"

/-- The entry that an attribute refers to. -/
def attribute_die_ref (dwarf : DebugInfo) (unit : Nat) : AttributeValue → Except DwarfLayoutError DieId
  | .UnitRef offset => do
    let unit ← reload_unit dwarf unit
    return (unit, offset)
  | .DebugInfoRef offset => load_unit_at dwarf offset
  | .DebugInfoRefSup => .error (.Unsupported "supplementary type reference")
  | .DebugTypesRef => .error (.Unsupported "type signature reference")
  | _ => invalid "invalid type reference"

/-- The tags that are passed over. -/
def is_alias : Tag → Bool
  | .typedef | .const_type | .volatile_type | .restrict_type | .atomic_type => true
  | _ => false

/-- The structure behind the aliases; the first argument is what is left of
    `MAX_REFERENCE_DEPTH`. -/
def resolve_structure (dwarf : DebugInfo) : Nat → List DieId → DieId → Except DwarfLayoutError DieId
  | 0, _, _ => .error (.Limit "type reference depth")
  | remaining + 1, visited, id =>
    if id ∈ visited then invalid "type reference cycle"
    else do
      let (die, _) ← entry dwarf id
      if die.tag = .structure_type ∨ die.tag = .class_type then do
        let unit ← reload_unit dwarf id.1
        return (unit, id.2)
      else if is_alias die.tag then do
        let value ← ok_or die.type_ref (.Invalid "type reference is missing")
        let next ← attribute_die_ref dwarf id.1 value
        resolve_structure dwarf remaining (id :: visited) next
      else invalid "target does not resolve to a structure"

/-- The 128-bit number of an attribute, of either sign. -/
def attr_i128 : AttributeValue → Option Int
  | .Sdata value => some value.toInt
  | other => (udata_value other).map fun value => value.toNat

/-- `i128` arithmetic that is checked. -/
def checked_i128 (value : Int) : Option Int := if -2 ^ 127 ≤ value ∧ value < 2 ^ 127 then some value else none

def u64_try_from (value : Int) : Option UInt64 :=
  if 0 ≤ value ∧ value < 2 ^ 64 then some (UInt64.ofNat value.toNat) else none

/-- How many indices there are from a lower to an upper bound. -/
def bounds_count (lower upper : Int) : Option UInt64 := do
  let span ← checked_i128 (upper - lower)
  let count ← checked_i128 (span + 1)
  u64_try_from count

/-- The dimension of a subrange, from its count or its bounds. -/
def dimension (child : Child) : Except DwarfLayoutError (Option UInt64) := do
  let count := child.count.bind udata_value
  let lower := (child.lower_bound.bind attr_i128).getD 0
  let upper := child.upper_bound.bind attr_i128
  let counted ← transpose (upper.map fun upper => ok_or (bounds_count lower upper) (.Invalid "invalid array bounds"))
  match count, counted with
  | some left, some right => if left ≠ right then invalid "array count conflicts with bounds" else .ok (some left)
  | some count, none => .ok (some count)
  | none, counted => .ok counted

/-- The loop of `array_dimensions`. -/
def dimensions_from : List Child → List UInt64 → Except DwarfLayoutError (Option (List UInt64))
  | [], dimensions => .ok (if dimensions = [] then none else some dimensions)
  | child :: rest, dimensions =>
    if child.tag ≠ .subrange_type then dimensions_from rest dimensions
    else do
      match ← dimension child with
      | none => .ok none
      | some count => dimensions_from rest (dimensions ++ [count])

def array_dimensions (die : Die) : Except DwarfLayoutError (Option (List UInt64)) := dimensions_from die.children []

/-- The elements of an array of the given dimensions, if their number fits. -/
def count_elements (dimensions : List UInt64) : Option UInt64 := dimensions.foldlM checked_mul 1

/-- An array type, from its element type and its dimensions. -/
def array_info (byte_size : Option UInt64) (element : TypeInfo) (dimensions : Option (List UInt64)) : TypeInfo :=
  let element_count := dimensions.bind count_elements
  let computed_size := do
    let size ← element.byte_size
    let count ← element_count
    checked_mul size count
  ⟨.Array, byte_size <|> computed_size, some element.kind, element.byte_size, element_count⟩

/-- A base type is unsigned where its encoding says so: `DW_ATE_boolean` is 2,
    `DW_ATE_unsigned` 7 and `DW_ATE_unsigned_char` 8. -/
def base_kind (encoding : Option AttributeValue) : TypeKind :=
  match encoding with
  | some (.Encoding value) => if value = 7 ∨ value = 8 ∨ value = 2 then .Unsigned else .Signed
  | _ => .Signed

/-- The types that refer to no other. -/
def plain_info (die : Die) (address_size : UInt8) : TypeInfo :=
  let byte_size := die.byte_size.bind udata_value
  match die.tag with
  | .pointer_type | .reference_type => ⟨.Pointer, byte_size <|> some address_size.toUInt64, none, none, none⟩
  | .base_type | .enumeration_type => ⟨base_kind die.encoding, byte_size, none, none, none⟩
  | .structure_type | .class_type => ⟨.Structure, byte_size, none, none, none⟩
  | _ => ⟨.Other, byte_size, none, none, none⟩

/-- The type behind the aliases; the first argument is what is left of
    `MAX_REFERENCE_DEPTH`. -/
def resolve_type (dwarf : DebugInfo) : Nat → List DieId → DieId → Except DwarfLayoutError TypeInfo
  | 0, _, _ => .error (.Limit "type reference depth")
  | remaining + 1, visited, id =>
    if id ∈ visited then invalid "type reference cycle"
    else do
      let (die, address_size) ← entry dwarf id
      if is_alias die.tag then do
        let value ← ok_or die.type_ref (.Invalid "type reference is missing")
        let next ← attribute_die_ref dwarf id.1 value
        resolve_type dwarf remaining (id :: visited) next
      else if die.tag = .array_type then do
        let value ← ok_or die.type_ref (.Invalid "array element type is missing")
        let element_id ← attribute_die_ref dwarf id.1 value
        let element ← resolve_type dwarf remaining (id :: visited) element_id
        let dimensions ← array_dimensions die
        return array_info (die.byte_size.bind udata_value) element dimensions
      else return plain_info die address_size

/-! ## Aliases -/

/-- The entry that an alias stands for. -/
def alias_link (dwarf : DebugInfo) (id : DieId) : Option DieId :=
  match entry dwarf id with
  | .error _ => none
  | .ok (die, _) =>
    if is_alias die.tag then die.type_ref.bind fun value => (attribute_die_ref dwarf id.1 value).toOption else none

section
variable {dwarf : DebugInfo}

private theorem alias_link_eq_some {id next : DieId} : alias_link dwarf id = some next ↔ ∃ die size value,
    entry dwarf id = .ok (die, size) ∧ is_alias die.tag = true ∧ die.type_ref = some value ∧
      attribute_die_ref dwarf id.1 value = .ok next := by
  have to_option (r : Except DwarfLayoutError DieId) : r.toOption = some next ↔ r = .ok next := by
    cases r <;> simp [Except.toOption]
  cases found : entry dwarf id with
  | error e => simp [alias_link, found]
  | ok pair =>
    obtain ⟨die, size⟩ := pair
    by_cases isAlias : is_alias die.tag = true
    · simp only [alias_link, found, if_pos isAlias, Option.bind_eq_some_iff, to_option]
      constructor
      · rintro ⟨value, reference, leads⟩
        exact ⟨die, size, value, rfl, isAlias, reference, leads⟩
      · rintro ⟨other, _, value, same, _, reference, leads⟩
        obtain ⟨rfl, rfl⟩ := Prod.mk.inj (Except.ok.inj same)
        exact ⟨value, reference, leads⟩
    · simp only [alias_link, found, if_neg isAlias, reduceCtorEq, false_iff]
      rintro ⟨other, _, _, same, otherAlias, _⟩
      obtain ⟨rfl, rfl⟩ := Prod.mk.inj (Except.ok.inj same)
      exact isAlias otherAlias

private theorem alias_no_structure {tag : Tag} (isAlias : is_alias tag = true) :
    ¬ (tag = .structure_type ∨ tag = .class_type) := by
  rintro (rfl | rfl)
  · cases isAlias
  · cases isAlias

theorem resolve_structure_guarded :
    Guarded (alias_link dwarf) (resolve_structure dwarf) (invalid "type reference cycle") := by
  constructor
  · intro remaining visited id next fresh linked
    obtain ⟨die, size, value, found, isAlias, reference, leads⟩ := alias_link_eq_some.mp linked
    simp only [resolve_structure, if_neg fresh, found, bind, Except.bind, if_neg (alias_no_structure isAlias),
      if_pos isAlias, reference, ok_or, leads]
  · intro remaining visited id seen
    rw [resolve_structure, if_pos seen]

theorem resolve_type_guarded : Guarded (alias_link dwarf) (resolve_type dwarf) (invalid "type reference cycle") := by
  constructor
  · intro remaining visited id next fresh linked
    obtain ⟨die, size, value, found, isAlias, reference, leads⟩ := alias_link_eq_some.mp linked
    simp only [resolve_type, if_neg fresh, found, bind, Except.bind, if_pos isAlias, reference, ok_or, leads]
  · intro remaining visited id seen
    rw [resolve_type, if_pos seen]

/-- What an alias that leads nowhere gives has nothing to do with what follows. -/
theorem alias_dead_end {id : DieId} {die : Die} {size : UInt8} (found : entry dwarf id = .ok (die, size))
    (isAlias : is_alias die.tag = true) (ends : alias_link dwarf id = none) :
    ∃ e, ∀ {β : Type} (go_on : DieId → Except DwarfLayoutError β),
      (ok_or die.type_ref (.Invalid "type reference is missing") >>= fun value =>
        attribute_die_ref dwarf id.1 value >>= go_on) = .error e := by
  cases reference : die.type_ref with
  | none => exact ⟨_, fun _ => rfl⟩
  | some value =>
    cases leads : attribute_die_ref dwarf id.1 value with
    | error e =>
      refine ⟨e, fun go_on => ?_⟩
      show (attribute_die_ref dwarf id.1 value >>= go_on) = .error e
      rw [leads]
      rfl
    | ok next =>
      have linked := alias_link_eq_some.mpr ⟨die, size, value, found, isAlias, reference, leads⟩
      rw [ends] at linked
      cases linked

/-- At the end of the aliases a structure is resolved as with fresh bookkeeping. -/
theorem resolve_structure_end {remaining : Nat} {visited : List DieId} {id : DieId} (fresh : id ∉ visited)
    (ends : alias_link dwarf id = none) :
    resolve_structure dwarf (remaining + 1) visited id = resolve_structure dwarf MAX_REFERENCE_DEPTH [] id := by
  rw [MAX_REFERENCE_DEPTH, resolve_structure, resolve_structure, if_neg fresh, if_neg (List.not_mem_nil)]
  cases found : entry dwarf id with
  | error e => rfl
  | ok pair =>
    obtain ⟨die, size⟩ := pair
    simp only [bind, Except.bind]
    by_cases isStructure : die.tag = .structure_type ∨ die.tag = .class_type
    · simp only [if_pos isStructure]
    by_cases isAlias : is_alias die.tag = true
    · obtain ⟨e, fails⟩ := alias_dead_end found isAlias ends
      simp only [if_neg isStructure, if_pos isAlias]
      exact (fails _).trans (fails _).symm
    · simp only [if_neg isStructure, if_neg isAlias]

/-- At the end of the aliases a type that is no array is resolved as with fresh bookkeeping. -/
theorem resolve_type_end {remaining : Nat} {visited : List DieId} {id : DieId} (fresh : id ∉ visited)
    (ends : alias_link dwarf id = none) (single : ∀ die size, entry dwarf id = .ok (die, size) → die.tag ≠ .array_type) :
    resolve_type dwarf (remaining + 1) visited id = resolve_type dwarf MAX_REFERENCE_DEPTH [] id := by
  rw [MAX_REFERENCE_DEPTH, resolve_type, resolve_type, if_neg fresh, if_neg (List.not_mem_nil)]
  cases found : entry dwarf id with
  | error e => rfl
  | ok pair =>
    obtain ⟨die, size⟩ := pair
    simp only [bind, Except.bind]
    by_cases isAlias : is_alias die.tag = true
    · obtain ⟨e, fails⟩ := alias_dead_end found isAlias ends
      simp only [if_pos isAlias]
      exact (fails _).trans (fails _).symm
    · simp only [if_neg isAlias, if_neg (single die size found)]

/-- A structure is resolved through fewer than `MAX_REFERENCE_DEPTH` aliases as at their end. -/
theorem resolve_structure_through {start stop : DieId} {k : Nat} (reached : follow (alias_link dwarf) start k = some stop)
    (ends : alias_link dwarf stop = none) (short : k < MAX_REFERENCE_DEPTH) :
    resolve_structure dwarf MAX_REFERENCE_DEPTH [] start = resolve_structure dwarf MAX_REFERENCE_DEPTH [] stop :=
  resolve_structure_guarded.through reached ends short fun _ _ fresh => resolve_structure_end fresh ends

/-- A type is resolved through fewer than `MAX_REFERENCE_DEPTH` aliases as at their end: with
    fresh bookkeeping where that is no array, and else with the aliases as visited. -/
theorem resolve_type_through {start stop : DieId} {k : Nat} (reached : follow (alias_link dwarf) start k = some stop)
    (ends : alias_link dwarf stop = none) (short : k < MAX_REFERENCE_DEPTH) :
    resolve_type dwarf MAX_REFERENCE_DEPTH [] start =
        resolve_type dwarf (MAX_REFERENCE_DEPTH - k) (trail (alias_link dwarf) k [] start) stop ∧
      ((∀ die size, entry dwarf stop = .ok (die, size) → die.tag ≠ .array_type) →
        resolve_type dwarf MAX_REFERENCE_DEPTH [] start = resolve_type dwarf MAX_REFERENCE_DEPTH [] stop) := by
  constructor
  · exact (resolve_type_guarded.to_end reached ends short.le).1
  · intro single
    exact resolve_type_guarded.through reached ends short fun _ _ fresh => resolve_type_end fresh ends single

end

/-! ## Arrays -/

/-- The number that a constant attribute stands for. -/
def numberOf : AttributeValue → Option Int
  | .Udata value => some value.toNat
  | .Sdata value => some value.toInt
  | _ => none

/-- A bound that is zero where it is not given. -/
def LowerIs (child : Child) (lower : Int) : Prop :=
  match child.lower_bound with
  | none => lower = 0
  | some value => numberOf value = some lower

/-- The dimension that a subrange gives: by its count, by its bounds, or by both alike. -/
structure ExactDimension (child : Child) (d : Int) : Prop where
  given : child.count ≠ none ∨ child.upper_bound ≠ none
  counted : ∀ value, child.count = some value → numberOf value = some d
  bounded : ∀ value, child.upper_bound = some value →
    ∃ upper lower, numberOf value = some upper ∧ LowerIs child lower ∧ d = upper - lower + 1

/-- A subrange whose count is a number that is not negative, and whose bounds are numbers. -/
structure Plain (child : Child) : Prop where
  count : ∀ value, child.count = some value → ∃ n : Nat, numberOf value = some (n : Int)
  bounds : ∀ value, child.upper_bound = some value → numberOf value ≠ none ∧ ∃ lower, LowerIs child lower

/-- The dimensions of an array, as its subranges give them. -/
def subranges (die : Die) : List Child := die.children.filter fun child => child.tag = .subrange_type

/-- A number of elements is the product of an array's dimensions. -/
def ExactCount (die : Die) (count : UInt64) : Prop :=
  ∃ dimensions : List Int, dimensions ≠ [] ∧ List.Forall₂ ExactDimension (subranges die) dimensions ∧
    (count.toNat : Int) = dimensions.prod

private theorem udata_value_eq_some {value : AttributeValue} {n : UInt64} :
    udata_value value = some n ↔ numberOf value = some (n.toNat : Int) := by
  cases value with
  | Udata v =>
    simp only [udata_value, numberOf, Option.some.injEq, Int.natCast_inj]
    exact UInt64.toNat_inj.symm
  | Sdata v =>
    by_cases negative : v < 0
    · have below : v.toInt < 0 := Int64.lt_iff_toInt_lt.mp negative
      simp only [udata_value, if_pos negative, numberOf, reduceCtorEq, false_iff, Option.some.injEq]
      omega
    · have nonneg : 0 ≤ v := Int64.not_lt.mp negative
      simp only [udata_value, if_neg negative, numberOf, Option.some.injEq, Int64.toInt_eq_toNatClampNeg nonneg,
        Int.natCast_inj, ← Int64.toNat_toUInt64_of_le nonneg]
      exact UInt64.toNat_inj.symm
  | _ => simp [udata_value, numberOf]

private theorem udata_of_nat {value : AttributeValue} {n : Nat} (isNumber : numberOf value = some (n : Int)) :
    ∃ m, udata_value value = some m ∧ m.toNat = n := by
  obtain ⟨m, same⟩ : ∃ m : UInt64, m.toNat = n := by
    cases value with
    | Udata v => exact ⟨v, by simpa [numberOf] using isNumber⟩
    | Sdata v =>
      have isValue : v.toInt = n := by simpa [numberOf] using isNumber
      have nonneg : 0 ≤ v := by
        rw [Int64.le_iff_toInt_le, isValue]
        exact Int.natCast_nonneg n
      refine ⟨v.toUInt64, ?_⟩
      rw [Int64.toNat_toUInt64_of_le nonneg, ← Int.natCast_inj, ← Int64.toInt_eq_toNatClampNeg nonneg, isValue]
    | _ => cases isNumber
  exact ⟨m, udata_value_eq_some.mpr (by rw [isNumber, same]), same⟩

private theorem attr_i128_eq (value : AttributeValue) : attr_i128 value = numberOf value := by
  cases value <;> rfl

/-- The lower bound that the reader takes is the one given, if that is a number. -/
theorem lower_taken {child : Child} {lower : Int} (given : LowerIs child lower) :
    (child.lower_bound.bind attr_i128).getD 0 = lower := by
  unfold LowerIs at given
  cases bound : child.lower_bound with
  | none =>
    rw [bound] at given
    exact given.symm
  | some value =>
    rw [bound] at given
    rw [Option.bind_some, attr_i128_eq, given]
    rfl

private theorem bounds_count_eq {lower upper : Int} {count : UInt64} (counted : bounds_count lower upper = some count) :
    (count.toNat : Int) = upper - lower + 1 := by
  have checked {value result : Int} (is : checked_i128 value = some result) : result = value := by
    by_cases fits : -2 ^ 127 ≤ value ∧ value < 2 ^ 127
    · rw [checked_i128, if_pos fits] at is
      exact (Option.some.inj is).symm
    · rw [checked_i128, if_neg fits] at is
      cases is
  simp only [bounds_count, Option.bind_eq_bind, Option.bind_eq_some_iff] at counted
  obtain ⟨span, isSpan, sum, isSum, converted⟩ := counted
  obtain rfl := checked isSpan
  obtain rfl := checked isSum
  by_cases fits : 0 ≤ upper - lower + 1 ∧ upper - lower + 1 < 2 ^ 64
  · rw [u64_try_from, if_pos fits] at converted
    rw [← Option.some.inj converted, ofNat_toNat (by omega)]
    omega
  · rw [u64_try_from, if_neg fits] at converted
    cases converted

/-- A dimension is the count that the reader takes, or the number between the
    bounds, or both where they are the same. -/
theorem dimension_eq_ok {child : Child} {d : UInt64} (read : dimension child = .ok (some d)) : ∃ counted,
    ((child.upper_bound.bind attr_i128).map fun upper =>
      ok_or (bounds_count ((child.lower_bound.bind attr_i128).getD 0) upper)
        (DwarfLayoutError.Invalid "invalid array bounds")) = counted.map Except.ok ∧
      (∀ n, child.count.bind udata_value = some n → n = d) ∧ (∀ c, counted = some c → c = d) ∧
      (child.count.bind udata_value ≠ none ∨ counted ≠ none) := by
  simp only [dimension, bind_eq_ok, transpose_eq_ok] at read
  obtain ⟨counted, isCounted, read⟩ := read
  refine ⟨counted, isCounted, ?_⟩
  cases count : child.count.bind udata_value with
  | none =>
    rw [count] at read
    cases counted with
    | none => cases read
    | some c =>
      cases read
      simp
  | some n =>
    rw [count] at read
    cases counted with
    | none =>
      cases read
      simp
    | some c =>
      by_cases differ : n ≠ c
      · simp [if_pos differ, invalid] at read
      · simp only [if_neg differ] at read
        cases read
        simp [not_not.mp differ]

/-- What a dimension is made of: the count, if the reader takes one, and the
    bounds, if it takes an upper one. -/
theorem dimension_parts {child : Child} {d : UInt64} (read : dimension child = .ok (some d)) :
    (∀ n, child.count.bind udata_value = some n → n = d) ∧
      (∀ upper, child.upper_bound.bind attr_i128 = some upper →
        (d.toNat : Int) = upper - (child.lower_bound.bind attr_i128).getD 0 + 1) ∧
      (child.count.bind udata_value ≠ none ∨ child.upper_bound.bind attr_i128 ≠ none) := by
  obtain ⟨counted, isCounted, byCount, byBounds, given⟩ := dimension_eq_ok read
  refine ⟨byCount, ?_, given.imp_right fun some none => ?_⟩
  · intro upper isUpper
    rw [isUpper, Option.map_some] at isCounted
    obtain ⟨c, isSome, checked⟩ := Option.map_eq_some_iff.mp isCounted.symm
    rw [← byBounds c isSome]
    exact bounds_count_eq (ok_or_eq_ok.mp checked.symm)
  · rw [none, Option.map_none, eq_comm, Option.map_eq_none_iff] at isCounted
    exact some isCounted

private theorem dimension_exact {child : Child} {d : UInt64} (read : dimension child = .ok (some d))
    (plain : Plain child) : ExactDimension child d.toNat := by
  obtain ⟨counted, bounded, given⟩ := dimension_parts read
  refine ⟨?_, ?_, ?_⟩
  · refine given.imp (fun count none => ?_) fun upper none => ?_
    · simp [none] at count
    · simp [none] at upper
  · intro value isCount
    obtain ⟨n, isNumber⟩ := plain.count value isCount
    obtain ⟨small, taken, same⟩ := udata_of_nat isNumber
    have equal := counted small (by rw [isCount, Option.bind_some, taken])
    rw [isNumber, ← same, equal]
  · intro value isUpper
    obtain ⟨isNumber, lower, isLower⟩ := plain.bounds value isUpper
    obtain ⟨upper, isNumber⟩ := Option.ne_none_iff_exists'.mp isNumber
    have bounds := bounded upper (by rw [isUpper, Option.bind_some, attr_i128_eq, isNumber])
    rw [lower_taken isLower] at bounds
    exact ⟨upper, lower, isNumber, isLower, bounds⟩

/-- A subrange whose dimension is what was read of it is plain. -/
theorem plain_of_exact {child : Child} {d : UInt64} {e : Int} (read : dimension child = .ok (some d))
    (exact : ExactDimension child e) : Plain child := by
  obtain ⟨counted, bounded, given⟩ := dimension_parts read
  have nonneg : 0 ≤ e := by
    -- a count that is not taken leaves the bounds, which give what was read
    cases isUpper : child.upper_bound with
    | some value =>
      obtain ⟨upper, lower, isNumber, isLower, isSpan⟩ := exact.bounded value isUpper
      have bounds := bounded upper (by rw [isUpper, Option.bind_some, attr_i128_eq, isNumber])
      rw [lower_taken isLower] at bounds
      omega
    | none =>
      rw [isUpper] at given
      obtain ⟨n, taken⟩ := Option.ne_none_iff_exists'.mp (given.resolve_right (by simp))
      obtain ⟨value, isCount, isValue⟩ := Option.bind_eq_some_iff.mp taken
      have number := exact.counted value isCount
      rw [udata_value_eq_some.mp isValue, Option.some.injEq] at number
      omega
  refine ⟨?_, ?_⟩
  · intro value isCount
    refine ⟨e.toNat, ?_⟩
    rw [exact.counted value isCount, Int.toNat_of_nonneg nonneg]
  · intro value isUpper
    obtain ⟨upper, lower, isNumber, isLower, _⟩ := exact.bounded value isUpper
    exact ⟨by rw [isNumber]; simp, lower, isLower⟩

/-- The loop reads one dimension of each subrange. -/
theorem dimensions_from_some {children : List Child} {before dimensions : List UInt64}
    (read : dimensions_from children before = .ok (some dimensions)) : dimensions ≠ [] ∧
      ∃ added, dimensions = before ++ added ∧ List.Forall₂ (fun child d => dimension child = .ok (some d))
        (children.filter fun child => child.tag = .subrange_type) added := by
  induction children generalizing before with
  | nil =>
    by_cases nothing : before = []
    · simp [dimensions_from, nothing] at read
    · rw [dimensions_from, if_neg nothing] at read
      obtain rfl : before = dimensions := Option.some.inj (Except.ok.inj read)
      exact ⟨nothing, [], by simp, .nil⟩
  | cons child rest ih =>
    by_cases other : child.tag ≠ .subrange_type
    · rw [dimensions_from, if_pos other] at read
      rw [List.filter_cons_of_neg (by simpa using other)]
      exact ih read
    · simp only [dimensions_from, if_neg other, bind_eq_ok] at read
      obtain ⟨one, isOne, read⟩ := read
      cases one with
      | none => cases read
      | some d =>
        obtain ⟨nonempty, added, isAll, each⟩ := ih read
        refine ⟨nonempty, d :: added, by rw [isAll, List.append_assoc, List.singleton_append], ?_⟩
        rw [List.filter_cons_of_pos (by simpa using other)]
        exact .cons isOne each

private theorem count_elements_eq {dimensions : List UInt64} {start count : UInt64}
    (counted : dimensions.foldlM checked_mul start = some count) :
    (count.toNat : Int) = start.toNat * (dimensions.map fun d => (d.toNat : Int)).prod := by
  induction dimensions generalizing start with
  | nil =>
    obtain rfl : start = count := Option.some.inj counted
    simp
  | cons d rest ih =>
    rw [List.foldlM_cons, Option.bind_eq_bind, Option.bind_eq_some_iff] at counted
    obtain ⟨product, isProduct, later⟩ := counted
    rw [ih later, checked_mul_eq_some.mp isProduct, List.map_cons, List.prod_cons, Nat.cast_mul, mul_assoc]

private theorem exact_of_forall₂ {children : List Child} {dimensions : List UInt64}
    (each : List.Forall₂ (fun child d => dimension child = .ok (some d)) children dimensions)
    (plain : ∀ child ∈ children, Plain child) :
    List.Forall₂ (fun child (d : UInt64) => ExactDimension child d.toNat) children dimensions := by
  induction each with
  | nil => exact .nil
  | cons read _ ih =>
    exact .cons (dimension_exact read (plain _ List.mem_cons_self)) (ih fun child member =>
      plain child (List.mem_cons_of_mem _ member))

private theorem plain_of_forall₂ {children : List Child} {dimensions : List UInt64} {exact : List Int}
    (each : List.Forall₂ (fun child d => dimension child = .ok (some d)) children dimensions)
    (dims : List.Forall₂ ExactDimension children exact) : ∀ child ∈ children, Plain child := by
  induction each generalizing exact with
  | nil => simp
  | cons read _ ih =>
    cases dims with
    | cons head tail =>
      intro child member
      rcases List.mem_cons.mp member with rfl | later
      · exact plain_of_exact read head
      · exact ih tail child later

/-- The number of elements is the product of the dimensions if and only if every
    subrange of the array is plain. -/
theorem exactCount_iff {die : Die} {dimensions : List UInt64} {count : UInt64}
    (read : array_dimensions die = .ok (some dimensions)) (counted : count_elements dimensions = some count) :
    ExactCount die count ↔ ∀ child ∈ subranges die, Plain child := by
  obtain ⟨nonempty, added, isAll, each⟩ := dimensions_from_some read
  rw [List.nil_append] at isAll
  subst isAll
  constructor
  · rintro ⟨exact, _, dims, _⟩
    exact plain_of_forall₂ each dims
  · intro plain
    refine ⟨dimensions.map fun d => (d.toNat : Int), by simpa using nonempty, ?_, ?_⟩
    · rw [List.forall₂_map_right_iff]
      exact exact_of_forall₂ each plain
    · have product := count_elements_eq counted
      rw [product]
      simp

/-- What is promised of the type of an array: its number of elements is the product
    of its dimensions if and only if its subranges are plain, and a size that the
    array does not give itself is the product of its elements' number and size. -/
structure ArrayInfo (die : Die) (info : TypeInfo) : Prop where
  count : ∀ n, info.element_count = some n → (ExactCount die n ↔ ∀ child ∈ subranges die, Plain child)
  computed : die.byte_size.bind udata_value = none → ∀ bytes, info.byte_size = some bytes →
    ∃ n size, info.element_count = some n ∧ info.element_size = some size ∧ bytes.toNat = size.toNat * n.toNat

theorem element_count_exact_iff {dwarf : DebugInfo} {remaining : Nat} {visited : List DieId} {id : DieId} {die : Die}
    {size : UInt8} {info : TypeInfo} (found : entry dwarf id = .ok (die, size)) (isArray : die.tag = .array_type)
    (resolved : resolve_type dwarf remaining visited id = .ok info) : ArrayInfo die info := by
  cases remaining with
  | zero => cases resolved
  | succ remaining =>
    rw [resolve_type] at resolved
    by_cases seen : id ∈ visited
    · rw [if_pos seen] at resolved
      cases resolved
    have notAlias : ¬ is_alias die.tag = true := by simp [isArray, is_alias]
    simp only [if_neg seen, bind_eq_ok, found, Except.ok.injEq, exists_eq_left', if_neg notAlias, if_pos isArray] at resolved
    obtain ⟨value, _, element_id, _, element, _, dimensions, read, isInfo⟩ := resolved
    obtain rfl : array_info (die.byte_size.bind udata_value) element dimensions = info := Except.ok.inj isInfo
    constructor
    · intro n isCount
      obtain ⟨dims, rfl, counted⟩ := Option.bind_eq_some_iff.mp isCount
      exact exactCount_iff read counted
    · intro none bytes isBytes
      simp only [array_info, none, Option.orElse_eq_orElse, Option.orElse_none, Option.bind_eq_bind,
        Option.bind_eq_some_iff, checked_mul_eq_some] at isBytes
      obtain ⟨elementSize, isSize, n, ⟨dims, isDims, counted⟩, product⟩ := isBytes
      refine ⟨n, elementSize, ?_, isSize, product⟩
      simp only [array_info, isDims, Option.bind_some, counted]

end HeapAnalyser.DwarfTypes
