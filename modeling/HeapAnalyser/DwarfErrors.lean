import HeapAnalyser.DwarfExtract

/-!
When debuginfo counts as unavailable. Detection says nothing of an extraction that
ends with `Unavailable`, so that error must not stand for anything else. No check
on the way to a layout ends with it, and none that is kept for a target is it: it
is the error of `extract_layout` exactly where the sections load and
`.debug_info` is empty (`extract_layout_unavailable`).
-/
namespace HeapAnalyser.DwarfErrors
open Checks Dwarf DwarfSelection DwarfSections DwarfTypes DwarfScan DwarfExtract

/-- Another error than `Unavailable`. -/
def Told (error : DwarfLayoutError) : Prop := error ≠ .Unavailable

/-- A check that does not say that debuginfo is unavailable. -/
abbrev Tells {α : Type} (checked : Except DwarfLayoutError α) : Prop := Throws Told checked

@[simp] theorem told_unsupported (feature : String) : Told (.Unsupported feature) := fun same => by cases same

@[simp] theorem told_limit (resource : String) : Told (.Limit resource) := fun same => by cases same

@[simp] theorem told_invalid (reason : String) : Told (.Invalid reason) := fun same => by cases same

@[simp] theorem told_parse (reason : String) : Told (.Parse reason) := fun same => by cases same

@[simp] theorem tells_invalid {α : Type} (reason : String) : Tells (invalid reason : Except DwarfLayoutError α) :=
  throws_error.mpr (told_invalid reason)

@[simp] theorem tells_parse_error {α : Type} (value : Except String α) : Tells (parse_error value) := by
  cases value <;> simp [parse_error]

private theorem tells_decompress (host : Host) (payload : List UInt8) (declared : UInt64) :
    Tells (decompress host payload declared).result := by
  simp only [decompress, bind_result, lift_result]
  refine throws_bind (by simp) fun _ => throws_bind (by simp) fun limit => ?_
  split
  · simp
  · exact throws_ite (by simp) (by simp)

private theorem tells_compressed_payload (is_64bit : Bool) (input : List UInt8) (legacy : Bool) :
    Tells (compressed_payload is_64bit input legacy) := by
  unfold compressed_payload
  split_ifs <;> simp

private theorem tells_reserve_section (total size : UInt64) : Tells (reserve_section total size) := by
  unfold reserve_section
  exact throws_bind (by simp) fun _ => throws_bind (by simp) fun _ => throws_bind (by simp) fun _ => by simp

private theorem tells_section_data (host : Host) (elf : SectionedElf) (name : String) (header : SectionHeader)
    (total : UInt64) : Tells (DwarfSections.section_data host elf name header total).result := by
  simp only [DwarfSections.section_data, section_input, bind_result, lift_result]
  refine throws_bind (throws_bind (by simp) fun _ => by simp) fun input => ?_
  split
  · simp only [bind_result, lift_result, pure_result]
    refine throws_bind (tells_compressed_payload _ _ _) fun declared => ?_
    exact throws_bind (tells_reserve_section _ _) fun _ => throws_bind (tells_decompress _ _ _) fun _ => by simp
  · simp only [bind_result, lift_result, pure_result]
    exact throws_bind (tells_reserve_section _ _) fun _ => by simp

private theorem tells_load_sections (host : Host) (elf : SectionedElf) : Tells (load_sections host elf) := by
  have run : ∀ headers total sections, Tells (load_from host elf headers total sections).result := by
    intro headers
    induction headers with
    | nil => exact fun _ _ => throws_ok _
    | cons header rest ih =>
      intro total sections
      rw [load_from]
      split
      · exact ih _ _
      split
      · rw [bind_result]
        refine throws_bind (tells_section_data _ _ _ _ _) ?_
        rintro ⟨data, after⟩
        dsimp only
        split
        · exact tells_invalid _
        · exact ih _ _
      · exact ih _ _
  exact run _ _ _

private theorem tells_entry (dwarf : DebugInfo) (id : DieId) : Tells (entry dwarf id) := by
  unfold entry
  exact throws_bind (by simp) fun _ => throws_bind (by simp) fun _ => by simp

private theorem tells_attribute_die_ref (dwarf : DebugInfo) (unit : Nat) (value : AttributeValue) :
    Tells (attribute_die_ref dwarf unit value) := by
  have reload : ∀ offset, Tells (reload_unit dwarf offset) := fun offset => by
    unfold reload_unit
    exact throws_bind (by simp) fun _ => by simp
  have load : ∀ absolute, Tells (load_unit_at dwarf absolute) := fun absolute => by
    unfold load_unit_at
    split
    · simp
    · exact throws_ite (throws_bind (reload _) fun _ => by simp) (by simp)
  unfold attribute_die_ref
  split
  · exact throws_bind (reload _) fun _ => by simp
  · exact load _
  · simp
  · simp
  · simp

private theorem tells_resolve_structure (dwarf : DebugInfo) (remaining : Nat) (visited : List DieId) (id : DieId) :
    Tells (resolve_structure dwarf remaining visited id) := by
  induction remaining generalizing visited id with
  | zero => simp [resolve_structure]
  | succ remaining ih =>
    rw [resolve_structure]
    refine throws_ite (by simp) (throws_bind (tells_entry _ _) fun die => throws_ite ?_ (throws_ite ?_ (by simp)))
    · unfold reload_unit
      exact throws_bind (throws_bind (by simp) fun _ => by simp) fun _ => by simp
    · exact throws_bind (by simp) fun _ => throws_bind (tells_attribute_die_ref _ _ _) fun _ => ih _ _

private theorem tells_array_dimensions (die : Die) : Tells (array_dimensions die) := by
  have one : ∀ child, Tells (dimension child) := by
    intro child
    unfold dimension
    refine throws_bind (throws_transpose fun c listed => ?_) fun counted => ?_
    · obtain ⟨upper, _, rfl⟩ := Option.map_eq_some_iff.mp listed
      simp
    · split
      · exact throws_ite (by simp) (by simp)
      · simp
      · simp
  have run : ∀ children dimensions, Tells (dimensions_from children dimensions) := by
    intro children
    induction children with
    | nil => exact fun _ => throws_ok _
    | cons child rest ih =>
      intro dimensions
      rw [dimensions_from]
      refine throws_ite (ih _) (throws_bind (one _) fun count => ?_)
      split
      · simp
      · exact ih _
  exact run _ _

private theorem tells_resolve_type (dwarf : DebugInfo) (remaining : Nat) (visited : List DieId) (id : DieId) :
    Tells (resolve_type dwarf remaining visited id) := by
  induction remaining generalizing visited id with
  | zero => simp [resolve_type]
  | succ remaining ih =>
    rw [resolve_type]
    refine throws_ite (by simp) (throws_bind (tells_entry _ _) fun die => throws_ite ?_ (throws_ite ?_ (by simp)))
    · exact throws_bind (by simp) fun _ => throws_bind (tells_attribute_die_ref _ _ _) fun _ => ih _ _
    · refine throws_bind (by simp) fun _ => throws_bind (tells_attribute_die_ref _ _ _) fun _ => ?_
      exact throws_bind (ih _ _) fun _ => throws_bind (tells_array_dimensions _) fun _ => by simp

private theorem tells_entry_name (value : Option AttributeValue) : Tells (entry_name value) := by
  unfold entry_name
  split
  · simp
  · simp
  · exact throws_bind (by simp) fun _ => throws_bind (by simp) fun _ => throws_bind (by simp) fun _ => by simp
  · simp

private theorem tells_member_location (member : Child) : Tells (member_location member) := by
  have next : ∀ operations, Tells (next_operation operations) := by
    intro operations
    cases operations with
    | nil => exact throws_ok _
    | cons operation rest => exact throws_map _ (by simp)
  unfold member_location
  refine throws_bind (by simp) fun value => ?_
  split
  · simp
  · refine throws_bind (next _) fun first => throws_bind (next _) fun second => ?_
    split
    · simp
    · simp
  · simp

private theorem tells_parse_structure (dwarf : DebugInfo) (id : DieId) (target : Target) :
    Tells (parse_structure dwarf id target) := by
  have member : ∀ unit wanted child, Tells (parse_member dwarf unit wanted child) := by
    intro unit wanted child
    unfold parse_member
    refine throws_ite (by simp) (throws_bind (tells_entry_name _) fun name => ?_)
    split
    · simp
    · refine throws_ite (by simp) (throws_bind (tells_member_location _) fun _ => ?_)
      refine throws_bind (by simp) fun _ => throws_bind (tells_attribute_die_ref _ _ _) fun _ => ?_
      exact throws_bind (tells_resolve_type _ _ _ _) fun _ => by simp
  unfold parse_structure
  refine throws_bind (tells_entry _ _) fun die => throws_bind (by simp) fun _ => throws_bind (by simp) fun _ => ?_
  refine throws_bind ?_ fun _ => throws_bind (throws_filterMapM (member _ _) _) fun _ => by simp
  unfold validate_struct_size
  simp

/-- No error that is kept for a target says that debuginfo is unavailable. -/
def Recorded (index : TypeIndex) : Prop := ∀ target, ∀ error ∈ index.errors target, Told error

private theorem recorded_push {index : TypeIndex} (target : Target) (candidate : Structure) (recorded : Recorded index) :
    Recorded (push_candidate index target candidate) := recorded

/-- An error that is routed is told, or recorded. -/
theorem route_recorded {index : TypeIndex} (target : Target) {error : DwarfLayoutError} (recorded : Recorded index)
    (told : Told error) :
    Tells (route index target error) ∧ ∀ next, route index target error = .ok next → Recorded next := by
  have added : Recorded (record_error index target error) := by
    intro other kept member
    unfold record_error at member
    simp only at member
    by_cases same : other = target
    · subst same
      rw [Function.update_self, Option.mem_def, Option.or_eq_some_iff] at member
      rcases member with old | ⟨_, new⟩
      · exact recorded other kept old
      · cases new
        exact told
    · rw [Function.update_of_ne same] at member
      exact recorded other kept member
  cases error with
  | Limit resource => exact ⟨by simp [route], fun next routed => by cases routed⟩
  | _ =>
    refine ⟨throws_ok _, fun next routed => ?_⟩
    cases routed
    exact added

private theorem scan_found_tells {dwarf : DebugInfo} {unit : Nat} {found : List (Target × Nat)}
    {seen : List (Target × DieId)} {index : TypeIndex} (recorded : Recorded index) :
    Tells (scan_found dwarf unit found seen index) ∧
      ∀ result, scan_found dwarf unit found seen index = .ok result → Recorded result := by
  induction found generalizing seen index with
  | nil =>
    refine ⟨throws_ok _, fun result scanned => ?_⟩
    cases scanned
    exact recorded
  | cons item rest ih =>
    obtain ⟨target, offset⟩ := item
    -- An item that fails with an error that is told.
    have failed : ∀ seenAfter error, Told error →
        Tells (route index target error >>= fun index => scan_found dwarf unit rest seenAfter index) ∧
        ∀ result, (route index target error >>= fun index => scan_found dwarf unit rest seenAfter index) = .ok result →
          Recorded result := by
      intro seenAfter error told
      obtain ⟨tells, kept⟩ := route_recorded target recorded told
      cases routed : route index target error with
      | error e => exact ⟨throws_error.mpr (tells e routed), fun result run => by cases run⟩
      | ok next => exact ih (kept next routed)
    rw [scan_found]
    cases resolved : resolve_structure dwarf MAX_REFERENCE_DEPTH [] (unit, offset) with
    | error error => exact failed seen error (tells_resolve_structure _ _ _ _ error resolved)
    | ok id =>
      by_cases again : (target, id) ∈ seen
      · simp only [if_pos again]
        exact ih recorded
      · simp only [if_neg again]
        cases parsed : parse_structure dwarf id target with
        | error error => exact failed ((target, id) :: seen) error (tells_parse_structure _ _ _ error parsed)
        | ok candidate => exact ih (recorded_push target candidate recorded)

private theorem tells_find_targets (stream : List (Except String Entry)) (counters : Counters)
    (found : List (Target × Nat)) : Tells (find_targets stream counters found) := by
  have named : ∀ entry, Tells (entry_target entry) := by
    intro entry
    unfold entry_target
    exact throws_ite (throws_bind (by simp) fun _ => throws_bind (tells_entry_name _) fun _ => by simp) (by simp)
  induction stream generalizing counters found with
  | nil => exact throws_ok _
  | cons next rest ih =>
    rw [find_targets]
    refine throws_bind (by simp) fun entry => throws_bind (by simp) fun _ => throws_bind (named _) fun target => ?_
    split
    · exact ih _ _
    · exact throws_bind (by simp) fun _ => ih _ _

private theorem scan_units_tells {decoded : Decoded} {dwarf : DebugInfo} {headers : List Header} {counters : Counters}
    {index : TypeIndex} (recorded : Recorded index) :
    Tells (scan_units decoded dwarf headers counters index) ∧
      ∀ result, scan_units decoded dwarf headers counters index = .ok result → Recorded result := by
  induction headers generalizing counters index with
  | nil =>
    refine ⟨throws_ok _, fun result scanned => ?_⟩
    cases scanned
    exact recorded
  | cons header rest ih =>
    have split : ∀ unit, Tells (refuse_split unit) := fun unit => by
      unfold refuse_split
      exact throws_bind (by simp) fun _ => throws_bind (by simp) fun _ => by simp
    have own : ∀ unit, Tells (scan_unit dwarf header.offset unit counters index) := fun unit => by
      unfold scan_unit
      exact throws_bind (tells_find_targets _ _ _) fun _ => throws_bind (scan_found_tells recorded).1 fun _ => by simp
    have kept : ∀ unit after next, scan_unit dwarf header.offset unit counters index = .ok (after, next) →
        Recorded next := by
      intro unit after next scanned
      simp only [scan_unit, bind_eq_ok] at scanned
      obtain ⟨_, _, index, run, made⟩ := scanned
      cases made
      exact (scan_found_tells recorded).2 _ run
    rw [scan_units]
    refine ⟨?_, fun result scanned => ?_⟩
    · refine throws_bind (by simp) fun unit => throws_bind (split unit) fun _ => throws_bind_ok (own unit) ?_
      intro next scanned
      exact (ih (kept unit next.1 next.2 scanned)).1
    · simp only [bind_eq_ok] at scanned
      obtain ⟨unit, _, _, _, next, ran, later⟩ := scanned
      exact (ih (kept unit next.1 next.2 ran)).2 result later

private theorem index_types_tells (decoded : Decoded) :
    Tells (index_types decoded) ∧ ∀ index, index_types decoded = .ok index → Recorded index := by
  have headers : ∀ stream collected, Tells (collect_headers stream collected) := by
    intro stream
    induction stream with
    | nil => exact fun _ => throws_ok _
    | cons next rest ih =>
      intro collected
      rw [collect_headers]
      refine throws_bind (by simp) fun header => throws_bind (by simp) fun _ => ?_
      split
      · exact ih _
      · exact ih _
      · simp
      · simp
      · simp
      · simp
  have empty : Recorded no_types := fun _ _ member => by cases member
  refine ⟨throws_bind (headers _ _) fun _ => (scan_units_tells empty).1, fun index indexed => ?_⟩
  simp only [index_types, bind_eq_ok] at indexed
  obtain ⟨_, _, scanned⟩ := indexed
  exact (scan_units_tells empty).2 index scanned

private theorem tells_field_range (member : Member) (struct_size : UInt64) : Tells (field_range member struct_size) := by
  unfold field_range
  exact throws_bind (by simp) fun _ => throws_bind (by simp) fun _ => by simp

private theorem tells_word_member (member : Member) (struct_size word : UInt64) (kind : TypeKind) (reason : String) :
    Tells (word_member member struct_size word kind reason) := by
  unfold word_member
  exact throws_bind (tells_field_range _ _) fun _ => by simp

private theorem tells_array (member : Member) (struct_size : UInt64) (kind : TypeKind) (expected_width : Option UInt64) :
    Tells (array member struct_size kind expected_width) := by
  unfold array
  refine throws_bind (tells_field_range _ _) fun _ => throws_bind (by simp) fun _ => throws_bind (by simp) fun _ => ?_
  refine throws_bind (by simp) fun _ => throws_bind (by simp) fun _ => throws_bind (by simp) fun _ => ?_
  exact throws_bind (by simp) fun _ => by simp

private theorem tells_required_member (struct : Structure) (name : String) : Tells (required_member struct name) := by
  unfold required_member
  split <;> simp

private theorem tells_optional_word_member (struct : Structure) (name : String) (word : UInt64) :
    Tells (optional_word_member struct name word) := by
  unfold optional_word_member
  split
  · simp
  · exact throws_bind (tells_word_member _ _ _ _ _) fun _ => by simp
  · simp

private theorem tells_no_overlap (members : List Member) : Tells (no_overlap members) := by
  have one : ∀ left rest, Tells (no_overlap_with left rest) := by
    intro left rest
    induction rest with
    | nil => exact throws_ok _
    | cons right rest ih =>
      rw [no_overlap_with]
      exact throws_ite (by simp) ih
  induction members with
  | nil => exact throws_ok _
  | cons left rest ih =>
    rw [no_overlap]
    exact throws_bind (one _ _) fun _ => ih

private theorem tells_validate (word : UInt64) (target : Target) (struct : Structure) :
    Tells (validate word target struct) := by
  have member := tells_required_member struct
  have word_at := tells_word_member
  cases target with
  | MallocState =>
    refine throws_bind (member _) fun _ => throws_bind (tells_array _ _ _ _) fun _ => throws_bind (by simp) fun _ => ?_
    refine throws_bind (member _) fun _ => throws_bind (word_at _ _ _ _ _) fun _ => throws_bind (member _) fun _ => ?_
    exact throws_bind (word_at _ _ _ _ _) fun _ => throws_bind (tells_no_overlap _) fun _ => throws_ok _
  | MallocPar =>
    refine throws_bind (member _) fun _ => throws_bind (word_at _ _ _ _ _) fun _ => ?_
    refine throws_bind (tells_optional_word_member _ _ _) fun _ => ?_
    exact throws_bind (tells_optional_word_member _ _ _) fun _ => throws_ok _
  | HeapInfo =>
    refine throws_bind (member _) fun _ => throws_bind (word_at _ _ _ _ _) fun _ => throws_bind (member _) fun _ => ?_
    refine throws_bind (word_at _ _ _ _ _) fun _ => throws_bind (member _) fun _ => ?_
    refine throws_bind (word_at _ _ _ _ _) fun _ => throws_bind (member _) fun _ => ?_
    exact throws_bind (word_at _ _ _ _ _) fun _ => throws_bind (tells_no_overlap _) fun _ => throws_ok _
  | Tcache =>
    have counts : ∀ member, Tells (integer_array member struct.byte_size) := fun member => by
      unfold integer_array
      split
      · exact tells_array _ _ _ _
      · exact tells_array _ _ _ _
      · simp
    refine throws_bind (member _) fun _ => throws_bind (counts _) fun _ => throws_bind (by simp) fun _ => ?_
    refine throws_bind (member _) fun _ => throws_bind (tells_array _ _ _ _) fun _ => throws_bind (by simp) fun _ => ?_
    exact throws_bind (tells_no_overlap _) fun _ => throws_ok _

/-- What selection ends with is an error of validating, one that is kept, or its own. -/
theorem tells_select {T : Type} [DecidableEq T] {index : TypeIndex} {target : Target}
    {check : Structure → Except DwarfLayoutError T} (recorded : Recorded index)
    (each : ∀ struct, Tells (check struct)) : Tells (select index target check) := by
  have first : ∀ candidates valid error, (∀ e ∈ error, Told e) →
      ∀ e ∈ (select_from check candidates valid error).2, Told e := by
    intro candidates
    induction candidates with
    | nil => exact fun _ _ told => told
    | cons candidate rest ih =>
      intro valid error told
      rw [select_from]
      split
      · split_ifs
        · exact ih _ _ told
        · exact ih _ _ told
      · rename_i e fails
        refine ih _ _ fun kept member => ?_
        cases error with
        | none =>
          cases member
          exact each candidate e fails
        | some first =>
          cases member
          exact told first rfl
  have own := recorded target
  unfold select
  split
  · cases kept : index.errors target with
    | none => simp
    | some error => exact throws_error.mpr (own error kept)
  · rename_i candidates _
    have begun := first candidates [] none fun _ none => by cases none
    split
    · simp
    · rename_i error none
      rw [none] at begun
      cases error with
      | none => simp
      | some e => exact throws_error.mpr (begun e rfl)
    · simp

private theorem tells_assemble_layout {index : TypeIndex} (recorded : Recorded index) (word : UInt64)
    (require_tcache : Bool) : Tells (assemble_layout index word require_tcache) := by
  have narrow : ∀ value field, Tells (checked_u32 value field) := by
    intro value field
    unfold checked_u32
    exact throws_ite (by simp) (by simp)
  have optional : ∀ {T : Type} (value : Option T) (number : T → UInt64) (field : String),
      Tells (transpose (value.map fun v => checked_u32 (number v) field)) := by
    intro T value number field
    refine throws_transpose fun c listed => ?_
    obtain ⟨v, _, rfl⟩ := Option.map_eq_some_iff.mp listed
    exact narrow _ _
  have each := tells_validate word
  unfold assemble_layout narrow_layout
  refine throws_bind (by simp) fun _ => throws_bind (tells_select recorded (each .MallocState)) fun _ => ?_
  refine throws_bind (tells_select recorded (each .MallocPar)) fun _ => ?_
  refine throws_bind (tells_select recorded (each .HeapInfo)) fun _ => throws_bind ?_ fun _ => ?_
  · exact throws_ite (throws_map _ (tells_select recorded (each .Tcache))) (by simp)
  · refine throws_bind (narrow _ _) fun _ => throws_bind (narrow _ _) fun _ => throws_bind (narrow _ _) fun _ => ?_
    refine throws_bind (narrow _ _) fun _ => throws_bind (narrow _ _) fun _ => throws_bind (optional _ _ _) fun _ => ?_
    refine throws_bind (narrow _ _) fun _ => throws_bind (optional _ _ _) fun _ => throws_bind (narrow _ _) fun _ => ?_
    refine throws_bind (narrow _ _) fun _ => throws_bind (narrow _ _) fun _ => throws_bind (narrow _ _) fun _ => ?_
    refine throws_bind (narrow _ _) fun _ => throws_bind (optional _ _ _) fun _ => ?_
    exact throws_bind (optional _ _ _) fun _ => throws_ok _

/-- Debuginfo is unavailable exactly where its sections load and `.debug_info` is empty. -/
theorem extract_layout_unavailable {host : Host} {decode : List (String × List UInt8) → Decoded} {elf : SectionedElf}
    {require_tcache : Bool} : extract_layout host decode elf require_tcache = .error .Unavailable ↔
      ∃ sections, load_sections host elf = .ok sections ∧ section_bytes sections ".debug_info" = [] := by
  unfold extract_layout
  constructor
  · intro unavailable
    cases loaded : load_sections host elf with
    | error error =>
      rw [loaded] at unavailable
      cases unavailable
      exact absurd rfl (tells_load_sections host elf _ loaded)
    | ok sections =>
      refine ⟨sections, rfl, ?_⟩
      by_contra present
      have rest : Tells (do
          refuse (section_bytes sections ".debug_types" ≠ []) (.Unsupported "DWARF4 type units")
          let index ← index_types (decode sections)
          assemble_layout index (elf_word elf) require_tcache) := by
        obtain ⟨tells, kept⟩ := index_types_tells (decode sections)
        refine throws_bind (by simp) fun _ => throws_bind_ok tells fun index indexed => ?_
        exact tells_assemble_layout (kept index indexed) _ _
      have passed : refuse (section_bytes sections ".debug_info" = []) DwarfLayoutError.Unavailable = .ok ⟨⟩ :=
        refuse_eq_ok.mpr present
      rw [loaded] at unavailable
      change (refuse (section_bytes sections ".debug_info" = []) DwarfLayoutError.Unavailable >>= fun _ => _) = _
        at unavailable
      rw [passed] at unavailable
      exact rest _ unavailable rfl
  · rintro ⟨sections, loaded, empty⟩
    rw [loaded]
    simp only [bind, Except.bind, refuse, if_pos empty]

end HeapAnalyser.DwarfErrors
