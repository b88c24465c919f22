import HeapAnalyser.Version

/-!
The symbols that the analysis needs (`scan_symbols` of `glibc/mod.rs`). The
symbol table of the runtime libc is read first and that of the debuginfo behind
it. For each wanted symbol the first definition is kept, and a later one with
another value is reported. So the debuginfo fills what the runtime has not and
overrides nothing, and where nothing is reported the order of the tables decides
no value (`symbols_exact`).
-/
namespace HeapAnalyser.SymbolScan
open Version

/-- The wanted symbols. -/
inductive Slot where
  | main_arena
  | mp
  | narenas
  | narenas_limit
  | tcache
  | tcache_key
  | thread_arena
  | hugepage_config
  deriving Repr, DecidableEq

/-- The fields of `Symbols`, by the wanted symbol. -/
abbrev Symbols := Slot → SymbolInfo

/-- `SymbolInfo::default`. -/
def absent : SymbolInfo := ⟨false, 0, 0⟩

/-- The wanted symbol of a name. An LTO build has `narenas_limit` with a suffix. -/
def slot_of (name : String) : Option Slot :=
  if name = "main_arena" then some .main_arena
  else if name = "mp_" then some .mp
  else if name = "narenas" then some .narenas
  else if name = "tcache" ∨ name = "__tcache" then some .tcache
  else if name = "tcache_key" then some .tcache_key
  else if name = "thread_arena" then some .thread_arena
  else if name = "__malloc_hugepage_config" then some .hugepage_config
  else if "narenas_limit".toList.isPrefixOf name.toList then some .narenas_limit
  else none

/-- A turn of the loop of `fill_symbols`. -/
def fill_turn (state : Symbols × List Problem) (sym : Sym) : Symbols × List Problem :=
  if sym.st_shndx = 0 then state
  else match sym.name with
    | none => state
    | some name =>
      match slot_of name with
      | none => state
      | some slot =>
        if (state.1 slot).present = true then
          -- The first definition wins; another value is worth a flag.
          if (state.1 slot).value ≠ sym.st_value then (state.1, state.2 ++ [.DuplicateSymbol name])
          else state
        else (Function.update state.1 slot ⟨true, sym.st_value, sym.st_size⟩, state.2)

def fill_symbols (elf : Object) (state : Symbols × List Problem) : Symbols × List Problem :=
  elf.syms.foldl fill_turn state

/-- The symbols of the runtime, filled from the debuginfo where it is given. -/
def scan_symbols (runtime : Object) (debug : Option Object) : Symbols × List Problem :=
  let state := fill_symbols runtime (fun _ => absent, [])
  match debug with
  | some debug => fill_symbols debug state
  | none => state

/-- A definition of a wanted symbol. -/
structure Definition where
  slot : Slot
  name : String
  value : UInt64
  size : UInt64
  deriving Repr, DecidableEq

/-- The definition that an entry of a symbol table is, if it is one that is wanted. -/
def definition (sym : Sym) : Option Definition :=
  if sym.st_shndx = 0 then none
  else do
    let name ← sym.name
    let slot ← slot_of name
    return ⟨slot, name, sym.st_value, sym.st_size⟩

def definitions (elf : Object) : List Definition := elf.syms.filterMap definition

/-- The symbol as its first definition has it. -/
def firstOf (defs : List Definition) (slot : Slot) : SymbolInfo :=
  match defs.find? fun d => d.slot = slot with
  | some d => ⟨true, d.value, d.size⟩
  | none => absent

/-- The flags for definitions that differ from the first one among all. -/
def differing (all part : List Definition) : List Problem :=
  part.filterMap fun d => if (firstOf all d.slot).value ≠ d.value then some (.DuplicateSymbol d.name) else none

/-- What the scan has behind some definitions. -/
def Scanned (defs : List Definition) (state : Symbols × List Problem) : Prop :=
  state = (firstOf defs, differing defs defs)

private theorem firstOf_append (front back : List Definition) (slot : Slot) : firstOf (front ++ back) slot =
    if (firstOf front slot).present = true then firstOf front slot else firstOf back slot := by
  unfold firstOf
  rw [List.find?_append]
  cases front.find? fun d => decide (d.slot = slot) with
  | none => simp [absent]
  | some d => simp

theorem firstOf_present {defs : List Definition} {slot : Slot} :
    (firstOf defs slot).present = true ↔ ∃ d ∈ defs, d.slot = slot := by
  unfold firstOf
  cases found : defs.find? fun d => decide (d.slot = slot) with
  | none =>
    rw [List.find?_eq_none] at found
    simpa [absent] using found
  | some d =>
    have listed := List.mem_of_find?_eq_some found
    have isSlot : d.slot = slot := by simpa using List.find?_some found
    exact ⟨fun _ => ⟨d, listed, isSlot⟩, fun _ => rfl⟩

/-- The first definitions do not change behind definitions that have them. -/
theorem differing_append (defs back part : List Definition) (inside : ∀ d ∈ part, d ∈ defs) :
    differing (defs ++ back) part = differing defs part := by
  unfold differing
  refine List.filterMap_congr fun d listed => ?_
  have present := firstOf_present.mpr ⟨d, inside d listed, rfl⟩
  rw [firstOf_append, if_pos present]

private theorem firstOf_absent {defs : List Definition} {slot : Slot} (missing : ¬ (firstOf defs slot).present = true) :
    firstOf defs slot = absent := by
  unfold firstOf at missing ⊢
  cases found : defs.find? fun d => decide (d.slot = slot) with
  | none => rfl
  | some d => simp [found] at missing

private theorem firstOf_singleton (d : Definition) (slot : Slot) :
    firstOf [d] slot = if d.slot = slot then ⟨true, d.value, d.size⟩ else absent := by
  unfold firstOf
  by_cases isSlot : d.slot = slot <;> simp [isSlot]

/-- A further definition of a symbol changes none. -/
theorem firstOf_further {defs : List Definition} (d : Definition) (known : (firstOf defs d.slot).present = true) :
    firstOf (defs ++ [d]) = firstOf defs := by
  funext slot
  rw [firstOf_append]
  by_cases present : (firstOf defs slot).present = true
  · rw [if_pos present]
  · have other : d.slot ≠ slot := fun same => present (same ▸ known)
    rw [if_neg present, firstOf_singleton, if_neg other, firstOf_absent present]

private theorem firstOf_new {defs : List Definition} (d : Definition) (unknown : ¬ (firstOf defs d.slot).present = true) :
    firstOf (defs ++ [d]) = Function.update (firstOf defs) d.slot ⟨true, d.value, d.size⟩ := by
  funext slot
  rw [firstOf_append, firstOf_singleton]
  by_cases same : slot = d.slot
  · subst same
    rw [if_neg unknown, if_pos rfl, Function.update_self]
  · rw [Function.update_of_ne same, if_neg (Ne.symm same)]
    by_cases present : (firstOf defs slot).present = true
    · rw [if_pos present]
    · rw [if_neg present, firstOf_absent present]

private theorem differing_push (defs : List Definition) (d : Definition) :
    differing (defs ++ [d]) (defs ++ [d]) = differing defs defs ++
      if (firstOf (defs ++ [d]) d.slot).value ≠ d.value then [.DuplicateSymbol d.name] else [] := by
  have old := differing_append defs [d] defs fun _ listed => listed
  unfold differing at old ⊢
  rw [List.filterMap_append, old]
  by_cases differs : (firstOf (defs ++ [d]) d.slot).value ≠ d.value <;> simp [differs]

/-- One entry more: it is no definition, a further one or the first of its symbol. -/
theorem fill_turn_scanned {defs : List Definition} {state : Symbols × List Problem} (sym : Sym)
    (scanned : Scanned defs state) : Scanned (defs ++ (definition sym).toList) (fill_turn state sym) := by
  unfold Scanned at scanned
  subst scanned
  unfold fill_turn definition Scanned
  by_cases undefined : sym.st_shndx = 0
  · simp [undefined]
  · rw [if_neg undefined, if_neg undefined]
    cases sym.name with
    | none => simp
    | some name =>
      cases isSlot : slot_of name with
      | none => simp [isSlot]
      | some slot =>
        have entry : (do
            let name ← some name
            let slot ← slot_of name
            return (⟨slot, name, sym.st_value, sym.st_size⟩ : Definition)) =
              some ⟨slot, name, sym.st_value, sym.st_size⟩ := by
          simp [isSlot]
        rw [entry, Option.toList_some, differing_push]
        by_cases known : (firstOf defs slot).present = true
        · rw [firstOf_further _ known]
          by_cases differs : (firstOf defs slot).value ≠ sym.st_value <;> simp [isSlot, known, differs]
        · rw [firstOf_new _ known]
          simp [isSlot, known]

private theorem fill_symbols_scanned {defs : List Definition} {state : Symbols × List Problem} (elf : Object)
    (scanned : Scanned defs state) : Scanned (defs ++ definitions elf) (fill_symbols elf state) := by
  unfold fill_symbols definitions
  induction elf.syms generalizing defs state with
  | nil => simpa using scanned
  | cons sym rest ih =>
    have later := ih (fill_turn_scanned sym scanned)
    rw [List.append_assoc] at later
    rw [List.filterMap_cons]
    cases made : definition sym <;> simpa [made] using later

/-- The definitions that the scan reads, in order. -/
def wanted (runtime : Object) (debug : Option Object) : List Definition :=
  definitions runtime ++ (debug.elim [] definitions)

theorem scan_symbols_scanned (runtime : Object) (debug : Option Object) :
    Scanned (wanted runtime debug) (scan_symbols runtime debug) := by
  have start : Scanned [] (fun _ => absent, []) := by
    unfold Scanned firstOf differing
    rfl
  have read := fill_symbols_scanned runtime start
  unfold scan_symbols wanted
  cases debug with
  | none => simpa using read
  | some debug => simpa using fill_symbols_scanned debug read

private theorem differing_eq_nil {defs : List Definition} :
    differing defs defs = [] ↔ ∀ d ∈ defs, (firstOf defs d.slot).value = d.value := by
  unfold differing
  rw [List.filterMap_eq_nil_iff]
  refine forall₂_congr fun d _ => ?_
  by_cases same : (firstOf defs d.slot).value = d.value <;> simp [same]

/-- Where nothing is reported, a symbol has the value of all its definitions. -/
theorem firstOf_value {defs : List Definition} (silent : differing defs defs = []) {d : Definition}
    (listed : d ∈ defs) : (firstOf defs d.slot).present = true ∧ (firstOf defs d.slot).value = d.value :=
  ⟨firstOf_present.mpr ⟨d, listed, rfl⟩, differing_eq_nil.mp silent d listed⟩

private theorem firstOf_source {defs : List Definition} {slot : Slot} (present : (firstOf defs slot).present = true) :
    ∃ d ∈ defs, d.slot = slot ∧ (firstOf defs slot).value = d.value := by
  unfold firstOf at present ⊢
  cases found : defs.find? fun d => decide (d.slot = slot) with
  | none => simp [found, absent] at present
  | some d => exact ⟨d, List.mem_of_find?_eq_some found, by simpa using List.find?_some found, rfl⟩

/-- Where nothing is reported, the symbols of definitions in another order have the same values. -/
theorem firstOf_perm {defs others : List Definition} (perm : defs.Perm others) (silent : differing defs defs = [])
    (slot : Slot) : (firstOf others slot).present = (firstOf defs slot).present ∧
      (firstOf others slot).value = (firstOf defs slot).value := by
  by_cases present : (firstOf others slot).present = true
  · obtain ⟨d, listed, rfl, value⟩ := firstOf_source present
    obtain ⟨isPresent, isValue⟩ := firstOf_value silent (perm.mem_iff.mpr listed)
    exact ⟨present.trans isPresent.symm, value.trans isValue.symm⟩
  · have missing : ¬ (firstOf defs slot).present = true := by
      intro known
      obtain ⟨d, listed, isSlot⟩ := firstOf_present.mp known
      exact present (firstOf_present.mpr ⟨d, perm.mem_iff.mp listed, isSlot⟩)
    rw [firstOf_absent present, firstOf_absent missing]
    exact ⟨rfl, rfl⟩

/-- Where nothing is reported, nothing is in another order. -/
theorem differing_perm {defs others : List Definition} (perm : defs.Perm others) (silent : differing defs defs = []) :
    differing others others = [] := by
  rw [differing_eq_nil]
  intro d listed
  obtain ⟨_, isValue⟩ := firstOf_value silent (perm.mem_iff.mpr listed)
  rw [(firstOf_perm perm silent d.slot).2, isValue]

/-- The symbols of a libc and its debuginfo: the first definitions of the runtime
    and then of the debuginfo, with a flag for every other value; and where there
    is no flag, symbol tables in another order, split over the two files as they
    like, give the same addresses. -/
theorem symbols_exact (runtime : Object) (debug : Option Object) :
    (∀ slot, (scan_symbols runtime debug).1 slot = firstOf (wanted runtime debug) slot) ∧
    (∀ slot, (∃ d ∈ definitions runtime, d.slot = slot) →
      (scan_symbols runtime debug).1 slot = (scan_symbols runtime none).1 slot) ∧
    (∀ slot, (¬ ∃ d ∈ definitions runtime, d.slot = slot) → ∀ elf, debug = some elf →
      (scan_symbols runtime debug).1 slot = (scan_symbols elf none).1 slot) ∧
    (scan_symbols runtime debug).2 = differing (wanted runtime debug) (wanted runtime debug) ∧
    ((scan_symbols runtime debug).2 = [] ↔ ∀ d ∈ wanted runtime debug, ∀ e ∈ wanted runtime debug,
      d.slot = e.slot → d.value = e.value) ∧
    ((scan_symbols runtime debug).2 = [] → ∀ others extra, (wanted runtime debug).Perm (wanted others extra) →
      (scan_symbols others extra).2 = [] ∧ ∀ slot,
        ((scan_symbols others extra).1 slot).present = ((scan_symbols runtime debug).1 slot).present ∧
        ((scan_symbols others extra).1 slot).value = ((scan_symbols runtime debug).1 slot).value) := by
  have scan : ∀ elf extra, scan_symbols elf extra =
      (firstOf (wanted elf extra), differing (wanted elf extra) (wanted elf extra)) := scan_symbols_scanned
  refine ⟨fun slot => by rw [scan], fun slot own => ?_, fun slot missing elf given => ?_, by rw [scan], ?_, ?_⟩
  · rw [scan, scan]
    simp only [wanted, Option.elim_none, List.append_nil]
    rw [firstOf_append, if_pos (firstOf_present.mpr own)]
  · rw [scan, scan, given]
    have unknown : ¬ (firstOf (definitions runtime) slot).present = true := fun known =>
      missing (firstOf_present.mp known)
    simp only [wanted, Option.elim_some, Option.elim_none, List.append_nil]
    rw [firstOf_append, if_neg unknown]
  · rw [scan]
    constructor
    · intro silent d listed e also same
      rw [← (firstOf_value silent listed).2, ← (firstOf_value silent also).2, same]
    · intro agree
      refine differing_eq_nil.mpr fun d listed => ?_
      obtain ⟨e, also, same, value⟩ := firstOf_source (firstOf_present.mpr ⟨d, listed, rfl⟩)
      rw [value, agree e also d listed same]
  · intro silent others extra perm
    simp only [scan] at silent ⊢
    exact ⟨differing_perm perm silent, firstOf_perm perm silent⟩

end HeapAnalyser.SymbolScan
