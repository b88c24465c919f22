import HeapAnalyser.Detection
import HeapAnalyser.DwarfErrors

/-!
What detection reports (the problems of `detect_with_debug`). Each problem is
there exactly when its cause is (`detection_diagnosed`): in particular the
debuginfo is passed over in silence only where the libc itself has none, and the
fatal problems are the two required symbols, of which neither the libc nor its
debuginfo has a definition.
-/
namespace HeapAnalyser.Diagnosis
open Version SymbolScan Dwarf DwarfSections DwarfExtract DwarfErrors Detection

/-- Whether a problem makes the whole analysis untrustworthy. -/
def is_fatal : Problem → Bool
  | .MissingSymbol _ => true
  | .UnsupportedArch _ => true
  | _ => false

/-- No definition of a symbol is found. -/
def Missing (elf : Object) (debug : Option Object) (slot : Slot) : Prop := ¬ ∃ d ∈ wanted elf debug, d.slot = slot

/-- The libc is used by itself, and has no debuginfo. -/
def Stripped (tools : Tools) (elf : Object) (debug : Option Object) : Prop :=
  debug = none ∧ ∃ sections, load_sections tools.host elf.sectioned = .ok sections ∧
    section_bytes sections ".debug_info" = []

/-- The layout of the debuginfo, or why there is none. -/
def extracted (tools : Tools) (elf : Object) (debug : Option Object) : Except DwarfLayoutError DwarfLayout :=
  extract_layout tools.host tools.decode (debug.getD elf).sectioned ((scan_symbols elf debug).1 .tcache).present

/-- The problems before debuginfo is looked at for offsets. -/
def builtinProblems (elf : Object) (debug : Option Object) (arch : Handler) : List Problem :=
  (scan_symbols elf debug).2
    ++ (if ((scan_symbols elf debug).1 .main_arena).present then [] else [.MissingSymbol "main_arena"])
    ++ (if ((scan_symbols elf debug).1 .mp).present then [] else [.MissingSymbol "mp_"])
    ++ (if (find_tp_off_reloc elf arch).isNone then [.MissingRelocation] else [])
    ++ (if (detect elf).isNone then [.UnknownGlibcVersion] else [])

/-- What is reported of the debuginfo. -/
def fallback (tools : Tools) (elf : Object) (debug : Option Object) : List Problem :=
  match extracted tools elf debug with
  | .ok _ => []
  | .error error =>
    if error = .Unavailable ∧ debug.isNone = true then [] else [.DwarfLayoutFallback (error_text error)]

private theorem capabilities_problems (elf : Object) (has_tcache : Bool) (problems : List Problem) :
    (detect_capabilities elf has_tcache problems).2 =
      problems ++ (if (detect elf).isNone then [.UnknownGlibcVersion] else []) := by
  unfold detect_capabilities
  cases detect elf <;> simp

private theorem builtin_problems (elf : Object) (debug : Option Object) (arch : Handler) :
    (detect_builtin elf debug arch).problems = builtinProblems elf debug arch :=
  capabilities_problems elf ((scan_symbols elf debug).1 .tcache).present _

private theorem builtin_has_tcache (elf : Object) (debug : Option Object) (arch : Handler) :
    (detect_builtin elf debug arch).capabilities.has_tcache = ((scan_symbols elf debug).1 .tcache).present := by
  change (detect_capabilities elf _ _).1.has_tcache = _
  unfold detect_capabilities
  cases detect elf <;> rfl

/-- The problems of detection, in order. -/
theorem detected_problems (tools : Tools) (elf : Object) (debug : Option Object) (arch : Handler) :
    (detect_with_debug tools elf debug arch).problems = builtinProblems elf debug arch ++ fallback tools elf debug := by
  have own := builtin_problems elf debug arch
  have ran : extract_layout tools.host tools.decode (debug.getD elf).sectioned
      (detect_builtin elf debug arch).capabilities.has_tcache = extracted tools elf debug := by
    rw [builtin_has_tcache]
    rfl
  unfold detect_with_debug fallback
  simp only [ran]
  cases extracted tools elf debug with
  | ok dwarf => exact own.trans (List.append_nil _).symm
  | error error =>
    by_cases silent : error = .Unavailable ∧ debug.isNone = true
    · simp only [if_pos silent, List.append_nil]
      exact own
    · simp only [if_neg silent, own]

private theorem silent_iff_stripped {tools : Tools} {elf : Object} {debug : Option Object} {error : DwarfLayoutError}
    (fails : extracted tools elf debug = .error error) :
    (error = .Unavailable ∧ debug.isNone = true) ↔ Stripped tools elf debug := by
  unfold extracted at fails
  cases debug with
  | some d => simp [Stripped]
  | none =>
    unfold Stripped
    rw [← @extract_layout_unavailable tools.host tools.decode _ ((scan_symbols elf none).1 .tcache).present]
    rw [Option.getD_none] at fails
    rw [fails]
    simp

/-- Each problem is reported exactly when its cause is there. -/
structure Diagnosed (tools : Tools) (elf : Object) (debug : Option Object) (arch : Handler) (problems : List Problem) :
    Prop where
  missing_symbol : ∀ symbol, .MissingSymbol symbol ∈ problems ↔
    (symbol = "main_arena" ∧ Missing elf debug .main_arena) ∨ (symbol = "mp_" ∧ Missing elf debug .mp)
  duplicate_symbol : ∀ symbol, .DuplicateSymbol symbol ∈ problems ↔
    ∃ d ∈ wanted elf debug, d.name = symbol ∧ (firstOf (wanted elf debug) d.slot).value ≠ d.value
  relocation : .MissingRelocation ∈ problems ↔
    ∀ r ∈ elf.dynrelas, ¬ (r.r_type = arch.tp_off_reloc_type ∧ r.r_addend.getD 0 = 0)
  version : .UnknownGlibcVersion ∈ problems ↔ denoted (labels elf) = ∅
  debuginfo : ∀ reason, .DwarfLayoutFallback reason ∈ problems ↔
    ∃ error, extracted tools elf debug = .error error ∧ reason = error_text error ∧ ¬ Stripped tools elf debug
  no_other : ∀ problem ∈ problems, (∃ symbol, problem = .MissingSymbol symbol) ∨
    (∃ symbol, problem = .DuplicateSymbol symbol) ∨ problem = .MissingRelocation ∨ problem = .UnknownGlibcVersion ∨
    ∃ reason, problem = .DwarfLayoutFallback reason
  fatal : (∃ problem ∈ problems, is_fatal problem = true) ↔ Missing elf debug .main_arena ∨ Missing elf debug .mp

section
variable {tools : Tools} {elf : Object} {debug : Option Object} {arch : Handler} {problem : Problem}

private theorem mem_symbol_problems : problem ∈ (scan_symbols elf debug).2 ↔
    ∃ d ∈ wanted elf debug, (firstOf (wanted elf debug) d.slot).value ≠ d.value ∧ problem = .DuplicateSymbol d.name := by
  rw [show scan_symbols elf debug = _ from scan_symbols_scanned elf debug]
  unfold differing
  rw [List.mem_filterMap]
  refine exists_congr fun d => and_congr_right fun _ => ?_
  by_cases differs : (firstOf (wanted elf debug) d.slot).value ≠ d.value
  · simp [differs, eq_comm]
  · simp [differs]

private theorem mem_missing {slot : Slot} {symbol : String} :
    problem ∈ (if ((scan_symbols elf debug).1 slot).present then [] else [Problem.MissingSymbol symbol]) ↔
      problem = .MissingSymbol symbol ∧ Missing elf debug slot := by
  have present : ((scan_symbols elf debug).1 slot).present = true ↔ ∃ d ∈ wanted elf debug, d.slot = slot := by
    rw [show scan_symbols elf debug = _ from scan_symbols_scanned elf debug]
    exact firstOf_present
  unfold Missing
  rw [← present]
  by_cases has : ((scan_symbols elf debug).1 slot).present = true
  · simp [has]
  · simp [has]

private theorem mem_relocation :
    problem ∈ (if (find_tp_off_reloc elf arch).isNone then [Problem.MissingRelocation] else []) ↔
      problem = .MissingRelocation ∧ ∀ r ∈ elf.dynrelas, ¬ (r.r_type = arch.tp_off_reloc_type ∧ r.r_addend.getD 0 = 0) := by
  have none : (find_tp_off_reloc elf arch).isNone = true ↔
      ∀ r ∈ elf.dynrelas, ¬ (r.r_type = arch.tp_off_reloc_type ∧ r.r_addend.getD 0 = 0) := by
    unfold find_tp_off_reloc
    rw [Option.isNone_map, Option.isNone_iff_eq_none, List.find?_eq_none]
    simp only [decide_eq_true_eq]
  rw [← none]
  by_cases has : (find_tp_off_reloc elf arch).isNone = true
  · simp [has]
  · simp [has]

private theorem mem_version : problem ∈ (if (detect elf).isNone then [Problem.UnknownGlibcVersion] else []) ↔
    problem = .UnknownGlibcVersion ∧ denoted (labels elf) = ∅ := by
  have greatest := detect_greatest elf
  cases found : detect elf with
  | none =>
    rw [found] at greatest
    have empty : denoted (labels elf) = ∅ := greatest
    simp [empty]
  | some v =>
    rw [found] at greatest
    have isBest : IsGreatest (denoted (labels elf)) v := greatest
    have nonempty : denoted (labels elf) ≠ ∅ := Set.Nonempty.ne_empty ⟨v, isBest.1⟩
    simp [nonempty]

private theorem mem_fallback : problem ∈ fallback tools elf debug ↔
    ∃ error, extracted tools elf debug = .error error ∧ problem = .DwarfLayoutFallback (error_text error) ∧
      ¬ Stripped tools elf debug := by
  unfold fallback
  cases result : extracted tools elf debug with
  | ok dwarf => simp
  | error error =>
    rw [← silent_iff_stripped result]
    by_cases silent : error = .Unavailable ∧ debug.isNone = true
    · simp [silent]
    · simp only
      rw [if_neg silent, List.mem_singleton]
      constructor
      · rintro rfl
        exact ⟨error, rfl, rfl, silent⟩
      · rintro ⟨_, ⟨⟩, isFallback, _⟩
        exact isFallback

/-- What detection reports, by its cause. -/
theorem mem_detected_problems : problem ∈ (detect_with_debug tools elf debug arch).problems ↔
    (∃ d ∈ wanted elf debug, (firstOf (wanted elf debug) d.slot).value ≠ d.value ∧
      problem = .DuplicateSymbol d.name) ∨
    (problem = .MissingSymbol "main_arena" ∧ Missing elf debug .main_arena) ∨
    (problem = .MissingSymbol "mp_" ∧ Missing elf debug .mp) ∨
    (problem = .MissingRelocation ∧
      ∀ r ∈ elf.dynrelas, ¬ (r.r_type = arch.tp_off_reloc_type ∧ r.r_addend.getD 0 = 0)) ∨
    (problem = .UnknownGlibcVersion ∧ denoted (labels elf) = ∅) ∨
    ∃ error, extracted tools elf debug = .error error ∧ problem = .DwarfLayoutFallback (error_text error) ∧
      ¬ Stripped tools elf debug := by
  rw [detected_problems, builtinProblems]
  simp only [List.mem_append, mem_symbol_problems, mem_missing, mem_relocation, mem_version, mem_fallback, or_assoc]

theorem detected_kinds (member : problem ∈ (detect_with_debug tools elf debug arch).problems) :
    (∃ symbol, problem = .MissingSymbol symbol) ∨ (∃ symbol, problem = .DuplicateSymbol symbol) ∨
      problem = .MissingRelocation ∨ problem = .UnknownGlibcVersion ∨
      ∃ reason, problem = .DwarfLayoutFallback reason := by
  rcases mem_detected_problems.mp member with ⟨d, _, _, rfl⟩ | ⟨rfl, _⟩ | ⟨rfl, _⟩ | ⟨rfl, _⟩ | ⟨rfl, _⟩ |
    ⟨error, _, rfl, _⟩
  · exact .inr (.inl ⟨_, rfl⟩)
  · exact .inl ⟨_, rfl⟩
  · exact .inl ⟨_, rfl⟩
  · exact .inr (.inr (.inl rfl))
  · exact .inr (.inr (.inr (.inl rfl)))
  · exact .inr (.inr (.inr (.inr ⟨_, rfl⟩)))

theorem mem_missing_symbol {symbol : String} :
    .MissingSymbol symbol ∈ (detect_with_debug tools elf debug arch).problems ↔
      (symbol = "main_arena" ∧ Missing elf debug .main_arena) ∨ (symbol = "mp_" ∧ Missing elf debug .mp) := by
  simp [mem_detected_problems]

/-- The fatal problems of detection are missing symbols. -/
theorem fatal_iff_missing_symbol : (problem ∈ (detect_with_debug tools elf debug arch).problems ∧
    is_fatal problem = true) ↔
      ∃ symbol, problem = .MissingSymbol symbol ∧
        .MissingSymbol symbol ∈ (detect_with_debug tools elf debug arch).problems := by
  constructor
  · rintro ⟨member, fatal⟩
    rcases detected_kinds member with ⟨symbol, rfl⟩ | ⟨symbol, rfl⟩ | rfl | rfl | ⟨reason, rfl⟩
    · exact ⟨symbol, rfl, member⟩
    · cases fatal
    · cases fatal
    · cases fatal
    · cases fatal
  · rintro ⟨symbol, rfl, member⟩
    exact ⟨member, rfl⟩

end

/-- Detection reports each problem exactly when its cause is there, for any libc,
    debuginfo and decoder. -/
theorem detection_diagnosed (tools : Tools) (elf : Object) (debug : Option Object) (arch : Handler) :
    Diagnosed tools elf debug arch (detect_with_debug tools elf debug arch).problems where
  missing_symbol symbol := mem_missing_symbol
  duplicate_symbol symbol := by simp [mem_detected_problems, and_comm, eq_comm]
  relocation := by simp [mem_detected_problems]
  version := by simp [mem_detected_problems]
  debuginfo reason := by simp [mem_detected_problems]
  no_other problem member := detected_kinds member
  fatal := by
    simp only [fatal_iff_missing_symbol, mem_missing_symbol]
    constructor
    · rintro ⟨_, _, _, ⟨_, missing⟩ | ⟨_, missing⟩⟩
      · exact .inl missing
      · exact .inr missing
    · rintro (missing | missing)
      · exact ⟨_, "main_arena", rfl, .inl ⟨rfl, missing⟩⟩
      · exact ⟨_, "mp_", rfl, .inr ⟨rfl, missing⟩⟩

end HeapAnalyser.Diagnosis
