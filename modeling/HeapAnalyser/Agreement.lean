import HeapAnalyser.Pipeline

/-!
The commands agree (`check_predicts_report`). A libc that the check refuses is
refused by the report in the same words, one that it finds supported is not
refused as unusable for any core, and what the check tells of the libc is what
each report tells of it.
-/
namespace HeapAnalyser.Agreement
open Machine Checks MappedFiles Version Detection Diagnosis DebugLink Locate Analysis Pipeline

/-- A core that the tool can read the threads of. -/
structure Opened (world : World) (core_path : String) (core : Object) (arch : Handler)
    (threads : List Threads.Thread) : Prop where
  elf : world.elf core_path = .ok core
  machine : by_elf_machine core.machine = some arch
  threads : Threads.threads (notes core.toElf) arch.toArch = .ok threads

section
variable {world : World} {core_path : String} {core : Object} {arch : Handler} {threads : List Threads.Thread}

/-- Behind an opened core the libc that is given decides. -/
theorem prepare_of_opened (opened : Opened world core_path core arch threads) (libc : String)
    (force_libc libc_debug : Option String) : prepare world core_path (some libc) force_libc libc_debug =
      world.elf libc >>= fun reference => load_debug world reference libc_debug >>= fun debug =>
        prepare_with world core arch threads reference debug force_libc := by
  obtain ⟨mapped, listed⟩ := mappings_exist core.toElf
  have isThreads : (Threads.threads (notes core.toElf) arch.toArch).mapError Failure.Core = .ok threads := by
    rw [opened.threads]
    rfl
  have known : ok_or (by_elf_machine core.machine) (Failure.UnsupportedArch core.machine) = .ok arch := by
    rw [opened.machine]
    rfl
  simp only [prepare, opened.elf, known, isThreads, listed, ok_bind, load_reference]
  rw [World.elf, bind_assoc]

variable {reference : Object} {debug : Option Object} {force_libc : Option String}

/-- A libc without a required symbol is refused, in words that name one. -/
theorem prepare_with_missing
    (missing : ∃ symbol, .MissingSymbol symbol ∈ (detect_with_debug world.toTools reference debug arch).problems) :
    ∃ symbol, .MissingSymbol symbol ∈ (detect_with_debug world.toTools reference debug arch).problems ∧
      prepare_with world core arch threads reference debug force_libc =
        .error (.UnusableLibc ("missing required symbol '" ++ symbol ++ "'")) := by
  obtain ⟨symbol, member⟩ := missing
  cases found : (detect_with_debug world.toTools reference debug arch).problems.find? is_fatal with
  | none => exact absurd rfl (List.find?_eq_none.mp found _ member)
  | some fatal =>
    obtain ⟨first, rfl, isMissing⟩ :=
      fatal_iff_missing_symbol.mp ⟨List.mem_of_find?_eq_some found, List.find?_some found⟩
    refine ⟨first, isMissing, ?_⟩
    simp only [prepare_with, found]
    rfl

theorem prepare_with_found
    (found : ¬ ∃ symbol, .MissingSymbol symbol ∈ (detect_with_debug world.toTools reference debug arch).problems) :
    prepare_with world core arch threads reference debug force_libc =
      locate world core.toElf force_libc (compute_identity world.sha256 reference.toElf) >>= fun located =>
        .ok ⟨core, threads, detect_with_debug world.toTools reference debug arch,
          compute_identity world.sha256 reference.toElf, located⟩ := by
  have none : (detect_with_debug world.toTools reference debug arch).problems.find? is_fatal = none := by
    rw [List.find?_eq_none]
    intro problem member fatal
    obtain ⟨symbol, _, missing⟩ := fatal_iff_missing_symbol.mp ⟨member, fatal⟩
    exact found ⟨symbol, missing⟩
  unfold prepare_with
  simp only [none]
  rfl

private theorem prepare_with_ok {p : Prepared}
    (ready : prepare_with world core arch threads reference debug force_libc = .ok p) :
    p.identity = compute_identity world.sha256 reference.toElf ∧
      p.layout = detect_with_debug world.toTools reference debug arch := by
  by_cases missing : ∃ symbol, .MissingSymbol symbol ∈ (detect_with_debug world.toTools reference debug arch).problems
  · obtain ⟨symbol, _, refused⟩ := @prepare_with_missing world core arch threads _ _ force_libc missing
    rw [refused] at ready
    cases ready
  · rw [prepare_with_found missing, bind_eq_ok] at ready
    obtain ⟨located, _, isPrepared⟩ := ready
    obtain rfl := Except.ok.inj isPrepared
    exact ⟨rfl, rfl⟩

private theorem locate_not_unusable {want : Identity} {reason : String} :
    locate world core.toElf force_libc want ≠ .error (.UnusableLibc reason) := by
  obtain ⟨mapped, listed⟩ := mappings_exist core.toElf
  cases force_libc with
  | none =>
    simp only [locate, NtFileLocator.locate, listed, bind, Except.bind]
    cases (libc_candidates mapped).find? fun m => identity_matches world.sha256 core.toElf m.start want <;> simp
  | some path =>
    simp only [locate, ForcePathLocator.locate, listed, bind, Except.bind]
    cases force_select mapped path <;> simp

private theorem analyze_prepared_not_unusable {p : Prepared} {reason : String} :
    analyze_prepared core_path p ≠ some (.error (.UnusableLibc reason)) := by
  unfold analyze_prepared
  rw [ne_eq, Option.map_eq_some_iff]
  rintro ⟨result, _, isFailure⟩
  cases result with
  | error e => cases isFailure
  | ok report => cases isFailure

/-- A report has the problems of detection, and then problems of other kinds. -/
theorem analyze_prepared_ok {p : Prepared} {report : CoreReport}
    (ran : analyze_prepared core_path p = some (.ok report)) :
    report.libc = .new p.located p.identity ∧ report.glibc_capabilities = .from_layout p.layout ∧
      ∃ new, report.problems = p.layout.problems ++ missing_build_id p.identity ++ new ∧
        ∀ problem ∈ new, ofDetection problem = false := by
  unfold analyze_prepared at ran
  obtain ⟨result, analysed, isReport⟩ := Option.map_eq_some_iff.mp ran
  cases result with
  | error e => cases isReport
  | ok own =>
    obtain ⟨new, problems, others⟩ := analysis_problems analysed
    rw [detected_eq] at problems
    obtain rfl := Except.ok.inj isReport
    exact ⟨rfl, rfl, new, problems, others⟩

end

private theorem handler_cases {machine : UInt16} {arch : Handler} (known : by_elf_machine machine = some arch) :
    arch = x86_64 ∨ arch = aarch64 := by
  unfold by_elf_machine at known
  by_cases first : machine = x86_64.elf_machine
  · rw [if_pos first] at known
    exact .inl (Option.some.inj known).symm
  · rw [if_neg first] at known
    by_cases second : machine = aarch64.elf_machine
    · rw [if_pos second] at known
      exact .inr (Option.some.inj known).symm
    · rw [if_neg second] at known
      cases known

private theorem handler_of_name {machine other : UInt16} {arch known : Handler}
    (isArch : by_elf_machine machine = some arch)
    (isKnown : by_elf_machine other = some known) (name : arch.name = known.name) : arch = known := by
  have apart : x86_64.name ≠ aarch64.name := by decide
  rcases handler_cases isArch with rfl | rfl
  · rcases handler_cases isKnown with rfl | rfl
    · rfl
    · exact absurd name apart
  · rcases handler_cases isKnown with rfl | rfl
    · exact absurd name.symm apart
    · rfl

/-- What a check of a libc says about the reports of cores that are read with it. -/
structure Predicts (checked : CheckReport) (code : Int32) (arch : Handler)
    (result : Option (Except Failure CoreReport)) : Prop where
  exit : (code = 0 ∧ checked.supported = true) ∨ (code = 1 ∧ checked.supported = false)
  usable : code = 0 → ∀ reason, result ≠ some (.error (.UnusableLibc reason))
  unusable : code = 1 → (∀ machine, .UnsupportedArch machine ∉ checked.problems) →
    ∃ symbol, .MissingSymbol symbol ∈ checked.problems ∧
      result = some (.error (.UnusableLibc ("missing required symbol '" ++ symbol ++ "'")))
  identity : ∀ report, result = some (.ok report) → report.libc.identity = checked.identity
  same : ∀ report, result = some (.ok report) → checked.arch = arch.name →
    report.problems.filter ofDetection = checked.problems ∧
      checked.glibc_capabilities = some report.glibc_capabilities

section
variable {world : World} {core_path libc : String} {core reference : Object} {arch own : Handler}
  {threads : List Threads.Thread} {debug : Option Object} {force_libc : Option String}

private theorem finish_ok {report : CoreReport}
    (ran : finish core_path (prepare_with world core arch threads reference debug force_libc) = some (.ok report)) :
    report.libc.identity = .from (compute_identity world.sha256 reference.toElf) ∧
      report.glibc_capabilities = .from_layout (detect_with_debug world.toTools reference debug arch) ∧
      report.problems.filter ofDetection = (detect_with_debug world.toTools reference debug arch).problems ++
        missing_build_id (compute_identity world.sha256 reference.toElf) := by
  cases ready : prepare_with world core arch threads reference debug force_libc with
  | error failure =>
    rw [ready] at ran
    cases Option.some.inj ran
  | ok p =>
    rw [ready] at ran
    obtain ⟨isIdentity, isLayout⟩ := prepare_with_ok ready
    obtain ⟨isLibc, capabilities, new, problems, others⟩ := analyze_prepared_ok ran
    rw [isIdentity, isLayout] at problems
    rw [isLayout] at capabilities
    refine ⟨by rw [isLibc, isIdentity]; rfl, capabilities, ?_⟩
    have none : new.filter ofDetection = [] := by
      rw [List.filter_eq_nil_iff]
      intro problem member
      rw [others problem member]
      exact Bool.false_ne_true
    rw [problems, List.filter_append, none, List.append_nil, List.filter_eq_self]
    exact detection_kept

private theorem unknown_name {machine other : UInt16} (known : by_elf_machine other = some arch) :
    "unknown(" ++ hex machine.toUInt64 ++ ")" ≠ arch.name := by
  intro same
  have first : ("unknown(" ++ hex machine.toUInt64 ++ ")").toList.head? = some 'u' := by
    rw [String.toList_append, String.toList_append]
    rfl
  rw [same] at first
  rcases handler_cases known with rfl | rfl
  · cases first
  · cases first

/-- Without its machine a libc cannot be checked, and nothing is said of its symbols. -/
theorem predicts_unsupported {other : UInt16} (known : by_elf_machine other = some arch)
    (loaded : Except Failure (Option Object)) :
    Predicts (unsupported_report reference libc (compute_identity world.sha256 reference.toElf)) 1 arch
      (finish core_path (loaded >>= fun debug => prepare_with world core arch threads reference debug force_libc)) where
  exit := .inr ⟨rfl, rfl⟩
  usable zero := by cases zero
  unusable _ known := absurd List.mem_cons_self (known reference.machine)
  identity report ran := by
    cases loaded with
    | error failure => cases Option.some.inj ran
    | ok debug => exact (finish_ok ran).1
  same report ran name := absurd name (unknown_name known)

/-- A libc that is checked is used where it is supported. -/
theorem predicts_supported {other : UInt16} (known : by_elf_machine other = some arch)
    (isOwn : by_elf_machine reference.machine = some own) :
    let report := supported_report world reference debug own libc (compute_identity world.sha256 reference.toElf)
    Predicts report (if report.supported then 0 else 1) arch
      (finish core_path (prepare_with world core arch threads reference debug force_libc)) := by
  intro report
  have isSupported : report.supported = true ↔
      ¬ ∃ symbol, .MissingSymbol symbol ∈ (detect_with_debug world.toTools reference debug own).problems := by
    rw [← @any_fatal _ _ _ _ (compute_identity world.sha256 reference.toElf)]
    change (!_) = true ↔ _
    rw [Bool.not_eq_true', Bool.not_eq_true]
  have anyArch : ∀ symbol, .MissingSymbol symbol ∈ (detect_with_debug world.toTools reference debug own).problems ↔
      .MissingSymbol symbol ∈ (detect_with_debug world.toTools reference debug arch).problems := by
    intro symbol
    rw [mem_missing_symbol, mem_missing_symbol]
  simp only [anyArch] at isSupported
  refine ⟨?_, ?_, ?_, fun result ran => (finish_ok ran).1, fun result ran name => ?_⟩
  · cases report.supported with
    | true => exact .inl ⟨rfl, rfl⟩
    | false => exact .inr ⟨rfl, rfl⟩
  · intro zero reason failed
    have supported : report.supported = true := by
      by_contra unsupported
      rw [if_neg unsupported] at zero
      cases zero
    rw [prepare_with_found (isSupported.mp supported)] at failed
    cases located : locate world core.toElf force_libc (compute_identity world.sha256 reference.toElf) with
    | error failure =>
      rw [located] at failed
      obtain rfl := Except.error.inj (Option.some.inj failed)
      exact locate_not_unusable located
    | ok found =>
      rw [located] at failed
      exact analyze_prepared_not_unusable failed
  · intro one _
    have unsupported : ¬ report.supported = true := by
      intro supported
      rw [if_pos supported] at one
      cases one
    obtain ⟨symbol, missing, refused⟩ :=
      prepare_with_missing (not_not.mp fun found => unsupported (isSupported.mpr found))
    exact ⟨symbol, List.mem_append_left _ ((anyArch symbol).mpr missing), by rw [refused]; rfl⟩
  · obtain rfl : own = arch := handler_of_name isOwn known name
    obtain ⟨_, capabilities, problems⟩ := finish_ok ran
    exact ⟨problems, by rw [capabilities]; rfl⟩

end

/-- The check predicts the report, for any core whose threads can be read: a
    failure of the check is that of the report; where the check finds the libc
    supported it is never refused as unusable, and where a symbol is missing it
    always is; and a report has the identity that the check shows, and, for an
    architecture that is the libc's own, its capabilities and its problems, in
    order, among those of the traversals. -/
theorem check_predicts_report (world : World) (core_path : String) (core : Object) (arch : Handler)
    (threads : List Threads.Thread) (opened : Opened world core_path core arch threads) (libc : String)
    (force_libc libc_debug : Option String) :
    (∀ failure, check world libc libc_debug = .error failure →
      analyze_core_with_debug world core_path (some libc) force_libc libc_debug = some (.error failure)) ∧
    ∀ checked code, check world libc libc_debug = .ok (checked, code) →
      Predicts checked code arch (analyze_core_with_debug world core_path (some libc) force_libc libc_debug) := by
  rw [analyze_core_with_debug, prepare_of_opened opened, check]
  cases world.elf libc with
  | error failure =>
    refine ⟨fun other fails => ?_, fun checked code returns => ?_⟩
    · cases fails
      rfl
    · cases returns
  | ok reference =>
    simp only [ok_bind]
    cases machine : by_elf_machine reference.machine with
    | none =>
      refine ⟨fun other fails => ?_, fun checked code returns => ?_⟩
      · cases fails
      obtain ⟨rfl, rfl⟩ := Prod.mk.inj (Except.ok.inj returns)
      exact predicts_unsupported opened.machine (load_debug world reference libc_debug)
    | some own =>
      simp only
      cases load_debug world reference libc_debug with
      | error failure =>
        refine ⟨fun other fails => ?_, fun checked code returns => ?_⟩
        · cases fails
          rfl
        · cases returns
      | ok debug =>
        refine ⟨fun other fails => ?_, fun checked code returns => ?_⟩
        · cases fails
        obtain ⟨rfl, rfl⟩ := Prod.mk.inj (Except.ok.inj returns)
        exact predicts_supported opened.machine machine

theorem small_core_opened : Opened small_world "core" small_core_elf x86_64 [] :=
  ⟨small_core_loaded, rfl, by decide +kernel⟩

theorem check_predicts_small_run :
    Predicts (supported_report small_world small_libc_elf none x86_64 "/lib/libc.so.6"
      (compute_identity small_world.sha256 small_libc_elf.toElf)) 0 x86_64
      (analyze_core_with_debug small_world "core" (some "/lib/libc.so.6") none none) := by
  have checked : check small_world "/lib/libc.so.6" none = .ok (supported_report small_world small_libc_elf none x86_64
      "/lib/libc.so.6" (compute_identity small_world.sha256 small_libc_elf.toElf), 0) := by
    have supported : (supported_report small_world small_libc_elf none x86_64 "/lib/libc.so.6"
        (compute_identity small_world.sha256 small_libc_elf.toElf)).supported = true := by decide +kernel
    have machine : by_elf_machine small_libc_elf.machine = some x86_64 := rfl
    simp only [check, small_libc_loaded, ok_bind, machine, load_debug, supported, if_true]
    rfl
  exact (check_predicts_report small_world "core" small_core_elf x86_64 [] small_core_opened "/lib/libc.so.6" none
    none).2 _ _ checked

end HeapAnalyser.Agreement
