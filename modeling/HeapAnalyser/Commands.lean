import HeapAnalyser.Outcome
import HeapAnalyser.Schema

/-!
The program as it is run (`main.rs`, `commands/report.rs`, `commands/check.rs`
and the texts of `error.rs`). A document is streamed to the standard output, so
that a write may fail in the middle of it. What a run leaves tells its outcome
(`outcome_told`): a hard failure leaves the standard output empty, a report as
much of its document as could be written, and the exit code is 0 if and only if
there is a report without a fatal problem and all of it was written.
-/
namespace HeapAnalyser.Commands
open Checks Diagnosis Detection DebugLink CoreMemory Locate Analysis Pipeline Outcome Schema

structure ReportArgs where
  coredump : String
  libc : Option String
  libc_debug : Option String
  force_libc : Option String

structure CheckArgs where
  libc : String
  libc_debug : Option String

inductive Command where
  | Report (args : ReportArgs)
  | Check (args : CheckArgs)

/-- How far a document gets on the standard output. Its text is written, which may
    fail with a reason, and then its line is ended, which may fail as well; what
    was written before stays. -/
inductive Printed (text : String) where
  | whole
  | write_failed (front : String) (isFront : front.toList <+: text.toList) (reason : String)
  | line_failed (front : String) (isFront : front.toList <+: (text ++ "\n").toList)

/-- How far a line gets on the standard error. -/
inductive Noted (line : String) where
  | whole
  | failed (front : String) (isFront : front.toList <+: line.toList)

/-- The world of a run, with the words of the operating system for a file it cannot
    read, the text that the JSON library writes of a value, and the two streams. -/
structure System extends World where
  io_error : String → String
  to_writer_pretty : Value → String
  stdout : (text : String) → Printed text
  stderr : (line : String) → Noted line

/-- The text of a hard failure. -/
def display (io_error : String → String) : Failure → String
  | .Core (.AddressNotMapped addr) =>
    "address " ++ hex addr ++ " is not backed by file content in any loaded segment"
  | .Core (.NoteTooShort expected actual) =>
    "note data too short: expected at least " ++ toString expected ++ " bytes, got " ++ toString actual
  | .Io path => "failed to read " ++ path ++ ": " ++ io_error path
  | .NotElf path => path ++ " is not a valid ELF file"
  | .ElfParse reason => "failed to parse ELF data: " ++ reason
  | .UnsupportedArch machine => "unsupported architecture: e_machine=" ++ hex machine.toUInt64
  | .LibcNotFound reason => "could not locate libc in the core dump: " ++ reason
  | .UnusableLibc reason => "reference libc is unusable: " ++ reason
  | .Json reason => "failed to serialize JSON: " ++ reason

/-- How a command comes to its end. -/
inductive Ending where
  | Returned (result : Except Failure Int32)
  | Panicked

/-- What a command has written, and its end. -/
structure Run where
  stdout : String
  ending : Ending

section
variable {α : Type} [Serialize α]

/-- The text of a report's document. -/
def document (system : System) (report : α) : String := system.to_writer_pretty (serialize report)

/-- A document on a line of its own, and then the exit code (`JsonRenderer::render`
    and `write_report`): a text that is not written is an error, and the end of
    the line (`println!`) panics. -/
def print_document (system : System) (report : α) (code : Int32) : Run :=
  match system.stdout (document system report) with
  | .whole => ⟨document system report ++ "\n", .Returned (.ok code)⟩
  | .write_failed front _ reason => ⟨front, .Returned (.error (.Json reason))⟩
  | .line_failed front _ => ⟨front, .Panicked⟩

/-- A command with a result: nothing is written before the report is whole. -/
def print_result (system : System) : Except Failure (α × Int32) → Run
  | .error failure => ⟨"", .Returned (.error failure)⟩
  | .ok (report, code) => print_document system report code

end

/-- `commands::report::run`; `none` if it never ends. -/
def report_run (system : System) (args : ReportArgs) : Option Run :=
  (analyze_core_with_debug system.toWorld args.coredump args.libc args.force_libc args.libc_debug).map fun result =>
    print_result system (result.map fun report => (report, 0))

/-- `commands::check::run`. -/
def check_run (system : System) (args : CheckArgs) : Run :=
  print_result system (check system.toWorld args.libc args.libc_debug)

/-- What a run leaves; the words of the runtime for a panic are left out. -/
structure Exit where
  stdout : String
  stderr : String
  code : Int32
  deriving Repr, DecidableEq

/-- The exit code of a program that panicked. -/
def PANICKED : Int32 := 101

/-- The line of a hard failure. -/
def error_line (system : System) (failure : Failure) : String :=
  "error: " ++ display system.io_error failure ++ "\n"

/-- The end of a run: a hard failure is printed to stderr only (`eprintln!`). -/
def exit (system : System) (run : Run) : Exit :=
  match run.ending with
  | .Returned (.ok code) => ⟨run.stdout, "", code⟩
  | .Returned (.error failure) =>
    match system.stderr (error_line system failure) with
    | .whole => ⟨run.stdout, error_line system failure, 1⟩
    | .failed front _ => ⟨run.stdout, front, PANICKED⟩
  | .Panicked => ⟨run.stdout, "", PANICKED⟩

def main (system : System) : Command → Option Exit
  | .Report args => (report_run system args).map (exit system)
  | .Check args => some (exit system (check_run system args))

/-! ## What a run tells -/

/-- An exit code that goes by the fatal problems of a report. -/
def Fits {α : Type} (problems : α → List Problem) (report : α) (code : Int32) : Prop :=
  (code = 0 ∧ ∀ problem ∈ problems report, is_fatal problem = false) ∨
    (code = 1 ∧ ∃ problem ∈ problems report, is_fatal problem = true)

/-- A run that ends with a failure: its line is on the standard error and the exit
    code is 1, or the front of the line that could be written is, and it panicked. -/
def Refused (system : System) (failure : Failure) (left : Exit) : Prop :=
  (system.stderr (error_line system failure) = .whole ∧ left.stderr = error_line system failure ∧ left.code = 1) ∨
    ∃ front isFront, system.stderr (error_line system failure) = .failed front isFront ∧ left.stderr = front ∧
      left.code = PANICKED

/-- What is left by a run tells its result. -/
structure Told {α : Type} [Serialize α] (system : System) (problems : α → List Problem) (result : Except Failure α)
    (left : Exit) : Prop where
  failed : ∀ failure, result = .error failure → left.stdout = "" ∧ Refused system failure left
  front : ∀ report, result = .ok report → left.stdout.toList <+: (document system report ++ "\n").toList
  whole : ∀ report, result = .ok report → system.stdout (document system report) = .whole →
    left.stdout = document system report ++ "\n" ∧ left.stderr = "" ∧ Fits problems report left.code
  cut : ∀ report front isFront reason, result = .ok report →
    system.stdout (document system report) = .write_failed front isFront reason →
    left.stdout = front ∧ Refused system (.Json reason) left
  broken : ∀ report front isFront, result = .ok report →
    system.stdout (document system report) = .line_failed front isFront →
    left.stdout = front ∧ left.stderr = "" ∧ left.code = PANICKED
  code : left.code = 0 ↔ ∃ report, result = .ok report ∧ system.stdout (document system report) = .whole ∧
    ∀ problem ∈ problems report, is_fatal problem = false

section
variable {α : Type} [Serialize α] {system : System} {problems : α → List Problem}

private theorem exit_refused (stdout : String) (failure : Failure) :
    (exit system ⟨stdout, .Returned (.error failure)⟩).stdout = stdout ∧
      Refused system failure (exit system ⟨stdout, .Returned (.error failure)⟩) := by
  simp only [Refused, exit]
  cases system.stderr (error_line system failure) with
  | whole => exact ⟨rfl, .inl ⟨rfl, rfl, rfl⟩⟩
  | failed front isFront => exact ⟨rfl, .inr ⟨front, isFront, rfl, rfl, rfl⟩⟩

theorem Refused.code {failure : Failure} {left : Exit} (refused : Refused system failure left) : left.code ≠ 0 := by
  rcases refused with ⟨_, _, isOne⟩ | ⟨_, _, _, _, panicked⟩
  · rw [isOne]
    decide
  · rw [panicked]
    decide

private theorem told_failure (failure : Failure) :
    Told system problems (.error failure) (exit system (@print_result α _ system (.error failure))) where
  failed other is := by
    obtain rfl := Except.error.inj is
    exact exit_refused "" failure
  front _ other := nomatch other
  whole _ other := nomatch other
  cut _ _ _ _ other := nomatch other
  broken _ _ _ other := nomatch other
  code := by
    constructor
    · exact fun zero => absurd zero (exit_refused "" failure).2.code
    · rintro ⟨report, other, _⟩
      cases other

private theorem told_whole {report : α} {code : Int32} (fits : Fits problems report code)
    (printed : system.stdout (document system report) = .whole) :
    Told system problems (.ok report) ⟨document system report ++ "\n", "", code⟩ where
  failed _ other := nomatch other
  front _ same := by
    cases same
    exact List.prefix_refl _
  whole _ same _ := by
    cases same
    exact ⟨rfl, rfl, fits⟩
  cut _ _ _ _ same other := by
    cases same
    cases printed.symm.trans other
  broken _ _ _ same other := by
    cases same
    cases printed.symm.trans other
  code := by
    constructor
    · rintro rfl
      rcases fits with ⟨_, none⟩ | ⟨other, _⟩
      · exact ⟨report, rfl, printed, none⟩
      · cases other
    · rintro ⟨_, ⟨⟩, _, none⟩
      rcases fits with ⟨isZero, _⟩ | ⟨_, problem, member, fatal⟩
      · exact isZero
      · rw [none problem member] at fatal
        cases fatal

/-- A document that is cut off is a failure of its own. -/
private theorem told_cut {report : α} {front reason : String} {isFront}
    (printed : system.stdout (document system report) = .write_failed front isFront reason) :
    Told system problems (.ok report) (exit system ⟨front, .Returned (.error (.Json reason))⟩) where
  failed _ other := nomatch other
  front _ same := by
    cases same
    rw [(exit_refused front (.Json reason)).1, String.toList_append]
    exact isFront.trans (List.prefix_append _ _)
  whole _ same other := by
    cases same
    cases printed.symm.trans other
  cut _ _ _ _ same own := by
    cases same
    cases printed.symm.trans own
    exact exit_refused front (.Json reason)
  broken _ _ _ same other := by
    cases same
    cases printed.symm.trans other
  code := by
    constructor
    · exact fun zero => absurd zero (exit_refused front (.Json reason)).2.code
    · rintro ⟨_, ⟨⟩, other, _⟩
      cases printed.symm.trans other

private theorem told_broken {report : α} {front : String} {isFront}
    (printed : system.stdout (document system report) = .line_failed front isFront) :
    Told system problems (.ok report) ⟨front, "", PANICKED⟩ where
  failed _ other := nomatch other
  front _ same := by
    cases same
    exact isFront
  whole _ same other := by
    cases same
    cases printed.symm.trans other
  cut _ _ _ _ same other := by
    cases same
    cases printed.symm.trans other
  broken _ _ _ same own := by
    cases same
    cases printed.symm.trans own
    exact ⟨rfl, rfl, rfl⟩
  code := by
    constructor
    · intro zero
      cases zero
    · rintro ⟨_, ⟨⟩, other, _⟩
      cases printed.symm.trans other

private theorem told_document {report : α} {code : Int32} (fits : Fits problems report code) :
    Told system problems (.ok report) (exit system (print_result system (.ok (report, code)))) := by
  rw [print_result, print_document]
  cases printed : system.stdout (document system report) with
  | whole => exact told_whole fits printed
  | write_failed front isFront reason => exact told_cut printed
  | line_failed front isFront => exact told_broken printed

/-- What a run leaves tells its result, where the exit code fits the report. -/
theorem told_of_fits {result : Except Failure (α × Int32)}
    (fits : ∀ report code, result = .ok (report, code) → Fits problems report code) :
    Told system problems (result.map Prod.fst) (exit system (print_result system result)) := by
  cases result with
  | error failure => exact told_failure failure
  | ok printed => exact told_document (fits printed.1 printed.2 rfl)

end

/-- A report has no fatal problem: a libc that has one is refused. -/
theorem report_usable {world : World} {core_path : String} {libc force_libc libc_debug : Option String}
    {report : CoreReport} (ran : analyze_core_with_debug world core_path libc force_libc libc_debug = some (.ok report)) :
    ∀ problem ∈ report.problems, is_fatal problem = false := by
  unfold analyze_core_with_debug at ran
  cases ready : prepare world core_path libc force_libc libc_debug with
  | error failure =>
    rw [ready] at ran
    cases Option.some.inj ran
  | ok p =>
    rw [ready] at ran
    obtain ⟨core, arch, threads, mapped, reference, debug, m, supplied, chosen, rfl⟩ := prepare_eq_ok.mp ready
    obtain ⟨_, _, new, problems, others⟩ := Agreement.analyze_prepared_ok ran
    intro problem member
    rw [problems] at member
    rcases List.mem_append.mp member with ofDetection | later
    · exact EndToEnd.report_not_fatal supplied.main_arena supplied.mp problem ofDetection
    · have other := others problem later
      cases problem <;> first | rfl | cases other

/-- The exit code of a check goes by the fatal problems that it shows. -/
theorem check_fits {world : World} {libc : String} {libc_debug : Option String} {report : CheckReport} {code : Int32}
    (ran : check world libc libc_debug = .ok (report, code)) : Fits CheckReport.problems report code := by
  obtain ⟨elf, _, ran⟩ := bind_eq_ok.mp ran
  simp only at ran
  cases known : by_elf_machine elf.machine with
  | none =>
    rw [known] at ran
    obtain ⟨rfl, rfl⟩ := Prod.mk.inj (Except.ok.inj ran)
    exact .inr ⟨rfl, _, List.mem_cons_self, rfl⟩
  | some arch =>
    rw [known] at ran
    obtain ⟨debug, _, ran⟩ := bind_eq_ok.mp ran
    obtain ⟨rfl, rfl⟩ := Prod.mk.inj (Except.ok.inj ran)
    have supported : (supported_report world elf debug arch libc (compute_identity world.sha256 elf.toElf)).supported =
        !(supported_report world elf debug arch libc (compute_identity world.sha256 elf.toElf)).problems.any is_fatal :=
      rfl
    rw [supported]
    cases any : (supported_report world elf debug arch libc
      (compute_identity world.sha256 elf.toElf)).problems.any is_fatal with
    | false =>
      rw [List.any_eq_false] at any
      exact .inl ⟨rfl, fun problem member => Bool.eq_false_of_not_eq_true (any problem member)⟩
    | true => exact .inr ⟨rfl, List.any_eq_true.mp any⟩

/-- What a run leaves tells its outcome, for both commands and whatever becomes of
    its writes; a check always ends, and a report on a core whose segments have
    less than 2^64 bytes. No two reports have one document. -/
theorem outcome_told (system : System) :
    (∀ args : ReportArgs, (∀ core, system.elf args.coredump = .ok core → backed core.toElf < 2 ^ 64) →
      ∃ result left, analyze_core_with_debug system.toWorld args.coredump args.libc args.force_libc args.libc_debug =
          some result ∧
        main system (.Report args) = some left ∧ Told system (fun report : CoreReport => report.problems) result left) ∧
    (∀ args : CheckArgs, ∃ left, main system (.Check args) = some left ∧
      Told system CheckReport.problems ((check system.toWorld args.libc args.libc_debug).map Prod.fst) left) ∧
    (∀ report other : CoreReport, serialize report = serialize other → report = other) ∧
    ∀ report other : CheckReport, serialize report = serialize other → report = other := by
  refine ⟨fun args small => ?_, fun args => ?_, fun _ _ => serialize_injective, fun _ _ => serialize_injective⟩
  · obtain ⟨result, ran⟩ : ∃ result, analyze_core_with_debug system.toWorld args.coredump args.libc args.force_libc
      args.libc_debug = some result := analyze_ends small
    have fits : ∀ report code, result.map (fun report : CoreReport => (report, (0 : Int32))) = .ok (report, code) →
        Fits (fun report : CoreReport => report.problems) report code := by
      intro report code isResult
      cases result with
      | error failure => cases isResult
      | ok own =>
        obtain ⟨rfl, rfl⟩ := Prod.mk.inj (Except.ok.inj isResult)
        exact .inl ⟨rfl, report_usable ran⟩
    have told := @told_of_fits _ _ system _ _ fits
    refine ⟨result, _, ran, by rw [main, report_run, ran]; rfl, ?_⟩
    cases result <;> exact told
  · exact ⟨_, rfl, told_of_fits fun report code ran => check_fits ran⟩

/-- The document of the small run. -/
def small_document : String := String.intercalate "\n" [
  "\x7b", "  \"schema_version\": 1,", "  \"tool_version\": \"0.1.0\",", "  \"core_path\": \"core\",",
  "  \"libc\": \x7b", "    \"path\": \"/lib/libc.so.6\",", "    \"identity\": \x7b", "      \"kind\": \"build_id\",",
  "      \"value\": \"01020304\"", "    \x7d,", "    \"verified\": true", "  \x7d,",
  "  \"glibc_capabilities\": \x7b", "    \"layout_source\": \"builtin\",", "    \"has_tcache\": false,",
  "    \"has_safe_linking\": true,", "    \"version_source\": \"assumed_default\"", "  \x7d,", "  \"problems\": [",
  "    \x7b", "      \"kind\": \"missing_relocation\"", "    \x7d,", "    \x7b",
  "      \"kind\": \"unknown_glibc_version\"", "    \x7d", "  ],", "  \"arenas\": [", "    \x7b",
  "      \"index\": 0,", "      \"is_main\": true,", "      \"attached_threads\": [],", "      \"heaps\": \x7b",
  "        \"count\": 0,", "        \"total_bytes\": 0,", "        \"committed_bytes\": 0", "      \x7d,",
  "      \"allocated\": \x7b", "        \"count\": 0,", "        \"bytes\": 0,", "        \"size_histogram\": []",
  "      \x7d,", "      \"free\": \x7b", "        \"count\": 0,", "        \"bytes\": 0,",
  "        \"fastbins\": [],", "        \"tcache\": \x7b", "          \"tcache_threads\": [],",
  "          \"bins\": []", "        \x7d,", "        \"size_histogram\": []", "      \x7d,",
  "      \"overhead\": \x7b", "        \"count\": 0,", "        \"bytes\": 0", "      \x7d", "    \x7d", "  ]",
  "\x7d"]

/-- A run whose standard output is closed behind the first line. -/
def small_system : System where
  toWorld := small_world
  io_error _ := "No such file or directory (os error 2)"
  to_writer_pretty _ := small_document
  stdout text := .write_failed (String.ofList (text.toList.take 2)) (by simp [List.take_prefix]) "Broken pipe (os error 32)"
  stderr _ := .whole

theorem small_outcome_told : ∃ result left,
    analyze_core_with_debug small_world "core" none none none = some result ∧
      main small_system (.Report ⟨"core", none, none, none⟩) = some left ∧
      Told small_system (fun report : CoreReport => report.problems) result left :=
  (outcome_told small_system).1 ⟨"core", none, none, none⟩ small_core_backed

end HeapAnalyser.Commands
