import HeapAnalyser.Detection
import HeapAnalyser.Locate
import HeapAnalyser.Threads

/-!
The notes of a core (`elf/coredump.rs`, `arch/`). An `NT_PRSTATUS` is read at
fixed offsets, and fails only where it is short (`parse_prstatus_eq_ok`). Of any
notes at all the threads are those of their `NT_PRSTATUS`, each with the thread
pointer that it is given, and none is given to two of them (`threads_exact`). Notes as a kernel writes
them, of threads and of mapped files, are read back as these (`notes_read_back`).
-/
namespace HeapAnalyser.CoreNotes
open Bytes Elf Notes Checks Threads MappedFiles Detection

/-- Where an architecture has its registers in an `NT_PRSTATUS`; the thread
    pointer of some is in a note of its own. -/
structure Offsets where
  min_len : Nat
  pc : Nat
  sp : Nat
  tp : Option Nat

def x86_64_offsets : Offsets := ⟨288, 240, 264, some 280⟩
def aarch64_offsets : Offsets := ⟨376, 368, 360, none⟩

/-- An architecture with the offsets that it reads at. -/
inductive Reads : Handler → Offsets → Prop where
  | x86_64 : Reads x86_64 x86_64_offsets
  | aarch64 : Reads aarch64 aarch64_offsets

/-- A number is stored at an offset. -/
def StoredAt (desc : List UInt8) (width off value : Nat) : Prop := slice desc off (off + width) = some (bytesOf width value)

/-- The thread pointer is stored at its offset, or there is none. -/
def TpStored (offsets : Offsets) (desc : List UInt8) (tp : UInt64) : Prop :=
  match offsets.tp with
  | some off => StoredAt desc 8 off tp.toNat
  | none => tp = 0

/-- The registers that a descriptor has at its offsets. -/
structure Registers (offsets : Offsets) (desc : List UInt8) (regs : ThreadRegs) : Prop where
  pc : StoredAt desc 8 offsets.pc regs.pc.toNat
  sp : StoredAt desc 8 offsets.sp regs.sp.toNat
  tp : TpStored offsets desc regs.tp
  thread_id : StoredAt desc 4 PR_PID regs.thread_id.toUInt32.toNat

/-- The number that is read of stored bytes is the one that was stored. -/
theorem stored_of_slice {desc bytes : List UInt8} {width off : Nat} (found : slice desc off (off + width) = some bytes) :
    StoredAt desc width off (number bytes) := by
  have length := slice_length found
  rw [Nat.add_sub_cancel_left] at length
  rw [StoredAt, found, ← length, bytesOf_number]

private theorem le_u64_eq_some {desc : List UInt8} {off : Nat} {value : UInt64} :
    le_u64 desc off = some value ↔ StoredAt desc 8 off value.toNat := by
  rw [le_u64, Option.map_eq_some_iff]
  constructor
  · rintro ⟨bytes, found, rfl⟩
    have bound := number_lt bytes
    rw [slice_length found, Nat.add_sub_cancel_left] at bound
    rw [UInt64.toNat_ofNat_of_lt' bound]
    exact stored_of_slice found
  · intro found
    exact ⟨_, found, by rw [number_bytesOf value.toNat_lt, UInt64.ofNat_toNat]⟩

private theorem le_i32_eq_some {desc : List UInt8} {off : Nat} {value : Int32} :
    le_i32 desc off = some value ↔ StoredAt desc 4 off value.toUInt32.toNat := by
  rw [le_i32, Option.map_eq_some_iff]
  constructor
  · rintro ⟨bytes, found, rfl⟩
    have bound := number_lt bytes
    rw [slice_length found, Nat.add_sub_cancel_left] at bound
    have same : (Int32.ofNat (number bytes)).toUInt32.toNat = number bytes := UInt32.toNat_ofNat_of_lt' bound
    rw [same]
    exact stored_of_slice found
  · intro found
    refine ⟨_, found, ?_⟩
    rw [number_bytesOf value.toUInt32.toNat_lt, ← UInt32.toInt32_ofNat', UInt32.ofNat_toNat, Int32.toInt32_toUInt32]

private theorem le_u64_inside {desc : List UInt8} {off : Nat} (inside : off + 8 ≤ desc.length) :
    ∃ value, le_u64 desc off = some value :=
  ⟨_, Option.map_eq_some_iff.mpr ⟨_, slice_eq_some.mpr ⟨by omega, inside, rfl⟩, rfl⟩⟩

private theorem le_i32_inside {desc : List UInt8} {off : Nat} (inside : off + 4 ≤ desc.length) :
    ∃ value, le_i32 desc off = some value :=
  ⟨_, Option.map_eq_some_iff.mpr ⟨_, slice_eq_some.mpr ⟨by omega, inside, rfl⟩, rfl⟩⟩

/-- The least length has every field. -/
structure Offsets.Fit (offsets : Offsets) : Prop where
  pc : offsets.pc + 8 ≤ offsets.min_len
  sp : offsets.sp + 8 ≤ offsets.min_len
  tp : ∀ off ∈ offsets.tp, off + 8 ≤ offsets.min_len
  thread_id : PR_PID + 4 ≤ offsets.min_len

theorem Reads.fit {arch : Handler} {offsets : Offsets} (reads : Reads arch offsets) : offsets.Fit := by
  cases reads with
  | x86_64 => exact ⟨by decide, by decide, by decide, by decide⟩
  | aarch64 => exact ⟨by decide, by decide, by decide, by decide⟩

section
variable {offsets : Offsets} {desc : List UInt8} {regs : ThreadRegs}

private theorem tp_eq_ok {short : Error} {tp : UInt64} :
    (match offsets.tp with
      | some off => ok_or (le_u64 desc off) short
      | none => .ok 0) = .ok tp ↔ TpStored offsets desc tp := by
  unfold TpStored
  cases offsets.tp with
  | none => simp [eq_comm]
  | some off => simp only [ok_or_eq_ok, le_u64_eq_some]

private theorem parse_at_eq_ok : parse_prstatus_at offsets.min_len offsets.pc offsets.sp offsets.tp desc = .ok regs ↔
    offsets.min_len ≤ desc.length ∧ Registers offsets desc regs := by
  simp only [parse_prstatus_at, bind_eq_ok, refuse_eq_ok, ok_or_eq_ok, le_u64_eq_some, le_i32_eq_some]
  constructor
  · rintro ⟨_, long, pc, isPc, sp, isSp, tp, isTp, thread_id, isId, isRegs⟩
    obtain rfl := Except.ok.inj isRegs
    exact ⟨Nat.not_lt.mp long, isPc, isSp, tp_eq_ok.mp isTp, isId⟩
  · rintro ⟨long, isPc, isSp, isTp, isId⟩
    exact ⟨⟨⟩, Nat.not_lt.mpr long, _, isPc, _, isSp, _, tp_eq_ok.mpr isTp, _, isId, rfl⟩

private theorem registers_exist (fit : offsets.Fit) (long : offsets.min_len ≤ desc.length) :
    ∃ regs, Registers offsets desc regs := by
  obtain ⟨pc, isPc⟩ := @le_u64_inside desc offsets.pc (fit.pc.trans long)
  obtain ⟨sp, isSp⟩ := @le_u64_inside desc offsets.sp (fit.sp.trans long)
  obtain ⟨thread_id, isId⟩ := @le_i32_inside desc PR_PID (fit.thread_id.trans long)
  have isTp : ∃ tp, TpStored offsets desc tp := by
    unfold TpStored
    cases found : offsets.tp with
    | none => exact ⟨0, rfl⟩
    | some off =>
      obtain ⟨tp, isTp⟩ := @le_u64_inside desc off ((fit.tp off found).trans long)
      exact ⟨tp, le_u64_eq_some.mp isTp⟩
  obtain ⟨tp, isTp⟩ := isTp
  exact ⟨⟨pc, sp, tp, thread_id⟩, le_u64_eq_some.mp isPc, le_u64_eq_some.mp isSp, isTp, le_i32_eq_some.mp isId⟩

private theorem parse_at_fails (fit : offsets.Fit) {e : Error} :
    parse_prstatus_at offsets.min_len offsets.pc offsets.sp offsets.tp desc = .error e ↔
      desc.length < offsets.min_len ∧ e = .NoteTooShort offsets.min_len desc.length := by
  by_cases short : desc.length < offsets.min_len
  · have fails : parse_prstatus_at offsets.min_len offsets.pc offsets.sp offsets.tp desc =
        .error (.NoteTooShort offsets.min_len desc.length) := by
      simp only [parse_prstatus_at, refuse, if_pos short]
      rfl
    rw [fails]
    simp [short, eq_comm]
  · obtain ⟨regs, has⟩ := registers_exist fit (Nat.not_lt.mp short)
    rw [parse_at_eq_ok.mpr ⟨Nat.not_lt.mp short, has⟩]
    simp [short]

end

section
variable {arch : Handler} {offsets : Offsets} {desc : List UInt8}

/-- A descriptor is read exactly where it is long enough, at the architecture's offsets. -/
theorem parse_prstatus_eq_ok (reads : Reads arch offsets) {regs : ThreadRegs} :
    arch.parse_prstatus desc = .ok regs ↔ offsets.min_len ≤ desc.length ∧ Registers offsets desc regs := by
  cases reads with
  | x86_64 => exact @parse_at_eq_ok x86_64_offsets desc regs
  | aarch64 => exact @parse_at_eq_ok aarch64_offsets desc regs

private theorem parse_prstatus_fails (reads : Reads arch offsets) {e : Error} :
    arch.parse_prstatus desc = .error e ↔
      desc.length < offsets.min_len ∧ e = .NoteTooShort offsets.min_len desc.length := by
  cases reads with
  | x86_64 => exact @parse_at_fails x86_64_offsets desc Reads.x86_64.fit e
  | aarch64 => exact @parse_at_fails aarch64_offsets desc Reads.aarch64.fit e

/-- Every architecture that is known reads at its offsets. -/
theorem reads_of_known {machine : UInt16} (known : by_elf_machine machine = some arch) :
    ∃ offsets, Reads arch offsets := by
  unfold by_elf_machine at known
  split at known
  · obtain rfl := Option.some.inj known
    exact ⟨_, .x86_64⟩
  · split at known
    · obtain rfl := Option.some.inj known
      exact ⟨_, .aarch64⟩
    · cases known

end

/-! ## The threads of any notes -/

/-- The thread pointers of the TLS notes, in order. -/
def tls_values (arch : Arch) (notes : List Note) : List UInt64 :=
  (notes.filter (IsTls arch ·)).filterMap fun note => arch.parse_tls_note note.desc

/-- The thread of some registers, with a thread pointer from elsewhere where they have none. -/
structure OwnRegs (regs : ThreadRegs) (thread : Thread) : Prop where
  pc : thread.pc = regs.pc
  sp : thread.sp = regs.sp
  thread_id : thread.thread_id = regs.thread_id
  tp : regs.tp ≠ 0 → thread.tp = regs.tp

/-- The thread pointers that threads have from elsewhere. -/
def taken (regs : List ThreadRegs) (threads : List Thread) : List UInt64 :=
  ((regs.zip threads).filter fun pair => pair.1.tp = 0 ∧ pair.2.tp ≠ 0).map fun pair => pair.2.tp

/-- The thread pointers of the TLS notes in front of the first `NT_PRSTATUS`, and
    of those behind each of these up to the next one. -/
def tls_blocks (arch : Arch) : List Note → List UInt64 × List (List UInt64)
  | [] => ([], [])
  | note :: rest =>
    let later := tls_blocks arch rest
    if IsPrstatus note then ([], later.1 :: later.2)
    else if IsTls arch note then ((arch.parse_tls_note note.desc).toList ++ later.1, later.2)
    else later

/-- The threads of registers, each with the thread pointers that follow it. One
    without a thread pointer of its own gets the one that is waiting, or else the
    first that is not zero behind it; of those that are left the last one waits. -/
def given : Option UInt64 → List (ThreadRegs × List UInt64) → List Thread
  | _, [] => []
  | waiting, (regs, values) :: rest =>
    if regs.tp ≠ 0 then ⟨regs.pc, regs.sp, regs.tp, regs.thread_id⟩ :: given (values.getLast?.or waiting) rest
    else if waiting.getD 0 ≠ 0 then ⟨regs.pc, regs.sp, waiting.getD 0, regs.thread_id⟩ :: given values.getLast? rest
    else ⟨regs.pc, regs.sp, (values.find? (· ≠ 0)).getD 0, regs.thread_id⟩ ::
      given (values.dropWhile (· = 0)).tail.getLast? rest

/-- What the loop has after some notes: a thread for the registers of each
    `NT_PRSTATUS`, and thread pointers that come from different TLS notes, in
    order, with the pending one last. -/
structure Claims (arch : Arch) (notes : List Note) (regs : List ThreadRegs) (state : Collected) : Prop where
  own : List.Forall₂ OwnRegs regs state.threads
  idle : ∀ last, state.threads.getLast? = some last → last.tp = 0 → state.pending_tp = none
  values : (taken regs state.threads ++ state.pending_tp.toList).Sublist (tls_values arch notes)

section
variable {arch : Arch} {notes : List Note} {regs : List ThreadRegs} {state : Collected}

private theorem taken_concat {threads : List Thread} (same : regs.length = threads.length) (own : ThreadRegs)
    (thread : Thread) :
    taken (regs ++ [own]) (threads ++ [thread]) =
      taken regs threads ++ if own.tp = 0 ∧ thread.tp ≠ 0 then [thread.tp] else [] := by
  rw [taken, taken, List.zip_append same, List.filter_append, List.map_append, List.zip_cons_cons, List.zip_nil_right]
  by_cases takes : own.tp = 0 ∧ thread.tp ≠ 0
  · rw [if_pos takes, List.filter_cons_of_pos (by simpa using takes)]
    rfl
  · rw [if_neg takes, List.filter_cons_of_neg (by simpa using takes)]
    rfl

private theorem tls_values_concat (note : Note) : tls_values arch (notes ++ [note]) =
    tls_values arch notes ++ if IsTls arch note then (arch.parse_tls_note note.desc).toList else [] := by
  rw [tls_values, tls_values, List.filter_append, List.filterMap_append]
  by_cases tls : IsTls arch note
  · rw [if_pos tls, List.filter_cons_of_pos (by simpa using tls)]
    cases value : arch.parse_tls_note note.desc with
    | none => simp [value]
    | some tp => simp [value]
  · rw [if_neg tls, List.filter_cons_of_neg (by simpa using tls)]
    rfl

theorem Claims.pass (claims : Claims arch notes regs state) {note : Note} (other : ¬ IsTls arch note) :
    Claims arch (notes ++ [note]) regs state := by
  refine ⟨claims.own, claims.idle, ?_⟩
  rw [tls_values_concat, if_neg other, List.append_nil]
  exact claims.values

/-- A thread with registers, which take the pending thread pointer if they have none. -/
theorem Claims.push (claims : Claims arch notes regs state) (own : ThreadRegs) :
    Claims arch notes (regs ++ [own]) (push state own) := by
  have same := claims.own.length_eq
  have front := (List.sublist_append_left (taken regs state.threads) state.pending_tp.toList).trans claims.values
  unfold Threads.push
  cases pending : state.pending_tp with
  | none =>
    refine ⟨List.rel_append claims.own (.cons ⟨rfl, rfl, rfl, fun _ => rfl⟩ .nil), fun _ _ _ => rfl, ?_⟩
    have none : ¬ (own.tp = 0 ∧ own.tp ≠ 0) := fun both => both.2 both.1
    rw [taken_concat same, if_neg none, List.append_nil, Option.toList_none, List.append_nil]
    exact front
  | some tp =>
    have values := claims.values
    rw [pending] at values
    by_cases zero : own.tp = 0
    · simp only [if_pos zero]
      refine ⟨List.rel_append claims.own (.cons ⟨rfl, rfl, rfl, fun other => absurd zero other⟩ .nil),
        fun _ _ _ => rfl, ?_⟩
      rw [taken_concat same, Option.toList_none, List.append_nil]
      by_cases takes : own.tp = 0 ∧ tp ≠ 0
      · rw [if_pos takes]
        exact values
      · rw [if_neg takes, List.append_nil]
        exact front
    · simp only [if_neg zero]
      refine ⟨List.rel_append claims.own (.cons ⟨rfl, rfl, rfl, fun _ => rfl⟩ .nil), ?_, ?_⟩
      · intro last isLast none
        rw [List.getLast?_concat] at isLast
        rw [← Option.some.inj isLast] at none
        exact absurd none zero
      · rw [taken_concat same, if_neg fun both => zero both.1, List.append_nil]
        exact values

private theorem last_own {init : List Thread} {last : Thread} (own : List.Forall₂ OwnRegs regs (init ++ [last])) :
    ∃ before lastRegs, regs = before ++ [lastRegs] ∧ List.Forall₂ OwnRegs before init ∧ OwnRegs lastRegs last := by
  have front := List.forall₂_take_append regs init [last] own
  have back := List.forall₂_drop_append regs init [last] own
  cases isBack : regs.drop init.length with
  | nil =>
    rw [isBack] at back
    cases back
  | cons lastRegs rest =>
    rw [isBack] at back
    obtain ⟨isOwn, none⟩ := List.forall₂_cons.mp back
    obtain rfl := List.forall₂_nil_right_iff.mp none
    exact ⟨_, lastRegs, by rw [← isBack, List.take_append_drop], front, isOwn⟩

/-- A thread pointer goes to the last thread, or waits. -/
theorem Claims.fill (claims : Claims arch notes regs state) {note : Note} (tls : IsTls arch note) {tp : UInt64}
    (value : arch.parse_tls_note note.desc = some tp) : Claims arch (notes ++ [note]) regs (fill state tp) := by
  have front := (List.sublist_append_left (taken regs state.threads) state.pending_tp.toList).trans claims.values
  have later : tls_values arch (notes ++ [note]) = tls_values arch notes ++ [tp] := by
    rw [tls_values_concat, if_pos tls, value]
    rfl
  have waits (idle : ∀ last, state.threads.getLast? = some last → last.tp ≠ 0) :
      Claims arch (notes ++ [note]) regs ⟨state.threads, some tp⟩ := by
    refine ⟨claims.own, fun last isLast zero => absurd zero (idle last isLast), ?_⟩
    rw [later]
    exact front.append_right [tp]
  unfold Threads.fill
  cases isLast : state.threads.getLast? with
  | none => exact waits fun last other => by rw [isLast] at other; cases other
  | some last =>
    by_cases zero : last.tp = 0
    · obtain ⟨init, isInit⟩ := List.getLast?_eq_some_iff.mp isLast
      obtain ⟨before, own, rfl, others, isOwn⟩ := last_own (isInit ▸ claims.own)
      have unset : own.tp = 0 := not_not.mp fun other => other (isOwn.tp other ▸ zero)
      have same := others.length_eq
      rw [isInit, taken_concat same, if_neg fun both => both.2 zero, List.append_nil] at front
      simp only [if_pos zero, isInit, List.dropLast_concat, claims.idle last isLast zero]
      refine ⟨List.rel_append others (.cons ⟨isOwn.pc, isOwn.sp, isOwn.thread_id, fun other => absurd unset other⟩ .nil),
        fun _ _ _ => rfl, ?_⟩
      rw [later, taken_concat same, Option.toList_none, List.append_nil]
      by_cases takes : own.tp = 0 ∧ tp ≠ 0
      · rw [if_pos takes]
        exact front.append_right [tp]
      · rw [if_neg takes, List.append_nil]
        exact front.trans (List.sublist_append_left _ _)
    · simp only [if_neg zero]
      refine waits fun other isOther => ?_
      rw [isLast] at isOther
      exact Option.some.inj isOther ▸ zero

/-- A turn of the loop keeps the claims, with the registers of an `NT_PRSTATUS`. -/
theorem turn_claims (claims : Claims arch notes regs state) {note : Note} {after : Collected}
    (ran : turn arch state note = .ok after) :
    ∃ more, List.Forall₂ (fun note own => arch.parse_prstatus note.desc = .ok own) ([note].filter (IsPrstatus ·)) more ∧
      Claims arch (notes ++ [note]) (regs ++ more) after := by
  by_cases prstatus : IsPrstatus note
  · have other : ¬ IsTls arch note := fun tls => tls.1 prstatus
    rw [turn, if_pos prstatus, bind_eq_ok] at ran
    obtain ⟨own, parsed, isAfter⟩ := ran
    obtain rfl := Except.ok.inj isAfter
    rw [List.filter_cons_of_pos (by simpa using prstatus)]
    exact ⟨[own], .cons parsed .nil, (claims.push own).pass other⟩
  · rw [List.filter_cons_of_neg (by simpa using prstatus)]
    refine ⟨[], .nil, ?_⟩
    rw [List.append_nil]
    by_cases tls : IsTls arch note
    · cases value : arch.parse_tls_note note.desc with
      | some tp =>
        rw [turn_tls tls value] at ran
        exact Except.ok.inj ran ▸ claims.fill tls value
      | none =>
        rw [turn, if_neg prstatus, if_pos tls.2, value] at ran
        refine Except.ok.inj ran ▸ ⟨claims.own, claims.idle, ?_⟩
        rw [tls_values_concat, if_pos tls, value, Option.toList_none, List.append_nil]
        exact claims.values
    · rw [turn, if_neg prstatus, if_neg fun is => tls ⟨prstatus, is⟩] at ran
      exact Except.ok.inj ran ▸ claims.pass tls

private theorem run_claims (ran : notes.foldlM (turn arch) ⟨[], none⟩ = .ok state) :
    ∃ regs, List.Forall₂ (fun note own => arch.parse_prstatus note.desc = .ok own) (notes.filter (IsPrstatus ·)) regs ∧
      Claims arch notes regs state := by
  induction notes using List.reverseRecOn generalizing state with
  | nil =>
    cases ran
    exact ⟨[], .nil, .nil, fun _ _ _ => rfl, List.Sublist.refl _⟩
  | append_singleton notes note ih =>
    rw [List.foldlM_append, bind_eq_ok] at ran
    obtain ⟨before, isBefore, last⟩ := ran
    obtain ⟨after, isAfter, same⟩ := bind_eq_ok.mp last
    obtain rfl := Except.ok.inj same
    obtain ⟨regs, read, claims⟩ := ih isBefore
    obtain ⟨more, alsoRead, claimed⟩ := turn_claims claims isAfter
    rw [List.filter_append]
    exact ⟨regs ++ more, List.rel_append read alsoRead, claimed⟩

private theorem turn_fails {note : Note} {e : Error} :
    turn arch state note = .error e ↔ IsPrstatus note ∧ arch.parse_prstatus note.desc = .error e := by
  unfold turn
  by_cases prstatus : IsPrstatus note
  · rw [if_pos prstatus]
    cases arch.parse_prstatus note.desc with
    | error other => simp [prstatus, bind, Except.bind]
    | ok own => simp [bind, Except.bind, pure, Except.pure]
  · rw [if_neg prstatus]
    simp only [prstatus, false_and, iff_false]
    split
    · cases arch.parse_tls_note note.desc with
      | some tp => simp
      | none => simp
    · simp

/-- The loop fails at the first `NT_PRSTATUS` that is not read. -/
theorem run_fails {e : Error} : notes.foldlM (turn arch) state = .error e ↔
    ∃ front note back, notes = front ++ note :: back ∧ IsPrstatus note ∧ arch.parse_prstatus note.desc = .error e ∧
      ∀ other ∈ front, ∀ failure, ¬ (IsPrstatus other ∧ arch.parse_prstatus other.desc = .error failure) := by
  induction notes generalizing state with
  | nil => simp [pure, Except.pure]
  | cons note rest ih =>
    rw [List.foldlM_cons]
    cases ran : turn arch state note with
    | error failure =>
      have fails := turn_fails.mp ran
      constructor
      · intro isError
        obtain rfl := Except.error.inj isError
        exact ⟨[], note, rest, rfl, fails.1, fails.2, by simp⟩
      · rintro ⟨front, first, back, split, _, isError, fine⟩
        cases front with
        | nil =>
          obtain ⟨rfl, _⟩ := List.cons.inj split
          exact congrArg Except.error (Except.error.inj (fails.2.symm.trans isError))
        | cons head front =>
          obtain ⟨rfl, _⟩ := List.cons.inj split
          exact absurd fails (fine note List.mem_cons_self failure)
    | ok after =>
      have fine : ∀ failure, ¬ (IsPrstatus note ∧ arch.parse_prstatus note.desc = .error failure) := by
        intro failure fails
        rw [turn_fails.mpr fails] at ran
        cases ran
      change rest.foldlM (turn arch) after = .error e ↔ _
      rw [ih]
      constructor
      · rintro ⟨front, first, back, rfl, prstatus, isError, others⟩
        refine ⟨note :: front, first, back, rfl, prstatus, isError, ?_⟩
        exact fun other member => (List.mem_cons.mp member).elim (fun same => same ▸ fine) (others other)
      · rintro ⟨front, first, back, split, prstatus, isError, others⟩
        cases front with
        | nil =>
          obtain ⟨rfl, _⟩ := List.cons.inj split
          exact absurd ⟨prstatus, isError⟩ (fine e)
        | cons head front =>
          obtain ⟨rfl, rfl⟩ := List.cons.inj split
          exact ⟨front, first, back, rfl, prstatus, isError, fun other member =>
            others other (List.mem_cons_of_mem _ member)⟩

private theorem getLast?_cons_or (value : UInt64) (values : List UInt64) (before : Option UInt64) :
    (value :: values).getLast?.or before = values.getLast?.or (some value) := by
  rw [List.getLast?_cons]
  cases values.getLast? <;> rfl

/-- Behind a thread that has its thread pointer the values wait, and the last one stays. -/
theorem fill_all_set (init : List Thread) {last : Thread} (set : last.tp ≠ 0) (values : List UInt64)
    (waiting : Option UInt64) :
    values.foldl fill ⟨init ++ [last], waiting⟩ = ⟨init ++ [last], values.getLast?.or waiting⟩ := by
  induction values generalizing waiting with
  | nil => rfl
  | cons value values ih =>
    have one : fill ⟨init ++ [last], waiting⟩ value = ⟨init ++ [last], some value⟩ := by
      rw [fill]
      simp only [List.getLast?_concat, if_neg set]
    rw [List.foldl_cons, one, ih, getLast?_cons_or]

private theorem fill_all_first (values : List UInt64) (waiting : Option UInt64) :
    values.foldl fill ⟨[], waiting⟩ = ⟨[], values.getLast?.or waiting⟩ := by
  induction values generalizing waiting with
  | nil => rfl
  | cons value values ih => rw [List.foldl_cons, fill, List.getLast?_nil, ih, getLast?_cons_or]

/-- A thread without a thread pointer gets the first that is not zero. -/
theorem fill_all_unset (init : List Thread) {last : Thread} (unset : last.tp = 0) (values : List UInt64) :
    values.foldl fill ⟨init ++ [last], none⟩ =
      ⟨init ++ [{ last with tp := (values.find? (· ≠ 0)).getD 0 }], (values.dropWhile (· = 0)).tail.getLast?⟩ := by
  induction values with
  | nil =>
    rw [List.foldl_nil, List.find?_nil, Option.getD_none, ← unset]
    rfl
  | cons value values ih =>
    have one : fill ⟨init ++ [last], none⟩ value = ⟨init ++ [{ last with tp := value }], none⟩ := by
      rw [fill]
      simp only [List.getLast?_concat, if_pos unset, List.dropLast_concat]
    rw [List.foldl_cons, one]
    by_cases zero : value = 0
    · have same : { last with tp := value } = last := by rw [zero, ← unset]
      rw [same, ih, List.find?_cons_of_neg (by simpa using zero), List.dropWhile_cons_of_pos (by simpa using zero)]
    · rw [@fill_all_set init { last with tp := value } zero, List.find?_cons_of_pos (by simpa using zero),
        List.dropWhile_cons_of_neg (by simpa using zero), Option.or_none]
      rfl

/-- One `NT_PRSTATUS` with the TLS notes behind it. -/
def block_turn (state : Collected) (block : ThreadRegs × List UInt64) : Collected :=
  block.2.foldl fill (push state block.1)

private theorem run_blocks (parsed : List.Forall₂ (fun note own => arch.parse_prstatus note.desc = .ok own)
    (notes.filter (IsPrstatus ·)) regs) (state : Collected) :
    notes.foldlM (turn arch) state =
      .ok ((regs.zip (tls_blocks arch notes).2).foldl block_turn ((tls_blocks arch notes).1.foldl fill state)) := by
  induction notes generalizing regs state with
  | nil =>
    cases parsed
    rfl
  | cons note rest ih =>
    rw [List.foldlM_cons, tls_blocks]
    by_cases prstatus : IsPrstatus note
    · rw [List.filter_cons_of_pos (by simpa using prstatus)] at parsed
      cases parsed with
      | cons isOwn others =>
        rw [turn_prstatus prstatus isOwn, if_pos prstatus]
        exact ih others _
    · rw [List.filter_cons_of_neg (by simpa using prstatus)] at parsed
      rw [if_neg prstatus]
      by_cases tls : IsTls arch note
      · rw [if_pos tls]
        cases value : arch.parse_tls_note note.desc with
        | some tp =>
          rw [turn_tls tls value]
          exact ih parsed _
        | none =>
          rw [turn, if_neg prstatus, if_pos tls.2, value]
          exact ih parsed _
      · rw [if_neg tls, turn_unrelated fun related => related.elim prstatus tls]
        exact ih parsed _

/-- The blocks add the threads that are given. -/
theorem blocks_given (blocks : List (ThreadRegs × List UInt64)) (before : List Thread) (waiting : Option UInt64) :
    (blocks.foldl block_turn ⟨before, waiting⟩).threads = before ++ given waiting blocks := by
  induction blocks generalizing before waiting with
  | nil => simp [given]
  | cons block rest ih =>
    obtain ⟨own, values⟩ := block
    rw [List.foldl_cons, given]
    by_cases set : own.tp ≠ 0
    · have pushed : push ⟨before, waiting⟩ own = ⟨before ++ [⟨own.pc, own.sp, own.tp, own.thread_id⟩], waiting⟩ := by
        rw [push]
        cases waiting with
        | none => rfl
        | some tp => simp only [if_neg set]
      rw [if_pos set, block_turn, pushed, @fill_all_set before ⟨own.pc, own.sp, own.tp, own.thread_id⟩ set, ih]
      simp
    · have unset : own.tp = 0 := not_not.mp set
      have pushed : push ⟨before, waiting⟩ own =
          ⟨before ++ [⟨own.pc, own.sp, waiting.getD 0, own.thread_id⟩], none⟩ := by
        rw [push]
        cases waiting with
        | none => rw [unset]; rfl
        | some tp => simp only [if_pos unset, Option.getD_some]
      rw [if_neg set, block_turn, pushed]
      by_cases waits : waiting.getD 0 ≠ 0
      · rw [if_pos waits, @fill_all_set before ⟨own.pc, own.sp, waiting.getD 0, own.thread_id⟩ waits, ih,
          Option.or_none]
        simp
      · rw [if_neg waits, @fill_all_unset before ⟨own.pc, own.sp, waiting.getD 0, own.thread_id⟩
          (not_not.mp waits), ih]
        simp

/-- Where every `NT_PRSTATUS` is read the threads are those that are given. -/
theorem threads_given (parsed : List.Forall₂ (fun note own => arch.parse_prstatus note.desc = .ok own)
    (notes.filter (IsPrstatus ·)) regs) :
    threads notes arch = .ok (given (tls_blocks arch notes).1.getLast? (regs.zip (tls_blocks arch notes).2)) := by
  have ran := run_blocks parsed ⟨[], none⟩
  rw [fill_all_first, Option.or_none] at ran
  rw [threads, ran]
  change Except.ok _ = _
  rw [blocks_given, List.nil_append]

end

/-- A TLS note's thread pointer is the one stored at its front. -/
theorem tls_value_iff {arch : Handler} {offsets : Offsets} (reads : Reads arch offsets) {note : Note}
    (tls : IsTls arch.toArch note) {tp : UInt64} :
    arch.parse_tls_note note.desc = some tp ↔ StoredAt note.desc 8 0 tp.toNat := by
  cases reads with
  | x86_64 => cases tls.2.1
  | aarch64 => exact le_u64_eq_some

/-- Of any notes at all, reading the threads fails exactly at the first short
    `NT_PRSTATUS`; else there is a thread for each of these in order, with the
    registers stored there, and with the thread pointer among these or the one
    that it is given of the TLS notes. Those that come from elsewhere are those of
    different TLS notes, in order. -/
theorem threads_exact (machine : UInt16) (arch : Handler) (known : by_elf_machine machine = some arch)
    (notes : List Note) :
    ∃ offsets, Reads arch offsets ∧
      (∀ e, threads notes arch.toArch = .error e ↔
        ∃ front note back, notes = front ++ note :: back ∧ IsPrstatus note ∧ note.desc.length < offsets.min_len ∧
          e = .NoteTooShort offsets.min_len note.desc.length ∧
          ∀ other ∈ front, IsPrstatus other → offsets.min_len ≤ other.desc.length) ∧
      (∀ note tp, IsTls arch.toArch note →
        (arch.parse_tls_note note.desc = some tp ↔ StoredAt note.desc 8 0 tp.toNat)) ∧
      ∀ found, threads notes arch.toArch = .ok found ↔
        ∃ regs, List.Forall₂ (fun note own => offsets.min_len ≤ note.desc.length ∧ Registers offsets note.desc own)
            (notes.filter (IsPrstatus ·)) regs ∧
          found = given (tls_blocks arch.toArch notes).1.getLast? (regs.zip (tls_blocks arch.toArch notes).2) ∧
          List.Forall₂ OwnRegs regs found ∧ (taken regs found).Sublist (tls_values arch.toArch notes) := by
  obtain ⟨offsets, reads⟩ := reads_of_known known
  refine ⟨offsets, reads, fun e => ?_, fun note tp tls => tls_value_iff reads tls, fun found => ⟨fun ran => ?_, ?_⟩⟩
  · have failed : threads notes arch.toArch = .error e ↔ notes.foldlM (turn arch.toArch) ⟨[], none⟩ = .error e := by
      rw [threads]
      cases notes.foldlM (turn arch.toArch) ⟨[], none⟩ <;> simp [bind, Except.bind, pure, Except.pure]
    rw [failed, run_fails]
    simp only [parse_prstatus_fails reads, not_and]
    constructor
    · rintro ⟨front, note, back, split, prstatus, ⟨short, isError⟩, others⟩
      exact ⟨front, note, back, split, prstatus, short, isError, fun other member is =>
        Nat.not_lt.mp fun less => others other member _ is less rfl⟩
    · rintro ⟨front, note, back, split, prstatus, short, isError, others⟩
      exact ⟨front, note, back, split, prstatus, ⟨short, isError⟩, fun other member _ is less =>
        absurd less (Nat.not_lt.mpr (others other member is))⟩
  · obtain ⟨state, ended, isFound⟩ := bind_eq_ok.mp ran
    obtain rfl := Except.ok.inj isFound
    obtain ⟨regs, read, claims⟩ := run_claims ended
    refine ⟨regs, read.imp fun note own parsed => (parse_prstatus_eq_ok reads).mp parsed, ?_, claims.own,
      (List.sublist_append_left _ _).trans claims.values⟩
    exact Except.ok.inj (ran.symm.trans (threads_given read))
  · rintro ⟨regs, read, rfl, _⟩
    exact threads_given (read.imp fun note own parsed => (parse_prstatus_eq_ok reads).mpr parsed)

/-- Two thread pointers in front of two threads, of which the first is lost. -/
def stray_notes : List Note := [tls_note 0x1000, tls_note 0x2000, prstatus_note 7, prstatus_note 8]

def stray_found : List Thread := [⟨0, 0, 0x2000, 7⟩, ⟨0, 0, 0, 8⟩]

theorem stray_threads : ∃ regs, stray_found = given (some 0x2000) (regs.zip [[], []]) ∧
    List.Forall₂ OwnRegs regs stray_found ∧ (taken regs stray_found).Sublist (tls_values aarch64.toArch stray_notes) := by
  obtain ⟨_, _, _, _, read⟩ := threads_exact 183 aarch64 rfl stray_notes
  obtain ⟨regs, _, all, own, values⟩ := (read stray_found).mp (by decide +kernel)
  have blocks : tls_blocks aarch64.toArch stray_notes = ([0x1000, 0x2000], [[], []]) := by decide +kernel
  rw [blocks] at all
  exact ⟨regs, all, own, values⟩

/-! ## Notes as a kernel writes them -/

/-- The notes of a thread, with its thread pointer among the registers or in a
    TLS note, which may come first. -/
inductive Saved (arch : Handler) (offsets : Offsets) : Thread → List Note → Prop where
  | register {thread : Thread} {prstatus : Note} (none : arch.tls_note_type = none) (is : IsPrstatus prstatus)
      (long : offsets.min_len ≤ prstatus.desc.length)
      (regs : Registers offsets prstatus.desc ⟨thread.pc, thread.sp, thread.tp, thread.thread_id⟩) :
      Saved arch offsets thread [prstatus]
  | note {thread : Thread} {prstatus tls : Note} (tls_first : Bool) (none : offsets.tp = none) (is : IsPrstatus prstatus)
      (long : offsets.min_len ≤ prstatus.desc.length)
      (regs : Registers offsets prstatus.desc ⟨thread.pc, thread.sp, 0, thread.thread_id⟩) (isTls : IsTls arch.toArch tls)
      (value : StoredAt tls.desc 8 0 thread.tp.toNat) (nonzero : thread.tp ≠ 0) :
      Saved arch offsets thread (if tls_first then [tls, prstatus] else [prstatus, tls])

/-- The note segments of a core are the records of some notes, block by block. -/
structure Written (core : Image.Elf) (blocks : List (List Note)) : Prop where
  segments : List.Forall₂ (fun (ph : Image.ProgramHeader) block =>
    BuildId.segment core.data.bytes ph.toProgramHeader = some (records block))
    (core.program_headers.filter fun ph => ph.p_type = BuildId.PT_NOTE) blocks
  writable : ∀ block ∈ blocks, ∀ note ∈ block, Writable note

/-- Notes of threads, with any others between them, and of mapped files. -/
structure Describes (arch : Handler) (offsets : Offsets) (is_64 : Bool) (notes : List Note) (threads : List Thread)
    (files : List MappedFile) : Prop where
  saved : ∃ groups, List.Forall₂ (Saved arch offsets) threads groups ∧
    notes.filter (Related arch.toArch ·) = groups.flatten
  mapped : ∃ note page_size, notes.find? (fun n => n.note_type = NT_FILE) = some note ∧
    note.desc = encode is_64 page_size files
  encodable : MappedFiles.Encodable is_64 files
  few : files.length ≤ MAX_MAPPINGS

private theorem walked_records {core : Image.Elf} {ph : BuildId.ProgramHeader} {block : List Note}
    (segment : BuildId.segment core.data.bytes ph = some (records block)) (writable : ∀ note ∈ block, Writable note) :
    BuildId.walked (records block) = block := by
  obtain ⟨stop, _, inFile⟩ := Option.bind_eq_some_iff.mp segment
  obtain ⟨_, inside, same⟩ := slice_eq_some.mp inFile
  have small : (records block).length ≤ MAX_SLICE := by
    have length := core.data.length_le
    rw [same, List.length_take, List.length_drop]
    omega
  rw [BuildId.walked, walk_note_segment_records writable small, Option.getD_some]

private theorem notes_written {core : Image.Elf} {blocks : List (List Note)} (written : Written core blocks) :
    DebugLink.notes core = blocks.flatten := by
  obtain ⟨segments, writable⟩ := written
  rw [DebugLink.notes, BuildId.walk_all_notes, List.flatMap_map]
  generalize core.program_headers = headers at segments ⊢
  induction headers generalizing blocks with
  | nil =>
    cases segments
    rfl
  | cons ph rest ih =>
    rw [List.flatMap_cons]
    by_cases isNote : ph.p_type = BuildId.PT_NOTE
    · rw [List.filter_cons_of_pos (by simpa using isNote)] at segments
      cases segments with
      | cons own others =>
        have later := ih (fun block member => writable block (List.mem_cons_of_mem _ member)) others
        rw [if_neg (not_not.mpr isNote), own, List.flatten_cons, later]
        simp only [walked_records own (writable _ List.mem_cons_self)]
    · rw [List.filter_cons_of_neg (by simpa using isNote)] at segments
      rw [if_pos isNote, List.nil_append, ih writable segments]

private theorem files_read_back {notes : List Note} {note : Note} {is_64 : Bool} {page_size : UInt64}
    {files : List MappedFile} (encodable : MappedFiles.Encodable is_64 files) (few : files.length ≤ MAX_MAPPINGS)
    (found : notes.find? (fun n => n.note_type = NT_FILE) = some note)
    (desc : note.desc = encode is_64 page_size files) (small : note.desc.length ≤ MAX_SLICE) :
    mapped_files notes is_64 = .ok files := by
  have length := encode_length is_64 page_size files
  have all : AllRead is_64 files (encode is_64 page_size files).length := ⟨few, by omega⟩
  have whole : note.desc = (encode is_64 page_size files).take (encode is_64 page_size files).length := by
    rw [desc, List.take_length]
  rw [mapped_files_eq encodable found whole small, triplesRead_of_allRead all,
    (strings_of_allRead encodable all).2 (by omega), List.take_length, List.zipWith_map]
  simp [rangeOf]

section
variable {arch : Handler} {offsets : Offsets} {saved : List Thread} {groups : List (List Note)}

private theorem saved_x86_64 (each : List.Forall₂ (Saved x86_64 x86_64_offsets) saved groups) :
    (∀ note ∈ groups.flatten, IsPrstatus note) ∧ groups.flatten.mapM (thread_of X86_64) = .ok saved := by
  induction each with
  | nil => exact ⟨by simp, rfl⟩
  | cons own _ ih =>
    obtain ⟨others, later⟩ := ih
    cases own with
    | register _ is long regs =>
      have parsed : X86_64.parse_prstatus _ = .ok _ := (parse_prstatus_eq_ok Reads.x86_64).mpr ⟨long, regs⟩
      rw [List.flatten_cons, List.singleton_append, List.mapM_cons, thread_of, parsed, later]
      exact ⟨List.forall_mem_cons.mpr ⟨is, others⟩, rfl⟩
    | note tls_first none => cases none

private theorem saved_aarch64 (each : List.Forall₂ (Saved aarch64 aarch64_offsets) saved groups) :
    ∃ own : List (Group Aarch64), groups.flatten = own.flatMap Group.notes ∧ saved = own.map Group.thread := by
  induction each with
  | nil => exact ⟨[], rfl, rfl⟩
  | cons own _ ih =>
    obtain ⟨others, later, rest⟩ := ih
    cases own with
    | register none => cases none
    | note tls_first _ is long regs isTls value nonzero =>
      have parsed := (parse_prstatus_eq_ok Reads.aarch64).mpr ⟨long, regs⟩
      exact ⟨⟨_, _, tls_first, _, _, is, isTls, parsed, le_u64_eq_some.mpr value, nonzero⟩ :: others, by
        rw [List.flatten_cons, later, List.flatMap_cons]; rfl, by rw [rest]; rfl⟩

private theorem threads_read_back (reads : Reads arch offsets) (each : List.Forall₂ (Saved arch offsets) saved groups)
    {notes : List Note} (interleaved : notes.filter (Related arch.toArch ·) = groups.flatten) :
    threads notes arch.toArch = .ok saved := by
  cases reads with
  | x86_64 =>
    obtain ⟨prstatus, read⟩ := saved_x86_64 each
    have all : notes.filter (IsPrstatus ·) = (notes.filter (Related x86_64.toArch ·)).filter (IsPrstatus ·) := by
      rw [List.filter_filter]
      apply List.filter_congr
      intro note _
      by_cases is : IsPrstatus note
      · simp [is, Related]
      · simp [is]
    rw [interleaved, List.filter_eq_self.mpr fun note member => decide_eq_true (prstatus note member)] at all
    change threads notes X86_64 = _
    rw [threads_x86_64, all, read]
  | aarch64 =>
    obtain ⟨own, isNotes, rfl⟩ := saved_aarch64 each
    have settled : Settled ⟨[], none⟩ := ⟨rfl, by simp⟩
    have ran := run_groups aarch64_leaves_tp own settled
    rw [threads, run_related, interleaved, isNotes]
    change (List.foldlM (turn Aarch64) _ _ >>= _) = _
    rw [ran]
    rfl

end

/-- What a kernel writes into the note segments of a core is read back: the notes,
    every thread with its registers and its thread pointer, and the mapped files. -/
theorem notes_read_back (core : Image.Elf) (blocks : List (List Note)) (written : Written core blocks) (arch : Handler)
    (offsets : Offsets) (reads : Reads arch offsets) (saved : List Thread) (files : List MappedFile)
    (describes : Describes arch offsets core.is_64 blocks.flatten saved files) :
    DebugLink.notes core = blocks.flatten ∧ threads (DebugLink.notes core) arch.toArch = .ok saved ∧
      mapped_files (DebugLink.notes core) core.is_64 = .ok files := by
  obtain ⟨⟨groups, each, interleaved⟩, ⟨note, page_size, found, desc⟩, encodable, few⟩ := describes
  obtain ⟨block, inBlocks, inBlock⟩ := List.mem_flatten.mp (List.mem_of_find?_eq_some found)
  have small : note.desc.length ≤ MAX_SLICE := by
    have short := (written.writable block inBlocks note inBlock).descsz
    rw [MAX_SLICE]
    omega
  rw [notes_written written]
  exact ⟨rfl, threads_read_back reads each interleaved, files_read_back encodable few found desc small⟩

/-- The notes of two threads on aarch64, in two segments and in different orders, and of a mapped file. -/
def small_blocks : List (List Note) :=
  [[prstatus_note 7, tls_note 0x1000],
    [tls_note 0x2000, ⟨"CORE", 2, []⟩, prstatus_note 8, ⟨"CORE", NT_FILE, encode true 0x1000 victim⟩]]

/-- A core with these notes and a loaded segment between the two. -/
def small_core : Image.Elf where
  is_64 := true
  program_headers := [⟨⟨4, 0, 424⟩, 0⟩, ⟨⟨1, 0, 0⟩, 0x1000⟩, ⟨⟨4, 424, 556⟩, 0⟩]
  data := ⟨small_blocks.flatMap records, by decide +kernel⟩

def small_threads : List Thread := [⟨0, 0, 0x1000, 7⟩, ⟨0, 0, 0x2000, 8⟩]

private theorem small_written : Written small_core small_blocks := by
  have each : ∀ note ∈ small_blocks.flatten,
      0 ∉ as_bytes note.name ∧ (storedName note).length < 2 ^ 32 ∧ note.desc.length < 2 ^ 32 := by decide +kernel
  refine ⟨.cons (by decide +kernel) (.cons (by decide +kernel) .nil), fun block inBlocks note inBlock => ?_⟩
  obtain ⟨name, namesz, descsz⟩ := each note (List.mem_flatten.mpr ⟨block, inBlocks, inBlock⟩)
  exact ⟨name, namesz, descsz⟩

private theorem zero_registers : Registers aarch64_offsets (prstatus_note 7).desc ⟨0, 0, 0, 7⟩ ∧
    Registers aarch64_offsets (prstatus_note 8).desc ⟨0, 0, 0, 8⟩ := by
  refine ⟨⟨?_, ?_, rfl, ?_⟩, ⟨?_, ?_, rfl, ?_⟩⟩
  all_goals
    unfold StoredAt
    decide +kernel

private theorem small_described : Describes aarch64 aarch64_offsets true small_blocks.flatten small_threads victim where
  saved := by
    refine ⟨[[prstatus_note 7, tls_note 0x1000], [tls_note 0x2000, prstatus_note 8]], .cons ?_ (.cons ?_ .nil),
      by decide +kernel⟩
    · exact .note false rfl ⟨rfl, rfl⟩ (by decide +kernel) zero_registers.1 (by decide +kernel)
        (by unfold StoredAt; decide +kernel) (by decide)
    · exact .note true rfl ⟨rfl, rfl⟩ (by decide +kernel) zero_registers.2 (by decide +kernel)
        (by unfold StoredAt; decide +kernel) (by decide)
  mapped := ⟨_, 0x1000, rfl, rfl⟩
  encodable := victim_encodable
  few := by decide

theorem small_notes_read_back : DebugLink.notes small_core = small_blocks.flatten ∧
    threads (DebugLink.notes small_core) aarch64.toArch = .ok small_threads ∧
    mapped_files (DebugLink.notes small_core) small_core.is_64 = .ok victim :=
  notes_read_back small_core small_blocks small_written aarch64 aarch64_offsets .aarch64 small_threads victim
    small_described

end HeapAnalyser.CoreNotes
