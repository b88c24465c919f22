import HeapAnalyser.Checks
import HeapAnalyser.Notes
import HeapAnalyser.Problem

/-!
The threads of a core (`threads` of `elf/coredump.rs`), from the `NT_PRSTATUS`
notes and, where the architecture keeps the thread pointer apart, its TLS notes
(`arch/`). A TLS note fills the thread that was read last, if that has no
thread pointer yet, and otherwise waits for the next one. So the notes of one
thread may come in either order, and differently for each thread: every thread
gets its own thread pointer, whatever other notes stand between
(`threads_of_groups`). Where the thread pointer is a register each thread is
read from its own note (`threads_x86_64`).
-/
namespace HeapAnalyser.Threads
open Bytes Elf Notes Checks

/-- The register values of a thread's `NT_PRSTATUS`. -/
structure ThreadRegs where
  pc : UInt64
  sp : UInt64
  tp : UInt64
  thread_id : Int32
  deriving Repr, DecidableEq

/-- What `threads` asks of an architecture. -/
structure Arch where
  parse_prstatus : List UInt8 → Except Error ThreadRegs
  tls_note_type : Option UInt32
  parse_tls_note : List UInt8 → Option UInt64

def le_u64 (buf : List UInt8) (off : Nat) : Option UInt64 :=
  (slice buf off (off + 8)).map fun bytes => UInt64.ofNat (number bytes)

def le_i32 (buf : List UInt8) (off : Nat) : Option Int32 :=
  (slice buf off (off + 4)).map fun bytes => Int32.ofNat (number bytes)

def PR_PID : Nat := 32
def PR_REG : Nat := 112

/-- `parse_prstatus` at the offsets of an architecture; one whose thread pointer
    is in a note of its own has no offset for it. -/
def parse_prstatus_at (min_len pc sp : Nat) (tp : Option Nat) (desc : List UInt8) : Except Error ThreadRegs := do
  let short := Error.NoteTooShort min_len desc.length
  refuse (desc.length < min_len) short
  let pc ← ok_or (le_u64 desc pc) short
  let sp ← ok_or (le_u64 desc sp) short
  let tp ← (match tp with
    | some off => ok_or (le_u64 desc off) short
    | none => .ok 0)
  let thread_id ← ok_or (le_i32 desc PR_PID) short
  return ⟨pc, sp, tp, thread_id⟩

def NT_ARM_TLS : UInt32 := 0x401

/-- Register 31 is `sp` and 32 is `pc`; the thread pointer comes with `NT_ARM_TLS`. -/
def Aarch64 : Arch where
  parse_prstatus := parse_prstatus_at (PR_REG + 32 * 8 + 8) (PR_REG + 32 * 8) (PR_REG + 31 * 8) none
  tls_note_type := some NT_ARM_TLS
  parse_tls_note desc := le_u64 desc 0

/-- Register 16 is `rip`, 19 is `rsp`, and `fs_base`, the thread pointer, is 21. -/
def X86_64 : Arch where
  parse_prstatus :=
    parse_prstatus_at (PR_REG + 21 * 8 + 8) (PR_REG + 16 * 8) (PR_REG + 19 * 8) (some (PR_REG + 21 * 8))
  tls_note_type := none
  parse_tls_note _ := none

/-- An architecture that leaves the thread pointer out of `NT_PRSTATUS`. -/
def LeavesTp (arch : Arch) : Prop := ∀ desc regs, arch.parse_prstatus desc = .ok regs → regs.tp = 0

theorem aarch64_leaves_tp : LeavesTp Aarch64 := by
  intro desc regs parsed
  simp only [Aarch64, parse_prstatus_at, bind_eq_ok] at parsed
  obtain ⟨_, _, pc, _, sp, _, tp, isTp, thread_id, _, isRegs⟩ := parsed
  cases isTp
  cases isRegs
  rfl

def NT_PRSTATUS : UInt32 := 1

structure Thread where
  pc : UInt64
  sp : UInt64
  tp : UInt64
  thread_id : Int32
  deriving Repr, DecidableEq

/-- What the loop has read: the threads, and a thread pointer that no thread has taken. -/
structure Collected where
  threads : List Thread
  pending_tp : Option UInt64

/-- A note with the registers of a thread. -/
def IsPrstatus (note : Note) : Prop := note.note_type = NT_PRSTATUS ∧ note.name = "CORE"

/-- A note with a thread pointer; the loop looks for registers first. -/
def IsTls (arch : Arch) (note : Note) : Prop :=
  ¬ IsPrstatus note ∧ some note.note_type = arch.tls_note_type ∧ (note.name = "CORE" ∨ note.name = "LINUX")

instance (note : Note) : Decidable (IsPrstatus note) := inferInstanceAs (Decidable (_ ∧ _))
instance (arch : Arch) (note : Note) : Decidable (IsTls arch note) := inferInstanceAs (Decidable (_ ∧ _))

/-- A thread is pushed; where its registers have no thread pointer it takes the pending one. -/
def push (state : Collected) (regs : ThreadRegs) : Collected :=
  match state.pending_tp with
  | some tp =>
    if regs.tp = 0 then ⟨state.threads ++ [⟨regs.pc, regs.sp, tp, regs.thread_id⟩], none⟩
    else ⟨state.threads ++ [⟨regs.pc, regs.sp, regs.tp, regs.thread_id⟩], some tp⟩
  | none => ⟨state.threads ++ [⟨regs.pc, regs.sp, regs.tp, regs.thread_id⟩], none⟩

/-- A thread pointer goes to the last thread, if that has none, and else is kept. -/
def fill (state : Collected) (tp : UInt64) : Collected :=
  match state.threads.getLast? with
  | some last =>
    if last.tp = 0 then { state with threads := state.threads.dropLast ++ [{ last with tp := tp }] }
    else { state with pending_tp := some tp }
  | none => { state with pending_tp := some tp }

/-- A turn of the loop. -/
def turn (arch : Arch) (state : Collected) (note : Note) : Except Error Collected :=
  if IsPrstatus note then do
    let regs ← arch.parse_prstatus note.desc
    return push state regs
  else if some note.note_type = arch.tls_note_type ∧ (note.name = "CORE" ∨ note.name = "LINUX") then
    match arch.parse_tls_note note.desc with
    | some tp => .ok (fill state tp)
    | none => .ok state
  else .ok state

/-- The threads of `NT_PRSTATUS` notes. -/
def threads (notes : List Note) (arch : Arch) : Except Error (List Thread) := do
  let state ← notes.foldlM (turn arch) ⟨[], none⟩
  return state.threads

/-! ## Groups of notes -/

/-- The two notes of one thread, in one of their orders. -/
structure Group (arch : Arch) where
  prstatus : Note
  tls : Note
  tls_first : Bool
  regs : ThreadRegs
  tp : UInt64
  is_prstatus : IsPrstatus prstatus
  is_tls : IsTls arch tls
  parsed : arch.parse_prstatus prstatus.desc = .ok regs
  value : arch.parse_tls_note tls.desc = some tp
  nonzero : tp ≠ 0

/-- A note that belongs to some thread. -/
def Related (arch : Arch) (note : Note) : Prop := IsPrstatus note ∨ IsTls arch note

instance (arch : Arch) (note : Note) : Decidable (Related arch note) := inferInstanceAs (Decidable (_ ∨ _))

section
variable {arch : Arch}

namespace Group

def notes (group : Group arch) : List Note :=
  if group.tls_first then [group.tls, group.prstatus] else [group.prstatus, group.tls]

/-- The thread of a group, with its own thread pointer. -/
def thread (group : Group arch) : Thread := ⟨group.regs.pc, group.regs.sp, group.tp, group.regs.thread_id⟩

end Group

/-- Between two groups nothing is pending, and the last thread has its thread pointer. -/
structure Settled (state : Collected) : Prop where
  none_pending : state.pending_tp = none
  filled : ∀ last, state.threads.getLast? = some last → last.tp ≠ 0

theorem turn_unrelated {note : Note} (other : ¬ Related arch note) (state : Collected) :
    turn arch state note = .ok state := by
  have notPrstatus : ¬ IsPrstatus note := fun is => other (.inl is)
  rw [turn, if_neg notPrstatus, if_neg fun is => other (.inr ⟨notPrstatus, is⟩)]

theorem turn_prstatus {note : Note} {regs : ThreadRegs} (is : IsPrstatus note)
    (parsed : arch.parse_prstatus note.desc = .ok regs) (state : Collected) :
    turn arch state note = .ok (push state regs) := by
  rw [turn, if_pos is, parsed]
  rfl

theorem turn_tls {note : Note} {tp : UInt64} (is : IsTls arch note) (value : arch.parse_tls_note note.desc = some tp)
    (state : Collected) : turn arch state note = .ok (fill state tp) := by
  rw [turn, if_neg is.1, if_pos is.2, value]

theorem run_related (notes : List Note) (state : Collected) :
    notes.foldlM (turn arch) state = (notes.filter (Related arch ·)).foldlM (turn arch) state := by
  rw [List.foldlM_filter]
  congr 1
  funext state note
  by_cases related : Related arch note
  · simp only [related, decide_true, if_true]
  · simp only [related, decide_false, Bool.false_eq_true, if_false, turn_unrelated related]
    rfl

/-- Where nothing is pending and the last thread is filled, a thread pointer waits for the next thread. -/
theorem fill_settled {state : Collected} (settled : Settled state) (tp : UInt64) :
    fill state tp = ⟨state.threads, some tp⟩ := by
  rw [fill]
  cases isLast : state.threads.getLast? with
  | none => rfl
  | some last => simp only [if_neg (settled.filled last isLast)]

/-- A group adds its thread, in either order of its notes. -/
theorem run_group (leaves : LeavesTp arch) (group : Group arch) {state : Collected} (settled : Settled state) :
    group.notes.foldlM (turn arch) state = .ok ⟨state.threads ++ [group.thread], none⟩ := by
  have zero : group.regs.tp = 0 := leaves _ _ group.parsed
  by_cases first : group.tls_first = true
  · rw [Group.notes, if_pos first, List.foldlM_cons, turn_tls group.is_tls group.value, fill_settled settled]
    show List.foldlM (turn arch) ⟨state.threads, some group.tp⟩ [group.prstatus] = _
    rw [List.foldlM_cons, turn_prstatus group.is_prstatus group.parsed, push]
    simp only [if_pos zero]
    rfl
  · rw [Group.notes, if_neg first, List.foldlM_cons, turn_prstatus group.is_prstatus group.parsed, push,
      settled.none_pending]
    show List.foldlM (turn arch) ⟨state.threads ++ [⟨group.regs.pc, group.regs.sp, group.regs.tp,
      group.regs.thread_id⟩], none⟩ [group.tls] = _
    rw [List.foldlM_cons, turn_tls group.is_tls group.value, fill]
    simp only [List.getLast?_concat, if_pos zero, List.dropLast_concat]
    rfl

private theorem settled_group (threads : List Thread) (group : Group arch) :
    Settled ⟨threads ++ [group.thread], none⟩ := by
  refine ⟨rfl, ?_⟩
  intro last isLast
  rw [List.getLast?_concat, Option.some.injEq] at isLast
  rw [← isLast]
  exact group.nonzero

theorem run_groups (leaves : LeavesTp arch) (groups : List (Group arch)) {state : Collected} (settled : Settled state) :
    (groups.flatMap Group.notes).foldlM (turn arch) state = .ok ⟨state.threads ++ groups.map Group.thread, none⟩ := by
  induction groups generalizing state with
  | nil =>
    obtain ⟨threads, pending_tp⟩ := state
    obtain rfl : pending_tp = none := settled.none_pending
    rw [List.map_nil, List.append_nil]
    rfl
  | cons group rest ih =>
    have later := ih (settled_group state.threads group)
    rw [List.flatMap_cons, List.foldlM_append, run_group leaves group settled]
    show (rest.flatMap Group.notes).foldlM (turn arch) ⟨state.threads ++ [group.thread], none⟩ = _
    rw [later, List.map_cons, List.append_assoc, List.singleton_append]

/-- Every thread gets its own registers and its own thread pointer, whatever
    unrelated notes stand between those of the threads. -/
theorem threads_of_groups (leaves : LeavesTp arch) (groups : List (Group arch)) (notes : List Note)
    (interleaved : notes.filter (Related arch ·) = groups.flatMap Group.notes) :
    threads notes arch = .ok (groups.map Group.thread) := by
  have settled : Settled ⟨[], none⟩ := ⟨rfl, by simp⟩
  rw [threads, run_related, interleaved, run_groups leaves groups settled]
  rfl

end

/-- The thread of a note with its registers. -/
def thread_of (arch : Arch) (note : Note) : Except Error Thread := do
  let regs ← arch.parse_prstatus note.desc
  return ⟨regs.pc, regs.sp, regs.tp, regs.thread_id⟩

section
variable {arch : Arch}

/-- Where there are no TLS notes nothing is ever pending, and each thread is that of its own note. -/
theorem run_without_tls (absent : arch.tls_note_type = none) (notes : List Note) (before : List Thread) :
    notes.foldlM (turn arch) ⟨before, none⟩ = (do
      let later ← (notes.filter (IsPrstatus ·)).mapM (thread_of arch)
      return ⟨before ++ later, none⟩) := by
  induction notes generalizing before with
  | nil =>
    rw [List.filter_nil, List.mapM_nil]
    simp
  | cons note rest ih =>
    rw [List.foldlM_cons]
    by_cases is : IsPrstatus note
    · rw [List.filter_cons_of_pos (by simpa using is), List.mapM_cons, turn, if_pos is, thread_of]
      cases arch.parse_prstatus note.desc with
      | error e => rfl
      | ok regs =>
        have later := ih (before ++ [⟨regs.pc, regs.sp, regs.tp, regs.thread_id⟩])
        simp only [bind, Except.bind, pure, Except.pure, push] at later ⊢
        rw [later]
        cases (rest.filter (IsPrstatus ·)).mapM (thread_of arch) with
        | error e => rfl
        | ok threads => simp
    · have unrelated : ¬ Related arch note := by
        rintro (prstatus | tls)
        · exact is prstatus
        · rw [IsTls, absent] at tls
          cases tls.2.1
      rw [List.filter_cons_of_neg (by simpa using is), turn_unrelated unrelated]
      exact ih before

/-- On x86-64 the threads are those of the `NT_PRSTATUS` notes, each on its own. -/
theorem threads_x86_64 (notes : List Note) :
    threads notes X86_64 = (notes.filter (IsPrstatus ·)).mapM (thread_of X86_64) := by
  rw [threads, run_without_tls rfl]
  cases (notes.filter (IsPrstatus ·)).mapM (thread_of X86_64) with
  | error e => rfl
  | ok threads => rfl

end

/-- A `NT_PRSTATUS` of aarch64 with the registers all zero, of the given thread. -/
def prstatus_note (thread_id : Nat) : Note :=
  ⟨"CORE", NT_PRSTATUS, List.replicate 32 0 ++ bytesOf 4 thread_id ++ List.replicate 340 0⟩

def tls_note (tp : Nat) : Note := ⟨"LINUX", NT_ARM_TLS, bytesOf 8 tp⟩

/-- The notes of a thread on aarch64, with the registers all zero. -/
def zero_group (tls_first : Bool) : Group Aarch64 where
  prstatus := prstatus_note (if tls_first then 8 else 7)
  tls := tls_note (if tls_first then 0x2000 else 0x1000)
  tls_first := tls_first
  regs := ⟨0, 0, 0, if tls_first then 8 else 7⟩
  tp := if tls_first then 0x2000 else 0x1000
  is_prstatus := ⟨rfl, rfl⟩
  is_tls := ⟨by cases tls_first <;> decide, rfl, .inr rfl⟩
  parsed := by cases tls_first <;> decide +kernel
  value := by cases tls_first <;> decide +kernel
  nonzero := by cases tls_first <;> decide

theorem threads_of_groups_mixed :
    threads [prstatus_note 7, ⟨"CORE", 2, []⟩, tls_note 0x1000, tls_note 0x2000, ⟨"GNU", 3, [1]⟩, prstatus_note 8]
      Aarch64 = .ok [⟨0, 0, 0x1000, 7⟩, ⟨0, 0, 0x2000, 8⟩] :=
  threads_of_groups aarch64_leaves_tp [zero_group false, zero_group true] _ (by decide +kernel)

end HeapAnalyser.Threads
