import HeapAnalyser.Machine

/-!
Hard failures (`Error`, of `error.rs`) and recoverable diagnostics (`Problem`,
of `problem.rs`). The errors are those the modelled functions can return.
Addresses in diagnostics are texts, as Rust's `{:#x}` prints them (`hex`).
-/
namespace HeapAnalyser

/-- The hard failures of the modelled functions. -/
inductive Error where
  | AddressNotMapped (addr : UInt64)
  | NoteTooShort (expected actual : Nat)
  deriving Repr, DecidableEq

/-- One recoverable issue encountered during analysis. -/
inductive Problem where
  | MissingSymbol (symbol : String)
  | DuplicateSymbol (symbol : String)
  | MissingRelocation
  | UnsupportedArch (machine : UInt16)
  | MissingBuildId
  | UnknownGlibcVersion
  | DwarfLayoutFallback (reason : String)
  | FastbinCycleDetected (arena bin_index : UInt32)
  | FastbinChunkReadFailed (arena bin_index : UInt32) (address : String)
  | TcacheCycleDetected (thread_id : Int32) (bin_index : UInt32)
  | TcacheChunkReadFailed (thread_id : Int32) (bin_index : UInt32) (address : String)
  | DuplicateTcacheEntry (thread_id : Int32) (bin_index : UInt32) (address : String)
  | ChunkReadFailed (arena : UInt32) (address : String)
  | HeapWalkTruncated (arena : UInt32) (reason : String)
  | StatsInconsistent (arena : UInt32) (size : UInt64) (reason : String)
  | ThreadTlsResolutionFailed (thread_id : Int32)
  deriving Repr, DecidableEq

/-- A word as `format!("{:#x}")` prints it. -/
def hex (a : UInt64) : String := "0x" ++ String.ofList (Nat.toDigits 16 a.toNat)

example : hex 0x7f00 = "0x7f00" := by decide

end HeapAnalyser
