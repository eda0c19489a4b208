import Mathlib.Tactic.NormNum

/-!
# Constants and Small Types

The constants, error codes and file states of `types.h`, and the alignment helper.
Sizes, offsets and counts of the source (`size_t`, `uint64_t`) are natural numbers.
-/

namespace SpdkKv

/-- Alignment of every record and buffer: 4 KB. -/
def kPageSize : ℕ := 4096

/-- Default size of a data file: 8 GB. -/
def kDefaultFileSize : ℕ := 8 * 1024 * 1024 * 1024

/-- Capacity of the file table of the superblock. -/
def kMaxFileCount : ℕ := 1024

/-- Magic number of a log record, "SPDK". -/
def kEntryMagic : UInt32 := 0x5350444B

/-- Magic number of a data file header, "SPDF". -/
def kDataFileHeaderMagic : UInt32 := 0x53504446

/-- Tombstone marker in the flags of a record. -/
def kFlagDeleted : UInt8 := 0x01

/-- Marker of the zero-copy segment format in the flags of a record. -/
def kFlagSegmentBuf : UInt8 := 0x04

/-- Start of the metadata inside the first segment of a segment-format record. -/
def kSegmentMetaOffset : ℕ := 256

/-- Byte of the first segment at which the value resumes. -/
def kSegmentDataOffset : ℕ := 512

/-- Number of entries the allocation log holds. -/
def kAllocLogCapacity : ℕ := 64

/-- Fill of the allocation log at which a checkpoint is triggered. -/
def kAllocLogNearFullThreshold : ℕ := 48

/-- Number of index segments of a checkpoint. -/
def kMemIndexSegmentCount : ℕ := 80

/-- Capacity of one append buffer: 2 MB. -/
def kAppendBufferSize : ℕ := 2 * 1024 * 1024

/-- Fill of an append buffer at which it is flushed: 2 MB - 64 KB. -/
def kFlushThreshold : ℕ := kAppendBufferSize - 64 * 1024

/-- Result codes of the engine. -/
inductive KvError
  | kSuccess
  | kKeyNotFound
  | kValueTooLarge
  | kNoSpace
  | kIoError
  | kCorruption
  | kInvalidArgument
  | kEngineNotReady
  | kInternalError
  | kBackpressure
  | kInvalidState
  deriving DecidableEq, Repr

/-- Life cycle of a data file. -/
inductive FileState
  | kActive
  | kSealed
  | kCompacting
  | kDeleted
  deriving DecidableEq, Repr

/-- `value` rounded up to a multiple of `alignment`; the source's mask computes the same
for the powers of two it is used with. -/
def alignUp (value alignment : ℕ) : ℕ :=
  (value + alignment - 1) / alignment * alignment

/-- The number of pages that `alignUp value kPageSize` spans. -/
def pagesFor (value : ℕ) : ℕ :=
  (value + kPageSize - 1) / kPageSize

theorem le_alignUp (value : ℕ) : value ≤ alignUp value kPageSize := by
  simp only [alignUp, kPageSize]
  omega

theorem alignUp_lt (value : ℕ) : alignUp value kPageSize < value + kPageSize := by
  simp only [alignUp, kPageSize]
  omega

/-- The next page boundary strictly after a page boundary. -/
theorem alignUp_succ_mul (p : ℕ) :
    alignUp (p * kPageSize + 1) kPageSize = (p + 1) * kPageSize := by
  simp only [alignUp, kPageSize]
  omega

theorem pagesFor_pos {value : ℕ} (h : 0 < value) : 0 < pagesFor value := by
  simp only [pagesFor, kPageSize]
  omega

end SpdkKv
