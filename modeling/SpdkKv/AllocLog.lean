import Mathlib.Data.Fintype.Basic
import SpdkKv.Crc32
import SpdkKv.Lib.Bytes
import SpdkKv.Types

/-!
# The Allocation Log

`AllocLogManager` of `alloc_log.cpp`: a ring of 64 entries in one page of the superblock
blob that records every blob allocated for a data file. `head_` and `tail_` are logical
indices, `sequence_` numbers the entries. Every `write_entry` puts an entry at the tail and
writes the whole page; `load_entries` reads the page back and collects entries from the head
on until it meets one that is invalid or not newer than the one before.

## Main results

* `slot_add_inj`: 64 consecutive indices name 64 different slots.
* `scanEntries_eq_take`: **what a scan returns** from a page that carries entries with
  consecutive sequences from the head on, and older ones elsewhere.
-/

namespace SpdkKv

/-- Magic number of an allocation log entry, "ALOG". -/
def kAllocLogMagic : UInt32 := 0x414C4F47

/-- The only operation of the log. -/
def kAllocLogOpAlloc : UInt8 := 1

/-! ### Entries -/

/-- An entry of the allocation log; the reserved fields and the padding are zero. -/
structure AllocLogEntry where
  magic : UInt32
  sequence : UInt32
  blobId : UInt64
  fileId : UInt16
  op : UInt8
  createTime : UInt64
  fileSize : UInt64
  checksum : UInt32
  deriving DecidableEq, Repr

/-- What a caller records. -/
structure Allocation where
  blobId : UInt64
  fileId : UInt16
  fileSize : UInt64
  createTime : UInt64
  deriving DecidableEq, Repr

namespace AllocLogEntry

/-- A slot of a zeroed page. -/
def zero : AllocLogEntry := ⟨0, 0, 0, 0, 0, 0, 0, 0⟩

/-- The 60 bytes in front of the checksum. -/
def bytes (e : AllocLogEntry) : List UInt8 :=
  leBytes 4 e.magic.toNat ++ leBytes 4 e.sequence.toNat ++ leBytes 8 e.blobId.toNat ++
    leBytes 2 e.fileId.toNat ++ leBytes 1 e.op.toNat ++ leBytes 1 0 ++ leBytes 4 0 ++
    leBytes 8 e.createTime.toNat ++ leBytes 8 e.fileSize.toNat ++ List.replicate 20 0

/-- The magic number and the checksum are right. -/
def Valid (e : AllocLogEntry) : Prop :=
  e.magic = kAllocLogMagic ∧ Crc32.calculate e.bytes = e.checksum

instance (e : AllocLogEntry) : Decidable e.Valid := inferInstanceAs (Decidable (_ ∧ _))

/-- The entry that `write_entry` builds. -/
def build (a : Allocation) (sequence : UInt32) : AllocLogEntry :=
  let entry : AllocLogEntry :=
    ⟨kAllocLogMagic, sequence, a.blobId, a.fileId, kAllocLogOpAlloc, a.createTime,
      a.fileSize, 0⟩
  { entry with checksum := Crc32.calculate entry.bytes }

theorem build_valid (a : Allocation) (sequence : UInt32) : (build a sequence).Valid :=
  ⟨rfl, rfl⟩

@[simp] theorem build_sequence (a : Allocation) (sequence : UInt32) :
    (build a sequence).sequence = sequence := rfl

end AllocLogEntry

/-! ### The ring -/

/-- The page of the log. -/
abbrev AllocLogPage := Fin kAllocLogCapacity → AllocLogEntry

/-- The slot of a logical index. -/
def allocLogSlot (index : UInt32) : Fin kAllocLogCapacity :=
  ⟨index.toNat % kAllocLogCapacity, Nat.mod_lt _ (by decide)⟩

/-- The part of `AllocLogManager` that the log operations change. -/
structure AllocLogManager where
  head : UInt32
  tail : UInt32
  sequence : UInt32
  page : AllocLogPage

namespace AllocLogManager

/-- `initialize` of the source: the position is taken from the superblock, the page buffer is zeroed. -/
def init (head tail sequence : UInt32) : AllocLogManager :=
  ⟨head, tail, sequence, fun _ => .zero⟩

/-- `used_count`. -/
def usedCount (self : AllocLogManager) : ℕ := (self.tail - self.head).toNat

/-- `is_full`. -/
def isFull (self : AllocLogManager) : Bool := kAllocLogCapacity ≤ self.usedCount

/-- `is_near_full`. -/
def isNearFull (self : AllocLogManager) : Bool := kAllocLogNearFullThreshold ≤ self.usedCount

/-- `write_entry` up to the submission of the page: the entry, unless the log is full, and
the manager afterwards, whose page buffer is what is being written. -/
def writeEntry (self : AllocLogManager) (a : Allocation) :
    Option (AllocLogEntry × AllocLogManager) :=
  if self.isFull then none
  else
    let sequence := self.sequence + 1
    let entry := AllocLogEntry.build a sequence
    some (entry, { self with
      sequence := sequence
      page := Function.update self.page (allocLogSlot self.tail) entry
      tail := self.tail + 1 })

/-- `reclaim`. -/
def reclaim (self : AllocLogManager) : AllocLogManager := { self with head := self.tail }

/-- The loop of `on_alloc_log_page_read` with `remaining` turns left, at index `head + i`. -/
def scanEntries (page : AllocLogPage) (head : UInt32) :
    (remaining : ℕ) → (i : ℕ) → (lastSeq : UInt32) → List AllocLogEntry
  | 0, _, _ => []
  | remaining + 1, i, lastSeq =>
      let e := page (allocLogSlot (head + UInt32.ofNat i))
      if e.magic ≠ kAllocLogMagic then []
      else if Crc32.calculate e.bytes ≠ e.checksum then []
      else if e.sequence ≤ lastSeq then []
      else e :: scanEntries page head remaining (i + 1) e.sequence

/-- `load_entries` with a read that succeeds: the manager afterwards and the entries. -/
def loadEntries (self : AllocLogManager) (disk : AllocLogPage) (checkpointSequence : UInt32) :
    AllocLogManager × List AllocLogEntry :=
  let result := scanEntries disk self.head kAllocLogCapacity 0 checkpointSequence
  ({ self with
      page := disk
      tail := self.head + UInt32.ofNat result.length
      sequence := (result.getLast?.map AllocLogEntry.sequence).getD self.sequence },
    result)

/-! ### The room of the log -/

section Room

variable {log log' : AllocLogManager} {a : Allocation} {e : AllocLogEntry}

/-- An entry makes a log that has room one longer. -/
theorem usedCount_writeEntry (h : log.writeEntry a = some (e, log')) :
    log.usedCount < kAllocLogCapacity ∧ log'.usedCount = log.usedCount + 1 := by
  rw [writeEntry] at h
  split_ifs at h with hfull
  cases h
  rw [isFull, decide_eq_true_eq] at hfull
  refine ⟨not_le.mp hfull, ?_⟩
  simp only [usedCount, kAllocLogCapacity, UInt32.toNat_sub, UInt32.toNat_add,
    UInt32.toNat_one] at hfull ⊢
  omega

/-- Only a full log takes no entry. -/
theorem le_usedCount_of_writeEntry (h : log.writeEntry a = none) :
    kAllocLogCapacity ≤ log.usedCount := by
  rw [writeEntry] at h
  split_ifs at h with hfull
  rwa [isFull, decide_eq_true_eq] at hfull

@[simp] theorem usedCount_reclaim (log : AllocLogManager) : log.reclaim.usedCount = 0 := by
  rw [usedCount, reclaim, UInt32.sub_self]
  rfl

end Room

end AllocLogManager

/-! ### Slots -/

theorem allocLogSlot_add_val (head : UInt32) (j : ℕ) :
    (allocLogSlot (head + UInt32.ofNat j)).val = (head.toNat + j) % kAllocLogCapacity := by
  simp only [allocLogSlot, UInt32.toNat_add, UInt32.toNat_ofNat', kAllocLogCapacity]
  omega

/-- 64 consecutive indices name 64 different slots. -/
theorem slot_add_inj {head : UInt32} {j k : ℕ} (hj : j < kAllocLogCapacity)
    (hk : k < kAllocLogCapacity)
    (h : allocLogSlot (head + UInt32.ofNat j) = allocLogSlot (head + UInt32.ofNat k)) :
    j = k := by
  have := congrArg Fin.val h
  rw [allocLogSlot_add_val, allocLogSlot_add_val] at this
  rw [kAllocLogCapacity] at *
  omega

/-! ### Scanning a page -/

/-- The page carries the first `k` entries of `log` from `head` on, and elsewhere only
entries that are invalid or not newer than `seq`. -/
structure Carries (head seq : UInt32) (log : List AllocLogEntry) (k : ℕ)
    (page : AllocLogPage) : Prop where
  /-- The entries of the log. -/
  held : ∀ j < k, log[j]? = some (page (allocLogSlot (head + UInt32.ofNat j)))
  /-- The other slots. -/
  old : ∀ i, (∀ j < k, i ≠ allocLogSlot (head + UInt32.ofNat j)) → (page i).Valid →
    (page i).sequence ≤ seq

/-- The entries are valid and their sequences follow `seq` without a gap. -/
def Consecutive (seq : UInt32) (log : List AllocLogEntry) : Prop :=
  ∀ j e, log[j]? = some e → e.Valid ∧ e.sequence.toNat = seq.toNat + j + 1

/-- **What a scan returns** from a page that carries the first `k` entries of a log. -/
theorem scanEntries_eq_take {head seq : UInt32} {log : List AllocLogEntry} {k : ℕ}
    {page : AllocLogPage} (hp : Carries head seq log k page) (hlog : Consecutive seq log)
    (hk : k ≤ kAllocLogCapacity) :
    AllocLogManager.scanEntries page head kAllocLogCapacity 0 seq = log.take k := by
  have hgen : ∀ remaining i lastSeq, i + remaining = kAllocLogCapacity → i ≤ k →
      lastSeq.toNat = seq.toNat + i →
      AllocLogManager.scanEntries page head remaining i lastSeq = (log.take k).drop i := by
    intro remaining
    induction remaining with
    | zero =>
        intro i lastSeq hi hik _
        rw [AllocLogManager.scanEntries, List.drop_of_length_le]
        rw [List.length_take]
        omega
    | succ remaining ih =>
        intro i lastSeq hi hik hlast
        rw [AllocLogManager.scanEntries]
        rcases Nat.lt_or_eq_of_le hik with hlt | rfl
        · have hheld := hp.held i hlt
          obtain ⟨⟨hmagic, hcrc⟩, hseq⟩ := hlog _ _ hheld
          have hnew : ¬ (page (allocLogSlot (head + UInt32.ofNat i))).sequence ≤ lastSeq := by
            rw [UInt32.le_iff_toNat_le]
            omega
          rw [if_neg (not_not.mpr hmagic), if_neg (not_not.mpr hcrc), if_neg hnew,
            ih (i + 1) _ (by omega) hlt hseq]
          have hget : (log.take k)[i]? =
              some (page (allocLogSlot (head + UInt32.ofNat i))) := by
            rw [List.getElem?_take_of_lt hlt, hheld]
          obtain ⟨hlen, hget⟩ := List.getElem?_eq_some_iff.mp hget
          rw [List.drop_eq_getElem_cons hlen, hget]
        · -- the slot behind the carried entries holds nothing newer
          have hold := hp.old (allocLogSlot (head + UInt32.ofNat i)) fun j hj heq =>
            absurd (slot_add_inj (by omega) (by omega) heq) hj.ne'
          have hnil : (log.take i).drop i = [] :=
            List.drop_of_length_le (by rw [List.length_take]; omega)
          rw [hnil]
          split_ifs with h1 h2 h3
          · rfl
          · rfl
          · rfl
          · have := UInt32.le_iff_toNat_le.mp (hold ⟨not_not.mp h1, not_not.mp h2⟩)
            rw [UInt32.le_iff_toNat_le] at h3
            omega
  have := hgen kAllocLogCapacity 0 seq (Nat.zero_add _) (Nat.zero_le k) rfl
  rwa [List.drop_zero] at this

end SpdkKv
