import SpdkKv.Lib.ByteStore
import SpdkKv.Migration
import SpdkKv.RecordParse
import SpdkKv.ValidBitmap

/-!
# A Compaction Task

`CompactionTask` of `compaction.cpp`: a machine that copies the live records of a file to a new
one, chunk by chunk. `step` runs the handler of its state, unless an operation on a blob is
under way; the completion of such an operation moves it on as well. The index and the bitmap of
the source belong to the engine and may change at any time in between.

## Main results

* `validateEntry_iff`: the check of an entry and the parser of the recovery agree.
* `CompactionTask.chunkLoop_run`: what the handler of a chunk does with its records.
-/

namespace SpdkKv

/-! ### Checking an entry -/

/-- `validate_entry` at an offset of a buffer, of which `maxSize` bytes may be read. -/
def validateEntry (buf : List UInt8) (offset maxSize : ℕ) : Bool :=
  if maxSize < sizeofEntryHeader then false
  else if (readHeader buf offset).magic ≠ kEntryMagic then false
  else
    let size := entrySize (readValueLen buf offset).toNat
    if size > maxSize then false
    else readU32 buf (offset + size - 4) == Crc32.calculate (slice buf offset (size - 4))

/-- The record that the header at an offset announces. -/
def recordAt (buf : List UInt8) (offset : ℕ) : ParsedRecord where
  offset := offset
  size := entrySize (readValueLen buf offset).toNat
  key := readKey buf offset
  sequence := (readHeader buf offset).sequence
  deleted := (readHeader buf offset).isDeleted

/-- **The check and the parser agree**: with a whole header to read, an entry is valid when the
parser takes it for a record. -/
theorem validateEntry_iff {buf : List UInt8} {offset : ℕ}
    (h : offset + recordHeaderSize ≤ buf.length) :
    validateEntry buf offset (buf.length - offset) = true ↔
      parseAt buf offset = .record (recordAt buf offset) := by
  have hheader : ¬ buf.length - offset < sizeofEntryHeader := by
    rw [recordHeaderSize] at h
    omega
  have hsize : entrySize (readValueLen buf offset).toNat > buf.length - offset ↔
      offset + entrySize (readValueLen buf offset).toNat > buf.length := by omega
  rw [validateEntry, if_neg hheader]
  dsimp only [parseAt]
  rw [if_pos h]
  simp only [hsize]
  split_ifs with hmagic hnext hout hcrc
  · simp
  · simp
  · simp
  · simp [hcrc]
  · simpa [recordAt] using hcrc

/-- A valid entry fits, and its size is that of whole pages. -/
theorem size_le_of_validateEntry {buf : List UInt8} {offset maxSize : ℕ}
    (h : validateEntry buf offset maxSize = true) : (recordAt buf offset).size ≤ maxSize := by
  dsimp only [validateEntry] at h
  split_ifs at h with h1 h2 h3
  exact not_lt.mp h3

/-- A valid entry is valid wherever it fits. -/
theorem validateEntry_of_size_le {buf : List UInt8} {offset maxSize room : ℕ}
    (h : validateEntry buf offset maxSize = true) (hroom : (recordAt buf offset).size ≤ room) :
    validateEntry buf offset room = true := by
  have hfits : entrySize (readValueLen buf offset).toNat ≤ room := hroom
  have hheader : ¬ room < sizeofEntryHeader := by
    have hle := recordHeaderSize_le_entrySize (readValueLen buf offset).toNat
    rw [recordHeaderSize] at hle
    omega
  dsimp only [validateEntry] at h ⊢
  split_ifs at h with h1 h2 h3
  rw [if_neg hheader, if_neg h2, if_neg (not_lt.mpr hfits)]
  exact h

/-! ### The state of a task -/

/-- `CompactionTask::State`. -/
inductive CompactionState
  | kInit
  | kMarkCompacting
  | kWaitMarkComplete
  | kReadChunk
  | kWaitReadComplete
  | kProcessEntries
  | kWriteChunk
  | kWaitWriteComplete
  | kUpdateIndices
  | kFinalize
  | kMarkDeleted
  | kWaitDeleteComplete
  | kRetryWait
  | kRollback
  | kRollbackMarkSealed
  | kWaitRollbackComplete
  | kFailed
  | kDone
  deriving DecidableEq, Repr

/-- An operation on a blob that a task waits for; `io_pending_` says that there is one. -/
inductive CompactionIo
  | markCompacting
  | readChunk (readSize : ℕ)
  | writeChunk
  | markDeleted
  | removeFile
  | markSealed
  deriving DecidableEq, Repr

/-- `kMaxRetryCount`. -/
def kMaxRetryCount : ℕ := 3

/-- `kRetryDelayUs`. -/
def kRetryDelayUs : UInt64 := 1000

/-- `kChunkSize`, the size of the buffers. -/
def kChunkSize : ℕ := 1024 * 1024

/-- `-ENOENT`, `-EAGAIN`, `-ENOMEM`, `-EBUSY` and `-ENOSPC`. -/
def ENOENT : ℤ := -2
def EAGAIN : ℤ := -11
def ENOMEM : ℤ := -12
def EBUSY : ℤ := -16
def ENOSPC : ℤ := -28

/-- What a task finds: whether it gets its buffers, whether the engine knows the source, the
file that `allocate_new_file` creates, and the contents and the end of the source. -/
structure CompactionFiles where
  dmaBuffers : Bool
  sourceKnown : Bool
  newFile : Option UInt16
  image : ByteMemory
  writeOffset : ℕ

/-- A task. A buffer is the list of the bytes that are in use. -/
structure CompactionTask where
  srcFileId : UInt16
  destFileId : UInt16
  /-- The state that the task has given the metadata of the source. -/
  srcState : Option FileState
  /-- The state and the end of the destination, if there is one. -/
  dest : Option (FileState × ℕ)
  state : CompactionState
  lastError : ℤ
  retryCount : ℕ
  retryStartTimeNs : UInt64
  currentOffset : ℕ
  destOffset : ℕ
  entriesProcessed : ℕ
  entriesMigrated : ℕ
  migratedEntries : List MigratedEntry
  committedUpdates : List MigratedEntry
  readBuffer : List UInt8
  writeBuffer : List UInt8
  ioPending : Option CompactionIo
  retryTargetState : CompactionState

namespace CompactionTask

/-- The constructor. -/
def create (srcFileId : UInt16) : CompactionTask where
  srcFileId := srcFileId
  destFileId := 0
  srcState := none
  dest := none
  state := .kInit
  lastError := 0
  retryCount := 0
  retryStartTimeNs := 0
  currentOffset := sizeofDataFileHeader
  destOffset := 0
  entriesProcessed := 0
  entriesMigrated := 0
  migratedEntries := []
  committedUpdates := []
  readBuffer := []
  writeBuffer := []
  ioPending := none
  retryTargetState := .kInit

/-- `bytes_read_`. -/
def bytesRead (self : CompactionTask) : ℕ := self.readBuffer.length

/-- `write_buffer_used_`. -/
def writeBufferUsed (self : CompactionTask) : ℕ := self.writeBuffer.length

/-- `is_complete`. -/
def isComplete (self : CompactionTask) : Bool := self.state = .kDone || self.state = .kFailed

/-! ### Opening and reading -/

/-- `init`. -/
def init (self : CompactionTask) (files : CompactionFiles) : CompactionTask :=
  if !files.dmaBuffers then { self with lastError := ENOMEM, state := .kFailed }
  else if !files.sourceKnown then { self with lastError := ENOENT, state := .kFailed }
  else
    match files.newFile with
    | none => { self with lastError := ENOSPC, state := .kFailed }
    | some fileId =>
        { self with
          destFileId := fileId
          dest := some (.kActive, sizeofDataFileHeader)
          destOffset := sizeofDataFileHeader
          migratedEntries := []
          state := .kMarkCompacting }

/-- `mark_compacting`. -/
def markCompacting (self : CompactionTask) : CompactionTask :=
  { self with srcState := some .kCompacting, ioPending := some .markCompacting }

/-- `read_next_chunk`. -/
def readNextChunk (self : CompactionTask) (files : CompactionFiles) (srcMeta : PageTracking) :
    CompactionTask :=
  let srcEnd := files.writeOffset
  let currentOffset := srcMeta.skipInvalidPages self.currentOffset srcEnd
  if srcEnd ≤ currentOffset then
    -- All data processed
    { self with
      currentOffset := currentOffset
      state := if 0 < self.writeBufferUsed then .kWriteChunk else .kFinalize }
  else
    { self with
      currentOffset := currentOffset
      ioPending := some (.readChunk (alignUp (min kChunkSize (srcEnd - currentOffset)) kPageSize)) }

/-! ### The records of a chunk -/

/-- The index points to the record in the source file. -/
def shouldMigrate {n : ℕ} (self : CompactionTask) (m : MemIndex n) (r : ParsedRecord) : Bool :=
  match m.findEntry r.key with
  | none => false
  | some current =>
      !current.deleted && current.liesAt self.srcFileId
        (UInt32.ofNat ((self.currentOffset + r.offset) / kPageSize))

/-- What the turn of `process_entries` does with a valid record; the write buffer may be too
full for it. -/
def processRecord {n : ℕ} (m : MemIndex n) (self : CompactionTask) (r : ParsedRecord) :
    Except CompactionTask CompactionTask :=
  let self := { self with entriesProcessed := self.entriesProcessed + 1 }
  if self.shouldMigrate m r && !r.deleted then
    if self.writeBufferUsed + r.size > kChunkSize then
      -- flush it first, then re-read this chunk
      .error { self with state := .kWriteChunk }
    else
      let migrated : MigratedEntry :=
        { key := r.key
          oldFileId := self.srcFileId
          oldOffsetIndex := UInt32.ofNat ((self.currentOffset + r.offset) / kPageSize)
          newFileId := self.destFileId
          newOffsetIndex := UInt32.ofNat ((self.destOffset + self.writeBufferUsed) / kPageSize)
          pageCount := UInt16.ofNat (r.size / kPageSize)
          sequence := r.sequence }
      .ok { self with
        writeBuffer := self.writeBuffer ++ slice self.readBuffer r.offset r.size
        migratedEntries := self.migratedEntries ++ [migrated]
        entriesMigrated := self.entriesMigrated + 1 }
  else .ok self

/-- A record does not change what was read. -/
theorem readBuffer_processRecord {n : ℕ} {m : MemIndex n} {self self' : CompactionTask}
    {r : ParsedRecord} (h : self.processRecord m r = .ok self') :
    self'.readBuffer = self.readBuffer := by
  dsimp only [processRecord] at h
  split_ifs at h
  · obtain rfl := Except.ok.inj h
    rfl
  · obtain rfl := Except.ok.inj h
    rfl

/-- One turn of the loop of `process_entries`; the loop is left at the end of the chunk or with
a full write buffer. -/
def chunkBody {n : ℕ} (m : MemIndex n) (offset : ℕ) (self : CompactionTask) :
    (ℕ × CompactionTask) ⊕ Except CompactionTask CompactionTask :=
  if self.bytesRead ≤ offset then Sum.inr (.ok self)
  else if validateEntry self.readBuffer offset (self.bytesRead - offset) = false then
    -- Skip to next page
    Sum.inl (alignUp (offset + 1) kPageSize, self)
  else
    let r := recordAt self.readBuffer offset
    match self.processRecord m r with
    | .error self => Sum.inr (.error self)
    | .ok self => Sum.inl (offset + r.size, self)

/-- The loop of `process_entries`. -/
def chunkLoop {n : ℕ} (m : MemIndex n) :
    Loop (ℕ × CompactionTask) (Except CompactionTask CompactionTask) where
  body := fun s => chunkBody m s.1 s.2
  variant := fun s => s.2.bytesRead - s.1
  variant_lt := by
    rintro ⟨offset, self⟩ ⟨offset', self'⟩ h
    dsimp only [chunkBody] at h
    split_ifs at h with hend hvalid
    · obtain ⟨rfl, rfl⟩ := Prod.mk.inj (Sum.inl.inj h)
      have := le_alignUp (offset + 1)
      dsimp only
      omega
    · split at h
      · cases h
      · next hr =>
          obtain ⟨rfl, rfl⟩ := Prod.mk.inj (Sum.inl.inj h)
          have hpos : 0 < (recordAt self.readBuffer offset).size := entrySize_pos _
          have hlen := congrArg List.length (readBuffer_processRecord hr)
          dsimp only [bytesRead] at hend hlen ⊢
          omega

/-- `process_entries`. -/
def processEntries {n : ℕ} (self : CompactionTask) (m : MemIndex n) : CompactionTask :=
  match (chunkLoop m).run (0, self) with
  | .error self => self
  | .ok self =>
      { self with currentOffset := self.currentOffset + self.bytesRead, state := .kReadChunk }

/-- The valid records of a chunk from an offset on. -/
def chunkRecords (buf : List UInt8) (offset : ℕ) : List ParsedRecord :=
  if hend : buf.length ≤ offset then []
  else if validateEntry buf offset (buf.length - offset) then
    have _ : 0 < (recordAt buf offset).size := entrySize_pos _
    recordAt buf offset :: chunkRecords buf (offset + (recordAt buf offset).size)
  else
    have _ : offset + 1 ≤ alignUp (offset + 1) kPageSize := le_alignUp (offset + 1)
    chunkRecords buf (alignUp (offset + 1) kPageSize)
termination_by buf.length - offset

theorem ok_bind {ε α β : Type} (a : α) (f : α → Except ε β) :
    ((Except.ok a : Except ε α) >>= f) = f a := rfl

theorem error_bind {ε α β : Type} (e : ε) (f : α → Except ε β) :
    ((Except.error e : Except ε α) >>= f) = .error e := rfl

section ChunkLoop

variable {n : ℕ} (m : MemIndex n) {offset : ℕ} {self : CompactionTask}

theorem chunkLoop_of_end (h : self.bytesRead ≤ offset) :
    (chunkLoop m).run (offset, self) = .ok self := by
  have hbody : chunkBody m offset self = Sum.inr (.ok self) := by
    rw [chunkBody, if_pos h]
  exact (chunkLoop m).run_of_done hbody

theorem chunkLoop_of_invalid (h : ¬ self.bytesRead ≤ offset)
    (hvalid : validateEntry self.readBuffer offset (self.bytesRead - offset) = false) :
    (chunkLoop m).run (offset, self) =
      (chunkLoop m).run (alignUp (offset + 1) kPageSize, self) := by
  have hbody : chunkBody m offset self =
      Sum.inl (alignUp (offset + 1) kPageSize, self) := by
    rw [chunkBody, if_neg h, if_pos hvalid]
  exact (chunkLoop m).run_of_again hbody

theorem chunkLoop_of_full {self' : CompactionTask} (h : ¬ self.bytesRead ≤ offset)
    (hvalid : validateEntry self.readBuffer offset (self.bytesRead - offset) = true)
    (hr : self.processRecord m (recordAt self.readBuffer offset) = .error self') :
    (chunkLoop m).run (offset, self) = .error self' := by
  have hbody : chunkBody m offset self = Sum.inr (.error self') := by
    rw [chunkBody, if_neg h, if_neg (by rw [hvalid]; exact Bool.noConfusion)]
    simp only [hr]
  exact (chunkLoop m).run_of_done hbody

theorem chunkLoop_of_record {self' : CompactionTask} (h : ¬ self.bytesRead ≤ offset)
    (hvalid : validateEntry self.readBuffer offset (self.bytesRead - offset) = true)
    (hr : self.processRecord m (recordAt self.readBuffer offset) = .ok self') :
    (chunkLoop m).run (offset, self) =
      (chunkLoop m).run (offset + (recordAt self.readBuffer offset).size, self') := by
  have hbody : chunkBody m offset self =
      Sum.inl (offset + (recordAt self.readBuffer offset).size, self') := by
    rw [chunkBody, if_neg h, if_neg (by rw [hvalid]; exact Bool.noConfusion)]
    simp only [hr]
  exact (chunkLoop m).run_of_again hbody

/-- **What the handler of a chunk does**: it processes the valid records in turn, until the
write buffer is too full for one. -/
theorem chunkLoop_run (offset : ℕ) (self : CompactionTask) :
    (chunkLoop m).run (offset, self) =
      (chunkRecords self.readBuffer offset).foldlM (processRecord m) self := by
  generalize hbuf : self.readBuffer = buf
  induction offset using chunkRecords.induct buf generalizing self with
  | case1 offset hend =>
      rw [chunkRecords, dif_pos hend, List.foldlM_nil]
      exact chunkLoop_of_end m (by rwa [bytesRead, hbuf])
  | case2 offset hend hvalid _ ih =>
      have hend' : ¬ self.bytesRead ≤ offset := by rwa [bytesRead, hbuf]
      have hvalid' : validateEntry self.readBuffer offset (self.bytesRead - offset) = true := by
        rwa [bytesRead, hbuf]
      rw [chunkRecords, dif_neg hend, if_pos hvalid, List.foldlM_cons]
      cases hr : self.processRecord m (recordAt buf offset) with
      | error self' => rw [chunkLoop_of_full m hend' hvalid' (by rw [hbuf, hr]), error_bind]
      | ok self' =>
          rw [chunkLoop_of_record m hend' hvalid' (by rw [hbuf, hr]), hbuf,
            ih self' ((readBuffer_processRecord hr).trans hbuf), ok_bind]
  | case3 offset hend hvalid _ ih =>
      rw [chunkRecords, dif_neg hend, if_neg hvalid, ← ih self hbuf]
      refine chunkLoop_of_invalid m (by rwa [bytesRead, hbuf]) ?_
      rw [bytesRead, hbuf]
      exact Bool.eq_false_iff.mpr hvalid

end ChunkLoop

/-! ### Writing, switching and finishing -/

/-- `write_chunk`. -/
def writeChunk (self : CompactionTask) : CompactionTask :=
  if self.writeBufferUsed = 0 then { self with state := .kReadChunk }
  else { self with ioPending := some .writeChunk }

/-- `update_indices`. -/
def updateIndices {n : ℕ} (self : CompactionTask) (m : MemIndex n) :
    CompactionTask × MemIndex n :=
  ({ self with
      committedUpdates := self.committedUpdates ++ self.migratedEntries
      migratedEntries := []
      destOffset := self.destOffset + self.writeBufferUsed
      dest := self.dest.map fun d => (d.1, self.destOffset + self.writeBufferUsed)
      writeBuffer := []
      state := .kReadChunk },
    m.updateIndices self.migratedEntries)

/-- `finalize`. -/
def finalize (self : CompactionTask) : CompactionTask :=
  { self with state := if 0 < self.writeBufferUsed then .kWriteChunk else .kMarkDeleted }

/-- `mark_deleted`. -/
def markDeleted (self : CompactionTask) : CompactionTask :=
  { self with srcState := some .kDeleted, ioPending := some .markDeleted }

/-! ### Errors -/

/-- `check_retry_timeout`. -/
def checkRetryTimeout (self : CompactionTask) (nowNs : UInt64) : CompactionTask :=
  if nowNs - self.retryStartTimeNs ≥ kRetryDelayUs * 1000 then
    { self with state := self.retryTargetState }
  else self

/-- `is_retryable_error`. -/
def isRetryableError (errorCode : ℤ) : Bool :=
  errorCode = EAGAIN || errorCode = EBUSY || errorCode = ENOMEM

/-- `handle_io_error`. -/
def handleIoError (self : CompactionTask) (retryState : CompactionState) (errorCode : ℤ)
    (nowNs : UInt64) : CompactionTask :=
  let self := { self with retryCount := self.retryCount + 1, lastError := errorCode }
  if isRetryableError errorCode && self.retryCount < kMaxRetryCount then
    { self with
      retryTargetState := retryState
      retryStartTimeNs := nowNs
      state := .kRetryWait }
  else { self with state := .kRollback }

/-- `start_rollback`, with `delete_garbage_file`. -/
def startRollback {n : ℕ} (self : CompactionTask) (m : MemIndex n) :
    CompactionTask × MemIndex n :=
  let reverted := (self.committedUpdates ++ self.migratedEntries).foldl MemIndex.revertIndexUpdate m
  let self := { self with committedUpdates := [], migratedEntries := [] }
  if self.dest.isSome && sizeofDataFileHeader < self.destOffset then
    ({ self with
        dest := self.dest.map fun d => (.kDeleted, d.2)
        ioPending := some .removeFile }, reverted)
  else ({ self with state := .kRollbackMarkSealed }, reverted)

/-- `rollback_mark_sealed`. -/
def rollbackMarkSealed (self : CompactionTask) : CompactionTask :=
  { self with srcState := some .kSealed, ioPending := some .markSealed }

/-! ### Steps and completions -/

/-- `step`, with the clock as `check_retry_timeout` reads it. -/
def step {n : ℕ} (self : CompactionTask) (files : CompactionFiles) (srcMeta : PageTracking)
    (m : MemIndex n) (nowNs : UInt64) : CompactionTask × MemIndex n :=
  if self.ioPending.isSome then (self, m)
  else
    match self.state with
    | .kInit => (self.init files, m)
    | .kMarkCompacting => (self.markCompacting, m)
    | .kWaitMarkComplete => (self, m)
    | .kReadChunk => (self.readNextChunk files srcMeta, m)
    | .kWaitReadComplete => (self, m)
    | .kProcessEntries => (self.processEntries m, m)
    | .kWriteChunk => (self.writeChunk, m)
    | .kWaitWriteComplete => (self, m)
    | .kUpdateIndices => self.updateIndices m
    | .kFinalize => (self.finalize, m)
    | .kMarkDeleted => (self.markDeleted, m)
    | .kWaitDeleteComplete => (self, m)
    | .kRetryWait => (self.checkRetryTimeout nowNs, m)
    | .kRollback => self.startRollback m
    | .kRollbackMarkSealed => (self.rollbackMarkSealed, m)
    | .kWaitRollbackComplete => (self, m)
    | .kFailed => (self, m)
    | .kDone => (self, m)

/-- The callbacks of the operations: what the task is when the one it waits for completes with
a status. -/
def complete (self : CompactionTask) (files : CompactionFiles) (status : ℤ) (nowNs : UInt64) :
    Option CompactionTask :=
  self.ioPending.map fun io =>
    let self := { self with ioPending := none }
    match io with
    | .markCompacting =>
        if status = 0 then { self with state := .kReadChunk }
        else self.handleIoError .kMarkCompacting status nowNs
    | .readChunk readSize =>
        if status = 0 then
          { self with
            readBuffer := files.image.read self.currentOffset readSize
            state := .kProcessEntries }
        else self.handleIoError .kReadChunk status nowNs
    | .writeChunk =>
        if status = 0 then { self with retryCount := 0, state := .kUpdateIndices }
        else self.handleIoError .kWriteChunk status nowNs
    | .markDeleted =>
        if status = 0 then
          { self with committedUpdates := [], migratedEntries := [], state := .kDone }
        else self.handleIoError .kMarkDeleted status nowNs
    | .removeFile => { self with state := .kRollbackMarkSealed }
    | .markSealed =>
        { self with
          migratedEntries := []
          committedUpdates := []
          writeBuffer := []
          state := .kFailed }

end CompactionTask

/-- A task with the parts of the engine that it works on. -/
structure CompactionWorld (n : ℕ) where
  task : CompactionTask
  memIndex : MemIndex n
  srcMeta : PageTracking

/-- What can happen to a task. -/
inductive CompactionTaskEvent (n : ℕ)
  /-- A call of `step`. -/
  | step (nowNs : UInt64)
  /-- The operation that the task waits for completes. -/
  | complete (status : ℤ) (nowNs : UInt64)
  /-- Others change the index and the pages of the source. -/
  | others (memIndex : MemIndex n) (srcMeta : PageTracking)

/-- A task as a machine. -/
def compactionTaskMachine (n : ℕ) (files : CompactionFiles) :
    Machine (CompactionWorld n) (CompactionTaskEvent n) where
  step := fun s event =>
    match event with
    | .step nowNs =>
        let r := s.task.step files s.srcMeta s.memIndex nowNs
        some { s with task := r.1, memIndex := r.2 }
    | .complete status nowNs =>
        (s.task.complete files status nowNs).map fun task => { s with task := task }
    | .others memIndex srcMeta => some { s with memIndex := memIndex, srcMeta := srcMeta }

end SpdkKv
