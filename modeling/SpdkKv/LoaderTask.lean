import SpdkKv.IndexLoad
import SpdkKv.Recovery
import SpdkKv.Superblock

/-!
# The Index Loader as It Runs

`IndexLoader` is driven by completions: every read of `recovery.cpp` is submitted by one method
and gone on with in a callback, so that the recovery is spread over the superblock copies, the
chunks of the two index areas, the 80 segments of a direct load, which complete in any order,
and the chunks of the data files. `LoaderTask` holds the members of the loader together with the
reads that it waits for; `LoaderTask.complete` is the callback of one of them.

What the blobs hold, which reads fail and for which there is no DMA buffer is the
`RecoverySource`. No read is submitted twice, so this leaves every outcome open.
-/

namespace SpdkKv

/-- `IndexLoader::State`. -/
inductive LoaderState
  | kInit
  | kLoadingSuperblockPrimary
  | kLoadingSuperblockBackup
  | kLoadingMemIndexA
  | kLoadingMemIndexB
  | kComparingVersions
  | kDeserializing
  | kScanningDataFiles
  | kRebuildingIncremental
  | kFinalizingRecovery
  | kDone
  | kError
  deriving DecidableEq, Repr

/-- A read that the loader submits. -/
inductive LoaderRead
  | superblock (copy : SuperblockCopy)
  | chunk (area : IndexArea) (offset : ℕ)
  | segment (seg : ℕ)
  | scan (idx offset : ℕ)
  deriving DecidableEq, Repr

/-- Offset of the backup copy in the superblock blob. -/
def kSuperblockBackupOffset : ℕ := 4 * 1024 * 1024

/-- Where a copy of the superblock begins. -/
def SuperblockCopy.offset : SuperblockCopy → ℕ
  | .primary => 0
  | .backup => kSuperblockBackupOffset

/-- What the loader is given, and what becomes of its reads. -/
structure RecoverySource where
  /-- There is a blobstore and an IO channel. -/
  hasSpdkResources : Bool
  superblockBlob : Option ByteMemory
  memIndexBlob : IndexArea → Option ByteMemory
  ioUnit : ℕ
  dataBlobs : List DataBlobInfo
  images : BlobImages
  /-- `DmaAllocator` has no buffer for the read. -/
  noBuffer : LoaderRead → Bool
  /-- The read completes with an error. -/
  readFails : LoaderRead → Bool

/-! ### Fields of the superblock -/

/-- The size of an index area. -/
def superblockMemIndexSize (superblock : List UInt8) : UInt64 := readU64 superblock 72

/-- The version of the last checkpoint. -/
def superblockCheckpointSequence (superblock : List UInt8) : UInt64 := readU64 superblock 41048

/-- The position of the last checkpoint and its sequence. -/
def superblockCheckpoint (superblock : List UInt8) : CheckpointPosition where
  checkpointFileId := fieldAt superblock 41060 2
  checkpointPageIndex := fieldAt superblock 41064 8
  checkpointGlobalSeq := readU32 superblock 41056

/-- `validate_superblock`. -/
def validateSuperblock (superblock : List UInt8) : Bool := (readSuperblock superblock).isSome

namespace RecoverySource

variable (source : RecoverySource)

/-- What the read of a copy of the superblock finds. -/
def superblockAt (blob : ByteMemory) (copy : SuperblockCopy) : List UInt8 :=
  blob.read copy.offset (alignUp sizeofSuperblock kPageSize)

/-- The index areas with the reads of them that fail. -/
def areas (superblock : List UInt8) : IndexAreas where
  blob := fun area => (source.memIndexBlob area).map fun bytes => ⟨bytes, fun i =>
    source.noBuffer (.chunk area (i * kMemIndexChunkSize)) ||
      source.readFails (.chunk area (i * kMemIndexChunkSize))⟩
  memIndexSize := superblockMemIndexSize superblock
  ioUnit := source.ioUnit
  segmentFails := fun seg => source.readFails (.segment seg)

end RecoverySource

/-- The members of `IndexLoader`, the reads under way, and what it has called back. -/
structure LoaderTask (n : ℕ) where
  state : LoaderState
  lastError : KvError
  /-- `superblock_`, as bytes. -/
  superblock : List UInt8
  /-- `mem_index_buffer_` and `mem_index_versions_`. -/
  areas : AreaLoader
  selectedArea : Option IndexArea
  memIndexReadOffset : ℕ
  memIndexTotalSize : ℕ
  currentLoadArea : IndexArea
  pendingSegmentLoads : ℕ
  hasLoadError : Bool
  /-- The memory of the table, while segments are read into it. -/
  tableMemory : ByteMemory
  /-- `scan_ranges_`, from the current one on. -/
  scanRanges : List ScanRange
  currentScanIdx : ℕ
  currentScanOffset : ℕ
  /-- The index and `recovered_max_sequence_`. -/
  loader : IndexLoader n
  reads : List LoaderRead
  /-- The calls of `callback_`. -/
  callbacks : List KvError
  /-- How many calls of `start_recovery` were refused with `kInvalidState`. -/
  rejected : ℕ

namespace LoaderTask

variable {n : ℕ}

/-- A loader for an index, after `set_superblock`. -/
def constructed (superblock : List UInt8) (memIndex : MemIndex n) : LoaderTask n where
  state := .kInit
  lastError := .kSuccess
  superblock := superblock
  areas := IndexAreas.unloaded
  selectedArea := none
  memIndexReadOffset := 0
  memIndexTotalSize := 0
  currentLoadArea := .a
  pendingSegmentLoads := 0
  hasLoadError := false
  tableMemory := ByteMemory.zero
  scanRanges := []
  currentScanIdx := 0
  currentScanOffset := 0
  loader := ⟨memIndex, 0⟩
  reads := []
  callbacks := []
  rejected := 0

/-- `is_complete`. -/
def isComplete (self : LoaderTask n) : Bool := self.state == .kDone || self.state == .kError

/-! ### The data files -/

/-- `finalize_recovery`. -/
def finalizeRecovery (self : LoaderTask n) : LoaderTask n :=
  { self with
    loader := self.loader.finalizeRecovery (superblockCheckpoint self.superblock)
    state := .kDone
    callbacks := self.callbacks ++ [.kSuccess] }

/-- `scan_blob_chunk` for the range with the index `idx`; `next` is what `scan_next_file_blob`
does when the range is left. -/
def scanBlobChunk (source : RecoverySource) (self : LoaderTask n) (idx : ℕ) (range : ScanRange)
    (rest : List ScanRange) (offset : ℕ) (next : LoaderTask n) : LoaderTask n :=
  if range.endPage * kPageSize ≤ offset then next
  else
    match blobOf source.dataBlobs range.fileId with
    | none => next
    | some _ =>
        if source.noBuffer (.scan idx offset) then next
        else { self with
          scanRanges := range :: rest
          currentScanIdx := idx
          currentScanOffset := offset
          reads := [.scan idx offset] }

/-- `scan_next_file_blob` for the ranges from the index `idx` on. -/
def scanNextFileBlob (source : RecoverySource) (self : LoaderTask n) :
    (idx : ℕ) → List ScanRange → LoaderTask n
  | _, [] => { self with state := .kFinalizingRecovery }.finalizeRecovery
  | idx, range :: rest => self.scanBlobChunk source idx range rest (range.startPage * kPageSize)
      (self.scanNextFileBlob source (idx + 1) rest)

/-- `start_incremental_rebuild`. -/
def startIncrementalRebuild (source : RecoverySource) (self : LoaderTask n) : LoaderTask n :=
  let sb := superblockCheckpoint self.superblock
  let self := { self with
    loader := { self.loader with recoveredMaxSequence := sb.checkpointGlobalSeq } }
  let physicalEnd := if source.hasSpdkResources then source.images.physicalEnd else fun _ => 0
  let ranges := sb.buildScanRangesFromBlobs physicalEnd source.dataBlobs
  if ranges.isEmpty then { self with state := .kFinalizingRecovery }.finalizeRecovery
  else if source.hasSpdkResources && !source.dataBlobs.isEmpty then
    self.scanNextFileBlob source 0 ranges
  else { self with state := .kFinalizingRecovery }.finalizeRecovery

/-! ### The index areas -/

/-- `load_as_memory_dump_from_blob`: all segments are read at once. -/
def loadAsMemoryDumpFromBlob (source : RecoverySource) (area : IndexArea) (self : LoaderTask n) :
    LoaderTask n :=
  match source.memIndexBlob area with
  | none =>
      let loaded := self.areas.buffer.loadByUpsert self.loader.memIndex
      { self with
        loader := { self.loader with memIndex := loaded }
        state := .kRebuildingIncremental }.startIncrementalRebuild source
  | some _ =>
      { self with
        pendingSegmentLoads := kMemIndexSegmentCount
        hasLoadError := false
        currentLoadArea := area
        tableMemory := self.loader.memIndex.entryMemory
        reads := (List.range kMemIndexSegmentCount).map .segment }

/-- `deserialize_mem_index`; without a blobstore the index is taken as it is. -/
def deserializeMemIndex (source : RecoverySource) (area : IndexArea) (self : LoaderTask n) :
    LoaderTask n :=
  if source.hasSpdkResources then
    if self.areas.buffer.canUseMemoryDumpLoad n then self.loadAsMemoryDumpFromBlob source area
    else
      let loaded := self.areas.buffer.loadByUpsert self.loader.memIndex
      { self with
        loader := { self.loader with memIndex := loaded }
        state := .kRebuildingIncremental }.startIncrementalRebuild source
  else { self with state := .kRebuildingIncremental }.startIncrementalRebuild source

/-- `compare_and_select_area`. -/
def compareAndSelectArea (source : RecoverySource) (self : LoaderTask n) : LoaderTask n :=
  let area := if self.areas.versions .b ≤ self.areas.versions .a then IndexArea.a else .b
  let self := { self with selectedArea := some area }
  if self.areas.versions area = 0 then
    { self with state := .kScanningDataFiles }.startIncrementalRebuild source
  else { self with state := .kDeserializing }.deserializeMemIndex source area

/-- The version of an area is noted. -/
def setVersion (self : LoaderTask n) (area : IndexArea) (version : ℕ) : LoaderTask n :=
  { self with areas := ⟨self.areas.buffer, Function.update self.areas.versions area version⟩ }

/-- `read_next_mem_index_chunk`; `next` is what follows `on_mem_index_area_load_complete`. -/
def readNextMemIndexChunk (source : RecoverySource) (area : IndexArea)
    (next : LoaderTask n → LoaderTask n) (self : LoaderTask n) : LoaderTask n :=
  let remaining := self.memIndexTotalSize - self.memIndexReadOffset
  let chunkSize := min remaining kMemIndexChunkSize
  if chunkSize = 0 then next (self.setVersion area self.areas.buffer.areaVersion)
  else
    let buffer := self.areas.buffer.ensure (self.memIndexReadOffset + chunkSize)
    let self := { self with areas := ⟨buffer, self.areas.versions⟩ }
    if source.noBuffer (.chunk area self.memIndexReadOffset) then
      next ((self.setVersion area 0).setVersion area buffer.areaVersion)
    else { self with reads := [.chunk area self.memIndexReadOffset] }

/-- `load_mem_index_area`, with `load_mem_index_area_from_blob`. -/
def loadMemIndexArea (source : RecoverySource) (area : IndexArea)
    (next : LoaderTask n → LoaderTask n) (self : LoaderTask n) : LoaderTask n :=
  if source.hasSpdkResources then
    match source.memIndexBlob area with
    | none => next (self.setVersion area 0)
    | some _ =>
        { self with
          memIndexTotalSize := (source.areas self.superblock).totalSize
          areas := ⟨self.areas.buffer.ensureHeader, self.areas.versions⟩
          currentLoadArea := area
          memIndexReadOffset := 0 }.readNextMemIndexChunk source area next
  else
    match area with
    | .a => next (self.setVersion .a (superblockCheckpointSequence self.superblock).toNat)
    | .b => next (self.setVersion .b 0)

/-- What follows an area: the other one, or the comparison. -/
def afterArea (source : RecoverySource) : IndexArea → LoaderTask n → LoaderTask n
  | .a => fun self => { self with state := .kLoadingMemIndexB }.loadMemIndexArea source .b
      fun self => { self with state := .kComparingVersions }.compareAndSelectArea source
  | .b => fun self => { self with state := .kComparingVersions }.compareAndSelectArea source

/-- The superblock is there, and the areas follow. -/
def loadAreas (source : RecoverySource) (self : LoaderTask n) : LoaderTask n :=
  { self with state := .kLoadingMemIndexA }.loadMemIndexArea source .a (afterArea source .a)

/-! ### The superblock -/

/-- The recovery ends with an error. -/
def fail (self : LoaderTask n) (err : KvError) : LoaderTask n :=
  { self with lastError := err, state := .kError, callbacks := self.callbacks ++ [err] }

/-- `load_superblock_primary`, with `load_superblock_from_blob` and `load_superblock_backup`. -/
def loadSuperblockPrimary (source : RecoverySource) (self : LoaderTask n) : LoaderTask n :=
  if source.hasSpdkResources && source.superblockBlob.isSome then
    if source.noBuffer (.superblock .primary) then self.fail .kInternalError
    else { self with reads := [.superblock .primary] }
  else if validateSuperblock self.superblock then self.loadAreas source
  else { self with state := .kLoadingSuperblockBackup }.fail .kCorruption

/-- `start_recovery`. -/
def startRecovery (source : RecoverySource) (self : LoaderTask n) : LoaderTask n :=
  if self.state = .kInit then
    { self with state := .kLoadingSuperblockPrimary }.loadSuperblockPrimary source
  else { self with rejected := self.rejected + 1 }

/-! ### Completions -/

/-- `on_superblock_read_complete` and `on_superblock_backup_read_complete`. -/
def onSuperblockRead (source : RecoverySource) (copy : SuperblockCopy) (blob : ByteMemory)
    (self : LoaderTask n) : LoaderTask n :=
  let buf := RecoverySource.superblockAt blob copy
  if !source.readFails (.superblock copy) && (readSuperblock buf).isSome then
    { self with superblock := buf.take sizeofSuperblock }.loadAreas source
  else
    match copy with
    | .primary => { self with
        state := .kLoadingSuperblockBackup, reads := [.superblock .backup] }
    | .backup => self.fail .kCorruption

/-- `on_mem_index_chunk_loaded`, with the copy from the DMA buffer. -/
def onMemIndexChunkLoaded (source : RecoverySource) (area : IndexArea) (blob : ByteMemory)
    (self : LoaderTask n) : LoaderTask n :=
  let offset := self.memIndexReadOffset
  if source.readFails (.chunk area offset) then
    afterArea source area
      ((self.setVersion area 0).setVersion area self.areas.buffer.areaVersion)
  else
    let chunkSize := min (self.memIndexTotalSize - offset) kMemIndexChunkSize
    { self with
      areas := ⟨self.areas.buffer.fill blob offset chunkSize, self.areas.versions⟩
      memIndexReadOffset := min (offset + kMemIndexChunkSize) self.memIndexTotalSize
      }.readNextMemIndexChunk source area (afterArea source area)

/-- The read of a segment into the memory of the table. -/
def copySegment (blob : ByteMemory) (capacity ioUnit seg : ℕ) (memory : ByteMemory) :
    ByteMemory :=
  let segmentSize := capacity * sizeofMemIndexEntry / kMemIndexSegmentCount
  memory.copy blob (seg * segmentSize)
    ((sizeofSerializedHeader + seg * segmentSize) / ioUnit * ioUnit)
    (segmentSize / ioUnit * ioUnit)

/-- `on_direct_segment_loaded`. -/
def onDirectSegmentLoaded (source : RecoverySource) (seg : ℕ) (blob : ByteMemory)
    (self : LoaderTask n) : LoaderTask n :=
  let header := imageHeader self.areas.buffer.bytes
  let fails := source.readFails (.segment seg)
  let memory := if fails then self.tableMemory
    else copySegment blob header.capacity.toNat source.ioUnit seg self.tableMemory
  let self := { self with
    tableMemory := memory
    hasLoadError := self.hasLoadError || fails
    pendingSegmentLoads := self.pendingSegmentLoads - 1 }
  if self.pendingSegmentLoads = 0 then
    let m := self.loader.memIndex.withEntryMemory memory
    let loaded := if self.hasLoadError then self.areas.buffer.loadByUpsert m
      else { m.rebuildPslArray with globalSequence := UInt32.ofNat header.globalSequence.toNat }
    { self with
      loader := { self.loader with memIndex := loaded }
      state := .kRebuildingIncremental }.startIncrementalRebuild source
  else self

/-- `on_scan_chunk_read`. -/
def onScanChunkRead (source : RecoverySource) (blob : ℕ) (idx : ℕ) (range : ScanRange)
    (rest : List ScanRange) (self : LoaderTask n) : LoaderTask n :=
  let offset := self.currentScanOffset
  if source.readFails (.scan idx offset) then self.scanNextFileBlob source (idx + 1) rest
  else
    let readSize := min kScanChunkSize (range.endPage * kPageSize - offset)
    let parsed := self.loader.parseAndRebuildEntries
      (slice (source.images.contents blob) offset readSize) range.fileId offset
    let self := { self with loader := parsed.1 }
    if parsed.2 = 0 then self.scanNextFileBlob source (idx + 1) rest
    else self.scanBlobChunk source idx range rest (offset + readSize)
      (self.scanNextFileBlob source (idx + 1) rest)

/-- The callback of a read that completes. -/
def complete (source : RecoverySource) (read : LoaderRead) (self : LoaderTask n) :
    Option (LoaderTask n) :=
  match read with
  | .superblock copy => source.superblockBlob.map fun blob =>
      self.onSuperblockRead source copy blob
  | .chunk area _ => (source.memIndexBlob area).map fun blob =>
      self.onMemIndexChunkLoaded source area blob
  | .segment seg => (source.memIndexBlob self.currentLoadArea).map fun blob =>
      self.onDirectSegmentLoaded source seg blob
  | .scan idx _ =>
      match self.scanRanges with
      | [] => none
      | range :: rest => (blobOf source.dataBlobs range.fileId).map fun blob =>
          self.onScanChunkRead source blob idx range rest

end LoaderTask

/-- What can happen to a loader. -/
inductive LoaderEvent
  | startRecovery
  /-- The read at a position among those under way completes. -/
  | complete (i : ℕ)
  deriving DecidableEq, Repr

/-- The loader as a machine. -/
def loaderMachine (n : ℕ) (source : RecoverySource) : Machine (LoaderTask n) LoaderEvent where
  step := fun self event =>
    match event with
    | .startRecovery => some (self.startRecovery source)
    | .complete i => self.reads[i]?.bind fun read =>
        { self with reads := self.reads.eraseIdx i }.complete source read

end SpdkKv
