import SpdkKv.AllocLogWindow
import SpdkKv.FileMappings
import SpdkKv.Migration

/-!
# Data Files from Allocation to Recovery

The blobs of the data files and what tells the next `open` about them. An allocation creates
a blob, writes an entry to the allocation log, then opens the blob and writes the header of
the file; only then the file takes writes and is entered into the superblock in memory. A
checkpoint enters all files, empties the log and writes the superblock; `close` does not
empty the log. `open` deletes the blobs of logged allocations without a header, and then all
data blobs that are not mapped.

Any number of allocations may be under way, and the calls that poll may end in any order.
Page writes and superblock writes may fail. The records that were reported successful are
remembered with their place in the index. What allocations still do while `close` waits for
them is left out.
-/

namespace SpdkKv

/-! ### Allocations -/

/-- What an allocation is for. -/
inductive AllocKind
  /-- `allocate_new_file_async`; the end is `on_new_file_allocated`. -/
  | async
  /-- `allocate_new_file` for `put`, `del` or `submit_buffer_io`, which activate the file. -/
  | foreground
  /-- `allocate_new_file` for a compaction. -/
  | compaction
  deriving DecidableEq, Repr

/-- An allocation under way, with the pointer to its file. -/
structure FileAllocation where
  place : ℕ
  kind : AllocKind
  deriving DecidableEq, Repr

namespace FileSpace

variable {W : Type}

/-- `on_blob_allocated`: the file gets the blob that was created. -/
def assignBlob (self : FileSpace W) (i : ℕ) : FileSpace W :=
  { self.modifyFile i fun file => { file with blobId := self.nextBlobId } with
    nextBlobId := self.nextBlobId + 1 }

/-- `handle_blob_opened_for_file`, with the header written. -/
def markOpened (self : FileSpace W) (i : ℕ) : FileSpace W :=
  self.modifyFile i fun file => { file with blobOpened := true }

/-- Opening a new file at once is creating its blob and opening it. -/
theorem markOpened_assignBlob (self : FileSpace W) (i : ℕ) :
    (self.assignBlob i).markOpened i = self.openNewFile i := by
  rw [markOpened, assignBlob, openNewFile, modifyFile, modifyFile, modifyFile]
  dsimp only
  rw [List.modify_modify_eq]
  rfl

/-- The end of an allocation. An asynchronous one takes the last file for its own. -/
def endAllocation (self : FileSpace W) (a : FileAllocation) (ok : Bool) : FileSpace W :=
  if ok then
    match a.kind with
    | .async =>
        let last := self.files.length - 1
        (self.updateFileMapping (self.fileAt last)).activate last
    | .foreground => (self.updateFileMapping (self.fileAt a.place)).activate a.place
    | .compaction => self.updateFileMapping (self.fileAt a.place)
  else self.dropNewFile

/-- The superblock with the state of the files. -/
def updatedSuperblock (self : FileSpace W) (position : Option (ℕ × ℕ))
    (dataBytes garbageBytes : ℕ) : SuperblockFiles :=
  let superblock := self.superblock.updateAll self.files
  { superblock with
    activeFileId := self.activeFileId
    checkpointFileId := (position.map Prod.fst).getD superblock.checkpointFileId
    checkpointPageIndex := (position.map Prod.snd).getD superblock.checkpointPageIndex
    totalDataBytes := dataBytes
    totalGarbageBytes := garbageBytes }

end FileSpace

/-! ### The system -/

/-- A record that was reported successful: its key, where the index was told it is, and the
blob it was written to. -/
structure StoredRecord where
  key : UInt64
  fileId : BitVec 10
  offsetIndex : BitVec 21
  blobId : ℕ

/-- The data files of an engine, and the device. -/
structure FileLifecycle (n : ℕ) where
  closed : Bool
  memIndex : MemIndex n
  space : FileSpace Unit
  /-- Allocations that wait for their blob. -/
  creating : List FileAllocation
  /-- Allocations that wait for their page write, one for each page write in flight. -/
  logging : List FileAllocation
  /-- Allocations that wait until their blob is opened and has a header. -/
  opening : List FileAllocation
  /-- The allocation log, with its page and the position in the superblock on disk. -/
  log : AllocLogState
  /-- The superblock that is being written. -/
  writing : Option (SuperblockFiles × AllocLogPosition)
  /-- The superblock on disk. -/
  persisted : SuperblockFiles
  /-- The data blobs. -/
  blobs : List ℕ
  /-- The blobs with a header, and the file id in it. -/
  headers : List (ℕ × UInt16)
  records : List StoredRecord

/-- What can happen. -/
inductive LifecycleEvent (n : ℕ)
  /-- A file is allocated: it is added to `files_`, and a blob is asked for. -/
  | allocate (kind : AllocKind)
  /-- `on_blob_allocated`. -/
  | blobAllocated (i : ℕ) (ok : Bool) (createTime : UInt64)
  /-- The page write of an entry ends; `late` when the device read the page buffer only now. -/
  | entryWritten (i : ℕ) (ok late : Bool)
  /-- The blob was opened and its header written, or one of the two failed. -/
  | headerWritten (i : ℕ) (ok : Bool)
  /-- Space is taken at the end of a file. -/
  | write (i size : ℕ)
  /-- A put to a file completes. -/
  | completePut (i : ℕ) (e : MemIndexEntry)
  /-- A delete completes. -/
  | completeDelete (key : UInt64)
  /-- The state of a file changes. -/
  | mark (i : ℕ) (state : FileState)
  /-- A compaction has filled its destination up to an offset. -/
  | migrate (i offset : ℕ)
  /-- A compaction makes the index point to a copy in its destination. -/
  | updateIndex (i : ℕ) (migrated : MigratedEntry)
  /-- A compaction takes that back. -/
  | revertIndex (migrated : MigratedEntry)
  /-- A compaction that is rolled back closes its destination and deletes the blob. -/
  | discard (i : ℕ) (deleted : Bool)
  /-- `on_superblock_update`, up to the write of the superblock. -/
  | updateSuperblock (position : Option (ℕ × ℕ)) (dataBytes garbageBytes : ℕ)
  /-- The write of the superblock ends. -/
  | superblockWritten (ok : Bool)
  /-- `close`. -/
  | close (dataBytes garbageBytes : ℕ) (ok : Bool)
  /-- `open`, after `close` or a crash. -/
  | reopen (recovered : MemIndex n)

namespace FileLifecycle

variable {n : ℕ}

/-- The key of the record is mapped to the place of the record. -/
def Live (self : FileLifecycle n) (r : StoredRecord) : Prop :=
  ∃ e ∈ self.memIndex.findEntry r.key, e.fileId = r.fileId ∧ e.offsetIndex = r.offsetIndex

instance (self : FileLifecycle n) (r : StoredRecord) : Decidable (self.Live r) :=
  inferInstanceAs (Decidable (∃ e ∈ _, _))

/-- A file takes writes. -/
def isOpened (self : FileLifecycle n) (i : ℕ) : Bool :=
  i < self.space.files.length && (self.space.fileAt i).blobOpened

/-! ### What `open` does -/

/-- What `load_entries` returns. -/
def foundEntries (self : FileLifecycle n) : List AllocLogEntry :=
  (self.log.superblock.map fun p => (p.recover self.log.disk).2).getD []

/-- The blob of an entry can be opened. -/
def canOpen (self : FileLifecycle n) (e : AllocLogEntry) : Bool :=
  e.blobId.toNat ∈ self.blobs

/-- The blob of an entry has the header of the file. -/
def hasHeader (self : FileLifecycle n) (e : AllocLogEntry) : Bool :=
  (e.blobId.toNat, e.fileId) ∈ self.headers

/-- `process_alloc_log_recovery`: the allocations that are added to the superblock. -/
def validAllocations (self : FileLifecycle n) : List (ℕ × ℕ) :=
  (self.foundEntries.filter fun e => self.canOpen e && self.hasHeader e).map fun e =>
    (e.fileId.toNat, e.blobId.toNat)

/-- `process_alloc_log_recovery`: the blobs that are deleted. -/
def rejectedBlobs (self : FileLifecycle n) : List ℕ :=
  (self.foundEntries.filter fun e => self.canOpen e && !self.hasHeader e).map fun e =>
    e.blobId.toNat

/-- The superblock after `process_alloc_log_recovery`. -/
def loaded (self : FileLifecycle n) : SuperblockFiles :=
  self.persisted.addLogged self.validAllocations

/-- The data blobs after `process_alloc_log_recovery`. -/
def remainingBlobs (self : FileLifecycle n) : List ℕ :=
  self.blobs.filter fun b => b ∉ self.rejectedBlobs

/-- `rebuild_file_info` succeeds: every mapped blob can be opened. -/
def canRebuild (self : FileLifecycle n) : Bool :=
  self.loaded.blobIds.all fun b => b ∈ self.remainingBlobs

/-- `release_dangling_blobs`: the blobs that are deleted. -/
def danglingBlobs (self : FileLifecycle n) : List ℕ :=
  self.remainingBlobs.filter fun b => b ∉ self.loaded.blobIds

/-- All blobs that `open` deletes. If a file cannot be opened, it stops before the dangling
blobs. -/
def deletedByOpen (self : FileLifecycle n) : List ℕ :=
  self.rejectedBlobs ++ if self.canRebuild then self.danglingBlobs else []

/-! ### The machine -/

/-- The engine closes an allocation that went wrong or is done. -/
def endAllocation (self : FileLifecycle n) (a : FileAllocation) (ok : Bool) : FileLifecycle n :=
  { self with space := self.space.endAllocation a ok }

/-- What `write_entry` is called with. -/
def allocationOf (self : FileLifecycle n) (a : FileAllocation) (createTime : UInt64) :
    Allocation where
  blobId := UInt64.ofNat self.space.nextBlobId
  fileId := UInt16.ofNat (self.space.fileAt a.place).fileId
  fileSize := UInt64.ofNat self.space.dataFileSize
  createTime := createTime

/-- `on_blob_allocated`, when the blob was created. -/
def onBlobAllocated (self : FileLifecycle n) (a : FileAllocation) (createTime : UInt64) :
    FileLifecycle n :=
  let withBlob := { self with
    space := self.space.assignBlob a.place
    blobs := self.blobs ++ [self.space.nextBlobId] }
  match self.log.mgr.writeEntry (self.allocationOf a createTime) with
  | none => withBlob.endAllocation a false
  | some (entry, mgr) =>
      { withBlob with
        log := { self.log with
          mgr := mgr
          inFlight := self.log.inFlight ++ [(entry, mgr.page)] }
        logging := self.logging ++ [a] }

/-- The end of the page write of an entry. -/
def onEntryWritten (self : FileLifecycle n) (i : ℕ) (w : AllocLogEntry × AllocLogPage)
    (a : FileAllocation) (ok late : Bool) : FileLifecycle n :=
  if ok then
    { self with
      log := { self.log with
        disk := if late then self.log.mgr.page else w.2
        inFlight := self.log.inFlight.eraseIdx i
        completed := self.log.completed ++ [w.1] }
      logging := self.logging.eraseIdx i
      opening := self.opening ++ [a] }
  else
    endAllocation { self with
      log := { self.log with
        inFlight := self.log.inFlight.eraseIdx i
        failed := self.log.failed ++ [w.1] }
      logging := self.logging.eraseIdx i } a false

/-- The end of the opening of a file. -/
def onHeaderWritten (self : FileLifecycle n) (i : ℕ) (a : FileAllocation) (ok : Bool) :
    FileLifecycle n :=
  if ok then
    endAllocation { self with
      space := self.space.markOpened a.place
      opening := self.opening.eraseIdx i
      headers := self.headers ++
        [((self.space.fileAt a.place).blobId,
          UInt16.ofNat (self.space.fileAt a.place).fileId)] } a true
  else endAllocation { self with opening := self.opening.eraseIdx i } a false

/-- The engine after `open`. -/
def reopened (self : FileLifecycle n) (recovered : MemIndex n) (p : AllocLogPosition) :
    FileLifecycle n :=
  { self with
    closed := false
    memIndex := recovered
    space := .reopened self.space.dataFileSize self.space.nextBlobId self.persisted
      self.validAllocations
    creating := []
    logging := []
    opening := []
    log := { self.log with
      mgr := (p.recover self.log.disk).1
      inFlight := []
      failed := [] }
    writing := none
    blobs := self.blobs.filter fun b => b ∉ self.deletedByOpen }

/-- The state after an event of a running engine. -/
def run? (self : FileLifecycle n) : LifecycleEvent n → Option (FileLifecycle n)
  | .allocate kind =>
      some { self with
        space := self.space.pushNewFile
        creating := self.creating ++ [⟨self.space.files.length, kind⟩] }
  | .blobAllocated i ok createTime =>
      self.creating[i]?.bind fun a =>
        let self := { self with creating := self.creating.eraseIdx i }
        if ok then
          if self.space.nextBlobId < 2 ^ 64 then some (self.onBlobAllocated a createTime)
          else none
        else some (self.endAllocation a false)
  | .entryWritten i ok late =>
      self.log.inFlight[i]?.bind fun w => self.logging[i]?.map fun a =>
        self.onEntryWritten i w a ok late
  | .headerWritten i ok => self.opening[i]?.map fun a => self.onHeaderWritten i a ok
  | .write i size =>
      if self.isOpened i then
        some { self with space := self.space.modifyFile i fun file => file.grow size }
      else none
  | .completePut i e =>
      if self.isOpened i then
        some { self with
          memIndex := (self.memIndex.upsert e.key e).1
          records := self.records ++
            [⟨e.key, e.fileId, e.offsetIndex, (self.space.fileAt i).blobId⟩] }
      else none
  | .completeDelete key => some { self with memIndex := (self.memIndex.remove key).1 }
  | .mark i state =>
      some { self with space := self.space.modifyFile i fun file => { file with state := state } }
  | .migrate i offset =>
      if self.isOpened i then
        some { self with space := self.space.modifyFile i fun file =>
          { file with writeOffset := offset, size := offset } }
      else none
  | .updateIndex i m =>
      if self.isOpened i then
        some { self with
          memIndex := self.memIndex.updateIndex m
          records := self.records ++ [⟨m.key, BitVec.ofNat 10 m.newFileId.toNat,
            BitVec.ofNat 21 m.newOffsetIndex.toNat, (self.space.fileAt i).blobId⟩] }
      else none
  | .revertIndex m => some { self with memIndex := self.memIndex.revertIndexUpdate m }
  | .discard i deleted =>
      if self.isOpened i then
        some { self with
          space := self.space.modifyFile i fun file =>
            { file with state := .kDeleted, blobOpened := false }
          blobs :=
            if deleted then self.blobs.erase (self.space.fileAt i).blobId else self.blobs }
      else none
  | .updateSuperblock position dataBytes garbageBytes =>
      let superblock := self.space.updatedSuperblock position dataBytes garbageBytes
      let mgr := self.log.mgr.reclaim
      some { self with
        space := { self.space with superblock := superblock }
        log := { self.log with mgr := mgr }
        writing := some (superblock, mgr.position) }
  | .superblockWritten ok =>
      self.writing.map fun w =>
        if ok then
          { self with
            writing := none
            persisted := w.1
            log := { self.log with superblock := some w.2 } }
        else { self with writing := none }
  | .close dataBytes garbageBytes ok =>
      let superblock := self.space.updatedSuperblock none dataBytes garbageBytes
      let self := { self with
        closed := true
        space := { self.space with superblock := superblock }
        writing := none }
      some (if ok then
        { self with
          persisted := superblock
          log := { self.log with superblock := some self.log.mgr.position } }
      else self)
  | .reopen recovered =>
      self.log.superblock.bind fun p =>
        if self.canRebuild ∧ self.loaded.fileMappings ≠ [] then some (self.reopened recovered p)
        else none

/-- The state after an event: a closed engine can only be opened. -/
def step (self : FileLifecycle n) (ev : LifecycleEvent n) : Option (FileLifecycle n) :=
  match self.closed, ev with
  | true, .reopen recovered => self.run? (.reopen recovered)
  | true, _ => none
  | false, ev => self.run? ev

/-- The entry of the first file. -/
def firstEntry (dataFileSize : ℕ) (createTime : UInt64) : AllocLogEntry :=
  .build ⟨1, 0, UInt64.ofNat dataFileSize, createTime⟩ 1

/-- The log after `create`, which persists its position without emptying it. -/
def createdLog (dataFileSize : ℕ) (createTime : UInt64) : AllocLogState :=
  let page := Function.update (fun _ => .zero) (allocLogSlot 0)
    (firstEntry dataFileSize createTime)
  ⟨⟨0, 1, 1, page⟩, some ⟨0, 1, 1⟩, page, [], [firstEntry dataFileSize createTime], []⟩

/-- The state after `create`. -/
def created (index : MemIndex n) (dataFileSize : ℕ) (createTime : UInt64) : FileLifecycle n where
  closed := false
  memIndex := index
  space := .created dataFileSize
  creating := []
  logging := []
  opening := []
  log := createdLog dataFileSize createTime
  writing := none
  persisted := (FileSpace.created (W := Unit) dataFileSize).superblock
  blobs := [1]
  headers := [(1, 0)]
  records := []

/-- `create` leaves the log as its calls do. -/
theorem run_createdLog (dataFileSize : ℕ) (createTime : UInt64) :
    allocLogMachine.run AllocLogState.start
      [.writeEntry ⟨1, 0, UInt64.ofNat dataFileSize, createTime⟩, .pageWritten 0 false,
        .persist] = some (createdLog dataFileSize createTime) := rfl

end FileLifecycle

/-- The data files as a machine. -/
def lifecycleMachine (n : ℕ) : Machine (FileLifecycle n) (LifecycleEvent n) where
  step := FileLifecycle.step

end SpdkKv
