import SpdkKv.AsyncTrace
import SpdkKv.FileStore
import SpdkKv.SyncEngine

/-!
# Runs of the Engine

The engine with its synchronous calls. `put`, `del`, `allocate_new_file` and what calls it
poll until their IO is done, and callbacks that run meanwhile may call the engine again; the
calls that wait form a stack, of which only the innermost can go on. Around the engine are
the compactions under way, the superblock that is being written and the one on disk, and
the records that were reported successful, each with the entry that was given to the index
and the range that was submitted for it.

A compaction chooses freely what it copies, and its changes of the index are left out. The
index that recovery builds is an input of `open`.
-/

namespace SpdkKv

/-- Smallest number of append buffers, with which an engine is opened. -/
def kMinBufferCount : ℕ := 4

/-! ### The system -/

/-- Who called `allocate_new_file`. -/
inductive AllocCaller
  /-- `put` or `del`. -/
  | sync (r : SyncRequest)
  /-- `submit_buffer_io`. -/
  | buffer (buffer : ℕ)
  /-- `CompactionTask::init`. -/
  | compaction (source : ℕ)

/-- A call that waits. -/
inductive Frame
  /-- `allocate_new_file` waits for a checkpoint. -/
  | reclaiming (caller : AllocCaller)
  /-- `allocate_new_file` waits for its blob. -/
  | allocating (place : ℕ) (caller : AllocCaller)
  /-- `put` or `del` waits for its IO. -/
  | writing (w : SyncWrite)

/-- A record that was reported successful. -/
structure PlacedRecord where
  /-- The entry that was given to `upsert`; none for a delete. -/
  entry : Option MemIndexEntry
  range : BlobRange

/-- The engine and what surrounds it. -/
structure EngineSystem (n : ℕ) where
  engine : Engine n
  stack : List Frame
  runs : List CompactionRun
  /-- The position of the last call of `start_checkpoint`. -/
  position : Option (ℕ × ℕ)
  writing : Option SuperblockFiles
  persisted : SuperblockFiles
  records : List PlacedRecord
  copies : List BlobRange
  blobPages : ℕ

/-- What can happen. -/
inductive EngineEvent (n : ℕ)
  /-- An event of the asynchronous part. -/
  | async (ev : AsyncEvent)
  /-- `put` is called. -/
  | put (key : UInt64) (valueLen : ℕ)
  /-- `del` is called. -/
  | del (key : UInt64)
  /-- `submit_buffer_io` is called for the next buffer of the submit ring. -/
  | submitBuffer
  /-- `CompactionTask::init` for a file of the engine. -/
  | compact (source : ℕ)
  /-- The innermost call that waits goes on. -/
  | wake (ok : Bool)
  /-- A compaction marks its source. -/
  | markSource (k : ℕ) (compacting : Bool)
  /-- A compaction writes a chunk of the given size. -/
  | migrate (k size : ℕ) (ok : Bool)
  /-- A compaction is rolled back and deletes its destination. -/
  | discard (k : ℕ)
  /-- `start_checkpoint`. -/
  | startCheckpoint
  /-- `on_superblock_update`. -/
  | updateSuperblock
  /-- The write of the superblock ends. -/
  | superblockWritten (ok : Bool)
  /-- `close`, after its buffers were submitted. -/
  | close (ok : Bool)
  /-- `open`, after `close` or a crash. -/
  | reopen (recovered : MemIndex n) (logged : List (ℕ × ℕ))

namespace Frame

/-- The file of an allocation. -/
def place? : Frame → Option ℕ
  | allocating place _ => some place
  | _ => none

/-- The write of a `put` or `del`. -/
def wait? : Frame → Option FileWait
  | writing w => some ⟨w.place, w.file, w.req.alignedSize⟩
  | _ => none

end Frame

/-! ### Records -/

/-- The record of a `put` or `del`. -/
def SyncWrite.placed (w : SyncWrite) : PlacedRecord :=
  ⟨if w.req.isDelete then none else some (Engine.entryFor w.file w.req), w.range⟩

/-- The record of a single write. -/
def WriteCtx.placed (ctx : WriteCtx) (range : BlobRange) : PlacedRecord :=
  ⟨if ctx.isDelete then none else some ctx.entry, range⟩

/-- The range of a record in an append buffer that is written to a range. -/
def BufferedPendingWrite.range (w : BufferedPendingWrite) (range : BlobRange) : BlobRange :=
  { range with offset := range.offset + w.bufferOffset, length := w.alignedSize }

/-- The records of a write in flight. -/
def Engine.placed {n : ℕ} (self : Engine n) (io : InflightIo InflightWrite) :
    List PlacedRecord :=
  match io.write with
  | .queued ctx => [ctx.placed io.range]
  | .putAsync ctx _ => [ctx.placed io.range]
  | .deleteAsync _ _ _ => [⟨none, io.range⟩]
  | .buffer buffer fileId basePageOffset =>
      (self.bufferedWrites buffer).map fun w =>
        ⟨some (bufferedEntry fileId basePageOffset w), w.range io.range⟩
  | .waitQueue ctx => [ctx.placed io.range]

namespace EngineSystem

variable {n : ℕ}

/-- The size of a blob in bytes. -/
def blobSize (self : EngineSystem n) : ℕ := self.blobPages * kPageSize

/-! ### Synchronous calls -/

/-- `allocate_new_file` adds the file and waits for its blob. -/
def addNewFile (self : EngineSystem n) (caller : AllocCaller) : EngineSystem n :=
  { self with
    engine := { self.engine with space := self.engine.space.pushNewFile }
    stack := .allocating self.engine.space.files.length caller :: self.stack }

/-- `allocate_new_file` is called. -/
def allocateNewFile (self : EngineSystem n) (caller : AllocCaller) : EngineSystem n :=
  if self.engine.space.allocLogNearFull then
    { self with stack := .reclaiming caller :: self.stack }
  else self.addNewFile caller

/-- `put` or `del` submits its record to a file and waits. -/
def startSync (self : EngineSystem n) (i : ℕ) (r : SyncRequest) : EngineSystem n :=
  let (engine, w) := self.engine.startSync i r
  { self with engine := engine, stack := .writing w :: self.stack }

/-- The active file is sealed, and a new one is allocated. -/
def sealAndAllocate (self : EngineSystem n) (caller : AllocCaller) : EngineSystem n :=
  allocateNewFile { self with engine := self.engine.sealActiveFile } caller

/-- `put` and `del`. -/
def callSync (self : EngineSystem n) : Except KvError SyncRequest → EngineSystem n
  | .error _ => self
  | .ok r =>
      match self.engine.space.roomyFile r.alignedSize with
      | some i => self.startSync i r
      | none => self.sealAndAllocate (.sync r)

/-- `submit_buffer_io` for the next buffer of the submit ring. -/
def callSubmitBuffer (self : EngineSystem n) : EngineSystem n :=
  match self.engine.bufferManager.submitRing with
  | [] => self
  | buffer :: rest =>
      let self := { self with engine := self.engine.takeBuffer rest }
      let used := (self.engine.bufferManager.buffers buffer).used
      if used = 0 then self
      else
        match self.engine.space.roomyFile used with
        | some i => { self with engine := self.engine.submitBufferTo i buffer }
        | none => self.sealAndAllocate (.buffer buffer)

/-- The caller goes on with the file that `allocate_new_file` returned. -/
def useFile (self : EngineSystem n) (i : ℕ) : AllocCaller → EngineSystem n
  | .sync r =>
      startSync { self with engine := { self.engine with
        space := self.engine.space.activate i } } i r
  | .buffer buffer =>
      let engine := { self.engine with space := self.engine.space.activate i }
      { self with engine := engine.submitBufferTo i buffer }
  | .compaction source =>
      { self with runs := self.runs ++ [⟨source, i, sizeofDataFileHeader⟩] }

/-- The caller goes on without a file. -/
def handleNoSpace (self : EngineSystem n) : AllocCaller → EngineSystem n
  | .buffer buffer => { self with engine := (self.engine.failBuffer buffer).1 }
  | _ => self

/-- The innermost call that waits goes on. -/
def wake (self : EngineSystem n) (ok : Bool) : Option (EngineSystem n) :=
  match self.stack with
  | [] => none
  | .reclaiming caller :: rest => some (addNewFile { self with stack := rest } caller)
  | .allocating i caller :: rest =>
      if ok then
        some (useFile { self with
          engine := { self.engine with space := self.engine.space.finishNewFile i }
          stack := rest } i caller)
      else
        some (handleNoSpace { self with
          engine := { self.engine with space := self.engine.space.dropNewFile }
          stack := rest } caller)
  | .writing w :: rest =>
      if ok && self.blobSize < w.range.stop then none
      else some { self with
        engine := (self.engine.endSync w ok).1
        stack := rest
        records := if ok then self.records ++ [w.placed] else self.records }

/-! ### The machine -/

/-- The records that an event reports successful. -/
def reported (self : EngineSystem n) : AsyncEvent → List PlacedRecord
  | .complete i true => (self.engine.space.inflight[i]?.map self.engine.placed).getD []
  | _ => []

/-- A write can be reported successful: it does not end behind its blob. -/
def canSucceed (self : EngineSystem n) : AsyncEvent → Bool
  | .complete i true => self.engine.space.inflight[i]?.all fun io => io.range.stop ≤ self.blobSize
  | .submitBuffer _ => false
  | _ => true

/-- The superblock with the state of the files. -/
def updatedSuperblock (self : EngineSystem n) (position : Option (ℕ × ℕ)) : SuperblockFiles :=
  let superblock := self.engine.space.superblock.updateAll self.engine.space.files
  { superblock with
    activeFileId := self.engine.space.activeFileId
    checkpointFileId := (position.map Prod.fst).getD superblock.checkpointFileId
    checkpointPageIndex := (position.map Prod.snd).getD superblock.checkpointPageIndex
    totalDataBytes := self.engine.totalDataBytes
    totalGarbageBytes := self.engine.totalGarbageBytes }

/-- The engine with another superblock in memory. -/
def withSuperblock (self : EngineSystem n) (superblock : SuperblockFiles) : EngineSystem n :=
  { self with engine := { self.engine with
    space := { self.engine.space with superblock := superblock } } }

/-- `open`: the engine starts from the superblock on disk. -/
def reopened (self : EngineSystem n) (recovered : MemIndex n) (logged : List (ℕ × ℕ)) :
    EngineSystem n :=
  { self with
    engine := {
      state := .kReady
      memIndex := recovered
      space := .reopened self.engine.space.dataFileSize self.engine.space.nextBlobId
        self.persisted logged
      pendingWriteQueue := []
      waitQueue := []
      bufferManager := .init kMinBufferCount
      bufferPendingWrites := []
      totalDataBytes := self.persisted.totalDataBytes
      totalGarbageBytes := self.persisted.totalGarbageBytes
      pendingForegroundCount := 0 }
    stack := []
    runs := []
    position := none
    writing := none }

/-- The state after an event, if the event can happen. The submission of a buffer is an event
of its own, with an allocation that waits. -/
def step (self : EngineSystem n) : EngineEvent n → Option (EngineSystem n)
  | .async ev =>
      if self.canSucceed ev then
        (self.engine.step ev).map fun r =>
          { self with engine := r.1, records := self.records ++ self.reported ev }
      else none
  | .put key valueLen => some (self.callSync (self.engine.putRequest key valueLen))
  | .del key => some (self.callSync (self.engine.delRequest key))
  | .submitBuffer => some self.callSubmitBuffer
  | .compact source =>
      if source < self.engine.space.files.length then
        some (self.allocateNewFile (.compaction source))
      else none
  | .wake ok => self.wake ok
  | .markSource k compacting =>
      self.runs[k]?.map fun run =>
        { self with engine := { self.engine with
          space := self.engine.space.modifyFile run.source fun file =>
            { file with state := if compacting then .kCompacting else .kSealed } } }
  | .migrate k size ok =>
      self.runs[k]?.bind fun run =>
        let dest := self.engine.space.fileAt run.dest
        let range : BlobRange := ⟨dest.blobId, dest.fileId, run.destOffset, size % 2 ^ 32⟩
        if ok then
          if range.stop ≤ self.blobSize then
            some { self with
              engine := { self.engine with
                space := self.engine.space.modifyFile run.dest fun file =>
                  { file with
                    writeOffset := run.destOffset + size
                    size := run.destOffset + size } }
              runs := self.runs.set k { run with destOffset := run.destOffset + size }
              copies := self.copies ++ [range] }
          else none
        else some self
  | .discard k =>
      self.runs[k]?.map fun run =>
        { self with
          engine := { self.engine with
            space := self.engine.space.modifyFile run.dest fun file =>
              { file with state := .kDeleted, blobOpened := false } }
          runs := self.runs.eraseIdx k }
  | .startCheckpoint =>
      some { self with position := self.engine.space.activeIndex.map fun i =>
        ((self.engine.space.fileAt i).fileId, (self.engine.space.fileAt i).writeOffset / kPageSize) }
  | .updateSuperblock =>
      let superblock := self.updatedSuperblock self.position
      some { self.withSuperblock superblock with writing := some superblock }
  | .superblockWritten ok =>
      self.writing.map fun superblock =>
        { self with
          writing := none
          persisted := if ok then superblock else self.persisted }
  | .close ok =>
      if self.stack.isEmpty && self.engine.state = .kReady then
        let superblock := self.updatedSuperblock none
        let self := self.withSuperblock superblock
        some { self with
          engine := { self.engine with state := .kClosed }
          writing := none
          persisted := if ok then superblock else self.persisted }
      else none
  | .reopen recovered logged =>
      if ∀ m ∈ (self.persisted.addLogged logged).fileMappings,
          m.blobId ≠ 0 ∧ m.blobId < self.engine.space.nextBlobId then
        some (self.reopened recovered logged)
      else none

/-- A step of the asynchronous part. -/
theorem step_async {self s' : EngineSystem n} {ev : AsyncEvent}
    (hs : self.step (.async ev) = some s') :
    self.canSucceed ev = true ∧ ∃ r, self.engine.step ev = some r ∧
      s' = { self with engine := r.1, records := self.records ++ self.reported ev } := by
  obtain ⟨hcan, hs⟩ := Option.ite_none_right_eq_some.mp hs
  obtain ⟨r, hr, rfl⟩ := Option.map_eq_some_iff.mp hs
  exact ⟨hcan, r, hr, rfl⟩

/-- The state after `create`. -/
def created (index : MemIndex n) (dataFileSize bufferCount blobPages : ℕ) : EngineSystem n where
  engine := {
    state := .kReady
    memIndex := index
    space := .created dataFileSize
    pendingWriteQueue := []
    waitQueue := []
    bufferManager := .init bufferCount
    bufferPendingWrites := []
    totalDataBytes := 0
    totalGarbageBytes := 0
    pendingForegroundCount := 0 }
  stack := []
  runs := []
  position := none
  writing := none
  persisted := (FileSpace.created (W := InflightWrite) dataFileSize).superblock
  records := []
  copies := []
  blobPages := blobPages

end EngineSystem

/-- The engine with its calls as a machine. -/
def engineMachine (n : ℕ) : Machine (EngineSystem n) (EngineEvent n) where
  step := EngineSystem.step

end SpdkKv
