import SpdkKv.AppendBuffer
import SpdkKv.FileSpace
import SpdkKv.IndexMap

/-!
# Asynchronous Writes of the Engine

The part of `Engine` that `put_async`, `put_buffered` and `delete_async` go through: a write
is submitted to the active file, or waits for a new file (`pending_write_queue_`), for the
end of backpressure (`wait_queue_`) or in an append buffer, and the index is updated when
its blob IO completes. Completions come in any order.

A method yields the engine afterwards and its effects: sequences given to operations,
operations that completed together with their call to the index, operations that failed
after they had got a sequence. An operation that is rejected has no effect. The bytes of the
records are left out, and a checkpoint that makes room in the allocation log before a new
file is allocated is an event of its own.
-/

namespace SpdkKv

/-! ### Operations and effects -/

/-- States of the engine. -/
inductive EngineState
  | kUninitialized
  | kInitializing
  | kReady
  | kClosing
  | kClosed
  deriving DecidableEq, Repr

/-- An operation that has got its sequence. -/
structure WriteOp where
  key : UInt64
  sequence : UInt32
  isDelete : Bool
  deriving DecidableEq, Repr

/-- The call enters the operation into the index. -/
def IndexOp.Performs (op : WriteOp) : IndexOp → Prop
  | .upsert e => op.isDelete = false ∧ e.key = op.key ∧ e.sequence = op.sequence ∧
      e.deleted = false
  | .remove key => op.isDelete = true ∧ key = op.key

/-- An operation that has completed, with its call to the index. -/
structure CompletedWrite where
  op : WriteOp
  call : IndexOp
  performs : call.Performs op

/-- What a method does to operations. -/
inductive WriteEffect
  /-- The operation got its sequence. -/
  | issued (op : WriteOp)
  /-- The IO of the operation completed and the index was called. -/
  | completed (c : CompletedWrite)
  /-- The operation failed. -/
  | failed (op : WriteOp)

/-! ### Data of the engine -/

/-- `PendingWriteRequest` and `WaitQueueEntry`: a write that is not submitted yet. -/
structure QueuedWrite where
  key : UInt64
  alignedSize : ℕ
  sequence : UInt32
  pageCount : UInt16
  tag : UInt8
  isDelete : Bool
  oldGarbageSize : ℕ
  isSegmentWrite : Bool
  deriving DecidableEq, Repr

/-- `BufferedPendingWrite`: a record in an append buffer. -/
structure BufferedPendingWrite where
  key : UInt64
  sequence : UInt32
  bufferOffset : ℕ
  alignedSize : ℕ
  pageCount : UInt16
  tag : UInt8
  deriving DecidableEq, Repr

/-- The operation of a write that waits. -/
def QueuedWrite.op (w : QueuedWrite) : WriteOp := ⟨w.key, w.sequence, w.isDelete⟩

/-- The operation of a record in a buffer. -/
def BufferedPendingWrite.op (w : BufferedPendingWrite) : WriteOp := ⟨w.key, w.sequence, false⟩

/-- The context of a single write in flight: the entry belongs to the key and is a tombstone
exactly for a delete. -/
structure WriteCtx where
  key : UInt64
  entry : MemIndexEntry
  isDelete : Bool
  oldGarbageSize : ℕ
  key_eq : entry.key = key
  deleted_eq : entry.deleted = isDelete

/-- The operation of a context. -/
def WriteCtx.op (ctx : WriteCtx) : WriteOp := ⟨ctx.key, ctx.entry.sequence, ctx.isDelete⟩

/-- A blob write in flight, by the handler of its completion. -/
inductive InflightWrite
  /-- `on_queued_write_complete`. -/
  | queued (ctx : WriteCtx)
  /-- `on_put_async_write_complete`. -/
  | putAsync (ctx : WriteCtx) (isPut : ctx.isDelete = false)
  /-- The completion in `delete_async`; the sequence is in the tombstone record. -/
  | deleteAsync (key : UInt64) (sequence : UInt32) (oldSize : ℕ)
  /-- `on_buffer_io_complete`. -/
  | buffer (buffer fileId basePageOffset : ℕ)
  /-- The completion in `process_wait_queue`. -/
  | waitQueue (ctx : WriteCtx)

/-- The members of `Engine` that writes use. -/
structure Engine (n : ℕ) where
  state : EngineState
  memIndex : MemIndex n
  /-- The data files and the writes in flight. -/
  space : FileSpace InflightWrite
  pendingWriteQueue : List QueuedWrite
  waitQueue : List QueuedWrite
  bufferManager : AppendBufferManager
  bufferPendingWrites : List (ℕ × List BufferedPendingWrite)
  totalDataBytes : ℕ
  totalGarbageBytes : ℕ
  pendingForegroundCount : ℕ

namespace Engine

variable {n : ℕ}

/-! ### Files -/

/-- The active file is sealed. -/
def sealActiveFile (self : Engine n) : Engine n :=
  { self with space := self.space.sealActiveFile }

/-- The space of a write is taken at the end of a file, and its IO is submitted. -/
def submitAt (self : Engine n) (i size : ℕ) (write : FileInfo → InflightWrite) : Engine n :=
  { self with
    space := self.space.submitAt i size write
    totalDataBytes := self.totalDataBytes + size
    pendingForegroundCount := self.pendingForegroundCount + 1 }

/-- `allocate_new_file`, followed by making the file the active one; a failed allocation
leaves everything as it was. -/
def allocateNewFile (self : Engine n) (ok : Bool) : Option (Engine n × ℕ) :=
  if ok then
    let i := self.space.files.length
    some ({ self with space := (self.space.pushNewFile.finishNewFile i).activate i }, i)
  else none

/-- `allocate_new_file_async`, up to the point where it waits. -/
def allocateNewFileAsync (self : Engine n) : Engine n :=
  { self with space := self.space.allocateNewFileAsync }

/-- A write waits for a new file; unless one is being allocated, the active file is sealed
and the allocation begins. -/
def queueForNewFile (self : Engine n) (req : QueuedWrite) : Engine n :=
  let self := { self with pendingWriteQueue := self.pendingWriteQueue ++ [req] }
  if self.space.allocatingNewFile then self else self.sealActiveFile.allocateNewFileAsync

/-! ### Submitting -/

/-- The entry of a write at the end of a file. -/
def entryFor (file : FileInfo) (req : QueuedWrite) : MemIndexEntry where
  key := req.key
  fileId := BitVec.ofNat 10 file.fileId
  offsetIndex := BitVec.ofNat 21 (file.writeOffset / kPageSize)
  deleted := req.isDelete
  sequence := req.sequence
  pageCount := req.pageCount
  tag := req.tag

/-- The context of a write at the end of a file. -/
def ctxFor (file : FileInfo) (req : QueuedWrite) : WriteCtx where
  key := req.key
  entry := entryFor file req
  isDelete := req.isDelete
  oldGarbageSize := req.oldGarbageSize
  key_eq := rfl
  deleted_eq := rfl

/-- `submit_queued_write`. -/
def submitQueuedWrite (i : ℕ) (self : Engine n) (req : QueuedWrite) : Engine n :=
  self.submitAt i req.alignedSize fun file => .queued (ctxFor file req)

/-- The writes that wait for a new file fail. -/
def failPendingWrites (self : Engine n) : Engine n × List WriteEffect :=
  ({ self with pendingWriteQueue := [] },
    (self.pendingWriteQueue.map QueuedWrite.op).map .failed)

/-- `process_pending_write_queue`: every write goes to the active file, whether it has room
or not. -/
def processPendingWriteQueue (self : Engine n) : Engine n × List WriteEffect :=
  match self.space.activeIndex with
  | some i =>
      if !(self.space.fileAt i).blobOpened then self.failPendingWrites
      else
        (self.pendingWriteQueue.foldl (submitQueuedWrite i) { self with pendingWriteQueue := [] },
          [])
  | none => self.failPendingWrites

/-- `on_new_file_allocated`. -/
def onNewFileAllocated (self : Engine n) (success : Bool) : Engine n × List WriteEffect :=
  let self := { self with space := self.space.onNewFileAllocated success }
  if success then self.processPendingWriteQueue else self.failPendingWrites

/-- `resume_allocation_after_checkpoint`. -/
def resumeAllocationAfterCheckpoint (self : Engine n) (ok : Bool) :
    Engine n × List WriteEffect :=
  let self := { self with space := { self.space with pendingCheckpointForAlloc := false } }
  if ok then (self.allocateNewFileAsync, [])
  else failPendingWrites { self with space := { self.space with allocatingNewFile := false } }

/-! ### Operations -/

/-- A sequence is given to an operation. -/
def allocateSequence (self : Engine n) : Engine n × UInt32 :=
  let (memIndex, seq) := self.memIndex.allocateSequence
  ({ self with memIndex := memIndex }, seq)

/-- `put_async`, for segments of the given lengths. -/
def putAsync (self : Engine n) (key : UInt64) (iovLens : List ℕ) :
    Engine n × List WriteEffect :=
  if self.state ≠ .kReady then (self, [])
  else
    match iovLens with
    | [] => (self, [])
    | first :: _ =>
        if first < kPageSize then (self, [])
        else
          let totalSize := iovLens.sum % 2 ^ 32
          let (self, seq) := self.allocateSequence
          let req : QueuedWrite :=
            ⟨key, totalSize, seq, UInt16.ofNat (totalSize / kPageSize), HashUtil.tag key,
              false, 0, true⟩
          match self.space.roomyFile totalSize with
          | some i =>
              if self.space.allocatingNewFile then (self.queueForNewFile req, [.issued req.op])
              else
                (self.submitAt i totalSize fun file => .putAsync (ctxFor file req) rfl,
                  [.issued req.op])
          | none => (self.queueForNewFile req, [.issued req.op])

/-- The size of a record without a value, a tombstone. -/
def tombstoneSize : ℕ := entrySize 0

/-- `delete_async`. -/
def deleteAsync (self : Engine n) (key : UInt64) : Engine n × List WriteEffect :=
  if self.state ≠ .kReady then (self, [])
  else
    match self.memIndex.findEntry key with
    | none => (self, [])
    | some existing =>
        let oldSize := existing.pageCount.toNat * kPageSize
        let (self, seq) := self.allocateSequence
        let req : QueuedWrite :=
          ⟨key, tombstoneSize, seq, UInt16.ofNat (tombstoneSize / kPageSize),
            HashUtil.tag key, true, oldSize, false⟩
        match self.space.roomyFile tombstoneSize with
        | some i =>
            if self.space.allocatingNewFile then (self.queueForNewFile req, [.issued req.op])
            else
              (self.submitAt i tombstoneSize fun _ => .deleteAsync key seq oldSize,
                [.issued req.op])
        | none => (self.queueForNewFile req, [.issued req.op])

/-- `buffer_pending_writes_[buffer].push_back(write)`. -/
def pushBuffered (buffer : ℕ) (write : BufferedPendingWrite) :
    List (ℕ × List BufferedPendingWrite) → List (ℕ × List BufferedPendingWrite)
  | [] => [(buffer, [write])]
  | (b, writes) :: rest =>
      if b = buffer then (b, writes ++ [write]) :: rest
      else (b, writes) :: pushBuffered buffer write rest

/-- A record whose slot in a buffer is reserved. -/
def placeBuffered (self : Engine n) (key : UInt64) (alignedSize : ℕ) (slot : ℕ × ℕ) :
    Engine n × List WriteEffect :=
  let (self, seq) := self.allocateSequence
  let write : BufferedPendingWrite :=
    ⟨key, seq, slot.2, alignedSize % 2 ^ 32, UInt16.ofNat (alignedSize / kPageSize),
      HashUtil.tag key⟩
  ({ self with
      bufferPendingWrites := pushBuffered slot.1 write self.bufferPendingWrites
      bufferManager :=
        if (self.bufferManager.buffers slot.1).isFull then
          self.bufferManager.submitCurrentBuffer
        else self.bufferManager },
    [.issued write.op])

/-- A record that goes to the wait queue. -/
def enqueueWait (self : Engine n) (key : UInt64) (alignedSize : ℕ) (error : KvError) :
    Engine n × List WriteEffect :=
  let (self, seq) := self.allocateSequence
  let wqe : QueuedWrite :=
    ⟨key, alignedSize % 2 ^ 32, seq, UInt16.ofNat (alignedSize / kPageSize),
      HashUtil.tag key, false, 0, false⟩
  ({ self with
      waitQueue := self.waitQueue ++ [wqe]
      bufferManager :=
        if error = .kBackpressure then self.bufferManager.registerResumeCallback
        else self.bufferManager },
    [.issued wqe.op])

/-- `put_buffered`, for a value of the given length. -/
def putBuffered (self : Engine n) (key : UInt64) (valueLen : ℕ) :
    Engine n × List WriteEffect :=
  if self.state ≠ .kReady then (self, [])
  else if valueLen = 0 then (self, [])
  else
    let alignedSize := entrySize valueLen
    let (bufferManager, slot) := self.bufferManager.reserveWithBackpressure alignedSize
    let self := { self with bufferManager := bufferManager }
    match slot with
    | .ok slot => self.placeBuffered key alignedSize slot
    | .error error =>
        if error = .kBackpressure then self.enqueueWait key alignedSize error
        else
          -- Buffer full but no backpressure: submit the buffer and retry
          let (bufferManager, slot) :=
            self.bufferManager.submitCurrentBuffer.reserveWithBackpressure alignedSize
          let self := { self with bufferManager := bufferManager }
          match slot with
          | .ok slot => self.placeBuffered key alignedSize slot
          | .error error => self.enqueueWait key alignedSize error

/-! ### Polling -/

/-- The writes of a buffer, `buffer_pending_writes_.find`. -/
def bufferedWrites (self : Engine n) (buffer : ℕ) : List BufferedPendingWrite :=
  ((self.bufferPendingWrites.find? fun p => p.1 == buffer).map Prod.snd).getD []

/-- `buffer_pending_writes_.erase` and `return_buffer`. -/
def releaseBuffer (self : Engine n) (buffer : ℕ) : Engine n :=
  { self with
    bufferPendingWrites := self.bufferPendingWrites.eraseP fun p => p.1 == buffer
    bufferManager := self.bufferManager.returnBuffer buffer }

/-- `submit_buffer_io`, once there is a file. -/
def submitBufferTo (self : Engine n) (i buffer : ℕ) : Engine n :=
  self.submitAt i (self.bufferManager.buffers buffer).used fun file =>
    .buffer buffer file.fileId (file.writeOffset / kPageSize)

/-- `submit_buffer_io`, if there is no file. -/
def failBuffer (self : Engine n) (buffer : ℕ) : Engine n × List WriteEffect :=
  (self.releaseBuffer buffer,
    ((self.bufferedWrites buffer).map BufferedPendingWrite.op).map .failed)

/-- The next buffer is taken from the submit ring. -/
def takeBuffer (self : Engine n) (rest : List ℕ) : Engine n :=
  { self with bufferManager := { self.bufferManager with submitRing := rest } }

/-- `submit_buffer_io` for the next buffer of the submit ring; `allocOk` tells whether a new
file can be allocated, should one be needed. -/
def submitBufferIo (self : Engine n) (allocOk : Bool) : Engine n × List WriteEffect :=
  match self.bufferManager.submitRing with
  | [] => (self, [])
  | buffer :: rest =>
      let self := self.takeBuffer rest
      let used := (self.bufferManager.buffers buffer).used
      if used = 0 then (self, [])
      else
        match self.space.roomyFile used with
        | some i => (self.submitBufferTo i buffer, [])
        | none =>
            match self.sealActiveFile.allocateNewFile allocOk with
            | some (self, i) => (self.submitBufferTo i buffer, [])
            | none => self.sealActiveFile.failBuffer buffer

/-- One turn of the loop of `process_wait_queue`. -/
def submitWaitQueueEntry (self : Engine n) (wqe : QueuedWrite) : Engine n :=
  match self.space.roomyFile wqe.alignedSize with
  | some i =>
      if self.space.allocatingNewFile then self.queueForNewFile wqe
      else self.submitAt i wqe.alignedSize fun file => .waitQueue (ctxFor file wqe)
  | none => self.queueForNewFile wqe

/-- `process_wait_queue`. -/
def processWaitQueue (self : Engine n) : Engine n :=
  if self.waitQueue.isEmpty then self
  else if self.bufferManager.backpressureActive then
    { self with bufferManager := self.bufferManager.registerResumeCallback }
  else self.waitQueue.foldl submitWaitQueueEntry { self with waitQueue := [] }

/-- `process_resume_notifications`. -/
def processResumeNotifications (self : Engine n) : Engine n :=
  let was := self.bufferManager.wasBackpressureActive
  let active := self.bufferManager.backpressureActive
  if !was && !active then self
  else
    let self :=
      if was && !active then
        processWaitQueue^[self.bufferManager.resumeCallbacks] { self with
          bufferManager := { self.bufferManager with resumeCallbacks := 0 } }
      else self
    { self with bufferManager := { self.bufferManager with wasBackpressureActive := active } }

/-! ### Completions -/

/-- The space of the entry of a key, if it has one, becomes garbage. -/
def markGarbage (self : Engine n) (key : UInt64) : Engine n :=
  match self.memIndex.findEntry key with
  | some existing =>
      { self with
        totalGarbageBytes := self.totalGarbageBytes + existing.pageCount.toNat * kPageSize }
  | none => self

/-- What the handlers do for a put. -/
def completePut (self : Engine n) (key : UInt64) (entry : MemIndexEntry) : Engine n :=
  let self := self.markGarbage key
  { self with memIndex := (self.memIndex.upsert key entry).1 }

/-- What the handlers do for a delete. -/
def completeDelete (self : Engine n) (key : UInt64) (oldGarbageSize : ℕ) : Engine n :=
  { self with
    memIndex := (self.memIndex.remove key).1
    totalGarbageBytes := self.totalGarbageBytes + oldGarbageSize }

/-- The call to the index of a context. -/
def ctxCall (ctx : WriteCtx) : IndexOp :=
  if ctx.isDelete then .remove ctx.key else .upsert ctx.entry

theorem ctxCall_performs (ctx : WriteCtx) : (ctxCall ctx).Performs ctx.op := by
  rw [ctxCall]
  split_ifs with h
  · exact ⟨h, rfl⟩
  · exact ⟨Bool.eq_false_iff.mpr h, ctx.key_eq, rfl,
      ctx.deleted_eq.trans (Bool.eq_false_iff.mpr h)⟩

/-- `on_queued_write_complete`, and the completion in `process_wait_queue`. -/
def onQueuedWriteComplete (self : Engine n) (ok : Bool) (ctx : WriteCtx) :
    Engine n × List WriteEffect :=
  if ok then
    (if ctx.isDelete then self.completeDelete ctx.key ctx.oldGarbageSize
      else self.completePut ctx.key ctx.entry,
      [.completed ⟨ctx.op, ctxCall ctx, ctxCall_performs ctx⟩])
  else (self, [.failed ctx.op])

/-- `on_put_async_write_complete`. -/
def onPutAsyncWriteComplete (self : Engine n) (ok : Bool) (ctx : WriteCtx)
    (isPut : ctx.isDelete = false) : Engine n × List WriteEffect :=
  if ok then
    (self.completePut ctx.key ctx.entry, [.completed ⟨ctx.op, .upsert ctx.entry,
      isPut, ctx.key_eq, rfl, ctx.deleted_eq.trans isPut⟩])
  else (self, [.failed ctx.op])

/-- The completion in `delete_async`. -/
def onDeleteAsyncComplete (self : Engine n) (ok : Bool) (key : UInt64) (sequence : UInt32)
    (oldSize : ℕ) : Engine n × List WriteEffect :=
  if ok then
    (self.completeDelete key oldSize,
      [.completed ⟨⟨key, sequence, true⟩, .remove key, rfl, rfl⟩])
  else (self, [.failed ⟨key, sequence, true⟩])

/-- The entry of a record in a buffer that was written to a file. -/
def bufferedEntry (fileId basePageOffset : ℕ) (w : BufferedPendingWrite) : MemIndexEntry where
  key := w.key
  fileId := BitVec.ofNat 10 fileId
  offsetIndex := BitVec.ofNat 21 (basePageOffset + w.bufferOffset / kPageSize)
  deleted := false
  sequence := w.sequence
  pageCount := w.pageCount
  tag := w.tag

/-- One turn of the loop of `on_buffer_io_complete`. -/
def completeBuffered (fileId basePageOffset : ℕ) (ok : Bool)
    (r : Engine n × List WriteEffect) (w : BufferedPendingWrite) :
    Engine n × List WriteEffect :=
  if ok then
    (r.1.completePut w.key (bufferedEntry fileId basePageOffset w),
      r.2 ++ [.completed ⟨w.op, .upsert (bufferedEntry fileId basePageOffset w),
        rfl, rfl, rfl, rfl⟩])
  else (r.1, r.2 ++ [.failed w.op])

/-- `on_buffer_io_complete`. -/
def onBufferIoComplete (self : Engine n) (ok : Bool) (buffer fileId basePageOffset : ℕ) :
    Engine n × List WriteEffect :=
  let r := (self.bufferedWrites buffer).foldl (completeBuffered fileId basePageOffset ok)
    (self, [])
  (r.1.releaseBuffer buffer, r.2)

/-- The handler of a completion. -/
def onComplete (self : Engine n) (ok : Bool) : InflightWrite → Engine n × List WriteEffect
  | .queued ctx => self.onQueuedWriteComplete ok ctx
  | .putAsync ctx isPut => self.onPutAsyncWriteComplete ok ctx isPut
  | .deleteAsync key sequence oldSize => self.onDeleteAsyncComplete ok key sequence oldSize
  | .buffer buffer fileId basePageOffset =>
      self.onBufferIoComplete ok buffer fileId basePageOffset
  | .waitQueue ctx => self.onQueuedWriteComplete ok ctx

/-- **What the handlers keep**: whatever index calls and a released buffer leave alone. -/
theorem onComplete_keeps {α : Type*} {f : Engine n → α}
    (hput : ∀ e key entry, f (completePut e key entry) = f e)
    (hdel : ∀ e key size, f (completeDelete e key size) = f e)
    (hrelease : ∀ e buffer, f (releaseBuffer e buffer) = f e)
    (self : Engine n) (ok : Bool) (write : InflightWrite) :
    f (self.onComplete ok write).1 = f self := by
  have hqueued : ∀ ctx : WriteCtx, f (self.onQueuedWriteComplete ok ctx).1 = f self := by
    intro ctx
    rw [onQueuedWriteComplete]
    split_ifs
    · exact hdel self _ _
    · exact hput self _ _
    · rfl
  cases write with
  | queued ctx => exact hqueued ctx
  | waitQueue ctx => exact hqueued ctx
  | putAsync ctx isPut =>
      rw [onComplete, onPutAsyncWriteComplete]
      split_ifs
      · exact hput self _ _
      · rfl
  | deleteAsync key sequence oldSize =>
      rw [onComplete, onDeleteAsyncComplete]
      split_ifs
      · exact hdel self _ _
      · rfl
  | buffer buffer fileId base =>
      have hloop : ∀ (ws : List BufferedPendingWrite) (r : Engine n × List WriteEffect),
          f (ws.foldl (completeBuffered fileId base ok) r).1 = f r.1 := by
        intro ws
        induction ws with
        | nil => exact fun _ => rfl
        | cons w ws ih =>
            intro r
            rw [List.foldl_cons, ih, completeBuffered]
            split_ifs
            · exact hput r.1 _ _
            · rfl
      exact (hrelease _ buffer).trans (hloop _ _)

/-- The completion of one of the writes in flight. -/
def completeInflight (self : Engine n) (i : ℕ) (ok : Bool) :
    Option (Engine n × List WriteEffect) :=
  self.space.inflight[i]?.map fun io =>
    onComplete { self with
      space := self.space.eraseInflight i
      pendingForegroundCount := self.pendingForegroundCount - 1 } ok io.write

end Engine

end SpdkKv
