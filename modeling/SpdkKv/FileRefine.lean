import SpdkKv.RecordPlaces

/-!
# The Engine as a Store of Files

What an event of the engine does to the data files, as acts of the store of append-only
files; everything that the engine does to its files is such acts.

## Main results

* `Engine.run_acts`: the acts of an event of the asynchronous part.
* `EngineSystem.run_acts`: **every event of the engine is its acts**, as far as the files
  are concerned.
* `engine_refines`: so an invariant of the store holds in every run of the engine.
-/

namespace SpdkKv

variable {n : ℕ}

/-! ### The acts of the asynchronous part -/

namespace FileSpace

variable {W : Type}

/-- The active file is sealed. -/
def sealActs (self : FileSpace W) : List (FileAct W) :=
  match self.activeIndex with
  | some i => [.mark i .kSealed]
  | none => []

/-- `allocate_new_file_async`. -/
def allocateActs (self : FileSpace W) : List (FileAct W) :=
  if self.allocLogNearFull && !self.pendingCheckpointForAlloc then
    [.flags true true self.allocLogNearFull]
  else [.beginAsync]

/-- A write waits for a new file. -/
def queueActs (self : FileSpace W) : List (FileAct W) :=
  if self.allocatingNewFile then [] else self.sealActs ++ self.allocateActs

/-- A write goes to the active file, or waits for a new one. -/
def placeActs (self : FileSpace W) (size : ℕ) (write : FileInfo → W) : List (FileAct W) :=
  match self.roomyFile size with
  | some _ => if self.allocatingNewFile then self.queueActs else [.submit size write]
  | none => self.queueActs

end FileSpace

namespace Engine

/-- `put_async`. -/
def putAsyncActs (self : Engine n) (key : UInt64) (iovLens : List ℕ) :
    List (FileAct InflightWrite) :=
  if self.state ≠ .kReady then []
  else
    match iovLens with
    | [] => []
    | first :: _ =>
        if first < kPageSize then []
        else
          let totalSize := iovLens.sum % 2 ^ 32
          let req : QueuedWrite :=
            ⟨key, totalSize, self.allocateSequence.2, UInt16.ofNat (totalSize / kPageSize),
              HashUtil.tag key, false, 0, true⟩
          self.space.placeActs totalSize fun file => .putAsync (ctxFor file req) rfl

/-- `delete_async`. -/
def deleteAsyncActs (self : Engine n) (key : UInt64) : List (FileAct InflightWrite) :=
  if self.state ≠ .kReady then []
  else
    match self.memIndex.findEntry key with
    | none => []
    | some existing =>
        self.space.placeActs tombstoneSize fun _ =>
          .deleteAsync key self.allocateSequence.2 (existing.pageCount.toNat * kPageSize)

/-- The loop of `process_wait_queue`. -/
def waitQueueActs (self : Engine n) : List QueuedWrite → List (FileAct InflightWrite)
  | [] => []
  | wqe :: queue =>
      (self.space.placeActs wqe.alignedSize fun file => .waitQueue (ctxFor file wqe)) ++
        waitQueueActs (self.submitWaitQueueEntry wqe) queue

/-- `process_wait_queue`. -/
def processWaitQueueActs (self : Engine n) : List (FileAct InflightWrite) :=
  if self.waitQueue.isEmpty then []
  else if self.bufferManager.backpressureActive then []
  else waitQueueActs { self with waitQueue := [] } self.waitQueue

/-- The resume callbacks. -/
def resumeActs (self : Engine n) : ℕ → List (FileAct InflightWrite)
  | 0 => []
  | k + 1 => self.processWaitQueueActs ++ resumeActs self.processWaitQueue k

/-- `process_pending_write_queue`. -/
def drainActs (self : Engine n) : List (FileAct InflightWrite) :=
  match self.space.activeIndex with
  | some i =>
      if !(self.space.fileAt i).blobOpened then []
      else self.pendingWriteQueue.map fun req =>
        .drain req.alignedSize fun file => .queued (ctxFor file req)
  | none => []

/-- The acts of an event. -/
def acts (self : Engine n) : AsyncEvent → List (FileAct InflightWrite)
  | .putAsync key iovLens => self.putAsyncActs key iovLens
  | .putBuffered _ _ => []
  | .deleteAsync key => self.deleteAsyncActs key
  | .complete i ok =>
      [.complete i (if ok then
        ((self.space.inflight[i]?.map self.placed).getD []).map PlacedRecord.range else [])]
  | .flush => []
  | .submitBuffer _ => []
  | .resume =>
      if self.bufferManager.wasBackpressureActive && !self.bufferManager.backpressureActive then
        resumeActs { self with bufferManager := { self.bufferManager with resumeCallbacks := 0 } }
          self.bufferManager.resumeCallbacks
      else []
  | .processWaitQueue =>
      if self.bufferManager.backpressureActive then [] else self.processWaitQueueActs
  | .newFileAllocated success =>
      .endAsync success ::
        if success then
          drainActs { self with space := self.space.onNewFileAllocated success }
        else []
  | .checkpointForAlloc ok =>
      if ok then
        .flags self.space.allocatingNewFile false self.space.allocLogNearFull ::
          FileSpace.allocateActs { self.space with pendingCheckpointForAlloc := false }
      else [.flags false false self.space.allocLogNearFull]
  | .allocLog nearFull =>
      [.flags self.space.allocatingNewFile self.space.pendingCheckpointForAlloc nearFull]

end Engine

/-! ### They are what the methods do -/

namespace FileSpace

variable {W : Type} {st : FileStore W}

/-- The first act leads to the store on which the others run. -/
theorem run_cons {st t : FileStore W} {act : FileAct W} {acts : List (FileAct W)}
    (h : st.act act = some t) :
    (fileMachine W).run st (act :: acts) = (fileMachine W).run t acts := by
  rw [Machine.run, show (fileMachine W).step st act = some t from h]
  rfl

theorem act_complete (st : FileStore W) {i : ℕ} {io : InflightIo W} {ranges : List BlobRange}
    (hio : st.space.inflight[i]? = some io) (hsplits : io.range.Splits ranges)
    (hstop : ranges ≠ [] → io.range.stop ≤ st.blobSize) :
    st.act (.complete i ranges) = some { st with
      space := st.space.eraseInflight i
      records := st.records ++ ranges } := by
  rw [FileStore.act, hio]
  exact if_pos ⟨hsplits, hstop⟩

theorem run_sealActs (self : FileSpace W) (st : FileStore W) :
    (fileMachine W).run { st with space := self } self.sealActs =
      some { st with space := self.sealActiveFile } := by
  rw [sealActs, sealActiveFile]
  cases self.activeIndex <;> rfl

theorem run_allocateActs (self : FileSpace W) (st : FileStore W) :
    (fileMachine W).run { st with space := self } self.allocateActs =
      some { st with space := self.allocateNewFileAsync } := by
  rw [allocateActs, allocateNewFileAsync]
  split_ifs <;> rfl

/-- Sealing does not touch what decides about an allocation. -/
theorem allocateActs_sealActiveFile (self : FileSpace W) :
    self.sealActiveFile.allocateActs = self.allocateActs := by
  rw [sealActiveFile]
  cases self.activeIndex <;> rfl

end FileSpace

namespace Engine

variable (st : FileStore InflightWrite)

theorem run_queueActs (self : Engine n) (req : QueuedWrite) :
    (fileMachine _).run { st with space := self.space } self.space.queueActs =
      some { st with space := (self.queueForNewFile req).space } := by
  rw [FileSpace.queueActs, queueForNewFile]
  dsimp only
  split_ifs
  · rfl
  · rw [Machine.run_append, FileSpace.run_sealActs, Option.bind_some,
      ← FileSpace.allocateActs_sealActiveFile, FileSpace.run_allocateActs]
    rfl

/-- A write goes to the active file, or waits for a new one. -/
theorem run_placeActs (self : Engine n) (size : ℕ) (write : FileInfo → InflightWrite)
    (req : QueuedWrite) :
    (fileMachine _).run { st with space := self.space } (self.space.placeActs size write) =
      some { st with space := (match self.space.roomyFile size with
        | some i =>
            if self.space.allocatingNewFile then self.queueForNewFile req
            else self.submitAt i size write
        | none => self.queueForNewFile req).space } := by
  rw [FileSpace.placeActs]
  cases hroom : self.space.roomyFile size with
  | none => exact run_queueActs st self req
  | some i =>
      dsimp only
      split_ifs
      · exact run_queueActs st self req
      · rw [FileSpace.run_cons (t := { st with space := self.space.submitAt i size write })]
        · rfl
        · change (self.space.roomyFile size).map _ = _
          rw [hroom]
          rfl

theorem run_putAsyncActs (self : Engine n) (key : UInt64) (iovLens : List ℕ) :
    (fileMachine _).run { st with space := self.space } (self.putAsyncActs key iovLens) =
      some { st with space := (self.putAsync key iovLens).1.space } := by
  rw [putAsyncActs.eq_def, putAsync.eq_def]
  by_cases hready : self.state ≠ .kReady
  · rw [if_pos hready, if_pos hready]
    rfl
  · rw [if_neg hready, if_neg hready]
    cases iovLens with
    | nil => rfl
    | cons first rest =>
        by_cases hpage : first < kPageSize
        · simp only [if_pos hpage]
          rfl
        · simp only [if_neg hpage]
          refine (run_placeActs st self.allocateSequence.1 _ _ ⟨key,
            (first :: rest).sum % 2 ^ 32, self.allocateSequence.2,
            UInt16.ofNat ((first :: rest).sum % 2 ^ 32 / kPageSize), HashUtil.tag key, false, 0,
            true⟩).trans ?_
          cases self.allocateSequence.1.space.roomyFile ((first :: rest).sum % 2 ^ 32) with
          | none => rfl
          | some i =>
              dsimp only
              split_ifs <;> rfl

theorem run_deleteAsyncActs (self : Engine n) (key : UInt64) :
    (fileMachine _).run { st with space := self.space } (self.deleteAsyncActs key) =
      some { st with space := (self.deleteAsync key).1.space } := by
  rw [deleteAsyncActs, deleteAsync]
  by_cases hready : self.state ≠ .kReady
  · rw [if_pos hready, if_pos hready]
    rfl
  · rw [if_neg hready, if_neg hready]
    cases self.memIndex.findEntry key with
    | none => rfl
    | some existing =>
        refine (run_placeActs st self.allocateSequence.1 _ _ ⟨key, tombstoneSize,
          self.allocateSequence.2, UInt16.ofNat (tombstoneSize / kPageSize), HashUtil.tag key,
          true, existing.pageCount.toNat * kPageSize, false⟩).trans ?_
        dsimp only
        cases self.allocateSequence.1.space.roomyFile tombstoneSize with
        | none => rfl
        | some i =>
            dsimp only
            split_ifs <;> rfl

theorem run_waitQueueActs (queue : List QueuedWrite) (self : Engine n) :
    (fileMachine _).run { st with space := self.space } (self.waitQueueActs queue) =
      some { st with space := (queue.foldl submitWaitQueueEntry self).space } := by
  induction queue generalizing self with
  | nil => rfl
  | cons wqe queue ih =>
      rw [waitQueueActs, Machine.run_append, run_placeActs st self _ _ wqe]
      exact ih (self.submitWaitQueueEntry wqe)

theorem run_processWaitQueueActs (self : Engine n) :
    (fileMachine _).run { st with space := self.space } self.processWaitQueueActs =
      some { st with space := self.processWaitQueue.space } := by
  rw [processWaitQueueActs, processWaitQueue]
  split_ifs
  · rfl
  · rfl
  · exact run_waitQueueActs st _ { self with waitQueue := [] }

theorem run_resumeActs (k : ℕ) (self : Engine n) :
    (fileMachine _).run { st with space := self.space } (self.resumeActs k) =
      some { st with space := (processWaitQueue^[k] self).space } := by
  induction k generalizing self with
  | zero => rfl
  | succ k ih =>
      rw [resumeActs, Machine.run_append, run_processWaitQueueActs]
      exact ih self.processWaitQueue

/-! ### The queue of writes behind an allocation -/

theorem run_drainActs (self : Engine n) :
    (fileMachine _).run { st with space := self.space } self.drainActs =
      some { st with space := self.processPendingWriteQueue.1.space } := by
  have hloop : ∀ (i : ℕ) (queue : List QueuedWrite) (e : Engine n),
      e.space.activeIndex = some i → (e.space.fileAt i).blobOpened = true →
      (fileMachine _).run { st with space := e.space } (queue.map fun req =>
        .drain req.alignedSize fun file => .queued (ctxFor file req)) =
      some { st with space := (queue.foldl (submitQueuedWrite i) e).space } := by
    intro i queue
    induction queue with
    | nil => exact fun _ _ _ => rfl
    | cons req queue ih =>
        intro e hactive hopened
        have hfile : (e.submitQueuedWrite i req).space.fileAt i =
            (e.space.fileAt i).grow req.alignedSize :=
          (e.space.fileAt_modifyFile i i _ (FileSpace.activeIndex_lt hactive)).trans
            (if_pos rfl)
        rw [List.map_cons, FileSpace.run_cons
          (t := { st with space := (e.submitQueuedWrite i req).space })]
        · refine ih _ ?_ ?_
          · rw [← hactive]
            exact e.space.activeIndex_submitAt _ _ _
          · rw [hfile]
            exact hopened
        · change (e.space.activeIndex.filter fun i => (e.space.fileAt i).blobOpened).map _ = _
          simp only [hactive, Option.filter_some, hopened, if_true, Option.map_some]
          rfl
  rw [drainActs, processPendingWriteQueue]
  cases hactive : self.space.activeIndex with
  | none => rfl
  | some i =>
      dsimp only
      cases hopened : (self.space.fileAt i).blobOpened with
      | false => rfl
      | true => exact hloop i _ { self with pendingWriteQueue := [] } hactive hopened

/-! ### Completions -/

theorem completePut_space (self : Engine n) (key : UInt64) (entry : MemIndexEntry) :
    (self.completePut key entry).space = self.space := by
  rw [completePut, markGarbage]
  split <;> rfl

/-- The handlers of completions leave the files alone. -/
theorem onComplete_space (self : Engine n) (ok : Bool) (w : InflightWrite) :
    (self.onComplete ok w).1.space = self.space :=
  onComplete_keeps completePut_space (fun _ _ _ => rfl) (fun _ _ => rfl) self ok w

/-- A `put` or `del` takes its space at the end. -/
theorem endSync_space (self : Engine n) (w : SyncWrite) :
    (self.endSync w true).1.space =
      self.space.modifyFile w.place fun file => file.grow w.req.alignedSize := by
  rw [endSync, if_pos rfl]
  dsimp only
  split_ifs
  · rfl
  · rw [completePut_space]

/-- The records of a write in flight lie in its range. -/
theorem placed_splits {self : Engine n} {out : Multiset ℕ} (h : self.Sound out)
    {io : InflightIo InflightWrite} (hio : io ∈ self.space.inflight) :
    io.range.Splits ((self.placed io).map PlacedRecord.range) := by
  have hself : io.range.Splits [io.range] := by
    refine ⟨fun q hq => ?_, List.pairwise_singleton _ _⟩
    rw [List.mem_singleton.mp hq]
    exact ⟨rfl, le_rfl, le_rfl⟩
  have hnarrow := h.inflight io hio
  obtain ⟨write, range⟩ := io
  cases write with
  | queued ctx => exact hself
  | putAsync ctx isPut => exact hself
  | deleteAsync key sequence old => exact hself
  | waitQueue ctx => exact hself
  | buffer b fileId base =>
      obtain ⟨-, -, hused⟩ := hnarrow
      have hlaid := (h.buffers.buffer b).laid
      rw [placed, List.map_map]
      constructor
      · intro q hq
        obtain ⟨w, hw, rfl⟩ := List.mem_map.mp hq
        have hstop := hlaid.stop_le w hw
        rw [hused] at hstop
        refine ⟨rfl, Nat.le_add_right _ _, ?_⟩
        simp only [BufferedPendingWrite.stop, Function.comp_apply, BufferedPendingWrite.range,
          BlobRange.stop] at hstop ⊢
        omega
      · refine List.pairwise_map.mpr (hlaid.ordered.imp fun {w w'} hle _ => .inl ?_)
        simp only [BufferedPendingWrite.stop, Function.comp_apply, BufferedPendingWrite.range,
          BlobRange.stop] at hle ⊢
        omega

theorem putBuffered_space (self : Engine n) (key : UInt64) (valueLen : ℕ) :
    (self.putBuffered key valueLen).1.space = self.space := by
  rw [putBuffered]
  split_ifs
  · rfl
  · rfl
  · dsimp only
    split
    · rfl
    · split_ifs
      · rfl
      · split <;> rfl

theorem run_resumeNotificationsActs (self : Engine n) :
    (fileMachine _).run { st with space := self.space } (self.acts .resume) =
      some { st with space := self.processResumeNotifications.space } := by
  rw [acts, processResumeNotifications]
  cases self.bufferManager.wasBackpressureActive <;>
    cases self.bufferManager.backpressureActive
  · rfl
  · rfl
  · exact run_resumeActs st _ { self with
      bufferManager := { self.bufferManager with resumeCallbacks := 0 } }
  · rfl

theorem run_newFileAllocatedActs (self : Engine n) (success : Bool)
    (hnew : self.space.newFile.isSome) :
    (fileMachine _).run { st with space := self.space } (self.acts (.newFileAllocated success)) =
      some { st with space := (self.onNewFileAllocated success).1.space } := by
  obtain ⟨i, hi⟩ := Option.isSome_iff_exists.mp hnew
  rw [acts, onNewFileAllocated, FileSpace.run_cons
    (t := { st with space := self.space.onNewFileAllocated success })]
  · cases success with
    | false => rfl
    | true => exact run_drainActs st { self with space := self.space.onNewFileAllocated true }
  · change self.space.newFile.map _ = _
    rw [hi]
    rfl

theorem run_checkpointForAllocActs (self : Engine n) (ok : Bool) :
    (fileMachine _).run { st with space := self.space } (self.acts (.checkpointForAlloc ok)) =
      some { st with space := (self.resumeAllocationAfterCheckpoint ok).1.space } := by
  rw [acts, resumeAllocationAfterCheckpoint]
  cases ok with
  | false => rfl
  | true =>
      exact FileSpace.run_allocateActs { self.space with pendingCheckpointForAlloc := false } st

end Engine

/-! ### The acts of the engine -/

/-- What `allocate_new_file` was called for. -/
def AllocCaller.use (self : Engine n) : AllocCaller → FileUse InflightWrite
  | .sync r => .sync r.alignedSize
  | .buffer b =>
      .buffer (self.bufferManager.buffers b).used fun file =>
        .buffer b file.fileId (file.writeOffset / kPageSize)
  | .compaction source => .compaction source

namespace EngineSystem

/-- What the store of files sees of the engine. -/
def view (self : EngineSystem n) : FileStore InflightWrite where
  space := self.engine.space
  allocs := self.stack.filterMap Frame.place?
  waits := self.stack.filterMap Frame.wait?
  runs := self.runs
  records := self.records.map PlacedRecord.range
  copies := self.copies
  writing := self.writing
  persisted := self.persisted
  blobPages := self.blobPages

/-- `allocate_new_file` is called. -/
def allocateActs (self : EngineSystem n) : List (FileAct InflightWrite) :=
  if self.engine.space.allocLogNearFull then [] else [.beginAlloc]

/-- `put` and `del`. -/
def callSyncActs (self : EngineSystem n) :
    Except KvError SyncRequest → List (FileAct InflightWrite)
  | .error _ => []
  | .ok r =>
      match self.engine.space.roomyFile r.alignedSize with
      | some _ => [.wait r.alignedSize]
      | none => self.engine.space.sealActs ++ self.allocateActs

/-- `submit_buffer_io`. -/
def callSubmitBufferActs (self : EngineSystem n) : List (FileAct InflightWrite) :=
  match self.engine.bufferManager.submitRing with
  | [] => []
  | buffer :: _ =>
      let used := (self.engine.bufferManager.buffers buffer).used
      if used = 0 then []
      else
        match self.engine.space.roomyFile used with
        | some _ =>
            [.submit used fun file => .buffer buffer file.fileId (file.writeOffset / kPageSize)]
        | none => self.engine.space.sealActs ++ self.allocateActs

/-- The innermost call that waits goes on. -/
def wakeActs (self : EngineSystem n) (ok : Bool) : List (FileAct InflightWrite) :=
  match self.stack with
  | [] => []
  | .reclaiming _ :: _ => [.beginAlloc]
  | .allocating _ caller :: _ =>
      if ok then [.endAlloc (caller.use self.engine)] else [.failAlloc]
  | .writing _ :: _ => [.endWait ok]

/-- The acts of an event. -/
def acts (self : EngineSystem n) : EngineEvent n → List (FileAct InflightWrite)
  | .async ev => self.engine.acts ev
  | .put key valueLen => self.callSyncActs (self.engine.putRequest key valueLen)
  | .del key => self.callSyncActs (self.engine.delRequest key)
  | .submitBuffer => self.callSubmitBufferActs
  | .compact _ => self.allocateActs
  | .wake ok => self.wakeActs ok
  | .markSource k compacting =>
      match self.runs[k]? with
      | some run => [.mark run.source (if compacting then .kCompacting else .kSealed)]
      | none => []
  | .migrate k size ok => [.migrate k size ok]
  | .discard k => [.discard k]
  | .startCheckpoint => []
  | .updateSuperblock =>
      [.updateSuperblock self.position self.engine.totalDataBytes self.engine.totalGarbageBytes]
  | .superblockWritten ok => [.superblockWritten ok]
  | .close ok =>
      [.updateSuperblock none self.engine.totalDataBytes self.engine.totalGarbageBytes,
        .superblockWritten ok]
  | .reopen _ logged => [.reopen logged]

/-! ### Every event is its acts -/

variable {s : EngineSystem n}

theorem view_withEngine (s : EngineSystem n) (engine : Engine n) (records : List PlacedRecord) :
    view { s with engine := engine, records := records } =
      { s.view with space := engine.space, records := records.map PlacedRecord.range } := rfl

/-- **The acts of an event of the asynchronous part.** -/
theorem run_asyncActs (h : s.Sound) {ev : AsyncEvent} {s' : EngineSystem n}
    (hs : s.step (.async ev) = some s') :
    (fileMachine _).run s.view (s.engine.acts ev) = some s'.view := by
  obtain ⟨hcan, r, hr, rfl⟩ := step_async hs
  -- Only completions report records.
  have hquiet : s.reported ev = [] → (fileMachine _).run s.view (s.engine.acts ev) =
      some { s.view with space := r.1.space } → (fileMachine _).run s.view (s.engine.acts ev) =
      some (view { s with engine := r.1, records := s.records ++ s.reported ev }) := by
    intro hnone hrun
    rw [hrun, hnone, List.append_nil]
    rfl
  cases ev with
  | putAsync key iovLens =>
      obtain rfl := Option.some.inj hr
      exact hquiet rfl (Engine.run_putAsyncActs s.view s.engine key iovLens)
  | putBuffered key valueLen =>
      obtain rfl := Option.some.inj hr
      refine hquiet rfl ?_
      rw [Engine.putBuffered_space]
      rfl
  | deleteAsync key =>
      obtain rfl := Option.some.inj hr
      exact hquiet rfl (Engine.run_deleteAsyncActs s.view s.engine key)
  | complete i ok =>
      obtain ⟨io, hio, rfl⟩ := Option.map_eq_some_iff.mp hr
      have hsplits := Engine.placed_splits h.engine (List.mem_of_getElem? hio)
      cases ok with
      | false =>
          refine hquiet rfl ?_
          rw [Engine.onComplete_space]
          refine (FileSpace.run_cons (FileSpace.act_complete s.view hio ⟨by simp, .nil⟩
            fun hne => absurd rfl hne)).trans ?_
          rw [List.append_nil]
          rfl
      | true =>
          have hcan : io.range.stop ≤ s.blobSize := by
            rw [canSucceed, hio] at hcan
            exact of_decide_eq_true hcan
          rw [show s.engine.acts (.complete i true) = [.complete i
            ((s.engine.placed io).map PlacedRecord.range)] by
              rw [Engine.acts, hio]
              rfl]
          refine (FileSpace.run_cons (FileSpace.act_complete s.view hio hsplits fun _ =>
            hcan)).trans (congrArg some ((view_withEngine s _ _).trans ?_).symm)
          rw [Engine.onComplete_space, reported, hio, List.map_append]
          rfl
  | flush =>
      obtain rfl := Option.some.inj hr
      exact hquiet rfl rfl
  | submitBuffer allocOk => cases hcan
  | resume =>
      obtain rfl := Option.some.inj hr
      exact hquiet rfl (Engine.run_resumeNotificationsActs s.view s.engine)
  | processWaitQueue =>
      obtain rfl := Option.some.inj hr
      refine hquiet rfl ?_
      rw [Engine.acts]
      dsimp only
      split_ifs
      · rfl
      · exact Engine.run_processWaitQueueActs s.view s.engine
  | newFileAllocated success =>
      obtain ⟨hnew, hr⟩ := Option.ite_none_right_eq_some.mp hr
      obtain rfl := Option.some.inj hr
      exact hquiet rfl (Engine.run_newFileAllocatedActs s.view s.engine success hnew)
  | checkpointForAlloc ok =>
      obtain ⟨-, hr⟩ := Option.ite_none_right_eq_some.mp hr
      obtain rfl := Option.some.inj hr
      exact hquiet rfl (Engine.run_checkpointForAllocActs s.view s.engine ok)
  | allocLog nearFull =>
      obtain rfl := Option.some.inj hr
      exact hquiet rfl rfl

theorem run_allocateActs (s : EngineSystem n) (caller : AllocCaller) :
    (fileMachine _).run s.view s.allocateActs = some (s.allocateNewFile caller).view := by
  rw [allocateActs, allocateNewFile]
  split_ifs <;> rfl

theorem run_sealAndAllocateActs (s : EngineSystem n) (caller : AllocCaller) :
    (fileMachine _).run s.view (s.engine.space.sealActs ++ s.allocateActs) =
      some (s.sealAndAllocate caller).view := by
  have hacts : s.allocateActs =
      allocateActs { s with engine := s.engine.sealActiveFile } := by
    rw [allocateActs, allocateActs, Engine.sealActiveFile, FileSpace.sealActiveFile]
    cases s.engine.space.activeIndex <;> rfl
  rw [Machine.run_append, show s.view = { s.view with space := s.engine.space } from rfl,
    FileSpace.run_sealActs, hacts]
  exact run_allocateActs { s with engine := s.engine.sealActiveFile } caller

theorem run_callSyncActs (s : EngineSystem n) (r : Except KvError SyncRequest) :
    (fileMachine _).run s.view (s.callSyncActs r) = some (s.callSync r).view := by
  cases r with
  | error error => rfl
  | ok r =>
      rw [callSyncActs, callSync]
      cases hroom : s.engine.space.roomyFile r.alignedSize with
      | none => exact s.run_sealAndAllocateActs (.sync r)
      | some i =>
          refine (FileSpace.run_cons (t := (s.startSync i r).view) ?_).trans rfl
          change (s.engine.space.roomyFile r.alignedSize).map _ = _
          rw [hroom]
          rfl

theorem run_callSubmitBufferActs (s : EngineSystem n) :
    (fileMachine _).run s.view s.callSubmitBufferActs = some s.callSubmitBuffer.view := by
  rw [callSubmitBufferActs, callSubmitBuffer]
  cases hring : s.engine.bufferManager.submitRing with
  | nil => rfl
  | cons b rest =>
      dsimp only
      by_cases hused : (s.engine.bufferManager.buffers b).used = 0
      · rw [if_pos hused, if_pos (show ((s.engine.takeBuffer rest).bufferManager.buffers b).used =
          0 from hused)]
        rfl
      · rw [if_neg hused, if_neg (show ¬ ((s.engine.takeBuffer rest).bufferManager.buffers b).used =
          0 from hused)]
        cases hroom : s.engine.space.roomyFile (s.engine.bufferManager.buffers b).used with
        | none =>
            rw [show (Engine.takeBuffer s.engine rest).space.roomyFile
              ((s.engine.takeBuffer rest).bufferManager.buffers b).used = none from hroom]
            exact run_sealAndAllocateActs { s with engine := s.engine.takeBuffer rest } (.buffer b)
        | some i =>
            rw [show (Engine.takeBuffer s.engine rest).space.roomyFile
              ((s.engine.takeBuffer rest).bufferManager.buffers b).used = some i from hroom]
            refine (FileSpace.run_cons (t := view { s with
              engine := (s.engine.takeBuffer rest).submitBufferTo i b }) ?_).trans rfl
            change (s.engine.space.roomyFile (s.engine.bufferManager.buffers b).used).map _ = _
            rw [hroom]
            rfl

theorem run_wakeActs {ok : Bool} {s' : EngineSystem n} (hs : s.wake ok = some s') :
    (fileMachine _).run s.view (s.wakeActs ok) = some s'.view := by
  obtain ⟨engine, stack, runs, position, writing, persisted, records, copies, blobPages⟩ := s
  cases stack with
  | nil => cases hs
  | cons frame rest =>
      cases frame with
      | reclaiming caller =>
          obtain rfl := Option.some.inj hs
          rfl
      | allocating i caller =>
          cases ok with
          | false =>
              obtain rfl := Option.some.inj hs
              cases caller <;> rfl
          | true =>
              obtain rfl := Option.some.inj hs
              cases caller <;> rfl
      | writing w =>
          obtain ⟨hstop, hs⟩ := Option.ite_none_left_eq_some.mp hs
          obtain rfl := Option.some.inj hs
          cases ok with
          | false => rfl
          | true =>
              have hfits : w.range.stop ≤ blobPages * kPageSize :=
                not_lt.mp fun hlt => hstop (decide_eq_true hlt)
              have hspace := engine.endSync_space w
              refine (Machine.run_singleton _ _ _).trans ((if_pos hfits).trans (congrArg some ?_))
              simp only [view, hspace, if_true, List.map_append]
              rfl

theorem run_acts (h : s.Sound) {ev : EngineEvent n} {s' : EngineSystem n}
    (hs : s.step ev = some s') : (fileMachine _).run s.view (s.acts ev) = some s'.view := by
  cases ev with
  | async ev => exact run_asyncActs h hs
  | put key valueLen =>
      obtain rfl := Option.some.inj hs
      exact s.run_callSyncActs _
  | del key =>
      obtain rfl := Option.some.inj hs
      exact s.run_callSyncActs _
  | submitBuffer =>
      obtain rfl := Option.some.inj hs
      exact s.run_callSubmitBufferActs
  | compact source =>
      obtain ⟨-, hs⟩ := Option.ite_none_right_eq_some.mp hs
      obtain rfl := Option.some.inj hs
      exact s.run_allocateActs (.compaction source)
  | wake ok => exact run_wakeActs hs
  | markSource k compacting =>
      obtain ⟨run, hrun, rfl⟩ := Option.map_eq_some_iff.mp hs
      rw [acts, hrun]
      rfl
  | migrate k size ok =>
      obtain ⟨run, hrun, hs⟩ := Option.bind_eq_some_iff.mp hs
      refine (Machine.run_singleton _ _ _).trans ?_
      change s.runs[k]?.bind _ = _
      rw [hrun, Option.bind_some]
      cases ok with
      | false =>
          obtain rfl := Option.some.inj hs
          rfl
      | true =>
          obtain ⟨hstop, hs⟩ := Option.ite_none_right_eq_some.mp hs
          obtain rfl := Option.some.inj hs
          exact if_pos hstop
  | discard k =>
      obtain ⟨run, hrun, rfl⟩ := Option.map_eq_some_iff.mp hs
      refine (Machine.run_singleton _ _ _).trans ?_
      change s.runs[k]?.map _ = _
      rw [hrun]
      rfl
  | startCheckpoint =>
      obtain rfl := Option.some.inj hs
      rfl
  | updateSuperblock =>
      obtain rfl := Option.some.inj hs
      rfl
  | superblockWritten ok =>
      obtain ⟨superblock, hwriting, rfl⟩ := Option.map_eq_some_iff.mp hs
      refine (Machine.run_singleton _ _ _).trans ?_
      change s.writing.map _ = _
      rw [hwriting]
      rfl
  | close ok =>
      obtain ⟨-, hs⟩ := Option.ite_none_right_eq_some.mp hs
      obtain rfl := Option.some.inj hs
      rfl
  | reopen recovered logged =>
      obtain ⟨hblobs, hs⟩ := Option.ite_none_right_eq_some.mp hs
      obtain rfl := Option.some.inj hs
      exact (Machine.run_singleton _ _ _).trans (if_pos hblobs)

end EngineSystem

/-- **The engine refines the store of files.** -/
theorem engine_refines (n : ℕ) : (engineMachine n).Refines (fileMachine InflightWrite)
    EngineSystem.view EngineSystem.acts EngineSystem.Sound where
  keeps := fun _ _ _ h hs => EngineSystem.sound_step h hs
  run_acts := fun _ _ _ h hs => EngineSystem.run_acts h hs

end SpdkKv
