import SpdkKv.RequestPlaces

/-!
# Every Request Is Answered Once

The engine between `create` or `open` and `close`, with the requests that it accepted and those
whose callbacks ran. When the writes that wait for a new file fail, their callbacks run while
the queue still holds them, and the queue is cleared behind them: what a callback puts into it
is cleared with the rest.

## Main results

* `RequestSystem.Accounted`: every accepted request is in one place or answered, and the IOs in
  flight are counted.
* `RequestSystem.accounted_iff`: **this holds all along a run exactly if no callback of a write
  that fails in the queue puts a request into it**.
-/

namespace SpdkKv

variable {n : ℕ}

/-! ### Requests -/

/-- A request that was accepted. -/
inductive Request
  /-- A write, with its sequence. -/
  | write (op : WriteOp)
  /-- A read, the `number`-th one that was accepted. -/
  | read (key : UInt64) (number : ℕ)
  deriving DecidableEq, Repr

/-- A call of the asynchronous interface. -/
inductive ApiCall
  /-- `put_async`, with the lengths of the segments. -/
  | putAsync (key : UInt64) (iovLens : List ℕ)
  /-- `put_buffered`, with the length of the value. -/
  | putBuffered (key : UInt64) (valueLen : ℕ)
  /-- `delete_async`. -/
  | deleteAsync (key : UInt64)
  /-- `get_async`, with the lengths of the segments. -/
  | getAsync (key : UInt64) (outputLens : List ℕ)
  deriving DecidableEq, Repr

namespace Engine

/-- `get_async`, up to its IO: the request is accepted. -/
def acceptsGet (self : Engine n) (key : UInt64) (outputLens : List ℕ) : Bool :=
  self.state = .kReady && !outputLens.isEmpty &&
    match self.memIndex.findEntry key with
    | none => false
    | some entry =>
        !entry.deleted &&
          ((self.space.getFile entry.fileId.toNat).any fun file =>
            file.isReadable && file.blobOpened) &&
          entry.pageCount.toNat * kPageSize ≤ outputLens.sum

/-- What a call does to the engine. -/
def call (self : Engine n) : ApiCall → Engine n × List WriteEffect
  | .putAsync key iovLens => self.putAsync key iovLens
  | .putBuffered key valueLen => self.putBuffered key valueLen
  | .deleteAsync key => self.deleteAsync key
  | .getAsync key outputLens =>
      if self.acceptsGet key outputLens then
        ({ self with pendingForegroundCount := self.pendingForegroundCount + 1 }, [])
      else (self, [])

/-- There is no file to which a write of the given size can be submitted now. -/
def mustWait (self : Engine n) (size : ℕ) : Bool :=
  (self.space.roomyFile size).isNone || self.space.allocatingNewFile

/-- The call puts a write into `pending_write_queue_`. -/
def queues (self : Engine n) : ApiCall → Bool
  | .putAsync _ iovLens =>
      self.state = .kReady && iovLens.head?.any (kPageSize ≤ ·) &&
        self.mustWait (iovLens.sum % 2 ^ 32)
  | .deleteAsync key =>
      self.state = .kReady && (self.memIndex.findEntry key).isSome && self.mustWait tombstoneSize
  | .putBuffered _ _ => false
  | .getAsync _ _ => false

/-- None of the calls, one after the other, puts a write into `pending_write_queue_`. -/
def Quiet : Engine n → List ApiCall → Prop
  | _, [] => True
  | self, c :: calls => self.queues c = false ∧ (self.call c).1.Quiet calls

/-- Whether calls put writes into the queue can be computed. -/
instance decidableQuiet : ∀ (self : Engine n) (calls : List ApiCall), Decidable (self.Quiet calls)
  | _, [] => .isTrue trivial
  | self, c :: calls =>
      have : Decidable ((self.call c).1.Quiet calls) := decidableQuiet _ calls
      inferInstanceAs (Decidable (_ ∧ _))

end Engine

/-! ### The system -/

/-- The engine with its requests. -/
structure RequestSystem (n : ℕ) where
  system : EngineSystem n
  /-- The reads in flight. -/
  reads : List Request
  /-- The number of reads that were accepted. -/
  readCount : ℕ
  accepted : Multiset Request
  /-- The requests whose callbacks ran. -/
  answered : Multiset Request

/-- What can happen between `open` and `close`. -/
inductive RequestEvent (n : ℕ)
  /-- A call. -/
  | call (c : ApiCall)
  /-- Another event of the engine; the callbacks that it runs come last. -/
  | engine (ev : EngineEvent n)
  /-- The IO of a read completes. -/
  | readComplete (i : ℕ)
  /-- The allocation of a new file ends; the callbacks that run meanwhile make the given calls. -/
  | newFileAllocated (success : Bool) (calls : List ApiCall)
  /-- So does the checkpoint in front of it. -/
  | checkpointForAlloc (ok : Bool) (calls : List ApiCall)

namespace RequestSystem

/-- The requests whose callbacks did not run. -/
def recorded (self : RequestSystem n) : Multiset Request :=
  self.system.engine.pending.map Request.write + ↑self.reads

/-- The engine changes and has effects. -/
def doEffects (self : RequestSystem n) (system : EngineSystem n) (effs : List WriteEffect) :
    RequestSystem n :=
  { self with
    system := system
    accepted := self.accepted + ↑((issuedOps effs).map Request.write)
    answered := self.answered +
      ↑(((completedWrites effs).map CompletedWrite.op ++ failedOps effs).map Request.write) }

/-- The engine changes. -/
def withEngine (self : RequestSystem n) (engine : Engine n) : RequestSystem n :=
  { self with system := { self.system with engine := engine } }

/-- A method of the engine is called. -/
def perform (self : RequestSystem n) (r : Engine n × List WriteEffect) : RequestSystem n :=
  self.doEffects { self.system with engine := r.1 } r.2

/-- A call. -/
def call (self : RequestSystem n) (c : ApiCall) : RequestSystem n :=
  match c with
  | .getAsync key outputLens =>
      if self.system.engine.acceptsGet key outputLens then
        let req : Request := .read key self.readCount
        let self := self.withEngine (self.system.engine.call c).1
        { self with
          reads := self.reads ++ [req]
          readCount := self.readCount + 1
          accepted := self.accepted + {req} }
      else self
  | _ => self.perform (self.system.engine.call c)

/-- The loop over `pending_write_queue_` that calls the callbacks with an error, which make the
given calls, and the `clear()` behind it. -/
def failPendingWrites (self : RequestSystem n) (calls : List ApiCall) : RequestSystem n :=
  let queue := self.system.engine.pendingWriteQueue.map QueuedWrite.op
  let self := calls.foldl call { self with
    answered := self.answered + ↑(queue.map Request.write) }
  self.withEngine { self.system.engine with pendingWriteQueue := [] }

/-- The engine once the allocation has ended, before the queue is processed. -/
def endAllocation (engine : Engine n) (success : Bool) : Engine n :=
  { engine with space := engine.space.onNewFileAllocated success }

/-- The engine once the checkpoint has ended. -/
def endCheckpoint (engine : Engine n) (ok : Bool) : Engine n :=
  { engine with space := { engine.space with
    pendingCheckpointForAlloc := false
    allocatingNewFile := if ok then engine.space.allocatingNewFile else false } }

/-- The active file is open: `process_pending_write_queue` submits the queue. -/
def canProcess (engine : Engine n) : Bool :=
  engine.space.activeIndex.any fun i => (engine.space.fileAt i).blobOpened

/-- An event of the engine of its own. -/
def isOther : EngineEvent n → Bool
  | .async (.putAsync _ _) => false
  | .async (.putBuffered _ _) => false
  | .async (.deleteAsync _) => false
  | .async (.newFileAllocated _) => false
  | .async (.checkpointForAlloc _) => false
  | ev => EngineSystem.isOperation ev

/-- The state after an event, if the event can happen. -/
def step (self : RequestSystem n) : RequestEvent n → Option (RequestSystem n)
  | .call c => some (self.call c)
  | .engine ev =>
      if isOther ev then
        (self.system.step ev).map fun system => self.doEffects system (self.system.effects ev)
      else none
  | .readComplete i =>
      self.reads[i]?.map fun req =>
        let engine := self.system.engine
        let self := self.withEngine { engine with
          pendingForegroundCount := engine.pendingForegroundCount - 1 }
        { self with
          reads := self.reads.eraseIdx i
          answered := self.answered + {req} }
  | .newFileAllocated success calls =>
      let engine := endAllocation self.system.engine success
      if self.system.engine.space.newFile.isSome then
        if success && canProcess engine then
          if calls.isEmpty then some (self.perform engine.processPendingWriteQueue) else none
        else some ((self.withEngine engine).failPendingWrites calls)
      else none
  | .checkpointForAlloc ok calls =>
      let engine := endCheckpoint self.system.engine ok
      if self.system.engine.space.pendingCheckpointForAlloc then
        if ok then
          if calls.isEmpty then some (self.withEngine engine.allocateNewFileAsync) else none
        else some ((self.withEngine engine).failPendingWrites calls)
      else none

/-- The state after `create` or `open`. -/
def opened (system : EngineSystem n) : RequestSystem n := ⟨system, [], 0, 0, 0⟩

end RequestSystem

/-- A system that `create` or `open` returned. -/
inductive EngineSystem.Opened : EngineSystem n → Prop
  | create (index : MemIndex n) (dataFileSize bufferCount blobPages : ℕ) :
      Opened (.created index dataFileSize bufferCount blobPages)
  | reopen (s : EngineSystem n) (recovered : MemIndex n) (logged : List (ℕ × ℕ)) :
      Opened (s.reopened recovered logged)

/-- The engine with its requests as a machine. -/
def requestMachine (n : ℕ) : Machine (RequestSystem n) (RequestEvent n) where
  step := RequestSystem.step

/-! ### Calls and the queue -/

namespace Engine

/-- The queue after a call that puts a write into it exactly if `queued`. -/
def Queued (queued : Bool) (self self' : Engine n) : Prop :=
  ∃ l, self'.pendingWriteQueue = self.pendingWriteQueue ++ l ∧ (l = [] ↔ queued = false)

variable {self self' : Engine n}

theorem queued_of_eq (h : self'.pendingWriteQueue = self.pendingWriteQueue) :
    Queued false self self' :=
  ⟨[], by rw [h, List.append_nil], iff_of_true rfl rfl⟩

theorem queueForNewFile_pendingWriteQueue (self : Engine n) (req : QueuedWrite) :
    (self.queueForNewFile req).pendingWriteQueue = self.pendingWriteQueue ++ [req] := by
  rw [queueForNewFile]
  dsimp only
  split_ifs <;> rfl

theorem queued_queueForNewFile (self : Engine n) (req : QueuedWrite) :
    Queued true self (self.queueForNewFile req) :=
  ⟨[req], self.queueForNewFile_pendingWriteQueue req, iff_of_false nofun nofun⟩

/-- A write that is submitted, or waits for a new file. -/
theorem queued_submit_or_queue (self : Engine n) (size : ℕ) (req : QueuedWrite)
    (write : FileInfo → InflightWrite) (effs : List WriteEffect) :
    Queued (self.mustWait size) self
      (match self.space.roomyFile size with
        | some i =>
            if self.space.allocatingNewFile then (self.queueForNewFile req, effs)
            else (self.submitAt i size write, effs)
        | none => (self.queueForNewFile req, effs)).1 := by
  rw [mustWait]
  cases self.space.roomyFile size with
  | none => exact self.queued_queueForNewFile req
  | some i =>
      dsimp only [Option.isNone_some, Bool.false_or]
      split_ifs with ha
      · rw [ha]
        exact self.queued_queueForNewFile req
      · rw [Bool.eq_false_iff.mpr ha]
        exact queued_of_eq rfl

theorem queued_putAsync (self : Engine n) (key : UInt64) (iovLens : List ℕ) :
    Queued (self.queues (.putAsync key iovLens)) self (self.putAsync key iovLens).1 := by
  rw [putAsync.eq_def]
  by_cases hready : self.state = .kReady
  · rw [if_neg (not_not.mpr hready)]
    cases iovLens with
    | nil => simpa [queues] using queued_of_eq rfl
    | cons first rest =>
        dsimp only
        by_cases hfirst : first < kPageSize
        · rw [if_pos hfirst]
          simpa [queues, Nat.not_le.mpr hfirst] using queued_of_eq rfl
        · have hqueues : self.queues (.putAsync key (first :: rest)) =
              self.mustWait ((first :: rest).sum % 2 ^ 32) := by
            simp [queues, hready, Nat.not_lt.mp hfirst]
          rw [if_neg hfirst, hqueues]
          exact self.allocateSequence.1.queued_submit_or_queue _ _ _ _
  · rw [if_pos hready]
    simpa [queues, hready] using queued_of_eq rfl

theorem queued_deleteAsync (self : Engine n) (key : UInt64) :
    Queued (self.queues (.deleteAsync key)) self (self.deleteAsync key).1 := by
  rw [deleteAsync]
  by_cases hready : self.state = .kReady
  · rw [if_neg (not_not.mpr hready)]
    cases hfind : self.memIndex.findEntry key with
    | none => simpa [queues, hfind] using queued_of_eq rfl
    | some existing =>
        have hqueues : self.queues (.deleteAsync key) = self.mustWait tombstoneSize := by
          simp [queues, hready, hfind]
        rw [hqueues]
        exact self.allocateSequence.1.queued_submit_or_queue _ _ _ _
  · rw [if_pos hready]
    simpa [queues, hready] using queued_of_eq rfl

theorem queued_putBuffered (self : Engine n) (key : UInt64) (valueLen : ℕ) :
    Queued false self (self.putBuffered key valueLen).1 := by
  refine queued_of_eq ?_
  have hplace : ∀ (e : Engine n) (slot : ℕ × ℕ),
      (e.placeBuffered key (entrySize valueLen) slot).1.pendingWriteQueue =
        e.pendingWriteQueue := fun _ _ => rfl
  have hwait : ∀ (e : Engine n) (error : KvError),
      (e.enqueueWait key (entrySize valueLen) error).1.pendingWriteQueue =
        e.pendingWriteQueue := fun _ _ => rfl
  rw [putBuffered]
  split_ifs
  · rfl
  · rfl
  · dsimp only
    split
    · exact hplace _ _
    · split_ifs
      · exact hwait _ _
      · split
        · exact hplace _ _
        · exact hwait _ _

theorem queued_call (self : Engine n) (c : ApiCall) :
    Queued (self.queues c) self (self.call c).1 := by
  cases c with
  | putAsync key iovLens => exact self.queued_putAsync key iovLens
  | putBuffered key valueLen => exact self.queued_putBuffered key valueLen
  | deleteAsync key => exact self.queued_deleteAsync key
  | getAsync key outputLens =>
      rw [call]
      split_ifs
      · exact queued_of_eq rfl
      · exact queued_of_eq rfl

end Engine

/-! ### Calls and requests -/

/-- The writes of `pending_write_queue_` are among those under way. -/
theorem Engine.pending_eq_clear (self : Engine n) : self.pending =
    Engine.pending { self with pendingWriteQueue := [] } +
      ↑(self.pendingWriteQueue.map QueuedWrite.op) := by
  simp only [pending, List.map_nil, Multiset.coe_nil]
  abel

namespace RequestSystem

variable {s s' : RequestSystem n} {q : Multiset Request}

/-- Every accepted request is in one place or answered, and the IOs in flight are counted. -/
structure Accounted (s : RequestSystem n) : Prop where
  /-- A request is in a queue, in a buffer, in flight, or its callback ran; once. -/
  once : s.accepted = s.recorded + s.answered
  /-- A buffer with records is active, submitted or in flight; once. -/
  buffers : ∀ b, s.system.engine.bufferedWrites b ≠ [] →
    b ∈ s.system.engine.bufferManager.filling +
      (EngineSystem.waitingBuffers s.system.stack + s.system.engine.inflightBuffers)
  nodup : (s.system.engine.bufferManager.filling +
    (EngineSystem.waitingBuffers s.system.stack + s.system.engine.inflightBuffers)).Nodup
  keys : (s.system.engine.bufferPendingWrites.map Prod.fst).Nodup
  count : s.system.engine.pendingForegroundCount =
    s.system.engine.space.inflight.length + s.reads.length

/-- The requests in `q` are counted twice. -/
def Owes (s : RequestSystem n) (q : Multiset Request) : Prop :=
  s.accepted + q = s.recorded + s.answered

/-- The buffers and the count are right. -/
def Kept (s : RequestSystem n) : Prop := s.system.Kept s.reads.length

theorem Kept.accounted_iff_owes (h : s.Kept) : s.Accounted ↔ s.Owes 0 := by
  rw [Owes, add_zero]
  refine ⟨Accounted.once, fun honce => ⟨honce, h.buffers.kept, ?_, h.keys, h.count⟩⟩
  refine Multiset.nodup_of_le ?_ h.buffers.ok.nodup
  rw [AppendBufferManager.held_eq]
  exact add_le_add_left (Multiset.le_add_right _ _) _

/-- What accounts for the writes changes no debt. -/
theorem Owes.doEffects (ho : s.Owes q) {system : EngineSystem n} {effs : List WriteEffect}
    (h : EngineSystem.Conserves s.system.engine effs system.engine) :
    (s.doEffects system effs).Owes q := by
  have hwrites := congrArg (Multiset.map Request.write) h
  simp only [Multiset.map_add, Multiset.map_coe] at hwrites
  simp only [Owes, recorded, RequestSystem.doEffects, List.map_append, ← Multiset.coe_add]
    at ho ⊢
  have hsum : s.system.engine.pending.map Request.write + ↑s.reads + s.answered +
      ↑((issuedOps effs).map Request.write) =
      s.system.engine.pending.map Request.write + ↑((issuedOps effs).map Request.write) +
        ↑s.reads + s.answered := by abel
  rw [add_right_comm, ho, hsum, hwrites]
  abel

/-- A call changes no debt. -/
theorem Owes.call (ho : s.Owes q) (c : ApiCall) : (s.call c).Owes q := by
  have hperform : ∀ ev : AsyncEvent, s.system.engine.step ev = some (s.system.engine.call c) →
      (s.perform (s.system.engine.call c)).Owes q :=
    fun ev hev => ho.doEffects (Engine.does_step hev).conserved
  cases c with
  | putAsync key iovLens => exact hperform (.putAsync key iovLens) rfl
  | putBuffered key valueLen => exact hperform (.putBuffered key valueLen) rfl
  | deleteAsync key => exact hperform (.deleteAsync key) rfl
  | getAsync key outputLens =>
      rw [RequestSystem.call]
      split_ifs with haccepts
      · have hpending : (s.system.engine.call (.getAsync key outputLens)).1.pending =
            s.system.engine.pending := by
          rw [Engine.call, if_pos haccepts]
          rfl
        simp only [Owes, recorded, withEngine, hpending, ← Multiset.coe_add,
          Multiset.coe_singleton] at ho ⊢
        rw [add_right_comm, ho]
        abel
      · exact ho

/-- A call keeps the buffers and the count. -/
theorem Kept.call (h : s.Kept) (c : ApiCall) : (s.call c).Kept := by
  cases c with
  | putAsync key iovLens => exact Engine.Kept.moves h (Engine.moves_putAsync _ key iovLens)
  | putBuffered key valueLen => exact Engine.Kept.putBuffered h key valueLen
  | deleteAsync key => exact Engine.Kept.moves h (Engine.moves_deleteAsync _ key)
  | getAsync key outputLens =>
      rw [RequestSystem.call]
      split_ifs with haccepts
      · have hengine : (s.system.engine.call (.getAsync key outputLens)).1 = { s.system.engine with
            pendingForegroundCount := s.system.engine.pendingForegroundCount + 1 } := by
          rw [Engine.call, if_pos haccepts]
        simp only [Kept, EngineSystem.Kept, withEngine, hengine, List.length_append,
          List.length_singleton]
        refine Engine.Kept.recount h ?_
        rw [h.count, add_assoc]
      · exact h

/-- What a call does to the engine. -/
theorem engine_call (s : RequestSystem n) (c : ApiCall) :
    (s.call c).system.engine = (s.system.engine.call c).1 := by
  cases c with
  | getAsync key outputLens =>
      rw [RequestSystem.call]
      split_ifs with haccepts
      · rfl
      · rw [Engine.call, if_neg haccepts]
  | putAsync _ _ | putBuffered _ _ | deleteAsync _ => rfl

/-- Calls, one after the other, keep the buffers and the count. -/
theorem Kept.foldl_call (calls : List ApiCall) : ∀ {s : RequestSystem n}, s.Kept →
    (calls.foldl RequestSystem.call s).Kept := by
  induction calls with
  | nil => exact fun h => h
  | cons c calls ih => exact fun h => ih (h.call c)

/-- They change no debt. -/
theorem Owes.foldl_call (calls : List ApiCall) : ∀ {s : RequestSystem n}, s.Owes q →
    (calls.foldl RequestSystem.call s).Owes q := by
  induction calls with
  | nil => exact fun ho => ho
  | cons c calls ih => exact fun ho => ih (ho.call c)

/-- What they put into the queue. -/
theorem queue_foldl_call (calls : List ApiCall) : ∀ s : RequestSystem n,
    ∃ l, (calls.foldl RequestSystem.call s).system.engine.pendingWriteQueue =
      s.system.engine.pendingWriteQueue ++ l ∧ (l = [] ↔ s.system.engine.Quiet calls) := by
  induction calls with
  | nil => exact fun s => ⟨[], (List.append_nil _).symm, iff_of_true rfl trivial⟩
  | cons c calls ih =>
      intro s
      obtain ⟨l, hl, hquiet⟩ := s.system.engine.queued_call c
      obtain ⟨l', hl', hquiet'⟩ := ih (s.call c)
      rw [engine_call] at hl' hquiet'
      refine ⟨l ++ l', ?_, ?_⟩
      · rw [List.foldl_cons, hl', hl, List.append_assoc]
      · rw [List.append_eq_nil_iff, hquiet, hquiet', Engine.Quiet]

/-- A failing queue keeps the buffers and the count. -/
theorem Kept.failPendingWrites (h : s.Kept) (calls : List ApiCall) :
    (s.failPendingWrites calls).Kept := by
  have hcalls : (calls.foldl RequestSystem.call { s with
      answered := s.answered +
        ↑((s.system.engine.pendingWriteQueue.map QueuedWrite.op).map Request.write) }).Kept :=
    foldl_call calls h
  exact hcalls.moves (Engine.moves_pendingWriteQueue _ [])

/-- **A failing queue leaves no debt exactly if no callback puts a request into it.** -/
theorem Owes.failPendingWrites_iff (ho : s.Owes 0) (calls : List ApiCall) :
    (s.failPendingWrites calls).Owes 0 ↔ s.system.engine.Quiet calls := by
  let queue : Multiset Request :=
    ↑((s.system.engine.pendingWriteQueue.map QueuedWrite.op).map Request.write)
  have hanswered : Owes { s with answered := s.answered + queue } queue := by
    rw [Owes, add_zero] at ho
    rw [Owes, ho, add_assoc]
    rfl
  have howes := hanswered.foldl_call calls
  obtain ⟨l, hl, hquiet⟩ := queue_foldl_call calls { s with answered := s.answered + queue }
  let t := calls.foldl RequestSystem.call { s with answered := s.answered + queue }
  let left : Multiset Request := ↑((l.map QueuedWrite.op).map Request.write)
  have hrecorded : t.recorded = (s.failPendingWrites calls).recorded + queue + left := by
    have hsum : ∀ a b c d : Multiset Request, a + (b + c) + d = a + d + b + c :=
      fun _ _ _ _ => by abel
    rw [recorded, t.system.engine.pending_eq_clear, hl]
    simp only [List.map_append, ← Multiset.coe_add, Multiset.map_add, Multiset.map_coe]
    exact hsum _ _ _ _
  have hleft : t.accepted = (s.failPendingWrites calls).recorded + t.answered + left := by
    refine add_right_cancel (b := queue) ?_
    rw [howes, hrecorded]
    abel
  have hempty : left = 0 ↔ l = [] := by
    rw [Multiset.coe_eq_zero, List.map_eq_nil_iff, List.map_eq_nil_iff]
  rw [← hquiet, ← hempty, Owes, add_zero]
  exact hleft ▸ add_eq_left

/-! ### Events -/

/-- No callback of a write that fails in the queue puts a request into it. -/
def Silent (s : RequestSystem n) : RequestEvent n → Prop
  | .newFileAllocated success calls =>
      let engine := endAllocation s.system.engine success
      s.system.engine.space.newFile.isSome → (success && canProcess engine) = false →
        engine.Quiet calls
  | .checkpointForAlloc ok calls =>
      s.system.engine.space.pendingCheckpointForAlloc → ok = false →
        (endCheckpoint s.system.engine ok).Quiet calls
  | _ => True

/-- Whether an event is silent can be computed. -/
instance decidableSilent (s : RequestSystem n) : ∀ ev : RequestEvent n, Decidable (s.Silent ev)
  | .newFileAllocated _ _ => inferInstanceAs (Decidable (_ → _ → _))
  | .checkpointForAlloc _ _ => inferInstanceAs (Decidable (_ → _ → _))
  | .call _ | .engine _ | .readComplete _ => .isTrue trivial

theorem pending_endAllocation (engine : Engine n) (success : Bool) :
    (endAllocation engine success).pending = engine.pending := by
  rw [endAllocation, Engine.pending, engine.onNewFileAllocated_inflight success]
  rfl

theorem Kept.endAllocation (h : s.Kept) (success : Bool) :
    (s.withEngine (endAllocation s.system.engine success)).Kept :=
  h.moves (Engine.moves_space (s.system.engine.onNewFileAllocated_inflight success))

theorem Kept.endCheckpoint (h : s.Kept) (ok : Bool) :
    (s.withEngine (endCheckpoint s.system.engine ok)).Kept :=
  h.moves (Engine.moves_space rfl)

theorem Owes.withEngine (ho : s.Owes q) {engine : Engine n}
    (h : engine.pending = s.system.engine.pending) : (s.withEngine engine).Owes q := by
  rw [Owes, recorded, RequestSystem.withEngine]
  dsimp only
  rw [h]
  exact ho

theorem isOperation_of_isOther {ev : EngineEvent n} (h : isOther ev = true) :
    EngineSystem.isOperation ev = true := by
  cases ev with
  | async ev => rfl
  | _ => exact h

/-- **Every event keeps the buffers and the count.** -/
theorem Kept.step (h : s.Kept) {ev : RequestEvent n} (hs : s.step ev = some s') : s'.Kept := by
  cases ev with
  | call c =>
      obtain rfl := Option.some.inj hs
      exact h.call c
  | engine ev =>
      obtain ⟨hother, hs⟩ := Option.ite_none_right_eq_some.mp hs
      obtain ⟨system, hsystem, rfl⟩ := Option.map_eq_some_iff.mp hs
      exact EngineSystem.Kept.step h (isOperation_of_isOther hother) hsystem
  | readComplete i =>
      obtain ⟨req, hreq, rfl⟩ := Option.map_eq_some_iff.mp hs
      obtain ⟨hi, -⟩ := List.getElem?_eq_some_iff.mp hreq
      have hlength : (s.reads.eraseIdx i).length = s.reads.length - 1 :=
        List.length_eraseIdx_of_lt hi
      have hcount := h.count
      refine Engine.Kept.recount h ?_
      dsimp only [withEngine]
      omega
  | newFileAllocated success calls =>
      obtain ⟨-, hs⟩ := Option.ite_none_right_eq_some.mp hs
      split_ifs at hs
      · obtain rfl := Option.some.inj hs
        exact (h.endAllocation success).moves (Engine.moves_processPendingWriteQueue _)
      · obtain rfl := Option.some.inj hs
        exact (h.endAllocation success).failPendingWrites calls
  | checkpointForAlloc ok calls =>
      obtain ⟨-, hs⟩ := Option.ite_none_right_eq_some.mp hs
      split_ifs at hs
      · obtain rfl := Option.some.inj hs
        exact (h.endCheckpoint ok).moves (Engine.moves_allocateNewFileAsync _)
      · obtain rfl := Option.some.inj hs
        exact (h.endCheckpoint ok).failPendingWrites calls

/-- **An event leaves no debt exactly if it is silent.** -/
theorem Owes.step_iff (ho : s.Owes 0) {ev : RequestEvent n} (hs : s.step ev = some s') :
    s'.Owes 0 ↔ s.Silent ev := by
  cases ev with
  | call c =>
      obtain rfl := Option.some.inj hs
      exact iff_of_true (ho.call c) trivial
  | engine ev =>
      obtain ⟨hother, hs⟩ := Option.ite_none_right_eq_some.mp hs
      obtain ⟨system, hsystem, rfl⟩ := Option.map_eq_some_iff.mp hs
      refine iff_of_true (ho.doEffects ?_) trivial
      exact EngineSystem.conserved_step (isOperation_of_isOther hother) hsystem
  | readComplete i =>
      obtain ⟨req, hreq, rfl⟩ := Option.map_eq_some_iff.mp hs
      obtain ⟨hi, rfl⟩ := List.getElem?_eq_some_iff.mp hreq
      refine iff_of_true ?_ trivial
      have hreads : (↑s.reads : Multiset Request) = {s.reads[i]} + ↑(s.reads.eraseIdx i) :=
        (Multiset.coe_eq_coe.mpr (List.getElem_cons_eraseIdx_perm hi)).symm
      have hsum : ∀ a b c d : Multiset Request, a + (b + c) + d = a + c + (d + b) :=
        fun _ _ _ _ => by abel
      rw [Owes, recorded, hreads] at ho
      exact ho.trans (hsum _ _ _ _)
  | newFileAllocated success calls =>
      obtain ⟨hnew, hs⟩ := Option.ite_none_right_eq_some.mp hs
      have howes := ho.withEngine (pending_endAllocation s.system.engine success)
      split_ifs at hs with hcan
      · obtain rfl := Option.some.inj hs
        refine iff_of_true (howes.doEffects ?_) fun _ hfails => ?_
        · exact (Engine.does_processPendingWriteQueue _).conserved
        · rw [hcan] at hfails
          cases hfails
      · obtain rfl := Option.some.inj hs
        rw [howes.failPendingWrites_iff, Silent]
        exact ⟨fun h _ _ => h, fun h => h hnew (Bool.eq_false_iff.mpr hcan)⟩
  | checkpointForAlloc ok calls =>
      obtain ⟨hpending, hs⟩ := Option.ite_none_right_eq_some.mp hs
      have howes : (s.withEngine (endCheckpoint s.system.engine ok)).Owes 0 := ho.withEngine rfl
      split_ifs at hs with hok
      · obtain rfl := Option.some.inj hs
        refine iff_of_true (ho.withEngine ?_) fun _ hfails => ?_
        · exact (Engine.allocateNewFileAsync_pending _).trans rfl
        · rw [hok] at hfails
          cases hfails
      · obtain rfl := Option.some.inj hs
        rw [howes.failPendingWrites_iff, Silent]
        exact ⟨fun h _ _ => h, fun h => h hpending (Bool.eq_false_iff.mpr hok)⟩

/-! ### Runs -/

/-- A state between `open` and `close` starts without requests. -/
theorem Kept.opened {system : EngineSystem n} (h : system.Opened) :
    (RequestSystem.opened system).Kept := by
  cases h with
  | create index dataFileSize bufferCount blobPages =>
      exact EngineSystem.Kept.created index dataFileSize bufferCount blobPages
  | reopen s recovered logged => exact EngineSystem.Kept.reopened s recovered logged

theorem Owes.opened {system : EngineSystem n} (h : system.Opened) :
    (RequestSystem.opened system).Owes 0 := by
  have hpending : system.engine.pending = 0 := by
    cases h with
    | create index dataFileSize bufferCount blobPages => rfl
    | reopen s recovered logged =>
        have hinflight : (s.reopened recovered logged).engine.space.inflight = [] :=
          FileSpace.reopened_inflight _ _ _ _
        rw [Engine.pending, hinflight]
        rfl
  rw [Owes, recorded, RequestSystem.opened]
  dsimp only
  rw [hpending]
  rfl

theorem silent_of_step_eq_none {ev : RequestEvent n} (hs : s.step ev = none) : s.Silent ev := by
  cases ev with
  | newFileAllocated success calls =>
      intro hnew hfails
      rw [step, if_pos hnew, hfails] at hs
      cases hs
  | checkpointForAlloc ok calls =>
      intro hpending hfails
      rw [step, if_pos hpending, hfails] at hs
      cases hs
  | call _ | engine _ | readComplete _ => trivial

/-- **No request is lost and no callback runs twice, in all states of a run, exactly if no
callback of a write that fails in the queue puts a request into it.** -/
theorem accounted_iff {system : EngineSystem n} (h : system.Opened)
    (evs : List (RequestEvent n)) :
    (requestMachine n).Always Accounted (opened system) evs ↔
      (requestMachine n).Meets Silent (opened system) evs := by
  have hkeeps : ∀ (s : RequestSystem n) ev s', s.Kept → (requestMachine n).step s ev = some s' →
      s'.Kept := fun _ _ _ h hs => h.step hs
  refine (requestMachine n).always_iff_meets hkeeps ?_
    (fun _ _ hs => silent_of_step_eq_none hs) (.opened h)
    ((Kept.opened h).accounted_iff_owes.mpr (.opened h))
  intro s ev s' h haccounted hs
  rw [(h.step hs).accounted_iff_owes]
  exact (h.accounted_iff_owes.mp haccounted).step_iff hs

/-- Of four writes to files of one page, the first is submitted and the others wait for a new
file. -/
def fullFile : List (RequestEvent 3) :=
  [.call (.putAsync 1 [4096]), .call (.putAsync 2 [4096]), .call (.putAsync 3 [4096]),
    .call (.putAsync 4 [4096])]

/-- The engine that `fullFile` starts from. -/
def pageFiles : RequestSystem 3 :=
  opened (.created (MemIndex.fresh 3) 8192 kMinBufferCount 2)

/-- The writes that wait fail together; nothing is lost. -/
theorem accounted_failTogether :
    ((requestMachine 3).run pageFiles (fullFile ++ [.newFileAllocated false []])).isSome ∧
      (requestMachine 3).Always Accounted pageFiles
        (fullFile ++ [.newFileAllocated false []]) := by
  exact ⟨by decide +kernel, (accounted_iff (.create _ _ _ _) _).mpr (by decide +kernel)⟩

/-- **A write that is repeated by the callback of its failure is lost**: it is cleared together
with the queue, and its callback never runs. -/
theorem repeated_write_lost :
    ∃ s, (requestMachine 3).run pageFiles
        (fullFile ++ [.newFileAllocated false [.putAsync 2 [4096]]]) = some s ∧
      Request.write ⟨2, 5, false⟩ ∈ s.accepted ∧ Request.write ⟨2, 5, false⟩ ∉ s.recorded ∧
      Request.write ⟨2, 5, false⟩ ∉ s.answered ∧ ¬ s.Accounted := by
  have hrun : ((requestMachine 3).run pageFiles
      (fullFile ++ [.newFileAllocated false [.putAsync 2 [4096]]])).map (fun s =>
        (decide (Request.write ⟨2, 5, false⟩ ∈ s.accepted),
          decide (Request.write ⟨2, 5, false⟩ ∈ s.recorded),
          decide (Request.write ⟨2, 5, false⟩ ∈ s.answered))) = some (true, false, false) := by
    decide +kernel
  obtain ⟨s, hs, heq⟩ := Option.map_eq_some_iff.mp hrun
  obtain ⟨haccepted, heq⟩ := Prod.mk.inj heq
  obtain ⟨hrecorded, hanswered⟩ := Prod.mk.inj heq
  refine ⟨s, hs, of_decide_eq_true haccepted, of_decide_eq_false hrecorded,
    of_decide_eq_false hanswered, fun haccounted => ?_⟩
  rcases Multiset.mem_add.mp (haccounted.once ▸ of_decide_eq_true haccepted) with hmem | hmem
  · exact of_decide_eq_false hrecorded hmem
  · exact of_decide_eq_false hanswered hmem

end RequestSystem

end SpdkKv
