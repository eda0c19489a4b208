import Mathlib.Logic.Relation
import SpdkKv.RecordPlaces

/-!
# Moves of the Engine

What the asynchronous part does besides filling buffers and completing writes consists of three
kinds of moves: a sequence is given out, a single write is submitted, or a write waits elsewhere
than before. What every move keeps, every such method keeps.

## Main results

* `Engine.Moves`: some moves, one after the other.
* `Engine.moves_step`: an event that neither fills a buffer nor completes a write consists of
  moves.
-/

namespace SpdkKv

variable {n : ℕ}

namespace Engine

/-- A move. -/
inductive Move (self : Engine n) : Engine n → Prop
  /-- A sequence is given out. -/
  | sequence : Move self self.allocateSequence.1
  /-- A write is submitted that is not a buffer. -/
  | submit (i size : ℕ) (write : FileInfo → InflightWrite)
      (single : ∀ file, (write file).buffer? = none) : Move self (self.submitAt i size write)
  /-- Nothing is submitted; files, queues and notifications change. -/
  | rearrange (space : FileSpace InflightWrite) (same : space.inflight = self.space.inflight)
      (pending wait : List QueuedWrite) (callbacks : ℕ) (was : Bool) :
      Move self { self with
        space := space
        pendingWriteQueue := pending
        waitQueue := wait
        bufferManager := { self.bufferManager with
          resumeCallbacks := callbacks
          wasBackpressureActive := was } }

/-- Moves, one after the other. -/
def Moves : Engine n → Engine n → Prop := Relation.ReflTransGen Move

variable {self self' self'' : Engine n}

theorem Moves.refl (self : Engine n) : self.Moves self := Relation.ReflTransGen.refl

theorem Moves.trans (h : self.Moves self') (h' : self'.Moves self'') : self.Moves self'' :=
  Relation.ReflTransGen.trans h h'

theorem Move.moves (h : self.Move self') : self.Moves self' := Relation.ReflTransGen.single h

/-- The files change. -/
theorem moves_space {space : FileSpace InflightWrite}
    (h : space.inflight = self.space.inflight) : self.Moves { self with space := space } :=
  (Move.rearrange space h self.pendingWriteQueue self.waitQueue
    self.bufferManager.resumeCallbacks self.bufferManager.wasBackpressureActive).moves

/-- The queue of the writes that wait for a file changes. -/
theorem moves_pendingWriteQueue (self : Engine n) (queue : List QueuedWrite) :
    self.Moves { self with pendingWriteQueue := queue } :=
  (Move.rearrange self.space rfl queue self.waitQueue self.bufferManager.resumeCallbacks
    self.bufferManager.wasBackpressureActive).moves

/-- The queue of the writes that wait for the end of backpressure changes. -/
theorem moves_waitQueue (self : Engine n) (queue : List QueuedWrite) :
    self.Moves { self with waitQueue := queue } :=
  (Move.rearrange self.space rfl self.pendingWriteQueue queue self.bufferManager.resumeCallbacks
    self.bufferManager.wasBackpressureActive).moves

/-- Notifications change. -/
theorem moves_notifications (self : Engine n) (callbacks : ℕ) (was : Bool) :
    self.Moves { self with bufferManager := { self.bufferManager with
      resumeCallbacks := callbacks
      wasBackpressureActive := was } } :=
  (Move.rearrange self.space rfl self.pendingWriteQueue self.waitQueue callbacks was).moves

theorem moves_allocateSequence (self : Engine n) : self.Moves self.allocateSequence.1 :=
  Move.sequence.moves

theorem moves_sealActiveFile (self : Engine n) : self.Moves self.sealActiveFile :=
  moves_space self.sealActiveFile_inflight

theorem moves_allocateNewFileAsync (self : Engine n) : self.Moves self.allocateNewFileAsync := by
  refine moves_space ?_
  rw [FileSpace.allocateNewFileAsync]
  split_ifs <;> rfl

theorem moves_queueForNewFile (self : Engine n) (req : QueuedWrite) :
    self.Moves (self.queueForNewFile req) := by
  have hqueue := self.moves_pendingWriteQueue (self.pendingWriteQueue ++ [req])
  rw [queueForNewFile]
  dsimp only
  split_ifs
  · exact hqueue
  · exact (hqueue.trans (moves_sealActiveFile _)).trans (moves_allocateNewFileAsync _)

theorem moves_putAsync (self : Engine n) (key : UInt64) (iovLens : List ℕ) :
    self.Moves (self.putAsync key iovLens).1 := by
  rw [putAsync.eq_def]
  split_ifs
  · exact .refl self
  · split
    · exact .refl self
    · split_ifs
      · exact .refl self
      · dsimp only
        split
        · split_ifs
          · exact self.moves_allocateSequence.trans (moves_queueForNewFile _ _)
          · exact self.moves_allocateSequence.trans (Move.submit _ _ _ fun _ => rfl).moves
        · exact self.moves_allocateSequence.trans (moves_queueForNewFile _ _)

theorem moves_deleteAsync (self : Engine n) (key : UInt64) :
    self.Moves (self.deleteAsync key).1 := by
  rw [deleteAsync]
  split_ifs
  · exact .refl self
  · split
    · exact .refl self
    · dsimp only
      split
      · split_ifs
        · exact self.moves_allocateSequence.trans (moves_queueForNewFile _ _)
        · exact self.moves_allocateSequence.trans (Move.submit _ _ _ fun _ => rfl).moves
      · exact self.moves_allocateSequence.trans (moves_queueForNewFile _ _)

theorem moves_enqueueWait (self : Engine n) (key : UInt64) (size : ℕ) (error : KvError) :
    self.Moves (self.enqueueWait key size error).1 := by
  let wqe : QueuedWrite :=
    ⟨key, size % 2 ^ 32, self.allocateSequence.2, UInt16.ofNat (size / kPageSize),
      HashUtil.tag key, false, 0, false⟩
  have hqueue := self.moves_allocateSequence.trans
    (moves_waitQueue _ (self.waitQueue ++ [wqe]))
  rw [enqueueWait]
  dsimp only
  split_ifs
  · exact hqueue.trans (moves_notifications _ _ self.bufferManager.wasBackpressureActive)
  · exact hqueue

theorem moves_failPendingWrites (self : Engine n) : self.Moves self.failPendingWrites.1 :=
  self.moves_pendingWriteQueue []

theorem moves_processPendingWriteQueue (self : Engine n) :
    self.Moves self.processPendingWriteQueue.1 := by
  have hloop : ∀ (i : ℕ) (queue : List QueuedWrite) (self : Engine n),
      self.Moves (queue.foldl (submitQueuedWrite i) self) := by
    intro i queue
    induction queue with
    | nil => exact fun self => .refl self
    | cons req queue ih =>
        exact fun self => (Move.submit i _ _ fun _ => rfl).moves.trans (ih _)
  rw [processPendingWriteQueue]
  split
  · split_ifs
    · exact self.moves_failPendingWrites
    · exact (self.moves_pendingWriteQueue []).trans (hloop _ _ _)
  · exact self.moves_failPendingWrites

theorem moves_onNewFileAllocated (self : Engine n) (success : Bool) :
    self.Moves (self.onNewFileAllocated success).1 := by
  have hspace : self.Moves { self with space := self.space.onNewFileAllocated success } :=
    moves_space (self.onNewFileAllocated_inflight success)
  rw [onNewFileAllocated]
  split_ifs
  · exact hspace.trans (moves_processPendingWriteQueue _)
  · exact hspace.trans (moves_failPendingWrites _)

theorem moves_resumeAllocationAfterCheckpoint (self : Engine n) (ok : Bool) :
    self.Moves (self.resumeAllocationAfterCheckpoint ok).1 := by
  have hspace : self.Moves
      { self with space := { self.space with pendingCheckpointForAlloc := false } } :=
    moves_space rfl
  rw [resumeAllocationAfterCheckpoint]
  cases ok with
  | true => exact hspace.trans (moves_allocateNewFileAsync _)
  | false =>
      have hidle : self.Moves { self with space := { self.space with
          pendingCheckpointForAlloc := false
          allocatingNewFile := false } } := moves_space rfl
      exact hidle.trans (moves_failPendingWrites _)

theorem moves_submitWaitQueueEntry (self : Engine n) (wqe : QueuedWrite) :
    self.Moves (self.submitWaitQueueEntry wqe) := by
  rw [submitWaitQueueEntry]
  split
  · split_ifs
    · exact self.moves_queueForNewFile wqe
    · exact (Move.submit _ _ _ fun _ => rfl).moves
  · exact self.moves_queueForNewFile wqe

theorem moves_processWaitQueue (self : Engine n) : self.Moves self.processWaitQueue := by
  have hloop : ∀ (queue : List QueuedWrite) (self : Engine n),
      self.Moves (queue.foldl submitWaitQueueEntry self) := by
    intro queue
    induction queue with
    | nil => exact fun self => .refl self
    | cons wqe queue ih => exact fun self => (self.moves_submitWaitQueueEntry wqe).trans (ih _)
  rw [processWaitQueue]
  split_ifs
  · exact .refl self
  · exact self.moves_notifications _ self.bufferManager.wasBackpressureActive
  · exact (self.moves_waitQueue []).trans (hloop _ _)

theorem moves_processResumeNotifications (self : Engine n) :
    self.Moves self.processResumeNotifications := by
  have hiterate : ∀ (k : ℕ) (self : Engine n), self.Moves (processWaitQueue^[k] self) := by
    intro k
    induction k with
    | zero => exact fun self => .refl self
    | succ k ih => exact fun self => self.moves_processWaitQueue.trans (ih _)
  rw [processResumeNotifications]
  dsimp only
  split_ifs
  · exact .refl self
  · have hclear := self.moves_notifications 0 self.bufferManager.wasBackpressureActive
    have hself := hclear.trans (hiterate self.bufferManager.resumeCallbacks _)
    exact hself.trans (moves_notifications _ _ _)
  · exact self.moves_notifications self.bufferManager.resumeCallbacks _

/-- An event that neither fills a buffer nor completes a write. -/
def isSingle : AsyncEvent → Bool
  | .putBuffered _ _ => false
  | .complete _ _ => false
  | .flush => false
  | .submitBuffer _ => false
  | _ => true

/-- **Such an event consists of moves.** -/
theorem moves_step {ev : AsyncEvent} {r : Engine n × List WriteEffect} (hev : isSingle ev = true)
    (hr : self.step ev = some r) : self.Moves r.1 := by
  cases ev with
  | putAsync key iovLens =>
      obtain rfl := Option.some.inj hr
      exact self.moves_putAsync key iovLens
  | deleteAsync key =>
      obtain rfl := Option.some.inj hr
      exact self.moves_deleteAsync key
  | resume =>
      obtain rfl := Option.some.inj hr
      exact self.moves_processResumeNotifications
  | processWaitQueue =>
      obtain rfl := Option.some.inj hr
      dsimp only
      split_ifs
      · exact .refl self
      · exact self.moves_processWaitQueue
  | newFileAllocated success =>
      rw [step] at hr
      split_ifs at hr
      obtain rfl := Option.some.inj hr
      exact self.moves_onNewFileAllocated success
  | checkpointForAlloc ok =>
      rw [step] at hr
      split_ifs at hr
      obtain rfl := Option.some.inj hr
      exact self.moves_resumeAllocationAfterCheckpoint ok
  | allocLog nearFull =>
      obtain rfl := Option.some.inj hr
      exact moves_space rfl
  | putBuffered _ _ | complete _ _ | flush | submitBuffer _ => cases hev

/-- What every move keeps, moves keep. -/
theorem Moves.keeps {P : Engine n → Prop} (step : ∀ a b : Engine n, a.Move b → P a → P b)
    (h : self.Moves self') (hp : P self) : P self' := by
  induction h with
  | refl => exact hp
  | tail _ hmove ih => exact step _ _ hmove ih

end Engine

end SpdkKv
