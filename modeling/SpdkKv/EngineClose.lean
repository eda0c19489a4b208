import SpdkKv.FileMappings
import SpdkKv.FileTable
import SpdkKv.RequestSystem

/-!
# Closing the Engine

`Engine::close` submits the append buffers, fails the writes that wait for the end of
backpressure, forgets the records of the buffers, writes the superblock and waits for the blob
operations under way. It waits neither for the buffers it submitted nor for the other writes and
reads in flight, nor for the writes that wait for a new file, and it does not look at whether the
superblock was written.

## Main results

* `CloseSystem.Inv.step`: the invariant of the phases.
* `CloseSystem.close_settles`: **when `close` returns, every request is answered and the disk
  says what the engine says**, in every run in which nothing is left to what `close` does not
  wait for.
-/

namespace SpdkKv

variable {n : ℕ}

/-! ### The system -/

/-- How far `close` is. -/
inductive ClosePhase
  /-- It was not called. -/
  | opened
  /-- It submits the append buffers. -/
  | flushing
  /-- It writes the superblock. -/
  | persisting
  /-- It waits for blob operations. -/
  | closingBlobs
  /-- It returned `kSuccess`. -/
  | closed
  deriving DecidableEq, Repr

/-- What a superblock says of files and statistics. -/
structure SavedState where
  superblock : SuperblockFiles
  totalEntries : ℕ
  deriving DecidableEq, Repr

/-- The engine with its requests, and `close`. -/
structure CloseSystem (n : ℕ) where
  requests : RequestSystem n
  phase : ClosePhase
  /-- The superblock that `close` writes. -/
  saving : SavedState
  /-- What was written to the disk since `close` was called. -/
  disk : Option SavedState
  /-- The writes that were reported successful since `close` made its superblock. -/
  unsaved : List WriteOp

/-- What can happen. -/
inductive CloseEvent (n : ℕ)
  /-- An event of the engine or of a request. -/
  | request (ev : RequestEvent n)
  /-- `close` is called. -/
  | close
  /-- All append buffers are submitted; the superblock is made. -/
  | persist
  /-- A checkpoint that was under way writes its superblock. -/
  | checkpointEnds (ok : Bool)
  /-- The write of the superblock of `close` ends. -/
  | superblockWritten (ok : Bool)
  /-- `close` returns. -/
  | finish

/-- The state that a superblock with the given position would save. -/
def EngineSystem.toSave (self : EngineSystem n) (position : Option (ℕ × ℕ)) : SavedState :=
  ⟨self.updatedSuperblock position, self.engine.memIndex.size⟩

/-- The callbacks of the wait queue run with an error. -/
def RequestSystem.failWaitQueue (self : RequestSystem n) : RequestSystem n :=
  let engine := self.system.engine
  let self := self.withEngine { engine with waitQueue := [] }
  { self with
    answered := self.answered + ↑((engine.waitQueue.map QueuedWrite.op).map Request.write) }

/-- `buffer_pending_writes_.clear()`. -/
def RequestSystem.clearBuffered (self : RequestSystem n) : RequestSystem n :=
  self.withEngine { self.system.engine with bufferPendingWrites := [] }

/-- The superblock in memory changes. -/
def RequestSystem.withSuperblock (self : RequestSystem n) (superblock : SuperblockFiles) :
    RequestSystem n :=
  { self with system := self.system.withSuperblock superblock }

namespace CloseSystem

/-- The state of the engine changes. -/
def withState (self : CloseSystem n) (state : EngineState) : CloseSystem n :=
  { self with requests := self.requests.withEngine { self.requests.system.engine with
    state := state } }

/-- `close`, up to the loop that submits the buffers. -/
def close (self : CloseSystem n) : CloseSystem n :=
  let self := self.withState .kClosing
  let engine := self.requests.system.engine
  { self with
    requests := self.requests.withEngine { engine with
      bufferManager := engine.bufferManager.submitCurrentBuffer }
    phase := .flushing }

/-- `close`, from there to the write of the superblock. -/
def persist (self : CloseSystem n) : CloseSystem n :=
  let requests := self.requests.failWaitQueue.clearBuffered
  let saved := requests.system.toSave none
  { self with
    requests := requests.withSuperblock saved.superblock
    phase := .persisting
    saving := saved
    unsaved := [] }

/-- A superblock was written. -/
def save (self : CloseSystem n) (saved : SavedState) : CloseSystem n :=
  { self with
    requests := { self.requests with system := { self.requests.system with
      persisted := saved.superblock } }
    disk := some saved }

/-- A checkpoint writes its superblock. -/
def endCheckpoint (self : CloseSystem n) (position : Option (ℕ × ℕ)) (ok : Bool) :
    CloseSystem n :=
  let saved := self.requests.system.toSave position
  let self := { self with requests := self.requests.withSuperblock saved.superblock }
  if ok then self.save saved else self

/-- What can happen while `close` polls. -/
def whileWaiting : RequestEvent n → Bool
  | .call _ => true
  | .engine (.async (.complete _ _)) => true
  | .readComplete _ => true
  | .newFileAllocated _ _ => true
  | .checkpointForAlloc _ _ => true
  | .engine _ => false

/-- What can happen while `close` submits the buffers; `submit_buffer_io` waits for a new file
if it needs one. -/
def whileFlushing (self : CloseSystem n) : RequestEvent n → Bool
  | .engine .submitBuffer => self.requests.system.stack.isEmpty
  | .engine (.wake _) => true
  | ev => whileWaiting ev

/-- What can happen in a phase. -/
def allows (self : CloseSystem n) (ev : RequestEvent n) : Bool :=
  match self.phase with
  | .opened => true
  | .flushing => self.whileFlushing ev
  | .persisting => whileWaiting ev
  | .closingBlobs => whileWaiting ev
  | .closed => false

/-- A write in flight completes successfully. -/
def completesWrite : RequestEvent n → Bool
  | .engine (.async (.complete _ true)) => true
  | _ => false

/-- The writes that an event reports successful. -/
def successes (self : CloseSystem n) : RequestEvent n → List WriteOp
  | .engine ev => (completedWrites (self.requests.system.effects ev)).map CompletedWrite.op
  | _ => []

/-- The state after an event, if the event can happen. -/
def step (self : CloseSystem n) : CloseEvent n → Option (CloseSystem n)
  | .request ev =>
      if self.allows ev then
        (self.requests.step ev).map fun requests =>
          { self with requests := requests, unsaved := self.unsaved ++ self.successes ev }
      else none
  | .close =>
      if self.phase = .opened && self.requests.system.engine.state = .kReady &&
          self.requests.system.stack.isEmpty then
        some self.close
      else none
  | .persist =>
      if self.phase = .flushing && self.requests.system.engine.bufferManager.submitRing.isEmpty &&
          self.requests.system.stack.isEmpty then
        some self.persist
      else none
  | .checkpointEnds ok =>
      if self.phase = .opened ∨ self.phase = .closed then none
      else some (self.endCheckpoint self.requests.system.position ok)
  | .superblockWritten ok =>
      if self.phase = .persisting then
        some { if ok then self.save self.saving else self with phase := .closingBlobs }
      else none
  | .finish =>
      if self.phase = .closingBlobs then some { self.withState .kClosed with phase := .closed }
      else none

/-- The state after `create` or `open`. -/
def opened (system : EngineSystem n) : CloseSystem n :=
  ⟨.opened system, .opened, ⟨system.persisted, 0⟩, none, []⟩

end CloseSystem

/-- The engine with `close` as a machine. -/
def closeMachine (n : ℕ) : Machine (CloseSystem n) (CloseEvent n) where
  step := CloseSystem.step

/-! ### Completions that fail -/

namespace Engine

/-- A buffer whose IO failed leaves the index alone. -/
theorem foldl_completeBuffered_false (fileId base : ℕ) (ws : List BufferedPendingWrite) :
    ∀ r : Engine n × List WriteEffect, (ws.foldl (completeBuffered fileId base false) r).1 = r.1 := by
  induction ws with
  | nil => exact fun _ => rfl
  | cons w ws ih => exact fun r => ih _

/-- The completion of a write that failed touches neither the files nor the statistics. -/
theorem completeInflight_false {self : Engine n} {i : ℕ} {r : Engine n × List WriteEffect}
    (hr : self.completeInflight i false = some r) :
    ∃ inflight m ws count, ws ⊆ self.bufferPendingWrites ∧ r.1 = { self with
      space := { self.space with inflight := inflight }
      bufferManager := m
      bufferPendingWrites := ws
      pendingForegroundCount := count } := by
  obtain ⟨io, -, rfl⟩ := Option.map_eq_some_iff.mp hr
  cases io.write with
  | buffer b fileId base =>
      refine ⟨self.space.inflight.eraseIdx i, self.bufferManager.returnBuffer b,
        self.bufferPendingWrites.eraseP fun p => p.1 == b, self.pendingForegroundCount - 1,
        List.eraseP_subset, ?_⟩
      rw [onComplete, onBufferIoComplete]
      dsimp only
      rw [foldl_completeBuffered_false]
      rfl
  | queued _ | putAsync _ _ | deleteAsync _ _ _ | waitQueue _ =>
      exact ⟨_, _, _, _, List.Subset.refl _, rfl⟩

/-- It reports no success. -/
theorem completedWrites_onComplete_false (self : Engine n) (write : InflightWrite) :
    completedWrites (self.onComplete false write).2 = [] := by
  cases write with
  | buffer b fileId base =>
      have hloop : ∀ (ws : List BufferedPendingWrite) (r : Engine n × List WriteEffect),
          completedWrites r.2 = [] →
            completedWrites (ws.foldl (completeBuffered fileId base false) r).2 = [] := by
        intro ws
        induction ws with
        | nil => exact fun _ hr => hr
        | cons w ws ih =>
            refine fun r hr => ih _ ?_
            rw [completeBuffered, if_neg Bool.false_ne_true, completedWrites_append, hr]
            rfl
      exact hloop _ _ rfl
  | queued _ | putAsync _ _ | deleteAsync _ _ _ | waitQueue _ => rfl

/-- An engine that is not ready rejects every call. -/
theorem call_of_not_ready {self : Engine n} (h : self.state ≠ .kReady) (c : ApiCall) :
    self.call c = (self, []) := by
  cases c with
  | putAsync key iovLens => exact if_pos h
  | putBuffered key valueLen => exact if_pos h
  | deleteAsync key => exact if_pos h
  | getAsync key outputLens => simp [call, acceptsGet, h]

end Engine

/-! ### The state of the engine -/

namespace Engine

variable {self self' : Engine n}

/-- Moves leave the state alone. -/
theorem Moves.state_eq (h : self.Moves self') : self'.state = self.state := by
  refine h.keeps (P := fun e => e.state = self.state) (fun a b hmove ha => ?_) rfl
  cases hmove <;> exact ha

theorem putBuffered_state (self : Engine n) (key : UInt64) (valueLen : ℕ) :
    (self.putBuffered key valueLen).1.state = self.state := by
  rw [putBuffered]
  split_ifs
  · rfl
  · rfl
  · dsimp only
    split
    · rfl
    · split_ifs
      · rfl
      · split <;> rfl

theorem call_state (self : Engine n) (c : ApiCall) : (self.call c).1.state = self.state := by
  cases c with
  | putAsync key iovLens => exact (self.moves_putAsync key iovLens).state_eq
  | putBuffered key valueLen => exact self.putBuffered_state key valueLen
  | deleteAsync key => exact (self.moves_deleteAsync key).state_eq
  | getAsync key outputLens =>
      rw [call]
      split_ifs <;> rfl

theorem completePut_state (self : Engine n) (key : UInt64) (entry : MemIndexEntry) :
    (self.completePut key entry).state = self.state := by
  rw [completePut, markGarbage]
  split <;> rfl

theorem onComplete_state (self : Engine n) (ok : Bool) (write : InflightWrite) :
    (self.onComplete ok write).1.state = self.state :=
  onComplete_keeps completePut_state (fun _ _ _ => rfl) (fun _ _ => rfl) self ok write

theorem step_state {ev : AsyncEvent} {r : Engine n × List WriteEffect}
    (hev : ∀ allocOk, ev ≠ .submitBuffer allocOk) (hr : self.step ev = some r) :
    r.1.state = self.state := by
  by_cases hsingle : isSingle ev = true
  · exact (moves_step hsingle hr).state_eq
  · cases ev with
    | putBuffered key valueLen =>
        obtain rfl := Option.some.inj hr
        exact self.putBuffered_state key valueLen
    | flush =>
        obtain rfl := Option.some.inj hr
        rfl
    | complete i ok =>
        obtain ⟨io, -, rfl⟩ := Option.map_eq_some_iff.mp hr
        exact onComplete_state _ ok io.write
    | submitBuffer allocOk => exact absurd rfl (hev allocOk)
    | _ => exact absurd rfl hsingle

end Engine

namespace EngineSystem

variable {s s' : EngineSystem n}

theorem allocateNewFile_state (s : EngineSystem n) (caller : AllocCaller) :
    (s.allocateNewFile caller).engine.state = s.engine.state := by
  rw [allocateNewFile]
  split_ifs <;> rfl

theorem callSubmitBuffer_state (s : EngineSystem n) :
    s.callSubmitBuffer.engine.state = s.engine.state := by
  rw [callSubmitBuffer]
  split
  · rfl
  · dsimp only
    split_ifs
    · rfl
    · split
      · rfl
      · exact allocateNewFile_state _ _

theorem wake_state {ok : Bool} (hs : s.wake ok = some s') : s'.engine.state = s.engine.state := by
  rw [wake] at hs
  split at hs
  · cases hs
  · obtain rfl := Option.some.inj hs
    rfl
  · next caller _ _ =>
      split_ifs at hs
      · obtain rfl := Option.some.inj hs
        cases caller <;> rfl
      · obtain rfl := Option.some.inj hs
        cases caller <;> rfl
  · next w rest _ =>
      obtain ⟨-, hs⟩ := Option.ite_none_left_eq_some.mp hs
      obtain rfl := Option.some.inj hs
      dsimp only
      rw [Engine.endSync]
      split_ifs
      · rfl
      · exact s.engine.completePut_state w.req.key (Engine.entryFor w.file w.req)
      · rfl

end EngineSystem

namespace RequestSystem

variable {s s' : RequestSystem n}

theorem failPendingWrites_state (s : RequestSystem n) (calls : List ApiCall) :
    (s.failPendingWrites calls).system.engine.state = s.system.engine.state := by
  have hcalls : ∀ (calls : List ApiCall) (s : RequestSystem n),
      (calls.foldl call s).system.engine.state = s.system.engine.state := by
    intro calls
    induction calls with
    | nil => exact fun _ => rfl
    | cons c calls ih =>
        intro s
        rw [List.foldl_cons, ih, engine_call, Engine.call_state]
  exact hcalls calls _

/-- **While `close` polls, the engine is not ready again.** -/
theorem step_state {ev : RequestEvent n}
    (hev : CloseSystem.whileWaiting ev = true ∨ ev = .engine .submitBuffer ∨
      ∃ ok, ev = .engine (.wake ok)) (hs : s.step ev = some s') :
    s'.system.engine.state = s.system.engine.state := by
  cases ev with
  | call c =>
      obtain rfl := Option.some.inj hs
      rw [engine_call, Engine.call_state]
  | readComplete i =>
      obtain ⟨req, -, rfl⟩ := Option.map_eq_some_iff.mp hs
      rfl
  | newFileAllocated success calls =>
      obtain ⟨-, hs⟩ := Option.ite_none_right_eq_some.mp hs
      split_ifs at hs
      · obtain rfl := Option.some.inj hs
        exact (Engine.moves_processPendingWriteQueue _).state_eq
      · obtain rfl := Option.some.inj hs
        exact failPendingWrites_state _ calls
  | checkpointForAlloc ok calls =>
      obtain ⟨-, hs⟩ := Option.ite_none_right_eq_some.mp hs
      split_ifs at hs
      · obtain rfl := Option.some.inj hs
        rfl
      · obtain rfl := Option.some.inj hs
        exact failPendingWrites_state _ calls
  | engine ev =>
      obtain ⟨-, hs⟩ := Option.ite_none_right_eq_some.mp hs
      obtain ⟨system, hsystem, rfl⟩ := Option.map_eq_some_iff.mp hs
      rcases hev with hev | hev | ⟨ok, hev⟩
      · cases ev with
        | async ev =>
            obtain ⟨hcan, r, hr, rfl⟩ := EngineSystem.step_async hsystem
            refine Engine.step_state ?_ hr
            rintro allocOk rfl
            cases hcan
        | _ => cases hev
      · cases hev
        obtain rfl := Option.some.inj hsystem
        exact s.system.callSubmitBuffer_state
      · cases hev
        exact EngineSystem.wake_state hsystem

end RequestSystem

/-! ### Once the superblock is made -/

/-- The completion of a write that failed reports no success. -/
theorem EngineSystem.completedWrites_complete_false (s : EngineSystem n) (i : ℕ) :
    completedWrites (s.effects (.async (.complete i false))) = [] := by
  rw [effects, Engine.step, Engine.completeInflight]
  cases s.engine.space.inflight[i]? with
  | none => rfl
  | some io => exact Engine.completedWrites_onComplete_false _ io.write

/-- The saved state is that of the engine. -/
structure SavedState.Holds (saved : SavedState) (e : Engine n) : Prop where
  files : ∀ file ∈ e.space.files, .ofFile file ∈ saved.superblock.fileMappings
  activeFileId : saved.superblock.activeFileId = e.space.activeFileId
  totalDataBytes : saved.superblock.totalDataBytes = e.totalDataBytes
  totalGarbageBytes : saved.superblock.totalGarbageBytes = e.totalGarbageBytes
  totalEntries : saved.totalEntries = e.memIndex.size

/-- Nothing is left that is not in flight, and the files have a place in the superblock. -/
structure EngineSystem.Settled (s : EngineSystem n) : Prop where
  state : s.engine.state ≠ .kReady
  stack : s.stack = []
  waiting : s.engine.waitQueue = []
  pending : s.engine.pendingWriteQueue = []
  buffered : ∀ p ∈ s.engine.bufferPendingWrites, p.2 = []
  newFile : s.engine.space.newFile = none
  checkpoint : s.engine.space.pendingCheckpointForAlloc = false
  nodup : s.engine.space.fileIds.Nodup
  room : s.engine.space.superblock.HasRoomFor s.engine.space.files

namespace EngineSystem

variable {s s' : EngineSystem n}

/-- The superblock that is made holds the state of the engine. -/
theorem Settled.holds_toSave (h : s.Settled) (position : Option (ℕ × ℕ)) :
    (s.toSave position).Holds s.engine where
  files := fun _ hfile => SuperblockFiles.ofFile_mem_updateAll h.nodup h.room hfile
  activeFileId := rfl
  totalDataBytes := rfl
  totalGarbageBytes := rfl
  totalEntries := rfl

theorem holds_withSuperblock {saved : SavedState} (h : saved.Holds s.engine)
    (superblock : SuperblockFiles) : saved.Holds (s.withSuperblock superblock).engine :=
  ⟨h.files, h.activeFileId, h.totalDataBytes, h.totalGarbageBytes, h.totalEntries⟩

/-- A further superblock has room for the files. -/
theorem Settled.withSuperblock (h : s.Settled) (position : Option (ℕ × ℕ)) :
    (s.withSuperblock (s.toSave position).superblock).Settled where
  state := h.state
  stack := h.stack
  waiting := h.waiting
  pending := h.pending
  buffered := h.buffered
  newFile := h.newFile
  checkpoint := h.checkpoint
  nodup := h.nodup
  room := by
    have hfits : s.engine.space.superblock.Fits := le_trans (Nat.le_add_right _ _) h.room
    have hmapped : ∀ file ∈ s.engine.space.files,
        file.fileId ∈ (s.engine.space.superblock.updateAll s.engine.space.files).fileIds :=
      fun file hfile => List.mem_map_of_mem (f := FileMapping.fileId)
        (SuperblockFiles.ofFile_mem_updateAll h.nodup h.room hfile)
    have hnone : (s.engine.space.files.filter fun file => file.fileId ∉
        (s.engine.space.superblock.updateAll s.engine.space.files).fileIds) = [] :=
      List.filter_eq_nil_iff.mpr fun file hfile => by simp [hmapped file hfile]
    have hroom : (s.engine.space.superblock.updateAll s.engine.space.files).HasRoomFor
        s.engine.space.files := by
      rw [SuperblockFiles.HasRoomFor, hnone]
      exact hfits.updateAll _
    exact hroom

theorem Settled.persisted (h : s.Settled) (superblock : SuperblockFiles) :
    Settled { s with persisted := superblock } :=
  ⟨h.state, h.stack, h.waiting, h.pending, h.buffered, h.newFile, h.checkpoint, h.nodup, h.room⟩

/-- What a write that fails leaves settled. -/
theorem Settled.engine (h : s.Settled) {saved : SavedState} (hsaved : saved.Holds s.engine)
    {inflight : List (InflightIo InflightWrite)} {m : AppendBufferManager}
    {ws : List (ℕ × List BufferedPendingWrite)} {count : ℕ}
    (hws : ws ⊆ s.engine.bufferPendingWrites) (hstack : s'.stack = s.stack)
    (he : s'.engine = { s.engine with
      space := { s.engine.space with inflight := inflight }
      bufferManager := m
      bufferPendingWrites := ws
      pendingForegroundCount := count }) :
    s'.Settled ∧ saved.Holds s'.engine := by
  refine ⟨⟨?_, hstack.trans h.stack, ?_, ?_, ?_, ?_, ?_, ?_, ?_⟩, ⟨?_, ?_, ?_, ?_, ?_⟩⟩
  all_goals rw [he]
  · exact h.state
  · exact h.waiting
  · exact h.pending
  · exact fun p hp => h.buffered p (hws hp)
  · exact h.newFile
  · exact h.checkpoint
  · exact h.nodup
  · exact h.room
  · exact hsaved.files
  · exact hsaved.activeFileId
  · exact hsaved.totalDataBytes
  · exact hsaved.totalGarbageBytes
  · exact hsaved.totalEntries

end EngineSystem

/-! ### The condition -/

namespace CloseSystem

variable {s s' : CloseSystem n}

/-- `close` has made its superblock and does not poll any more for what it did not save. -/
def isSaving (s : CloseSystem n) : Bool := s.phase = .persisting || s.phase = .closingBlobs

/-- Nothing is left to what `close` does not wait for. -/
def Orderly (s : CloseSystem n) : CloseEvent n → Prop
  | .request ev =>
      s.requests.Silent ev ∧ (s.isSaving = true → completesWrite ev = false)
  | .persist =>
      let engine := s.requests.system.engine
      (∀ p ∈ engine.bufferPendingWrites, p.2 = []) ∧ engine.pendingWriteQueue = [] ∧
        engine.space.newFile = none ∧ engine.space.pendingCheckpointForAlloc = false ∧
        engine.space.fileIds.Nodup ∧ engine.space.superblock.HasRoomFor engine.space.files
  | .superblockWritten ok => ok = true
  | .finish => s.requests.system.engine.space.inflight = [] ∧ s.requests.reads = []
  | .close => True
  | .checkpointEnds _ => True

/-- Whether an event is orderly can be computed. -/
instance decidableOrderly (s : CloseSystem n) : ∀ ev : CloseEvent n, Decidable (s.Orderly ev)
  | .request _ => inferInstanceAs (Decidable (_ ∧ _))
  | .persist => inferInstanceAs (Decidable (_ ∧ _ ∧ _ ∧ _ ∧ _ ∧ _))
  | .superblockWritten _ => inferInstanceAs (Decidable (_ = _))
  | .finish => inferInstanceAs (Decidable (_ ∧ _))
  | .close | .checkpointEnds _ => .isTrue trivial

/-- The disk says what the engine says, and no write was reported successful behind its back. -/
def Reflected (s : CloseSystem n) : Prop :=
  ∃ saved, s.disk = some saved ∧ saved.Holds s.requests.system.engine ∧ s.unsaved = []

/-- What holds in each phase. -/
def Inv (s : CloseSystem n) : Prop :=
  s.requests.Owes 0 ∧
    match s.phase with
    | .opened => True
    | .flushing => s.requests.system.engine.state ≠ .kReady
    | .persisting =>
        s.requests.system.Settled ∧ s.saving.Holds s.requests.system.engine ∧ s.unsaved = []
    | .closingBlobs => s.requests.system.Settled ∧ s.Reflected
    | .closed => s.requests.accepted = s.requests.answered ∧ s.Reflected

/-! ### Steps -/

/-- An engine that is not ready does nothing for a call. -/
theorem system_call {s : RequestSystem n} (h : s.system.engine.state ≠ .kReady) (c : ApiCall) :
    (s.call c).system = s.system := by
  have hcall := Engine.call_of_not_ready h
  cases c with
  | getAsync key outputLens =>
      rw [RequestSystem.call]
      split_ifs
      · rw [RequestSystem.withEngine, hcall]
      · rfl
  | putAsync _ _ | putBuffered _ _ | deleteAsync _ =>
      exact congrArg (fun r : Engine n × List WriteEffect => { s.system with engine := r.1 })
        (hcall _)

/-- **What `close` polls for while it saves leaves everything settled**, unless a write is
reported successful. -/
theorem settled_step {s s' : RequestSystem n} {saved : SavedState} (h : s.system.Settled)
    (hsaved : saved.Holds s.system.engine) {ev : RequestEvent n} (hev : whileWaiting ev = true)
    (hfails : completesWrite ev = false) (hs : s.step ev = some s') :
    s'.system.Settled ∧ saved.Holds s'.system.engine := by
  cases ev with
  | call c =>
      obtain rfl := Option.some.inj hs
      rw [system_call h.state]
      exact ⟨h, hsaved⟩
  | readComplete i =>
      obtain ⟨req, -, rfl⟩ := Option.map_eq_some_iff.mp hs
      exact h.engine hsaved (List.Subset.refl _) rfl rfl
  | newFileAllocated success calls =>
      rw [RequestSystem.step, h.newFile] at hs
      cases hs
  | checkpointForAlloc ok calls =>
      rw [RequestSystem.step, h.checkpoint] at hs
      cases hs
  | engine ev =>
      obtain ⟨-, hs⟩ := Option.ite_none_right_eq_some.mp hs
      obtain ⟨system, hsystem, rfl⟩ := Option.map_eq_some_iff.mp hs
      cases ev with
      | async ev =>
          cases ev with
          | complete i ok =>
              cases ok with
              | true => cases hfails
              | false =>
                  obtain ⟨-, r, hr, rfl⟩ := EngineSystem.step_async hsystem
                  obtain ⟨inflight, m, ws, count, hws, heq⟩ := Engine.completeInflight_false hr
                  exact h.engine hsaved hws rfl heq
          | _ => cases hev
      | _ => cases hev

/-- Failing writes leave nothing unsaved. -/
theorem successes_eq_nil {ev : RequestEvent n} (hev : whileWaiting ev = true)
    (hfails : completesWrite ev = false) : s.successes ev = [] := by
  cases ev with
  | engine ev =>
      cases ev with
      | async ev =>
          cases ev with
          | complete i ok =>
              cases ok with
              | true => cases hfails
              | false =>
                  have hnone := s.requests.system.completedWrites_complete_false i
                  rw [successes, hnone, List.map_nil]
          | _ => cases hev
      | _ => cases hev
  | call _ | readComplete _ | newFileAllocated _ _ | checkpointForAlloc _ _ => rfl

/-- The wait queue fails; every request is accounted for. -/
theorem owes_persist (h : s.requests.Owes 0)
    (hbuffered : ∀ p ∈ s.requests.system.engine.bufferPendingWrites, p.2 = []) :
    s.persist.requests.Owes 0 := by
  let engine := s.requests.system.engine
  let waiting : Multiset Request :=
    ↑((engine.waitQueue.map QueuedWrite.op).map Request.write)
  have hbufferedOps : bufferedOps engine.bufferPendingWrites = [] :=
    List.flatMap_eq_nil_iff.mpr fun p hp => by rw [hbuffered p hp, List.map_nil]
  have hpending : engine.pending =
      Engine.pending { engine with waitQueue := [], bufferPendingWrites := [] } +
        ↑(engine.waitQueue.map QueuedWrite.op) := by
    rw [Engine.pending, Engine.pending, hbufferedOps]
    simp only [List.map_nil, Multiset.coe_nil, bufferedOps, List.flatMap_nil]
    abel
  have hsum : ∀ a b c d : Multiset Request, a + b + c + d = a + c + (d + b) :=
    fun _ _ _ _ => by abel
  rw [RequestSystem.Owes, RequestSystem.recorded, hpending, Multiset.map_add,
    Multiset.map_coe] at h
  exact h.trans (hsum _ _ _ _)

/-- A checkpoint that was under way saves the state of the engine, too. -/
theorem Inv.checkpointEnds (h : s.Inv) (hclosing : s.phase ≠ .opened ∧ s.phase ≠ .closed)
    (position : Option (ℕ × ℕ)) (ok : Bool) :
    (s.endCheckpoint position ok).Inv := by
  obtain ⟨howes, hphase⟩ := h
  have howes' : (s.endCheckpoint position ok).requests.Owes 0 := by
    cases ok <;> exact howes
  refine ⟨howes', ?_⟩
  have hphase' : (s.endCheckpoint position ok).phase = s.phase := by cases ok <;> rfl
  rw [hphase']
  cases hs : s.phase with
  | opened => exact absurd hs hclosing.1
  | closed => exact absurd hs hclosing.2
  | flushing =>
      rw [hs] at hphase
      cases ok <;> exact hphase
  | persisting =>
      rw [hs] at hphase
      obtain ⟨hsettled, hholds, hunsaved⟩ := hphase
      have hsettled' := hsettled.withSuperblock position
      have hholds' := EngineSystem.holds_withSuperblock hholds
        (s.requests.system.toSave position).superblock
      cases ok with
      | false => exact ⟨hsettled', hholds', hunsaved⟩
      | true => exact ⟨hsettled'.persisted _, hholds', hunsaved⟩
  | closingBlobs =>
      rw [hs] at hphase
      obtain ⟨hsettled, saved, hdisk, hholds, hunsaved⟩ := hphase
      have hsettled' := hsettled.withSuperblock position
      have hholds' := fun {saved : SavedState} (h : saved.Holds s.requests.system.engine) =>
        EngineSystem.holds_withSuperblock h (s.requests.system.toSave position).superblock
      cases ok with
      | false => exact ⟨hsettled', saved, hdisk, hholds' hholds, hunsaved⟩
      | true => exact ⟨hsettled'.persisted _, s.requests.system.toSave position, rfl,
          hholds' (hsettled.holds_toSave position), hunsaved⟩

/-- **Every event keeps what holds in its phase**, if it is orderly. -/
theorem Inv.step (h : s.Inv) {ev : CloseEvent n} (hc : s.Orderly ev) (hs : s.step ev = some s') :
    s'.Inv := by
  obtain ⟨howes, hphase⟩ := h
  cases ev with
  | request ev =>
      obtain ⟨hallows, hs⟩ := Option.ite_none_right_eq_some.mp hs
      obtain ⟨requests, hrequests, rfl⟩ := Option.map_eq_some_iff.mp hs
      have howes' : requests.Owes 0 := (howes.step_iff hrequests).mpr hc.1
      refine ⟨howes', ?_⟩
      rw [allows.eq_def] at hallows
      cases hopened : s.phase with
      | opened => trivial
      | flushing =>
          rw [hopened] at hallows hphase
          have hevent : whileWaiting ev = true ∨ ev = .engine .submitBuffer ∨
              ∃ ok, ev = .engine (.wake ok) := by
            dsimp only at hallows
            rw [whileFlushing.eq_def] at hallows
            split at hallows
            · exact .inr (.inl rfl)
            · exact .inr (.inr ⟨_, rfl⟩)
            · exact .inl hallows
          exact (RequestSystem.step_state hevent hrequests).trans_ne hphase
      | persisting =>
          rw [hopened] at hallows hphase
          obtain ⟨hsettled, hholds, hunsaved⟩ := hphase
          have hfails := hc.2 (by simp [isSaving, hopened])
          obtain ⟨hsettled', hholds'⟩ := settled_step hsettled hholds hallows hfails hrequests
          exact ⟨hsettled', hholds', by simp [hunsaved, successes_eq_nil hallows hfails]⟩
      | closingBlobs =>
          rw [hopened] at hallows hphase
          obtain ⟨hsettled, saved, hdisk, hholds, hunsaved⟩ := hphase
          have hfails := hc.2 (by simp [isSaving, hopened])
          obtain ⟨hsettled', hholds'⟩ := settled_step hsettled hholds hallows hfails hrequests
          exact ⟨hsettled', saved, hdisk, hholds',
            by simp [hunsaved, successes_eq_nil hallows hfails]⟩
      | closed =>
          rw [hopened] at hallows
          cases hallows
  | close =>
      obtain ⟨-, hs⟩ := Option.ite_none_right_eq_some.mp hs
      obtain rfl := Option.some.inj hs
      exact ⟨howes, nofun⟩
  | persist =>
      obtain ⟨hflushed, hs⟩ := Option.ite_none_right_eq_some.mp hs
      obtain rfl := Option.some.inj hs
      obtain ⟨hbuffered, hpending, hnew, hcheckpoint, hnodup, hroom⟩ := hc
      refine ⟨owes_persist howes hbuffered, ?_⟩
      simp only [Bool.and_eq_true, decide_eq_true_eq, List.isEmpty_iff] at hflushed
      obtain ⟨⟨hflushing, -⟩, hstack⟩ := hflushed
      rw [hflushing] at hphase
      let cleared := s.requests.failWaitQueue.clearBuffered.system
      have hsettled : cleared.Settled :=
        ⟨hphase, hstack, rfl, hpending, nofun, hnew, hcheckpoint, hnodup, hroom⟩
      have hholds := EngineSystem.holds_withSuperblock (hsettled.holds_toSave none)
        (cleared.toSave none).superblock
      exact ⟨hsettled.withSuperblock none, hholds, rfl⟩
  | checkpointEnds ok =>
      obtain ⟨hclosing, hs⟩ := Option.ite_none_left_eq_some.mp hs
      obtain rfl := Option.some.inj hs
      exact Inv.checkpointEnds ⟨howes, hphase⟩ (not_or.mp hclosing) _ ok
  | superblockWritten ok =>
      obtain ⟨hpersisting, hs⟩ := Option.ite_none_right_eq_some.mp hs
      obtain rfl := Option.some.inj hs
      obtain rfl : ok = true := hc
      rw [hpersisting] at hphase
      obtain ⟨hsettled, hholds, hunsaved⟩ := hphase
      exact ⟨howes, hsettled.persisted _, s.saving, rfl, hholds, hunsaved⟩
  | finish =>
      obtain ⟨hclosing, hs⟩ := Option.ite_none_right_eq_some.mp hs
      obtain rfl := Option.some.inj hs
      rw [hclosing] at hphase
      obtain ⟨hsettled, saved, hdisk, hholds, hunsaved⟩ := hphase
      obtain ⟨hinflight, hreads⟩ := hc
      have hrecorded : s.requests.recorded = 0 := by
        have hbuffered : bufferedOps s.requests.system.engine.bufferPendingWrites = [] :=
          List.flatMap_eq_nil_iff.mpr fun p hp => by rw [hsettled.buffered p hp, List.map_nil]
        rw [RequestSystem.recorded, Engine.pending, hinflight, hsettled.pending, hsettled.waiting,
          hbuffered, hreads]
        rfl
      have hall : s.requests.accepted = s.requests.answered := by
        rw [RequestSystem.Owes, hrecorded, add_zero, zero_add] at howes
        exact howes
      have hholds' : saved.Holds { s.requests.system.engine with state := .kClosed } :=
        ⟨hholds.files, hholds.activeFileId, hholds.totalDataBytes, hholds.totalGarbageBytes,
          hholds.totalEntries⟩
      exact ⟨howes, hall, saved, hdisk, hholds', hunsaved⟩

/-! ### Runs -/

/-- **When `close` returns, every request has been answered once and the disk holds the state of
the engine**, with every write that was reported successful, in every run whose steps are all
orderly. -/
theorem close_settles {system : EngineSystem n} (h : system.Opened) {s : CloseSystem n}
    {evs : List (CloseEvent n)} (hc : (closeMachine n).Meets Orderly (opened system) evs)
    (hr : (closeMachine n).run (opened system) evs = some s) (hclosed : s.phase = .closed) :
    s.requests.accepted = s.requests.answered ∧ s.Reflected := by
  have hinv : s.Inv :=
    (closeMachine n).run_invariant Inv (fun _ _ _ h hc hs => h.step hc hs)
      ⟨.opened h, trivial⟩ hc hr
  obtain ⟨-, hphase⟩ := hinv
  rw [hclosed] at hphase
  exact hphase

/-- An engine with an index of eight slots and files of four pages. -/
def smallEngine : CloseSystem 3 := opened (.created (MemIndex.fresh 3) 16384 kMinBufferCount 4)

/-- A put and a buffered put, both of which complete before the superblock is made, and a put
that waits for the end of `close` and fails. -/
def closeQuietly : List (CloseEvent 3) :=
  [.request (.call (.putAsync 1 [4096])), .request (.engine (.async (.complete 0 true))),
    .request (.call (.putBuffered 2 100)), .request (.engine (.async .flush)),
    .request (.engine .submitBuffer), .request (.call (.putAsync 3 [4096])), .close,
    .request (.engine (.async (.complete 0 true))), .persist,
    .request (.engine (.async (.complete 0 false))), .superblockWritten true, .finish]

/-- Closing such an engine answers everything. -/
theorem close_settles_closeQuietly :
    ∃ s, (closeMachine 3).run smallEngine closeQuietly = some s ∧
      s.requests.accepted = s.requests.answered ∧ s.Reflected := by
  have hrun : ((closeMachine 3).run smallEngine closeQuietly).map CloseSystem.phase =
      some .closed := by
    decide +kernel
  obtain ⟨s, hs, hclosed⟩ := Option.map_eq_some_iff.mp hrun
  exact ⟨s, hs, close_settles (.create _ _ _ _) (by decide +kernel) hs hclosed⟩

/-- **A buffered put is lost by `close`**: its buffer is submitted, its record forgotten, and
when the IO has completed there is no callback to run. -/
theorem close_loses_buffered :
    ∃ s, (closeMachine 3).run smallEngine
        [.request (.call (.putBuffered 1 100)), .close, .request (.engine .submitBuffer), .persist,
          .request (.engine (.async (.complete 0 true))), .superblockWritten true, .finish] =
          some s ∧
      s.phase = .closed ∧ Request.write ⟨1, 1, false⟩ ∈ s.requests.accepted ∧
      Request.write ⟨1, 1, false⟩ ∉ s.requests.answered := by
  have hrun : ((closeMachine 3).run smallEngine
      [.request (.call (.putBuffered 1 100)), .close, .request (.engine .submitBuffer), .persist,
        .request (.engine (.async (.complete 0 true))), .superblockWritten true, .finish]).map
      (fun s => (s.phase, decide (Request.write ⟨1, 1, false⟩ ∈ s.requests.accepted),
        decide (Request.write ⟨1, 1, false⟩ ∈ s.requests.answered))) =
      some (.closed, true, false) := by
    decide +kernel
  obtain ⟨s, hs, heq⟩ := Option.map_eq_some_iff.mp hrun
  obtain ⟨hclosed, heq⟩ := Prod.mk.inj heq
  obtain ⟨haccepted, hanswered⟩ := Prod.mk.inj heq
  exact ⟨s, hs, hclosed, of_decide_eq_true haccepted, of_decide_eq_false hanswered⟩

end CloseSystem

end SpdkKv
