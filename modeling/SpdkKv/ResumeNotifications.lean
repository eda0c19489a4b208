import SpdkKv.AsyncTrace
import SpdkKv.BufferLayout
import SpdkKv.EngineSystem

/-!
# Waking Up After Backpressure

A write that finds no room in an append buffer waits in the queue of the engine, an RDMA request
waits in the ring of resume callbacks. `Engine::poll` fires the callbacks when it finds that
backpressure has ended since it looked last, and serves the queue unless there is backpressure.
But backpressure only ends when the next write asks for room; the ring is not looked at when it
ended before `poll` saw it, or never set in; and a ring that is full drops callbacks.

## Main results

* `PollSystem.Inv.step`: no callback is lost or fired twice, unless the ring drops it.
* `PollSystem.served_of_wakes`: **when `poll` returns with few pending buffers, everything that
  waited was served**, in every run in which the callbacks find room and every such `poll` finds
  the end of backpressure.
-/

namespace SpdkKv

variable {n : ℕ}

/-! ### The system -/

/-- A callback in the ring; registrations are numbered. -/
structure ResumeNotification where
  number : ℕ
  /-- It belongs to an RDMA request; if not, it is `on_backpressure_resume`. -/
  isRdma : Bool
  deriving DecidableEq, Repr

/-- How far `poll` is; `m` callbacks had been registered when it was called. -/
inductive PollPhase
  | idle
  /-- It processes completions, flushes and submits buffers. -/
  | polling (m : ℕ)
  /-- `process_resume_notifications` fires the callbacks. -/
  | firing (m : ℕ)
  /-- `process_resume_notifications` has returned. -/
  | notified (m : ℕ)
  /-- `poll` has just returned. -/
  | returned (m : ℕ)
  deriving DecidableEq, Repr

/-- The engine with the callbacks that wait for the end of backpressure. What a method of the
engine registers is moved from the counter of the buffer manager to the ring. -/
structure PollSystem (n : ℕ) where
  engine : Engine n
  /-- `resume_callbacks_`. -/
  ring : List ResumeNotification
  /-- The number of calls of `register_resume_callback`. -/
  registered : ℕ
  /-- The callbacks that were fired. -/
  invoked : List ℕ
  phase : PollPhase

/-- What can happen. -/
inductive PollEvent
  /-- A call or a completion, inside or outside of `poll`, or a flush or submission inside. -/
  | engine (ev : AsyncEvent)
  /-- An RDMA request is accepted or deferred. -/
  | tryProcessOrDefer
  /-- `poll` is called. -/
  | beginPoll
  /-- `process_resume_notifications` is called. -/
  | notify
  /-- It fires the next callback. -/
  | fire
  /-- It finds the ring empty. -/
  | endNotify
  /-- `poll` serves the wait queue and returns. -/
  | endPoll

/-- The phase after something else has happened. -/
def PollPhase.leave : PollPhase → PollPhase
  | .returned _ => .idle
  | phase => phase

/-- A write that finds no room. -/
def Engine.refuses (self : Engine n) : AsyncEvent → Bool
  | .putBuffered _ valueLen =>
      self.state = .kReady && valueLen ≠ 0 &&
        match (self.bufferManager.reserveWithBackpressure (entrySize valueLen)).2 with
        | .ok _ => false
        | .error _ => true
  | _ => false

namespace PollSystem

/-- `register_resume_callback`. -/
def register (self : PollSystem n) (isRdma : Bool) : PollSystem n :=
  { self with
    registered := self.registered + 1
    ring :=
      if self.ring.length < kResumeCallbackCount then self.ring ++ [⟨self.registered, isRdma⟩]
      else self.ring }

/-- A method of the engine returns; what it registered goes to the ring. -/
def absorb (self : PollSystem n) (engine : Engine n) : PollSystem n :=
  (fun self => self.register false)^[engine.bufferManager.resumeCallbacks] { self with
    engine := { engine with bufferManager := { engine.bufferManager with
      resumeCallbacks := 0 } } }

/-- The flag of `process_resume_notifications` is updated. -/
def remember (self : PollSystem n) : PollSystem n :=
  { self with engine := { self.engine with bufferManager := { self.engine.bufferManager with
    wasBackpressureActive := self.engine.bufferManager.backpressureActive } } }

/-- The events of the engine that are not steps of `poll` of their own. -/
def isCall : AsyncEvent → Bool
  | .resume => false
  | .processWaitQueue => false
  | _ => true

/-- Whether calls and completions can come in a phase. -/
def allowsCalls : PollPhase → Bool
  | .notified _ => false
  | _ => true

/-- The state after an event, if the event can happen. -/
def step (self : PollSystem n) : PollEvent → Option (PollSystem n)
  | .engine ev =>
      if isCall ev && allowsCalls self.phase then
        (self.engine.step ev).map fun r =>
          { self.absorb r.1 with phase := self.phase.leave }
      else none
  | .tryProcessOrDefer =>
      if allowsCalls self.phase then
        let deferred :=
          if self.engine.bufferManager.backpressureActive then self.register true else self
        some { deferred with phase := self.phase.leave }
      else none
  | .beginPoll =>
      match self.phase with
      | .idle => some { self with phase := .polling self.registered }
      | .returned _ => some { self with phase := .polling self.registered }
      | _ => none
  | .notify =>
      let was := self.engine.bufferManager.wasBackpressureActive
      let active := self.engine.bufferManager.backpressureActive
      match self.phase with
      | .polling m =>
          if !was && !active then some { self with phase := .notified m }
          else if was && !active then some { self with phase := .firing m }
          else some { self.remember with phase := .notified m }
      | _ => none
  | .fire =>
      match self.phase, self.ring with
      | .firing _, next :: rest =>
          let self := { self with ring := rest, invoked := self.invoked ++ [next.number] }
          some (if next.isRdma then self else self.absorb self.engine.processWaitQueue)
      | _, _ => none
  | .endNotify =>
      match self.phase, self.ring with
      | .firing m, [] => some { self.remember with phase := .notified m }
      | _, _ => none
  | .endPoll =>
      match self.phase with
      | .notified m =>
          let served :=
            if self.engine.bufferManager.backpressureActive then self
            else self.absorb self.engine.processWaitQueue
          some { served with phase := .returned m }
      | _ => none

/-- The state after `create`. -/
def start (index : MemIndex n) (dataFileSize bufferCount : ℕ) : PollSystem n where
  engine := (EngineSystem.created index dataFileSize bufferCount 0).engine
  ring := []
  registered := 0
  invoked := []
  phase := .idle

/-- The number of pending buffers. -/
def pendingCount (s : PollSystem n) : ℕ := s.engine.bufferManager.submitRing.length

/-- **Nobody waits any more**: if `poll` has just returned with few pending buffers, there is no
backpressure, the wait queue is empty, and every callback that was registered before was fired
once. -/
def Served (s : PollSystem n) : Prop :=
  ∀ m, s.phase = .returned m → s.pendingCount ≤ kBackpressureLowWater →
    s.engine.bufferManager.backpressureActive = false ∧ s.engine.waitQueue = [] ∧
      ∀ k < m, s.invoked.count k = 1

/-- The condition: a callback that is registered finds room in the ring; a `poll` that is going
to return with few pending buffers finds that backpressure has ended, or that there is none and
no callback waits but those that were registered meanwhile. -/
def Wakes (s : PollSystem n) : PollEvent → Prop
  | .engine ev => s.engine.refuses ev = true → s.ring.length < kResumeCallbackCount
  | .tryProcessOrDefer =>
      s.engine.bufferManager.backpressureActive = true → s.ring.length < kResumeCallbackCount
  | .notify =>
      s.pendingCount ≤ kBackpressureLowWater →
        s.engine.bufferManager.backpressureActive = false ∧
          (s.engine.bufferManager.wasBackpressureActive = true ∨
            ∀ m, s.phase = .polling m → ∀ x ∈ s.ring, m ≤ x.number)
  | .endPoll =>
      s.pendingCount ≤ kBackpressureLowWater →
        s.engine.bufferManager.backpressureActive = false
  | .beginPoll | .fire | .endNotify => True

/-- Whether an event meets the condition can be computed. -/
instance decidableWakes (s : PollSystem n) : ∀ ev : PollEvent, Decidable (s.Wakes ev)
  | .engine _ => inferInstanceAs (Decidable (_ → _))
  | .tryProcessOrDefer => inferInstanceAs (Decidable (_ → _))
  | .notify =>
      have : Decidable (∀ m, s.phase = .polling m → ∀ x ∈ s.ring, m ≤ x.number) :=
        match h : s.phase with
        | .polling m =>
            decidable_of_iff (∀ x ∈ s.ring, m ≤ x.number)
              ⟨fun hm m' hm' => by cases hm'; exact hm, fun hm => hm m rfl⟩
        | .idle | .firing _ | .notified _ | .returned _ => .isTrue nofun
      inferInstanceAs (Decidable (_ → _ ∧ (_ ∨ _)))
  | .endPoll => inferInstanceAs (Decidable (_ → _))
  | .beginPoll | .fire | .endNotify => .isTrue trivial

end PollSystem

/-- The engine with its callbacks as a machine. -/
def pollMachine (n : ℕ) : Machine (PollSystem n) PollEvent where
  step := PollSystem.step

/-! ### What is registered -/

namespace Engine

variable {self : Engine n}

/-- The number of callbacks in the counter of the buffer manager. -/
def resumeCount (self : Engine n) : ℕ := self.bufferManager.resumeCallbacks

theorem resumeCount_queueForNewFile (self : Engine n) (req : QueuedWrite) :
    (self.queueForNewFile req).resumeCount = self.resumeCount := by
  rw [queueForNewFile]
  dsimp only
  split_ifs <;> rfl

theorem resumeCount_putAsync (self : Engine n) (key : UInt64) (iovLens : List ℕ) :
    (self.putAsync key iovLens).1.resumeCount = self.resumeCount := by
  rw [putAsync.eq_def]
  split_ifs
  · rfl
  · split
    · rfl
    · split_ifs
      · rfl
      · dsimp only
        split
        · split_ifs
          · exact resumeCount_queueForNewFile _ _
          · rfl
        · exact resumeCount_queueForNewFile _ _

theorem resumeCount_deleteAsync (self : Engine n) (key : UInt64) :
    (self.deleteAsync key).1.resumeCount = self.resumeCount := by
  rw [deleteAsync]
  split_ifs
  · rfl
  · split
    · rfl
    · dsimp only
      split
      · split_ifs
        · exact resumeCount_queueForNewFile _ _
        · rfl
      · exact resumeCount_queueForNewFile _ _

theorem resumeCount_processPendingWriteQueue (self : Engine n) :
    self.processPendingWriteQueue.1.resumeCount = self.resumeCount := by
  have hloop : ∀ (i : ℕ) (queue : List QueuedWrite) (e : Engine n),
      (queue.foldl (submitQueuedWrite i) e).resumeCount = e.resumeCount := by
    intro i queue
    induction queue with
    | nil => exact fun _ => rfl
    | cons req queue ih => exact fun e => ih (e.submitQueuedWrite i req)
  rw [processPendingWriteQueue]
  split
  · split_ifs
    · rfl
    · exact hloop _ _ _
  · rfl

theorem resumeCallbacks_submitCurrentBuffer (m : AppendBufferManager) :
    m.submitCurrentBuffer.resumeCallbacks = m.resumeCallbacks := by
  rw [AppendBufferManager.submitCurrentBuffer]
  split
  · rfl
  · split_ifs <;> rfl

theorem resumeCallbacks_returnBuffer (m : AppendBufferManager) (b : ℕ) :
    (m.returnBuffer b).resumeCallbacks = m.resumeCallbacks := by
  rw [AppendBufferManager.returnBuffer]
  dsimp only
  split_ifs <;> rfl

theorem resumeCallbacks_checkBackpressure (m : AppendBufferManager) :
    m.checkBackpressure.1.resumeCallbacks = m.resumeCallbacks := by
  have hexpand : m.tryExpand.1.resumeCallbacks = m.resumeCallbacks := by
    rw [AppendBufferManager.tryExpand]
    split_ifs
    · rfl
    · dsimp only
      split_ifs <;> rfl
  rw [AppendBufferManager.checkBackpressure]
  dsimp only
  split_ifs
  · rfl
  · rfl
  · exact hexpand
  · exact hexpand
  · rfl

theorem resumeCount_releaseBuffer (self : Engine n) (b : ℕ) :
    (self.releaseBuffer b).resumeCount = self.resumeCount :=
  resumeCallbacks_returnBuffer self.bufferManager b

theorem resumeCount_submitBufferIo (self : Engine n) (allocOk : Bool) :
    (self.submitBufferIo allocOk).1.resumeCount = self.resumeCount := by
  rw [submitBufferIo]
  split
  · rfl
  · dsimp only
    split_ifs
    · rfl
    · split
      · rfl
      · cases allocOk with
        | true => rfl
        | false => exact resumeCount_releaseBuffer _ _

theorem resumeCount_completePut (self : Engine n) (key : UInt64) (entry : MemIndexEntry) :
    (self.completePut key entry).resumeCount = self.resumeCount := by
  rw [completePut, markGarbage]
  split <;> rfl

theorem resumeCount_onComplete (self : Engine n) (ok : Bool) (write : InflightWrite) :
    (self.onComplete ok write).1.resumeCount = self.resumeCount :=
  onComplete_keeps resumeCount_completePut (fun _ _ _ => rfl) resumeCount_releaseBuffer
    self ok write

/-- A reservation that is refused is reported as backpressure. -/
theorem reserveWithBackpressure_eq_error {m m' : AppendBufferManager} {len : ℕ} {error : KvError}
    (hr : m.reserveWithBackpressure len = (m', .error error)) : error = .kBackpressure := by
  rw [AppendBufferManager.reserveWithBackpressure] at hr
  generalize m.checkBackpressure = c at hr
  obtain ⟨m₁, active⟩ := c
  dsimp only at hr
  split_ifs at hr
  · cases (Prod.mk.inj hr).2
    rfl
  · split at hr
    · cases (Prod.mk.inj hr).2
      rfl
    · cases (Prod.mk.inj hr).2

/-- **A write registers a callback exactly if it finds no room.** -/
theorem resumeCount_putBuffered (hzero : self.resumeCount = 0) (key : UInt64) (valueLen : ℕ) :
    (self.putBuffered key valueLen).1.resumeCount =
      if self.refuses (.putBuffered key valueLen) then 1 else 0 := by
  have hcheck : self.bufferManager.checkBackpressure.1.resumeCallbacks = 0 :=
    (resumeCallbacks_checkBackpressure _).trans hzero
  by_cases hready : self.state = .kReady
  · by_cases hlen : valueLen = 0
    · simpa [putBuffered, refuses, hready, hlen] using hzero
    · rw [putBuffered, if_neg (not_not.mpr hready), if_neg hlen]
      dsimp only
      rcases hr : self.bufferManager.reserveWithBackpressure (entrySize valueLen) with ⟨m, slot⟩
      cases slot with
      | ok slot =>
          have hfits : self.refuses (.putBuffered key valueLen) = false := by simp [refuses, hr]
          have hm : m.resumeCallbacks = 0 := by
            rw [(BuffersOk.reserveWithBackpressure_ok hr).eq]
            exact hcheck
          rw [hfits]
          dsimp only [placeBuffered, resumeCount]
          rw [if_neg Bool.false_ne_true]
          split_ifs
          · exact (resumeCallbacks_submitCurrentBuffer m).trans hm
          · exact hm
      | error error =>
          have hrefuses : self.refuses (.putBuffered key valueLen) = true := by
            simp [refuses, hready, hlen, hr]
          have hm : m.resumeCallbacks = 0 := by
            rw [BuffersOk.reserveWithBackpressure_error hr]
            exact hcheck
          obtain rfl := reserveWithBackpressure_eq_error hr
          rw [hrefuses]
          dsimp only [resumeCount]
          rw [if_pos rfl, enqueueWait]
          dsimp only
          rw [if_pos rfl, AppendBufferManager.registerResumeCallback]
          dsimp only [allocateSequence]
          rw [hm]
          rfl
  · simpa [putBuffered, refuses, hready] using hzero

/-- What a call or a completion registers. -/
theorem resumeCount_step (hzero : self.resumeCount = 0) {ev : AsyncEvent}
    (hcall : PollSystem.isCall ev = true) {r : Engine n × List WriteEffect}
    (hr : self.step ev = some r) :
    r.1.resumeCount = if self.refuses ev then 1 else 0 := by
  cases ev with
  | putBuffered key valueLen =>
      obtain rfl := Option.some.inj hr
      exact resumeCount_putBuffered hzero key valueLen
  | putAsync key iovLens =>
      obtain rfl := Option.some.inj hr
      exact (self.resumeCount_putAsync key iovLens).trans hzero
  | deleteAsync key =>
      obtain rfl := Option.some.inj hr
      exact (self.resumeCount_deleteAsync key).trans hzero
  | complete i ok =>
      obtain ⟨io, -, rfl⟩ := Option.map_eq_some_iff.mp hr
      exact (resumeCount_onComplete _ ok io.write).trans hzero
  | flush =>
      obtain rfl := Option.some.inj hr
      exact (resumeCallbacks_submitCurrentBuffer _).trans hzero
  | submitBuffer allocOk =>
      obtain rfl := Option.some.inj hr
      exact (self.resumeCount_submitBufferIo allocOk).trans hzero
  | newFileAllocated success =>
      rw [step] at hr
      split_ifs at hr
      obtain rfl := Option.some.inj hr
      rw [onNewFileAllocated]
      cases success with
      | true => exact (resumeCount_processPendingWriteQueue _).trans hzero
      | false => exact hzero
  | checkpointForAlloc ok =>
      rw [step] at hr
      split_ifs at hr
      obtain rfl := Option.some.inj hr
      cases ok <;> exact hzero
  | allocLog nearFull =>
      obtain rfl := Option.some.inj hr
      exact hzero
  | resume | processWaitQueue => cases hcall

/-- Without backpressure the wait queue is emptied, and nothing is registered. -/
theorem processWaitQueue_of_inactive (h : self.bufferManager.backpressureActive = false) :
    self.processWaitQueue.bufferManager = self.bufferManager ∧
      self.processWaitQueue.waitQueue = [] := by
  have hentry : ∀ (e : Engine n) (wqe : QueuedWrite),
      (e.submitWaitQueueEntry wqe).bufferManager = e.bufferManager ∧
        (e.submitWaitQueueEntry wqe).waitQueue = e.waitQueue := by
    intro e wqe
    rw [submitWaitQueueEntry, queueForNewFile]
    dsimp only
    split
    · split_ifs <;> exact ⟨rfl, rfl⟩
    · split_ifs <;> exact ⟨rfl, rfl⟩
  have hloop : ∀ (queue : List QueuedWrite) (e : Engine n),
      (queue.foldl submitWaitQueueEntry e).bufferManager = e.bufferManager ∧
        (queue.foldl submitWaitQueueEntry e).waitQueue = e.waitQueue := by
    intro queue
    induction queue with
    | nil => exact fun _ => ⟨rfl, rfl⟩
    | cons wqe queue ih =>
        exact fun e => ⟨(ih _).1.trans (hentry e wqe).1, (ih _).2.trans (hentry e wqe).2⟩
  rw [processWaitQueue]
  split_ifs with hempty hactive
  · exact ⟨rfl, List.isEmpty_iff.mp hempty⟩
  · rw [h] at hactive
    cases hactive
  · exact hloop _ _

/-- Under backpressure it may register a callback again. -/
theorem resumeCount_processWaitQueue_le (hzero : self.resumeCount = 0) :
    self.processWaitQueue.resumeCount ≤ 1 := by
  cases h : self.bufferManager.backpressureActive with
  | false =>
      rw [resumeCount, (processWaitQueue_of_inactive h).1]
      exact hzero.le.trans (Nat.zero_le 1)
  | true =>
      rw [processWaitQueue]
      split_ifs
      · exact hzero.le.trans (Nat.zero_le 1)
      · exact min_le_of_left_le (Nat.succ_le_succ hzero.le)

end Engine

/-! ### The invariant -/

namespace PollSystem

variable {s s' : PollSystem n}

/-- Every callback that was registered was fired once or waits in the ring. -/
structure Numbered (s : PollSystem n) : Prop where
  zero : s.engine.resumeCount = 0
  room : s.ring.length ≤ kResumeCallbackCount
  once : (s.invoked ++ s.ring.map ResumeNotification.number).Perm (List.range s.registered)

/-- What holds in each phase of `poll`. -/
def Inv (s : PollSystem n) : Prop :=
  s.Numbered ∧
    match s.phase with
    | .idle => True
    | .polling m => m ≤ s.registered
    | .firing m => m ≤ s.registered
    | .notified m => m ≤ s.registered ∧
        (s.pendingCount ≤ kBackpressureLowWater → ∀ x ∈ s.ring, m ≤ x.number)
    | .returned _ => s.Served

/-- Nothing but the engine changes, and what it registers is none. -/
theorem Numbered.congr (h : s.Numbered) (hzero : s'.engine.resumeCount = 0)
    (hring : s'.ring = s.ring) (hinvoked : s'.invoked = s.invoked)
    (hregistered : s'.registered = s.registered) : s'.Numbered :=
  ⟨hzero, hring ▸ h.room, by rw [hring, hinvoked, hregistered]; exact h.once⟩

/-- A callback that finds room is in the ring. -/
theorem Numbered.register (h : s.Numbered) (hroom : s.ring.length < kResumeCallbackCount)
    (isRdma : Bool) : (s.register isRdma).Numbered := by
  rw [PollSystem.register, if_pos hroom]
  refine ⟨h.zero, ?_, ?_⟩
  · rw [List.length_append]
    exact hroom
  · rw [List.map_append, ← List.append_assoc, List.range_succ]
    exact h.once.append_right _

/-- What a method that registers at most one callback leaves. -/
theorem Numbered.absorb (h : s.Numbered) {engine : Engine n} (hle : engine.resumeCount ≤ 1)
    (hroom : engine.resumeCount = 1 → s.ring.length < kResumeCallbackCount) :
    (s.absorb engine).Numbered ∧ s.registered ≤ (s.absorb engine).registered ∧
      (s.absorb engine).phase = s.phase := by
  have hempty : Numbered { s with engine := { engine with
      bufferManager := { engine.bufferManager with resumeCallbacks := 0 } } } :=
    h.congr rfl rfl rfl rfl
  have hcount : engine.bufferManager.resumeCallbacks = engine.resumeCount := rfl
  rw [PollSystem.absorb, hcount]
  rcases Nat.le_one_iff_eq_zero_or_eq_one.mp hle with hzero | hone
  · rw [hzero]
    exact ⟨hempty, le_rfl, rfl⟩
  · rw [hone]
    exact ⟨hempty.register (hroom hone) false, Nat.le_succ _, rfl⟩

/-- A callback that does not wait in the ring was fired once. -/
theorem Numbered.count_invoked (h : s.Numbered) {m k : ℕ} (hm : m ≤ s.registered)
    (hring : ∀ x ∈ s.ring, m ≤ x.number) (hk : k < m) : s.invoked.count k = 1 := by
  have hcount := h.once.count_eq k
  have hnot : k ∉ s.ring.map ResumeNotification.number := by
    intro hmem
    obtain ⟨x, hx, rfl⟩ := List.mem_map.mp hmem
    exact Nat.not_lt.mpr (hring x hx) hk
  rw [List.count_append, List.count_eq_zero_of_not_mem hnot, add_zero] at hcount
  rw [hcount]
  exact List.count_eq_one_of_mem List.nodup_range (List.mem_range.mpr (hk.trans_le hm))

/-- What happens outside of the phases that look at the ring. -/
theorem Inv.leave (h : s.Inv) (hs : s'.Numbered) (hle : s.registered ≤ s'.registered)
    (hcalls : allowsCalls s.phase = true) : Inv { s' with phase := s.phase.leave } := by
  refine ⟨⟨hs.zero, hs.room, hs.once⟩, ?_⟩
  have hphase := h.2
  cases hp : s.phase with
  | idle => trivial
  | returned m => trivial
  | notified m =>
      rw [hp] at hcalls
      cases hcalls
  | polling m =>
      rw [hp] at hphase
      exact le_trans hphase hle
  | firing m =>
      rw [hp] at hphase
      exact le_trans hphase hle

/-- **Every event keeps what holds in its phase**, if it meets the condition. -/
theorem Inv.step (h : s.Inv) {ev : PollEvent} (hc : s.Wakes ev) (hs : s.step ev = some s') :
    s'.Inv := by
  obtain ⟨hnumbered, hphase⟩ := h
  cases ev with
  | engine ev =>
      obtain ⟨hallowed, hs⟩ := Option.ite_none_right_eq_some.mp hs
      obtain ⟨r, hr, rfl⟩ := Option.map_eq_some_iff.mp hs
      obtain ⟨hcall, hcalls⟩ := Bool.and_eq_true_iff.mp hallowed
      have hcount := Engine.resumeCount_step hnumbered.zero hcall hr
      have hle : r.1.resumeCount ≤ 1 := by
        rw [hcount]
        split_ifs <;> omega
      have hroom : r.1.resumeCount = 1 → s.ring.length < kResumeCallbackCount := by
        intro hone
        rw [hcount] at hone
        split_ifs at hone with hrefuses
        exact hc hrefuses
      obtain ⟨habsorb, hregistered, -⟩ := hnumbered.absorb hle hroom
      exact Inv.leave ⟨hnumbered, hphase⟩ habsorb hregistered hcalls
  | tryProcessOrDefer =>
      obtain ⟨hcalls, hs⟩ := Option.ite_none_right_eq_some.mp hs
      obtain rfl := Option.some.inj hs
      split_ifs with hactive
      · exact Inv.leave ⟨hnumbered, hphase⟩ (hnumbered.register (hc hactive) true)
          (Nat.le_succ _) hcalls
      · exact Inv.leave ⟨hnumbered, hphase⟩ hnumbered le_rfl hcalls
  | beginPoll =>
      rw [PollSystem.step] at hs
      split at hs
      · obtain rfl := Option.some.inj hs
        exact ⟨hnumbered.congr hnumbered.zero rfl rfl rfl, le_rfl⟩
      · obtain rfl := Option.some.inj hs
        exact ⟨hnumbered.congr hnumbered.zero rfl rfl rfl, le_rfl⟩
      · cases hs
  | notify =>
      rw [PollSystem.step] at hs
      dsimp only at hs
      split at hs
      · next m hpolling =>
          rw [hpolling] at hphase
          have hring : s.pendingCount ≤ kBackpressureLowWater →
              (s.engine.bufferManager.wasBackpressureActive &&
                !s.engine.bufferManager.backpressureActive) = false →
                ∀ x ∈ s.ring, m ≤ x.number := by
            intro hpending hnot
            obtain ⟨hinactive, hwas | hring⟩ := hc hpending
            · rw [hwas, hinactive] at hnot
              cases hnot
            · exact hring m hpolling
          split_ifs at hs with hquiet hended
          · obtain rfl := Option.some.inj hs
            refine ⟨hnumbered.congr hnumbered.zero rfl rfl rfl, hphase, fun hpending => ?_⟩
            refine hring hpending ?_
            rw [Bool.and_eq_true, Bool.not_eq_true'] at hquiet
            rw [hquiet.1, Bool.false_and]
          · obtain rfl := Option.some.inj hs
            exact ⟨hnumbered.congr hnumbered.zero rfl rfl rfl, hphase⟩
          · obtain rfl := Option.some.inj hs
            exact ⟨hnumbered.congr hnumbered.zero rfl rfl rfl, hphase,
              fun hpending => hring hpending (Bool.eq_false_iff.mpr hended)⟩
      · cases hs
  | fire =>
      rw [PollSystem.step] at hs
      split at hs
      · next m next rest hfiring hring =>
          obtain rfl := Option.some.inj hs
          rw [hfiring] at hphase
          have hroom := hnumbered.room
          have honce := hnumbered.once
          rw [hring, List.length_cons] at hroom
          rw [hring, List.map_cons, List.append_cons] at honce
          have hfired : Numbered { s with
              ring := rest
              invoked := s.invoked ++ [next.number] } :=
            ⟨hnumbered.zero, Nat.le_of_succ_le hroom, honce⟩
          split_ifs
          · refine ⟨hfired, ?_⟩
            rw [hfiring]
            exact hphase
          · obtain ⟨habsorb, hregistered, hsame⟩ := hfired.absorb
              (Engine.resumeCount_processWaitQueue_le hnumbered.zero) fun _ => hroom
            refine ⟨habsorb, ?_⟩
            rw [hsame.trans hfiring]
            exact le_trans hphase hregistered
      · cases hs
  | endNotify =>
      rw [PollSystem.step] at hs
      split at hs
      · next m hfiring hring =>
          obtain rfl := Option.some.inj hs
          rw [hfiring] at hphase
          refine ⟨hnumbered.congr hnumbered.zero rfl rfl rfl, hphase, fun _ x hx => ?_⟩
          rw [show s.remember.ring = [] from hring] at hx
          cases hx
      · cases hs
  | endPoll =>
      rw [PollSystem.step] at hs
      split at hs
      · next m hnotified =>
          obtain rfl := Option.some.inj hs
          rw [hnotified] at hphase
          obtain ⟨hm, hring⟩ := hphase
          cases hactive : s.engine.bufferManager.backpressureActive with
          | true =>
              rw [if_pos rfl]
              refine ⟨hnumbered.congr hnumbered.zero rfl rfl rfl, fun m' hm' hpending => ?_⟩
              have hended := hc hpending
              rw [hactive] at hended
              cases hended
          | false =>
              obtain ⟨hmanager, hwait⟩ := Engine.processWaitQueue_of_inactive hactive
              have hzero : s.engine.processWaitQueue.bufferManager.resumeCallbacks = 0 := by
                rw [hmanager]
                exact hnumbered.zero
              rw [if_neg Bool.false_ne_true, absorb, hzero, hmanager]
              refine ⟨hnumbered.congr rfl rfl rfl rfl, fun m' hm' hpending => ?_⟩
              cases hm'
              exact ⟨hactive, hwait, fun k hk => hnumbered.count_invoked hm (hring hpending) hk⟩
      · cases hs

/-! ### Runs -/

/-- **Nobody waits any more when `poll` returns with few pending buffers**, in every run whose
steps all meet the condition. -/
theorem served_of_wakes {index : MemIndex n} {dataFileSize bufferCount : ℕ} {s : PollSystem n}
    {evs : List PollEvent}
    (hc : (pollMachine n).Meets Wakes (start index dataFileSize bufferCount) evs)
    (hr : (pollMachine n).run (start index dataFileSize bufferCount) evs = some s) :
    s.Served := by
  have hstart : (start index dataFileSize bufferCount).Inv :=
    ⟨⟨rfl, Nat.zero_le _, .refl _⟩, trivial⟩
  obtain ⟨-, hphase⟩ :=
    (pollMachine n).run_invariant Inv (fun _ _ _ h hc hs => h.step hc hs) hstart hc hr
  intro m hm
  rw [hm] at hphase
  exact hphase m hm

/-! ### Polling does not end backpressure -/

/-- A writer waits under backpressure, outside of `poll`. -/
structure Stuck (s : PollSystem n) : Prop where
  outside : s.phase = .idle ∨ ∃ m, s.phase = .returned m
  active : s.engine.bufferManager.backpressureActive = true
  waiting : s.engine.waitQueue ≠ []

/-- A `poll` that has nothing to submit serves nobody under backpressure. -/
theorem Stuck.poll (h : s.Stuck) :
    ∃ s', (pollMachine n).run s [.beginPoll, .notify, .endPoll] = some s' ∧ s'.Stuck ∧
      s'.invoked = s.invoked := by
  have hbegin : s.step .beginPoll = some { s with phase := .polling s.registered } := by
    rcases h.outside with hidle | ⟨m, hreturned⟩
    · rw [PollSystem.step, hidle]
    · rw [PollSystem.step, hreturned]
  have hnotify : PollSystem.step { s with phase := .polling s.registered } .notify =
      some { s.remember with phase := .notified s.registered } := by
    simp [PollSystem.step, PollSystem.remember, h.active]
  have hend : PollSystem.step { s.remember with phase := .notified s.registered } .endPoll =
      some { s.remember with phase := .returned s.registered } := by
    simp [PollSystem.step, PollSystem.remember, h.active]
  refine ⟨{ s.remember with phase := .returned s.registered }, ?_, ⟨.inr ⟨_, rfl⟩, h.active,
    h.waiting⟩, rfl⟩
  rw [Machine.run_cons_eq_some_iff]
  refine ⟨_, hbegin, ?_⟩
  rw [Machine.run_cons_eq_some_iff]
  exact ⟨_, hnotify, ((pollMachine n).run_singleton _ _).trans hend⟩

/-- **However often `poll` is called**, the writer goes on waiting. -/
theorem Stuck.polls (h : s.Stuck) (k : ℕ) :
    ∃ s', (pollMachine n).run s (List.replicate k [.beginPoll, .notify, .endPoll]).flatten =
      some s' ∧ s'.Stuck ∧ s'.invoked = s.invoked := by
  induction k generalizing s with
  | zero => exact ⟨s, rfl, h, rfl⟩
  | succ k ih =>
      obtain ⟨s₁, hrun₁, hstuck₁, hinvoked₁⟩ := h.poll
      obtain ⟨s', hrun, hstuck, hinvoked⟩ := ih hstuck₁
      refine ⟨s', ?_, hstuck, hinvoked.trans hinvoked₁⟩
      rw [List.replicate_succ, List.flatten_cons, Machine.run_append, hrun₁]
      exact hrun

/-- Puts that fill a buffer each, until twelve buffers are pending, and a small one that has to
wait; `poll` submits the buffers, and their writes complete. -/
def fillTwelve : List PollEvent :=
  List.replicate 12 (.engine (.putBuffered 1 2027520)) ++
    [.engine (.putBuffered 2 100), .beginPoll] ++
    List.replicate 12 (.engine (.submitBuffer true)) ++ [.notify, .endPoll]

/-- **A writer that stops is never served**: with all sixteen buffers allocated and none of them
pending, `poll` returns under backpressure, the queue holds the write, and its callback was not
fired. -/
theorem stopped_writer_waits :
    ∃ s, (pollMachine 3).run (start (MemIndex.fresh 3) (2 ^ 30) 16) fillTwelve = some s ∧
      s.pendingCount = 0 ∧ s.Stuck ∧ s.invoked = [] ∧ s.registered = 1 ∧ ¬ s.Served := by
  have hrun : ((pollMachine 3).run (start (MemIndex.fresh 3) (2 ^ 30) 16) fillTwelve).map (fun s =>
      ((s.pendingCount, s.phase, s.engine.bufferManager.backpressureActive),
        (s.engine.waitQueue.length, s.invoked, s.registered))) =
      some ((0, .returned 1, true), (1, [], 1)) := by
    decide +kernel
  obtain ⟨s, hs, heq⟩ := Option.map_eq_some_iff.mp hrun
  simp only [Prod.mk.injEq] at heq
  obtain ⟨⟨hpending, hphase, hactive⟩, hwaiting, hinvoked, hregistered⟩ := heq
  have hstuck : s.Stuck :=
    ⟨.inr ⟨1, hphase⟩, hactive, List.ne_nil_of_length_pos (by omega)⟩
  refine ⟨s, hs, hpending, hstuck, hinvoked, hregistered, fun hserved => ?_⟩
  have hended := (hserved 1 hphase (by omega)).1
  rw [hactive] at hended
  cases hended

/-- A put that finds no room is served when it asks again after the pending buffers have been
written, and so is the one that waits. -/
def fillAndGoOn : List PollEvent :=
  List.replicate 12 (.engine (.putBuffered 1 2027520)) ++
    [.engine (.putBuffered 2 100), .beginPoll, .notify, .endPoll] ++
    List.replicate 12 (.engine (.submitBuffer true)) ++
    [.engine (.putBuffered 3 100), .tryProcessOrDefer, .beginPoll, .notify, .fire, .endNotify,
      .endPoll]

/-- In such a run the callback is fired and the queue emptied. -/
theorem served_fillAndGoOn :
    ∃ s, (pollMachine 3).run (start (MemIndex.fresh 3) (2 ^ 30) 16) fillAndGoOn = some s ∧
      s.Served := by
  have hrun : ((pollMachine 3).run (start (MemIndex.fresh 3) (2 ^ 30) 16) fillAndGoOn).isSome := by
    decide +kernel
  obtain ⟨s, hs⟩ := Option.isSome_iff_exists.mp hrun
  exact ⟨s, hs, served_of_wakes (by decide +kernel) hs⟩

end PollSystem

end SpdkKv
