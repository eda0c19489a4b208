import Mathlib.Data.Multiset.Range
import SpdkKv.Lib.SimpleRing
import SpdkKv.RdmaSlots

/-!
# The Buffer Manager

`AppendBuffer` and `AppendBufferManager` of `append_buffer.h` as they stand, without the engine:
buffers of any size with their RDMA slots, the two rings, the queue of the buffers that wait for
a reset, and growth that may find no memory. The buffers are those of `all_buffers_`, named by
their index; what the callers of `get_pending_buffers` have not yet returned is accounted for,
and so are the order of the submissions and the enqueues that fail.

## Main results

* `Slotted.AppendBufferManager.keeps_reserveWithBackpressure`: what a reservation keeps.
* `Slotted.AppendBufferManager.erase_submitCurrentBuffer` and its kin: **without slots the
  manager is the one that the engine is modelled with**.
-/

namespace SpdkKv

namespace Slotted

/-! ### A buffer -/

/-- An append buffer with its RDMA slots. -/
structure AppendBuffer extends BufferSlots where
  capacity : UInt64
  used : UInt64
  entryCount : UInt64

namespace AppendBuffer

/-- What the constructor yields. -/
def fresh (capacity : UInt64) : AppendBuffer := ⟨.fresh, capacity, 0, 0⟩

/-- `reserve`: the offset of the reserved bytes. The sum is computed modulo `2 ^ 64`. -/
def reserve (self : AppendBuffer) (len : UInt64) : AppendBuffer × Option UInt64 :=
  if self.capacity < self.used + len then (self, none)
  else ({ self with used := self.used + len, entryCount := self.entryCount + 1 }, some self.used)

/-- `reset`. -/
def reset (self : AppendBuffer) : AppendBuffer :=
  ⟨self.toBufferSlots.reset, self.capacity, 0, 0⟩

/-- `is_empty`. -/
def isEmpty (self : AppendBuffer) : Bool := self.used == 0

/-- `alloc_rdma_slot`: the number of the slot. -/
def allocRdmaSlot (self : AppendBuffer) (size : UInt32) : AppendBuffer × Option ℕ :=
  if h : self.nextSlotId < kMaxSlotsPerBuffer then
    match self.reserve size.toUInt64 with
    | (self, none) => (self, none)
    | (reserved, some offset) =>
        let slot : RdmaSlotState := ⟨true, false, offset.toUInt32, size⟩
        ({ reserved with
            nextSlotId := self.nextSlotId + 1
            activeRdmaSlotCount := self.activeRdmaSlotCount + 1
            rdmaSlots := Function.update self.rdmaSlots ⟨self.nextSlotId, h⟩ slot },
          some self.nextSlotId)
  else (self, none)

/-- `mark_rdma_complete`. -/
def markRdmaComplete (self : AppendBuffer) (slotId : UInt32) : AppendBuffer :=
  { self with toBufferSlots := self.toBufferSlots.markRdmaComplete slotId }

/-- `release_rdma_slot`. -/
def releaseRdmaSlot (self : AppendBuffer) (slotId : UInt32) : AppendBuffer :=
  if h : slotId.toNat < kMaxSlotsPerBuffer then
    if (self.rdmaSlots ⟨slotId.toNat, h⟩).isAllocated then
      let slot := { self.rdmaSlots ⟨slotId.toNat, h⟩ with isAllocated := false }
      { self with
        rdmaSlots := Function.update self.rdmaSlots ⟨slotId.toNat, h⟩ slot
        activeRdmaSlotCount := self.activeRdmaSlotCount - 1 }
    else self
  else self

theorem used_releaseRdmaSlot (self : AppendBuffer) (slotId : UInt32) :
    (self.releaseRdmaSlot slotId).used = self.used := by
  rw [releaseRdmaSlot]
  split_ifs <;> rfl

end AppendBuffer

/-! ### The manager -/

/-- A ring of the manager has a slot more than there are buffers, so it is never empty. -/
instance (priority := 1100) : NeZero (kMaxBufferCount + 1) := ⟨Nat.succ_ne_zero _⟩

/-- The manager of the buffers; the last five fields are the account. -/
structure AppendBufferManager where
  bufferSize : UInt64
  allBuffers : ℕ → AppendBuffer
  currentBufferCount : ℕ
  submitRing : SimpleRing ℕ (kMaxBufferCount + 1)
  completeRing : SimpleRing ℕ (kMaxBufferCount + 1)
  activeBuffer : Option ℕ
  backpressureActive : Bool
  pendingResetQueue : List ℕ
  /-- The buffers that `get_pending_buffers` handed out and that have not been returned. -/
  handedOut : List ℕ
  /-- The buffers in the order in which they were submitted. -/
  submitted : List ℕ
  /-- The buffers in the order in which they left the submit ring. -/
  taken : List ℕ
  /-- The bytes that a buffer held when it was handed out, since its last reset. -/
  handed : ℕ → UInt64
  /-- Number of enqueues that found a ring full. -/
  failedEnqueues : ℕ

namespace AppendBufferManager

/-- `submit_ring_.enqueue`. -/
def enqueueSubmit (self : AppendBufferManager) (b : ℕ) : AppendBufferManager :=
  let (ring, ok) := self.submitRing.enqueue b
  { self with
    submitRing := ring
    submitted := self.submitted ++ [b]
    failedEnqueues := self.failedEnqueues + if ok then 0 else 1 }

/-- `complete_ring_.enqueue`. -/
def enqueueComplete (self : AppendBufferManager) (b : ℕ) : AppendBufferManager :=
  let (ring, ok) := self.completeRing.enqueue b
  { self with
    completeRing := ring
    failedEnqueues := self.failedEnqueues + if ok then 0 else 1 }

/-- `complete_ring_.dequeue(&active_buffer_)`; without a free buffer there is no active one. -/
def refill (self : AppendBufferManager) : AppendBufferManager :=
  match self.completeRing.dequeue with
  | none => { self with activeBuffer := none }
  | some (b, ring) => { self with activeBuffer := some b, completeRing := ring }

/-- A new buffer is made and put among the free ones. -/
def addBuffer (self : AppendBufferManager) : AppendBufferManager :=
  enqueueComplete { self with
    allBuffers := Function.update self.allBuffers self.currentBufferCount (.fresh self.bufferSize)
    currentBufferCount := self.currentBufferCount + 1 } self.currentBufferCount

/-- What the constructor yields. -/
def fresh (bufferSize : UInt64) : AppendBufferManager where
  bufferSize := bufferSize
  allBuffers := fun _ => .fresh bufferSize
  currentBufferCount := 0
  submitRing := .empty
  completeRing := .empty
  activeBuffer := none
  backpressureActive := false
  pendingResetQueue := []
  handedOut := []
  submitted := []
  taken := []
  handed := fun _ => 0
  failedEnqueues := 0

/-- `initialize`, with memory for every buffer. -/
def init (bufferCount : ℕ) (bufferSize : UInt64) : AppendBufferManager :=
  (addBuffer^[bufferCount] (fresh bufferSize)).refill

/-- `try_expand`; `memory` says whether `aligned_alloc` finds memory. -/
def tryExpand (self : AppendBufferManager) (memory : Bool) : AppendBufferManager × Bool :=
  if kMaxBufferCount ≤ self.currentBufferCount then (self, false)
  else if !memory then (self, false)
  else
    let self := self.addBuffer
    (if self.activeBuffer.isNone then self.refill else self, true)

/-- `check_backpressure`. -/
def checkBackpressure (self : AppendBufferManager) (memory : Bool) :
    AppendBufferManager × Bool :=
  let pending := self.submitRing.count
  let self :=
    if self.backpressureActive then
      if pending ≤ kBackpressureLowWater then { self with backpressureActive := false }
      else self
    else if kBackpressureHighWater ≤ pending then
      let (expanded, ok) := self.tryExpand memory
      if ok then expanded else { expanded with backpressureActive := true }
    else self
  (self, self.backpressureActive)

/-- A buffer changes. -/
def withBuffer (self : AppendBufferManager) (b : ℕ) (buffer : AppendBuffer) :
    AppendBufferManager :=
  { self with allBuffers := Function.update self.allBuffers b buffer }

/-- `reserve`: the buffer and the offset of the reserved bytes. -/
def reserve (self : AppendBufferManager) (len : UInt64) :
    AppendBufferManager × Option (ℕ × UInt64) :=
  match self.activeBuffer with
  | none => (self, none)
  | some b =>
      let buffer := self.allBuffers b
      if kFlushThreshold < (buffer.used + len).toNat then (self, none)
      else
        let (buffer, offset) := buffer.reserve len
        (self.withBuffer b buffer, offset.map fun offset => (b, offset))

/-- `reserve_with_backpressure`; a buffer without room is reported like backpressure. -/
def reserveWithBackpressure (self : AppendBufferManager) (len : UInt64) (memory : Bool) :
    AppendBufferManager × Except KvError (ℕ × UInt64) :=
  let (self, active) := self.checkBackpressure memory
  if active then (self, .error .kBackpressure)
  else
    match self.reserve len with
    | (self, none) => (self, .error .kBackpressure)
    | (self, some slot) => (self, .ok slot)

/-- `submit_current_buffer`. -/
def submitCurrentBuffer (self : AppendBufferManager) : AppendBufferManager :=
  match self.activeBuffer with
  | none => self
  | some b => if (self.allBuffers b).isEmpty then self else (self.enqueueSubmit b).refill

/-- A buffer leaves the submit ring for its IO. -/
def handOut (self : AppendBufferManager) (b : ℕ) (ring : SimpleRing ℕ (kMaxBufferCount + 1)) :
    AppendBufferManager :=
  { self with
    submitRing := ring
    handedOut := self.handedOut ++ [b]
    taken := self.taken ++ [b]
    handed := Function.update self.handed b (self.allBuffers b).used }

/-- `get_pending_buffers`. -/
def getPendingBuffers (self : AppendBufferManager) : ℕ → AppendBufferManager
  | 0 => self
  | maxCount + 1 =>
      match self.submitRing.dequeue with
      | none => self
      | some (b, ring) => (self.handOut b ring).getPendingBuffers maxCount

/-- A buffer is reset and put among the free ones. -/
def recycle (self : AppendBufferManager) (b : ℕ) : AppendBufferManager :=
  enqueueComplete { self.withBuffer b (self.allBuffers b).reset with
    handed := Function.update self.handed b 0 } b

/-- `return_buffer`. -/
def returnBuffer (self : AppendBufferManager) (b : ℕ) : AppendBufferManager :=
  if (self.allBuffers b).canReset then
    let self := self.recycle b
    if self.activeBuffer.isNone then self.refill else self
  else { self with pendingResetQueue := self.pendingResetQueue ++ [b] }

/-- The loop of `check_pending_resets`, with the queue that is left. -/
def resetPending (self : AppendBufferManager) : List ℕ → AppendBufferManager
  | [] => { self with pendingResetQueue := [] }
  | b :: queue =>
      if (self.allBuffers b).canReset then (self.recycle b).resetPending queue
      else { self with pendingResetQueue := b :: queue }

/-- `check_pending_resets`; the active buffer is not replaced here. -/
def checkPendingResets (self : AppendBufferManager) : AppendBufferManager :=
  self.resetPending self.pendingResetQueue

end AppendBufferManager

/-- The calls of the manager and of its buffers. -/
inductive BufferEvent
  /-- `reserve_with_backpressure`. -/
  | reserve (len : UInt64) (memory : Bool)
  /-- `submit_current_buffer`. -/
  | submitCurrentBuffer
  /-- `get_pending_buffers`. -/
  | getPendingBuffers (maxCount : ℕ)
  /-- `return_buffer`, once for each buffer that was handed out. -/
  | returnBuffer (b : ℕ)
  /-- `check_pending_resets`. -/
  | checkPendingResets
  /-- `try_expand`. -/
  | tryExpand (memory : Bool)
  /-- `AppendBuffer::alloc_rdma_slot`. -/
  | allocRdmaSlot (b : ℕ) (size : UInt32)
  /-- `AppendBuffer::mark_rdma_complete`. -/
  | markRdmaComplete (b : ℕ) (slotId : UInt32)
  /-- `AppendBuffer::release_rdma_slot`. -/
  | releaseRdmaSlot (b : ℕ) (slotId : UInt32)
  deriving DecidableEq, Repr

namespace AppendBufferManager

/-- The step of a call. -/
def step (self : AppendBufferManager) : BufferEvent → Option AppendBufferManager
  | .reserve len memory => some (self.reserveWithBackpressure len memory).1
  | .submitCurrentBuffer => some self.submitCurrentBuffer
  | .getPendingBuffers maxCount => some (self.getPendingBuffers maxCount)
  | .returnBuffer b =>
      if b ∈ self.handedOut then
        some (returnBuffer { self with handedOut := self.handedOut.erase b } b)
      else none
  | .checkPendingResets => some self.checkPendingResets
  | .tryExpand memory => some (self.tryExpand memory).1
  | .allocRdmaSlot b size =>
      if b < self.currentBufferCount then
        some (self.withBuffer b ((self.allBuffers b).allocRdmaSlot size).1)
      else none
  | .markRdmaComplete b slotId =>
      if b < self.currentBufferCount then
        some (self.withBuffer b ((self.allBuffers b).markRdmaComplete slotId))
      else none
  | .releaseRdmaSlot b slotId =>
      if b < self.currentBufferCount then
        some (self.withBuffer b ((self.allBuffers b).releaseRdmaSlot slotId))
      else none

end AppendBufferManager

/-- The manager as a machine. -/
def bufferMachine : Machine AppendBufferManager BufferEvent where
  step := AppendBufferManager.step

/-! ### Reservations -/

namespace AppendBufferManager

variable {s : AppendBufferManager}

/-- What a change of the flag, growth and a reservation in the active buffer keep, a
reservation with backpressure keeps. -/
theorem keeps_reserveWithBackpressure {P : AppendBufferManager → Prop} (len : UInt64)
    (memory : Bool) (flag : ∀ s active, P s → P { s with backpressureActive := active })
    (expand : ∀ s, P s → P (s.tryExpand memory).1) (reserve : ∀ s, P s → P (s.reserve len).1)
    (h : P s) : P (s.reserveWithBackpressure len memory).1 := by
  have hcheck : P (s.checkBackpressure memory).1 := by
    rw [checkBackpressure]
    dsimp only
    split_ifs
    · exact flag s false h
    · exact h
    · exact expand s h
    · exact flag _ true (expand s h)
    · exact h
  have hreserve := reserve _ hcheck
  rw [reserveWithBackpressure]
  dsimp only
  split_ifs
  · exact hcheck
  · split <;> next heq => exact congrArg Prod.fst heq ▸ hreserve

/-! ### Without slots -/

/-- The manager as the engine is modelled with, which knows of no slot; `was` and `callbacks`
are what it keeps of the resume notifications. -/
def erase (s : AppendBufferManager) (was : Bool) (callbacks : ℕ) : SpdkKv.AppendBufferManager where
  buffers := fun b => ⟨(s.allBuffers b).used.toNat, (s.allBuffers b).entryCount.toNat⟩
  currentBufferCount := s.currentBufferCount
  submitRing := s.submitRing.toList
  completeRing := s.completeRing.toList
  activeBuffer := s.activeBuffer
  backpressureActive := s.backpressureActive
  wasBackpressureActive := was
  resumeCallbacks := callbacks

variable {was : Bool} {callbacks : ℕ}

/-- An enqueue is one into a list of bounded length. -/
theorem toList_enqueue_eq_ringEnqueue (ring : SimpleRing ℕ (kMaxBufferCount + 1)) (b : ℕ) :
    (ring.enqueue b).1.toList = ringEnqueue ring.toList b := by
  rw [SimpleRing.toList_enqueue, ringEnqueue]
  exact if_congr Nat.add_lt_add_iff_right rfl rfl

theorem erase_refill (s : AppendBufferManager) :
    s.refill.erase was callbacks = (s.erase was callbacks).refill := by
  rw [refill]
  cases hdeq : s.completeRing.dequeue with
  | none =>
      have hnil := s.completeRing.dequeue_eq_none_iff.mp hdeq
      simp only [erase, SpdkKv.AppendBufferManager.refill, hnil, List.head?_nil, List.tail_nil]
  | some p =>
      have hcons := s.completeRing.toList_of_dequeue hdeq
      simp only [erase, SpdkKv.AppendBufferManager.refill, hcons, List.head?_cons, List.tail_cons]

theorem erase_submitCurrentBuffer (s : AppendBufferManager) :
    s.submitCurrentBuffer.erase was callbacks =
      (s.erase was callbacks).submitCurrentBuffer := by
  rw [submitCurrentBuffer, SpdkKv.AppendBufferManager.submitCurrentBuffer]
  cases hactive : s.activeBuffer with
  | none => simp only [erase, hactive]
  | some b =>
      have hempty : ((s.erase was callbacks).buffers b).isEmpty = (s.allBuffers b).isEmpty := by
        rw [Bool.eq_iff_iff]
        simp only [erase, SpdkKv.AppendBuffer.isEmpty, AppendBuffer.isEmpty, beq_iff_eq,
          ← UInt64.toNat_inj, UInt64.toNat_zero]
      simp only [show (s.erase was callbacks).activeBuffer = some b from hactive, hempty]
      split_ifs
      · rfl
      · rw [erase_refill]
        refine congrArg SpdkKv.AppendBufferManager.refill ?_
        simp only [erase, enqueueSubmit, toList_enqueue_eq_ringEnqueue, hactive]

/-- A missing active buffer is replaced. -/
theorem erase_ite_refill (s : AppendBufferManager) :
    (if s.activeBuffer.isNone then s.refill else s).erase was callbacks =
      if (s.erase was callbacks).activeBuffer.isNone then (s.erase was callbacks).refill
      else s.erase was callbacks := by
  rw [apply_ite (fun m : AppendBufferManager => m.erase was callbacks), erase_refill]
  rfl

/-- A buffer that changes, as far as its fill goes. -/
theorem fill_update (buffers : ℕ → AppendBuffer) (b : ℕ) (buffer : AppendBuffer) :
    (fun x => (⟨(Function.update buffers b buffer x).used.toNat,
        (Function.update buffers b buffer x).entryCount.toNat⟩ : SpdkKv.AppendBuffer)) =
      Function.update (fun x => ⟨(buffers x).used.toNat, (buffers x).entryCount.toNat⟩) b
        ⟨buffer.used.toNat, buffer.entryCount.toNat⟩ := by
  funext x
  rcases eq_or_ne x b with rfl | hx
  · simp only [Function.update_self]
  · simp only [Function.update_of_ne hx]

theorem erase_returnBuffer {b : ℕ} (hreset : (s.allBuffers b).canReset = true) :
    (s.returnBuffer b).erase was callbacks = (s.erase was callbacks).returnBuffer b := by
  have hrecycle : (s.recycle b).erase was callbacks =
      { s.erase was callbacks with
        buffers := Function.update (s.erase was callbacks).buffers b ⟨0, 0⟩
        completeRing := ringEnqueue s.completeRing.toList b } := by
    simp only [erase, recycle, enqueueComplete, withBuffer, toList_enqueue_eq_ringEnqueue,
      fill_update]
    rfl
  rw [returnBuffer, if_pos hreset]
  exact (erase_ite_refill _).trans (congrArg (fun m : SpdkKv.AppendBufferManager =>
    if m.activeBuffer.isNone then m.refill else m) hrecycle)

theorem erase_tryExpand (s : AppendBufferManager) :
    ((s.tryExpand true).1.erase was callbacks, (s.tryExpand true).2) =
      (s.erase was callbacks).tryExpand := by
  have hadd : s.addBuffer.erase was callbacks =
      { s.erase was callbacks with
        buffers := Function.update (s.erase was callbacks).buffers s.currentBufferCount ⟨0, 0⟩
        completeRing := ringEnqueue s.completeRing.toList s.currentBufferCount
        currentBufferCount := s.currentBufferCount + 1 } := by
    simp only [erase, addBuffer, enqueueComplete, toList_enqueue_eq_ringEnqueue, fill_update]
    rfl
  rw [tryExpand, SpdkKv.AppendBufferManager.tryExpand]
  by_cases hfull : kMaxBufferCount ≤ s.currentBufferCount
  · have hfull' : kMaxBufferCount ≤ (s.erase was callbacks).currentBufferCount := hfull
    rw [if_pos hfull, if_pos hfull']
  · have hfull' : ¬ kMaxBufferCount ≤ (s.erase was callbacks).currentBufferCount := hfull
    rw [if_neg hfull, if_neg hfull']
    exact Prod.ext ((erase_ite_refill _).trans (congrArg (fun m : SpdkKv.AppendBufferManager =>
      if m.activeBuffer.isNone then m.refill else m) hadd)) rfl

/-- `check_backpressure` sees the same number of submitted buffers. -/
theorem erase_checkBackpressure (s : AppendBufferManager) :
    ((s.checkBackpressure true).1.erase was callbacks, (s.checkBackpressure true).2) =
      (s.erase was callbacks).checkBackpressure := by
  have hexpand := @erase_tryExpand was callbacks s
  have hpending : (s.erase was callbacks).submitRing.length = s.submitRing.count :=
    s.submitRing.length_toList
  rw [checkBackpressure, SpdkKv.AppendBufferManager.checkBackpressure]
  simp only [hpending, ← hexpand, show (s.erase was callbacks).backpressureActive =
    s.backpressureActive from rfl]
  split_ifs <;> rfl

/-- A reservation that does not exceed the 64 bits, in buffers of the engine's size. -/
theorem erase_reserve {len : UInt64}
    (hcapacity : ∀ b ∈ s.activeBuffer, (s.allBuffers b).capacity.toNat = kAppendBufferSize)
    (hlen : ∀ b ∈ s.activeBuffer, (s.allBuffers b).used.toNat + len.toNat < 2 ^ 64)
    (hentry : ∀ b ∈ s.activeBuffer, (s.allBuffers b).entryCount.toNat + 1 < 2 ^ 64) :
    ((s.reserve len).1.erase was callbacks,
        (s.reserve len).2.map fun slot => (slot.1, slot.2.toNat)) =
      (s.erase was callbacks).reserve len.toNat := by
  rw [reserve, SpdkKv.AppendBufferManager.reserve]
  cases hactive : s.activeBuffer with
  | none => simp only [erase, hactive, Option.map_none]
  | some b =>
      have hsum : ((s.allBuffers b).used + len).toNat = (s.allBuffers b).used.toNat + len.toNat := by
        rw [UInt64.toNat_add, Nat.mod_eq_of_lt (hlen b hactive)]
      have hcount : ((s.allBuffers b).entryCount + 1).toNat =
          (s.allBuffers b).entryCount.toNat + 1 := by
        rw [UInt64.toNat_add, UInt64.toNat_one, Nat.mod_eq_of_lt (hentry b hactive)]
      have hroom : (s.allBuffers b).capacity < (s.allBuffers b).used + len ↔
          kAppendBufferSize < (s.allBuffers b).used.toNat + len.toNat := by
        rw [UInt64.lt_iff_toNat_lt, hsum, hcapacity b hactive]
      simp only [show (s.erase was callbacks).activeBuffer = some b from hactive,
        show ((s.erase was callbacks).buffers b).used = (s.allBuffers b).used.toNat from rfl, hsum]
      by_cases hfull : kFlushThreshold < (s.allBuffers b).used.toNat + len.toNat
      · rw [if_pos hfull, if_pos (.inl hfull), Option.map_none]
      · rw [if_neg hfull, AppendBuffer.reserve]
        by_cases hcap : kAppendBufferSize < (s.allBuffers b).used.toNat + len.toNat
        · rw [if_pos (hroom.mpr hcap), if_pos (.inr hcap)]
          simp only [Option.map_none, withBuffer, Function.update_eq_self]
        · rw [if_neg (mt hroom.mp hcap), if_neg (by tauto)]
          simp only [Option.map_some, erase, withBuffer, fill_update, hsum, hcount, hactive]

end AppendBufferManager

end Slotted

end SpdkKv
