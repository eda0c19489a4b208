import SpdkKv.Types

/-!
# Append Buffers

`AppendBuffer` and `AppendBufferManager` of `append_buffer.h`: records are collected in 2 MB
buffers, a full buffer goes through the submit ring to the disk and comes back through the
complete ring. Buffers are named by their index in `all_buffers_`. No RDMA slot is ever
taken here, so a buffer can always be reset.
-/

namespace SpdkKv

/-- Largest number of append buffers. -/
def kMaxBufferCount : ℕ := 16

/-- Number of pending buffers at which backpressure sets in. -/
def kBackpressureHighWater : ℕ := 12

/-- Number of pending buffers at which backpressure ends. -/
def kBackpressureLowWater : ℕ := 6

/-- Number of resume callbacks that can be registered. -/
def kResumeCallbackCount : ℕ := 255

/-- Fill of a buffer. -/
structure AppendBuffer where
  used : ℕ
  entryCount : ℕ
  deriving DecidableEq, Repr

/-- `is_empty`. -/
def AppendBuffer.isEmpty (b : AppendBuffer) : Bool := b.used == 0

/-- `is_full`. -/
def AppendBuffer.isFull (b : AppendBuffer) : Bool := kFlushThreshold ≤ b.used

/-- `SimpleRing::enqueue`; a full ring drops the item. -/
def ringEnqueue (ring : List ℕ) (item : ℕ) : List ℕ :=
  if ring.length < kMaxBufferCount then ring ++ [item] else ring

/-- The manager of the buffers. -/
structure AppendBufferManager where
  buffers : ℕ → AppendBuffer
  currentBufferCount : ℕ
  submitRing : List ℕ
  completeRing : List ℕ
  activeBuffer : Option ℕ
  backpressureActive : Bool
  wasBackpressureActive : Bool
  /-- Number of registered resume callbacks, all of them of the engine. -/
  resumeCallbacks : ℕ

namespace AppendBufferManager

/-- `initialize`, with memory for every buffer; the complete ring drops what it has no room
for. -/
def init (bufferCount : ℕ) : AppendBufferManager where
  buffers := fun _ => ⟨0, 0⟩
  currentBufferCount := bufferCount
  submitRing := []
  completeRing := ((List.range bufferCount).take kMaxBufferCount).tail
  activeBuffer := ((List.range bufferCount).take kMaxBufferCount).head?
  backpressureActive := false
  wasBackpressureActive := false
  resumeCallbacks := 0

/-- The active buffer takes the next free one, if it has none. -/
def refill (self : AppendBufferManager) : AppendBufferManager :=
  { self with
    activeBuffer := self.completeRing.head?
    completeRing := self.completeRing.tail }

/-- `try_expand`, with memory for a further buffer. -/
def tryExpand (self : AppendBufferManager) : AppendBufferManager × Bool :=
  if kMaxBufferCount ≤ self.currentBufferCount then (self, false)
  else
    let self := { self with
      buffers := Function.update self.buffers self.currentBufferCount ⟨0, 0⟩
      completeRing := ringEnqueue self.completeRing self.currentBufferCount
      currentBufferCount := self.currentBufferCount + 1 }
    (if self.activeBuffer.isNone then self.refill else self, true)

/-- `check_backpressure`. -/
def checkBackpressure (self : AppendBufferManager) : AppendBufferManager × Bool :=
  let pending := self.submitRing.length
  let self :=
    if self.backpressureActive then
      if pending ≤ kBackpressureLowWater then { self with backpressureActive := false }
      else self
    else if kBackpressureHighWater ≤ pending then
      let (expanded, ok) := self.tryExpand
      if ok then expanded else { expanded with backpressureActive := true }
    else self
  (self, self.backpressureActive)

/-- `reserve`: the buffer and the offset of the reserved bytes. -/
def reserve (self : AppendBufferManager) (len : ℕ) : AppendBufferManager × Option (ℕ × ℕ) :=
  match self.activeBuffer with
  | none => (self, none)
  | some b =>
      let buffer := self.buffers b
      if kFlushThreshold < buffer.used + len ∨ kAppendBufferSize < buffer.used + len then
        (self, none)
      else
        ({ self with buffers :=
            Function.update self.buffers b ⟨buffer.used + len, buffer.entryCount + 1⟩ },
          some (b, buffer.used))

/-- `reserve_with_backpressure`; a buffer without room is reported like backpressure. -/
def reserveWithBackpressure (self : AppendBufferManager) (len : ℕ) :
    AppendBufferManager × Except KvError (ℕ × ℕ) :=
  let (self, active) := self.checkBackpressure
  if active then (self, .error .kBackpressure)
  else
    match self.reserve len with
    | (self, none) => (self, .error .kBackpressure)
    | (self, some slot) => (self, .ok slot)

/-- `submit_current_buffer`. -/
def submitCurrentBuffer (self : AppendBufferManager) : AppendBufferManager :=
  match self.activeBuffer with
  | none => self
  | some b =>
      if (self.buffers b).isEmpty then self
      else { self with submitRing := ringEnqueue self.submitRing b }.refill

/-- `return_buffer`. -/
def returnBuffer (self : AppendBufferManager) (b : ℕ) : AppendBufferManager :=
  let self := { self with
    buffers := Function.update self.buffers b ⟨0, 0⟩
    completeRing := ringEnqueue self.completeRing b }
  if self.activeBuffer.isNone then self.refill else self

/-- `register_resume_callback`; a full ring drops the callback. -/
def registerResumeCallback (self : AppendBufferManager) : AppendBufferManager :=
  { self with resumeCallbacks := min (self.resumeCallbacks + 1) kResumeCallbackCount }

end AppendBufferManager

end SpdkKv
