import SpdkKv.BufferLayout
import SpdkKv.Lib.Machine

/-!
# RDMA Slots

A client asks for a slot in the active append buffer, writes its value there by RDMA and
commits the slot. The engine keeps the slots in a table of its own, under numbers of its own;
the slot array of the buffer, which `can_submit` and `can_reset` look at, is only written by
`commit_rdma_slot`, under the number of the engine's table and in whichever buffer is active
at that time. `reservations` accounts for the slots of a buffer since its last reset, and
`uses` for what the slots were when a buffer was written or reset.

## Main results

* `canSubmit_of_unallocated`, `canReset_of_inactive`: the checks of a buffer see no slot.
* `Inv.step`: the invariant of the slots and the buffers.
* `committed_before_write_iff`: **in which runs every slot is committed before its buffer is
  written or reset**.
-/

namespace SpdkKv

/-! ### The slots of a buffer -/

/-- `kMaxSlotsPerBuffer`. -/
def kMaxSlotsPerBuffer : ℕ := 64

/-- `RdmaSlotState`. -/
structure RdmaSlotState where
  isAllocated : Bool
  rdmaWriteComplete : Bool
  offset : UInt32
  size : UInt32
  deriving DecidableEq, Repr

/-- The members of `AppendBuffer` that belong to its RDMA slots. -/
structure BufferSlots where
  epoch : UInt32
  nextSlotId : ℕ
  activeRdmaSlotCount : ℕ
  rdmaSlots : Fin kMaxSlotsPerBuffer → RdmaSlotState

namespace BufferSlots

/-- What the constructor yields. -/
def fresh : BufferSlots := ⟨0, 0, 0, fun _ => ⟨false, false, 0, 0⟩⟩

/-- `mark_rdma_complete`. -/
def markRdmaComplete (self : BufferSlots) (slotId : UInt32) : BufferSlots :=
  if h : slotId.toNat < kMaxSlotsPerBuffer then
    let slot := { self.rdmaSlots ⟨slotId.toNat, h⟩ with rdmaWriteComplete := true }
    { self with rdmaSlots := Function.update self.rdmaSlots ⟨slotId.toNat, h⟩ slot }
  else self

/-- `reset`. -/
def reset (self : BufferSlots) : BufferSlots := { fresh with epoch := self.epoch + 1 }

/-- `can_reset`. -/
def canReset (self : BufferSlots) : Bool := self.activeRdmaSlotCount == 0

/-- `can_submit`, which nothing calls. -/
def canSubmit (self : BufferSlots) : Bool :=
  (List.finRange kMaxSlotsPerBuffer).all fun i =>
    !((self.rdmaSlots i).isAllocated && !(self.rdmaSlots i).rdmaWriteComplete)

end BufferSlots

/-! ### The slots of the engine -/

/-- The states of an `AppendSlot` that the engine uses. -/
inductive AppendSlotState
  | ALLOCATED
  | RDMA_COMPLETE
  deriving DecidableEq, Repr

/-- An entry of `append_slots_`; `ticket` numbers the calls of `alloc_rdma_slot`, which the
32 bits of a slot id do not for ever. -/
structure AppendSlot where
  buffer : ℕ
  offset : ℕ
  len : ℕ
  epoch : UInt32
  slotId : UInt32
  state : AppendSlotState
  ticket : ℕ
  deriving DecidableEq, Repr

/-- A slot that `alloc_rdma_slot` has reserved in a buffer. -/
structure Reservation where
  ticket : ℕ
  committed : Bool
  deriving DecidableEq, Repr

/-- A buffer was handed to the blob write, or reset for reuse, with these slots in it. -/
inductive BufferUse
  | written (buffer : ℕ) (slots : List Reservation)
  | reset (buffer : ℕ) (slots : List Reservation)

/-- The slots in a buffer that was used. -/
def BufferUse.slots : BufferUse → List Reservation
  | .written _ slots => slots
  | .reset _ slots => slots

/-- The members of `Engine` and of its buffers that slots pass through, the buffers whose IO
is pending, and the account of the slots. -/
structure RdmaEngine where
  manager : AppendBufferManager
  slots : ℕ → BufferSlots
  pendingResetQueue : List ℕ
  appendSlots : UInt32 → Option AppendSlot
  nextGlobalSlotId : UInt32
  writing : List ℕ
  issued : ℕ
  reservations : ℕ → List Reservation
  uses : List BufferUse

namespace RdmaEngine

/-- The engine with its buffers right after `initialize`. -/
def start (bufferCount : ℕ) : RdmaEngine where
  manager := .init bufferCount
  slots := fun _ => .fresh
  pendingResetQueue := []
  appendSlots := fun _ => none
  nextGlobalSlotId := 0
  writing := []
  issued := 0
  reservations := fun _ => []
  uses := []

/-- `current_buffer_epoch`. -/
def currentBufferEpoch (self : RdmaEngine) : UInt32 :=
  match self.manager.activeBuffer with
  | some b => (self.slots b).epoch
  | none => 0

/-- `alloc_rdma_slot`. -/
def allocRdmaSlot (self : RdmaEngine) (valueLen : ℕ) : RdmaEngine × Except KvError AppendSlot :=
  let alignedSize := entrySize valueLen
  match self.manager.reserveWithBackpressure alignedSize with
  | (manager, .error e) => ({ self with manager := manager }, .error e)
  | (manager, .ok (b, offset)) =>
      let self := { self with manager := manager }
      let slotId := self.nextGlobalSlotId
      let slot : AppendSlot :=
        ⟨b, offset, alignedSize, self.currentBufferEpoch, slotId, .ALLOCATED, self.issued⟩
      ({ self with
          appendSlots := Function.update self.appendSlots slotId (some slot)
          nextGlobalSlotId := self.nextGlobalSlotId + 1
          issued := self.issued + 1
          reservations := Function.update self.reservations b
            (self.reservations b ++ [⟨self.issued, false⟩]) },
        .ok slot)

/-- The slots with a ticket are committed. -/
def commitTicket (ticket : ℕ) (slots : List Reservation) : List Reservation :=
  slots.map fun r => if r.ticket = ticket then { r with committed := true } else r

/-- `commit_rdma_slot`. -/
def commitRdmaSlot (self : RdmaEngine) (slotId epoch : UInt32) : RdmaEngine × Except KvError Unit :=
  match self.appendSlots slotId with
  | none => (self, .error .kInvalidArgument)
  | some slot =>
      if slot.epoch ≠ epoch then (self, .error .kInvalidArgument)
      else if slot.state ≠ .ALLOCATED then (self, .error .kInvalidArgument)
      else
        let self := { self with
          appendSlots := Function.update self.appendSlots slotId
            (some { slot with state := .RDMA_COMPLETE })
          reservations := fun b => commitTicket slot.ticket (self.reservations b) }
        match self.manager.activeBuffer with
        | none => (self, .ok ())
        | some active =>
            let bufferSlots := (self.slots active).markRdmaComplete slotId
            ({ self with slots := Function.update self.slots active bufferSlots }, .ok ())

/-- The end of `put_rdma` and `put_buffered`: a full active buffer is submitted. -/
def submitIfFull (self : RdmaEngine) : RdmaEngine :=
  match self.manager.activeBuffer with
  | none => self
  | some active =>
      if (self.manager.buffers active).isFull then
        { self with manager := self.manager.submitCurrentBuffer }
      else self

/-- `put_rdma`, as far as buffers are concerned. -/
def putRdma (self : RdmaEngine) (valueOffset : ℕ) : RdmaEngine :=
  if valueOffset ≠ recordHeaderSize then self else self.submitIfFull

/-- `put_buffered`, as far as buffers are concerned; without room the record waits outside of
them. -/
def putBuffered (self : RdmaEngine) (valueLen : ℕ) : RdmaEngine :=
  match self.manager.reserveWithBackpressure (entrySize valueLen) with
  | (manager, .error _) => { self with manager := manager.registerResumeCallback }
  | (manager, .ok _) => submitIfFull { self with manager := manager }

/-- The end of `return_buffer`: the buffer is reset. -/
def resetBuffer (self : RdmaEngine) (b : ℕ) (manager : AppendBufferManager) : RdmaEngine :=
  { self with
    manager := manager
    slots := Function.update self.slots b (self.slots b).reset
    reservations := Function.update self.reservations b []
    uses := self.uses ++ [.reset b (self.reservations b)] }

/-- `return_buffer`. -/
def returnBuffer (self : RdmaEngine) (b : ℕ) : RdmaEngine :=
  if (self.slots b).canReset then self.resetBuffer b (self.manager.returnBuffer b)
  else { self with pendingResetQueue := self.pendingResetQueue ++ [b] }

/-- A turn of `check_pending_resets`; the active buffer is not replaced here. -/
def checkPendingReset (self : RdmaEngine) : RdmaEngine :=
  match self.pendingResetQueue with
  | [] => self
  | b :: queue =>
      if (self.slots b).canReset then
        resetBuffer { self with pendingResetQueue := queue } b
          { self.manager with
            buffers := Function.update self.manager.buffers b ⟨0, 0⟩
            completeRing := ringEnqueue self.manager.completeRing b }
      else self

/-- The next buffer of `get_pending_buffers` goes to `submit_buffer_io`; `fileOk` says whether
the active file takes it or a new one can be allocated. -/
def submitBuffer (self : RdmaEngine) (fileOk : Bool) : RdmaEngine :=
  match self.manager.submitRing with
  | [] => self
  | b :: ring =>
      let self := { self with manager := { self.manager with submitRing := ring } }
      if (self.manager.buffers b).isEmpty then self
      else if fileOk then
        { self with
          writing := self.writing ++ [b]
          uses := self.uses ++ [.written b (self.reservations b)] }
      else self.returnBuffer b

end RdmaEngine

/-- What can happen to buffers and slots. -/
inductive RdmaEvent
  /-- `alloc_rdma_slot`. -/
  | allocRdmaSlot (valueLen : ℕ)
  /-- `commit_rdma_slot`. -/
  | commitRdmaSlot (slotId epoch : UInt32)
  /-- `put_rdma`. -/
  | putRdma (valueOffset : ℕ)
  /-- `put_buffered`. -/
  | putBuffered (valueLen : ℕ)
  /-- The flush trigger of `poll` fires, or `close` flushes. -/
  | flush
  /-- `poll` or `close` goes on with the next submitted buffer. -/
  | submitBuffer (fileOk : Bool)
  /-- The write of a buffer completes. -/
  | complete (b : ℕ)
  /-- `poll` looks at the buffers that wait for a reset. -/
  | checkPendingReset
  deriving DecidableEq, Repr

namespace RdmaEngine

/-- The step of an event; completions are enabled while the write is pending. -/
def step (self : RdmaEngine) : RdmaEvent → Option RdmaEngine
  | .allocRdmaSlot valueLen => some (self.allocRdmaSlot valueLen).1
  | .commitRdmaSlot slotId epoch => some (self.commitRdmaSlot slotId epoch).1
  | .putRdma valueOffset => some (self.putRdma valueOffset)
  | .putBuffered valueLen => some (self.putBuffered valueLen)
  | .flush => some { self with manager := self.manager.submitCurrentBuffer }
  | .submitBuffer fileOk => some (self.submitBuffer fileOk)
  | .complete b =>
      if b ∈ self.writing then
        some (returnBuffer { self with writing := self.writing.erase b } b)
      else none
  | .checkPendingReset => some self.checkPendingReset

/-- Every slot of a list is committed. -/
def AllCommitted (slots : List Reservation) : Prop := ∀ r ∈ slots, r.committed = true

instance (slots : List Reservation) : Decidable (AllCommitted slots) :=
  inferInstanceAs (Decidable (∀ _ ∈ _, _))

/-- **Slots are respected**: no buffer has been written or reset with an uncommitted slot. -/
def RespectsSlots (self : RdmaEngine) : Prop := ∀ use ∈ self.uses, AllCommitted use.slots

instance (self : RdmaEngine) : Decidable self.RespectsSlots :=
  inferInstanceAs (Decidable (∀ _ ∈ _, _))

/-- The commits come in time: when the engine goes on with a submitted buffer, the clients
have committed every slot in it. -/
def InTime (self : RdmaEngine) : RdmaEvent → Prop
  | .submitBuffer _ => ∀ b ∈ self.manager.submitRing.head?,
      (self.manager.buffers b).isEmpty = false → AllCommitted (self.reservations b)
  | _ => True

end RdmaEngine

/-- The buffers and slots as a machine. -/
def rdmaMachine : Machine RdmaEngine RdmaEvent where
  step := RdmaEngine.step

/-! ### The invariant -/

/-- A slot in a buffer, as a record in it. -/
theorem BuffersOk.exists_place {m m' : AppendBufferManager}
    {writes : ℕ → List BufferedPendingWrite} {out : Multiset ℕ} (h : BuffersOk m writes out)
    {valueLen : ℕ} {slot : ℕ × ℕ} (hr : Reserved m m' (entrySize valueLen) slot) :
    ∃ writes', BuffersOk m' writes' out := by
  have hpage : entrySize valueLen % kPageSize = 0 := by
    rw [entrySize_eq]
    exact Nat.mul_mod_left _ _
  have hpos : 0 < entrySize valueLen := by
    have := entrySize_ge valueLen
    omega
  let w : BufferedPendingWrite :=
    ⟨0, 0, slot.2, entrySize valueLen, UInt16.ofNat (entrySize valueLen / kPageSize), 0⟩
  exact ⟨_, h.place hr hpage (w := w) rfl rfl hpos rfl⟩

/-- The buffer that a slot is taken in is not out. -/
theorem BuffersOk.notMem_out {m m' : AppendBufferManager}
    {writes : ℕ → List BufferedPendingWrite} {out : Multiset ℕ} (h : BuffersOk m writes out)
    {len : ℕ} {slot : ℕ × ℕ} (hr : Reserved m m' len slot) : slot.1 ∉ out := fun hmem => by
  refine Multiset.disjoint_left.mp (Multiset.nodup_add.mp h.nodup).2.2 ?_ hmem
  rw [AppendBufferManager.held, hr.active]
  simp

namespace BufferSlots

variable {self : BufferSlots}

/-- **A buffer that knows of no slot can be submitted**, ... -/
theorem canSubmit_of_unallocated (h : ∀ i, (self.rdmaSlots i).isAllocated = false) :
    self.canSubmit = true := by
  rw [canSubmit, List.all_eq_true]
  intro i _
  rw [h i]
  rfl

/-- ... and one that counts no slot can be reset. -/
theorem canReset_of_inactive (h : self.activeRdmaSlotCount = 0) : self.canReset = true := by
  rw [canReset, h]
  rfl

/-- A mark allocates nothing. -/
theorem isAllocated_markRdmaComplete (slotId : UInt32) (i : Fin kMaxSlotsPerBuffer) :
    ((self.markRdmaComplete slotId).rdmaSlots i).isAllocated = (self.rdmaSlots i).isAllocated := by
  rw [markRdmaComplete]
  split_ifs with hlt
  · by_cases hi : i = ⟨slotId.toNat, hlt⟩
    · rw [hi]
      simp only [Function.update_self]
    · exact congrArg RdmaSlotState.isAllocated (Function.update_of_ne hi _ _)
  · rfl

theorem activeRdmaSlotCount_markRdmaComplete (slotId : UInt32) :
    (self.markRdmaComplete slotId).activeRdmaSlotCount = self.activeRdmaSlotCount := by
  rw [markRdmaComplete]
  split_ifs <;> rfl

end BufferSlots

namespace RdmaEngine

variable {s s' : RdmaEngine} {ev : RdmaEvent}

/-- A slot that is committed stays so. -/
theorem AllCommitted.commitTicket {slots : List Reservation} (h : AllCommitted slots)
    (ticket : ℕ) : AllCommitted (commitTicket ticket slots) := by
  intro r hr
  obtain ⟨r', hr', rfl⟩ := List.mem_map.mp hr
  split_ifs
  · rfl
  · exact h r' hr'

/-- The invariant: the buffers are in their places, their slot arrays are unused, no buffer
waits for a reset, and the buffers being written hold committed slots as long as slots are
respected. -/
structure Inv (s : RdmaEngine) : Prop where
  buffers : ∃ writes, BuffersOk s.manager writes (s.writing : Multiset ℕ)
  unallocated : ∀ b i, ((s.slots b).rdmaSlots i).isAllocated = false
  inactive : ∀ b, (s.slots b).activeRdmaSlotCount = 0
  noPending : s.pendingResetQueue = []
  committed : s.RespectsSlots → ∀ b ∈ s.writing, AllCommitted (s.reservations b)

theorem inv_start (bufferCount : ℕ) : (start bufferCount).Inv where
  buffers := ⟨_, BuffersOk.init bufferCount⟩
  unallocated := fun _ _ => rfl
  inactive := fun _ => rfl
  noPending := rfl
  committed := fun _ _ hb => absurd hb List.not_mem_nil

/-- Buffers change their places within the manager. -/
theorem Inv.withManager (h : s.Inv) {manager : AppendBufferManager}
    (hm : ∃ writes, BuffersOk manager writes (s.writing : Multiset ℕ)) :
    ({ s with manager := manager } : RdmaEngine).Inv :=
  ⟨hm, h.unallocated, h.inactive, h.noPending, h.committed⟩

theorem Inv.submitCurrentBuffer (h : s.Inv) :
    ({ s with manager := s.manager.submitCurrentBuffer } : RdmaEngine).Inv :=
  h.withManager (h.buffers.imp fun _ hw => hw.submitCurrentBuffer)

theorem Inv.submitIfFull (h : s.Inv) : s.submitIfFull.Inv := by
  rw [RdmaEngine.submitIfFull]
  split
  · exact h
  · split_ifs
    · exact h.submitCurrentBuffer
    · exact h

@[simp] theorem uses_submitIfFull : s.submitIfFull.uses = s.uses := by
  rw [RdmaEngine.submitIfFull]
  split
  · rfl
  · split_ifs <;> rfl

/-- Without a slot array in use a buffer is reset at once. -/
theorem Inv.returnBuffer_eq (h : s.Inv) (b : ℕ) :
    s.returnBuffer b = s.resetBuffer b (s.manager.returnBuffer b) := by
  rw [RdmaEngine.returnBuffer, if_pos (BufferSlots.canReset_of_inactive (h.inactive b))]

/-- **A buffer that comes back from its write is reset.** -/
theorem Inv.resetBuffer (h : s.Inv) {b : ℕ} {manager : AppendBufferManager}
    (hm : ∃ writes, BuffersOk manager writes (s.writing : Multiset ℕ)) :
    (s.resetBuffer b manager).Inv where
  buffers := hm
  unallocated := by
    intro x i
    simp only [RdmaEngine.resetBuffer]
    by_cases hx : x = b
    · rw [hx, Function.update_self]
      rfl
    · rw [Function.update_of_ne hx]
      exact h.unallocated x i
  inactive := by
    intro x
    simp only [RdmaEngine.resetBuffer]
    by_cases hx : x = b
    · rw [hx, Function.update_self]
      rfl
    · rw [Function.update_of_ne hx]
      exact h.inactive x
  noPending := h.noPending
  committed := by
    intro hrespects x hx
    simp only [RdmaEngine.resetBuffer]
    by_cases hxb : x = b
    · rw [hxb, Function.update_self]
      exact fun _ hr => absurd hr List.not_mem_nil
    · rw [Function.update_of_ne hxb]
      exact h.committed (fun use huse => hrespects use (List.mem_append_left _ huse)) x hx

/-! ### What a step keeps -/

/-- The manager after a reservation that may have failed. -/
theorem Inv.reserve_error (h : s.Inv) {manager : AppendBufferManager} {len : ℕ} {e : KvError}
    (hr : s.manager.reserveWithBackpressure len = (manager, .error e)) :
    ∃ writes, BuffersOk manager writes (s.writing : Multiset ℕ) :=
  h.buffers.imp fun _ hw => (hw.reserve_error hr).1

/-- The manager after one that succeeded, and the buffer it is in. -/
theorem Inv.reserve_ok (h : s.Inv) {manager : AppendBufferManager} {valueLen : ℕ}
    {slot : ℕ × ℕ}
    (hr : s.manager.reserveWithBackpressure (entrySize valueLen) = (manager, .ok slot)) :
    (∃ writes, BuffersOk manager writes (s.writing : Multiset ℕ)) ∧ slot.1 ∉ s.writing := by
  obtain ⟨writes, hw⟩ := h.buffers
  obtain ⟨m₁, hw₁, hreserved, -⟩ := hw.reserve_ok hr
  exact ⟨hw₁.exists_place hreserved, fun hmem => hw₁.notMem_out hreserved (Multiset.mem_coe.mpr hmem)⟩

/-- **A slot is taken in the active buffer**, which is not being written. -/
theorem Inv.allocRdmaSlot (h : s.Inv) (valueLen : ℕ) : (s.allocRdmaSlot valueLen).1.Inv := by
  rw [RdmaEngine.allocRdmaSlot]
  dsimp only
  split
  · next hr => exact h.withManager (h.reserve_error hr)
  · next b offset hr =>
      obtain ⟨hw, hnot⟩ := h.reserve_ok hr
      refine ⟨hw, h.unallocated, h.inactive, h.noPending, fun hrespects x hx => ?_⟩
      have hne : x ≠ b := fun heq => hnot (heq ▸ hx)
      dsimp only
      rw [Function.update_of_ne hne]
      exact h.committed hrespects x hx

@[simp] theorem uses_allocRdmaSlot (valueLen : ℕ) :
    (s.allocRdmaSlot valueLen).1.uses = s.uses := by
  rw [RdmaEngine.allocRdmaSlot]
  dsimp only
  split <;> rfl

/-- **A commit** marks a slot of whichever buffer is active, and takes no slot away. -/
theorem Inv.commitRdmaSlot (h : s.Inv) (slotId epoch : UInt32) :
    (s.commitRdmaSlot slotId epoch).1.Inv := by
  rw [RdmaEngine.commitRdmaSlot]
  split
  · exact h
  · next slot _ =>
      split_ifs
      · exact h
      · exact h
      · dsimp only
        have hcommitted (hrespects : s.RespectsSlots) (b : ℕ) (hb : b ∈ s.writing) :
            AllCommitted (commitTicket slot.ticket (s.reservations b)) :=
          (h.committed hrespects b hb).commitTicket slot.ticket
        split
        · exact ⟨h.buffers, h.unallocated, h.inactive, h.noPending, hcommitted⟩
        · next active _ =>
            refine ⟨h.buffers, fun b i => ?_, fun b => ?_, h.noPending, hcommitted⟩
            · by_cases hb : b = active
              · simp only [hb, Function.update_self, BufferSlots.isAllocated_markRdmaComplete,
                  h.unallocated]
              · simp only [Function.update_of_ne hb, h.unallocated]
            · by_cases hb : b = active
              · simp only [hb, Function.update_self,
                  BufferSlots.activeRdmaSlotCount_markRdmaComplete, h.inactive]
              · simp only [Function.update_of_ne hb, h.inactive]

@[simp] theorem uses_commitRdmaSlot (slotId epoch : UInt32) :
    (s.commitRdmaSlot slotId epoch).1.uses = s.uses := by
  rw [RdmaEngine.commitRdmaSlot]
  split
  · rfl
  · split_ifs
    · rfl
    · rfl
    · dsimp only
      split <;> rfl

theorem Inv.putRdma (h : s.Inv) (valueOffset : ℕ) : (s.putRdma valueOffset).Inv := by
  rw [RdmaEngine.putRdma]
  split_ifs
  · exact h
  · exact h.submitIfFull

@[simp] theorem uses_putRdma (valueOffset : ℕ) : (s.putRdma valueOffset).uses = s.uses := by
  rw [RdmaEngine.putRdma]
  split_ifs
  · rfl
  · exact uses_submitIfFull

theorem Inv.putBuffered (h : s.Inv) (valueLen : ℕ) : (s.putBuffered valueLen).Inv := by
  rw [RdmaEngine.putBuffered]
  split
  · next hr =>
      exact h.withManager ((h.reserve_error hr).imp fun _ hw => hw.move le_rfl rfl rfl)
  · next hr => exact (h.withManager (h.reserve_ok hr).1).submitIfFull

@[simp] theorem uses_putBuffered (valueLen : ℕ) : (s.putBuffered valueLen).uses = s.uses := by
  rw [RdmaEngine.putBuffered]
  split
  · rfl
  · exact uses_submitIfFull

/-- No buffer waits for a reset. -/
theorem Inv.checkPendingReset_eq (h : s.Inv) : s.checkPendingReset = s := by
  rw [RdmaEngine.checkPendingReset, h.noPending]

/-- The use of one more buffer. -/
theorem respects_append {use : BufferUse} :
    (∀ u ∈ s.uses ++ [use], AllCommitted u.slots) ↔ s.RespectsSlots ∧ AllCommitted use.slots := by
  simp [RespectsSlots, or_imp, forall_and]

/-- The buffers when the write of one of them is over. -/
theorem Inv.release (h : s.Inv) {b : ℕ} (hb : b ∈ s.writing) :
    ∃ writes, BuffersOk (s.manager.returnBuffer b) writes (s.writing.erase b : Multiset ℕ) := by
  obtain ⟨writes, hw⟩ := h.buffers
  have hsplit : (s.writing : Multiset ℕ) = (s.writing.erase b : Multiset ℕ) + {b} := by
    rw [add_comm, Multiset.singleton_add, Multiset.cons_coe]
    exact Multiset.coe_eq_coe.mpr (List.perm_cons_erase hb)
  rw [hsplit] at hw
  exact ⟨_, hw.release⟩

/-- A buffer is no longer being written. -/
theorem Inv.erase (h : s.Inv) (b : ℕ) :
    ({ s with writing := s.writing.erase b } : RdmaEngine).Inv where
  buffers := h.buffers.imp fun _ hw =>
    hw.forget (Multiset.coe_le.mpr (List.erase_sublist.subperm))
  unallocated := h.unallocated
  inactive := h.inactive
  noPending := h.noPending
  committed := fun hrespects x hx => h.committed hrespects x (List.mem_of_mem_erase hx)

/-- The write of a buffer is over, and the buffer is reset. -/
theorem Inv.complete (h : s.Inv) {b : ℕ} (hb : b ∈ s.writing) :
    (returnBuffer { s with writing := s.writing.erase b } b).Inv := by
  rw [(h.erase b).returnBuffer_eq]
  exact (h.erase b).resetBuffer (h.release hb)

/-- The next submitted buffer, if it is not empty, is used with the slots in it: it is written,
or reset when there is no file for it. -/
theorem Inv.uses_submitBuffer (h : s.Inv) {b : ℕ} {ring : List ℕ} (fileOk : Bool)
    (hring : s.manager.submitRing = b :: ring)
    (hne : (s.manager.buffers b).isEmpty = false) :
    ∃ use : BufferUse, use.slots = s.reservations b ∧
      (s.submitBuffer fileOk).uses = s.uses ++ [use] := by
  rw [RdmaEngine.submitBuffer, hring]
  dsimp only
  rw [hne, if_neg Bool.false_ne_true]
  split_ifs
  · exact ⟨.written b (s.reservations b), rfl, rfl⟩
  · rw [RdmaEngine.returnBuffer, if_pos (BufferSlots.canReset_of_inactive (h.inactive b))]
    exact ⟨.reset b (s.reservations b), rfl, rfl⟩

theorem Inv.submitBuffer (h : s.Inv) (fileOk : Bool) : (s.submitBuffer fileOk).Inv := by
  rw [RdmaEngine.submitBuffer]
  split
  · exact h
  · next b ring hring =>
      obtain ⟨writes, hw⟩ := h.buffers
      have htake := hw.take hring
      have htaken : ({ s with manager := { s.manager with submitRing := ring } } : RdmaEngine).Inv :=
        h.withManager ⟨writes, htake.forget (Multiset.le_add_right _ _)⟩
      dsimp only
      split_ifs
      · exact htaken
      · have hout : (↑(s.writing ++ [b]) : Multiset ℕ) = ↑s.writing + {b} := by
          rw [← Multiset.coe_add]
          rfl
        refine ⟨⟨writes, by rw [hout]; exact htake⟩, h.unallocated, h.inactive, h.noPending,
          fun hrespects x hx => ?_⟩
        obtain ⟨hbefore, huse⟩ := respects_append.mp hrespects
        rcases List.mem_append.mp hx with hx | hx
        · exact h.committed hbefore x hx
        · rw [List.mem_singleton.mp hx]
          exact huse
      · rw [htaken.returnBuffer_eq]
        exact htaken.resetBuffer ⟨_, htake.release⟩

/-- **What one step keeps.** -/
theorem Inv.step (h : s.Inv) (hstep : s.step ev = some s') : s'.Inv := by
  cases ev with
  | allocRdmaSlot valueLen =>
      obtain rfl := Option.some.inj hstep
      exact h.allocRdmaSlot valueLen
  | commitRdmaSlot slotId epoch =>
      obtain rfl := Option.some.inj hstep
      exact h.commitRdmaSlot slotId epoch
  | putRdma valueOffset =>
      obtain rfl := Option.some.inj hstep
      exact h.putRdma valueOffset
  | putBuffered valueLen =>
      obtain rfl := Option.some.inj hstep
      exact h.putBuffered valueLen
  | flush =>
      obtain rfl := Option.some.inj hstep
      exact h.submitCurrentBuffer
  | submitBuffer fileOk =>
      obtain rfl := Option.some.inj hstep
      exact h.submitBuffer fileOk
  | complete b =>
      obtain ⟨hb, heq⟩ := Option.ite_none_right_eq_some.mp hstep
      obtain rfl := Option.some.inj heq
      exact h.complete hb
  | checkPendingReset =>
      obtain rfl := Option.some.inj hstep
      rwa [h.checkPendingReset_eq]

/-- Taking a submitted buffer respects the slots exactly when the commits have come. -/
theorem Inv.respects_submitBuffer_iff (h : s.Inv) (hrespects : s.RespectsSlots) (fileOk : Bool) :
    (s.submitBuffer fileOk).RespectsSlots ↔ s.InTime (.submitBuffer fileOk) := by
  cases hring : s.manager.submitRing with
  | nil =>
      refine iff_of_true ?_ fun b hb => ?_
      · rwa [RdmaEngine.submitBuffer, hring]
      · rw [hring] at hb
        cases hb
  | cons b ring =>
      have hhead : s.InTime (.submitBuffer fileOk) ↔ ((s.manager.buffers b).isEmpty = false →
          AllCommitted (s.reservations b)) := by
        rw [InTime, hring]
        simp
      rw [hhead]
      cases hempty : (s.manager.buffers b).isEmpty with
      | true =>
          refine iff_of_true ?_ fun hne => nomatch hne
          rw [RdmaEngine.submitBuffer, hring]
          dsimp only
          rw [hempty, if_pos rfl]
          exact hrespects
      | false =>
          obtain ⟨use, hslots, huses⟩ := h.uses_submitBuffer fileOk hring hempty
          rw [RespectsSlots, huses, respects_append, hslots]
          exact ⟨fun hboth _ => hboth.2, fun hcommitted => ⟨hrespects, hcommitted rfl⟩⟩

/-- **Only taking a submitted buffer can break the slots**, and exactly when a commit is
missing. -/
theorem Inv.respects_step_iff (h : s.Inv) (hrespects : s.RespectsSlots)
    (hstep : s.step ev = some s') : s'.RespectsSlots ↔ s.InTime ev := by
  cases ev with
  | submitBuffer fileOk =>
      obtain rfl := Option.some.inj hstep
      exact h.respects_submitBuffer_iff hrespects fileOk
  | complete b =>
      obtain ⟨hb, heq⟩ := Option.ite_none_right_eq_some.mp hstep
      obtain rfl := Option.some.inj heq
      refine iff_of_true ?_ trivial
      rw [(h.erase b).returnBuffer_eq]
      exact respects_append.mpr ⟨hrespects, h.committed hrespects b hb⟩
  | allocRdmaSlot valueLen =>
      obtain rfl := Option.some.inj hstep
      refine iff_of_true ?_ trivial
      rwa [RespectsSlots, uses_allocRdmaSlot]
  | commitRdmaSlot slotId epoch =>
      obtain rfl := Option.some.inj hstep
      refine iff_of_true ?_ trivial
      rwa [RespectsSlots, uses_commitRdmaSlot]
  | putRdma valueOffset =>
      obtain rfl := Option.some.inj hstep
      refine iff_of_true ?_ trivial
      rwa [RespectsSlots, uses_putRdma]
  | putBuffered valueLen =>
      obtain rfl := Option.some.inj hstep
      refine iff_of_true ?_ trivial
      rwa [RespectsSlots, uses_putBuffered]
  | flush =>
      obtain rfl := Option.some.inj hstep
      exact iff_of_true hrespects trivial
  | checkPendingReset =>
      obtain rfl := Option.some.inj hstep
      refine iff_of_true ?_ trivial
      rwa [h.checkPendingReset_eq]

/-! ### Runs -/

/-- **In which runs every slot is committed before its buffer is written or reset**: exactly
those in which the clients commit every slot in a submitted buffer before the engine goes on
with it, since nothing in the engine waits for them. -/
theorem committed_before_write_iff (bufferCount : ℕ) (events : List RdmaEvent) :
    rdmaMachine.Always RespectsSlots (start bufferCount) events ↔
      rdmaMachine.Meets InTime (start bufferCount) events := by
  refine rdmaMachine.always_iff_meets (fun _ _ _ h hstep => h.step hstep)
    (fun _ _ _ h hrespects hstep => h.respects_step_iff hrespects hstep) ?_
    (inv_start bufferCount) fun _ huse => absurd huse List.not_mem_nil
  intro s ev hstep
  cases ev with
  | submitBuffer fileOk => exact nomatch hstep
  | _ => trivial

/-- **An uncommitted slot is written**: the flush trigger fires between the reservation and
the commit. -/
theorem uncommitted_slot_written :
    (rdmaMachine.run (start 4) [.allocRdmaSlot 100, .flush, .submitBuffer true]).map
      (fun s => decide s.RespectsSlots) = some false := by
  decide +kernel

end RdmaEngine

end SpdkKv
