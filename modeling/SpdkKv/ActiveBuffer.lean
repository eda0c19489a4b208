import SpdkKv.BufferManager

/-!
# The Active Buffer

Writes need an active buffer. When the last free one was submitted there is none, until a buffer
becomes free: `return_buffer` and `try_expand` then make it the active one, but
`check_pending_resets` only puts it among the free ones.

## Main results

* `Slotted.AppendBufferManager.RearmsActive.step_iff`: what one call does to the active buffer.
* `Slotted.AppendBufferManager.rearms_active_iff`: **in which runs no free buffer sits idle**
  while there is no active one.
-/

namespace SpdkKv

namespace Slotted

namespace AppendBufferManager

variable {s s' : AppendBufferManager} {b : ℕ}

/-- **No free buffer sits idle** while there is no active one. -/
def RearmsActive (s : AppendBufferManager) : Prop :=
  s.activeBuffer = none → s.completeRing.toList = []

instance (s : AppendBufferManager) : Decidable s.RearmsActive :=
  inferInstanceAs (Decidable (_ → _))

/-- While there is no active buffer, `check_pending_resets` finds none that it can reset. -/
def ResetsWithActive (s : AppendBufferManager) : BufferEvent → Prop
  | .checkPendingResets => s.activeBuffer = none →
      ∀ b ∈ s.pendingResetQueue.head?, (s.allBuffers b).canReset = false
  | _ => True

/-- After a refill no free buffer sits idle. -/
theorem rearmsActive_refill (s : AppendBufferManager) : s.refill.RearmsActive := by
  rw [refill]
  split
  · next hdeq => exact fun _ => s.completeRing.dequeue_eq_none_iff.mp hdeq
  · exact fun hnone => absurd hnone (Option.some_ne_none _)

/-- With an active buffer none sits idle. -/
theorem rearmsActive_of_isSome (h : s.activeBuffer.isNone = false) : s.RearmsActive :=
  fun hnone => nomatch (congrArg Option.isNone hnone).symm.trans h

/-- A refill when there is no active buffer. -/
theorem rearmsActive_ite_refill (s : AppendBufferManager) :
    (if s.activeBuffer.isNone then s.refill else s).RearmsActive := by
  split_ifs with hactive
  · exact s.rearmsActive_refill
  · exact rearmsActive_of_isSome (Bool.eq_false_iff.mpr hactive)

/-- Neither the active buffer nor the free ones change. -/
theorem RearmsActive.of_eq (h : s.RearmsActive) (hactive : s'.activeBuffer = s.activeBuffer)
    (hring : s'.completeRing = s.completeRing) : s'.RearmsActive := by
  rw [RearmsActive, hactive, hring]
  exact h

theorem RearmsActive.tryExpand (h : s.RearmsActive) (memory : Bool) :
    (s.tryExpand memory).1.RearmsActive := by
  rw [AppendBufferManager.tryExpand]
  split_ifs
  · exact h
  · exact h
  · exact rearmsActive_ite_refill _

theorem RearmsActive.reserve (h : s.RearmsActive) (len : UInt64) :
    (s.reserve len).1.RearmsActive := by
  rw [AppendBufferManager.reserve]
  split
  · exact h
  · dsimp only
    split_ifs
    · exact h
    · exact h.of_eq rfl rfl

theorem RearmsActive.reserveWithBackpressure (h : s.RearmsActive) (len : UInt64)
    (memory : Bool) : (s.reserveWithBackpressure len memory).1.RearmsActive :=
  keeps_reserveWithBackpressure (P := RearmsActive) len memory (fun _ _ h => h.of_eq rfl rfl)
    (fun _ h => h.tryExpand memory) (fun _ h => h.reserve len) h

theorem RearmsActive.submitCurrentBuffer (h : s.RearmsActive) :
    s.submitCurrentBuffer.RearmsActive := by
  rw [AppendBufferManager.submitCurrentBuffer]
  split
  · exact h
  · split_ifs
    · exact h
    · exact rearmsActive_refill _

theorem RearmsActive.getPendingBuffers (h : s.RearmsActive) (maxCount : ℕ) :
    (s.getPendingBuffers maxCount).RearmsActive := by
  induction maxCount generalizing s with
  | zero => exact h
  | succ maxCount ih =>
      rw [AppendBufferManager.getPendingBuffers]
      split
      · exact h
      · exact ih (h.of_eq rfl rfl)

theorem RearmsActive.returnBuffer (h : s.RearmsActive) (b : ℕ) :
    (s.returnBuffer b).RearmsActive := by
  rw [AppendBufferManager.returnBuffer]
  split_ifs
  · exact rearmsActive_ite_refill _
  · exact h.of_eq rfl rfl

/-- Resetting buffers does not change the active one, ... -/
theorem activeBuffer_resetPending (s : AppendBufferManager) (queue : List ℕ) :
    (s.resetPending queue).activeBuffer = s.activeBuffer := by
  induction queue generalizing s with
  | nil => rfl
  | cons b queue ih =>
      rw [resetPending]
      split_ifs
      · exact ih _
      · rfl

/-- ... nor does it take free ones away. -/
theorem length_completeRing_resetPending (s : AppendBufferManager) (queue : List ℕ) :
    s.completeRing.toList.length ≤ (s.resetPending queue).completeRing.toList.length := by
  induction queue generalizing s with
  | nil => exact le_rfl
  | cons b queue ih =>
      rw [resetPending]
      split_ifs
      · refine le_trans ?_ (ih _)
        rw [recycle, enqueueComplete]
        dsimp only
        rw [SimpleRing.toList_enqueue]
        split_ifs
        · rw [List.length_append]
          exact Nat.le_add_right _ _
        · exact le_rfl
      · exact le_rfl

/-- **`check_pending_resets` leaves a free buffer idle** exactly when it resets one while there
is no active buffer. -/
theorem RearmsActive.checkPendingResets_iff (h : s.RearmsActive) :
    s.checkPendingResets.RearmsActive ↔ s.ResetsWithActive .checkPendingResets := by
  rw [RearmsActive, ResetsWithActive, checkPendingResets, activeBuffer_resetPending]
  refine forall_congr' fun hactive => ?_
  have hempty := h hactive
  cases hqueue : s.pendingResetQueue with
  | nil =>
      refine iff_of_true ?_ nofun
      rwa [resetPending]
  | cons b queue =>
      rw [resetPending, List.head?_cons]
      cases hreset : (s.allBuffers b).canReset with
      | false =>
          refine iff_of_true hempty fun x hx => ?_
          rwa [← Option.some.inj hx]
      | true =>
          refine iff_of_false (fun hnil => ?_) fun hno => nomatch hreset.symm.trans (hno b rfl)
          -- the ring is empty, so the buffer that was reset first has room in it
          have hle := length_completeRing_resetPending (s.recycle b) queue
          have hroom : (s.recycle b).completeRing.toList.length = 1 := by
            rw [recycle, enqueueComplete]
            dsimp only
            rw [SimpleRing.toList_enqueue, withBuffer]
            dsimp only
            rw [hempty]
            rfl
          rw [if_pos rfl] at hnil
          rw [hnil, hroom] at hle
          exact absurd hle (by decide)

/-- **Only `check_pending_resets` can leave a free buffer idle.** -/
theorem RearmsActive.step_iff {ev : BufferEvent} (h : s.RearmsActive)
    (hstep : s.step ev = some s') : s'.RearmsActive ↔ s.ResetsWithActive ev := by
  cases ev with
  | checkPendingResets =>
      obtain rfl := Option.some.inj hstep
      exact h.checkPendingResets_iff
  | reserve len memory =>
      obtain rfl := Option.some.inj hstep
      exact iff_of_true (h.reserveWithBackpressure len memory) trivial
  | submitCurrentBuffer =>
      obtain rfl := Option.some.inj hstep
      exact iff_of_true h.submitCurrentBuffer trivial
  | getPendingBuffers maxCount =>
      obtain rfl := Option.some.inj hstep
      exact iff_of_true (h.getPendingBuffers maxCount) trivial
  | returnBuffer b =>
      obtain ⟨-, heq⟩ := Option.ite_none_right_eq_some.mp hstep
      obtain rfl := Option.some.inj heq
      have hkeep : ({ s with handedOut := s.handedOut.erase b } : AppendBufferManager).RearmsActive :=
        h
      exact iff_of_true (hkeep.returnBuffer b) trivial
  | tryExpand memory =>
      obtain rfl := Option.some.inj hstep
      exact iff_of_true (h.tryExpand memory) trivial
  | allocRdmaSlot b size =>
      obtain ⟨-, heq⟩ := Option.ite_none_right_eq_some.mp hstep
      obtain rfl := Option.some.inj heq
      exact iff_of_true (h.of_eq rfl rfl) trivial
  | markRdmaComplete b slotId =>
      obtain ⟨-, heq⟩ := Option.ite_none_right_eq_some.mp hstep
      obtain rfl := Option.some.inj heq
      exact iff_of_true (h.of_eq rfl rfl) trivial
  | releaseRdmaSlot b slotId =>
      obtain ⟨-, heq⟩ := Option.ite_none_right_eq_some.mp hstep
      obtain rfl := Option.some.inj heq
      exact iff_of_true (h.of_eq rfl rfl) trivial

/-- **In which runs no free buffer sits idle** while there is no active one: exactly those in
which `check_pending_resets` resets buffers only while there is an active one, since unlike
`return_buffer` and `try_expand` it does not replace a missing one. -/
theorem rearms_active_iff (bufferCount : ℕ) (bufferSize : UInt64) (events : List BufferEvent) :
    bufferMachine.Always RearmsActive (init bufferCount bufferSize) events ↔
      bufferMachine.Meets ResetsWithActive (init bufferCount bufferSize) events := by
  refine bufferMachine.always_iff_meets (fun _ _ _ (_ : True) _ => trivial)
    (fun _ _ _ _ h hstep => h.step_iff hstep) ?_ trivial (rearmsActive_refill _)
  intro s ev hstep
  cases ev with
  | checkPendingResets => exact nomatch hstep
  | _ => trivial

/-- **A free buffer sits idle**: the only buffer comes back while a slot of it is taken, and
is reset after the slot is released. -/
theorem free_buffer_idle :
    (bufferMachine.run (init 1 0x200000) [.allocRdmaSlot 0 4096, .submitCurrentBuffer,
      .getPendingBuffers 16, .returnBuffer 0, .releaseRdmaSlot 0 0, .checkPendingResets]).map
      (fun s => decide s.RearmsActive) = some false := by
  decide +kernel

end AppendBufferManager

end Slotted

end SpdkKv
