import SpdkKv.RdmaSlots

/-!
# Epochs of RDMA Slots

A slot is committed under the epoch that its buffer had when the slot was allocated, which is to
tell whether the buffer has been reset since. `commit_rdma_slot` compares that epoch with the
one kept in the slot itself, which is the same value; the epoch of the buffer is not read.

## Main results

* `RdmaEngine.commitRdmaSlot_eq_ok_iff`: which commits succeed.
* `RdmaEngine.epochSafe_resetBuffer_iff`: a reset is safe exactly when no slot in the buffer
  can still be committed.
* `RdmaEngine.epoch_safe_iff`: **in which runs no commit succeeds after a reset**.
-/

namespace SpdkKv

namespace RdmaEngine

variable {s s' : RdmaEngine} {ev : RdmaEvent}

/-- The buffer of a slot has not been reset since the slot was allocated. -/
def Unreset (s : RdmaEngine) (slot : AppendSlot) : Prop :=
  ∃ r ∈ s.reservations slot.buffer, r.ticket = slot.ticket

/-- **Epochs protect the slots**: a commit that succeeds is one of a slot whose buffer has not
been reset since. -/
def EpochSafe (s : RdmaEngine) : Prop :=
  ∀ slotId epoch slot, s.appendSlots slotId = some slot →
    (s.commitRdmaSlot slotId epoch).2 = .ok () → s.Unreset slot

/-- No slot in a buffer waits for its commit. -/
def NoneAllocated (s : RdmaEngine) (b : ℕ) : Prop :=
  ∀ slotId slot, s.appendSlots slotId = some slot → slot.buffer = b → slot.state ≠ .ALLOCATED

/-- The commits come before the resets: a buffer whose write completes, or for which there is no
file, holds no slot that waits for its commit. -/
def ResetsCommitted (s : RdmaEngine) : RdmaEvent → Prop
  | .complete b => b ∈ s.writing → s.NoneAllocated b
  | .submitBuffer fileOk => ∀ b ∈ s.manager.submitRing.head?,
      (s.manager.buffers b).isEmpty = false → fileOk = false → s.NoneAllocated b
  | _ => True

/-! ### Which commits succeed -/

/-- **A commit succeeds** for every slot that waits for it, under the epoch of the slot. -/
theorem commitRdmaSlot_eq_ok_iff {slotId epoch : UInt32} :
    (s.commitRdmaSlot slotId epoch).2 = .ok () ↔
      ∃ slot, s.appendSlots slotId = some slot ∧ slot.epoch = epoch ∧ slot.state = .ALLOCATED := by
  rw [commitRdmaSlot]
  cases hslot : s.appendSlots slotId with
  | none => exact iff_of_false (by simp) (by simp)
  | some slot =>
      dsimp only
      split_ifs with hepoch hstate
      · refine iff_of_false (by simp) ?_
        rintro ⟨_, heq, hepoch', -⟩
        exact hepoch (Option.some.inj heq ▸ hepoch')
      · refine iff_of_false (by simp) ?_
        rintro ⟨_, heq, -, hstate'⟩
        exact hstate (Option.some.inj heq ▸ hstate')
      · refine iff_of_true ?_ ⟨slot, rfl, not_not.mp hepoch, not_not.mp hstate⟩
        split <;> rfl

/-- Only the slots that wait for a commit matter. -/
theorem epochSafe_iff : s.EpochSafe ↔ ∀ slotId slot, s.appendSlots slotId = some slot →
    slot.state = .ALLOCATED → s.Unreset slot := by
  constructor
  · intro h slotId slot hslot hstate
    exact h slotId slot.epoch slot hslot (commitRdmaSlot_eq_ok_iff.mpr ⟨slot, hslot, rfl, hstate⟩)
  · intro h slotId epoch slot hslot hok
    obtain ⟨slot', hslot', -, hstate⟩ := commitRdmaSlot_eq_ok_iff.mp hok
    obtain rfl := Option.some.inj (hslot.symm.trans hslot')
    exact h slotId slot hslot hstate

theorem epochSafe_start (bufferCount : ℕ) : (start bufferCount).EpochSafe :=
  epochSafe_iff.mpr nofun

/-- What does not touch the slots keeps them safe. -/
theorem EpochSafe.of_eq (h : s.EpochSafe) (hslots : s'.appendSlots = s.appendSlots)
    (hres : s'.reservations = s.reservations) : s'.EpochSafe := by
  rw [epochSafe_iff] at h ⊢
  intro slotId slot hslot hstate
  rw [Unreset, hres]
  exact h slotId slot (hslots ▸ hslot) hstate

/-! ### What a step does to the slots -/

/-- **A reset is safe** exactly when no slot in the buffer can still be committed. -/
theorem epochSafe_resetBuffer_iff (h : s.EpochSafe) (b : ℕ) (manager : AppendBufferManager) :
    (s.resetBuffer b manager).EpochSafe ↔ s.NoneAllocated b := by
  rw [epochSafe_iff] at h ⊢
  refine forall_congr' fun slotId => forall_congr' fun slot => forall_congr' fun hslot => ?_
  by_cases hb : slot.buffer = b
  · have hgone : ¬ (s.resetBuffer b manager).Unreset slot := by
      rintro ⟨r, hr, -⟩
      simp only [resetBuffer, hb, Function.update_self, List.not_mem_nil] at hr
    exact ⟨fun hsafe _ hstate => hgone (hsafe hstate), fun hnone hstate =>
      absurd hstate (hnone hb)⟩
  · refine iff_of_true (fun hstate => ?_) fun heq => absurd heq hb
    obtain ⟨r, hr, hticket⟩ := h slotId slot hslot hstate
    refine ⟨r, ?_, hticket⟩
    simp only [resetBuffer, Function.update_of_ne hb, hr]

/-- **A new slot** is in its buffer. -/
theorem EpochSafe.allocRdmaSlot (h : s.EpochSafe) (valueLen : ℕ) :
    (s.allocRdmaSlot valueLen).1.EpochSafe := by
  rw [RdmaEngine.allocRdmaSlot]
  dsimp only
  split
  · exact h.of_eq rfl rfl
  · next manager b offset hr =>
      rw [epochSafe_iff] at h ⊢
      intro slotId slot hslot hstate
      dsimp only at hslot
      by_cases hid : slotId = s.nextGlobalSlotId
      · rw [hid, Function.update_self] at hslot
        obtain rfl := Option.some.inj hslot
        refine ⟨⟨s.issued, false⟩, ?_, rfl⟩
        simp only [Function.update_self, List.mem_append, List.mem_singleton, or_true]
      · rw [Function.update_of_ne hid] at hslot
        obtain ⟨r, hmem, hticket⟩ := h slotId slot hslot hstate
        refine ⟨r, ?_, hticket⟩
        rcases eq_or_ne slot.buffer b with rfl | hb
        · simp only [Function.update_self, List.mem_append, hmem, true_or]
        · simp only [Function.update_of_ne hb, hmem]

/-- **A commit** takes no slot out of its buffer. -/
theorem EpochSafe.commitRdmaSlot (h : s.EpochSafe) (slotId epoch : UInt32) :
    (s.commitRdmaSlot slotId epoch).1.EpochSafe := by
  have hmark (slot : AppendSlot) (hstate : slot.state ≠ .ALLOCATED) (ticket : ℕ) :
      ({ s with
        appendSlots := Function.update s.appendSlots slotId (some slot)
        reservations := fun b => commitTicket ticket (s.reservations b) } :
          RdmaEngine).EpochSafe := by
    rw [epochSafe_iff] at h ⊢
    intro id other hother hstate'
    dsimp only at hother
    by_cases hid : id = slotId
    · rw [hid, Function.update_self] at hother
      exact absurd (Option.some.inj hother ▸ hstate') hstate
    · rw [Function.update_of_ne hid] at hother
      obtain ⟨r, hmem, hticket⟩ := h id other hother hstate'
      refine ⟨_, List.mem_map_of_mem hmem, ?_⟩
      split_ifs <;> exact hticket
  rw [RdmaEngine.commitRdmaSlot]
  split
  · exact h
  · next slot _ =>
      split_ifs
      · exact h
      · exact h
      · dsimp only
        split
        · exact hmark { slot with state := .RDMA_COMPLETE } (by simp) slot.ticket
        · exact (hmark { slot with state := .RDMA_COMPLETE } (by simp) slot.ticket).of_eq rfl rfl

theorem EpochSafe.submitIfFull (h : s.EpochSafe) : s.submitIfFull.EpochSafe := by
  rw [RdmaEngine.submitIfFull]
  split
  · exact h
  · split_ifs
    · exact h.of_eq rfl rfl
    · exact h

theorem EpochSafe.putRdma (h : s.EpochSafe) (valueOffset : ℕ) :
    (s.putRdma valueOffset).EpochSafe := by
  rw [RdmaEngine.putRdma]
  split_ifs
  · exact h
  · exact h.submitIfFull

theorem EpochSafe.putBuffered (h : s.EpochSafe) (valueLen : ℕ) :
    (s.putBuffered valueLen).EpochSafe := by
  rw [RdmaEngine.putBuffered]
  split
  · exact h.of_eq rfl rfl
  · next manager _ _ =>
      have hkeep : ({ s with manager := manager } : RdmaEngine).EpochSafe := h.of_eq rfl rfl
      exact hkeep.submitIfFull

/-- A submitted buffer for which there is no file is reset. -/
theorem Inv.epochSafe_submitBuffer_iff (hi : s.Inv) (h : s.EpochSafe) (fileOk : Bool) :
    (s.submitBuffer fileOk).EpochSafe ↔ s.ResetsCommitted (.submitBuffer fileOk) := by
  rw [ResetsCommitted, RdmaEngine.submitBuffer]
  cases hring : s.manager.submitRing with
  | nil => exact iff_of_true h (by simp)
  | cons b ring =>
      dsimp only
      have hhead : (∀ x ∈ (b :: ring).head?, (s.manager.buffers x).isEmpty = false →
          fileOk = false → s.NoneAllocated x) ↔
          ((s.manager.buffers b).isEmpty = false → fileOk = false → s.NoneAllocated b) := by
        simp
      rw [hhead]
      cases hempty : (s.manager.buffers b).isEmpty with
      | true =>
          rw [if_pos rfl]
          exact iff_of_true (h.of_eq rfl rfl) (by simp)
      | false =>
          rw [if_neg Bool.false_ne_true]
          cases fileOk with
          | true =>
              rw [if_pos rfl]
              exact iff_of_true (h.of_eq rfl rfl) (by simp)
          | false =>
              have hkeep : ({ s with manager := { s.manager with submitRing := ring } } :
                  RdmaEngine).EpochSafe := h.of_eq rfl rfl
              rw [if_neg Bool.false_ne_true, returnBuffer,
                if_pos (BufferSlots.canReset_of_inactive (hi.inactive b)),
                epochSafe_resetBuffer_iff hkeep]
              exact ⟨fun hnone _ _ => hnone, fun hnone => hnone rfl rfl⟩

/-- **Only a reset can break the slots**, and exactly when a commit is missing. -/
theorem Inv.epochSafe_step_iff (hi : s.Inv) (h : s.EpochSafe) (hstep : s.step ev = some s') :
    s'.EpochSafe ↔ s.ResetsCommitted ev := by
  cases ev with
  | submitBuffer fileOk =>
      obtain rfl := Option.some.inj hstep
      exact hi.epochSafe_submitBuffer_iff h fileOk
  | complete b =>
      obtain ⟨hb, heq⟩ := Option.ite_none_right_eq_some.mp hstep
      obtain rfl := Option.some.inj heq
      have hkeep : ({ s with writing := s.writing.erase b } : RdmaEngine).EpochSafe :=
        h.of_eq rfl rfl
      rw [(hi.erase b).returnBuffer_eq, epochSafe_resetBuffer_iff hkeep]
      exact ⟨fun hnone _ => hnone, fun hnone => hnone hb⟩
  | allocRdmaSlot valueLen =>
      obtain rfl := Option.some.inj hstep
      exact iff_of_true (h.allocRdmaSlot valueLen) trivial
  | commitRdmaSlot slotId epoch =>
      obtain rfl := Option.some.inj hstep
      exact iff_of_true (h.commitRdmaSlot slotId epoch) trivial
  | putRdma valueOffset =>
      obtain rfl := Option.some.inj hstep
      exact iff_of_true (h.putRdma valueOffset) trivial
  | putBuffered valueLen =>
      obtain rfl := Option.some.inj hstep
      exact iff_of_true (h.putBuffered valueLen) trivial
  | flush =>
      obtain rfl := Option.some.inj hstep
      exact iff_of_true (h.of_eq rfl rfl) trivial
  | checkPendingReset =>
      obtain rfl := Option.some.inj hstep
      refine iff_of_true ?_ trivial
      rwa [hi.checkPendingReset_eq]

/-! ### Runs -/

/-- **In which runs no commit succeeds after a reset**: exactly those in which no buffer is
reset while a slot in it waits for its commit, since the epoch of the buffer is never looked
at. -/
theorem epoch_safe_iff (bufferCount : ℕ) (events : List RdmaEvent) :
    rdmaMachine.Always EpochSafe (start bufferCount) events ↔
      rdmaMachine.Meets ResetsCommitted (start bufferCount) events := by
  refine rdmaMachine.always_iff_meets (fun _ _ _ hi hstep => hi.step hstep)
    (fun _ _ _ hi h hstep => hi.epochSafe_step_iff h hstep) ?_
    (inv_start bufferCount) (epochSafe_start bufferCount)
  intro s ev hstep
  cases ev with
  | submitBuffer fileOk => exact nomatch hstep
  | complete b => exact fun hb => nomatch (if_pos hb).symm.trans hstep
  | _ => trivial

/-- **A commit after a reset**: the buffer is written and reset between the reservation and the
commit, which still succeeds. -/
theorem commit_after_reset :
    ∃ s, rdmaMachine.run (start 4) [.allocRdmaSlot 100, .flush, .submitBuffer true, .complete 0] =
      some s ∧ (s.slots 0).epoch = 1 ∧ ¬ s.EpochSafe := by
  have hrun : (rdmaMachine.run (start 4)
      [.allocRdmaSlot 100, .flush, .submitBuffer true, .complete 0]).map (fun s =>
        ((s.appendSlots 0).map fun slot => (slot.buffer, slot.state),
          s.reservations 0, (s.slots 0).epoch)) =
      some (some (0, .ALLOCATED), [], 1) := by decide +kernel
  obtain ⟨s, hs, hview⟩ := Option.map_eq_some_iff.mp hrun
  obtain ⟨hslot, hview⟩ := Prod.mk.inj hview
  obtain ⟨hres, hepoch⟩ := Prod.mk.inj hview
  obtain ⟨slot, hslot, heq⟩ := Option.map_eq_some_iff.mp hslot
  obtain ⟨hbuffer, hstate⟩ := Prod.mk.inj heq
  refine ⟨s, hs, hepoch, fun hsafe => ?_⟩
  obtain ⟨r, hr, -⟩ := epochSafe_iff.mp hsafe 0 slot hslot hstate
  rw [hbuffer, hres] at hr
  exact List.not_mem_nil hr

end RdmaEngine

end SpdkKv
